import DiceTower.Proofs.Dice.Totals
import DiceTower.Proofs.Odds.Rerolls
import DiceTower.Proofs.Play.Scripted

/-! A pool rolled on given faces. The dice show the first of them, and the rerolls take the next. -/

namespace DiceTower

open DiceTower.Computation Drawing

variable {sides cap : Int} {stream : List Int}

def AllFaces (sides : Int) (stream : List Int) : Prop := ∀ face ∈ stream, 1 ≤ face ∧ face ≤ sides

theorem AllFaces.of_suffix {rest : List Int} (h : AllFaces sides stream) (hs : rest <:+ stream) :
    AllFaces sides rest := fun face hf => h face (hs.subset hf)

theorem reads_rollDice (next : Nat) {n : Nat} (h : AllFaces sides stream)
    (hn : n ≤ stream.length) :
    Reads (rollDice none sides next n) stream fun dice rest =>
      dice.map (·.value) = stream.take n ∧ rest = stream.drop n := by
  induction n generalizing next stream with
  | zero => exact .of_pure ⟨rfl, rfl⟩
  | succ n ih =>
    cases stream with
    | nil => simp at hn
    | cons face stream =>
      obtain ⟨hface, hfaces⟩ := List.forall_mem_cons.mp h
      refine (reads_draw hface).bind ?_
      rintro _ _ _ ⟨rfl, rfl⟩
      refine (ih (next + 1) hfaces (Nat.le_of_succ_le_succ hn)).bind ?_
      rintro dice _ _ ⟨hdice, rfl⟩
      exact .of_pure ⟨congrArg _ hdice, rfl⟩

section Rerolls

theorem reads_redraw {targets : List Int} {face : Int} (h : 1 ≤ face ∧ face ≤ sides) {n : Nat}
    (hn : n = 0 ∨ targets.contains face = false) :
    Reads (redraw none sides targets (n + 1)) (face :: stream) fun faces rest =>
      faces = [face] ∧ rest = stream := by
  refine (reads_draw h).bind ?_
  rintro _ stream _ ⟨rfl, rfl⟩
  split
  · next ht =>
    obtain rfl := hn.resolve_right (by rw [ht]; nofun)
    exact (Reads.of_pure (P := fun faces rest => faces = [] ∧ rest = stream) ⟨rfl, rfl⟩).bind
      fun _ _ _ hn => .of_pure ⟨by rw [hn.1], hn.2⟩
  · exact .of_pure ⟨rfl, rfl⟩

theorem Die.reads_reroll {d : Die} (hd : d.Fresh sides) (targets : List Int) {attempts : Nat}
    (ha : 1 ≤ attempts) {face : Int} (h : 1 ≤ face ∧ face ≤ sides)
    (hc : attempts = 1 ∨ targets.contains face = false) :
    Reads (d.reroll none targets attempts) (face :: stream) fun d' rest =>
      if targets.contains d.value then d'.value = face ∧ rest = stream
      else d'.value = d.value ∧ rest = face :: stream := by
  have hshows : d.shows targets = targets.contains d.value := by simp [shows, hd.counts]
  obtain ⟨n, rfl⟩ : ∃ n, attempts = n + 1 := ⟨attempts - 1, by omega⟩
  unfold reroll
  rw [hshows, hd.shape]
  split
  · refine (reads_redraw h (hc.imp_left Nat.succ.inj)).bind ?_
    rintro _ _ _ ⟨rfl, rfl⟩
    exact .of_pure ⟨rfl, rfl⟩
  · exact .of_pure ⟨rfl, rfl⟩

theorem reads_mapM_reroll {dice : List Die} (hd : ∀ d ∈ dice, d.Fresh sides)
    (targets : List Int) (h : AllFaces sides stream) (hl : dice.length ≤ stream.length) :
    Reads (dice.mapM (·.reroll none targets 1)) stream fun dice' rest =>
      rerolled targets (dice.map (·.value)) stream = (dice'.map (·.value), rest) := by
  induction dice generalizing stream with
  | nil => exact .of_pure rfl
  | cons d dice ih =>
    obtain ⟨hd, hds⟩ := List.forall_mem_cons.mp hd
    cases stream with
    | nil => simp at hl
    | cons face stream =>
      have hface := h face (by simp)
      rw [List.mapM_cons, List.map_cons]
      unfold rerolled
      refine (Die.reads_reroll hd targets le_rfl hface (.inl rfl)).bind fun d' rest hs hd' => ?_
      rw [List.length_cons, List.length_cons] at hl
      split at hd'
      · next hc =>
        obtain ⟨hv, rfl⟩ := hd'
        refine (ih hds (h.of_suffix hs) (by omega)).bind fun dice' rest _ hr => .of_pure ?_
        rw [if_pos hc, List.tail_cons, List.headD_cons, hr, List.map_cons, hv]
      · next hc =>
        obtain ⟨hv, rfl⟩ := hd'
        refine (ih hds h (by simp; omega)).bind fun dice' rest _ hr => .of_pure ?_
        rw [if_neg hc, hr, List.map_cons, hv]

theorem reads_rerollAll {dice : List Die} (hd : Lying sides dice) {op : Operation}
    (hop : op.recursive = false) (h : AllFaces sides stream) (hl : dice.length ≤ stream.length) :
    Reads (rerollAll none cap op dice) stream fun r rest =>
      rerolled op.operand.values (dice.map (·.value)) stream = (r.1.map (·.value), rest) := by
  have hattempts : op.attempts cap = 1 := by simp [Operation.attempts, hop]
  unfold rerollAll
  rw [hattempts]
  exact (reads_mapM_reroll hd.fresh _ h hl).bind fun dice' rest _ hr => .of_pure hr

theorem Progress.reads_step {p : Progress} {op : Operation} {P : List Die → List Int → Prop}
    (h : Reads (op.apply none cap p.dice) stream fun r rest => P r.1 rest) :
    Reads (p.step none cap op) stream fun p' rest => P p'.dice rest := by
  rw [step_eq]
  refine h.bind fun r rest _ hr => ?_
  unfold record
  split
  · refine (reads_note _).bind ?_
    rintro _ _ _ rfl
    exact .of_pure hr
  · exact .of_pure hr

/-- The rerolls of a pool take the faces that come after those of its dice. -/
theorem reads_rerollings {ops : List Operation}
    (hops : ∀ op ∈ ops, op.kind = .reroll ∧ op.recursive = false) {p : Progress}
    {count rounds : Nat} (hp : Thrown sides count rounds p.dice) (h : AllFaces sides stream)
    (hl : ops.length * p.dice.length ≤ stream.length) :
    Reads (ops.foldlM (Progress.step none cap) p) stream fun p' _ =>
      Lying sides p'.dice ∧ p'.dice.length = p.dice.length ∧ p'.dice.map (·.value) =
        (rerollings (ops.map (·.operand.values)) (p.dice.map (·.value)) stream).1 := by
  induction ops generalizing p stream rounds with
  | nil => exact .of_pure ⟨hp.lying, rfl, rfl⟩
  | cons op ops ih =>
    obtain ⟨⟨hkind, honce⟩, hops⟩ := List.forall_mem_cons.mp hops
    rw [List.length_cons, Nat.succ_mul] at hl
    have hreroll := (reads_rerollAll hp.lying honce h (by omega)).and_gives
      (@deals_rerollAll Script _ _ none cap _ _ _ _ drawsWithin_any hp op).gives
    refine (Progress.reads_step (P := fun dice rest =>
      rerolled op.operand.values (p.dice.map (·.value)) stream = (dice.map (·.value), rest) ∧
        Thrown sides count (rounds + op.attempts cap) dice ∧
          dice.length = p.dice.length) ?_).bind ?_
    · unfold Operation.apply
      rw [hkind]
      exact hreroll.bind fun r rest _ hr => .of_pure hr
    · rintro p' rest hs ⟨hr, hp', hlength⟩
      have hrest := length_le_rerolled op.operand.values (p.dice.map (·.value)) stream
      simp only [hr, List.length_map] at hrest
      refine (ih hops hp' (h.of_suffix hs) (by rw [hlength]; omega)).mono fun p'' _ hp'' => ?_
      refine ⟨hp''.1, hp''.2.1.trans hlength, hp''.2.2.trans ?_⟩
      rw [List.map_cons, rerollings, hr]

end Rerolls

end DiceTower
