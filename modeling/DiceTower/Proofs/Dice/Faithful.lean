import DiceTower.Proofs.Dice.Phases
import DiceTower.Proofs.Notation.Reread
import DiceTower.Proofs.Play.Fair

/-! What a roll says of its dice is what came of them. Every face that the source gave is among the
faces of a die, in the order in which it fell; the face that counts is the last of them brought
within all bounds; and the total is made of the faces that count. -/

namespace DiceTower

open DiceTower.Computation Drawing

structure Roll.Faithful (t : Term) (r : Roll) : Prop where
  term : r.term = t
  index : r.dice.map (·.index) = List.range r.dice.length
  exploded : r.dice.map (·.exploded) = List.replicate t.pool.count.toNat false ++
    List.replicate (r.dice.length - t.pool.count.toNat) true
  told : ∀ d ∈ r.dice, d.Told t.pool.sides
  out : ∀ d ∈ r.dice, d.dropped = true → d.value = d.natural ∧ d.clamped = false
  kept : ∀ d ∈ r.dice, d.dropped = false →
    d.value = shown t.pool.operations d.natural ∧ (d.clamped = true ↔ d.value ≠ d.natural)
  total : r.total = Number.sum ((r.dice.filter (!·.dropped)).map (·.value)) + t.pool.modifier

section Read

variable {limits : Limits} {cs : List Char} {p : Pool}

theorem Denotes.positive (h : Denotes limits cs p) : ∀ op ∈ p.operations, op.Positive :=
  fun op hop => (h.regular.operations op hop).value

end Read

section Settled

variable {sides : Int} {count rounds : Nat} {dice : List Die}

def Die.Free (d : Die) : Prop := d.value = d.natural ∧ d.clamped = false

theorem free_of_mem_select (kind : OperationKind) (n : Int) (h : ∀ d ∈ dice, d.Free) :
    ∀ d ∈ (select kind n dice).1, d.Free := by
  intro d hd
  obtain ⟨d₀, hd₀, rfl⟩ := List.mem_map.mp hd
  have hfree := h d₀ hd₀
  split
  · exact hfree
  · exact hfree

theorem free_of_mem_settled {ops : List Operation} (hk : ∀ op ∈ ops, op.kind.selects = true)
    (h : ∀ d ∈ dice, d.Free) : ∀ d ∈ settled ops dice, d.Free := by
  induction ops generalizing dice with
  | nil => exact h
  | cons op ops ih =>
    obtain ⟨hop, hops⟩ := List.forall_mem_cons.mp hk
    rw [settled_cons, Operation.settle_of_selects hop]
    exact ih hops (free_of_mem_select op.kind op.number h)

theorem Thrown.free (h : Thrown sides count rounds dice) : ∀ d ∈ dice, d.Free := fun d hd =>
  ⟨(congrArg Die.value (h.untouched d hd)).symm, (congrArg Die.clamped (h.untouched d hd)).symm⟩

theorem Thrown.out_of_mem_settle (h : Thrown sides count rounds dice) {p : Pool} {d : Die}
    (hd : d ∈ p.settle dice) (hout : d.dropped = true) : d.Free := by
  obtain ⟨d₀, hd₀, rfl⟩ := List.mem_map.mp hd
  have hfree := free_of_mem_settled (fun op hop => (List.mem_filter.mp hop).2) h.free d₀ hd₀
  unfold Die.within at hout ⊢
  split at hout
  · next hdropped => rwa [if_pos hdropped]
  · next hdropped => exact absurd hout hdropped

theorem Thrown.kept_of_mem_settle (h : Thrown sides count rounds dice) {p : Pool} {d : Die}
    (hd : d ∈ p.settle dice) (hkept : d.dropped = false) :
    d.value = shown p.operations d.natural ∧ (d.clamped = true ↔ d.value ≠ d.natural) := by
  obtain ⟨d₀, hd₀, rfl⟩ := List.mem_map.mp hd
  obtain ⟨hvalue, hclamped⟩ :=
    free_of_mem_settled (fun op hop => (List.mem_filter.mp hop).2) h.free d₀ hd₀
  unfold Die.within at hkept ⊢
  split at hkept
  · next hdropped => simp [hdropped] at hkept
  · next hdropped =>
    rw [if_neg hdropped, hvalue, hclamped]
    exact ⟨rfl, by simp⟩

end Settled

theorem Term.timeout_of_roll_eq_error {t : Term} (ht : 1 ≤ t.pool.sides)
    (hone : Single t.pool.operations) {σ : Type} [Source σ] (hs : Source.Fair σ)
    {deadline : Option Float} {cap : Int} {label : Option String} {tray tray' : Tray σ}
    {fault : Fault} (hr : t.roll deadline cap label tray = (.error fault, tray')) :
    fault = .timeout ∧ deadline ≠ none := by
  have hdeals := @t.deals_roll σ _ _ deadline cap (hs.drawsWithin deadline ht) (absurd hone) label tray
  rw [hr] at hdeals
  exact hdeals

/-- A roll of what was read tells its dice and its total, whatever the source shows. -/
theorem Term.roll_faithful {limits : Limits} {text : String} {t : Term}
    (h : parse limits text = .ok t) {σ : Type} [Source σ] {deadline : Option Float} {cap : Int}
    {label : Option String} {tray tray' : Tray σ} {r : Roll}
    (hr : t.roll deadline cap label tray = (.ok r, tray')) :
    r.Faithful t ∧ ∃ faces, tray.Dealt t.pool.sides faces tray' ∧ (everyFace r.dice).Perm faces := by
  have hd := (Term.parse_eq_ok_iff.mp h).2
  obtain ⟨records, -, hroll⟩ :=
    Term.exists_roll_eq (σ := σ) hd.positive hd.compatible.bounds deadline cap label
  have hdeals : Deals (fun _ => True) t.pool.sides [] (fun r => everyFace r.dice)
      (fun r => r.Faithful t) (t.roll deadline cap label : Drawing σ Roll) := by
    rw [hroll]
    refine (Pool.deals_grow drawsWithin_any fun _ => trivial).bind fun p ⟨hp, _⟩ => ?_
    have hsame := t.pool.map_thrown_settle p.dice
    have hthrown := hp
    rw [← (List.map_congr_left hp.untouched).trans (List.map_id' _), ← hsame] at hthrown
    refine .of_pure ⟨rfl, ?_, ?_, fun d hmem => ?_, ?_, ?_, ?_⟩ (.of_eq (everyFace_of_map_thrown hsame))
    · simpa [Function.comp_def, Die.thrown] using hthrown.index
    · simpa [Function.comp_def, Die.thrown] using hthrown.exploded
    · have htold := hthrown.told _ (List.mem_map_of_mem hmem)
      exact ⟨htold.shape, htold.faces, htold.natural, htold.rerolled⟩
    · exact fun d hmem hout => hp.out_of_mem_settle hmem hout
    · exact fun d hmem hkept => hp.kept_of_mem_settle hmem hkept
    · exact rfl
  exact hdeals.of_ok hr

def brawl : Term := ⟨"3d6rr1!6kh2min3+1", ⟨3, 6, 1, [⟨.reroll, .one 1, true⟩, ⟨.explode, .one 6, false⟩,
  ⟨.keepHighest, .one 2, false⟩, ⟨.minimum, .one 3, false⟩]⟩⟩

theorem Term.roll_faithful_brawl : parse {} "3d6rr1!6kh2min3+1" = .ok brawl ∧ ∃ r tray' faces,
    brawl.roll none 100 none ({ source := seeded 7 } : Tray StdGen) = (.ok r, tray') ∧
    r.Faithful brawl ∧ Gave 6 (seeded 7) faces tray'.source ∧ (everyFace r.dice).Perm faces := by
  have h : parse {} "3d6rr1!6kh2min3+1" = .ok brawl := eq_ok_of_toOption (by decide +kernel)
  rcases hr : brawl.roll none 100 none ({ source := seeded 7 } : Tray StdGen) with
    ⟨fault | r, tray'⟩
  · have hone : Single brawl.pool.operations := by
      intro op hop
      simp only [brawl, List.mem_cons, List.not_mem_nil, or_false] at hop
      rcases hop with rfl | rfl | rfl | rfl <;> exact ⟨_, rfl⟩
    exact absurd rfl (timeout_of_roll_eq_error (by decide) hone fair_stdGen hr).2
  · obtain ⟨hfaithful, faces, hdealt, hperm⟩ := roll_faithful h hr
    exact ⟨h, r, tray', faces, rfl, hfaithful, hdealt.gave, hperm⟩

end DiceTower
