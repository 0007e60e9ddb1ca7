import DiceTower.Proofs.Dice.Facing
import DiceTower.Proofs.Dice.Scripted

/-! One die and its rerolls. The law of the die is what comes of throwing it: where each reroll draws
once at most, a face has its share of all the streams of draws; and where rerolls go on until the face
is another one, the law has the faces that some throw ends on. -/

namespace DiceTower

open DiceTower.Computation Drawing Chance

structure Pool.OnlyRerolls (p : Pool) : Prop where
  sides : 1 ≤ p.sides
  operations : ∀ op ∈ p.operations, op.kind = .reroll ∧
    ∃ n, op.operand = .one n ∧ 1 ≤ n ∧ n ≤ p.sides

section Shares

/-- The face of a die after rerolls, each of which has a face of its own to draw. -/
def turned : List (List Int) → List Int → Int → Int
  | [], _, face => face
  | targets :: more, faces, face =>
    turned more faces.tail (if targets.contains face then faces.headD 1 else face)

namespace Law

variable {sides : Int} {fresh law : Law ℚ}

theorem Full.sum_afterRerolls (hf : fresh.Full sides) (hc : fresh.Certain) (hl : law.Full sides)
    (rerolls : List (List Int)) (e : Int → ℚ) :
    ((fresh.afterRerolls rerolls law).map fun f => f.2 * e f.1).sum =
      (law.map fun f => f.2 * fresh.expect rerolls.length fun faces =>
        e (turned rerolls faces f.1)).sum := by
  induction rerolls generalizing law with
  | nil => rfl
  | cons targets rerolls ih =>
    refine (ih (hf.reroll hl targets)).trans ?_
    rw [sum_reroll (hf.faces.trans hl.faces.symm) targets fun face =>
      fresh.expect rerolls.length fun faces => e (turned rerolls faces face)]
    refine congrArg List.sum (List.map_congr_left fun f _ => congrArg (f.2 * ·) ?_)
    rw [List.length_cons, expect]
    simp only [turned, List.tail_cons, List.headD_cons]
    split
    · rfl
    · rw [List.sum_map_mul_right, show (fresh.map (·.2)).sum = 1 from hc, one_mul]

theorem sum_map_ite_one {α : Type} (xs : List α) (q : α → Bool) :
    (xs.map fun x => if q x then (1 : ℚ) else 0).sum = (xs.filter q).length := by
  rw [← List.countP_eq_length_filter]
  induction xs with
  | nil => rfl
  | cons x xs ih =>
    rw [List.map_cons, List.sum_cons, ih, List.countP_cons]
    push_cast
    rw [add_comm]

/-- Of all the streams of faces that a die and its rerolls may draw, those that leave a face on the
die are its chance. -/
theorem chance_ofPool {p : Pool} (hs : 1 ≤ p.sides)
    (h : ∀ op ∈ p.operations, op.recursive = false) (face : Int) :
    (ofPool p : Law ℚ).chance (· = face) =
      (((streams p.sides (p.rerolls.length + 1)).filter fun faces =>
        turned p.rerolls faces.tail (faces.headD 1) = face).length : ℚ) /
          (p.sides : ℚ) ^ (p.rerolls.length + 1) := by
  have hu := full_uniform hs
  have hc := certain_uniform hs
  have hstream : ((uniform p.sides : Law ℚ).map fun f => f.2 * (uniform p.sides : Law ℚ).expect
      p.rerolls.length fun faces => if turned p.rerolls faces f.1 = face then (1 : ℚ) else 0).sum =
        (uniform p.sides : Law ℚ).expect (p.rerolls.length + 1) fun faces =>
          if turned p.rerolls faces.tail (faces.headD 1) = face then (1 : ℚ) else 0 := rfl
  rw [ofPool_eq_afterRerolls hs h, chance_eq_sum]
  simp only [decide_eq_true_eq]
  rw [hu.sum_afterRerolls hc hu p.rerolls fun x => if x = face then (1 : ℚ) else 0, hstream,
    expect_uniform hs, length_streams, (cast_sides hs).1]
  have hcount := sum_map_ite_one (streams p.sides (p.rerolls.length + 1)) fun faces =>
    decide (turned p.rerolls faces.tail (faces.headD 1) = face)
  simp only [decide_eq_true_eq] at hcount
  rw [hcount, Nat.cast_pow]

end Law

end Shares

section Throws

variable {sides cap : Int} {d : Die} {op : Operation} {ops : List Operation} {face face' : Int}
  {stream : List Int}

def Die.rerolledTo (cap : Int) (op : Operation) (face : Int) (d : Die) : Except Fault Die :=
  (d.reroll none op.operand.values (op.attempts cap) { source := (⟨[face]⟩ : Script) }).1

def finalFace? (cap sides : Int) (ops : List Operation) : List Int → Option Int
  | [] => none
  | first :: rest =>
    ((ops.zip rest).foldlM (fun (d : Die) turn => d.rerolledTo cap turn.1 turn.2)
      (Die.ofFace 0 sides first)).toOption.map (·.value)

theorem Operation.attempts_of_once (h : op.recursive = false) : op.attempts cap = 1 := by
  simp [attempts, h]

theorem Die.exists_rerolledTo (cap : Int) (hd : d.Fresh sides) (h : op.recursive = false)
    (hf : 1 ≤ face ∧ face ≤ sides) : ∃ d', d.rerolledTo cap op face = .ok d' ∧ d'.Fresh sides ∧
      d'.value = if op.operand.values.contains d.value then face else d.value := by
  have hone : Reads (d.reroll none op.operand.values (op.attempts cap)) [face] _ :=
    Die.reads_reroll hd op.operand.values (op.one_le_attempts cap) hf
      (.inl (Operation.attempts_of_once h))
  have hreads := hone.and_gives (Die.gives_redrawn hd _ _)
  obtain ⟨d', rest, tray, hrun, -, -, hvalue, hfresh, -⟩ := hreads [] { source := ⟨[face]⟩ } rfl
  refine ⟨d', congrArg Prod.fst hrun, hfresh, ?_⟩
  split at hvalue
  · next ht => rw [hvalue.1, if_pos ht]
  · next ht => rw [hvalue.1, if_neg ht]

theorem Die.exists_foldlM_rerolledTo (cap : Int) (hd : d.Fresh sides)
    (h : ∀ op ∈ ops, op.recursive = false) {faces : List Int} (hl : faces.length = ops.length)
    (hf : AllFaces sides faces) :
    ∃ d', (ops.zip faces).foldlM (fun (d : Die) turn => d.rerolledTo cap turn.1 turn.2) d = .ok d' ∧
      d'.value = turned (ops.map (·.operand.values)) faces d.value := by
  induction ops generalizing d faces with
  | nil => exact ⟨d, rfl, rfl⟩
  | cons op ops ih =>
    obtain ⟨face, faces, rfl⟩ := List.exists_cons_of_length_eq_add_one hl
    obtain ⟨hop, hops⟩ := List.forall_mem_cons.mp h
    obtain ⟨hface, hfaces⟩ := List.forall_mem_cons.mp hf
    obtain ⟨d₁, hrun, hfresh, hvalue⟩ := Die.exists_rerolledTo cap hd hop hface
    obtain ⟨d', hrest, hlast⟩ := ih hfresh hops (by simpa using hl) hfaces
    refine ⟨d', ?_, ?_⟩
    · rw [List.zip_cons_cons, List.foldlM_cons, hrun]
      exact hrest
    · rw [hlast, hvalue]
      rfl

theorem finalFace?_eq (h : ∀ op ∈ ops, op.recursive = false) {faces : List Int}
    (hf : faces ∈ streams sides (ops.length + 1)) : finalFace? cap sides ops faces =
      some (turned (ops.map (·.operand.values)) faces.tail (faces.headD 1)) := by
  obtain ⟨hl, hall⟩ := mem_streams.mp hf
  obtain ⟨first, rest, rfl⟩ := List.exists_cons_of_length_eq_add_one hl
  obtain ⟨hfirst, hrest⟩ := List.forall_mem_cons.mp hall
  obtain ⟨d, hrun, hvalue⟩ := Die.exists_foldlM_rerolledTo cap
    (⟨rfl, hfirst, rfl⟩ : (Die.ofFace 0 sides first).Fresh sides) h (by simpa using hl) hrest
  rw [finalFace?, hrun]
  exact congrArg some hvalue

theorem Pool.OnlyRerolls.rerolls_eq {p : Pool} (h : p.OnlyRerolls) :
    p.rerolls = p.operations.map (·.operand.values) := by
  rw [rerolls, List.filter_eq_self.mpr fun op hop => by simpa using (h.operations op hop).1]

/-- What a reroll may make of the face of a die when it goes on to its end. -/
def Operation.Turns (sides : Int) (op : Operation) (face face' : Int) : Prop :=
  op.operand.values.contains face = false ∧ face' = face ∨
    op.operand.values.contains face = true ∧ (1 ≤ face' ∧ face' ≤ sides) ∧
      (op.recursive = true → op.operand.values.contains face' = false)

/-- The one draw of a die that a reroll needs at most. -/
def Operation.drawsFor (op : Operation) (face face' : Int) : List Int :=
  if op.operand.values.contains face then [face'] else []

theorem reads_rerollAll_singleton (hd : d.Fresh sides) (h : op.Turns sides d.value face') :
    Reads (rerollAll none cap op [d]) (op.drawsFor d.value face' ++ stream) fun r rest =>
      r.1.map (·.value) = [face'] ∧ rest = stream := by
  unfold rerollAll Operation.drawsFor
  dsimp only
  rw [List.mapM_cons, List.mapM_nil]
  rcases h with ⟨ht, rfl⟩ | ⟨ht, hface, hclear⟩
  · have hshows : d.shows op.operand.values = false := by rw [Die.shows, ht, Bool.and_false]
    have hkeeps : d.reroll none op.operand.values (op.attempts cap) =
        (pure d : Drawing Script Die) := if_neg (by simp [hshows])
    rw [ht, hkeeps]
    exact .of_pure ⟨rfl, rfl⟩
  · have hattempts : op.attempts cap = 1 ∨ op.operand.values.contains face' = false := by
      cases hr : op.recursive with
      | false => exact .inl (Operation.attempts_of_once hr)
      | true => exact .inr (hclear hr)
    rw [if_pos ht, List.singleton_append]
    refine ((Die.reads_reroll hd _ (op.one_le_attempts cap) hface hattempts).bind
      (Q := fun dice rest => dice.map (·.value) = [face'] ∧ rest = stream)
        fun d' rest _ hd' => ?_).bind fun dice rest _ hdice => .of_pure hdice
    rw [if_pos ht] at hd'
    exact .of_pure ⟨by rw [List.map_singleton, hd'.1], hd'.2⟩

theorem Operation.Turns.clears (h : op.Turns sides face face') : op.Clears [face'] := by
  intro _ hr x hx
  rw [List.mem_singleton.mp hx]
  rcases h with ⟨ht, rfl⟩ | ⟨-, -, hclear⟩
  · exact ht
  · exact hclear hr

theorem Progress.reads_turning {p : Progress} {rounds : Nat} (hp : Thrown sides 1 rounds p.dice)
    (hface : p.dice.map (·.value) = [face]) (hk : op.kind = .reroll)
    (h : op.Turns sides face face') :
    Reads (p.step none cap op) (op.drawsFor face face' ++ stream) fun p' rest => rest = stream ∧
      Thrown sides 1 (rounds + op.attempts cap) p'.dice ∧ p'.dice.map (·.value) = [face'] ∧
        ∃ a, p'.operations = p.operations ++ [a] ∧ op.Clears a.after := by
  obtain ⟨d, hdice, rfl⟩ := List.map_eq_singleton_iff.mp hface
  have hfresh : d.Fresh sides := hp.lying.fresh d (by rw [hdice]; exact List.mem_singleton_self d)
  have hthrown := (@deals_rerollAll Script _ _ none cap sides 1 rounds _ drawsWithin_any hp op).gives
  have hstep : Reads (p.step none cap op) (op.drawsFor d.value face' ++ stream) fun p' rest =>
      (p'.dice.map (·.value) = [face'] ∧ rest = stream) ∧
        Thrown sides 1 (rounds + op.attempts cap) p'.dice := by
    refine Progress.reads_step (P := fun dice rest => (dice.map (·.value) = [face'] ∧
      rest = stream) ∧ Thrown sides 1 (rounds + op.attempts cap) dice) ?_
    unfold Operation.apply
    rw [hk]
    rw [hdice] at hthrown ⊢
    exact ((reads_rerollAll_singleton hfresh h).and_gives hthrown).bind
      fun r rest _ hr => .of_pure ⟨hr.1, hr.2.1⟩
  refine (hstep.and_gives (Progress.gives_recorded (Gives.trivial _))).mono ?_
  rintro p' _ ⟨⟨⟨hvalue, rfl⟩, hthrown'⟩, affected, full, -, hrecorded, -⟩
  exact ⟨rfl, hthrown', hvalue, _, hrecorded, by rw [hvalue]; exact h.clears⟩

theorem exists_draws_of_shows (hs : 1 ≤ sides) {law : Law ℚ} (hl : law.Whole sides)
    (hops : ∀ op ∈ ops, op.kind = .reroll ∧
      (Law.uniform sides : Law ℚ).chance op.operand.values.contains < 1)
    (h : (ops.foldl (Law.uniform sides : Law ℚ).afterOperation law).Shows face') :
    ∃ face draws, law.Shows face ∧ AllFaces sides draws ∧
      ∀ cap (p : Progress) rounds, Thrown sides 1 rounds p.dice → p.dice.map (·.value) = [face] →
        Reads (ops.foldlM (Progress.step none cap) p) draws fun p' _ =>
          p'.dice.map (·.value) = [face'] ∧ ∃ records, p'.operations = p.operations ++ records ∧
            List.Forall₂ (fun op a => op.Clears a.after) ops records := by
  induction ops generalizing law with
  | nil =>
    refine ⟨face', [], h, by simp [AllFaces], fun cap p rounds _ hp => ?_⟩
    exact .of_pure ⟨hp, [], by simp, .nil⟩
  | cons op ops ih =>
    obtain ⟨⟨hk, hchance⟩, hops⟩ := List.forall_mem_cons.mp hops
    have hu := Law.whole_uniform hs
    have hafter : (Law.uniform sides : Law ℚ).afterOperation law op =
        Law.reroll (Law.uniform sides) law op.operand.values op.recursive := if_pos hk
    have hl₁ := hu.afterOperation hl op
    obtain ⟨face₁, draws, hface₁, hdraws, hrun⟩ := ih hl₁ hops h
    have hin := hl₁.face_within hface₁
    rw [hafter] at hface₁
    obtain ⟨face, hface, hstep⟩ := hface₁.of_reroll hu hl fun _ => hchance
    have hturns : op.Turns sides face face₁ := hstep.imp_right fun hstep => ⟨hstep.1, hin, hstep.2.2⟩
    refine ⟨face, op.drawsFor face face₁ ++ draws, hface, ?_, fun cap p rounds hp hvalue => ?_⟩
    · intro x hx
      rcases List.mem_append.mp hx with hx | hx
      · unfold Operation.drawsFor at hx
        split at hx
        · rwa [List.mem_singleton.mp hx]
        · cases hx
      · exact hdraws x hx
    · rw [List.foldlM_cons]
      refine (Progress.reads_turning hp hvalue hk hturns).bind ?_
      rintro p₁ _ - ⟨rfl, hp₁, hvalue₁, a, ha, hclears⟩
      refine (hrun cap p₁ _ hp₁ hvalue₁).mono fun p' _ ⟨hlast, records, hrecords, hlater⟩ => ?_
      exact ⟨hlast, a :: records, by rw [hrecords, ha, List.append_assoc]; rfl,
        .cons hclears hlater⟩

end Throws

section Pools

variable {p : Pool}

namespace Pool.OnlyRerolls

theorem phases_eq (h : p.OnlyRerolls) : p.phases = p.operations := by
  have hselects : p.operations.filter (·.kind.selects) = [] := by
    refine List.filter_eq_nil_iff.mpr fun op hop => ?_
    rw [(h.operations op hop).1]
    nofun
  have hclamps : p.operations.filter (·.kind.clamps) = [] := by
    refine List.filter_eq_nil_iff.mpr fun op hop => ?_
    rw [(h.operations op hop).1]
    nofun
  have hgrowing : p.operations.filter (fun op => !op.kind.selects && !op.kind.clamps) =
      p.operations := by
    refine List.filter_eq_self.mpr fun op hop => ?_
    rw [(h.operations op hop).1]
    rfl
  rw [phases, hselects, hclamps, hgrowing, List.append_nil, List.append_nil]

theorem chance_lt_one (h : p.OnlyRerolls) (hs : 2 ≤ p.sides) {op : Operation}
    (hop : op ∈ p.operations) :
    (Law.uniform p.sides : Law ℚ).chance op.operand.values.contains < 1 := by
  obtain ⟨-, n, hn, hrange⟩ := h.operations op hop
  have hu := Law.whole_uniform h.sides
  obtain ⟨other, hother, hne⟩ : ∃ other, (1 ≤ other ∧ other ≤ p.sides) ∧ other ≠ n := by
    by_cases h1 : n = 1
    · exact ⟨2, by omega, by omega⟩
    · exact ⟨1, by omega, by omega⟩
  have hrest := (Law.shows_uniform hother).chance_pos hu.nonneg
    (p := fun face => !op.operand.values.contains face) (by simp [hn, Operand.values, hne])
  have hsum := hu.certain.chance_add_not op.operand.values.contains
  linarith

theorem gives_shows (h : p.OnlyRerolls) (cap : Int) :
    Gives ((Term.ofPool { p with count := 1 }).roll none cap none : Drawing Script Roll) fun r =>
      List.Forall₂ (fun op a => op.Clears a.after) p.operations r.operations →
        ∀ d ∈ r.dice, (p.operations.foldl (Law.uniform p.sides : Law ℚ).afterOperation
          (Law.uniform p.sides)).Shows d.value := by
  have hu := Law.whole_uniform h.sides
  have hphases : (Term.ofPool { p with count := 1 }).pool.phases = p.operations := h.phases_eq
  have hgrowing : ∀ op ∈ p.operations, op.kind.selects = false ∧ op.kind.clamps = false := by
    intro op hop
    rw [(h.operations op hop).1]
    exact ⟨rfl, rfl⟩
  have hafter : p.operations.foldl (Law.uniform p.sides : Law ℚ).afterGrowth (Law.uniform p.sides) =
      p.operations.foldl (Law.uniform p.sides : Law ℚ).afterOperation (Law.uniform p.sides) := by
    refine List.foldl_ext _ _ _ fun law op hop => Law.afterGrowth_of_ne _ law ?_
    rw [(h.operations op hop).1]
    nofun
  unfold Term.roll
  rw [hphases]
  refine (deals_thrown_rollDice drawsWithin_any _).gives.bind fun dice ⟨hdice, _⟩ => ?_
  refine (gives_facing_growing hgrowing (p := { dice }) hdice h.sides hu hu).bind ?_
  rintro q ⟨records, hrecords, -, hfacing⟩
  refine .of_pure fun hclears d hd => ?_
  rw [List.nil_append] at hrecords
  rw [hrecords] at hclears
  have huniform (d : Die) (hd : d ∈ dice) : (Law.uniform p.sides : Law ℚ).Shows d.value :=
    Law.shows_uniform (hdice.lying.fresh d hd).face
  rw [← hafter]
  exact (hfacing hclears ⟨fun d hd _ => huniform d hd, huniform⟩).late d hd

/-- A face of the law is what some draws of a single die end on, whatever the cap. -/
theorem exists_draws (h : p.OnlyRerolls) (hs : 2 ≤ p.sides) {face : Int}
    (hf : (p.operations.foldl (Law.uniform p.sides : Law ℚ).afterOperation
      (Law.uniform p.sides)).Shows face) : ∃ draws, AllFaces p.sides draws ∧ ∀ cap,
        Reads ((Term.ofPool { p with count := 1 }).roll none cap none) draws fun r _ =>
          r.dice.map (·.value) = [face] ∧
            List.Forall₂ (fun op a => op.Clears a.after) p.operations r.operations := by
  have hu := Law.whole_uniform h.sides
  have hphases : (Term.ofPool { p with count := 1 }).pool.phases = p.operations := h.phases_eq
  obtain ⟨first, draws, hfirst, hdraws, hrun⟩ := exists_draws_of_shows h.sides hu
    (fun op hop => ⟨(h.operations op hop).1, h.chance_lt_one hs hop⟩) hf
  have hall : AllFaces p.sides (first :: draws) :=
    List.forall_mem_cons.mpr ⟨hu.face_within hfirst, hdraws⟩
  refine ⟨first :: draws, hall, fun cap => ?_⟩
  unfold Term.roll
  rw [hphases]
  refine ((reads_rollDice 0 hall (n := 1) (by simp)).and_gives
    (deals_thrown_rollDice drawsWithin_any _).gives).bind ?_
  rintro dice rest - ⟨⟨hvalue, rfl⟩, hdice, -⟩
  refine (hrun cap { dice } 0 hdice hvalue).bind ?_
  rintro q _ - ⟨hlast, records, hrecords, hclears⟩
  rw [List.nil_append] at hrecords
  exact .of_pure ⟨hlast, by rw [hrecords]; exact hclears⟩

end Pool.OnlyRerolls

/-- The law of a die with rerolls is the law of throwing it. Its faces have a chance each, which add up
to one. Where all rerolls draw once, the chance of a face is its share of the streams that give the die
a face and each reroll one to draw. Where rerolls may go on, a die of more than one side may show the
faces that some draws end on when no reroll is stopped by the cap. -/
theorem Law.ofPool_of_onlyRerolls (h : p.OnlyRerolls) :
    ((ofPool p : Law ℚ) ≠ [] ∧ (∀ f ∈ (ofPool p : Law ℚ), 0 < f.2) ∧
      ((ofPool p : Law ℚ).map (·.2)).sum = 1) ∧
    ((∀ op ∈ p.operations, op.recursive = false) → ∀ cap face,
      (ofPool p : Law ℚ).chance (· = face) =
        (((streams p.sides (p.operations.length + 1)).filter fun faces =>
          finalFace? cap p.sides p.operations faces = some face).length : ℚ) /
            (p.sides : ℚ) ^ (p.operations.length + 1)) ∧
    (2 ≤ p.sides → ∀ face, (ofPool p : Law ℚ).Shows face ↔
      ∃ draws cap₀, AllFaces p.sides draws ∧ ∀ cap ≥ cap₀,
        Reads ((Term.ofPool { p with count := 1 }).roll none cap none) draws fun r _ =>
          r.dice.map (·.value) = [face] ∧
            List.Forall₂ (fun op a => op.Clears a.after) p.operations r.operations) := by
  have hproper := proper_ofPool h.sides
  refine ⟨⟨?_, hproper.positive, hproper.certain⟩, fun honce cap face => ?_, fun hs face => ?_⟩
  · intro hnil
    have hsum := hproper.certain
    rw [hnil] at hsum
    exact absurd hsum (by simp [Certain])
  · have hlength : p.rerolls.length = p.operations.length := by rw [h.rerolls_eq, List.length_map]
    rw [chance_ofPool h.sides honce, hlength]
    congr 3
    refine List.filter_congr fun faces hfaces => ?_
    rw [decide_eq_decide, finalFace?_eq honce hfaces, h.rerolls_eq, Option.some_inj]
  · rw [ofPool_eq_possible, shows_possible]
    constructor
    · intro hf
      obtain ⟨draws, hdraws, hrun⟩ := h.exists_draws hs hf
      exact ⟨draws, 0, hdraws, fun cap _ => hrun cap⟩
    · rintro ⟨draws, cap₀, -, hrun⟩
      obtain ⟨r, rest, tray, hr, -, -, hvalue, hclears⟩ :=
        hrun cap₀ le_rfl [] { source := ⟨draws ++ []⟩ } rfl
      obtain ⟨d, hdice, rfl⟩ := List.map_eq_singleton_iff.mp hvalue
      exact h.gives_shows cap₀ _ _ _ hr hclears d (by rw [hdice]; exact List.mem_singleton_self d)

def fickle : Pool := ⟨1, 4, 0, [⟨.reroll, .one 1, false⟩, ⟨.reroll, .one 2, false⟩]⟩

def stubborn : Pool := ⟨1, 4, 0, [⟨.reroll, .one 1, true⟩, ⟨.reroll, .one 2, false⟩]⟩

/-- The chance of a one after two rerolls, and the draws by which a one that the first reroll takes away
comes back with the second. -/
theorem Law.ofPool_fickle_stubborn :
    (fickle.OnlyRerolls ∧ (∀ op ∈ fickle.operations, op.recursive = false) ∧
      (ofPool fickle : Law ℚ).chance (· = 1) = 9 / 64 ∧
      (ofPool fickle : Law ℚ).chance (· = 1) =
        (((streams 4 3).filter fun faces =>
          finalFace? 100 4 fickle.operations faces = some 1).length : ℚ) / ((4 : Int) : ℚ) ^ 3) ∧
    stubborn.OnlyRerolls ∧ (ofPool stubborn : Law ℚ).Shows 1 ∧
      ((ofPool stubborn : Law ℚ).Shows 1 ↔ ∃ draws cap₀, AllFaces 4 draws ∧ ∀ cap ≥ cap₀,
        Reads ((Term.ofPool stubborn).roll none cap none) draws fun r _ =>
          r.dice.map (·.value) = [1] ∧
            List.Forall₂ (fun op a => op.Clears a.after) stubborn.operations r.operations) := by
  have hfickle : fickle.OnlyRerolls := by
    refine ⟨by decide, fun op hop => ?_⟩
    simp only [fickle, List.mem_cons, List.not_mem_nil, or_false] at hop
    rcases hop with rfl | rfl
    · exact ⟨rfl, 1, rfl, by decide, by decide⟩
    · exact ⟨rfl, 2, rfl, by decide, by decide⟩
  have hstubborn : stubborn.OnlyRerolls := by
    refine ⟨by decide, fun op hop => ?_⟩
    simp only [stubborn, List.mem_cons, List.not_mem_nil, or_false] at hop
    rcases hop with rfl | rfl
    · exact ⟨rfl, 1, rfl, by decide, by decide⟩
    · exact ⟨rfl, 2, rfl, by decide, by decide⟩
  have honce : ∀ op ∈ fickle.operations, op.recursive = false := by decide
  have hshows : (ofPool stubborn : Law ℚ).Shows 1 := ⟨1 / 12, by decide +kernel, by norm_num⟩
  exact ⟨⟨hfickle, honce, by decide +kernel, (ofPool_of_onlyRerolls hfickle).2.1 honce 100 1⟩,
    hstubborn, hshows, (ofPool_of_onlyRerolls hstubborn).2.2 (by decide) 1⟩

end Pools

end DiceTower
