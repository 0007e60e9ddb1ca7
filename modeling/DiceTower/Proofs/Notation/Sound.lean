import DiceTower.Critical.Policy
import DiceTower.Proofs.Engine.Activation
import DiceTower.Proofs.Notation.RoundTrip

/-! Pools that can be rolled and estimated alike. What a parser reads is one of them, unless it
rerolls until the face changes, and it stays one when a second die is added or a critical hit
changes the dice. -/

namespace DiceTower

def Operation.Positive (op : Operation) : Prop := ∃ n, op.operand = .one n ∧ 1 ≤ n

structure Operation.Sound (op : Operation) : Prop where
  value : ∃ n, op.operand = .one n ∧ 1 ≤ n
  once : op.recursive = false

/-- Dice with positive numbers in their operations, of which at most one explodes, and no bounds that
cross. -/
structure Pool.Orderly (p : Pool) : Prop where
  count : 1 ≤ p.count
  sides : 1 ≤ p.sides
  operations : ∀ op ∈ p.operations, op.Positive
  compatible : Compatible p.operations

structure Pool.Sound (p : Pool) : Prop where
  count : 1 ≤ p.count
  sides : 1 ≤ p.sides
  operations : ∀ op ∈ p.operations, op.Sound
  compatible : Compatible p.operations

/-- A pool that some parser gives for some text, without a reroll that may go on. -/
structure Pool.Foreseeable (p : Pool) : Prop where
  parsed : ∃ limits cs, Pool.parse limits cs = .ok p
  once : ∀ op ∈ p.operations, op.recursive = false

theorem Pool.Sound.orderly {p : Pool} (h : p.Sound) : p.Orderly :=
  ⟨h.count, h.sides, fun op hop => (h.operations op hop).value, h.compatible⟩

theorem single_of_positive {ops : List Operation} (h : ∀ op ∈ ops, op.Positive) : Single ops := by
  intro op hop
  obtain ⟨n, hn, _⟩ := h op hop
  exact ⟨n, hn⟩

theorem single_of_sound {ops : List Operation} (h : ∀ op ∈ ops, op.Sound) : Single ops :=
  single_of_positive fun op hop => (h op hop).value

theorem one_le_of_mem_numbersOf {kind : OperationKind} {ops : List Operation}
    (h : ∀ op ∈ ops, op.Positive) {n : Int} (hn : n ∈ numbersOf kind ops) : 1 ≤ n := by
  obtain ⟨op, hop, _, hv⟩ := mem_numbersOf.mp hn
  obtain ⟨m, hm, h1⟩ := h op hop
  rw [hm, Operand.values, List.mem_singleton] at hv
  rwa [hv]

theorem numbersOf_append (kind : OperationKind) (ops ops' : List Operation) :
    numbersOf kind (ops ++ ops') = numbersOf kind ops ++ numbersOf kind ops' := by
  simp [numbersOf]

theorem compatible_nil : Compatible [] := ⟨by simp, by simp [BoundsAgree, numbersOf]⟩

theorem Compatible.find?_eq {ops : List Operation} (h : Compatible ops) {op : Operation}
    (hop : op ∈ ops) (hk : op.kind = .explode) :
    ops.find? (·.kind = .explode) = some op := by
  have hmem : op ∈ ops.filter (·.kind = .explode) := List.mem_filter.mpr ⟨hop, by simpa using hk⟩
  have hlength : (ops.filter (·.kind = .explode)).length ≤ 1 := by
    rw [← List.countP_eq_length_filter]
    exact h.explosions
  obtain ⟨op', he⟩ := List.length_eq_one_iff.mp (Nat.le_antisymm hlength (List.length_pos_of_mem hmem))
  rw [he, List.mem_singleton] at hmem
  rw [← List.head?_filter, he, hmem]
  rfl

theorem Denotes.compatible {limits : Limits} {cs : List Char} {p : Pool}
    (h : Denotes limits cs p) : Compatible p.operations := by
  cases h with
  | number => exact compatible_nil
  | dice _ _ _ _ _ _ _ _ hc => exact hc

section Doubled

theorem numbersOf_map_doubled {kind : OperationKind} (h : kind.selects = false)
    (ops : List Operation) : numbersOf kind (ops.map Operation.doubled) = numbersOf kind ops := by
  induction ops with
  | nil => rfl
  | cons op ops ih =>
    have hsplit (op : Operation) (ops : List Operation) :
        numbersOf kind (op :: ops) = numbersOf kind [op] ++ numbersOf kind ops :=
      numbersOf_append kind [op] ops
    have hone : numbersOf kind [op.doubled] = numbersOf kind [op] := by
      by_cases hk : op.kind = kind
      · rw [Operation.doubled_of_not_selects (by rwa [hk])]
      · have hk' : op.doubled.kind ≠ kind := by rwa [op.kind_doubled]
        simp [numbersOf, hk, hk']
    rw [List.map_cons, hsplit, hsplit op ops, ih, hone]

theorem Compatible.doubled {ops : List Operation} (h : Compatible ops) :
    Compatible (ops.map Operation.doubled) := by
  constructor
  · rw [List.countP_map]
    simpa [Function.comp_def, Operation.kind_doubled] using h.explosions
  · unfold BoundsAgree
    rw [numbersOf_map_doubled rfl, numbersOf_map_doubled rfl]
    exact h.bounds

theorem Operation.Positive.doubled {op : Operation} (h : op.Positive) : op.doubled.Positive := by
  obtain ⟨n, hn, h1⟩ := h
  rcases Operation.operand_doubled hn with hd | hd
  · exact ⟨n, hd, h1⟩
  · exact ⟨n * 2, hd, by omega⟩

end Doubled

namespace Pool

variable {p : Pool}

theorem compatible_doubledFor (h : Compatible p.operations) (advantage : Bool) :
    Compatible (p.doubledFor advantage).operations := by
  constructor
  · cases advantage <;> simpa [Pool.doubledFor] using h.explosions
  · cases advantage <;> simpa [Pool.doubledFor, BoundsAgree, numbersOf] using h.bounds

theorem compatible_critical (h : Compatible p.operations) (rules : CriticalRules) :
    Compatible (p.critical rules).operations := by
  rcases p.operations_critical rules with he | he <;> rw [he]
  · exact h
  · exact h.doubled

theorem Orderly.sound (h : p.Orderly) (ho : ∀ op ∈ p.operations, op.recursive = false) : p.Sound :=
  ⟨h.count, h.sides, fun op hop => ⟨h.operations op hop, ho op hop⟩, h.compatible⟩

theorem orderly_of_denotes {limits : Limits} {cs : List Char} (h : Denotes limits cs p) :
    p.Orderly := by
  rcases h.isFlat_or_allowed with ⟨hf, _⟩ | ha
  · rw [isFlat_iff.mp hf]
    exact ⟨le_refl _, le_refl _, by simp, compatible_nil⟩
  · refine ⟨ha.count.1, ha.sides.1, fun op hop => ?_, ha.compatible⟩
    obtain ⟨n, hn, h1, _⟩ := (ha.operations op hop).value
    exact ⟨n, hn, h1⟩

theorem Foreseeable.sound (h : p.Foreseeable) : p.Sound := by
  obtain ⟨limits, cs, hp⟩ := h.parsed
  exact (orderly_of_denotes (denotes_of_parse hp)).sound h.once

theorem Sound.doubledFor (h : p.Sound) (advantage : Bool) :
    (p.doubledFor advantage).Sound := by
  refine ⟨(by decide : (1 : Int) ≤ 2), h.sides, fun op hop => ?_,
    compatible_doubledFor h.compatible advantage⟩
  rcases List.mem_cons.mp hop with rfl | hop
  · exact ⟨⟨1, rfl, le_refl _⟩, rfl⟩
  · exact h.operations op hop

theorem Orderly.critical (h : p.Orderly) (rules : CriticalRules) : (p.critical rules).Orderly where
  count := one_le_count_critical h.count rules
  sides := by rw [sides_critical]; exact h.sides
  operations := forall_mem_operations_critical h.operations (fun _ => Operation.Positive.doubled) rules
  compatible := compatible_critical h.compatible rules

theorem Sound.critical (h : p.Sound) (rules : CriticalRules) : (p.critical rules).Sound :=
  (h.orderly.critical rules).sound (forall_mem_operations_critical
    (fun op hop => (h.operations op hop).once) (fun op ho => op.recursive_doubled.trans ho) rules)

end Pool

theorem Term.sound_critical {t : Term} (h : t.pool.Sound) (rules : CriticalRules) :
    (t.critical rules).pool.Sound :=
  Term.of_critical h (h.critical rules)

/-- Where a formula is read from a text, only rerolls that may go on are in the way of a preview. -/
theorem Formula.foreseeable_of_parse {limits : Limits} {text : String} {f : Formula}
    (h : parse limits text = .ok f)
    (ho : ∀ s ∈ f.segments, ∀ op ∈ s.term.pool.operations, op.recursive = false) :
    ∀ s ∈ f.segments, s.term.pool.Foreseeable := by
  intro s hs
  obtain ⟨cs, hd⟩ := ((readable_of_parse h).2 s hs).pool
  exact ⟨⟨limits, cs, Pool.parse_of_denotes hd⟩, ho s hs⟩

theorem Term.sound_withAdvantage {t : Term} (h : t.pool.Sound) (kind : RollType)
    (ms : List Modifier) : (t.withAdvantage kind ms).term.pool.Sound := by
  rcases t.term_withAdvantage kind ms with he | ⟨_, advantage, he⟩
  · rwa [he]
  · rw [he]
    exact h.doubledFor advantage

end DiceTower
