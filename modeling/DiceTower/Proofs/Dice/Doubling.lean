import DiceTower.Proofs.Dice.Faithful
import DiceTower.Proofs.Dice.Totals

/-! What a critical hit makes of a pool without explosions. Where its dice are doubled, so are the
numbers of dice that its operations keep or leave out, and twice as many dice count in the end; the
faces that they can show stay the same. -/

namespace DiceTower

open DiceTower.Computation Drawing

section Operations

variable {op : Operation} {ops : List Operation}

theorem Operation.number_doubled (h : op.Positive) :
    op.doubled.number = if op.kind.selects then op.number * 2 else op.number := by
  obtain ⟨ho, -⟩ := h.operand
  cases hs : op.kind.selects
  · rw [doubled_of_not_selects hs, if_neg Bool.false_ne_true]
  · rw [if_pos rfl, doubled, if_pos hs, ho]
    rfl

/-- An operation that is doubled keeps twice as many of twice as many dice, also where it has to do
with fewer dice than it asks for. -/
theorem Operation.keeps_doubled (h : op.Positive) (size : Nat) :
    op.doubled.kind.keeps op.doubled.number (2 * size) = 2 * op.kind.keeps op.number size := by
  obtain ⟨-, h1⟩ := h.operand
  rw [op.kind_doubled, number_doubled h]
  cases op.kind
  case keepHighest | keepLowest | dropHighest | dropLowest =>
    simp only [OperationKind.keeps, OperationKind.selects, if_true]
    omega
  all_goals rfl

theorem sizeKept_map_doubled (h : ∀ op ∈ ops, op.Positive) (size : Nat) :
    sizeKept (ops.map Operation.doubled) (2 * size) = 2 * sizeKept ops size := by
  induction ops generalizing size with
  | nil => rfl
  | cons op ops ih =>
    obtain ⟨hop, hops⟩ := List.forall_mem_cons.mp h
    show sizeKept (ops.map Operation.doubled)
      (op.doubled.kind.keeps op.doubled.number (2 * size)) = _
    rw [Operation.keeps_doubled hop, ih hops]
    rfl

theorem shown_map_doubled (ops : List Operation) : shown (ops.map Operation.doubled) = shown ops := by
  funext face
  unfold shown lowestShown highestShown
  rw [numbersOf_map_doubled rfl, numbersOf_map_doubled rfl]

end Operations

namespace Pool

variable {p : Pool} {rules : CriticalRules} {cap cap' : Int}

theorem critical_of_maxBaseDice (h : rules.strategy = .maxBaseDice) :
    p.critical rules = { p with modifier := p.modifier + p.count * p.sides } := by
  rw [critical, h]

theorem critical_of_ne_maxBaseDice (h : rules.strategy ≠ .maxBaseDice) :
    p.critical rules = {
      p with
      count := p.count * 2
      operations := p.operations.map Operation.doubled
      modifier := if rules.strategy = .doubleTotal ∧ rules.affected ≠ .excludeModifiers
        then p.modifier * 2 else p.modifier } := by
  unfold critical
  split
  · next hs => exact absurd hs h
  · rfl

theorem shown_critical (p : Pool) (rules : CriticalRules) :
    shown (p.critical rules).operations = shown p.operations := by
  rcases p.operations_critical rules with he | he <;> rw [he]
  exact shown_map_doubled p.operations

theorem ofPool_critical (p : Pool) (rules : CriticalRules) :
    (Law.ofPool (p.critical rules) : Law ℚ) = Law.ofPool p := by
  unfold Law.ofPool
  rw [sides_critical]
  rcases p.operations_critical rules with he | he <;> rw [he]
  have hstep (law : Law ℚ) (op : Operation) :
      (if op.doubled.kind = .reroll then Law.reroll (Law.uniform p.sides) law
        op.doubled.operand.values op.doubled.recursive else law) =
      if op.kind = .reroll then Law.reroll (Law.uniform p.sides) law op.operand.values op.recursive
        else law := by
    by_cases hk : op.kind = .reroll
    · rw [Operation.doubled_of_not_selects (by rw [hk]; rfl)]
    · rw [if_neg hk, if_neg (by rwa [op.kind_doubled])]
  simp only [List.foldl_map, hstep]

theorem unexploding_critical (h : ∀ op ∈ p.operations, op.kind ≠ .explode) (rules : CriticalRules) :
    ∀ op ∈ (p.critical rules).operations, op.kind ≠ .explode :=
  forall_mem_operations_critical h (fun op ho => by rwa [op.kind_doubled]) rules

def sizeCounted (p : Pool) : Nat := sizeKept p.operations p.count.toNat

theorem sizeCounted_of_maxBaseDice (h : rules.strategy = .maxBaseDice) :
    (p.critical rules).sizeCounted = p.sizeCounted := by
  rw [critical_of_maxBaseDice h]
  rfl

theorem sizeCounted_of_ne_maxBaseDice (hp : ∀ op ∈ p.operations, op.Positive)
    (h : rules.strategy ≠ .maxBaseDice) :
    (p.critical rules).sizeCounted = 2 * p.sizeCounted := by
  rw [critical_of_ne_maxBaseDice h]
  unfold sizeCounted
  dsimp only
  rw [show (p.count * 2).toNat = 2 * p.count.toNat by omega, sizeKept_map_doubled hp]

theorem sizes_of_unexploding (h : ∀ op ∈ p.operations, op.kind ≠ .explode) (cap first : Int) :
    p.fewestFrom cap first = p.count ∧ p.most cap = p.count := by
  have hnone : p.operations.find? (·.kind = .explode) = none :=
    List.find?_eq_none.mpr fun op hop => by simpa using h op hop
  constructor
  · rw [fewestFrom, hnone]
  · rw [most, hnone]

/-- What a critical hit makes of a total of a pool. -/
def criticalTotal (p : Pool) (rules : CriticalRules) (total : Int) : Int :=
  match rules.strategy with
  | .maxBaseDice => total + p.count * p.sides
  | .doubleDice => 2 * (total - p.modifier) + p.modifier
  | .doubleTotal =>
    if rules.affected = .excludeModifiers then 2 * (total - p.modifier) + p.modifier else 2 * total

theorem sizeCounted_mul_critical (hp : ∀ op ∈ p.operations, op.Positive) (rules : CriticalRules)
    (face : Int) : (p.critical rules).sizeCounted * face + (p.critical rules).modifier =
      p.criticalTotal rules (p.sizeCounted * face + p.modifier) := by
  by_cases h : rules.strategy = .maxBaseDice
  · rw [sizeCounted_of_maxBaseDice h, critical_of_maxBaseDice h, criticalTotal, h]
    dsimp only
    omega
  · rw [sizeCounted_of_ne_maxBaseDice hp h, critical_of_ne_maxBaseDice h]
    unfold criticalTotal
    push_cast
    rw [Int.mul_assoc]
    cases hs : rules.strategy with
    | maxBaseDice => exact absurd hs h
    | doubleDice =>
      simp only [reduceCtorEq, false_and, if_false]
      omega
    | doubleTotal =>
      by_cases ha : rules.affected = .excludeModifiers
      · simp only [ha, ne_eq, not_true_eq_false, and_false, if_false, if_true]
        omega
      · simp only [ha, ne_eq, not_false_eq_true, and_self, if_true, if_false]
        omega

theorem Reckoned.of_unexploding {first last : Int} {r : Range ℚ} (h : p.Reckoned cap first last r)
    (hx : ∀ op ∈ p.operations, op.kind ≠ .explode) :
    r.min = p.sizeCounted * shown p.operations first + p.modifier ∧
      r.max = p.sizeCounted * shown p.operations last + p.modifier := by
  obtain ⟨hfewest, hmost⟩ := sizes_of_unexploding hx cap first
  refine ⟨?_, ?_⟩
  · rw [h.min, hfewest]
    rfl
  · rw [h.max, hmost]
    rfl

/-- Without explosions a critical hit does to the least and the greatest total what its rules say. -/
theorem Orderly.exists_estimate_critical (h : p.Orderly)
    (hx : ∀ op ∈ p.operations, op.kind ≠ .explode) (hcount : p.count * 2 ≤ memoryLimit)
    (rules : CriticalRules) (cap cap' : Int) :
    ∃ r r' : Range ℚ, estimate p cap = .ok r ∧ estimate (p.critical rules) cap' = .ok r' ∧
      r'.min = p.criticalTotal rules r.min ∧ r'.max = p.criticalTotal rules r.max := by
  have hp := h.count
  have hcount' : (p.critical rules).count ≤ memoryLimit := by
    by_cases hs : rules.strategy = .maxBaseDice
    · rw [critical_of_maxBaseDice hs]
      show p.count ≤ memoryLimit
      omega
    · rw [critical_of_ne_maxBaseDice hs]
      exact hcount
  obtain ⟨r, first, last, hr, hends, hreckoned⟩ :=
    h.exists_exactEstimate hx (by omega) cap
  obtain ⟨r', first', last', hr', hends', hreckoned'⟩ :=
    (h.critical rules).exists_exactEstimate (unexploding_critical hx rules) hcount' cap'
  rw [ofPool_critical] at hends'
  obtain ⟨rfl, rfl⟩ := hends.unique hends'
  obtain ⟨hmin, hmax⟩ := hreckoned.of_unexploding hx
  obtain ⟨hmin', hmax'⟩ := hreckoned'.of_unexploding (unexploding_critical hx rules)
  rw [shown_critical, sizeCounted_mul_critical h.operations] at hmin' hmax'
  refine ⟨{ r with average := Chance.hundredths r.average },
    { r' with average := Chance.hundredths r'.average }, ?_, ?_, ?_, ?_⟩
  · rw [estimate, hr]
    rfl
  · rw [estimate, hr']
    rfl
  · rw [hmin', ← hmin]
  · rw [hmax', ← hmax]

end Pool

section Rolls

variable {σ σ' : Type} [Source σ] [Source σ'] {deadline deadline' : Option Float} {cap cap' : Int}
  {label label' : Option String} {t : Term}

theorem Term.gives_sizeCounted (h : t.pool.Orderly)
    (hx : ∀ op ∈ t.pool.operations, op.kind ≠ .explode) (label : Option String) :
    Gives (t.roll deadline cap label : Drawing σ Roll) fun r =>
      r.kept.length = t.pool.sizeCounted := by
  refine (t.gives_shows h label).mono fun r ⟨_, size, rolled, hlow, hhigh, hshows⟩ => ?_
  obtain ⟨hfewest, hmost⟩ := Pool.sizes_of_unexploding hx cap 1
  rw [Pool.fewest, hfewest] at hlow
  rw [hmost] at hhigh
  obtain rfl : size = t.pool.count.toNat := Nat.le_antisymm hhigh hlow
  rw [Pool.sizeCounted, ← hshows.length, ← List.length_map (shown t.pool.operations), ← hshows.shown,
    faces, List.length_map]
  rfl

theorem Term.exists_roll_of_fair (h : t.pool.Orderly) (hs : Source.Fair σ) (cap : Int)
    (label : Option String) (tray : Tray σ) :
    ∃ r after, t.roll none cap label tray = (.ok r, after) := by
  rcases hr : t.roll none cap label tray with ⟨fault | r, after⟩
  · exact absurd rfl (t.timeout_of_roll_eq_error h.sides (single_of_positive h.operations) hs hr).2
  · exact ⟨r, after, rfl⟩

/-- Critical hits scale damage as their rules are named. The least and the greatest total of what was
read become those of the rules; and where dice are doubled, twice as many of them count, whatever two
sources show. With fair sources both rolls come to an end. -/
theorem Term.critical_scales_of_parse {limits : Limits} {text : String}
    (h : parse limits text = .ok t) (hflat : t.pool.isFlat = false)
    (hx : ∀ op ∈ t.pool.operations, op.kind ≠ .explode) (rules : CriticalRules) (cap cap' : Int)
    (label label' : Option String) (tray : Tray σ) (tray' : Tray σ') :
    (∃ r r' : Range ℚ, estimate t.pool cap = .ok r ∧
      estimate (t.critical rules).pool cap' = .ok r' ∧
      r'.min = t.pool.criticalTotal rules r.min ∧ r'.max = t.pool.criticalTotal rules r.max) ∧
    (rules.strategy ≠ .maxBaseDice → ∀ deadline deadline' r after r' after',
      t.roll deadline cap label tray = (.ok r, after) →
      (t.critical rules).roll deadline' cap' label' tray' = (.ok r', after') →
      r'.kept.length = 2 * r.kept.length) ∧
    (Source.Fair σ → ∃ r after, t.roll none cap label tray = (.ok r, after)) ∧
    (Source.Fair σ' → ∃ r' after', (t.critical rules).roll none cap' label' tray' =
      (.ok r', after')) := by
  have hd := (parse_eq_ok_iff.mp h).2
  have hp := Pool.orderly_of_denotes hd
  have hp' := hp.critical rules
  have hcritical : (t.critical rules).pool = t.pool.critical rules := by
    rw [critical, if_neg (by simp [hflat])]
    rfl
  refine ⟨?_, fun hs deadline deadline' r after r' after' hr hr' => ?_,
    fun hs => exists_roll_of_fair hp hs cap label tray,
    fun hs => exists_roll_of_fair (by rwa [hcritical]) hs cap' label' tray'⟩
  · rw [hcritical]
    refine hp.exists_estimate_critical hx ?_ rules cap cap'
    have := hd.count_le
    simp only [memoryLimit]
    omega
  · have hkept := gives_sizeCounted hp hx label _ _ _ hr
    have hkept' := gives_sizeCounted (by rwa [hcritical])
      (by rw [hcritical]; exact Pool.unexploding_critical hx rules) label' _ _ _ hr'
    rw [hkept', hkept, hcritical, Pool.sizeCounted_of_ne_maxBaseDice hp.operations hs]

def Term.mauling : Term :=
  ⟨"4d6r1dl1+2", 4, 6, 2, [⟨.reroll, .one 1, false⟩, ⟨.dropLowest, .one 1, false⟩]⟩

theorem Term.critical_scales_mauling : parse {} "4d6r1dl1+2" = .ok mauling ∧
    mauling.pool.isFlat = false ∧ (∀ op ∈ mauling.pool.operations, op.kind ≠ .explode) ∧
    (∃ r r' : Range ℚ, estimate mauling.pool 100 = .ok r ∧
      estimate (mauling.critical { strategy := .doubleTotal }).pool 100 = .ok r' ∧
      r'.min = 2 * r.min ∧ r'.max = 2 * r.max) ∧
    ∃ r after r' after', mauling.roll none 100 none ({ source := seeded 7 } : Tray StdGen) =
        (.ok r, after) ∧
      (mauling.critical { strategy := .doubleTotal }).roll none 100 none
        ({ source := seeded 8 } : Tray StdGen) = (.ok r', after') ∧
      r'.kept.length = 2 * r.kept.length := by
  have h : parse {} "4d6r1dl1+2" = .ok mauling := eq_ok_of_toOption (by decide +kernel)
  have hx : ∀ op ∈ mauling.pool.operations, op.kind ≠ .explode := by decide
  obtain ⟨hrange, hkept, hroll, hroll'⟩ := critical_scales_of_parse h rfl hx
    { strategy := .doubleTotal } 100 100 none none ({ source := seeded 7 } : Tray StdGen)
    ({ source := seeded 8 } : Tray StdGen)
  obtain ⟨r, after, hr⟩ := hroll fair_stdGen
  obtain ⟨r', after', hr'⟩ := hroll' fair_stdGen
  exact ⟨h, rfl, hx, hrange, r, after, r', after', hr, hr',
    hkept nofun none none r after r' after' hr hr'⟩

end Rolls

end DiceTower
