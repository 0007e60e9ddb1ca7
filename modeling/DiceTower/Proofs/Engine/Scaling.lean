import DiceTower.Engine.Outlook
import DiceTower.Engine.Segment
import DiceTower.Proofs.Dice.Totals
import DiceTower.Proofs.Modifier.Checked
import DiceTower.Proofs.Number.Rounding

/-! Scaling a total and scaling its range. Quotients are rounded to double precision before they are
rounded down, which keeps their order; totals below `2 ^ 53` stay as they are. -/

namespace DiceTower

open Number

def Modifier.WholeScale (m : Modifier) : Prop := m.kind.scales = true → ∃ n, m.amount = .whole n

namespace Item

theorem counted_cons (i : Item) (items : List Item) :
    counted (i :: items) = (if i.dropped then 0 else i.value) + counted items := by
  unfold counted
  cases hd : i.dropped
  · rw [List.filter_cons_of_pos (by simp [hd])]
    rfl
  · rw [List.filter_cons_of_neg (by simp [hd])]
    exact (Int.zero_add _).symm

end Item

section Scales

variable {total n k : Int} {range : Range ℚ} {crowded wide : Prop}

theorem divide_whole (hk : k ≠ 0) (total : Int) : Scalar.divide total (.whole k) =
    match floorDiv? total k with
    | some q => .ok q
    | none => .error .quotientTooLarge := by
  have hz : (Scalar.whole k).isZero = false := by simpa [Scalar.isZero] using hk
  unfold Scalar.divide
  rw [hz]
  rfl

theorem floorDiv?_of_divide (hk : k ≠ 0) (h : Scalar.divide total (.whole k) = .ok n) :
    floorDiv? total k = some n := by
  rw [divide_whole hk] at h
  split at h
  · next q hq => rw [hq, Except.ok.inj h]
  · cases h

theorem foretells_divide (hk : 0 < k) (hw : ¬ total.natAbs < 2 ^ 53 → wide) :
    Foretells (Fault.OfSize crowded wide) (fun q => floorDiv? total k = some q)
      (Scalar.divide total (.whole k)) := by
  rw [divide_whole (by omega)]
  split
  · next q hq => exact hq
  · next hq => exact .inr ⟨rfl, hw fun h => floorDiv?_ne_none hk h hq⟩

theorem foretells_scale (range : Range ℚ) {a : Int} (hk : 0 < k)
    (hw : ¬ ((range.min * a).natAbs < 2 ^ 53 ∧ (range.max * a).natAbs < 2 ^ 53) → wide) :
    Foretells (Fault.OfSize crowded wide) (fun r => floorDiv? (range.min * a) k = some r.min ∧
      floorDiv? (range.max * a) k = some r.max) (range.scale (.whole a) (.whole k)) := by
  refine (foretells_divide hk fun h => hw fun hb => h hb.1).bind fun _ hlow => ?_
  refine (foretells_divide hk fun h => hw fun hb => h hb.2).bind fun _ hhigh => ?_
  exact ⟨hlow, hhigh⟩

/-- A range that contains a total contains it when both are scaled. -/
theorem Range.Contains.foretells_scale {a : Int} (h : range.Contains total) (ha : 0 ≤ a)
    (hk : 0 < k) (hn : floorDiv? (total * a) k = some n)
    (hw : ¬ ((range.min * a).natAbs < 2 ^ 53 ∧ (range.max * a).natAbs < 2 ^ 53) → wide) :
    Foretells (Fault.OfSize crowded wide) (fun r : Range ℚ => r.Contains n)
      (range.scale (.whole a) (.whole k)) := by
  refine (DiceTower.foretells_scale range hk hw).mono fun r hr => ⟨?_, ?_⟩
  · exact floorDiv?_mono hk (mul_le_mul_of_nonneg_right h.min ha) hr.1 hn
  · exact floorDiv?_mono hk (mul_le_mul_of_nonneg_right h.max ha) hn hr.2

end Scales

namespace Modifier

variable {m : Modifier} {total : Int} {range : Range ℚ}

theorem scale_cases (hf : m.Fits) (hw : m.WholeScale) :
    m.kind.scales = false ∨ (∃ k, m.kind = .multiplier ∧ m.amount = .whole k ∧ 0 ≤ k) ∨
      ∃ k, m.kind = .divider ∧ m.amount = .whole k ∧ 0 < k := by
  cases hs : m.kind.scales with
  | false => exact .inl rfl
  | true =>
    obtain ⟨k, hk⟩ := hw hs
    obtain ⟨s, hscalar, hneg, hzero⟩ := hf.scale hs
    rw [hk] at hscalar
    cases hscalar
    have h0 : 0 ≤ k := by simpa [Scalar.isNegative] using hneg
    cases hkind : m.kind <;> simp only [hkind, ModifierKind.scales, Bool.false_eq_true] at hs
    case multiplier => exact .inr (.inl ⟨k, rfl, hk, h0⟩)
    case divider =>
      have hz : k ≠ 0 := by simpa [Scalar.isZero] using hzero hkind
      exact .inr (.inr ⟨k, rfl, hk, by omega⟩)

theorem scaled?_of_not_scales (h : m.kind.scales = false) (total : Int) :
    m.scaled? total = .ok none := by
  unfold scaled?
  cases hk : m.kind <;> first | rfl | simp [hk, ModifierKind.scales] at h

theorem scaledBy_of_not_scales (h : m.kind.scales = false) (range : Range ℚ) :
    range.scaledBy m = .ok range := by
  unfold Range.scaledBy
  cases hk : m.kind <;> first | rfl | simp [hk, ModifierKind.scales] at h

theorem scaled?_multiplier {k : Int} {r : Option (Int × String)} (hk : m.kind = .multiplier)
    (ha : m.amount = .whole k) (h : m.scaled? total = .ok r) :
    ∃ label, r = some (total * k, label) := by
  unfold scaled? at h
  rw [hk, ha] at h
  obtain ⟨n, hn, h⟩ := bind_eq_ok_iff.mp h
  obtain ⟨_, _, h⟩ := bind_eq_ok_iff.mp h
  cases hn
  exact ⟨_, (Except.ok.inj h).symm⟩

theorem scaled?_divider {k : Int} {r : Option (Int × String)} (hk : m.kind = .divider)
    (ha : m.amount = .whole k) (h0 : k ≠ 0) (h : m.scaled? total = .ok r) :
    ∃ n label, r = some (n, label) ∧ floorDiv? total k = some n := by
  unfold scaled? at h
  rw [hk, ha] at h
  obtain ⟨n, hn, h⟩ := bind_eq_ok_iff.mp h
  obtain ⟨_, _, h⟩ := bind_eq_ok_iff.mp h
  exact ⟨n, _, (Except.ok.inj h).symm, floorDiv?_of_divide h0 hn⟩

def left (total : Int) (r : Option (Int × String)) : Int := (r.map (·.1)).getD total

def factor (m : Modifier) : Int :=
  match m.kind, m.amount with
  | .multiplier, .whole k => k
  | _, _ => 1

end Modifier

/-- The bounds that a modifier makes of a range before it divides them are exact in double
precision. -/
def Range.Exact (range : Range ℚ) (m : Modifier) : Prop :=
  (range.min * m.factor).natAbs < 2 ^ 53 ∧ (range.max * m.factor).natAbs < 2 ^ 53

namespace Modifier

variable {m : Modifier} {total : Int} {range : Range ℚ}

theorem foretells_scaledBy {r : Option (Int × String)} (hf : m.Fits) (hs : m.WholeScale)
    (h : m.scaled? total = .ok r) (hb : (left total r).natAbs < 2 ^ 53)
    (hr : range.Contains total) {crowded wide : Prop} (hw : ¬ range.Exact m → wide) :
    Foretells (Fault.OfSize crowded wide) (fun range : Range ℚ => range.Contains (left total r))
      (range.scaledBy m) := by
  unfold Range.Exact factor at hw
  rcases scale_cases hf hs with hs | ⟨k, hk, ha, h0⟩ | ⟨k, hk, ha, h0⟩
  · rw [scaled?_of_not_scales hs] at h
    cases h
    rw [scaledBy_of_not_scales hs]
    exact hr
  · obtain ⟨_, rfl⟩ := scaled?_multiplier hk ha h
    unfold Range.scaledBy
    rw [hk, ha] at hw ⊢
    exact hr.foretells_scale h0 Int.one_pos (floorDiv?_one hb) hw
  · obtain ⟨n, _, rfl, hn⟩ := scaled?_divider hk ha (by omega) h
    unfold Range.scaledBy
    rw [hk, ha] at hw ⊢
    exact hr.foretells_scale Int.one_nonneg h0 (by rwa [Int.mul_one]) hw

end Modifier

section Unscaled

variable {ms : List Modifier} (hs : ∀ m ∈ ms, m.kind.scales = false)

include hs

theorem scaleLines_of_unscaled (total : Int) : scaleLines total ms = .ok [] := by
  induction ms with
  | nil => rfl
  | cons m ms ih =>
    obtain ⟨hm, hms⟩ := List.forall_mem_cons.mp hs
    unfold scaleLines
    rw [Modifier.scaled?_of_not_scales hm]
    exact ih hms

theorem foldlM_scaledBy_of_unscaled (range : Range ℚ) :
    ms.foldlM Range.scaledBy range = .ok range := by
  induction ms with
  | nil => rfl
  | cons m ms ih =>
    obtain ⟨hm, hms⟩ := List.forall_mem_cons.mp hs
    rw [List.foldlM_cons, Modifier.scaledBy_of_not_scales hm]
    exact ih hms

end Unscaled

section Lines

variable {range : Range ℚ}

def Range.ExactAll (range : Range ℚ) : List Modifier → Prop
  | [] => True
  | m :: ms => range.Exact m ∧ ∀ scaled, range.scaledBy m = .ok scaled → scaled.ExactAll ms

/-- Every total that scaling goes through is exact in double precision: the one before the lines,
and those after each of them. -/
def ExactFrom (total : Int) (lines : List Item) : Prop :=
  ∀ j ≤ lines.length, (total + Item.counted (lines.take j)).natAbs < 2 ^ 53

theorem scaleLines_cons {m : Modifier} {ms : List Modifier} {total : Int} {lines : List Item}
    (h : scaleLines total (m :: ms) = .ok lines) :
    ∃ r, m.scaled? total = .ok r ∧ (r = none ∧ scaleLines total ms = .ok lines ∨
      ∃ line rest, r.isSome ∧ line.dropped = false ∧ line.value = Modifier.left total r - total ∧
        scaleLines (Modifier.left total r) ms = .ok rest ∧ lines = line :: rest) := by
  unfold scaleLines at h
  obtain ⟨r, hr, h⟩ := bind_eq_ok_iff.mp h
  refine ⟨r, hr, ?_⟩
  split at h
  · exact .inl ⟨rfl, h⟩
  · obtain ⟨rest, hrest, h⟩ := bind_eq_ok_iff.mp h
    exact .inr ⟨_, rest, rfl, rfl, rfl, hrest, (Except.ok.inj h).symm⟩

theorem length_scaleLines {ms : List Modifier} (hm : ∀ m ∈ ms, m.Fits ∧ m.WholeScale) {total : Int}
    {lines : List Item} (h : scaleLines total ms = .ok lines) :
    lines.length = ms.countP (·.kind.scales) := by
  induction ms generalizing total lines with
  | nil =>
    cases h
    rfl
  | cons m ms ih =>
    obtain ⟨⟨hf, hw⟩, hms⟩ := List.forall_mem_cons.mp hm
    obtain ⟨r, hr, ⟨rfl, hl⟩ | ⟨line, rest, hsome, _, _, hl, rfl⟩⟩ := scaleLines_cons h
    · rcases Modifier.scale_cases hf hw with hs | ⟨k, hk, ha, _⟩ | ⟨k, hk, ha, h0⟩
      · rw [List.countP_cons_of_neg (by simp [hs]), ih hms hl]
      · obtain ⟨_, he⟩ := Modifier.scaled?_multiplier hk ha hr
        cases he
      · obtain ⟨_, _, he, _⟩ := Modifier.scaled?_divider hk ha (by omega) hr
        cases he
    · have hs : m.kind.scales = true := by
        by_contra hn
        rw [Modifier.scaled?_of_not_scales (by simpa using hn)] at hr
        cases hr
        cases hsome
      rw [List.countP_cons_of_pos (by simp [hs]), List.length_cons, ih hms hl]

theorem counted_nil : Item.counted [] = 0 := rfl

theorem foretells_foldlM_scaledBy {ms : List Modifier} (hm : ∀ m ∈ ms, m.Fits ∧ m.WholeScale)
    {total : Int} {lines : List Item} (h : scaleLines total ms = .ok lines)
    (he : ExactFrom total lines) (hr : range.Contains total) {crowded wide : Prop}
    (hw : ¬ range.ExactAll ms → wide) :
    Foretells (Fault.OfSize crowded wide)
      (fun range : Range ℚ => range.Contains (total + Item.counted lines))
      (ms.foldlM Range.scaledBy range) := by
  induction ms generalizing total lines range with
  | nil =>
    cases h
    rw [counted_nil, Int.add_zero]
    exact hr
  | cons m ms ih =>
    obtain ⟨⟨hf, hwhole⟩, hms⟩ := List.forall_mem_cons.mp hm
    have hfirst : ¬ range.Exact m → wide := fun h => hw fun hexact => h hexact.1
    have hothers {scaled : Range ℚ} (hscaled : range.scaledBy m = .ok scaled) :
        ¬ scaled.ExactAll ms → wide := fun h => hw fun hexact => h (hexact.2 _ hscaled)
    rw [List.foldlM_cons]
    obtain ⟨r, hs, ⟨rfl, hl⟩ | ⟨line, rest, _, hd, hv, hl, rfl⟩⟩ := scaleLines_cons h
    · have hb := he 0 (Nat.zero_le _)
      rw [List.take_zero, counted_nil, Int.add_zero] at hb
      refine (Modifier.foretells_scaledBy hf hwhole hs hb hr hfirst).and_eq.bind
        fun scaled hscaled => ?_
      exact ih hms hl he hscaled.1 (hothers hscaled.2)
    · have hcount (items : List Item) : total + Item.counted (line :: items) =
          Modifier.left total r + Item.counted items := by
        rw [Item.counted_cons, hd, if_neg (by simp), hv]
        omega
      have hb := he 1 (by simp)
      rw [List.take_succ_cons, hcount, List.take_zero, counted_nil, Int.add_zero] at hb
      refine (Modifier.foretells_scaledBy hf hwhole hs hb hr hfirst).and_eq.bind
        fun scaled hscaled => ?_
      rw [hcount]
      refine ih hms hl (fun j hj => ?_) hscaled.1 (hothers hscaled.2)
      have := he (j + 1) (by simpa using hj)
      rwa [List.take_succ_cons, hcount] at this

end Lines

end DiceTower
