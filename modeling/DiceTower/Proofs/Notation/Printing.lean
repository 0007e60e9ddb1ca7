import Mathlib.Algebra.Order.Ring.Nat
import DiceTower.Proofs.Notation.Grammar
import DiceTower.Notation.Reading

/-! The notation of a pool is a text of the grammar, and denotes the pool that it was written for.
-/

namespace DiceTower

open Text Number

structure Operation.Allowed (sides : Int) (op : Operation) : Prop where
  value : ∃ n, op.operand = .one n ∧ 1 ≤ n ∧ n ≤ if op.kind.selects then 999999999 else sides
  recursive : op.recursive = true → op.kind = .reroll

structure Pool.Allowed (limits : Limits) (p : Pool) : Prop where
  count : 1 ≤ p.count ∧ p.count ≤ limits.dice
  sides : 1 ≤ p.sides ∧ p.sides ≤ limits.sides
  modifier : (p.modifier.natAbs : Int) ≤ limits.modifier
  operations : ∀ op ∈ p.operations, op.Allowed p.sides
  compatible : Compatible p.operations

/-- Limits within which every number has at most nine digits. -/
structure Limits.Printable (limits : Limits) : Prop where
  dice : limits.dice ≤ 999999999
  sides : limits.sides ≤ 999999999
  modifier : limits.modifier ≤ 999999998

theorem digitRun_digits {n : Nat} (h : n ≤ 999999999) : DigitRun (digits n) n :=
  ⟨digits_ne_nil n, fun _ => isDigit_of_mem_digits, length_digits_le h, by rw [numeral_digits]⟩

theorem whole_of_nonneg {n : Int} (h : 0 ≤ n) : whole n = digits n.natAbs := by
  rw [whole, signed, if_neg (by simpa using h)]

theorem whole_of_neg {n : Int} (h : n < 0) : whole n = '-' :: digits n.natAbs := by
  rw [whole, signed, if_pos (by simpa using h)]

theorem digitRun_whole {n : Int} (h0 : 0 ≤ n) (h : n ≤ 999999999) : DigitRun (whole n) n := by
  have hr := digitRun_digits (n := n.natAbs) (by omega)
  rwa [Int.natAbs_of_nonneg h0, ← whole_of_nonneg h0] at hr

theorem Operation.written_of_one {sides n : Int} {op : Operation} (h : op.operand = .one n) :
    op.written sides = (op.kind.mark op.recursive).chars ++
      if op.kind = .explode ∧ n = sides then [] else whole n := by
  obtain ⟨kind, operand, recursive⟩ := op
  subst h
  cases kind <;> simp [written, Operand.values, Operand.written]
  split <;> simp

theorem Operation.Allowed.piece {sides : Int} {op : Operation} (h : op.Allowed sides)
    (hs : sides ≤ 999999999) :
    ∃ m ds, op.written sides = m.chars ++ ds ∧ Piece sides m ds [op] 0 := by
  obtain ⟨n, hn, h1, hle⟩ := h.value
  have hw := @written_of_one sides n op hn
  have hr := h.recursive
  obtain ⟨kind, operand, recursive⟩ := op
  simp only at hn hle hw hr
  subst hn
  have hrun : DigitRun (whole n) n := digitRun_whole (by omega) (by split at hle <;> omega)
  refine ⟨_, _, hw, ?_⟩
  cases kind
  case reroll =>
    simp only [reduceCtorEq, false_and, if_false]
    cases recursive
    · exact .reroll hrun h1 hle
    · exact .rerollUntil hrun h1 hle
  case explode =>
    have hf : recursive = false := by simpa using hr
    subst hf
    by_cases hn : n = sides
    · subst hn
      rw [if_pos ⟨rfl, rfl⟩]
      exact .explodeHighest
    · rw [if_neg fun h => hn h.2]
      exact .explode hrun h1 hle
  case minimum | maximum =>
    have hf : recursive = false := by simpa using hr
    subst hf
    exact .bound rfl hrun h1 hle
  all_goals
    have hf : recursive = false := by simpa using hr
    subst hf
    exact .selection rfl (.inr hrun) h1

theorem pieces_written {sides : Int} {ops : List Operation} (h : ∀ op ∈ ops, op.Allowed sides)
    (hs : sides ≤ 999999999) : Pieces sides (ops.flatMap (·.written sides)) ops 0 := by
  induction ops with
  | nil => exact .nil
  | cons op ops ih =>
    obtain ⟨m, ds, hw, hp⟩ := (h op (by simp)).piece hs
    have ih := ih fun op hop => h op (by simp [hop])
    rw [List.flatMap_cons, hw]
    exact hp.pieces.append ih

theorem pieces_asBonus (sides : Int) {n : Int} (h : n.natAbs ≤ 999999999) :
    Pieces sides (asBonus n) [] n := by
  have hr := digitRun_digits h
  unfold asBonus withSign
  by_cases h0 : n = 0
  · rw [if_pos h0, h0]
    exact .nil
  · by_cases hn : n < 0
    · have hp := (@Piece.minus sides _ _ hr).pieces
      rw [if_neg h0, if_pos hn, whole_of_neg hn]
      rwa [show -(n.natAbs : Int) = n by omega] at hp
    · have hp := (@Piece.plus sides _ _ hr).pieces
      rw [if_neg h0, if_neg hn, whole_of_nonneg (by omega)]
      rwa [show (n.natAbs : Int) = n by omega] at hp

theorem denotes_whole {limits : Limits} {n : Int} (hn : n.natAbs ≤ 999999999)
    (h : ((n - 1).natAbs : Int) ≤ limits.modifier) :
    Denotes limits (whole n) ⟨1, 1, n - 1, []⟩ := by
  have hr := digitRun_digits hn
  by_cases h0 : n < 0
  · have he : -1 * (n.natAbs : Int) = n := by omega
    have hd : Denotes limits _ _ := .number .minus hr (by rwa [he])
    rwa [he, List.singleton_append, ← whole_of_neg h0] at hd
  · have he : 1 * (n.natAbs : Int) = n := by omega
    have hd : Denotes limits _ _ := .number .none hr (by rwa [he])
    rwa [he, List.nil_append, ← whole_of_nonneg (by omega)] at hd

theorem Pool.isFlat_iff {p : Pool} : p.isFlat = true ↔ p = ⟨1, 1, p.modifier, []⟩ := by
  obtain ⟨count, sides, modifier, ops⟩ := p
  simp [isFlat, and_assoc]

theorem Pool.denotes_written_of_isFlat {limits : Limits} {p : Pool} (hf : p.isFlat = true)
    (hn : (1 + p.modifier).natAbs ≤ 999999999) (hm : (p.modifier.natAbs : Int) ≤ limits.modifier) :
    Denotes limits p.written p := by
  have he : (1 + p.modifier) - 1 = p.modifier := by omega
  have hd : Denotes limits (whole (1 + p.modifier)) _ := denotes_whole hn (by rwa [he])
  rw [written, if_pos hf]
  rwa [he, ← isFlat_iff.mp hf] at hd

theorem Pool.written_of_not_isFlat {p : Pool} (hf : ¬ p.isFlat = true) :
    p.written = whole p.count ++ 'd' :: (whole p.sides ++
      (p.operations.flatMap (·.written p.sides) ++ asBonus p.modifier)) := by
  simp [written, hf]

theorem Pool.Allowed.denotes_written_of_not_isFlat {limits : Limits} {p : Pool}
    (h : p.Allowed limits) (hf : ¬ p.isFlat = true) (hc : p.count ≤ 999999999)
    (hs : p.sides ≤ 999999999) (hm : p.modifier.natAbs ≤ 999999999) :
    Denotes limits p.written p := by
  obtain ⟨h1, h2⟩ := h.count
  obtain ⟨h3, h4⟩ := h.sides
  have ht := (pieces_written h.operations hs).append (pieces_asBonus p.sides hm)
  rw [List.append_nil, Int.zero_add] at ht
  rw [written_of_not_isFlat hf]
  exact .dice (.inr (digitRun_whole (by omega) hc)) (digitRun_whole (by omega) hs) ht h1 h2 h3 h4
    h.modifier h.compatible

theorem Pool.Allowed.denotes_written {limits : Limits} {p : Pool} (h : p.Allowed limits)
    (hl : limits.Printable) : Denotes limits p.written p := by
  have hd := hl.dice
  have hs := hl.sides
  have hm := hl.modifier
  have hmodifier := h.modifier
  by_cases hf : p.isFlat = true
  · exact denotes_written_of_isFlat hf (by omega) hmodifier
  · exact h.denotes_written_of_not_isFlat hf (h.count.2.trans hd) (h.sides.2.trans hs) (by omega)

theorem foldl_numeral_lt (ds : List Char) (n : Nat) :
    ds.foldl (fun n c => 10 * n + (digitValue? c).getD 0) n < (n + 1) * 10 ^ ds.length := by
  induction ds generalizing n with
  | nil => simp
  | cons d ds ih =>
    have hd : (digitValue? d).getD 0 ≤ 9 := by
      cases hv : digitValue? d with
      | none => simp
      | some v => exact Nat.le_of_lt_succ (digitValue?_lt hv)
    refine (ih (10 * n + (digitValue? d).getD 0)).trans_le ?_
    rw [List.length_cons, Nat.pow_succ, Nat.mul_comm _ 10, ← Nat.mul_assoc]
    exact Nat.mul_le_mul_right _ (by omega)

theorem numeral_lt (ds : List Char) : numeral ds < 10 ^ ds.length := by
  have h := foldl_numeral_lt ds 0
  rwa [Nat.zero_add, Nat.one_mul] at h

theorem DigitRun.le {ds : List Char} {n : Int} (h : DigitRun ds n) : n ≤ 999999999 := by
  have hlt := numeral_lt ds
  have hle : 10 ^ ds.length ≤ 10 ^ 9 := Nat.pow_le_pow_right (by decide) h.length_le
  rw [h.value]
  omega

theorem Denotes.count_le {limits : Limits} {cs : List Char} {p : Pool} (h : Denotes limits cs p) :
    p.count ≤ 999999999 := by
  cases h with
  | number => exact (by decide : (1 : Int) ≤ 999999999)
  | dice hcount =>
    rcases hcount with ⟨_, rfl⟩ | hcount
    · exact (by decide : (1 : Int) ≤ 999999999)
    · exact hcount.le

theorem Denotes.sides_le {limits : Limits} {cs : List Char} {p : Pool} (h : Denotes limits cs p) :
    p.sides ≤ 999999999 := by
  cases h with
  | number => exact (by decide : (1 : Int) ≤ 999999999)
  | dice _ hsides => exact hsides.le

theorem Piece.allowed {sides n : Int} {m : Mark} {ds : List Char} {ops : List Operation}
    (h : Piece sides m ds ops n) (hs : 1 ≤ sides) : ∀ op ∈ ops, op.Allowed sides := by
  intro op hop
  cases h with
  | @selection m kind ds n hm hn h1 =>
    obtain rfl := List.mem_singleton.mp hop
    have hle : n ≤ 999999999 := by
      rcases hn with ⟨_, rfl⟩ | hn
      · decide
      · exact hn.le
    have hk : kind.selects = true := by cases m <;> cases hm <;> rfl
    exact ⟨⟨n, rfl, h1, by simpa [hk] using hle⟩, nofun⟩
  | reroll _ h1 hs =>
    obtain rfl := List.mem_singleton.mp hop
    exact ⟨⟨_, rfl, h1, hs⟩, nofun⟩
  | rerollUntil _ h1 hs =>
    obtain rfl := List.mem_singleton.mp hop
    exact ⟨⟨_, rfl, h1, hs⟩, fun _ => rfl⟩
  | explodeHighest =>
    obtain rfl := List.mem_singleton.mp hop
    exact ⟨⟨_, rfl, hs, Int.le_refl _⟩, nofun⟩
  | explode _ h1 hs =>
    obtain rfl := List.mem_singleton.mp hop
    exact ⟨⟨_, rfl, h1, hs⟩, nofun⟩
  | @bound m kind ds n hm _ h1 hs =>
    obtain rfl := List.mem_singleton.mp hop
    have hk : kind.selects = false := by cases m <;> cases hm <;> rfl
    exact ⟨⟨n, rfl, h1, by simpa [hk] using hs⟩, nofun⟩
  | plus | minus => cases hop

theorem Pieces.allowed {sides n : Int} {cs : List Char} {ops : List Operation}
    (h : Pieces sides cs ops n) (hs : 1 ≤ sides) : ∀ op ∈ ops, op.Allowed sides := by
  induction h with
  | nil => simp
  | cons hp _ ih =>
    intro op hop
    rcases List.mem_append.mp hop with hop | hop
    · exact hp.allowed hs op hop
    · exact ih op hop

theorem Denotes.isFlat_or_allowed {limits : Limits} {cs : List Char} {p : Pool}
    (h : Denotes limits cs p) :
    p.isFlat = true ∧ (p.modifier.natAbs : Int) ≤ limits.modifier ∨ p.Allowed limits := by
  cases h with
  | number _ _ hm => exact .inl ⟨rfl, hm⟩
  | dice _ _ hp h1 h2 h3 h4 hm hc => exact .inr ⟨⟨h1, h2⟩, ⟨h3, h4⟩, hm, hp.allowed h3, hc⟩

/-- A pool that is read is also what its own notation denotes. -/
theorem Denotes.written {limits : Limits} {cs : List Char} {p : Pool} (h : Denotes limits cs p)
    (hl : limits.Printable) : Denotes limits p.written p := by
  have hmodifier := hl.modifier
  rcases h.isFlat_or_allowed with ⟨hf, hm⟩ | ha
  · exact Pool.denotes_written_of_isFlat hf (by omega) hm
  · exact ha.denotes_written hl

theorem Denotes.single {limits : Limits} {cs : List Char} {p : Pool} (h : Denotes limits cs p) :
    Single p.operations := by
  cases h with
  | number => simp [Single]
  | dice _ _ hp => exact hp.single

end DiceTower
