import Mathlib.Data.List.Basic
import DiceTower.Proofs.Notation.Reread
import DiceTower.Proofs.Notation.Sound

/-! Pools that are read again from their notation. Every pool that a parser gives is one, and stays
one when a second die is added or a critical hit changes the dice. -/

namespace DiceTower

open Text Number

/-- A pool with a notation of its own, of which a parser may also think that the faces are those of
the dice and that the operations can stand together. -/
structure Pool.Legible (p : Pool) : Prop extends p.Regular where
  faces : ∀ op ∈ p.operations, op.kind.selects = false → ∀ n ∈ op.operand.values, n ≤ p.sides
  compatible : Compatible p.operations

structure Pool.Within (limits : Limits) (p : Pool) : Prop where
  count : p.count ≤ limits.dice
  sides : p.sides ≤ limits.sides
  modifier : (p.modifier.natAbs : Int) ≤ limits.modifier

def ShortNumbers (cs : List Char) : Prop :=
  ∀ ds, ds <:+: cs → (∀ c ∈ ds, isDigit c = true) → ds.length ≤ 9

/-- Where its numbers are short, the text is read as the pool under all limits that the pool keeps;
and it is read as no other pool under any. -/
structure Pool.ReadFrom (p : Pool) (text : String) : Prop where
  reads : ∀ limits, p.Within limits → ShortNumbers text.toList →
    Term.parse limits text = .ok ⟨text, p⟩
  only : ∀ limits t, Term.parse limits text = .ok t → t.pool = p

section Short

variable {cs : List Char}

theorem ShortNumbers.of_infix {cs' : List Char} (h : ShortNumbers cs) (hi : cs' <:+: cs) :
    ShortNumbers cs' :=
  fun ds hds => h ds (hds.trans hi)

theorem ShortNumbers.digits_le {n : Nat} (h : ShortNumbers (digits n)) : n ≤ 999999999 := by
  have hlength := h (digits n) (List.infix_refl _) fun _ => isDigit_of_mem_digits
  have hlt := (Nat.length_toDigits_le_iff (by decide) (by decide)).mp hlength
  omega

theorem ShortNumbers.whole_le {n : Int} (h : ShortNumbers (whole n)) : n.natAbs ≤ 999999999 := by
  by_cases hn : n < 0
  · rw [whole_of_neg hn] at h
    exact (h.of_infix (List.suffix_cons _ _).isInfix).digits_le
  · rw [whole_of_nonneg (by omega)] at h
    exact h.digits_le

theorem ShortNumbers.asBonus_le {n : Int} (h : ShortNumbers (asBonus n)) :
    n.natAbs ≤ 999999999 := by
  by_cases h0 : n = 0
  · omega
  · unfold asBonus withSign at h
    rw [if_neg h0] at h
    split at h
    · exact h.whole_le
    · exact (h.of_infix (List.suffix_cons _ _).isInfix).whole_le

end Short

namespace Pool

variable {limits : Limits} {p : Pool}

theorem Allowed.legible (h : p.Allowed limits) : p.Legible := by
  refine ⟨h.regular, fun op hop hs m hm => ?_, h.compatible⟩
  obtain ⟨n, hn, _, hle⟩ := (h.operations op hop).value
  rw [hn, Operand.values, List.mem_singleton] at hm
  rw [hs, if_neg Bool.false_ne_true] at hle
  rwa [hm]

theorem legible_of_isFlat (h : p.isFlat = true) : p.Legible := by
  rw [isFlat_iff.mp h]
  exact ⟨⟨le_refl _, le_refl _, by simp⟩, by simp, compatible_nil⟩

theorem legible_of_denotes {cs : List Char} (h : Denotes limits cs p) : p.Legible := by
  rcases h.isFlat_or_allowed with ⟨hf, _⟩ | ha
  · exact legible_of_isFlat hf
  · exact ha.legible

namespace Legible

theorem operation_allowed (h : p.Legible) {op : Operation} (hop : op ∈ p.operations)
    (hs : ShortNumbers (op.written p.sides)) : op.Allowed p.sides := by
  obtain ⟨n, hn, h1⟩ := (h.operations op hop).value
  refine ⟨⟨n, hn, h1, ?_⟩, (h.operations op hop).recursive⟩
  split
  · next hselects =>
    have hexplode : ¬ (op.kind = .explode ∧ n = p.sides) := by
      rintro ⟨hk, _⟩
      rw [hk] at hselects
      cases hselects
    rw [Operation.written_of_one hn, if_neg hexplode] at hs
    have hle := (hs.of_infix (List.suffix_append _ _).isInfix).whole_le
    omega
  · next hselects =>
    exact h.faces op hop (by simpa using hselects) n (by simp [hn, Operand.values])

theorem denotes_written (h : p.Legible) (hl : p.Within limits) (hs : ShortNumbers p.written) :
    Denotes limits p.written p := by
  by_cases hf : p.isFlat = true
  · have hshort : ShortNumbers (whole (1 + p.modifier)) := by rwa [written, if_pos hf] at hs
    exact denotes_written_of_isFlat hf hshort.whole_le hl.modifier
  · rw [written_of_not_isFlat hf] at hs
    have hcount := (hs.of_infix (List.prefix_append _ _).isInfix).whole_le
    have hrest := hs.of_infix ((List.suffix_cons 'd' _).trans (List.suffix_append _ _)).isInfix
    have hsides := (hrest.of_infix (List.prefix_append _ _).isInfix).whole_le
    have htail := hrest.of_infix (List.suffix_append _ _).isInfix
    have hbonus := (htail.of_infix (List.suffix_append _ _).isInfix).asBonus_le
    have hoperations := htail.of_infix (List.prefix_append _ _).isInfix
    have hallowed : p.Allowed limits := by
      refine ⟨⟨h.count, hl.count⟩, ⟨h.sides, hl.sides⟩, hl.modifier, fun op hop => ?_, h.compatible⟩
      have hwritten : op.written p.sides <:+: p.operations.flatMap (·.written p.sides) :=
        List.infix_of_mem_flatten (List.mem_map_of_mem hop)
      exact h.operation_allowed hop (hoperations.of_infix hwritten)
    exact hallowed.denotes_written_of_not_isFlat hf (by omega) (by omega) hbonus

theorem readFrom_text (h : p.Legible) : p.ReadFrom p.text := by
  refine ⟨fun limits hl hs => ?_, fun limits t ht => Term.pool_of_parse_text h.toRegular ht⟩
  rw [Pool.text, String.toList_ofList] at hs
  exact (h.denotes_written hl hs).parse_text

theorem doubledFor (h : p.Legible) (advantage : Bool) : (p.doubledFor advantage).Legible := by
  refine ⟨⟨(by decide : (1 : Int) ≤ 2), h.sides, fun op hop => ?_⟩, fun op hop => ?_,
    compatible_doubledFor h.compatible advantage⟩
  · rcases List.mem_cons.mp hop with rfl | hop
    · exact ⟨⟨1, rfl, le_refl _⟩, nofun⟩
    · exact h.operations op hop
  · rcases List.mem_cons.mp hop with rfl | hop
    · cases advantage <;> exact nofun
    · exact h.faces op hop

theorem critical (h : p.Legible) (rules : CriticalRules) : (p.critical rules).Legible := by
  refine ⟨h.toRegular.critical rules, ?_, compatible_critical h.compatible rules⟩
  rw [sides_critical]
  refine forall_mem_operations_critical h.faces (fun op hface hs => ?_) rules
  rw [op.kind_doubled] at hs
  rw [Operation.doubled_of_not_selects hs]
  exact hface hs

end Legible

end Pool

namespace Term

variable {t : Term}

theorem legible_withAdvantage (h : t.pool.Legible) (kind : RollType) (ms : List Modifier) :
    (t.withAdvantage kind ms).term.pool.Legible := by
  rcases t.term_withAdvantage kind ms with he | ⟨_, advantage, he⟩
  · rwa [he]
  · rw [he]
    exact h.doubledFor advantage

theorem legible_critical (h : t.pool.Legible) (rules : CriticalRules) :
    (t.critical rules).pool.Legible :=
  Term.of_critical h (h.critical rules)

end Term

end DiceTower
