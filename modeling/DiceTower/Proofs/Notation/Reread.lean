import DiceTower.Critical.Policy
import DiceTower.Proofs.Notation.RoundTrip

/-! The notation of a pool denotes no other pool. A parser of any limits reads the pool from it that
it was written for, or refuses it. -/

namespace DiceTower

open Text Number

/-- An operation that has a notation of its own. -/
structure Operation.Regular (op : Operation) : Prop where
  value : ∃ n, op.operand = .one n ∧ 1 ≤ n
  recursive : op.recursive = true → op.kind = .reroll

structure Pool.Regular (p : Pool) : Prop where
  count : 1 ≤ p.count
  sides : 1 ≤ p.sides
  operations : ∀ op ∈ p.operations, op.Regular

theorem Operation.Allowed.regular {sides : Int} {op : Operation} (h : op.Allowed sides) :
    op.Regular := by
  obtain ⟨n, hn, h1, _⟩ := h.value
  exact ⟨⟨n, hn, h1⟩, h.recursive⟩

theorem Pool.Allowed.regular {limits : Limits} {p : Pool} (h : p.Allowed limits) : p.Regular :=
  ⟨h.count.1, h.sides.1, fun op hop => (h.operations op hop).regular⟩

theorem Denotes.regular {limits : Limits} {cs : List Char} {p : Pool} (h : Denotes limits cs p) :
    p.Regular := by
  rcases h.isFlat_or_allowed with ⟨hf, _⟩ | ha
  · rw [Pool.isFlat_iff.mp hf]
    exact ⟨Int.le_refl 1, Int.le_refl 1, by simp⟩
  · exact ha.regular

theorem isDigit_of_mem_whole {n : Int} (h : 0 ≤ n) {c : Char} (hc : c ∈ whole n) :
    isDigit c = true := by
  rw [whole_of_nonneg h] at hc
  exact isDigit_of_mem_digits hc

theorem whole_ne_nil (n : Int) : whole n ≠ [] := by
  by_cases hn : n < 0
  · rw [whole_of_neg hn]
    exact List.cons_ne_nil _ _
  · rw [whole_of_nonneg (by omega)]
    exact digits_ne_nil _

theorem digits_injective : Function.Injective digits := fun n m h => by
  rw [← numeral_digits n, h, numeral_digits]

theorem whole_injective : Function.Injective whole := by
  have hsign {n m : Int} (hn : n < 0) (hm : ¬ m < 0) : whole n ≠ whole m := by
    intro he
    have hminus : '-' ∈ whole m := by
      rw [← he, whole_of_neg hn]
      exact List.mem_cons_self
    exact absurd (isDigit_of_mem_whole (by omega) hminus) (by decide)
  intro n m h
  by_cases hn : n < 0 <;> by_cases hm : m < 0
  · rw [whole_of_neg hn, whole_of_neg hm] at h
    have habs := digits_injective (List.cons.inj h).2
    omega
  · exact absurd h (hsign hn hm)
  · exact absurd h.symm (hsign hm hn)
  · rw [whole_of_nonneg (by omega), whole_of_nonneg (by omega)] at h
    have habs := digits_injective h
    omega

theorem withSign_injective : Function.Injective withSign := by
  have hsign {n m : Int} (hn : n < 0) : whole n ≠ '+' :: whole m := by
    rw [whole_of_neg hn]
    intro he
    exact absurd (List.cons.inj he).1 (by decide)
  intro n m h
  unfold withSign at h
  split at h <;> split at h
  · exact whole_injective h
  · next hn _ => exact absurd h (hsign hn)
  · next _ hm => exact absurd h.symm (hsign hm)
  · exact whole_injective (List.cons.inj h).2

theorem asBonus_injective : Function.Injective asBonus := by
  have hnil {n : Int} : withSign n ≠ [] := by
    unfold withSign
    split
    · exact whole_ne_nil n
    · exact List.cons_ne_nil _ _
  intro n m h
  unfold asBonus at h
  split at h <;> split at h
  · next hn hm => rw [hn, hm]
  · exact absurd h.symm hnil
  · exact absurd h hnil
  · exact withSign_injective h

theorem DigitRun.eq_of_whole {n m : Int} (hn : 0 ≤ n) (h : DigitRun (whole n) m) : m = n := by
  rw [h.value, whole_of_nonneg hn, numeral_digits]
  omega

theorem DigitRun.eq_of_digits {n : Nat} {m : Int} (h : DigitRun (digits n) m) : m = n := by
  rw [h.value, numeral_digits]

namespace Pieces

variable {sides n : Int} {ops : List Operation}

/-- The first piece of a text is the one that its first mark and the digits after it make. -/
theorem exists_of_chars_append {m : Mark} {ds rest : List Char}
    (h : Pieces sides (m.chars ++ (ds ++ rest)) ops n) (hd : ∀ c ∈ ds, isDigit c = true)
    (hr : EndsDigits rest) (hm : m = .reroll → ds ≠ []) :
    ∃ ops₁ ops₂ n₁ n₂, Piece sides m ds ops₁ n₁ ∧ Pieces sides rest ops₂ n₂ ∧
      ops = ops₁ ++ ops₂ ∧ n = n₁ + n₂ := by
  have hread : Token.read? (m.chars ++ (ds ++ rest)) = some (⟨m, ds⟩, rest) := by
    have hmark : Mark.read? (m.chars ++ (ds ++ rest)) = some (m, ds ++ rest) := by
      refine Mark.read?_chars_append fun hreroll c hc => ?_
      obtain ⟨d, ds, rfl⟩ := List.exists_cons_of_ne_nil (hm hreroll)
      obtain rfl : d = c := by simpa using hc
      rintro rfl
      exact absurd (hd 'r' (by simp)) (by decide)
    rw [Token.read?, hmark]
    simp [takeWhile_isDigit_append hd hr, dropWhile_isDigit_append hd hr]
  generalize m.chars ++ (ds ++ rest) = cs at h hread
  cases h with
  | nil => cases hread
  | cons hp hs =>
    rw [Token.read?_piece hp hs.endsDigits] at hread
    cases hread
    exact ⟨_, _, _, _, hp, hs, rfl, rfl⟩

theorem eq_nil (h : Pieces sides [] ops n) : ops = [] ∧ n = 0 := by
  generalize hcs : ([] : List Char) = cs at h
  cases h with
  | nil => exact ⟨rfl, rfl⟩
  | @cons m => cases m <;> cases hcs

theorem eq_of_asBonus {m : Int} (h : Pieces sides (asBonus m) ops n) : ops = [] ∧ n = m := by
  unfold asBonus withSign at h
  split at h
  · next h0 => exact ⟨h.eq_nil.1, h.eq_nil.2.trans h0.symm⟩
  · split at h
    · next hn =>
      rw [whole_of_neg hn] at h
      have h : Pieces sides (Mark.minus.chars ++ (digits m.natAbs ++ [])) ops n := by
        simpa [Mark.chars] using h
      obtain ⟨ops₁, ops₂, n₁, n₂, hp, hs, rfl, rfl⟩ :=
        h.exists_of_chars_append (fun _ => isDigit_of_mem_digits) endsDigits_nil (by simp)
      obtain ⟨rfl, rfl⟩ := hs.eq_nil
      cases hp with
      | selection hm => cases hm
      | bound hm => cases hm
      | minus hr => exact ⟨rfl, by rw [hr.eq_of_digits]; omega⟩
    · next hn =>
      have h : Pieces sides (Mark.plus.chars ++ (whole m ++ [])) ops n := by
        simpa [Mark.chars] using h
      obtain ⟨ops₁, ops₂, n₁, n₂, hp, hs, rfl, rfl⟩ :=
        h.exists_of_chars_append (fun _ => isDigit_of_mem_whole (by omega)) endsDigits_nil
          (by simp)
      obtain ⟨rfl, rfl⟩ := hs.eq_nil
      cases hp with
      | selection hm => cases hm
      | bound hm => cases hm
      | plus hr => exact ⟨rfl, by rw [hr.eq_of_whole (by omega)]; omega⟩

end Pieces

theorem Operation.Regular.eq_of_piece {op : Operation} (h : op.Regular) {sides m n : Int}
    (hm : op.operand = .one m) {ops : List Operation}
    (hp : Piece sides (op.kind.mark op.recursive)
      (if op.kind = .explode ∧ m = sides then [] else whole m) ops n) : ops = [op] ∧ n = 0 := by
  obtain ⟨m', hm', h1⟩ := h.value
  obtain rfl : m' = m := by simpa [hm] using hm'.symm
  have hr := h.recursive
  obtain ⟨kind, operand, recursive⟩ := op
  simp only at hm hp hr
  subst hm
  have hvalue : ∀ {n}, DigitRun (whole m') n → n = m' := fun hd => hd.eq_of_whole (by omega)
  have hchosen : ∀ {n}, DigitsOr 1 (whole m') n → n = m' := by
    rintro n (⟨hnil, _⟩ | hd)
    · exact absurd hnil (whole_ne_nil m')
    · exact hvalue hd
  cases kind
  case reroll =>
    simp only [reduceCtorEq, false_and, if_false] at hp
    cases recursive with
    | false =>
      cases hp with
      | selection hk => cases hk
      | bound hk => cases hk
      | reroll hd => exact ⟨by rw [hvalue hd], rfl⟩
    | true =>
      cases hp with
      | selection hk => cases hk
      | bound hk => cases hk
      | rerollUntil hd => exact ⟨by rw [hvalue hd], rfl⟩
  case explode =>
    obtain rfl : recursive = false := by simpa using hr
    split at hp
    · next hs =>
      rw [hs.2]
      cases hp with
      | selection hk => cases hk
      | bound hk => cases hk
      | explodeHighest => exact ⟨rfl, rfl⟩
      | explode hd => exact absurd rfl hd.ne_nil
    · generalize hds : whole m' = ds at hp
      cases hp with
      | selection hk => cases hk
      | bound hk => cases hk
      | explodeHighest => exact absurd hds (whole_ne_nil m')
      | explode hd =>
        rw [← hds] at hd
        exact ⟨by rw [hvalue hd], rfl⟩
  case minimum | maximum =>
    obtain rfl : recursive = false := by simpa using hr
    simp only [reduceCtorEq, false_and, if_false] at hp
    cases hp with
    | selection hk => cases hk
    | bound hk hd =>
      cases hk
      exact ⟨by rw [hvalue hd], rfl⟩
  all_goals
    obtain rfl : recursive = false := by simpa using hr
    simp only [reduceCtorEq, false_and, if_false] at hp
    cases hp with
    | bound hk => cases hk
    | selection hk hd =>
      cases hk
      exact ⟨by rw [hchosen hd], rfl⟩

theorem endsDigits_asBonus (n : Int) : EndsDigits (asBonus n) := by
  unfold asBonus withSign
  split
  · exact endsDigits_nil
  · split
    · next hn =>
      rw [whole_of_neg hn]
      exact endsDigits_cons (by decide) _
    · exact endsDigits_cons (by decide) _

theorem endsDigits_written {sides : Int} {ops : List Operation}
    (hops : ∀ op ∈ ops, op.Regular) (m : Int) :
    EndsDigits (ops.flatMap (·.written sides) ++ asBonus m) := by
  cases ops with
  | nil => exact endsDigits_asBonus m
  | cons op ops =>
    obtain ⟨k, hk, _⟩ := (hops op List.mem_cons_self).value
    rw [List.flatMap_cons, Operation.written_of_one hk, List.append_assoc, List.append_assoc]
    exact Mark.endsDigits_chars_append _ _

theorem Pieces.eq_of_written {sides m n : Int} {ops ops' : List Operation}
    (hops : ∀ op ∈ ops, op.Regular)
    (h : Pieces sides (ops.flatMap (·.written sides) ++ asBonus m) ops' n) :
    ops' = ops ∧ n = m := by
  induction ops generalizing ops' n with
  | nil => exact h.eq_of_asBonus
  | cons op ops ih =>
    obtain ⟨hop, hrest⟩ := List.forall_mem_cons.mp hops
    obtain ⟨k, hk, h1⟩ := hop.value
    rw [List.flatMap_cons, Operation.written_of_one hk, List.append_assoc, List.append_assoc] at h
    have hends : EndsDigits (ops.flatMap (·.written sides) ++ asBonus m) :=
      endsDigits_written hrest m
    have hdigits : ∀ c ∈ (if op.kind = .explode ∧ k = sides then [] else whole k),
        isDigit c = true := by
      intro c hc
      split at hc
      · cases hc
      · exact isDigit_of_mem_whole (by omega) hc
    have hreroll : op.kind.mark op.recursive = .reroll →
        (if op.kind = .explode ∧ k = sides then [] else whole k) ≠ [] := by
      intro hm
      have hkind : op.kind ≠ .explode := by
        intro he
        rw [he] at hm
        cases hm
      rw [if_neg fun he => hkind he.1]
      exact whole_ne_nil k
    obtain ⟨ops₁, ops₂, n₁, n₂, hp, hs, rfl, rfl⟩ :=
      h.exists_of_chars_append hdigits hends hreroll
    obtain ⟨rfl, rfl⟩ := hop.eq_of_piece hk hp
    obtain ⟨rfl, rfl⟩ := ih hrest hs
    exact ⟨rfl, Int.zero_add _⟩

namespace Pool

variable {limits : Limits} {p q : Pool}

theorem not_d_mem_whole (n : Int) : 'd' ∉ whole n := by
  intro h
  by_cases hn : n < 0
  · rw [whole_of_neg hn, List.mem_cons] at h
    exact absurd (isDigit_of_mem_digits (h.resolve_left (by decide))) (by decide)
  · exact absurd (isDigit_of_mem_whole (by omega) h) (by decide)

theorem eq_flat_of_whole {n : Int} (h : Denotes limits (whole n) q) : q = flat n := by
  generalize hcs : whole n = cs at h
  cases h with
  | @dice cds sds tail =>
    refine absurd ?_ (not_d_mem_whole n)
    rw [hcs]
    simp
  | @number sign s ds k hs hr =>
    by_cases hn : n < 0
    · rw [whole_of_neg hn] at hcs
      cases hs with
      | none =>
        refine absurd (hr.isDigit '-' ?_) (by decide)
        rw [List.nil_append] at hcs
        rw [← hcs]
        exact List.mem_cons_self
      | plus => cases hcs
      | minus =>
        obtain ⟨_, rfl⟩ := List.cons.inj hcs
        have hk : -1 * k = n := by
          rw [hr.eq_of_digits]
          omega
        rw [hk]
        rfl
    · cases hs with
      | none =>
        rw [List.nil_append] at hcs
        subst hcs
        have hk : 1 * k = n := by
          rw [hr.eq_of_whole (by omega), Int.one_mul]
        rw [hk]
        rfl
      | plus =>
        refine absurd (isDigit_of_mem_whole (n := n) (by omega) ?_) (by decide : ¬ isDigit '+' = true)
        rw [hcs]
        exact List.mem_cons_self
      | minus =>
        refine absurd (isDigit_of_mem_whole (n := n) (by omega) ?_) (by decide : ¬ isDigit '-' = true)
        rw [hcs]
        exact List.mem_cons_self

/-- What is read from the notation of a pool, under whatever limits, is that pool. -/
theorem Regular.eq_of_denotes (hp : p.Regular) (h : Denotes limits p.written q) : q = p := by
  by_cases hf : p.isFlat = true
  · rw [written, if_pos hf] at h
    rw [eq_flat_of_whole h, isFlat_iff.mp hf]
    simp [flat]
  · have hcount := hp.count
    have hsides := hp.sides
    have he := written_of_not_isFlat hf
    generalize hcs : p.written = cs at h
    rw [he] at hcs
    cases h with
    | @number sign s ds n hs hr =>
      have hd : 'd' ∈ sign ++ ds := by
        rw [← hcs]
        simp
      rcases List.mem_append.mp hd with hd | hd
      · cases hs <;> simp at hd
      · exact absurd (hr.isDigit 'd' hd) (by decide)
    | @dice cds sds tail count sides ops n hc hs ht =>
      have hends (rest : List Char) : EndsDigits ('d' :: rest) := endsDigits_cons (by decide) rest
      have hrest : EndsDigits (p.operations.flatMap (·.written p.sides) ++ asBonus p.modifier) :=
        endsDigits_written hp.operations _
      have hpc : ∀ c ∈ whole p.count, isDigit c = true :=
        fun c hc => isDigit_of_mem_whole (by omega) hc
      have hps : ∀ c ∈ whole p.sides, isDigit c = true :=
        fun c hc => isDigit_of_mem_whole (by omega) hc
      have hcount' := congrArg (List.takeWhile isDigit) hcs
      rw [takeWhile_isDigit_append hpc (hends _), takeWhile_isDigit_append hc.isDigit (hends _)]
        at hcount'
      have hafter := congrArg (List.dropWhile isDigit) hcs
      rw [dropWhile_isDigit_append hpc (hends _), dropWhile_isDigit_append hc.isDigit (hends _)]
        at hafter
      obtain ⟨_, hafter⟩ := List.cons.inj hafter
      have hsides' := congrArg (List.takeWhile isDigit) hafter
      rw [takeWhile_isDigit_append hps hrest, takeWhile_isDigit_append hs.isDigit ht.endsDigits]
        at hsides'
      have htail := congrArg (List.dropWhile isDigit) hafter
      rw [dropWhile_isDigit_append hps hrest, dropWhile_isDigit_append hs.isDigit ht.endsDigits]
        at htail
      subst hcount' hsides' htail
      obtain rfl := hs.eq_of_whole (by omega)
      obtain ⟨rfl, rfl⟩ := Pieces.eq_of_written hp.operations ht
      rcases hc with ⟨hnil, _⟩ | hc
      · exact absurd hnil (whole_ne_nil p.count)
      · obtain rfl := hc.eq_of_whole (by omega)
        rfl

theorem eq_of_text_eq (hcount : q.count = p.count) (hsides : q.sides = p.sides)
    (hmodifier : q.modifier = p.modifier) (hp : ∀ op ∈ p.operations, op.Regular)
    (hq : ∀ op ∈ q.operations, op.Allowed q.sides) (hs : q.sides ≤ 999999999)
    (hf : ¬ p.isFlat = true) (hf' : ¬ q.isFlat = true) (h : q.text = p.text) : q = p := by
  have hwritten : q.written = p.written := String.ofList_injective h
  rw [written_of_not_isFlat hf, written_of_not_isFlat hf', hcount, hmodifier] at hwritten
  have htail := (List.cons.inj (List.append_cancel_left hwritten)).2
  rw [hsides] at htail
  have hoperations := List.append_cancel_right (List.append_cancel_left htail)
  have hpieces := pieces_written hq hs
  have hnone : asBonus 0 = [] := rfl
  rw [hsides, hoperations, ← List.append_nil (p.operations.flatMap _), ← hnone] at hpieces
  have hsame := (hpieces.eq_of_written hp).1
  obtain ⟨count, sides, modifier, operations⟩ := p
  obtain rfl := hcount
  obtain rfl := hsides
  obtain rfl := hmodifier
  obtain rfl := hsame
  rfl

theorem Regular.single (h : p.Regular) : Single p.operations := by
  intro op hop
  obtain ⟨n, hn, _⟩ := (h.operations op hop).value
  exact ⟨n, hn⟩

end Pool

theorem Term.pool_of_parse_text {limits : Limits} {p : Pool} {t : Term} (hp : p.Regular)
    (h : Term.parse limits p.text = .ok t) : t.pool = p := by
  have hd := (Term.parse_eq_ok_iff.mp h).2
  rw [Pool.text, String.toList_ofList, Pool.compact_written hp.single,
    Pool.lower_written hp.single] at hd
  exact hp.eq_of_denotes hd

theorem Operation.Regular.doubled {op : Operation} (h : op.Regular) : op.doubled.Regular := by
  obtain ⟨n, hn, h1⟩ := h.value
  refine ⟨?_, by rw [op.recursive_doubled, op.kind_doubled]; exact h.recursive⟩
  rcases Operation.operand_doubled hn with hd | hd
  · exact ⟨n, hd, h1⟩
  · exact ⟨n * 2, hd, by omega⟩

theorem Pool.Regular.critical {p : Pool} (h : p.Regular) (rules : CriticalRules) :
    (p.critical rules).Regular where
  count := one_le_count_critical h.count rules
  sides := by rw [sides_critical]; exact h.sides
  operations := forall_mem_operations_critical h.operations (fun _ => Operation.Regular.doubled) rules

theorem Term.regular_critical {t : Term} (h : t.pool.Regular) (rules : CriticalRules) :
    (t.critical rules).pool.Regular :=
  Term.of_critical h (h.critical rules)

theorem Pool.takeWhile_isDigit_written {p : Pool} (hc : 1 ≤ p.count) (hf : ¬ p.isFlat = true) :
    p.written.takeWhile isDigit = whole p.count := by
  rw [written_of_not_isFlat hf]
  exact takeWhile_isDigit_append (fun _ => isDigit_of_mem_whole (by omega))
    (endsDigits_cons (by decide) _)

theorem Pool.Regular.written_critical_ne {p : Pool} (h : p.Regular) (hf : ¬ p.isFlat = true)
    (rules : CriticalRules) : (p.critical rules).written ≠ p.written := by
  have hcount := h.count
  intro he
  unfold Pool.critical at he
  split at he
  · have hflat : ¬ Pool.isFlat { p with modifier := p.modifier + p.count * p.sides } = true := hf
    rw [written_of_not_isFlat hflat, written_of_not_isFlat hf, List.append_cancel_left_eq,
      List.cons.injEq, List.append_cancel_left_eq, List.append_cancel_left_eq] at he
    have hmodifier := asBonus_injective he.2
    have hfaces : 0 < p.count * p.sides := Int.mul_pos (by omega) (by have := h.sides; omega)
    simp only at hmodifier
    omega
  · next strategy _ =>
    have hdigits := congrArg (List.takeWhile isDigit) he
    rw [takeWhile_isDigit_written (by simp only; omega) (by simp [isFlat]; omega),
      takeWhile_isDigit_written h.count hf] at hdigits
    have hdoubled := whole_injective hdigits
    simp only at hdoubled
    omega

theorem Term.text_critical_ne {t : Term} (h : t.pool.Regular) (hf : ¬ t.pool.isFlat = true)
    (rules : CriticalRules) : (t.critical rules).pool.text ≠ t.pool.text := by
  rw [Term.critical, if_neg hf]
  intro he
  exact h.written_critical_ne hf rules (String.ofList_injective he)

end DiceTower
