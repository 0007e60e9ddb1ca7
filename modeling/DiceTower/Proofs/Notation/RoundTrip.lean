import DiceTower.Proofs.Notation.Acceptance
import DiceTower.Proofs.Notation.Printing

/-! What is read from the notation of a pool or a formula is that pool or formula again. -/

namespace DiceTower

open Text Number

structure Plain (c : Char) : Prop where
  not_blank : isBlank c = false
  lower : isLowerAscii c = true
  not_comma : c ≠ ','

theorem not_isBlank_of_ascii {c : Char} (h : 32 < c.toNat) (h' : c.toNat < 128) :
    isBlank c = false := by
  simp only [isBlank, isSpace, isSeparator, Bool.or_eq_false_iff, Bool.and_eq_false_iff,
    decide_eq_false_iff_not, beq_eq_false_iff_ne]
  omega

theorem plain_of_isDigit {c : Char} (h : c.isDigit = true) : Plain c := by
  simp only [Char.isDigit, Bool.and_eq_true, decide_eq_true_eq] at h
  have h1 : 48 ≤ c.toNat := h.1
  have h2 : c.toNat ≤ 57 := h.2
  refine ⟨not_isBlank_of_ascii (by omega) (by omega), ?_, ?_⟩
  · have hA : ¬ 'A' ≤ c := fun hA => absurd (show 65 ≤ c.toNat from hA) (by omega)
    simp [isLowerAscii, hA]
    omega
  · rintro rfl
    exact absurd h1 (by decide)

theorem Mark.plain {m : Mark} {c : Char} (h : c ∈ m.chars) : Plain c := by
  cases m <;> simp only [chars, List.mem_cons, List.not_mem_nil, or_false] at h <;>
    rcases h with rfl | rfl | rfl <;> exact ⟨by decide, by decide, by decide⟩

theorem plain_of_mem_digits {n : Nat} {c : Char} (h : c ∈ digits n) : Plain c :=
  plain_of_isDigit (Nat.isDigit_of_mem_toDigits (by decide) (by decide) h)

theorem plain_of_mem_whole {n : Int} {c : Char} (h : c ∈ whole n) : Plain c := by
  by_cases hn : n < 0
  · rw [whole_of_neg hn, List.mem_cons] at h
    rcases h with rfl | h
    · exact Mark.plain (m := .minus) (by decide)
    · exact plain_of_mem_digits h
  · rw [whole_of_nonneg (by omega)] at h
    exact plain_of_mem_digits h

theorem plain_of_mem_asBonus {n : Int} {c : Char} (h : c ∈ asBonus n) : Plain c := by
  unfold asBonus withSign at h
  split at h
  · cases h
  · split at h
    · exact plain_of_mem_whole h
    · rcases List.mem_cons.mp h with rfl | h
      · exact Mark.plain (m := .plus) (by decide)
      · exact plain_of_mem_whole h

theorem plain_of_mem_operation {sides : Int} {op : Operation} {c : Char}
    (hs : ∃ n, op.operand = .one n) (h : c ∈ op.written sides) : Plain c := by
  obtain ⟨n, hn⟩ := hs
  rw [Operation.written_of_one hn, List.mem_append] at h
  rcases h with h | h
  · exact Mark.plain h
  · split at h
    · cases h
    · exact plain_of_mem_whole h

namespace Pool

variable {limits : Limits} {p : Pool}

theorem plain_of_mem_written (hs : Single p.operations) {c : Char} (h : c ∈ p.written) :
    Plain c := by
  unfold written at h
  split at h
  · exact plain_of_mem_whole h
  · simp only [List.mem_append, List.mem_cons, List.mem_flatMap] at h
    rcases h with ((h | rfl | h) | ⟨op, hop, h⟩) | h
    · exact plain_of_mem_whole h
    · exact ⟨by decide, by decide, by decide⟩
    · exact plain_of_mem_whole h
    · exact plain_of_mem_operation (hs op hop) h
    · exact plain_of_mem_asBonus h

theorem space_not_mem_text (hs : Single p.operations) : ' ' ∉ p.text.toList := by
  rw [text, String.toList_ofList]
  intro h
  exact absurd (plain_of_mem_written hs h).not_blank (by decide)

theorem compact_written (hs : Single p.operations) : compact p.written = p.written :=
  compact_eq_self fun _ h => (plain_of_mem_written hs h).not_blank

theorem lower_written (hs : Single p.operations) : lower p.written = p.written :=
  lower_eq_self fun _ h => (plain_of_mem_written hs h).lower

theorem exists_written_eq_cons (p : Pool) :
    ∃ c cs, p.written = c :: cs ∧ startsLabel c = false := by
  have hw : ∀ n : Int, ∃ c cs, whole n = c :: cs ∧ startsLabel c = false := by
    intro n
    by_cases hn : n < 0
    · exact ⟨_, _, whole_of_neg hn, by decide⟩
    · obtain ⟨c, cs, hd⟩ := List.exists_cons_of_ne_nil (digits_ne_nil n.natAbs)
      refine ⟨c, cs, by rw [whole_of_nonneg (by omega), hd], ?_⟩
      have hc : c.isDigit = true :=
        Nat.isDigit_of_mem_toDigits (by decide) (by decide)
          (show c ∈ digits n.natAbs by rw [hd]; simp)
      simp only [Char.isDigit, Bool.and_eq_true, decide_eq_true_eq] at hc
      have h2 : c.toNat ≤ 57 := hc.2
      have ha : ¬ 'a' ≤ c := fun h => absurd (show 97 ≤ c.toNat from h) (by omega)
      have hA : ¬ 'A' ≤ c := fun h => absurd (show 65 ≤ c.toNat from h) (by omega)
      have hu : c ≠ '_' := by
        rintro rfl
        exact absurd h2 (by decide)
      simp [startsLabel, ha, hA, hu]
  unfold written
  split
  · exact hw _
  · obtain ⟨c, cs, hc, hs⟩ := hw p.count
    exact ⟨c, cs ++ 'd' :: whole p.sides ++ p.operations.flatMap (·.written p.sides) ++
      asBonus p.modifier, by simp [hc], hs⟩

end Pool

theorem Denotes.parse_text {limits : Limits} {p : Pool} (h : Denotes limits p.written p) :
    Term.parse limits p.text = .ok (Term.ofPool p) := by
  rw [Term.parse_eq_ok_iff, Pool.text, String.toList_ofList, Pool.compact_written h.single,
    Pool.lower_written h.single]
  exact ⟨rfl, h⟩

structure IsLabel (label : List Char) : Prop where
  starts : ∃ c cs, label = c :: cs ∧ startsLabel c = true
  inLabel : ∀ c ∈ label, inLabel c = true

theorem toNat_of_inLabel {c : Char} (h : inLabel c = true) : 44 < c.toNat ∧ c.toNat < 128 := by
  simp only [inLabel, startsLabel, Bool.or_eq_true, Bool.and_eq_true, decide_eq_true_eq,
    beq_iff_eq] at h
  rcases h with ((⟨h1, h2⟩ | ⟨h1, h2⟩) | rfl) | ⟨h1, h2⟩
  · exact ⟨(by decide : 44 < 97).trans_le h1, Nat.lt_of_le_of_lt h2 (by decide : 122 < 128)⟩
  · exact ⟨(by decide : 44 < 65).trans_le h1, Nat.lt_of_le_of_lt h2 (by decide : 90 < 128)⟩
  · decide
  · exact ⟨(by decide : 44 < 48).trans_le h1, Nat.lt_of_le_of_lt h2 (by decide : 57 < 128)⟩

theorem splitLabel?_eq_none {c : Char} (h : startsLabel c = false) (cs : List Char) :
    splitLabel? (c :: cs) = none := by
  simp [splitLabel?, h]

theorem splitLabel?_append {label rest : List Char} (h : IsLabel label) (hr : rest ≠ []) :
    splitLabel? (label ++ ':' :: rest) = some (label, rest) := by
  obtain ⟨c, cs, rfl, hc⟩ := h.starts
  obtain ⟨d, rest, rfl⟩ := List.exists_cons_of_ne_nil hr
  have hcolon : inLabel ':' = false := by decide
  have ht : ((c :: cs) ++ ':' :: d :: rest).takeWhile inLabel = c :: cs := by
    rw [List.takeWhile_append_of_pos h.inLabel]
    simp [hcolon]
  have hd : ((c :: cs) ++ ':' :: d :: rest).dropWhile inLabel = ':' :: d :: rest := by
    rw [List.dropWhile_append_of_pos h.inLabel]
    simp [hcolon]
  rw [List.cons_append] at ht hd ⊢
  simp [splitLabel?, hc, ht, hd]

theorem isLabel_of_splitLabel? {cs label rest : List Char}
    (h : splitLabel? cs = some (label, rest)) : IsLabel label := by
  unfold splitLabel? at h
  split at h
  · cases h
  · next c cs =>
    split at h
    · next hc =>
      split at h
      · cases h
        refine ⟨⟨c, cs.takeWhile inLabel, ?_, hc⟩, fun _ => List.mem_takeWhile_imp⟩
        rw [List.takeWhile_cons, if_pos (by simp [inLabel, hc])]
      · cases h
    · cases h

structure Segment.Readable (limits : Limits) (s : Segment) : Prop where
  label : ∀ label ∈ s.label, IsLabel label.toList
  pool : ∃ cs, Denotes limits cs s.term.pool

namespace Segment

variable {limits : Limits} {text : String} {part : List Char} {s : Segment}

theorem parse_eq_of_compact_ne_nil (h : compact part ≠ []) :
    parse limits text part = match splitLabel? (compact part) with
      | some (label, rest) => (Term.parse limits (String.ofList rest)).map fun term =>
          ⟨some (String.ofList label), term⟩
      | none => (Term.parse limits (String.ofList (compact part))).map fun term => ⟨none, term⟩ := by
  unfold parse
  split
  · next he => exact absurd he h
  · rfl

theorem compact_ne_nil_of_parse (h : parse limits text part = .ok s) : compact part ≠ [] := by
  intro he
  unfold parse at h
  rw [he] at h
  cases h

theorem readable_of_parse (h : parse limits text part = .ok s) : s.Readable limits := by
  rw [parse_eq_of_compact_ne_nil (compact_ne_nil_of_parse h)] at h
  split at h
  · next label rest hl =>
    obtain ⟨t, ht, rfl⟩ := map_eq_ok_iff.mp h
    refine ⟨?_, _, (Term.parse_eq_ok_iff.mp ht).2⟩
    rintro _ ⟨⟩
    simpa using isLabel_of_splitLabel? hl
  · obtain ⟨t, ht, rfl⟩ := map_eq_ok_iff.mp h
    exact ⟨nofun, _, (Term.parse_eq_ok_iff.mp ht).2⟩

theorem parse_compact {text' : String} (h : parse limits text part = .ok s) :
    parse limits text' (compact part) = .ok s := by
  have hn := compact_ne_nil_of_parse h
  rw [parse_eq_of_compact_ne_nil hn] at h
  rw [parse_eq_of_compact_ne_nil (by rwa [compact_compact]), compact_compact]
  exact h

theorem toList_written (s : Segment) : s.written.toList =
    match s.label with
    | some label => if label = "" then s.term.pool.written
        else label.toList ++ ':' :: s.term.pool.written
    | none => s.term.pool.written := by
  unfold written
  split
  · split <;> simp [Pool.text, *]
  · simp [Pool.text, *]

theorem Readable.label_ne (h : s.Readable limits) {label : String} (hl : s.label = some label) :
    label ≠ "" := by
  rintro rfl
  obtain ⟨c, cs, he, _⟩ := (h.label "" hl).starts
  simp at he

theorem Readable.not_comma_mem_written (h : s.Readable limits) : ',' ∉ s.written.toList := by
  obtain ⟨cs, hd⟩ := h.pool
  have hp : ',' ∉ s.term.pool.written :=
    fun hm => (Pool.plain_of_mem_written hd.single hm).not_comma rfl
  rw [toList_written]
  split
  · next label hl =>
    rw [if_neg (h.label_ne hl)]
    simp only [List.mem_append, List.mem_cons, not_or]
    refine ⟨fun hm => ?_, by decide, hp⟩
    exact absurd (toNat_of_inLabel ((h.label label hl).inLabel _ hm)).1 (by decide)
  · exact hp

theorem Readable.parse_written (h : s.Readable limits) (hl : limits.Printable) :
    parse limits text s.written.toList = .ok ⟨s.label, Term.ofPool s.term.pool⟩ := by
  obtain ⟨cs, hd⟩ := h.pool
  have hw := hd.written hl
  obtain ⟨c, cs', hc, hstart⟩ := s.term.pool.exists_written_eq_cons
  have hcompact := Pool.compact_written hd.single
  rw [toList_written]
  cases hs : s.label with
  | none =>
    simp only
    rw [parse_eq_of_compact_ne_nil (by rw [hcompact, hc]; simp), hcompact, hc,
      splitLabel?_eq_none hstart]
    simp only [← hc]
    rw [← Pool.text, hw.parse_text]
    rfl
  | some label =>
    have hlabel := h.label label hs
    have hcl : compact (label.toList ++ ':' :: s.term.pool.written) =
        label.toList ++ ':' :: s.term.pool.written := by
      refine compact_eq_self fun d hm => ?_
      rcases List.mem_append.mp hm with hm | hm
      · have hd := toNat_of_inLabel (hlabel.inLabel d hm)
        exact not_isBlank_of_ascii (by omega) hd.2
      · rcases List.mem_cons.mp hm with rfl | hm
        · decide
        · exact (Pool.plain_of_mem_written hd.single hm).not_blank
    simp only
    rw [if_neg (h.label_ne hs), parse_eq_of_compact_ne_nil (by rw [hcl]; simp), hcl,
      splitLabel?_append hlabel (by rw [hc]; simp)]
    simp only
    rw [← Pool.text, hw.parse_text, String.ofList_toList]
    rfl

end Segment

theorem splitCommas_compact (cs : List Char) :
    splitCommas (compact cs) = (splitCommas cs).map compact := by
  induction cs with
  | nil => rfl
  | cons c cs ih =>
    obtain ⟨part, parts, hp⟩ := List.exists_cons_of_ne_nil (splitCommas_ne_nil cs)
    rw [hp, List.map_cons] at ih
    by_cases hc : c = ','
    · subst hc
      have he : compact (',' :: cs) = ',' :: compact cs := rfl
      rw [he]
      simp only [splitCommas, if_true, ih, hp, List.map_cons]
      rfl
    · by_cases hb : isBlank c = true
      · have he : compact (c :: cs) = compact cs := by simp [compact, hb]
        have hep : compact (c :: part) = compact part := by simp [compact, hb]
        simp only [he, ih, splitCommas, if_neg hc, hp, List.map_cons, hep]
      · have he : compact (c :: cs) = c :: compact cs := by simp [compact, hb]
        have hep : compact (c :: part) = c :: compact part := by simp [compact, hb]
        simp only [he, splitCommas, if_neg hc, ih, hp, List.map_cons, hep]

theorem splitCommas_append {part : List Char} (h : ',' ∉ part) (cs : List Char) :
    splitCommas (part ++ ',' :: cs) = part :: splitCommas cs := by
  induction part with
  | nil => simp [splitCommas]
  | cons c part ih =>
    simp only [List.mem_cons, not_or] at h
    simp [splitCommas, Ne.symm h.1, ih h.2]

theorem splitCommas_eq_singleton {part : List Char} (h : ',' ∉ part) :
    splitCommas part = [part] := by
  induction part with
  | nil => rfl
  | cons c part ih =>
    simp only [List.mem_cons, not_or] at h
    simp [splitCommas, Ne.symm h.1, ih h.2]

theorem splitCommas_intercalate {parts : List (List Char)} (hn : parts ≠ [])
    (h : ∀ part ∈ parts, ',' ∉ part) : splitCommas ([','].intercalate parts) = parts := by
  induction parts with
  | nil => exact absurd rfl hn
  | cons part parts ih =>
    have hp := h part (by simp)
    cases parts with
    | nil => simpa using splitCommas_eq_singleton hp
    | cons part' parts =>
      have ih := ih (by simp) fun p hp => h p (by simp [hp])
      rw [List.intercalate_cons_cons, List.append_assoc, List.singleton_append,
        splitCommas_append hp, ih]

namespace Formula

/-- What a formula asks for: the labels and the pools of its segments, in order. -/
def contents (f : Formula) : List (Option String × Pool) :=
  f.segments.map fun s => (s.label, s.term.pool)

variable {limits : Limits} {text : String} {f : Formula}

theorem compact_ne_nil_of_parts {segments : List Segment}
    (h : List.Forall₂ (fun part s => Segment.parse limits text part = .ok s)
      (splitCommas text.toList) segments) : compact text.toList ≠ [] := by
  intro he
  have hs := splitCommas_compact text.toList
  obtain ⟨part, parts, hp⟩ := List.exists_cons_of_ne_nil (splitCommas_ne_nil text.toList)
  rw [he, hp, List.map_cons] at hs
  have hpart : compact part = [] := (List.cons.inj hs).1.symm
  rw [hp] at h
  cases h with
  | cons h _ => exact Segment.compact_ne_nil_of_parse h hpart

theorem parse_eq_ok_iff : parse limits text = .ok f ↔
    f.text = String.ofList (compact text.toList) ∧
      List.Forall₂ (fun part s => Segment.parse limits text part = .ok s)
        (splitCommas text.toList) f.segments := by
  unfold parse
  split
  · next he => exact ⟨nofun, fun h => absurd he (compact_ne_nil_of_parts h.2)⟩
  · simp only [bind_eq_ok_iff, mapM_eq_ok_iff]
    obtain ⟨t, segments⟩ := f
    constructor
    · rintro ⟨segs, hs, h⟩
      cases h
      exact ⟨rfl, hs⟩
    · rintro ⟨rfl, hs⟩
      exact ⟨_, hs, rfl⟩

theorem readable_of_parse (h : parse limits text = .ok f) :
    f.segments ≠ [] ∧ ∀ s ∈ f.segments, s.Readable limits := by
  obtain ⟨_, hs⟩ := parse_eq_ok_iff.mp h
  constructor
  · intro he
    rw [he, List.forall₂_nil_right_iff] at hs
    exact splitCommas_ne_nil _ hs
  · intro s hmem
    obtain ⟨part, _, hp⟩ := exists_mem_of_forall₂ hs s hmem
    exact Segment.readable_of_parse hp

/-- The text that a formula keeps is read as the very same formula. -/
theorem parse_text (h : parse limits text = .ok f) : parse limits f.text = .ok f := by
  obtain ⟨ht, hs⟩ := parse_eq_ok_iff.mp h
  rw [parse_eq_ok_iff, ht, String.toList_ofList, compact_compact, splitCommas_compact,
    List.forall₂_map_left_iff]
  exact ⟨rfl, hs.imp fun _ _ => Segment.parse_compact⟩

theorem splitCommas_written (hn : f.segments ≠ []) (h : ∀ s ∈ f.segments, s.Readable limits) :
    splitCommas f.written.toList = f.segments.map (·.written.toList) := by
  have hw : f.written.toList = [','].intercalate (f.segments.map (·.written.toList)) := by
    simp [written, String.toList_intercalate, Function.comp_def]
  rw [hw]
  refine splitCommas_intercalate (by simpa using hn) fun part hp => ?_
  obtain ⟨s, hs, rfl⟩ := List.mem_map.mp hp
  exact (h s hs).not_comma_mem_written

theorem parse_written (h : parse limits text = .ok f) (hl : limits.Printable) :
    parse limits f.written = .ok ⟨String.ofList (compact f.written.toList),
      f.segments.map fun s => ⟨s.label, Term.ofPool s.term.pool⟩⟩ := by
  obtain ⟨hn, hr⟩ := readable_of_parse h
  rw [parse_eq_ok_iff, splitCommas_written hn hr, List.forall₂_map_left_iff,
    List.forall₂_map_right_iff, List.forall₂_same]
  exact ⟨rfl, fun s hs => (hr s hs).parse_written hl⟩

end Formula

/-- Within limits of nine digits, a pool that keeps them is read from its notation, and a formula is
read again, with the same labels and pools in the same order, from its notation and from its text.
-/
theorem notation_reads_back {limits : Limits} (hl : limits.Printable) :
    (∀ p : Pool, p.Allowed limits → ∃ t, Term.parse limits p.text = .ok t ∧ t.pool = p) ∧
    ∀ text f, Formula.parse limits text = .ok f → ∀ again ∈ [f.written, f.text],
      ∃ g, Formula.parse limits again = .ok g ∧ g.contents = f.contents := by
  constructor
  · intro p hp
    exact ⟨_, (hp.denotes_written hl).parse_text, rfl⟩
  · intro text f hf again hagain
    simp only [List.mem_cons, List.not_mem_nil, or_false] at hagain
    rcases hagain with rfl | rfl
    · refine ⟨_, Formula.parse_written hf hl, ?_⟩
      simp [Formula.contents, Term.ofPool]
    · exact ⟨f, Formula.parse_text hf, rfl⟩

theorem notation_reads_back_usual :
    (∃ t, Term.parse {} (Pool.text ⟨2, 6, 0, [⟨.explode, .one 6, false⟩]⟩) = .ok t ∧
      t.pool = ⟨2, 6, 0, [⟨.explode, .one 6, false⟩]⟩) ∧
    ∃ g, Formula.parse {} "hit:5,-2" = .ok g ∧
      g.contents = [(some "hit", .flat 5), (none, .flat (-2))] := by
  have hl : Limits.Printable {} := ⟨by decide, by decide, by decide⟩
  have hp : Pool.Allowed {} ⟨2, 6, 0, [⟨.explode, .one 6, false⟩]⟩ := by
    refine ⟨by decide, by decide, by decide, ?_, by decide, ?_⟩
    · simp only [List.mem_singleton, forall_eq]
      exact ⟨⟨6, rfl, by decide, by decide⟩, nofun⟩
    · simp [BoundsAgree, numbersOf]
  have hf : Formula.parse {} "hit: 5, -2" = .ok ⟨"hit:5,-2",
      [⟨some "hit", ⟨"5", .flat 5⟩⟩, ⟨none, ⟨"-2", .flat (-2)⟩⟩]⟩ := rfl
  obtain ⟨hpool, hformula⟩ := notation_reads_back hl
  exact ⟨hpool _ hp, hformula _ _ hf _ (by simp)⟩

end DiceTower
