import DiceTower.Proofs.Notation.Reread

/-! Texts that hold one term each. Such a text has nothing in it that parts terms, so that it is a
formula by itself, and a segment of a formula when it stands behind a label. -/

namespace DiceTower

open Text

def Parts (c : Char) : Prop := c = ',' ∨ c = ':'

theorem Parts.not_isDigit {c : Char} (h : Parts c) : ¬ isDigit c = true := by
  rcases h with rfl | rfl <;> decide

theorem Parts.isLowerAscii {c : Char} (h : Parts c) : isLowerAscii c = true := by
  rcases h with rfl | rfl <;> decide

theorem Parts.not_isBlank {c : Char} (h : Parts c) : isBlank c = false := by
  rcases h with rfl | rfl <;> decide

theorem Parts.not_mem_chars {c : Char} (h : Parts c) (m : Mark) : c ∉ m.chars := by
  rcases h with rfl | rfl <;> cases m <;> decide

theorem Denotes.not_parts {limits : Limits} {cs : List Char} {p : Pool} (h : Denotes limits cs p)
    {c : Char} (hc : c ∈ cs) : ¬ Parts c :=
  h.forall_mem (¬ Parts ·) (fun _ hd hparts => hparts.not_isDigit hd)
    (fun m _ hm hparts => hparts.not_mem_chars m hm) c hc

theorem mem_lowerAfter {c : Char} (h : isLowerAscii c = true) {cs : List Char} (hc : c ∈ cs)
    (before : List Char) : c ∈ lowerAfter before cs := by
  induction cs generalizing before with
  | nil => cases hc
  | cons d cs ih =>
    rw [lowerAfter, List.mem_append]
    rcases List.mem_cons.mp hc with rfl | hc
    · left
      simp only [isLowerAscii, Bool.and_eq_true, decide_eq_true_eq, Bool.not_eq_true',
        Bool.and_eq_false_iff, decide_eq_false_iff_not] at h
      rw [smallForm, if_pos h.1, if_neg fun hcapital => h.2.elim (· hcapital.1) (· hcapital.2)]
      exact List.mem_singleton_self c
    · exact .inr (ih hc _)

variable {limits : Limits} {text : String} {t : Term}

theorem Term.not_parts_of_parse (h : Term.parse limits text = .ok t) {c : Char}
    (hc : c ∈ text.toList) : ¬ Parts c := by
  intro hparts
  have hcompact : c ∈ compact text.toList :=
    List.mem_filter.mpr ⟨hc, by rw [hparts.not_isBlank]; rfl⟩
  exact (Term.parse_eq_ok_iff.mp h).2.not_parts (mem_lowerAfter hparts.isLowerAscii hcompact [])
    hparts

theorem Term.compact_ne_nil_of_parse (h : Term.parse limits text = .ok t) :
    compact text.toList ≠ [] := by
  intro he
  unfold Term.parse at h
  rw [he] at h
  cases h

theorem Term.parse_compact (h : Term.parse limits text = .ok t) :
    Term.parse limits (String.ofList (compact text.toList)) = .ok t := by
  rw [Term.parse_eq_ok_iff] at h ⊢
  rwa [String.toList_ofList, compact_compact]

theorem splitLabel?_eq_none_of_not_mem {cs : List Char} (h : ':' ∉ cs) : splitLabel? cs = none := by
  unfold splitLabel?
  split
  · rfl
  · split
    · split
      · next hdrop =>
        refine absurd ((List.dropWhile_sublist inLabel).subset ?_) h
        rw [hdrop]
        exact List.mem_cons_self
      · rfl
    · rfl

/-- A text that holds one term is a formula of that term alone. -/
theorem Formula.parse_of_term (h : Term.parse limits text = .ok t) :
    Formula.parse limits text = .ok ⟨String.ofList (compact text.toList), [⟨none, t⟩]⟩ := by
  have hcomma : ',' ∉ text.toList := fun hc => Term.not_parts_of_parse h hc (.inl rfl)
  have hcolon : ':' ∉ compact text.toList :=
    fun hc => Term.not_parts_of_parse h (List.mem_filter.mp hc).1 (.inr rfl)
  refine Formula.parse_eq_ok_iff.mpr ⟨rfl, ?_⟩
  rw [splitCommas_eq_singleton hcomma]
  refine .cons ?_ .nil
  rw [Segment.parse_eq_of_compact_ne_nil (Term.compact_ne_nil_of_parse h),
    splitLabel?_eq_none_of_not_mem hcolon]
  simp only [Term.parse_compact h]
  rfl

theorem Formula.segments_of_parse_text {p : Pool} (hp : p.Regular) {f : Formula}
    (h : Formula.parse limits p.text = .ok f) :
    ∃ t : Term, f.segments = [⟨none, t⟩] ∧ t.pool = p := by
  have hcomma : ',' ∉ p.text.toList := by
    rw [Pool.text, String.toList_ofList]
    exact fun hc => (Pool.plain_of_mem_written hp.single hc).not_comma rfl
  have hs := (Formula.parse_eq_ok_iff.mp h).2
  rw [splitCommas_eq_singleton hcomma] at hs
  obtain ⟨s, rest, hsegment, hrest, he⟩ := List.forall₂_cons_left_iff.mp hs
  rw [List.forall₂_nil_left_iff.mp hrest] at he
  obtain ⟨c, cs, hc, hstart⟩ := p.exists_written_eq_cons
  rw [Segment.parse_eq_of_compact_ne_nil (Segment.compact_ne_nil_of_parse hsegment), Pool.text,
    String.toList_ofList, Pool.compact_written hp.single, hc, splitLabel?_eq_none hstart, ← hc]
    at hsegment
  obtain ⟨t, ht, rfl⟩ := map_eq_ok_iff.mp hsegment
  exact ⟨t, he, Term.pool_of_parse_text hp ht⟩

theorem Segment.parse_labelled {label : List Char} (hl : IsLabel label) (whole : String)
    (h : Term.parse limits text = .ok t) :
    Segment.parse limits whole (label ++ ':' :: text.toList) =
      .ok ⟨some (String.ofList label), t⟩ := by
  have hcompact : compact (label ++ ':' :: text.toList) = label ++ ':' :: compact text.toList := by
    have hlabel : compact label = label := compact_eq_self fun c hc => by
      have hc := toNat_of_inLabel (hl.inLabel c hc)
      exact not_isBlank_of_ascii (by omega) hc.2
    rw [compact_append, hlabel]
    rfl
  have hne := Term.compact_ne_nil_of_parse h
  rw [Segment.parse_eq_of_compact_ne_nil (by rw [hcompact]; simp), hcompact,
    splitLabel?_append hl hne]
  simp only [Term.parse_compact h]
  rfl

theorem isLabel_of_all {c : Char} {cs : List Char} (hc : startsLabel c = true)
    (h : (c :: cs).all inLabel = true) : IsLabel (c :: cs) :=
  ⟨⟨c, cs, rfl, hc⟩, List.all_eq_true.mp h⟩

end DiceTower
