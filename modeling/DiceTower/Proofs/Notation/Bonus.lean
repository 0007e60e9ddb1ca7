import DiceTower.Proofs.Notation.Joined
import DiceTower.Text.Part

/-! A signed number behind a text that holds one term. Behind dice, and whatever follows them, it is
one more number to add; behind a number that stands alone it is refused. -/

namespace DiceTower

open Text Number

section Letters

variable {cs ds : List Char}

theorem smallForm_of_ne {c : Char} (h : c ≠ 'Σ') (before after after' : List Char) :
    smallForm before c after = smallForm before c after' := by
  simp only [smallForm, if_neg h]

theorem lowerAfter_append (hc : 'Σ' ∉ cs) (hd : ∀ c ∈ ds, isLowerAscii c = true)
    (before : List Char) : lowerAfter before (cs ++ ds) = lowerAfter before cs ++ ds := by
  induction cs generalizing before with
  | nil => exact lowerAfter_eq_self hd before
  | cons c cs ih =>
    obtain ⟨hne, hcs⟩ := not_or.mp (mt List.mem_cons.mpr hc)
    rw [List.cons_append, lowerAfter, lowerAfter, ih hcs, List.append_assoc,
      smallForm_of_ne (fun he => hne he.symm) before (cs ++ ds) cs]

theorem exists_sigma_of_mem (h : 'Σ' ∈ cs) (before : List Char) :
    ∃ c ∈ lowerAfter before cs, isDigit c = false ∧ isLowerAscii c = false := by
  induction cs generalizing before with
  | nil => cases h
  | cons d cs ih =>
    simp only [lowerAfter, List.mem_append]
    rcases List.mem_cons.mp h with rfl | h
    · have hsmall : smallForm before 'Σ' cs = if endsWord before cs then ['ς'] else ['σ'] := rfl
      rw [hsmall]
      split
      · exact ⟨'ς', .inl (by simp), by decide, by decide⟩
      · exact ⟨'σ', .inl (by simp), by decide, by decide⟩
    · obtain ⟨c, hc, hclass⟩ := ih h (d :: before)
      exact ⟨c, .inr hc, hclass⟩

theorem Denotes.sigma_not_mem {limits : Limits} {p : Pool} (h : Denotes limits (lower cs) p) :
    'Σ' ∉ cs := by
  intro hs
  obtain ⟨c, hc, hdigit, hlower⟩ := exists_sigma_of_mem hs []
  have hclass := h.forall_mem (fun c => isDigit c = true ∨ isLowerAscii c = true)
    (fun _ => .inl) (fun _ _ hm => .inr (Mark.plain hm).lower) c hc
  rw [hdigit, hlower] at hclass
  simp at hclass

end Letters

section Bonus

variable {limits : Limits} {cs : List Char} {p : Pool} {n : Int}

theorem exists_asBonus_eq_cons (h : n ≠ 0) :
    ∃ c ds, asBonus n = c :: ds ∧ (c = '+' ∨ c = '-') ∧ ∀ d ∈ ds, isDigit d = true := by
  have hdigits : ∀ d ∈ digits n.natAbs, isDigit d = true := fun d => isDigit_of_mem_digits
  rw [asBonus, if_neg h, withSign]
  by_cases hn : n < 0
  · exact ⟨'-', _, by rw [if_pos hn, whole_of_neg hn], .inr rfl, hdigits⟩
  · exact ⟨'+', _, by rw [if_neg hn, whole_of_nonneg (by omega)], .inl rfl, hdigits⟩

theorem Denotes.append_asBonus (h : Denotes limits cs p) (hflat : flatNumber? cs = none)
    (hn : n.natAbs ≤ 999999999) (hm : ((p.modifier + n).natAbs : Int) ≤ limits.modifier) :
    Denotes limits (cs ++ asBonus n) { p with modifier := p.modifier + n } := by
  cases h with
  | number hs hd _ =>
    obtain ⟨_, hsome, _⟩ := flatNumber?_of_sign hs hd.ne_nil hd.isDigit
    rw [hsome] at hflat
    cases hflat
  | dice hcount hsides htail h1 h2 h3 h4 _ hc =>
    have hpieces := htail.append (pieces_asBonus _ hn)
    rw [List.append_nil] at hpieces
    have hd := Denotes.dice hcount hsides hpieces h1 h2 h3 h4 hm hc
    simpa only [List.append_assoc, List.cons_append] using hd

theorem not_denotes_append_asBonus (hflat : flatNumber? cs ≠ none) (hn : n ≠ 0) :
    ¬ Denotes limits (cs ++ asBonus n) p := by
  obtain ⟨⟨negative, ds⟩, hsome⟩ := Option.ne_none_iff_exists'.mp hflat
  obtain ⟨sign, hsign, rfl, hne, hdigit⟩ := sign_of_flatNumber? hsome
  obtain ⟨c, ds', hbonus, hc, hdigit'⟩ := exists_asBonus_eq_cons hn
  have hplain : ¬ isDigit c = true := by
    rcases hc with rfl | rfl <;> decide
  generalize (if negative then -1 else 1 : Int) = s at hsign
  generalize htext : sign ++ ds ++ asBonus n = text
  rw [hbonus] at htext
  intro h
  cases h with
  | @number sign' _ ds'' _ hsign' hd _ =>
    obtain ⟨d, rest, hfirst⟩ := List.exists_cons_of_ne_nil
      (show sign ++ ds ≠ [] from List.append_ne_nil_of_right_ne_nil sign hne)
    rw [hfirst] at htext
    have hmem : c ∈ ds'' := by
      cases hsign' <;> simp at htext
      · rw [← htext]
        simp
      · rw [← htext.2]
        simp
      · rw [← htext.2]
        simp
    exact hplain (hd.isDigit c hmem)
  | @dice cds sds tail _ _ _ _ _ _ _ _ _ _ _ _ _ =>
    have hmem : 'd' ∈ sign ++ ds ++ c :: ds' := by simp [htext]
    simp only [List.mem_append, List.mem_cons] at hmem
    rcases hmem with (hmem | hmem) | rfl | hmem
    · cases hsign <;> simp at hmem
    · exact absurd (hdigit _ hmem) (by decide)
    · simp at hc
    · exact absurd (hdigit' _ hmem) (by decide)

end Bonus

section Texts

variable {limits : Limits} {text : String} {t : Term} {n : Int}

/-- The text is read as a number that stands alone, not as dice. -/
def ReadsNumber (text : String) : Prop := flatNumber? (lower (compact text.toList)) ≠ none

instance (text : String) : Decidable (ReadsNumber text) := inferInstanceAs (Decidable (_ ≠ none))

theorem compact_withoutSpaces (text : String) :
    compact (withoutSpaces text).toList = compact text.toList := by
  rw [withoutSpaces, String.toList_ofList, compact, compact, List.filter_filter]
  refine List.filter_congr fun c _ => ?_
  by_cases hc : c = ' '
  · subst hc
    rfl
  · simp [hc]

theorem readsNumber_withoutSpaces (text : String) :
    ReadsNumber (withoutSpaces text) ↔ ReadsNumber text := by
  rw [ReadsNumber, compact_withoutSpaces, ReadsNumber]

theorem Term.parse_withoutSpaces (h : parse limits text = .ok t) :
    parse limits (withoutSpaces text) = .ok t := by
  rw [parse_eq_ok_iff] at h ⊢
  rwa [compact_withoutSpaces]

theorem Term.lower_append_asBonus (h : parse limits text = .ok t) (n : Int) :
    lower (compact (text ++ String.ofList (asBonus n)).toList) =
      lower (compact text.toList) ++ asBonus n := by
  have hcompact : compact (asBonus n) = asBonus n :=
    compact_eq_self fun _ hc => (plain_of_mem_asBonus hc).not_blank
  rw [String.toList_append, String.toList_ofList, compact_append, hcompact]
  exact lowerAfter_append (parse_eq_ok_iff.mp h).2.sigma_not_mem
    (fun _ hc => (plain_of_mem_asBonus hc).lower) []

/-- Behind a term a number is added to its own, unless the term is a number itself. -/
theorem Term.exists_parse_append_asBonus_iff (h : parse limits text = .ok t)
    (hn : n.natAbs ≤ 999999999) (hm : ((t.pool.modifier + n).natAbs : Int) ≤ limits.modifier) :
    (∃ t', parse limits (text ++ String.ofList (asBonus n)) = .ok t' ∧
      t'.pool = { t.pool with modifier := t.pool.modifier + n }) ↔ n = 0 ∨ ¬ ReadsNumber text := by
  have hd := (parse_eq_ok_iff.mp h).2
  constructor
  · rintro ⟨t', ht', -⟩
    have hd' := (parse_eq_ok_iff.mp ht').2
    rw [lower_append_asBonus h] at hd'
    refine or_iff_not_imp_left.mpr fun hn' hnumber => ?_
    exact not_denotes_append_asBonus hnumber hn' hd'
  · intro hcases
    refine ⟨⟨_, { t.pool with modifier := t.pool.modifier + n }⟩, parse_eq_ok_iff.mpr ⟨rfl, ?_⟩, rfl⟩
    rw [lower_append_asBonus h]
    by_cases hn' : n = 0
    · subst hn'
      rw [Int.add_zero, show asBonus 0 = [] from rfl, List.append_nil]
      exact hd
    · exact hd.append_asBonus (not_not.mp (hcases.resolve_left hn')) hn hm

end Texts

end DiceTower
