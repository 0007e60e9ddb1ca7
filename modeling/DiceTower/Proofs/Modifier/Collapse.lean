import Mathlib.Data.List.Induction
import Mathlib.Data.List.TakeWhile
import DiceTower.Proofs.Modifier.Checked

/-! Which modifiers are left of those that do not stack. One that is taken out for a reason of its own
may be left out from the start, unless it would have taken the place of another one. -/

namespace DiceTower

section Sorting

variable {α : Type} {le : α → α → Bool}

theorem append_unique {a : α} {xs ys zs ws : List α} (h : xs ++ ys = zs ++ ws)
    (hxs : ∀ b ∈ xs, (!le a b) = true) (hzs : ∀ b ∈ zs, (!le a b) = true)
    (hys : ∀ b ∈ ys, le a b = true) (hws : ∀ b ∈ ws, le a b = true) : xs = zs ∧ ys = ws := by
  have hnone : ∀ {l : List α}, (∀ b ∈ l, le a b = true) → l.takeWhile (!le a ·) = [] := by
    intro l hl
    rw [List.takeWhile_eq_nil_iff]
    intro hpos
    simpa using hl _ (List.getElem_mem hpos)
  have hleft : xs = zs := by
    have ht := congrArg (List.takeWhile (!le a ·)) h
    rwa [List.takeWhile_append_of_pos hxs, List.takeWhile_append_of_pos hzs, hnone hys, hnone hws,
      List.append_nil, List.append_nil] at ht
  exact ⟨hleft, List.append_cancel_left (hleft ▸ h)⟩

/-- A stable sort goes on with any part of a list as it does with the whole. -/
theorem filter_mergeSort (trans : ∀ a b c : α, le a b = true → le b c = true → le a c = true)
    (total : ∀ a b : α, (le a b || le b a) = true) (p : α → Bool) (l : List α) :
    (l.mergeSort le).filter p = (l.filter p).mergeSort le := by
  induction l with
  | nil => simp
  | cons a l ih =>
    obtain ⟨xs, ys, hsort, hrest, hbefore⟩ := List.mergeSort_cons trans total a l
    rw [hrest, List.filter_append] at ih
    have hsorted := List.pairwise_mergeSort trans total (a :: l)
    rw [hsort] at hsorted ⊢
    have hafter := (List.pairwise_cons.mp (List.pairwise_append.mp hsorted).2.1).1
    rw [List.filter_append]
    by_cases ha : p a = true
    · obtain ⟨zs, ws, hsort', hrest', hbefore'⟩ := List.mergeSort_cons trans total a (l.filter p)
      have hsorted' := List.pairwise_mergeSort trans total (a :: l.filter p)
      rw [hsort'] at hsorted'
      have hafter' := (List.pairwise_cons.mp (List.pairwise_append.mp hsorted').2.1).1
      obtain ⟨hx, hy⟩ := append_unique (ih.trans hrest')
        (fun b hb => hbefore b (List.mem_filter.mp hb).1) hbefore'
        (fun b hb => hafter b (List.mem_filter.mp hb).1) hafter'
      rw [List.filter_cons_of_pos ha, List.filter_cons_of_pos ha, hsort', hx, hy]
    · rw [List.filter_cons_of_neg ha, List.filter_cons_of_neg ha, ih]

end Sorting

namespace Modifier

variable {m : Modifier} {q : ModifierSource × String → Bool} {p : Modifier → Bool}

theorem place_cons_of_eq {n : Modifier} (h : n.key = m.key) (ms : List Modifier) :
    place m (n :: ms) = (if m.priority < n.priority then m else n) :: ms := by
  rw [place, if_pos h]

theorem place_cons_of_ne {n : Modifier} (h : n.key ≠ m.key) (ms : List Modifier) :
    place m (n :: ms) = n :: place m ms := by
  rw [place, if_neg h]

theorem find?_place (m : Modifier) (ms : List Modifier) (k : ModifierSource × String) :
    (place m ms).find? (·.key = k) =
      if m.key = k then
        some (match ms.find? (·.key = k) with
          | some n => if m.priority < n.priority then m else n
          | none => m)
      else ms.find? (·.key = k) := by
  induction ms with
  | nil =>
    by_cases hk : m.key = k <;> simp [place, hk]
  | cons n ms ih =>
    by_cases hn : n.key = m.key
    · rw [place_cons_of_eq hn]
      by_cases hk : m.key = k
      · have hnk : n.key = k := hn.trans hk
        rw [if_pos hk, List.find?_cons_of_pos (by split <;> simp [hk, hnk]),
          List.find?_cons_of_pos (by simpa using hnk)]
      · have hnk : n.key ≠ k := hn ▸ hk
        split <;> simp [hk, hnk]
    · rw [place_cons_of_ne hn]
      by_cases hnk : n.key = k
      · have hk : m.key ≠ k := fun hk => hn (hnk.trans hk.symm)
        simp [hnk, hk]
      · rw [List.find?_cons_of_neg (by simpa using hnk), List.find?_cons_of_neg (by simpa using hnk),
          ih]

theorem best_append (ms : List Modifier) (m : Modifier) : best (ms ++ [m]) = place m (best ms) := by
  simp [best]

theorem exists_find?_best {ms : List Modifier} (hm : m ∈ ms) :
    ∃ n, (best ms).find? (·.key = m.key) = some n ∧ n.priority ≤ m.priority := by
  induction ms using List.reverseRecOn with
  | nil => cases hm
  | append_singleton ms m' ih =>
    rw [best_append, find?_place]
    rcases List.mem_append.mp hm with hm | hm
    · obtain ⟨n, hn, hle⟩ := ih hm
      rw [hn]
      split
      · refine ⟨_, rfl, ?_⟩
        dsimp only
        split <;> omega
      · exact ⟨n, rfl, hle⟩
    · obtain rfl := List.mem_singleton.mp hm
      rw [if_pos rfl]
      refine ⟨_, rfl, ?_⟩
      split
      · split <;> omega
      · exact Int.le_refl _

theorem place_eq_self {ms : List Modifier} {n : Modifier}
    (h : ms.find? (·.key = m.key) = some n) (hle : n.priority ≤ m.priority) : place m ms = ms := by
  induction ms with
  | nil => cases h
  | cons n' ms ih =>
    by_cases hk : n'.key = m.key
    · rw [List.find?_cons_of_pos (by simpa using hk)] at h
      cases h
      rw [place_cons_of_eq hk, if_neg (by omega)]
    · rw [List.find?_cons_of_neg (by simpa using hk)] at h
      rw [place_cons_of_ne hk, ih h]

theorem best_append_cons_of_mem {before after : List Modifier} {n : Modifier} (hn : n ∈ before)
    (hk : n.key = m.key) (hle : n.priority ≤ m.priority) :
    best (before ++ m :: after) = best (before ++ after) := by
  obtain ⟨n', hn', hle'⟩ := exists_find?_best hn
  have hplace : place m (best before) = best before :=
    place_eq_self (hk ▸ hn') (Int.le_trans hle' hle)
  unfold best at hplace ⊢
  rw [List.foldl_append, List.foldl_append, List.foldl_cons, hplace]

theorem filter_place_of_pos (h : q m.key = true) (ms : List Modifier) :
    (place m ms).filter (q ·.key) = place m (ms.filter (q ·.key)) := by
  induction ms with
  | nil => simp [place, h]
  | cons n ms ih =>
    by_cases hn : n.key = m.key
    · have hnq : q n.key = true := hn ▸ h
      rw [place_cons_of_eq hn, List.filter_cons_of_pos (by split <;> assumption)]
      simp only [List.filter_cons, hnq, if_true, place_cons_of_eq hn]
    · rw [place_cons_of_ne hn]
      cases hnq : q n.key with
      | true => simp only [List.filter_cons, hnq, if_true, ih, place_cons_of_ne hn]
      | false => simp [hnq, ih]

theorem filter_place_of_neg (h : q m.key = false) (ms : List Modifier) :
    (place m ms).filter (q ·.key) = ms.filter (q ·.key) := by
  induction ms with
  | nil => simp [place, h]
  | cons n ms ih =>
    by_cases hn : n.key = m.key
    · have hnq : q n.key = false := hn ▸ h
      rw [place_cons_of_eq hn]
      split
      · simp [h, hnq]
      · rfl
    · rw [place_cons_of_ne hn, List.filter_cons, List.filter_cons, ih]

theorem filter_best (q : ModifierSource × String → Bool) (ms : List Modifier) :
    (best ms).filter (q ·.key) = best (ms.filter (q ·.key)) := by
  induction ms using List.reverseRecOn with
  | nil => rfl
  | append_singleton ms m ih =>
    rw [best_append, List.filter_append]
    cases hq : q m.key with
    | true => simp [filter_place_of_pos hq, ih, hq, best_append]
    | false => simp [filter_place_of_neg hq, ih, hq]

theorem filter_best_append_cons {before after : List Modifier} (hm : p m = false)
    (h : ∀ n ∈ before ++ after, n.key = m.key → p n = false) :
    (best (before ++ m :: after)).filter p = (best (before ++ after)).filter p := by
  have hothers : ∀ {ms : List Modifier}, (∀ n ∈ ms, n.key = m.key → p n = false) →
      (best ms).filter p = (best (ms.filter (·.key ≠ m.key))).filter p := by
    intro ms hms
    rw [← filter_best (fun k => decide (k ≠ m.key)), List.filter_filter]
    refine List.filter_congr fun n hn => ?_
    by_cases hk : n.key = m.key
    · simp [hk, hms n (mem_of_mem_best hn) hk]
    · simp [hk]
  have hall : ∀ n ∈ before ++ m :: after, n.key = m.key → p n = false := by
    intro n hn hk
    rcases List.mem_append.mp hn with hn | hn
    · exact h n (List.mem_append_left _ hn) hk
    · rcases List.mem_cons.mp hn with rfl | hn
      · exact hm
      · exact h n (List.mem_append_right _ hn) hk
  rw [hothers hall, hothers h, List.filter_append, List.filter_append,
    List.filter_cons_of_neg (by simp)]

theorem collapse_eq_self {ms : List Modifier}
    (hb : ms.filter (·.cumulative) ++ best (ms.filter (!·.cumulative)) = ms)
    (hp : ms.Pairwise fun m n => decide (m.priority ≤ n.priority) = true) : collapse ms = ms := by
  rw [collapse, hb]
  exact List.mergeSort_of_pairwise hp

theorem filter_collapse (p : Modifier → Bool) (ms : List Modifier) :
    (collapse ms).filter p = ((ms.filter (·.cumulative)).filter p ++
      (best (ms.filter (!·.cumulative))).filter p).mergeSort
        fun m n => decide (m.priority ≤ n.priority) := by
  unfold collapse
  rw [filter_mergeSort (fun a b c => by simpa using Int.le_trans)
    (fun a b => by simpa using Int.le_total _ _), List.filter_append]

/-- A modifier that is not wanted gives way to those among which it stands: it stacks, stands behind
one of its key that is no worse, or has a key of which none is wanted. -/
theorem filter_collapse_append_cons {before after : List Modifier} (hm : p m = false)
    (h : m.cumulative = true ∨
      (∃ n ∈ before, n.cumulative = false ∧ n.key = m.key ∧ n.priority ≤ m.priority) ∨
      ∀ n ∈ before ++ after, n.cumulative = false → n.key = m.key → p n = false) :
    (collapse (before ++ m :: after)).filter p = (collapse (before ++ after)).filter p := by
  rw [filter_collapse, filter_collapse]
  by_cases hc : m.cumulative = true
  · congr 2
    · simp only [List.filter_append, List.filter_cons_of_pos (show m.cumulative = true from hc),
        List.filter_cons_of_neg (show ¬ p m = true by simp [hm])]
    · simp [hc]
  · have hfilter : (before ++ m :: after).filter (!·.cumulative) =
        before.filter (!·.cumulative) ++ m :: after.filter (!·.cumulative) := by
      simp [hc]
    congr 2
    · simp [hc]
    · rw [hfilter, List.filter_append]
      rcases h.resolve_left hc with ⟨n, hn, hnc, hk, hle⟩ | hnone
      · rw [best_append_cons_of_mem (List.mem_filter.mpr ⟨hn, by simp [hnc]⟩) hk hle]
      · refine filter_best_append_cons hm fun n hn hk => ?_
        rw [← List.filter_append, List.mem_filter] at hn
        exact hnone n hn.1 (by simpa using hn.2) hk

theorem exists_mem_collapse {ms : List Modifier} (hm : m ∈ ms) (hc : m.cumulative = false) :
    ∃ n ∈ collapse ms, n.key = m.key := by
  have hm : m ∈ ms.filter (!·.cumulative) := List.mem_filter.mpr ⟨hm, by simp [hc]⟩
  obtain ⟨n, hn, _⟩ := exists_find?_best hm
  refine ⟨n, ?_, by simpa using List.find?_some hn⟩
  rw [collapse, List.mem_mergeSort]
  exact List.mem_append_right _ (List.mem_of_find?_eq_some hn)

end Modifier

end DiceTower
