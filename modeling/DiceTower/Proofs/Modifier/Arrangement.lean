import DiceTower.Proofs.Modifier.Collapse

/-! What is left of some modifiers, and in which order. Those of one priority number come as they did
before the sort, and a sorted list is told by its parts of one priority number each. -/

namespace DiceTower

namespace Modifier

variable {m n : Modifier} {ms ns : List Modifier}

section Priorities

def byPriority (ms : List Modifier) : List Modifier :=
  ms.mergeSort fun m n => decide (m.priority ≤ n.priority)

theorem byPriority_perm (ms : List Modifier) : (byPriority ms).Perm ms := List.mergeSort_perm ..

theorem pairwise_byPriority (ms : List Modifier) :
    (byPriority ms).Pairwise fun m n => m.priority ≤ n.priority := by
  refine (List.pairwise_mergeSort (fun a b c => ?_) (fun a b => ?_) ms).imp fun h => by simpa using h
  · simpa using Int.le_trans
  · simpa using Int.le_total _ _

theorem filter_byPriority (p : Modifier → Bool) (ms : List Modifier) :
    (byPriority ms).filter p = byPriority (ms.filter p) :=
  filter_mergeSort (fun a b c => by simpa using Int.le_trans)
    (fun a b => by simpa using Int.le_total _ _) p ms

theorem filter_priority_byPriority (i : Int) (ms : List Modifier) :
    (byPriority ms).filter (·.priority = i) = ms.filter (·.priority = i) := by
  rw [filter_byPriority]
  refine List.mergeSort_of_pairwise ?_
  rw [List.pairwise_iff_forall_sublist]
  intro m n hs
  have hm := (List.mem_filter.mp (hs.subset (by simp : m ∈ [m, n]))).2
  have hn := (List.mem_filter.mp (hs.subset (by simp : n ∈ [m, n]))).2
  simp only [decide_eq_true_eq] at hm hn ⊢
  omega

theorem mem_iff_of_filter_priority
    (h : ∀ i, ms.filter (·.priority = i) = ns.filter (·.priority = i)) : m ∈ ms ↔ m ∈ ns := by
  have hfilter : m ∈ ms.filter (·.priority = m.priority) ↔
      m ∈ ns.filter (·.priority = m.priority) := by rw [h]
  simpa using hfilter

theorem eq_of_filter_priority (hm : ms.Pairwise fun m n => m.priority ≤ n.priority)
    (hn : ns.Pairwise fun m n => m.priority ≤ n.priority)
    (h : ∀ i, ms.filter (·.priority = i) = ns.filter (·.priority = i)) : ms = ns := by
  induction ms generalizing ns with
  | nil =>
    refine (List.eq_nil_iff_forall_not_mem.mpr fun n hmem => ?_).symm
    simpa using (mem_iff_of_filter_priority h).mpr hmem
  | cons m ms ih =>
    cases ns with
    | nil => simpa using (mem_iff_of_filter_priority h).mp List.mem_cons_self
    | cons n ns =>
      obtain ⟨hm, hms⟩ := List.pairwise_cons.mp hm
      obtain ⟨hn, hns⟩ := List.pairwise_cons.mp hn
      have hle : m.priority ≤ n.priority := by
        rcases List.mem_cons.mp ((mem_iff_of_filter_priority h).mpr List.mem_cons_self) with he | he
        · exact he ▸ Int.le_refl _
        · exact hm n he
      have hle' : n.priority ≤ m.priority := by
        rcases List.mem_cons.mp ((mem_iff_of_filter_priority h).mp List.mem_cons_self) with he | he
        · exact he ▸ Int.le_refl _
        · exact hn m he
      have heq : n.priority = m.priority := Int.le_antisymm hle' hle
      have hfirst := h m.priority
      rw [List.filter_cons_of_pos (by simp), List.filter_cons_of_pos (by simpa using heq)] at hfirst
      obtain ⟨rfl, htail⟩ := List.cons.inj hfirst
      have hrest : ∀ i, ms.filter (·.priority = i) = ns.filter (·.priority = i) := by
        intro i
        have hi := h i
        by_cases hk : m.priority = i
        · exact hk ▸ htail
        · rwa [List.filter_cons_of_neg (by simpa using hk),
            List.filter_cons_of_neg (by simpa using hk)] at hi
      rw [ih hms hns hrest]

theorem byPriority_append_byPriority (ms ns : List Modifier) :
    byPriority (byPriority ms ++ byPriority ns) = byPriority (ms ++ ns) := by
  refine eq_of_filter_priority (pairwise_byPriority _) (pairwise_byPriority _) fun i => ?_
  rw [filter_priority_byPriority, filter_priority_byPriority, List.filter_append, List.filter_append,
    filter_priority_byPriority, filter_priority_byPriority]

end Priorities

section Keys

def keys (ms : List Modifier) : List (ModifierSource × String) := ms.map (·.key)

theorem keys_cons (m : Modifier) (ms : List Modifier) : keys (m :: ms) = m.key :: keys ms := rfl

theorem keys_append_singleton (ms : List Modifier) (m : Modifier) :
    keys (ms ++ [m]) = keys ms ++ [m.key] := List.map_append

theorem keys_place (m : Modifier) (ms : List Modifier) :
    keys (place m ms) = if m.key ∈ keys ms then keys ms else keys ms ++ [m.key] := by
  induction ms with
  | nil => rfl
  | cons n ms ih =>
    by_cases hn : n.key = m.key
    · have hmem : m.key ∈ keys (n :: ms) := by simp [keys_cons, hn]
      rw [place_cons_of_eq hn, if_pos hmem]
      split
      · rw [keys_cons, keys_cons, hn]
      · rfl
    · have hne : m.key ≠ n.key := fun he => hn he.symm
      rw [place_cons_of_ne hn, keys_cons, ih, keys_cons]
      by_cases hk : m.key ∈ keys ms
      · rw [if_pos hk, if_pos (List.mem_cons_of_mem _ hk)]
      · rw [if_neg hk, if_neg (by simp [hne, hk]), List.cons_append]

theorem mem_keys_best {k : ModifierSource × String} : k ∈ keys (best ms) ↔ k ∈ keys ms := by
  constructor
  · intro h
    obtain ⟨m, hm, rfl⟩ := List.mem_map.mp h
    exact List.mem_map_of_mem (mem_of_mem_best hm)
  · intro h
    obtain ⟨m, hm, rfl⟩ := List.mem_map.mp h
    obtain ⟨n, hn, _⟩ := exists_find?_best hm
    exact List.mem_map.mpr ⟨n, List.mem_of_find?_eq_some hn, by simpa using List.find?_some hn⟩

theorem pairwise_keys_best (ms : List Modifier) :
    (keys (best ms)).Pairwise fun k k' => (keys ms).idxOf k < (keys ms).idxOf k' := by
  induction ms using List.reverseRecOn with
  | nil => exact .nil
  | append_singleton ms m ih =>
    have hold : ∀ {k}, k ∈ keys (best ms) →
        (keys ms ++ [m.key]).idxOf k = (keys ms).idxOf k := fun hk =>
      List.idxOf_append_of_mem (mem_keys_best.mp hk)
    have hbest : (keys (best ms)).Pairwise fun k k' =>
        (keys ms ++ [m.key]).idxOf k < (keys ms ++ [m.key]).idxOf k' := by
      refine ih.imp_of_mem fun hk hk' h => ?_
      rwa [hold hk, hold hk']
    rw [best_append, keys_place, keys_append_singleton]
    split
    · exact hbest
    · next hnew =>
      refine List.pairwise_append.mpr ⟨hbest, List.pairwise_singleton .., fun k hk k' hk' => ?_⟩
      obtain rfl := List.mem_singleton.mp hk'
      rw [hold hk, List.idxOf_append_of_notMem (mt mem_keys_best.mpr hnew)]
      have := List.idxOf_lt_length_of_mem (mem_keys_best.mp hk)
      omega

theorem nodup_keys_best (ms : List Modifier) : (keys (best ms)).Nodup :=
  (pairwise_keys_best ms).imp fun h he => by simp [he] at h

theorem best_eq_self (h : (keys ms).Nodup) : best ms = ms := by
  induction ms using List.reverseRecOn with
  | nil => rfl
  | append_singleton ms m ih =>
    rw [keys_append_singleton, List.nodup_append] at h
    have hnew : ∀ n ∈ ms, n.key ≠ m.key := fun n hn =>
      h.2.2 n.key (List.mem_map_of_mem hn) m.key List.mem_cons_self
    rw [best_append, ih h.1]
    clear ih h
    induction ms with
    | nil => rfl
    | cons n ms ih =>
      rw [place_cons_of_ne (hnew n (by simp)), ih fun n hn => hnew n (by simp [hn])]
      rfl

end Keys

section Foremost

/-- A modifier that is the earliest of lowest priority number among some. -/
def Leads (n : Modifier) (ms : List Modifier) : Prop :=
  ∃ before after, ms = before ++ n :: after ∧
    (∀ m ∈ before, n.priority < m.priority) ∧ ∀ m ∈ after, n.priority ≤ m.priority

theorem Leads.mem (h : n.Leads ms) : n ∈ ms := by
  obtain ⟨before, after, rfl, -⟩ := h
  simp

theorem Leads.least (h : n.Leads ms) : ∀ m ∈ ms, n.priority ≤ m.priority := by
  obtain ⟨before, after, rfl, hbefore, hafter⟩ := h
  intro m hm
  rcases List.mem_append.mp hm with hm | hm
  · exact Int.le_of_lt (hbefore m hm)
  · rcases List.mem_cons.mp hm with rfl | hm
    · exact Int.le_refl _
    · exact hafter m hm

theorem Leads.find?_eq (h : n.Leads ms) : ms.find? (·.priority ≤ n.priority) = some n := by
  obtain ⟨before, after, rfl, hbefore, -⟩ := h
  rw [List.find?_append, List.find?_eq_none.mpr (by simpa using hbefore)]
  simp

theorem Leads.unique (hm : m.Leads ms) (hn : n.Leads ms) : m = n := by
  have heq : m.priority = n.priority := Int.le_antisymm (hm.least n hn.mem) (hn.least m hm.mem)
  have hfirst := hm.find?_eq
  rw [heq, hn.find?_eq] at hfirst
  exact (Option.some.inj hfirst).symm

theorem leads_singleton (m : Modifier) : m.Leads [m] := ⟨[], [], rfl, by simp, by simp⟩

theorem Leads.append_of_lt (h : n.Leads ms) (hlt : m.priority < n.priority) : m.Leads (ms ++ [m]) :=
  ⟨ms, [], rfl, fun m' hm' => Int.lt_of_lt_of_le hlt (h.least m' hm'), by simp⟩

theorem Leads.append_of_le (h : n.Leads ms) (hle : n.priority ≤ m.priority) : n.Leads (ms ++ [m]) := by
  obtain ⟨before, after, rfl, hbefore, hafter⟩ := h
  refine ⟨before, after ++ [m], by simp, hbefore, fun m' hm' => ?_⟩
  rcases List.mem_append.mp hm' with hm' | hm'
  · exact hafter m' hm'
  · rwa [List.mem_singleton.mp hm']

theorem exists_best_eq_singleton {k : ModifierSource × String} (hne : ms ≠ [])
    (hk : ∀ m ∈ ms, m.key = k) : ∃ n, best ms = [n] ∧ n.Leads ms := by
  induction ms using List.reverseRecOn with
  | nil => exact absurd rfl hne
  | append_singleton ms m ih =>
    rw [best_append]
    by_cases hms : ms = []
    · subst hms
      exact ⟨m, rfl, leads_singleton m⟩
    · obtain ⟨n, hbest, hlead⟩ := ih hms fun m' hm' => hk m' (List.mem_append_left _ hm')
      have hkey : n.key = m.key := by
        rw [hk n (List.mem_append_left _ hlead.mem), hk m (by simp)]
      rw [hbest, place_cons_of_eq hkey]
      split
      · next hlt => exact ⟨m, rfl, hlead.append_of_lt hlt⟩
      · next hle => exact ⟨n, rfl, hlead.append_of_le (Int.not_lt.mp hle)⟩

end Foremost

section Collapsed

def sharing (k : ModifierSource × String) (ms : List Modifier) : List Modifier :=
  ms.filter fun m => !m.cumulative && m.key = k

theorem mem_sharing {k : ModifierSource × String} :
    m ∈ sharing k ms ↔ m ∈ ms ∧ m.cumulative = false ∧ m.key = k := by
  simp [sharing]

/-- What is left of some modifiers, in the order in which it takes effect. -/
structure Collapsed (ms left : List Modifier) : Prop where
  sorted : left.Pairwise fun m n => m.priority ≤ n.priority
  /-- Those that stack are all left, as often as they occur. -/
  stacking : (left.filter (·.cumulative)).Perm (ms.filter (·.cumulative))
  /-- Of the others of a key one is left, the earliest of lowest priority number. -/
  kept : ∀ m ∈ ms, m.cumulative = false →
    ∃ n, sharing m.key left = [n] ∧ n.Leads (sharing m.key ms)
  only : ∀ n ∈ left, n ∈ ms
  /-- Of one priority number those that stack come first, as they came before, and then the others in
  the order in which their keys first occurred. -/
  ties : ∀ i, ∃ others, left.filter (·.priority = i) =
      ms.filter (fun m => m.cumulative && m.priority = i) ++ others ∧
    (∀ n ∈ others, n.cumulative = false) ∧
    (keys others).Pairwise fun k k' => (keys (ms.filter (!·.cumulative))).idxOf k <
      (keys (ms.filter (!·.cumulative))).idxOf k'

theorem cumulative_of_mem_best (h : n ∈ best (ms.filter (!·.cumulative))) : n.cumulative = false := by
  simpa using (List.mem_filter.mp (mem_of_mem_best h)).2

theorem collapse_eq (ms : List Modifier) : collapse ms =
    byPriority (ms.filter (·.cumulative) ++ best (ms.filter (!·.cumulative))) := rfl

theorem filter_cumulative_collapse (ms : List Modifier) :
    (collapse ms).filter (·.cumulative) = byPriority (ms.filter (·.cumulative)) := by
  have hnone : (best (ms.filter (!·.cumulative))).filter (·.cumulative) = [] :=
    List.filter_eq_nil_iff.mpr fun n hn => by simp [cumulative_of_mem_best hn]
  rw [collapse_eq, filter_byPriority, List.filter_append, hnone, List.append_nil, List.filter_filter]
  simp only [Bool.and_self]

theorem filter_not_cumulative_collapse (ms : List Modifier) :
    (collapse ms).filter (!·.cumulative) = byPriority (best (ms.filter (!·.cumulative))) := by
  have hnone : (ms.filter (·.cumulative)).filter (!·.cumulative) = [] :=
    List.filter_eq_nil_iff.mpr fun n hn => by simp [(List.mem_filter.mp hn).2]
  rw [collapse_eq, filter_byPriority, List.filter_append, hnone, List.nil_append,
    List.filter_eq_self.mpr fun n hn => by simp [cumulative_of_mem_best hn]]

theorem sharing_collapse (k : ModifierSource × String) (ms : List Modifier) :
    sharing k (collapse ms) = byPriority (best (sharing k ms)) := by
  have hsplit (ms : List Modifier) :
      sharing k ms = (ms.filter (!·.cumulative)).filter fun m => decide (m.key = k) := by
    rw [List.filter_filter, sharing]
    simp only [Bool.and_comm]
  rw [hsplit, filter_not_cumulative_collapse, filter_byPriority,
    filter_best fun k' => decide (k' = k), ← hsplit]

theorem collapsed_collapse (ms : List Modifier) : Collapsed ms (collapse ms) where
  sorted := pairwise_byPriority _
  stacking := by
    rw [filter_cumulative_collapse]
    exact byPriority_perm _
  kept := by
    intro m hm hc
    have hshares : m ∈ sharing m.key ms := mem_sharing.mpr ⟨hm, hc, rfl⟩
    obtain ⟨n, hbest, hlead⟩ := exists_best_eq_singleton (List.ne_nil_of_mem hshares)
      fun m' hm' => (mem_sharing.mp hm').2.2
    refine ⟨n, ?_, hlead⟩
    rw [sharing_collapse, hbest]
    exact List.mergeSort_singleton n
  only := fun n hn => mem_of_mem_collapse hn
  ties := by
    intro i
    refine ⟨(best (ms.filter (!·.cumulative))).filter (·.priority = i), ?_, fun n hn => ?_, ?_⟩
    · rw [collapse_eq, filter_priority_byPriority, List.filter_append, List.filter_filter]
      simp only [Bool.and_comm]
    · exact cumulative_of_mem_best (List.mem_filter.mp hn).1
    · exact (pairwise_keys_best _).sublist ((List.filter_sublist ..).map _)

theorem Collapsed.mem_iff {left : List Modifier} (h : Collapsed ms left) (hc : n.cumulative = false) :
    n ∈ left ↔ n.Leads (sharing n.key ms) := by
  constructor
  · intro hn
    obtain ⟨n', hleft, hlead⟩ := h.kept n (h.only n hn) hc
    have hmem : n ∈ sharing n.key left := mem_sharing.mpr ⟨hn, hc, rfl⟩
    rw [hleft, List.mem_singleton] at hmem
    rwa [← hmem] at hlead
  · intro hlead
    obtain ⟨n', hleft, hlead'⟩ := h.kept n (mem_sharing.mp hlead.mem).1 hc
    obtain rfl := hlead.unique hlead'
    exact (mem_sharing.mp (hleft ▸ List.mem_singleton_self n : n ∈ sharing n.key left)).1

theorem Collapsed.mem_others {left others : List Modifier} (h : Collapsed ms left) {i : Int}
    (hsplit : left.filter (·.priority = i) =
      ms.filter (fun m => m.cumulative && m.priority = i) ++ others)
    (hc : ∀ n ∈ others, n.cumulative = false) :
    n ∈ others ↔ n.cumulative = false ∧ n.priority = i ∧ n.Leads (sharing n.key ms) := by
  have hmem := congrArg (n ∈ ·) hsplit
  simp only [List.mem_filter, List.mem_append, Bool.and_eq_true, decide_eq_true_eq] at hmem
  by_cases hn : n.cumulative = false
  · rw [← h.mem_iff hn]
    simp only [hn, Bool.false_eq_true, false_and, and_false, false_or, true_and] at hmem ⊢
    rw [← hmem, and_comm]
  · exact ⟨fun hmem => absurd (hc n hmem) hn, fun hmem => absurd hmem.1 hn⟩

/-- There is one way to collapse modifiers. -/
theorem Collapsed.unique {left left' : List Modifier} (h : Collapsed ms left)
    (h' : Collapsed ms left') : left = left' := by
  refine eq_of_filter_priority h.sorted h'.sorted fun i => ?_
  obtain ⟨others, hsplit, hc, hkeys⟩ := h.ties i
  obtain ⟨others', hsplit', hc', hkeys'⟩ := h'.ties i
  rw [hsplit, hsplit']
  have hkeys := List.pairwise_map.mp hkeys
  have hkeys' := List.pairwise_map.mp hkeys'
  have hperm : others.Perm others' := by
    refine (List.perm_ext_iff_of_nodup ?_ ?_).mpr fun n => ?_
    · exact hkeys.imp fun hlt he => by simp [he] at hlt
    · exact hkeys'.imp fun hlt he => by simp [he] at hlt
    · rw [h.mem_others hsplit hc, h'.mem_others hsplit' hc']
  rw [hperm.eq_of_pairwise (fun _ _ _ _ hlt hlt' => absurd hlt (Nat.lt_asymm hlt')) hkeys hkeys']

theorem collapse_collapse (ms : List Modifier) : collapse (collapse ms) = collapse ms := by
  have hnodup : (keys (byPriority (best (ms.filter (!·.cumulative))))).Nodup :=
    ((byPriority_perm _).map _).nodup_iff.mpr (nodup_keys_best _)
  rw [collapse_eq (collapse ms), filter_cumulative_collapse, filter_not_cumulative_collapse,
    best_eq_self hnodup, byPriority_append_byPriority]
  rfl

/-- Collapsing leaves the right modifiers in a stable order: every one that stacks and of the others
the best of each key, in order of priority and among equals of occurrence. No other list has all of
this, and to collapse once more changes nothing. -/
theorem collapse_characterized (ms : List Modifier) :
    (∀ left, Collapsed ms left ↔ left = collapse ms) ∧ collapse (collapse ms) = collapse ms := by
  refine ⟨fun left => ⟨fun h => h.unique (collapsed_collapse ms), ?_⟩, collapse_collapse ms⟩
  rintro rfl
  exact collapsed_collapse ms

end Collapsed

end Modifier

end DiceTower
