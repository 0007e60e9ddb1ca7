import DiceTower.Engine.Activation
import DiceTower.Proofs.Play.Computation

/-! Which modifiers are active in a segment, and what they leave of its dice. -/

namespace DiceTower

open DiceTower.Computation

section Activation

variable {kind : RollType} {critical missed : Bool} {used used' : List String} {ms : List Modifier}

theorem activate_filter (kind : RollType) (critical missed : Bool) (used : List String)
    (ms : List Modifier) : activate kind critical missed used (ms.filter (·.appliesToType kind)) =
      activate kind critical missed used ms := by
  induction ms generalizing used with
  | nil => rfl
  | cons m ms ih =>
    by_cases hm : m.appliesToType kind = true
    · simp only [List.filter_cons, hm, if_true, activate, ih]
    · have hsuits : m.suits kind critical = false := by simp [Modifier.suits, hm]
      simp [hm, activate, hsuits, ih]

theorem activate_eq_of_filter {ms' : List Modifier}
    (h : ms.filter (·.appliesToType kind) = ms'.filter (·.appliesToType kind)) :
    activate kind critical missed used ms = activate kind critical missed used ms' := by
  rw [← activate_filter, h, activate_filter]

/-- Which modifiers are active depends on what is used up only by the names of modifiers that apply
once. -/
theorem activate_congr
    (h : ∀ m ∈ ms, m.isOnce = true → (m.id ∈ used ↔ m.id ∈ used')) :
    (activate kind critical missed used ms).1 = (activate kind critical missed used' ms).1 := by
  induction ms generalizing used used' with
  | nil => rfl
  | cons m ms ih =>
    obtain ⟨hm, hms⟩ := List.forall_mem_cons.mp h
    unfold activate
    split
    · exact ih hms
    · split
      · next ho =>
        have hused : used.contains m.id = used'.contains m.id := by
          rw [Bool.eq_iff_iff, List.contains_iff_mem, List.contains_iff_mem]
          exact hm ho
        rw [hused]
        split
        · exact ih hms
        · refine congrArg (m :: ·) (ih fun n hn hon => ?_)
          rw [List.mem_cons, List.mem_cons, hms n hn hon]
      · exact congrArg (m :: ·) (ih hms)

theorem mem_used_activate {id : String} (h : id ∈ (activate kind critical missed used ms).2) :
    id ∈ used ∨ ∃ m ∈ ms, m.isOnce = true ∧ m.id = id := by
  induction ms generalizing used with
  | nil => exact .inl h
  | cons m ms ih =>
    have hlater {p : Prop} (h : p ∨ ∃ n ∈ ms, n.isOnce = true ∧ n.id = id) :
        p ∨ ∃ n ∈ m :: ms, n.isOnce = true ∧ n.id = id :=
      h.imp_right fun ⟨n, hn, hon⟩ => ⟨n, List.mem_cons_of_mem _ hn, hon⟩
    unfold activate at h
    split at h
    · exact hlater (ih h)
    · split at h
      · next ho =>
        split at h
        · exact hlater (ih h)
        · rcases ih h with h | h
          · rcases List.mem_cons.mp h with rfl | h
            · exact .inr ⟨m, List.mem_cons_self, ho, rfl⟩
            · exact .inl h
          · exact hlater (.inr h)
      · exact hlater (ih h)

theorem mem_activate {m : Modifier} (hm : m ∈ ms)
    (hs : m.suits kind critical = true) (ho : m.isOnce = false) :
    m ∈ (activate kind critical missed used ms).1 := by
  induction ms generalizing used with
  | nil => cases hm
  | cons m' ms ih =>
    unfold activate
    rcases List.mem_cons.mp hm with rfl | hm
    · rw [if_neg (by simp [hs]), if_neg (by simp [ho])]
      exact List.mem_cons_self
    · split
      · exact ih hm
      · split
        · split
          · exact ih hm
          · exact List.mem_cons_of_mem _ (ih hm)
        · exact List.mem_cons_of_mem _ (ih hm)

end Activation

/-- Dice that advantage changes: one twenty-sided die of which nothing is left out. -/
structure Pool.Single20 (p : Pool) : Prop where
  count : p.count = 1
  sides : p.sides = 20
  selects : p.operations.any (·.kind.selects) = false

theorem Term.term_favoured (kind : RollType) (advantage : Bool) (label : String) (t : Term) :
    (t.favoured kind advantage label).term = t ∨
      t.pool.Single20 ∧
        (t.favoured kind advantage label).term = .ofPool (t.pool.doubledFor advantage) := by
  unfold favoured
  split
  · next h =>
    obtain ⟨_, hcount, hsides, hselects⟩ := h
    exact .inr ⟨⟨hcount, hsides, by simpa using hselects⟩, rfl⟩
  · left
    cases advantage
    · cases t.pool.hasDisadvantage <;> rfl
    · cases t.pool.hasAdvantage <;> rfl

theorem Term.term_withAdvantage (kind : RollType) (ms : List Modifier) (t : Term) :
    (t.withAdvantage kind ms).term = t ∨
      t.pool.Single20 ∧ ∃ advantage,
        (t.withAdvantage kind ms).term = .ofPool (t.pool.doubledFor advantage) := by
  unfold withAdvantage
  dsimp only
  split
  · exact .inl rfl
  · exact (t.term_favoured ..).imp id fun h => ⟨h.1, _, h.2⟩
  · exact (t.term_favoured ..).imp id fun h => ⟨h.1, _, h.2⟩
  · exact .inl rfl

theorem Term.count_withAdvantage {t : Term} (h : 1 ≤ t.pool.count) (kind : RollType)
    (ms : List Modifier) : 1 ≤ (t.withAdvantage kind ms).term.pool.count := by
  rcases t.term_withAdvantage kind ms with he | ⟨_, advantage, he⟩
  · rwa [he]
  · rw [he]
    exact (by decide : (1 : Int) ≤ 2)

theorem Term.gives_withOperations (ms : List Modifier) (t : Term) :
    Gives (t.withOperations ms) fun t' => t'.pool.count = t.pool.count := by
  refine (Gives.trivial _).bind fun added _ => .of_pure ?_
  split <;> rfl

theorem Term.term_withAdvantage_of_not_isD20 {kind : RollType} (h : kind.isD20 = false)
    (ms : List Modifier) (t : Term) : (t.withAdvantage kind ms).term = t := by
  have hfavoured (advantage : Bool) (label : String) :
      (t.favoured kind advantage label).term = t := by
    unfold favoured
    rw [if_neg (by simp [h])]
    cases advantage
    · cases t.pool.hasDisadvantage <;> rfl
    · cases t.pool.hasAdvantage <;> rfl
  unfold withAdvantage
  dsimp only
  split
  · rfl
  · exact hfavoured ..
  · exact hfavoured ..
  · rfl

theorem Modifier.operations_of_kind {m : Modifier} (h : m.kind.operation? = none) (pool : Pool)
    (added : List Operation) : m.operations pool added = pure [] := by
  unfold operations
  rw [h]

/-- Modifiers whose kind has no operations can be left out. -/
theorem Term.withOperations_filter {p : Modifier → Bool} {ms : List Modifier}
    (h : ∀ m ∈ ms, p m = false → m.kind.operation? = none) (t : Term) :
    t.withOperations (ms.filter p) = t.withOperations ms := by
  have hadded (added : List Operation) : ((ms.filter p).foldlM (fun added m => do
      let ops ← m.operations t.pool added
      pure (added ++ ops)) added : Noted (List Operation)) = ms.foldlM (fun added m => do
      let ops ← m.operations t.pool added
      pure (added ++ ops)) added := by
    induction ms generalizing added with
    | nil => rfl
    | cons m ms ih =>
      obtain ⟨hm, hms⟩ := List.forall_mem_cons.mp h
      rw [List.foldlM_cons, List.filter_cons]
      split
      · rw [List.foldlM_cons]
        exact congrArg _ (funext fun added => ih hms added)
      · next hp =>
        rw [m.operations_of_kind (hm (by simpa using hp)), pure_bind, pure_bind, List.append_nil]
        exact ih hms added
  rw [withOperations, hadded]
  rfl

theorem Modifier.gives_operations_of_isFlat {pool : Pool} (h : pool.isFlat = true)
    (added : List Operation) (m : Modifier) : Gives (m.operations pool added) fun ops => ops = [] := by
  unfold operations
  split
  · exact .of_pure rfl
  · rw [if_pos h]
    exact .of_pure rfl

theorem Term.gives_isFlat_withOperations (ms : List Modifier) (t : Term) :
    Gives (t.withOperations ms) fun t' => t'.pool.isFlat = t.pool.isFlat := by
  have hadded (h : t.pool.isFlat = true) : Gives (ms.foldlM (fun added m => do
      let ops ← m.operations t.pool added
      pure (added ++ ops)) [] : Noted (List Operation)) fun added => added = [] := by
    refine .foldlM (fun added hadded m _ => ?_) rfl
    refine (Modifier.gives_operations_of_isFlat h added m).bind ?_
    rintro _ rfl
    exact .of_pure (by rw [hadded, List.append_nil])
  cases h : t.pool.isFlat with
  | true =>
    refine (hadded h).bind ?_
    rintro _ rfl
    exact .of_pure h
  | false =>
    refine (Gives.trivial _).bind fun added _ => .of_pure ?_
    split
    · exact h
    · cases hops : t.pool.operations <;> simp_all [Term.ofPool, Pool.isFlat]

end DiceTower
