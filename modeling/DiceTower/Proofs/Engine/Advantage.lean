import DiceTower.Proofs.Dice.Pairs
import DiceTower.Proofs.Engine.Activation
import DiceTower.Proofs.Rulebook.Standard

/-! What the active modifiers make of one die and of two: advantage and disadvantage, and modifiers
that have no operations. -/

namespace DiceTower

open DiceTower.Computation

variable {kind : RollType} {ms : List Modifier} {t : Term} {n : Int} {m : Modifier}

def Modifier.Among (kind : ModifierKind) (ms : List Modifier) : Prop := ∃ m ∈ ms, m.kind = kind

theorem isEmpty_ofKind {kind : ModifierKind} :
    (ofKind kind ms).isEmpty = true ↔ ¬ Modifier.Among kind ms := by
  simp [ofKind, Modifier.Among, List.filter_eq_nil_iff]

theorem Term.term_withAdvantage_of_iff
    (h : Modifier.Among .advantage ms ↔ Modifier.Among .disadvantage ms) :
    (t.withAdvantage kind ms).term = t := by
  rw [← not_iff_not, ← isEmpty_ofKind, ← isEmpty_ofKind] at h
  unfold withAdvantage
  dsimp only
  split
  · rfl
  · next hA hD => exact absurd (h.mpr hD) (by simp [hA])
  · next hA hD => exact absurd (h.mp hA) (by simp [hD])
  · rfl

theorem Term.withAdvantage_of_fair
    (h : ∀ m ∈ ms, m.kind ≠ .advantage ∧ m.kind ≠ .disadvantage) (t : Term) :
    t.withAdvantage kind ms = { term := t } := by
  have hA : (ofKind .advantage ms).isEmpty = true :=
    isEmpty_ofKind.mpr fun ⟨m, hm, hk⟩ => (h m hm).1 hk
  have hD : (ofKind .disadvantage ms).isEmpty = true :=
    isEmpty_ofKind.mpr fun ⟨m, hm, hk⟩ => (h m hm).2 hk
  unfold withAdvantage
  dsimp only
  rw [hA, hD]

theorem Term.pool_withAdvantage_one (better : Bool) (hk : kind.isD20 = true)
    (ht : t.pool = ⟨1, 20, n, []⟩)
    (h : Modifier.Among (if better then .advantage else .disadvantage) ms)
    (hn : ¬ Modifier.Among (if better then .disadvantage else .advantage) ms) :
    (t.withAdvantage kind ms).term.pool = ⟨2, 20, n, [.keepOne better]⟩ := by
  have hfavoured (label : String) :
      (t.favoured kind better label).term.pool = ⟨2, 20, n, [.keepOne better]⟩ := by
    unfold favoured
    rw [if_pos (by rw [ht]; exact ⟨hk, rfl, rfl, rfl⟩), ht]
    rfl
  unfold withAdvantage
  dsimp only
  cases better with
  | true =>
    have hA : (ofKind .advantage ms).isEmpty = false :=
      Bool.eq_false_iff.mpr fun he => isEmpty_ofKind.mp he h
    have hD : (ofKind .disadvantage ms).isEmpty = true := isEmpty_ofKind.mpr hn
    rw [hA, hD]
    exact hfavoured _
  | false =>
    have hD : (ofKind .disadvantage ms).isEmpty = false :=
      Bool.eq_false_iff.mpr fun he => isEmpty_ofKind.mp he h
    have hA : (ofKind .advantage ms).isEmpty = true := isEmpty_ofKind.mpr hn
    rw [hA, hD]
    exact hfavoured _

theorem Term.term_withAdvantage_two {ops : List Operation} (ht : t.pool = ⟨2, 20, n, ops⟩) :
    (t.withAdvantage kind ms).term = t :=
  (t.term_withAdvantage kind ms).resolve_right fun h =>
    absurd (h.1.count.symm.trans (congrArg Pool.count ht)) (by decide : (1 : Int) ≠ 2)

theorem Term.not_isOwnDie_remarks (kind : RollType) (ms : List Modifier) (t : Term) :
    ∀ i ∈ (t.withAdvantage kind ms).remarks, i.isOwnDie = false := by
  have hfavoured (advantage : Bool) (label : String) :
      ∀ i ∈ (t.favoured kind advantage label).remarks, i.isOwnDie = false := by
    intro i hi
    unfold favoured at hi
    split at hi
    · obtain rfl := List.mem_singleton.mp hi
      rfl
    · split at hi
      all_goals
        split at hi
        · obtain rfl := List.mem_singleton.mp hi
          rfl
        · cases hi
  unfold withAdvantage
  dsimp only
  split
  · exact List.forall_mem_nil _
  · exact hfavoured _ _
  · exact hfavoured _ _
  · intro i hi
    obtain rfl := List.mem_singleton.mp hi
    rfl

theorem Term.withOperations_eq_pure (h : ∀ m ∈ ms, m.kind.operation? = none) (t : Term) :
    t.withOperations ms = pure t := by
  have hnone : ms.filter (fun _ => false) = [] := List.filter_false ms
  rw [← withOperations_filter (fun m hm _ => h m hm) t, hnone]
  rfl

theorem Modifier.Favours.among {advantage critical missed : Bool} {used : List String}
    (h : m.Favours advantage) (hm : m ∈ ms) :
    Modifier.Among (if advantage then .advantage else .disadvantage)
      (activate kind critical missed used ms).1 := by
  refine ⟨m, mem_activate hm ?_ ?_, h.kind⟩
  · simp [suits, appliesToType, h.appliesTo, h.timing]
  · rw [isOnce, h.timing]
    rfl

end DiceTower
