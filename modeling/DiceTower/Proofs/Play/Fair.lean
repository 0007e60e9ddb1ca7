import DiceTower.Dice.Seeded
import DiceTower.Proofs.Play.Shown

/-! Sources that never show anything but a face of the die. -/

namespace DiceTower

open DiceTower.Computation Drawing

/-- Whatever was drawn before, a die that has faces shows one of them. -/
def Source.Fair (σ : Type) [Source σ] : Prop :=
  ∀ (sides : Int) (source : σ), 1 ≤ sides → (face? sides (Source.next sides source).1).isSome = true

theorem Source.Fair.not_ofSource {σ : Type} [Source σ] (h : Source.Fair σ) (fault : Fault) :
    ¬ fault.OfSource σ := by
  rintro ⟨sides, source, hs, hnone, _⟩
  have hface := h sides source hs
  rw [hnone] at hface
  cases hface

theorem Source.Fair.drawsWithin {σ : Type} [Source σ] (h : Source.Fair σ)
    (deadline : Option Float) {sides : Int} (hs : 1 ≤ sides) :
    DrawsWithin σ (fun fault => fault = .timeout ∧ deadline ≠ none) deadline sides := by
  intro n
  refine shows_draw ?_ fun source hnone => ?_
  · cases deadline with
    | none => exact .of_pure trivial rfl
    | some time =>
      refine shows_now.bind fun _ _ => ?_
      split
      · exact .of_throw ⟨rfl, nofun⟩
      · exact .of_pure trivial rfl
  · have hface := h sides source hs
    rw [hnone] at hface
    cases hface

theorem randNat_mem_faces {n : Nat} (h : 1 ≤ n) (g : StdGen) :
    1 ≤ (randNat g 1 n).1 ∧ (randNat g 1 n).1 ≤ n := by
  unfold randNat
  have hle : ¬ 1 > n := by omega
  have hlt (v : Nat) : v % (n - 1 + 1) ≤ n - 1 :=
    Nat.le_of_lt_succ (Nat.mod_lt v (Nat.succ_pos _))
  simp only [if_neg hle]
  exact ⟨Nat.le_add_right 1 _, (Nat.add_le_add_left (hlt _) 1).trans (by omega)⟩

/-- The faces of a generator that starts from a number are those of the die. -/
theorem fair_stdGen : Source.Fair StdGen := by
  intro sides g hs
  obtain ⟨hlow, hhigh⟩ := randNat_mem_faces (n := sides.toNat) (by omega) g
  have hface : (Source.next sides g).1 = .int (randNat g 1 sides.toNat).1 := by
    unfold Source.next
    show (if sides < 1 then (Data.null, g) else _).1 = _
    rw [if_neg (by omega)]
  rw [hface, face?, if_pos (by omega)]
  rfl

end DiceTower
