import Mathlib.Order.Defs.Unbundled
import DiceTower.Play.Tray
import DiceTower.Proofs.Outcomes

/-! Computations that change a state and may fail: which values they may give, how the state moves
on, and that a fault of notation is none of theirs. -/

namespace DiceTower

/-- Computations over a state. What they did to the state stays done when they fail. -/
abbrev Computation (S α : Type) := ExceptT Fault (StateM S) α

namespace Computation

variable {S α β : Type}

theorem bind_apply (x : Computation S α) (f : α → Computation S β) (s : S) :
    (x >>= f) s = match x s with
      | (.ok a, s) => f a s
      | (.error fault, s) => (.error fault, s) := by
  show ExceptT.bindCont f (x s).1 (x s).2 = _
  rcases x s with ⟨_ | _, s'⟩ <;> rfl

theorem lift_apply (x : Except Fault α) (s : S) : (liftM x : Computation S α) s = (x, s) := rfl

theorem lift_ok_bind (a : α) (f : α → Computation S β) :
    (liftM (.ok a : Except Fault α) : Computation S α) >>= f = f a := rfl

theorem lift_error_bind (fault : Fault) (f : α → Computation S β) :
    (liftM (.error fault : Except Fault α) : Computation S α) >>= f = throw fault := rfl

theorem bind_apply_eq_ok_iff {x : Computation S α} {f : α → Computation S β} {b : β} {s s' : S} :
    (x >>= f) s = (.ok b, s') ↔ ∃ a s₁, x s = (.ok a, s₁) ∧ f a s₁ = (.ok b, s') := by
  rw [bind_apply]
  rcases x s with ⟨fault | a, s₁⟩
  · exact ⟨nofun, nofun⟩
  · constructor
    · exact fun h => ⟨a, s₁, rfl, h⟩
    · rintro ⟨_, _, ha, h⟩
      cases ha
      exact h

def Gives (x : Computation S α) (P : α → Prop) : Prop := ∀ s a s', x s = (.ok a, s') → P a

/-- The state moves on by a relation, and a fault of notation is not found. -/
structure Steady (R : S → S → Prop) (x : Computation S α) : Prop where
  moves : ∀ s, R s (x s).2
  fault : ∀ s, NeverBadDice (x s).1

section Gives

variable {x : Computation S α} {f : α → Computation S β} {P P' : α → Prop} {Q : β → Prop}

theorem Gives.trivial (x : Computation S α) : Gives x fun _ => True := fun _ _ _ _ => True.intro

theorem Gives.of_pure {a : α} (h : P a) : Gives (pure a : Computation S α) P := by
  rintro s b s' he
  cases he
  exact h

theorem Gives.of_lift {y : Except Fault α} (h : ∀ a, y = .ok a → P a) :
    Gives (liftM y : Computation S α) P := by
  rintro s a s' he
  rw [lift_apply] at he
  exact h a (Prod.mk.inj he).1

theorem Gives.of_throw (fault : Fault) : Gives (throw fault : Computation S α) P := nofun

theorem Gives.bind (hx : Gives x P) (hf : ∀ a, P a → Gives (f a) Q) : Gives (x >>= f) Q := by
  intro s b s' he
  obtain ⟨a, s₁, ha, hb⟩ := bind_apply_eq_ok_iff.mp he
  exact hf a (hx _ _ _ ha) _ _ _ hb

theorem Gives.mono (hx : Gives x P) (h : ∀ a, P a → P' a) : Gives x P' :=
  fun _ _ _ he => h _ (hx _ _ _ he)

theorem Gives.and (hx : Gives x P) (hx' : Gives x P') : Gives x fun a => P a ∧ P' a :=
  fun _ _ _ he => ⟨hx _ _ _ he, hx' _ _ _ he⟩

theorem Gives.mapM {l : List α} {g : α → Computation S β} {R : α → β → Prop}
    (h : ∀ a ∈ l, Gives (g a) (R a)) : Gives (l.mapM g) (List.Forall₂ R l) := by
  induction l with
  | nil => exact .of_pure .nil
  | cons a l ih =>
    rw [List.mapM_cons]
    refine (h a List.mem_cons_self).bind fun b hb => ?_
    exact (ih fun a ha => h a (List.mem_cons_of_mem _ ha)).bind fun bs hbs => .of_pure (.cons hb hbs)

theorem Gives.foldlM {l : List α} {I : β → Prop} {g : β → α → Computation S β}
    (h : ∀ b, I b → ∀ a ∈ l, Gives (g b a) I) {b : β} (hb : I b) : Gives (l.foldlM g b) I := by
  induction l generalizing b with
  | nil => exact .of_pure hb
  | cons a l ih =>
    rw [List.foldlM_cons]
    exact (h b hb a List.mem_cons_self).bind fun _ hc =>
      ih (fun b hb a ha => h b hb a (List.mem_cons_of_mem _ ha)) hc

end Gives

section Steady

variable {R : S → S → Prop} {x y : Computation S α} {f : α → Computation S β}

theorem Steady.of_pure [Std.Refl R] (a : α) : Steady R (pure a : Computation S α) :=
  ⟨fun s => Std.Refl.refl s, nofun⟩

theorem Steady.of_lift [Std.Refl R] {y : Except Fault α} (h : NeverBadDice y) :
    Steady R (liftM y : Computation S α) :=
  ⟨fun s => Std.Refl.refl s, fun _ => h⟩

theorem Steady.of_throw [Std.Refl R] {fault : Fault}
    (h : ∀ cited flaw, fault ≠ .badDice cited flaw) :
    Steady R (throw fault : Computation S α) :=
  ⟨fun s => Std.Refl.refl s, fun _ cited flaw he => h cited flaw (Except.error.inj he)⟩

theorem Steady.bind [IsTrans S R] (hx : Steady R x) (hf : ∀ a, Steady R (f a)) :
    Steady R (x >>= f) := by
  constructor
  · intro s
    have hm := hx.moves s
    rw [bind_apply]
    rcases he : x s with ⟨fault | a, s₁⟩ <;> rw [he] at hm
    · exact hm
    · exact IsTrans.trans _ _ _ hm ((hf a).moves s₁)
  · intro s cited flaw
    have hn := hx.fault s cited flaw
    rw [bind_apply]
    rcases he : x s with ⟨fault | a, s₁⟩ <;> rw [he] at hn
    · exact fun h => hn (congrArg _ (Except.error.inj h))
    · exact (hf a).fault s₁ cited flaw

theorem Steady.ite {p : Prop} [Decidable p] (hx : Steady R x) (hy : Steady R y) :
    Steady R (if p then x else y) := by
  split
  · exact hx
  · exact hy

variable [Std.Refl R] [IsTrans S R]

theorem Steady.mapM {l : List α} {g : α → Computation S β} (h : ∀ a, Steady R (g a)) :
    Steady R (l.mapM g) := by
  induction l with
  | nil => exact .of_pure _
  | cons a l ih =>
    rw [List.mapM_cons]
    exact (h a).bind fun _ => ih.bind fun _ => .of_pure _

theorem Steady.foldlM {l : List α} {g : β → α → Computation S β} (h : ∀ b a, Steady R (g b a))
    (b : β) : Steady R (l.foldlM g b) := by
  induction l generalizing b with
  | nil => exact .of_pure _
  | cons a l ih => exact (h b a).bind ih

end Steady

end Computation

end DiceTower
