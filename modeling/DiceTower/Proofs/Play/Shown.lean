import Mathlib.Algebra.Order.Ring.Nat
import DiceTower.Proofs.Play.Drawing

/-! Drawings that account for their draws. What is shown of the dice afterwards is more than what was
shown before by as many as were drawn, and a drawing fails only with faults that are named. -/

namespace DiceTower

open DiceTower.Computation Drawing

variable {σ α β : Type}

def Fault.OfDraw (fault : Fault) : Prop :=
  fault = .timeout ∨ ∃ sides value, fault = .badDraw sides value

/-- The source gave what is no face of a die, though the die has faces. -/
def Fault.OfSource (σ : Type) [Source σ] (fault : Fault) : Prop :=
  ∃ (sides : Int) (source : σ), 1 ≤ sides ∧ face? sides (Source.next sides source).1 = none ∧
    fault = .badDraw sides (Source.next sides source).1

/-- What came of a drawing: a value that has a property, after as many draws as it shows more than was
shown before, or one of some faults. -/
def Accounts (F : Fault → Prop) (drawn n : Nat) (s : α → Nat) (P : α → Prop) :
    Except Fault α × Tray σ → Prop
  | (.ok a, tray) => P a ∧ tray.drawn.length + n = drawn + s a
  | (.error fault, _) => F fault

def Shows (F : Fault → Prop) (n : Nat) (s : α → Nat) (P : α → Prop) (x : Drawing σ α) :
    Prop := ∀ tray, Accounts F tray.drawn.length n s P (x tray)

variable {F : Fault → Prop} {n : Nat} {s : α → Nat} {w : β → Nat} {P P' : α → Prop}
  {Q : β → Prop} {x : Drawing σ α} {f : α → Drawing σ β}

namespace Shows

theorem of_pure {a : α} (h : P a) (hs : s a = n) :
    Shows F n s P (pure a : Drawing σ α) := by
  intro tray
  exact ⟨h, by rw [hs]⟩

theorem of_throw {fault : Fault} (h : F fault) :
    Shows F n s P (throw fault : Drawing σ α) := fun _ => h

theorem of_lift {y : Except Fault α} (h : Foretells F (fun a => P a ∧ s a = n) y) :
    Shows F n s P (liftM y : Drawing σ α) := by
  intro tray
  rw [lift_apply]
  cases y with
  | error fault => exact h
  | ok a => exact ⟨h.1, by rw [h.2]⟩

theorem of_inDrawing {y : Noted α} (h : ∀ records, Foretells F (fun a => P a ∧ s a = n)
    (y records).1) : Shows F n s P (y.inDrawing : Drawing σ α) := by
  intro tray
  have hy := h tray.records
  unfold Noted.inDrawing
  rcases he : y tray.records with ⟨fault | a, records⟩ <;> rw [he] at hy
  · exact hy
  · exact ⟨hy.1, by rw [hy.2]⟩

theorem bind (hx : Shows F n s P x)
    (hf : ∀ a, P a → Shows F (s a) w Q (f a)) : Shows F n w Q (x >>= f) := by
  intro tray
  have hx := hx tray
  rw [bind_apply]
  rcases he : x tray with ⟨fault | a, tray₁⟩ <;> rw [he] at hx
  · exact hx
  · obtain ⟨ha, hdrawn⟩ := hx
    have hf := hf a ha tray₁
    show Accounts F tray.drawn.length n w Q (f a tray₁)
    rcases he : f a tray₁ with ⟨fault | b, tray₂⟩ <;> rw [he] at hf
    · exact hf
    · obtain ⟨hb, hdrawn₂⟩ := hf
      exact ⟨hb, by omega⟩

theorem mono {F' : Fault → Prop} (hx : Shows F n s P x) (hF : ∀ fault, F fault → F' fault)
    (hP : ∀ a, P a → P' a) : Shows F' n s P' x := by
  intro tray
  have hx := hx tray
  rcases he : x tray with ⟨fault | a, tray'⟩ <;> rw [he] at hx
  · exact hF fault hx
  · exact ⟨hP a hx.1, hx.2⟩

theorem recount {k : Nat} {w : α → Nat} (hx : Shows F n s P x)
    (h : ∀ a, P a → w a = k + s a) : Shows F (k + n) w P x := by
  intro tray
  have hx := hx tray
  rcases he : x tray with ⟨fault | a, tray'⟩ <;> rw [he] at hx
  · exact hx
  · obtain ⟨ha, hdrawn⟩ := hx
    exact ⟨ha, by rw [h a ha]; omega⟩

theorem shift (hx : Shows F n s P x) (k : Nat) : Shows F (k + n) (fun a => k + s a) P x :=
  hx.recount fun _ _ => rfl

theorem and_gives (hx : Shows F n s P x) (hg : Gives x P') :
    Shows F n s (fun a => P a ∧ P' a) x := by
  intro tray
  have hs := hx tray
  rcases he : x tray with ⟨fault | a, tray'⟩ <;> rw [he] at hs
  · exact hs
  · exact ⟨⟨hs.1, hg _ _ _ he⟩, hs.2⟩

theorem and_pos (hx : Shows F 0 s P x) (hd : Draws x) :
    Shows F 0 s (fun a => P a ∧ 0 < s a) x := by
  intro tray
  have hs := hx tray
  rcases he : x tray with ⟨fault | a, tray'⟩ <;> rw [he] at hs
  · exact hs
  · have hdraw := hd tray a tray' he
    obtain ⟨ha, hdrawn⟩ := hs
    exact ⟨⟨ha, by omega⟩, hdrawn⟩

theorem mapM {l : List α} {v : α → Nat} {w : β → Nat} {R : α → β → Prop} {g : α → Drawing σ β}
    (h : ∀ a ∈ l, Shows F (v a) w (R a) (g a)) :
    Shows F (l.map v).sum (fun bs => (bs.map w).sum) (List.Forall₂ R l) (l.mapM g) := by
  induction l with
  | nil => exact of_pure .nil rfl
  | cons a l ih =>
    rw [List.mapM_cons, List.map_cons, List.sum_cons, Nat.add_comm]
    refine ((h a List.mem_cons_self).shift (l.map v).sum).bind fun b hb => ?_
    rw [Nat.add_comm (l.map v).sum]
    refine ((ih fun a ha => h a (List.mem_cons_of_mem _ ha)).shift (w b)).bind fun bs hbs => ?_
    exact of_pure (.cons hb hbs) (by simp)

end Shows

namespace Drawing

theorem shows_now : Shows F n (fun _ => n) (fun _ => True) (now : Drawing σ Float) :=
  fun _ => ⟨trivial, rfl⟩

theorem shows_fresh (word : String) :
    Shows F n (fun _ => n) (fun _ => True) (fresh word : Drawing σ String) :=
  fun _ => ⟨trivial, rfl⟩

variable [Source σ] {deadline : Option Float} {sides : Int}

theorem shows_ask (sides : Int) : Shows F n (fun _ => n + 1)
    (fun value => ∃ source : σ, value = (Source.next sides source).1)
    (ask sides : Drawing σ Data) := by
  intro tray
  refine ⟨⟨tray.source, rfl⟩, ?_⟩
  show (sides :: tray.drawn).length + n = tray.drawn.length + (n + 1)
  rw [List.length_cons]
  omega

theorem shows_draw
    (ht : Shows F n (fun _ => n) (fun _ => True) (checkTime deadline : Drawing σ Unit))
    (hf : ∀ source : σ, face? sides (Source.next sides source).1 = none →
      F (.badDraw sides (Source.next sides source).1)) :
    Shows F n (fun _ => n + 1) (fun _ => True) (draw deadline sides : Drawing σ Int) := by
  refine ht.bind fun _ _ => (shows_ask sides).bind ?_
  rintro _ ⟨source, rfl⟩
  split
  · exact .of_pure trivial rfl
  · next hnone => exact .of_throw (hf source hnone)

def DrawsWithin (σ : Type) [Source σ] (F : Fault → Prop) (deadline : Option Float) (sides : Int) :
    Prop := ∀ n, Shows F n (fun _ => n + 1) (fun _ => True) (draw deadline sides : Drawing σ Int)

omit [Source σ] in
theorem shows_checkTime (hF : ∀ fault, fault.OfDraw → F fault) (deadline : Option Float) :
    Shows F n (fun _ => n) (fun _ => True) (checkTime deadline : Drawing σ Unit) := by
  cases deadline with
  | none => exact .of_pure trivial rfl
  | some time =>
    refine shows_now.bind fun _ _ => ?_
    split
    · exact .of_throw (hF _ (.inl rfl))
    · exact .of_pure trivial rfl

theorem drawsWithin_of_ofDraw (hF : ∀ fault, fault.OfDraw → F fault) :
    DrawsWithin σ F deadline sides := fun _ =>
  shows_draw (shows_checkTime hF deadline) fun _ _ => hF _ (.inr ⟨_, _, rfl⟩)

theorem drawsWithin_any : DrawsWithin σ (fun _ => True) deadline sides :=
  drawsWithin_of_ofDraw fun _ _ => trivial

theorem drawsWithin_ofSource (h : 1 ≤ sides) : DrawsWithin σ (Fault.OfSource σ) none sides :=
  fun _ => shows_draw (.of_pure trivial rfl) fun source hnone => ⟨sides, source, h, hnone, rfl⟩

end Drawing

end DiceTower
