import Mathlib.Data.List.Perm.Basic
import DiceTower.Proofs.Play.Shown

/-! Drawings that show what they draw. Of the source every face is taken that the dice show
afterwards and did not show before, in some order, and no other. -/

namespace DiceTower

open DiceTower.Computation Drawing

variable {σ α β : Type} [Source σ]

inductive Gave (sides : Int) : σ → List Int → σ → Prop where
  | nil (source : σ) : Gave sides source [] source
  | cons {source source' : σ} {face : Int} {faces : List Int} :
      face? sides (Source.next sides source).1 = some face →
      Gave sides (Source.next sides source).2 faces source' →
      Gave sides source (face :: faces) source'

theorem Gave.append {sides : Int} {source source' source'' : σ} {faces faces' : List Int}
    (h : Gave sides source faces source') (h' : Gave sides source' faces' source'') :
    Gave sides source (faces ++ faces') source'' := by
  induction h with
  | nil => exact h'
  | cons hface _ ih => exact .cons hface (ih h')

structure Tray.Dealt (sides : Int) (tray : Tray σ) (faces : List Int) (tray' : Tray σ) : Prop where
  gave : Gave sides tray.source faces tray'.source
  drawn : tray'.drawn = List.replicate faces.length sides ++ tray.drawn

namespace Tray.Dealt

variable {sides : Int} {tray tray' tray'' : Tray σ} {faces faces' : List Int}

theorem of_still (hs : tray'.source = tray.source) (hd : tray'.drawn = tray.drawn) :
    tray.Dealt sides [] tray' := by
  refine ⟨?_, hd⟩
  rw [hs]
  exact .nil _

theorem append (h : tray.Dealt sides faces tray') (h' : tray'.Dealt sides faces' tray'') :
    tray.Dealt sides (faces ++ faces') tray'' := by
  refine ⟨h.gave.append h'.gave, ?_⟩
  rw [h'.drawn, h.drawn, ← List.append_assoc, List.replicate_append_replicate, List.length_append,
    Nat.add_comm]

theorem length_drawn (h : tray.Dealt sides faces tray') :
    tray'.drawn.length = faces.length + tray.drawn.length := by
  rw [h.drawn, List.length_append, List.length_replicate]

end Tray.Dealt

/-- What came of a drawing: a value that has a property and shows, beside what was shown before, the
faces that were drawn, or one of some faults. -/
def Shared (F : Fault → Prop) (sides : Int) (tray : Tray σ) (before : List Int)
    (w : α → List Int) (P : α → Prop) : Except Fault α × Tray σ → Prop
  | (.ok a, tray') => P a ∧ ∃ faces, tray.Dealt sides faces tray' ∧ (w a).Perm (before ++ faces)
  | (.error fault, _) => F fault

def Deals (F : Fault → Prop) (sides : Int) (before : List Int) (w : α → List Int) (P : α → Prop)
    (x : Drawing σ α) : Prop := ∀ tray, Shared F sides tray before w P (x tray)

variable {F : Fault → Prop} {sides : Int} {before : List Int} {w : α → List Int}
  {v : β → List Int} {P P' : α → Prop} {Q : β → Prop} {x : Drawing σ α} {f : α → Drawing σ β}

namespace Deals

theorem of_pure {a : α} (h : P a) (hw : (w a).Perm before) :
    Deals F sides before w P (pure a : Drawing σ α) := by
  intro tray
  exact ⟨h, [], .of_still rfl rfl, by simpa using hw⟩

theorem of_lift {y : Except Fault α} (h : Foretells F (fun a => P a ∧ (w a).Perm before) y) :
    Deals F sides before w P (liftM y : Drawing σ α) := by
  intro tray
  rw [lift_apply]
  cases y with
  | error fault => exact h
  | ok a => exact ⟨h.1, [], .of_still rfl rfl, by simpa using h.2⟩

theorem bind (hx : Deals F sides before w P x)
    (hf : ∀ a, P a → Deals F sides (w a) v Q (f a)) : Deals F sides before v Q (x >>= f) := by
  intro tray
  have hx := hx tray
  rw [bind_apply]
  rcases he : x tray with ⟨fault | a, tray₁⟩ <;> rw [he] at hx
  · exact hx
  · obtain ⟨ha, faces, hdealt, hw⟩ := hx
    have hf := hf a ha tray₁
    show Shared F sides tray before v Q (f a tray₁)
    rcases he : f a tray₁ with ⟨fault | b, tray₂⟩ <;> rw [he] at hf
    · exact hf
    · obtain ⟨hb, faces', hdealt', hv⟩ := hf
      refine ⟨hb, faces ++ faces', hdealt.append hdealt', ?_⟩
      rw [← List.append_assoc]
      exact hv.trans (hw.append_right _)

theorem mono (hx : Deals F sides before w P x) (hP : ∀ a, P a → P' a) :
    Deals F sides before w P' x := by
  intro tray
  have hx := hx tray
  rcases he : x tray with ⟨fault | a, tray'⟩ <;> rw [he] at hx
  · exact hx
  · exact ⟨hP a hx.1, hx.2⟩

theorem recount {before' : List Int} {w' : α → List Int} (hx : Deals F sides before w P x)
    (k : List Int) (hb : before'.Perm (k ++ before))
    (hw : ∀ a, P a → (w' a).Perm (k ++ w a)) : Deals F sides before' w' P x := by
  intro tray
  have hx := hx tray
  rcases he : x tray with ⟨fault | a, tray'⟩ <;> rw [he] at hx
  · exact hx
  · obtain ⟨ha, faces, hdealt, hp⟩ := hx
    refine ⟨ha, faces, hdealt, (hw a ha).trans ((hp.append_left k).trans ?_)⟩
    rw [← List.append_assoc]
    exact hb.symm.append_right faces

theorem of_ok (hx : Deals F sides before w P x) {tray tray' : Tray σ} {a : α}
    (he : x tray = (.ok a, tray')) :
    P a ∧ ∃ faces, tray.Dealt sides faces tray' ∧ (w a).Perm (before ++ faces) := by
  have hx := hx tray
  rw [he] at hx
  exact hx

theorem gives (hx : Deals F sides before w P x) : Gives x P := fun _ _ _ he => (hx.of_ok he).1

theorem mapM {l : List α} {R : α → β → Prop} {g : α → Drawing σ β}
    (h : ∀ a ∈ l, Deals F sides (w a) v (R a) (g a)) :
    Deals F sides (l.flatMap w) (fun bs => bs.flatMap v) (List.Forall₂ R l) (l.mapM g) := by
  induction l with
  | nil => exact of_pure .nil (.refl _)
  | cons a l ih =>
    rw [List.mapM_cons, List.flatMap_cons]
    refine ((h a List.mem_cons_self).recount (l.flatMap w) List.perm_append_comm
      fun _ _ => .refl _).bind fun b hb => ?_
    refine ((ih fun a ha => h a (List.mem_cons_of_mem _ ha)).recount (v b) List.perm_append_comm
      fun _ _ => .refl _).bind fun bs hbs => ?_
    exact of_pure (.cons hb hbs) (by rw [List.flatMap_cons])

theorem foldlM {l : List α} {I : β → Prop} {g : β → α → Drawing σ β}
    (h : ∀ b, I b → ∀ a ∈ l, Deals F sides (v b) v I (g b a)) {b : β} (hb : I b) :
    Deals F sides (v b) v I (l.foldlM g b) := by
  induction l generalizing b with
  | nil => exact of_pure hb (.refl _)
  | cons a l ih =>
    rw [List.foldlM_cons]
    exact (h b hb a List.mem_cons_self).bind fun b' hb' =>
      ih (fun b hb a ha => h b hb a (List.mem_cons_of_mem _ ha)) hb'

theorem shows {n : Nat} {s : α → Nat} (hx : Deals F sides before w P x) (hn : before.length = n)
    (hs : ∀ a, P a → (w a).length = s a) : Shows F n s P x := by
  intro tray
  have hx := hx tray
  rcases he : x tray with ⟨fault | a, tray'⟩ <;> rw [he] at hx
  · exact hx
  · obtain ⟨ha, faces, hdealt, hw⟩ := hx
    have hlength := hw.length_eq
    rw [List.length_append, hs a ha] at hlength
    have hdrawn := hdealt.length_drawn
    exact ⟨ha, by omega⟩

end Deals

namespace Drawing

variable {deadline : Option Float}

theorem deals_note (r : Record) :
    Deals F sides before (fun _ => before) (fun _ => True) (note r : Drawing σ Unit) :=
  fun _ => ⟨trivial, [], .of_still rfl rfl, by simp⟩

omit [Source σ] in
theorem still_of_checkTime {tray tray' : Tray σ} {u : Unit}
    (h : checkTime deadline tray = (.ok u, tray')) :
    tray'.source = tray.source ∧ tray'.drawn = tray.drawn := by
  cases deadline with
  | none =>
    cases h
    exact ⟨rfl, rfl⟩
  | some time =>
    obtain ⟨now, tray₁, hnow, hrest⟩ := bind_apply_eq_ok_iff.mp h
    cases hnow
    split at hrest
    · cases hrest
    · cases hrest
      exact ⟨rfl, rfl⟩

theorem dealt_of_draw {tray tray' : Tray σ} {face : Int}
    (h : draw deadline sides tray = (.ok face, tray')) : tray.Dealt sides [face] tray' := by
  obtain ⟨_, tray₁, htime, h⟩ := bind_apply_eq_ok_iff.mp h
  obtain ⟨value, tray₂, hask, h⟩ := bind_apply_eq_ok_iff.mp h
  obtain ⟨hsource, hdrawn⟩ := still_of_checkTime htime
  rcases hface : face? sides value with _ | n <;> rw [hface] at h
  · cases h
  · cases h
    cases hask
    refine ⟨.cons (by rwa [← hsource]) ?_, congrArg _ hdrawn⟩
    rw [← hsource]
    exact .nil _

theorem deals_draw (hd : DrawsWithin σ F deadline sides) :
    Deals F sides before (fun face => before ++ [face]) (fun face => 1 ≤ face ∧ face ≤ sides)
      (draw deadline sides : Drawing σ Int) := by
  intro tray
  have hfault := hd 0 tray
  rcases he : (draw deadline sides : Drawing σ Int) tray with ⟨fault | face, tray'⟩ <;>
    rw [he] at hfault
  · exact hfault
  · exact ⟨gives_draw deadline sides _ _ _ he, [face], dealt_of_draw he, .refl _⟩

end Drawing

end DiceTower
