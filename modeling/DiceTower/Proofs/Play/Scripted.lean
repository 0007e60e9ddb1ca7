import DiceTower.Proofs.Play.Drawing

/-! Computations on a source that shows given faces. Which of the faces they read depends on the
faces before; that they read none after them is part of the property, since whatever comes after the
faces is still there. -/

namespace DiceTower

open DiceTower.Computation

variable {α β : Type} {x : Drawing Script α} {f : α → Drawing Script β} {faces : List Int}
  {P P' : α → List Int → Prop} {Q : β → List Int → Prop}

/-- On some faces, whatever comes after them, the computation ends well, and what it gives and the
faces that it leaves have the property. -/
def Reads (x : Drawing Script α) (faces : List Int) (P : α → List Int → Prop) : Prop :=
  ∀ more tray, tray.source = ⟨faces ++ more⟩ → ∃ a rest tray', x tray = (.ok a, tray') ∧
    tray'.source = ⟨rest ++ more⟩ ∧ rest <:+ faces ∧ P a rest

theorem Reads.of_pure {a : α} (h : P a faces) : Reads (pure a) faces P :=
  fun _ tray ht => ⟨a, faces, tray, rfl, ht, List.suffix_rfl, h⟩

theorem Reads.bind (hx : Reads x faces P)
    (hf : ∀ a rest, rest <:+ faces → P a rest → Reads (f a) rest Q) : Reads (x >>= f) faces Q := by
  intro more tray ht
  obtain ⟨a, rest, tray₁, ha, hrest, hs, hp⟩ := hx more tray ht
  obtain ⟨b, rest', tray₂, hb, hrest', hs', hq⟩ := hf a rest hs hp more tray₁ hrest
  exact ⟨b, rest', tray₂, bind_apply_eq_ok_iff.mpr ⟨a, tray₁, ha, hb⟩, hrest', hs'.trans hs, hq⟩

theorem Reads.mono (hx : Reads x faces P) (h : ∀ a rest, P a rest → P' a rest) :
    Reads x faces P' := by
  intro more tray ht
  obtain ⟨a, rest, tray', ha, hrest, hs, hp⟩ := hx more tray ht
  exact ⟨a, rest, tray', ha, hrest, hs, h a rest hp⟩

theorem Reads.and_gives {R : α → Prop} (hx : Reads x faces P) (hg : Gives x R) :
    Reads x faces fun a rest => P a rest ∧ R a := by
  intro more tray ht
  obtain ⟨a, rest, tray', ha, hrest, hs, hp⟩ := hx more tray ht
  exact ⟨a, rest, tray', ha, hrest, hs, hp, hg _ _ _ ha⟩

namespace Drawing

theorem reads_note (r : Record) : Reads (note r) faces fun _ rest => rest = faces :=
  fun _ _ ht => ⟨(), faces, _, rfl, ht, List.suffix_rfl, rfl⟩

theorem reads_draw {sides face : Int} (h : 1 ≤ face ∧ face ≤ sides) :
    Reads (draw none sides) (face :: faces) fun n rest => n = face ∧ rest = faces := by
  intro more tray ht
  have hface : face? sides (.int face) = some face := if_pos h
  refine ⟨face, faces, { tray with source := ⟨faces ++ more⟩, drawn := sides :: tray.drawn }, ?_,
    rfl, List.suffix_cons .., rfl, rfl⟩
  have hask : (ask sides : Drawing Script Data) tray =
      (.ok (.int face), { tray with source := ⟨faces ++ more⟩, drawn := sides :: tray.drawn }) := by
    unfold ask
    rw [ht]
    rfl
  refine bind_apply_eq_ok_iff.mpr ⟨(), tray, rfl, ?_⟩
  refine bind_apply_eq_ok_iff.mpr ⟨_, _, hask, ?_⟩
  rw [hface]
  rfl

end Drawing

end DiceTower
