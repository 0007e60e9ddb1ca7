import DiceTower.Proofs.Play.Computation

/-! Drawing dice: draws are only ever added, and each of them gives a face of the die. -/

namespace DiceTower

open DiceTower.Computation

variable {σ α β : Type}

def Tray.Later (tray tray' : Tray σ) : Prop := tray.drawn <:+ tray'.drawn

instance : Std.Refl (Tray.Later (σ := σ)) := ⟨fun _ => List.suffix_rfl⟩

instance : IsTrans (Tray σ) Tray.Later := ⟨fun _ _ _ => List.IsSuffix.trans⟩

def Draws (x : Drawing σ α) : Prop :=
  ∀ tray a tray', x tray = (.ok a, tray') → tray.drawn.length < tray'.drawn.length

/-- The computation is steady, and under a condition it does not end well without a draw. -/
structure DrawsIf (p : Prop) (x : Drawing σ α) : Prop where
  steady : Steady Tray.Later x
  draws : p → Draws x

variable {x : Drawing σ α} {f : α → Drawing σ β} {P : α → Prop} {p : Prop}

theorem DrawsIf.bind (hx : DrawsIf p x) (hf : ∀ a, Steady Tray.Later (f a)) :
    DrawsIf p (x >>= f) := by
  refine ⟨hx.steady.bind hf, fun hp tray b tray' he => ?_⟩
  obtain ⟨a, tray₁, ha, hb⟩ := bind_apply_eq_ok_iff.mp he
  have hd := ((hf a).moves tray₁).length_le
  rw [hb] at hd
  exact Nat.lt_of_lt_of_le (hx.draws hp _ _ _ ha) hd

theorem DrawsIf.of_bind {q : α → Prop} (hx : Steady Tray.Later x) (hq : Gives x fun a => p → q a)
    (hf : ∀ a, DrawsIf (q a) (f a)) : DrawsIf p (x >>= f) := by
  refine ⟨hx.bind fun a => (hf a).steady, fun hp tray b tray' he => ?_⟩
  obtain ⟨a, tray₁, ha, hb⟩ := bind_apply_eq_ok_iff.mp he
  have hd := (hx.moves tray).length_le
  rw [ha] at hd
  exact Nat.lt_of_le_of_lt hd ((hf a).draws (hq _ _ _ ha hp) _ _ _ hb)

theorem DrawsIf.after (hx : Steady Tray.Later x) (hf : ∀ a, DrawsIf p (f a)) :
    DrawsIf p (x >>= f) :=
  .of_bind hx (fun _ _ _ _ => id) hf

theorem Noted.gives_inDrawing {y : Noted α} (h : Gives y P) : Gives (y.inDrawing : Drawing σ α) P :=
  fun tray _ _ he => h tray.records _ _ (Prod.ext (Prod.mk.inj he).1 rfl)

theorem Noted.steady_inDrawing {R : List Record → List Record → Prop} {y : Noted α}
    (h : Steady R y) : Steady Tray.Later (y.inDrawing : Drawing σ α) :=
  ⟨fun _ => List.suffix_rfl, fun tray => h.fault tray.records⟩

/-- A source that shows some faces in order, and ones after them. -/
structure Script where
  faces : List Int

instance : Source Script where
  next _ s := (.int (s.faces.headD 1), ⟨s.faces.tail⟩)

namespace Drawing

theorem steady_note (r : Record) : Steady Tray.Later (note r : Drawing σ Unit) :=
  ⟨fun _ => List.suffix_rfl, nofun⟩

theorem steady_now : Steady Tray.Later (now : Drawing σ Float) := ⟨fun _ => List.suffix_rfl, nofun⟩

theorem steady_fresh (word : String) : Steady Tray.Later (fresh word : Drawing σ String) :=
  ⟨fun _ => List.suffix_rfl, nofun⟩

theorem steady_checkTime (deadline : Option Float) :
    Steady Tray.Later (checkTime deadline : Drawing σ Unit) := by
  cases deadline with
  | none => exact .of_pure _
  | some time => exact steady_now.bind fun _ => .ite (.of_throw nofun) (.of_pure _)

theorem steady_face? (sides : Int) (value : Data) :
    Steady Tray.Later (match face? sides value with
      | some n => pure n
      | none => throw (.badDraw sides value) : Drawing σ Int) := by
  split
  · exact .of_pure _
  · exact .of_throw nofun

variable [Source σ]

theorem steady_ask (sides : Int) : Steady Tray.Later (ask sides : Drawing σ Data) :=
  ⟨fun _ => List.suffix_cons .., nofun⟩

theorem drawsIf_ask (sides : Int) : DrawsIf True (ask sides : Drawing σ Data) := by
  refine ⟨steady_ask sides, fun _ tray a tray' he => ?_⟩
  cases he
  exact Nat.lt_succ_self _

theorem drawsIf_draw (deadline : Option Float) (sides : Int) :
    DrawsIf True (draw deadline sides : Drawing σ Int) :=
  .after (steady_checkTime deadline) fun _ => (drawsIf_ask sides).bind fun _ => steady_face? ..

theorem steady_draw (deadline : Option Float) (sides : Int) :
    Steady Tray.Later (draw deadline sides : Drawing σ Int) := (drawsIf_draw deadline sides).steady

theorem gives_draw (deadline : Option Float) (sides : Int) :
    Gives (draw deadline sides : Drawing σ Int) fun n => 1 ≤ n ∧ n ≤ sides := by
  refine (Gives.trivial _).bind fun _ _ => (Gives.trivial _).bind fun value _ => ?_
  split
  · next n hn => exact .of_pure (face?_eq_some hn)
  · exact .of_throw _

end Drawing

end DiceTower
