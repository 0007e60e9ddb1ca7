import DiceTower.Engine.Lines
import DiceTower.Proofs.Dice.Phases
import DiceTower.Proofs.Engine.Steadiness

/-! Every draw shows a face of some die, and the lines of a roll show every face. -/

namespace DiceTower

open DiceTower.Computation Drawing

def facesShown (dice : List Die) : Nat := (dice.map (·.faces.length)).sum

def AllShown (sides : Int) (dice : List Die) : Prop := ∀ d ∈ dice, d.faces ≠ [] ∧ d.sides = sides

section Faces

variable {sides : Int} {dice dice' : List Die}

theorem facesShown_cons (d : Die) (dice : List Die) :
    facesShown (d :: dice) = d.faces.length + facesShown dice := by
  simp [facesShown]

theorem facesShown_map {g : Die → Die} (h : ∀ d, (g d).faces = d.faces) :
    facesShown (dice.map g) = facesShown dice := by
  simp [facesShown, Function.comp_def, h]

theorem allShown_map {g : Die → Die} (h : ∀ d, (g d).faces = d.faces ∧ (g d).sides = d.sides)
    (hd : AllShown sides dice) : AllShown sides (dice.map g) := by
  intro d hmem
  obtain ⟨d₀, hd₀, rfl⟩ := List.mem_map.mp hmem
  rw [(h d₀).1, (h d₀).2]
  exact hd d₀ hd₀

theorem length_everyFace (dice : List Die) : (everyFace dice).length = facesShown dice :=
  List.length_flatMap

theorem Thrown.allShown {count rounds : Nat} (h : Thrown sides count rounds (dice.map Die.thrown)) :
    AllShown sides dice := by
  intro d hd
  have htold := h.told _ (List.mem_map_of_mem hd)
  refine ⟨fun hnil => ?_, htold.shape⟩
  have hnatural : d.faces.getLast? = some d.natural := htold.natural
  simp [hnil] at hnatural

end Faces

/-- A roll of which every face was drawn: each die has shown one, and a number is a single face. -/
structure Roll.Accounted (r : Roll) : Prop where
  shown : AllShown r.term.pool.sides r.dice
  number : r.term.pool.isFlat = true → facesShown r.dice = 1

namespace Term

variable {σ : Type} [Source σ] {F : Fault → Prop} {deadline : Option Float} {cap : Int}

theorem gives_facesShown_of_isFlat {t : Term} (h : t.pool.isFlat = true) (label : Option String) :
    Gives (t.roll deadline cap label : Drawing σ Roll) fun r => facesShown r.dice = 1 := by
  have hpool := Pool.isFlat_iff.mp h
  have hcount : t.pool.count.toNat = 1 := by
    rw [hpool]
    rfl
  have hphases : t.pool.phases = [] := by
    rw [hpool]
    rfl
  unfold roll
  rw [hcount, hphases]
  refine Gives.bind (P := fun dice => facesShown dice = 1) ?_ fun dice hd => .of_pure hd
  exact (Gives.trivial _).bind fun face _ => .of_pure rfl

theorem shows_roll {t : Term} (hd : DrawsWithin σ F deadline t.pool.sides)
    (hop : ¬ Single t.pool.operations → F .wrongKind) (label : Option String) :
    Shows F 0 (fun r => facesShown r.dice) (fun r => r.Accounted ∧ r.term = t)
      (t.roll deadline cap label : Drawing σ Roll) := by
  have hroll : Shows F 0 (fun r => facesShown r.dice)
      (fun r => AllShown t.pool.sides r.dice ∧ r.term = t)
      (t.roll deadline cap label : Drawing σ Roll) := by
    refine ((t.deals_roll hd hop label).mono fun r hr => ?_).shows rfl fun r _ => ?_
    · exact ⟨hr.1.allShown, hr.2⟩
    · exact length_everyFace r.dice
  by_cases hflat : t.pool.isFlat = true
  · refine (hroll.and_gives (gives_facesShown_of_isFlat hflat label)).mono (fun _ => id) ?_
    rintro r ⟨⟨hshown, rfl⟩, hone⟩
    exact ⟨⟨hshown, fun _ => hone⟩, rfl⟩
  · refine hroll.mono (fun _ => id) ?_
    rintro r ⟨hshown, rfl⟩
    exact ⟨⟨hshown, fun h => absurd h hflat⟩, rfl⟩

end Term

/-- Whether a line stands for a draw: it shows a face, or a number that stands alone. -/
def Item.isDraw (i : Item) : Bool := i.sides.isSome || i.isNumber

section Lines

variable {r : Roll}

theorem Die.countP_items (origin : Option String) {d : Die} (h : d.faces ≠ []) :
    (d.items origin).countP Item.isDraw = d.faces.length := by
  have hpos := List.length_pos_iff.mpr h
  have hdraw : ∀ i ∈ d.items origin, i.isDraw = true := by
    intro i hi
    rcases List.mem_append.mp hi with hi | hi
    · obtain ⟨_, _, rfl⟩ := List.mem_map.mp hi
      rfl
    · rw [List.mem_singleton.mp hi]
      rfl
  have hlength : (d.items origin).length = d.faces.length - 1 + 1 := by simp [items]
  rw [List.countP_eq_length.mpr hdraw, hlength]
  omega

theorem countP_items_of_allShown (origin : Option String) {sides : Int} {dice : List Die}
    (h : AllShown sides dice) :
    (dice.flatMap (·.items origin)).countP Item.isDraw = facesShown dice := by
  induction dice with
  | nil => rfl
  | cons d dice ih =>
    obtain ⟨hd, hdice⟩ := List.forall_mem_cons.mp h
    rw [List.flatMap_cons, List.countP_append, d.countP_items origin hd.1, ih hdice, facesShown_cons]

theorem Roll.Accounted.countP_items (h : r.Accounted) (origin : Option String) :
    (r.items origin).countP Item.isDraw = facesShown r.dice := by
  unfold items
  split
  · next hflat =>
    rw [h.number hflat]
    rfl
  · rw [List.countP_append, countP_items_of_allShown origin h.shown]
    split
    · rfl
    · rfl

end Lines

end DiceTower
