import DiceTower.Proofs.Engine.Steadiness

/-! Making a whole roll: notation that is refused leaves everything as it was, and a roll that is
made draws dice and goes into the history. -/

namespace DiceTower

open DiceTower.Computation Drawing

/-- Nothing was rolled between two states of a table: the history, the source and the draws are the
same. -/
structure Table.Unrolled {σ : Type} (table table' : Table σ) : Prop where
  history : table'.history = table.history
  source : table'.tray.source = table.tray.source
  drawn : table'.tray.drawn = table.tray.drawn

def Table.opening (faces : List Int) : Table Script where
  tray := { source := ⟨faces⟩ }
  history := { limit := 50 }

section Rolls

variable {σ α : Type}

def Table.Later (table table' : Table σ) : Prop := table.tray.Later table'.tray

instance : Std.Refl (Table.Later (σ := σ)) := ⟨fun _ => List.suffix_rfl⟩

instance : IsTrans (Table σ) Table.Later := ⟨fun _ _ _ => List.IsSuffix.trans⟩

theorem Drawing.steady_inPlay {x : Drawing σ α} (h : Steady Tray.Later x) :
    Steady Table.Later x.inPlay :=
  ⟨fun table => h.moves table.tray, fun table => h.fault table.tray⟩

theorem Play.steady_remember (id : String) (r : RollResult) :
    Steady Table.Later (Play.remember id r : Play σ Unit) := ⟨fun _ => List.suffix_rfl, nofun⟩

theorem Drawing.drawsIf_whenLate (r : Record) {p : Prop} {x : Drawing σ α} (h : DrawsIf p x) :
    DrawsIf p (x.whenLate r) := by
  refine ⟨⟨fun tray => ?_, fun tray => ?_⟩, fun hp tray a tray' he => ?_⟩
  · have hm := h.steady.moves tray
    unfold whenLate
    split <;> rename_i hx
    · rwa [hx] at hm
    · exact hm
  · have hf := h.steady.fault tray
    unfold whenLate
    split
    · nofun
    · exact hf
  · unfold whenLate at he
    split at he
    · cases he
    · exact h.draws hp tray a tray' he

end Rolls

namespace Engine

variable {σ : Type} {e : Engine} {d : Definition} {f : Formula}

theorem steady_assemble (e : Engine) (d : Definition) (f : Formula) (parts : List Rolled) :
    Steady Tray.Later (e.assemble d f parts : Drawing σ RollResult) := by
  unfold assemble
  split
  · exact .of_throw nofun
  · exact .of_pure _
  · exact (steady_fresh _).bind fun _ => .of_pure _

variable [Source σ]

theorem drawsIf_roll (hf : e.formulaOf d = .ok f) :
    DrawsIf (∃ s ∈ f.segments.head?, 1 ≤ s.term.pool.count)
      (e.roll d : Drawing σ (Formula × RollResult)) := by
  have hhead : (∃ s ∈ f.segments.head?, 1 ≤ s.term.pool.count) →
      ∃ s ∈ (f.segments.zip (f.kinds d.kind)).head?, 1 ≤ s.1.term.pool.count := by
    rintro ⟨s, hs, hcount⟩
    obtain ⟨rest, he⟩ := List.head?_eq_some_iff.mp hs
    exact ⟨_, by simp only [Formula.kinds, he, segmentKinds]; rfl, hcount⟩
  unfold roll
  rw [hf]
  refine .after steady_now fun started => ?_
  rw [lift_ok_bind]
  have hroll := drawsIf_whenLate (e.lateRecord d f) (drawsIf_rollSegments (σ := σ) e d
    (e.deadline? started) {} (f.segments.zip (f.kinds d.kind)))
  exact DrawsIf.bind ⟨hroll.steady, fun h => hroll.draws (hhead h)⟩ fun parts =>
    (steady_assemble ..).bind fun _ => steady_now.bind fun _ => .of_pure _

theorem execute_of_refused {fault : Fault} (hf : e.formulaOf d = .error fault) (table : Table σ) :
    ∃ table', e.execute d table = (.error fault, table') ∧ table.Unrolled table' := by
  refine ⟨{ table with tray := { table.tray with readings := table.tray.readings + 1 } }, ?_, ?_⟩
  · unfold execute roll
    rw [hf]
    rfl
  · exact ⟨rfl, rfl, rfl⟩

theorem steady_execute (hf : e.formulaOf d = .ok f) :
    Steady Table.Later (e.execute d : Play σ RollResult) :=
  (steady_inPlay (drawsIf_roll hf).steady).bind fun _ => (steady_inPlay (steady_fresh _)).bind fun _ =>
    (Play.steady_remember ..).bind fun _ => (steady_inPlay (steady_note _)).bind fun _ => .of_pure _

/-- What a roll that is made leaves behind: its draws, and the result as the newest in the history.
-/
theorem roll_of_execute {r : RollResult} {table table' : Table σ}
    (h : e.execute d table = (.ok r, table')) :
    ∃ formula tray id, e.roll d table.tray = (.ok (formula, r), tray) ∧
      table'.tray.drawn = tray.drawn ∧
      table'.history = table.history.append ⟨id, table.time, r⟩ := by
  obtain ⟨⟨formula, result⟩, table₁, h₁, h⟩ := bind_apply_eq_ok_iff.mp h
  obtain ⟨id, table₂, h₂, h⟩ := bind_apply_eq_ok_iff.mp h
  obtain ⟨_, table₃, h₃, h⟩ := bind_apply_eq_ok_iff.mp h
  obtain ⟨_, table₄, h₄, h⟩ := bind_apply_eq_ok_iff.mp h
  cases h
  cases h₄
  cases h₃
  obtain ⟨_, rfl⟩ := Prod.mk.inj h₂
  obtain ⟨hr, rfl⟩ := Prod.mk.inj h₁
  exact ⟨formula, _, id, Prod.ext hr rfl, rfl, rfl⟩

theorem roll_of_execute_eq_error {fault : Fault} {table table' : Table σ}
    (h : e.execute d table = (.error fault, table')) :
    ∃ tray, e.roll d table.tray = (.error fault, tray) ∧ table' = { table with tray } := by
  unfold execute at h
  rw [bind_apply] at h
  unfold Drawing.inPlay at h
  rcases hx : e.roll d table.tray with ⟨fault' | ⟨f, r⟩, tray⟩ <;> rw [hx] at h
  · cases h
    exact ⟨tray, rfl, rfl⟩
  · cases h

/-- A roll of a formula that begins with a die is not made without a draw. -/
theorem drawn_of_execute (hf : e.formulaOf d = .ok f)
    (hs : ∃ s ∈ f.segments.head?, 1 ≤ s.term.pool.count) {r : RollResult} {table table' : Table σ}
    (h : e.execute d table = (.ok r, table')) :
    table.tray.drawn.length < table'.tray.drawn.length := by
  obtain ⟨formula, tray, _, hroll, hdrawn, _⟩ := roll_of_execute h
  rw [hdrawn]
  exact (drawsIf_roll hf).draws hs _ _ _ hroll

end Engine

end DiceTower
