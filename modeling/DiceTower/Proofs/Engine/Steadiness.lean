import DiceTower.Engine.Execution
import DiceTower.Proofs.Dice.Operations
import DiceTower.Proofs.Engine.Activation

/-! Rolling only ever adds draws, and once the notation is read it finds no fault with notation. -/

namespace DiceTower

open DiceTower.Computation Drawing

theorem Operand.neverBadDice_number (o : Operand) : NeverBadDice o.number := by
  cases o <;> nofun

theorem Scalar.neverBadDice_toFloat (s : Scalar) : NeverBadDice s.toFloat := by
  cases s with
  | whole n =>
    simp only [toFloat]
    split <;> nofun
  | real x => nofun

theorem Scalar.neverBadDice_floor (x : Float) : NeverBadDice (floor x) := by
  unfold floor
  split <;> nofun

theorem Scalar.neverBadDice_ofText (s : String) : NeverBadDice (ofText s) := by
  unfold ofText
  split
  · nofun
  · split
    · nofun
    · split <;> nofun

theorem Scalar.neverBadDice_multiply (n : Int) (s : Scalar) : NeverBadDice (multiply n s) := by
  cases s with
  | whole k => nofun
  | real x => exact (neverBadDice_toFloat _).bind fun y => neverBadDice_floor (y * x)

theorem Scalar.neverBadDice_divide (n : Int) (s : Scalar) : NeverBadDice (divide n s) := by
  unfold divide
  split
  · nofun
  · cases s with
    | whole k =>
      simp only
      split <;> nofun
    | real x => exact (neverBadDice_toFloat _).bind fun y => neverBadDice_floor (y / x)

theorem Amount.neverBadDice_truncated (a : Amount) : NeverBadDice a.truncated := by
  cases a with
  | real x =>
    exact (Scalar.neverBadDice_floor x).bind fun n => (Scalar.neverBadDice_toFloat _).bind nofun
  | text s => exact Scalar.neverBadDice_ofText s
  | _ => nofun

theorem Modifier.neverBadDice_scaled? (m : Modifier) (total : Int) :
    NeverBadDice (m.scaled? total) := by
  unfold scaled?
  split
  · exact (Scalar.neverBadDice_multiply _ _).bind fun _ =>
      ((Scalar.neverBadDice_toFloat _).map _).bind fun _ => .of_ok _
  · exact (Scalar.neverBadDice_divide _ _).bind fun _ =>
      ((Scalar.neverBadDice_toFloat _).map _).bind fun _ => .of_ok _
  · nofun

theorem neverBadDice_scaleLines (total : Int) (ms : List Modifier) :
    NeverBadDice (scaleLines total ms) := by
  induction ms generalizing total with
  | nil => nofun
  | cons m ms ih =>
    refine (m.neverBadDice_scaled? total).bind fun r => ?_
    split
    · exact ih total
    · exact (ih _).bind nofun

theorem neverBadDice_criticalRange (rules : CriticalRules) (ms : List Modifier) :
    NeverBadDice (criticalRange rules ms) :=
  (NeverBadDice.mapM fun m => m.amount.neverBadDice_truncated.map _).bind nofun

theorem neverBadDice_extraCount (ms : List Modifier) : NeverBadDice (extraCount ms) :=
  (NeverBadDice.mapM fun m => m.amount.neverBadDice_truncated).bind nofun

theorem Outcome.neverBadDice_check (o : Outcome) : NeverBadDice o.check := by
  unfold check
  split
  · nofun
  · split <;> nofun

theorem Roll.neverBadDice_natural (kind : RollType) (ms : List Modifier) (r : Roll) :
    NeverBadDice (r.natural kind ms) := by
  unfold natural
  split
  · nofun
  · split
    · nofun
    · exact (Amount.neverBadDice_truncated _).map _

theorem neverBadDice_boundAll (op : Operation) (dice : List Die) :
    NeverBadDice (boundAll op dice) := by
  unfold boundAll
  split
  · nofun
  · exact op.operand.neverBadDice_number.map _

section Dice

variable {σ : Type} [Source σ]

theorem steady_redraw (deadline : Option Float) (sides : Int) (targets : List Int) (n : Nat) :
    Steady Tray.Later (redraw deadline sides targets n : Drawing σ (List Int)) := by
  induction n with
  | zero => exact .of_pure _
  | succ n ih =>
    refine (steady_draw deadline sides).bind fun face => ?_
    split
    · exact ih.bind fun _ => .of_pure _
    · exact .of_pure _

theorem Die.steady_reroll (deadline : Option Float) (targets : List Int) (attempts : Nat)
    (d : Die) :
    Steady Tray.Later (d.reroll deadline targets attempts : Drawing σ Die) := by
  unfold reroll
  split
  · exact (steady_redraw ..).bind fun _ => .of_pure _
  · exact .of_pure _

theorem steady_explosions (deadline : Option Float) (threshold : Int) (room next : Nat)
    (queue : List Die) : Steady Tray.Later
      (explosions deadline threshold room next queue : Drawing σ (List Die × Bool)) := by
  induction room, next, queue using explosions.induct threshold with
  | case1 =>
    unfold explosions
    exact .of_pure _
  | case2 _ _ _ h =>
    unfold explosions
    rw [if_pos h]
    exact .of_pure _
  | case3 _ _ _ h _ ih =>
    unfold explosions
    rw [if_pos h]
    exact (steady_draw ..).bind fun face => (ih face).bind fun _ => .of_pure _
  | case4 _ _ _ _ h ih =>
    unfold explosions
    rw [if_neg h]
    exact ih

theorem steady_rerollAll (deadline : Option Float) (cap : Int) (op : Operation) (dice : List Die) :
    Steady Tray.Later (rerollAll deadline cap op dice : Drawing σ (List Die × List Nat)) :=
  (Steady.mapM fun d => d.steady_reroll ..).bind fun _ => .of_pure _

theorem steady_explodeAll (deadline : Option Float) (cap : Int) (op : Operation) (dice : List Die) :
    Steady Tray.Later
      (explodeAll deadline cap op dice : Drawing σ (List Die × List Nat × Bool)) := by
  unfold explodeAll
  split
  · exact .of_pure _
  · exact (Steady.of_lift op.operand.neverBadDice_number).bind fun _ =>
      (steady_explosions ..).bind fun _ => .of_pure _

theorem Operation.steady_apply (deadline : Option Float) (cap : Int) (op : Operation)
    (dice : List Die) : Steady Tray.Later
      (op.apply deadline cap dice : Drawing σ (List Die × List Nat × Bool)) := by
  unfold apply
  split
  · exact (steady_rerollAll ..).bind fun _ => .of_pure _
  · exact steady_explodeAll ..
  · exact (Steady.of_lift (neverBadDice_boundAll op dice)).bind fun _ => .of_pure _
  · exact (Steady.of_lift (neverBadDice_boundAll op dice)).bind fun _ => .of_pure _
  · exact (Steady.of_lift op.operand.neverBadDice_number).bind fun _ => .of_pure _

theorem Progress.steady_step (deadline : Option Float) (cap : Int) (p : Progress) (op : Operation) :
    Steady Tray.Later (p.step deadline cap op : Drawing σ Progress) := by
  rw [step_eq]
  refine (op.steady_apply ..).bind fun r => ?_
  unfold record
  exact .ite ((steady_note _).bind fun _ => .of_pure _) (.of_pure _)

theorem steady_rollDice (deadline : Option Float) (sides : Int) (next n : Nat) :
    Steady Tray.Later (rollDice deadline sides next n : Drawing σ (List Die)) := by
  induction n generalizing next with
  | zero => exact .of_pure _
  | succ n ih => exact (steady_draw ..).bind fun _ => (ih _).bind fun _ => .of_pure _

namespace Term

/-- A pool with a die in it is not rolled without a draw. -/
theorem drawsIf_roll (deadline : Option Float) (cap : Int) (label : Option String) (t : Term) :
    DrawsIf (1 ≤ t.pool.count) (t.roll deadline cap label : Drawing σ Roll) := by
  have hd : DrawsIf (1 ≤ t.pool.count)
      (rollDice deadline t.pool.sides 0 t.pool.count.toNat : Drawing σ (List Die)) := by
    refine ⟨steady_rollDice .., fun h => ?_⟩
    obtain ⟨n, hn⟩ : ∃ n, t.pool.count.toNat = n + 1 := ⟨t.pool.count.toNat - 1, by omega⟩
    rw [hn]
    exact ((drawsIf_draw ..).bind fun _ => (steady_rollDice ..).bind fun _ => .of_pure _).draws trivial
  exact hd.bind fun _ =>
    (Steady.foldlM (fun p op => p.steady_step deadline cap op) _).bind fun _ => .of_pure _

theorem steady_roll (deadline : Option Float) (cap : Int) (label : Option String) (t : Term) :
    Steady Tray.Later (t.roll deadline cap label : Drawing σ Roll) := (t.drawsIf_roll ..).steady

end Term

end Dice

section Notes

def Anyway (_ _ : List Record) : Prop := True

instance : Std.Refl Anyway := ⟨fun _ => trivial⟩

instance : IsTrans (List Record) Anyway := ⟨fun _ _ _ _ _ => trivial⟩

theorem Noted.steady_note (r : Record) : Steady Anyway (note r) := ⟨fun _ => trivial, nofun⟩

theorem Modifier.steady_operations (pool : Pool) (added : List Operation) (m : Modifier) :
    Steady Anyway (m.operations pool added) := by
  unfold operations
  split
  · exact .of_pure _
  · refine .ite (.of_pure _) (.ite ((Noted.steady_note _).bind fun _ => .of_pure _)
      (.ite (.of_pure _) ?_))
    dsimp only
    split
    · exact .of_pure _
    · exact (Noted.steady_note _).bind fun _ => .of_pure _
    · exact .of_throw nofun

theorem Term.steady_withOperations (ms : List Modifier) (t : Term) :
    Steady Anyway (t.withOperations ms) :=
  (Steady.foldlM (fun added m => (m.steady_operations t.pool added).bind fun _ => .of_pure _) _).bind
    fun _ => .of_pure _

theorem Term.count_critical {t : Term} (h : 1 ≤ t.pool.count) (rules : CriticalRules) :
    1 ≤ (t.critical rules).pool.count :=
  Term.of_critical (P := fun p => 1 ≤ p.count) h (Pool.one_le_count_critical h rules)

theorem steady_forM_note (rs : List Record) : Steady Anyway (rs.forM Noted.note) := by
  induction rs with
  | nil => exact .of_pure _
  | cons r rs ih => exact (Noted.steady_note r).bind fun _ => ih

theorem Engine.steady_activeNoted (e : Engine) (d : Definition) (kind : RollType)
    (critical missed : Bool) (used : List String) :
    Steady Anyway (e.activeNoted d kind critical missed used) :=
  ((steady_forM_note _).bind fun _ => .of_pure _).bind fun _ => .of_pure _

end Notes

section Segments

variable {σ : Type} [Source σ] (e : Engine) (d : Definition) (deadline : Option Float)

namespace Engine

theorem steady_modifierItems (critical : Bool) (m : Modifier) :
    Steady Tray.Later (e.modifierItems deadline critical m : Drawing σ (List Item)) := by
  unfold modifierItems
  split
  · exact (Steady.of_lift (Amount.neverBadDice_truncated _)).bind fun _ => .of_pure _
  · exact (Term.steady_roll ..).bind fun _ => .of_pure _
  · exact .of_pure _

theorem steady_extraItems (due : Bool) :
    Steady Tray.Later (e.extraItems deadline due : Drawing σ (List Item)) := by
  unfold extraItems
  split
  · exact (Term.steady_roll ..).bind fun _ => .of_pure _
  · exact .of_pure _

theorem drawsIf_strike (s : Segment) (kind : RollType) (carry : Carry) :
    DrawsIf (1 ≤ s.term.pool.count) (e.strike d deadline s kind carry : Drawing σ Strike) := by
  have hfaces : ∀ (b : Prop) [Decidable b] (ms : List Modifier), NeverBadDice
      (if b then criticalRange e.rules ms else .ok e.rules.range) := by
    intro b _ ms
    split
    · exact neverBadDice_criticalRange _ _
    · exact .of_ok _
  unfold strike
  refine .after (Noted.steady_inDrawing (steady_activeNoted ..)) fun active => ?_
  refine .of_bind (Noted.steady_inDrawing (Term.steady_withOperations ..))
    (Noted.gives_inDrawing ((Term.gives_withOperations _ _).mono fun plain hplain hcount => ?_))
    fun plain => (DrawsIf.bind (Term.drawsIf_roll ..) fun rolled => ?_)
  · have hf := Term.count_withAdvantage hcount kind active.1
    rw [← hplain] at hf
    split
    · exact Term.count_critical hf e.rules
    · exact hf
  · refine (Steady.of_lift (Roll.neverBadDice_natural _ _ _)).bind fun natural => ?_
    refine (Steady.mapM fun m => steady_modifierItems ..).bind fun bonuses => ?_
    refine (steady_extraItems ..).bind fun extra => ?_
    refine (Steady.of_lift (neverBadDice_scaleLines _ _)).bind fun scaling => ?_
    exact (Steady.of_lift (hfaces _ _)).bind fun _ => (steady_fresh _).bind fun _ => .of_pure _

theorem steady_strike (s : Segment) (kind : RollType) (carry : Carry) :
    Steady Tray.Later (e.strike d deadline s kind carry : Drawing σ Strike) :=
  (drawsIf_strike ..).steady

theorem steady_copies (s : Segment) (kind : RollType) (carry : Carry) (n : Nat) :
    Steady Tray.Later
      (e.copies d deadline s kind carry n : Drawing σ (List Outcome × List String)) := by
  induction n generalizing carry with
  | zero => exact .of_pure _
  | succ n ih =>
    exact (steady_strike ..).bind fun copy =>
      (Steady.of_lift copy.outcome.neverBadDice_check).bind fun _ => (ih _).bind fun _ => .of_pure _

theorem drawsIf_rollSegment (s : Segment) (kind : RollType) (carry : Carry) :
    DrawsIf (1 ≤ s.term.pool.count)
      (e.rollSegment d deadline s kind carry : Drawing σ (Rolled × Carry)) := by
  have hcount : ∀ ms, NeverBadDice (if kind.isAttack then extraCount ms else .ok 0) := by
    intro ms
    split
    · exact neverBadDice_extraCount ms
    · exact .of_ok _
  exact (drawsIf_strike ..).bind fun main => (Steady.of_lift (hcount _)).bind fun _ =>
    (steady_copies ..).bind fun _ => (Steady.of_lift main.outcome.neverBadDice_check).bind fun _ =>
      .of_pure _

theorem steady_rollSegments (carry : Carry) (segments : List (Segment × RollType)) :
    Steady Tray.Later (e.rollSegments d deadline carry segments : Drawing σ (List Rolled)) := by
  induction segments generalizing carry with
  | nil => exact .of_pure _
  | cons s segments ih =>
    exact (drawsIf_rollSegment ..).steady.bind fun _ => (ih _).bind fun _ => .of_pure _

theorem drawsIf_rollSegments (carry : Carry) (segments : List (Segment × RollType)) :
    DrawsIf (∃ s ∈ segments.head?, 1 ≤ s.1.term.pool.count)
      (e.rollSegments d deadline carry segments : Drawing σ (List Rolled)) := by
  refine ⟨steady_rollSegments .., fun h => ?_⟩
  obtain ⟨s, hs, hcount⟩ := h
  obtain ⟨segments, rfl⟩ := List.head?_eq_some_iff.mp hs
  exact ((drawsIf_rollSegment ..).bind fun _ =>
    (steady_rollSegments ..).bind fun _ => .of_pure _).draws hcount

end Engine

end Segments

end DiceTower
