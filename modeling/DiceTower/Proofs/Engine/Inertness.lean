import DiceTower.Proofs.Engine.Execution
import DiceTower.Proofs.Engine.Tally
import DiceTower.Proofs.Modifier.Collapse

/-! When a modifier that applies to no segment of a roll changes nothing. It is taken out only after
the modifiers of one key were brought down to one, so that it must not stand in the way of one that
applies. -/

namespace DiceTower

open DiceTower.Computation Drawing

section Giving

variable {b : Rulebook} {c : Context} {kind : RollType} {earlier later : List Modifier}
  {m m' : Modifier}

namespace Rulebook

/-- A modifier that does not apply to a type of roll gives way to those among which it stands. -/
inductive GivesWay (b : Rulebook) (c : Context) (kind : RollType) (earlier later : List Modifier)
    (m : Modifier) : Prop where
  /-- It is taken out by itself. -/
  | unused (h : b.applicable c [m] = [])
  /-- It stacks. -/
  | cumulative (h : m.cumulative = true)
  /-- It is behind one of its key that is no worse. -/
  | behind {n : Modifier} (hn : n ∈ b.applicable c earlier) (hc : n.cumulative = false)
      (hk : n.key = m.key) (hle : n.priority ≤ m.priority)
  /-- No other of its key applies to the type. -/
  | apart (h : ∀ n ∈ b.applicable c (earlier ++ later), n.cumulative = false → n.key = m.key →
      n.appliesToType kind = false)

theorem applicable_append (b : Rulebook) (c : Context) (ms ms' : List Modifier) :
    b.applicable c (ms ++ ms') = b.applicable c ms ++ b.applicable c ms' := List.filterMap_append

theorem mem_applicable {ms : List Modifier} (hm : m ∈ ms) (h : b.judge c m = .ok (some m')) :
    m' ∈ b.applicable c ms :=
  List.mem_filterMap.mpr ⟨m, hm, by rw [h]⟩

theorem exists_judge_of_applicable {ms : List Modifier} (h : b.applicable c [m] = m' :: ms) :
    b.judge c m = .ok (some m') ∧ ms = [] := by
  unfold applicable at h
  cases hj : b.judge c m with
  | error r => simp [hj] at h
  | ok answer =>
    cases answer with
    | none => simp [hj] at h
    | some m₁ =>
      simp only [List.filterMap_cons, hj, List.filterMap_nil, List.cons.injEq] at h
      exact ⟨by rw [h.1], h.2.symm⟩

theorem filter_collapse_insert (hm : m.appliesToType kind = false)
    (h : b.GivesWay c kind earlier later m) :
    (Modifier.collapse (b.applicable c (earlier ++ m :: later))).filter (·.appliesToType kind) =
      (Modifier.collapse (b.applicable c (earlier ++ later))).filter (·.appliesToType kind) := by
  rw [← List.singleton_append, applicable_append, applicable_append, applicable_append]
  cases hj : b.applicable c [m] with
  | nil => rw [List.nil_append]
  | cons m' ms =>
    obtain ⟨hjudge, rfl⟩ := exists_judge_of_applicable hj
    obtain ⟨amount, rfl⟩ := eq_of_judge hjudge
    refine Modifier.filter_collapse_append_cons hm ?_
    cases h with
    | unused h =>
      rw [hj] at h
      cases h
    | cumulative h => exact .inl h
    | behind hn hc hk hle => exact .inr (.inl ⟨_, hn, hc, hk, hle⟩)
    | apart h =>
      rw [applicable_append] at h
      exact .inr (.inr h)

end Rulebook

end Giving

def Definition.insert (d : Definition) (n : Nat) (m : Modifier) : Definition :=
  { d with modifiers := d.modifiers.take n ++ m :: d.modifiers.drop n }

structure Table.Alike {σ : Type} (t t' : Table σ) : Prop where
  tray : t.tray.Mirrors True t'.tray
  history : t'.history = t.history
  preview : t'.preview = t.preview
  time : t'.time = t.time

section Plays

variable {σ α β : Type} {x : Drawing σ α} {y : Drawing σ β} {P : α → β → Prop}

theorem Drawing.inStep_inPlay (h : InStep True (Tray.Mirrors True) P x y) :
    InStep True Table.Alike P x.inPlay y.inPlay := by
  refine ⟨fun t t' hr => ?_⟩
  have hk := h.keeps _ _ hr.tray
  unfold inPlay
  generalize x t.tray = u, y t'.tray = v at hk
  rcases u with ⟨fault | a, tray⟩ <;> rcases v with ⟨fault' | b, tray'⟩
  · exact fun hs => ⟨(hk hs).1, (hk hs).2, hr.history, hr.preview, hr.time⟩
  · exact hk
  · exact hk
  · exact ⟨hk.1, hk.2, hr.history, hr.preview, hr.time⟩

theorem Drawing.inStep_whenLate (r r' : Record) (h : InStep True (Tray.Mirrors True) P x y) :
    InStep True (Tray.Mirrors True) P (x.whenLate r) (y.whenLate r') := by
  refine ⟨fun t t' hr => ?_⟩
  have hk := h.keeps _ _ hr
  unfold whenLate
  generalize x t = u, y t' = v at hk
  rcases u with ⟨fault | a, tray⟩ <;> rcases v with ⟨fault' | b, tray'⟩
  · obtain ⟨rfl, hr⟩ := hk trivial
    cases fault <;> exact fun _ => ⟨rfl, hr.records _ _⟩
  · exact absurd trivial hk
  · exact absurd trivial hk
  · exact hk

theorem Play.inStep_remember (id : String) (r : RollResult) :
    InStep True Table.Alike Eq (Play.remember id r : Play σ Unit) (Play.remember id r) := by
  refine ⟨fun t t' hr => ⟨rfl, hr.tray, ?_, hr.preview, hr.time⟩⟩
  rw [hr.history, hr.time]

end Plays

namespace Engine

variable {σ : Type} [Source σ] {e : Engine} {d : Definition} {deadline : Option Float}
  {s : Segment} {kind : RollType} {ms : List Modifier}

theorem activeIn_insert {m : Modifier} {n : Nat} (hm : m.appliesToType kind = false)
    (h : e.rulebook.GivesWay d.context kind
      (Rulebook.offered (e.rulebook.answers d.context kind d.withCharacter) ++ d.modifiers.take n)
      (d.modifiers.drop n) m) (carry : Carry) :
    e.activeIn (d.insert n m) kind carry = e.activeIn d kind carry := by
  have hresolve := Rulebook.filter_collapse_insert hm h
  rw [List.append_assoc, List.append_assoc, List.take_append_drop] at hresolve
  exact activate_eq_of_filter hresolve

theorem inStep_strike_of_activeIn {carry : Carry}
    (h : e.activeIn { d with modifiers := ms } kind carry = e.activeIn d kind carry) :
    InStep True (Tray.Mirrors True) Eq
      (e.strike { d with modifiers := ms } deadline s kind carry : Drawing σ Strike)
      (e.strike d deadline s kind carry) := by
  refine (inStep_strike (Q := Eq) { d with modifiers := ms } d (fun _ => rfl) (by rw [h]) rfl rfl
    (by rw [h]) (by rw [h]; exact (Term.settled_withOperations _ _).inStep)
    (fun _ _ hp => by rw [hp])).mono ?_
  rintro _ _ ⟨plain, _, t, _, rfl, ⟨id, rfl, hid⟩, rfl, rfl⟩
  rw [h, ← hid trivial]
  rfl

variable {segments : List (Segment × RollType)}

theorem inStep_copies_of_activeIn
    (h : ∀ carry, e.activeIn { d with modifiers := ms } kind carry = e.activeIn d kind carry)
    (carry : Carry) (n : Nat) : InStep True (Tray.Mirrors True) Eq
      (e.copies { d with modifiers := ms } deadline s kind carry n :
        Drawing σ (List Outcome × List String))
      (e.copies d deadline s kind carry n) := by
  induction n generalizing carry with
  | zero => exact .of_pure rfl
  | succ n ih =>
    exact (inStep_strike_of_activeIn (h carry)).bind_eq fun copy =>
      (InStep.of_lift _).bind_eq fun _ => (ih _).bind_eq fun _ => .of_pure rfl

theorem inStep_rollSegment_of_activeIn
    (h : ∀ carry, e.activeIn { d with modifiers := ms } kind carry = e.activeIn d kind carry)
    (carry : Carry) : InStep True (Tray.Mirrors True) Eq
      (e.rollSegment { d with modifiers := ms } deadline s kind carry : Drawing σ (Rolled × Carry))
      (e.rollSegment d deadline s kind carry) :=
  (inStep_strike_of_activeIn (h carry)).bind_eq fun _ => (InStep.of_lift _).bind_eq fun _ =>
    (inStep_copies_of_activeIn h ..).bind_eq fun _ => (InStep.of_lift _).bind_eq fun _ =>
      .of_pure rfl

theorem inStep_rollSegments_of_activeIn
    (h : ∀ p ∈ segments, ∀ carry,
      e.activeIn { d with modifiers := ms } p.2 carry = e.activeIn d p.2 carry)
    (carry : Carry) : InStep True (Tray.Mirrors True) Eq
      (e.rollSegments { d with modifiers := ms } deadline carry segments : Drawing σ (List Rolled))
      (e.rollSegments d deadline carry segments) := by
  induction segments generalizing carry with
  | nil => exact .of_pure rfl
  | cons p segments ih =>
    obtain ⟨hp, hsegments⟩ := List.forall_mem_cons.mp h
    exact (inStep_rollSegment_of_activeIn hp carry).bind_eq fun _ =>
      (ih hsegments _).bind_eq fun _ => .of_pure rfl

omit [Source σ] in
theorem inStep_assemble (e : Engine) (d : Definition) (f : Formula) (parts : List Rolled) :
    InStep True (Tray.Mirrors True) Eq (e.assemble { d with modifiers := ms } f parts :
      Drawing σ RollResult) (e.assemble d f parts) := by
  unfold assemble
  split
  · exact .of_throw _
  · exact .of_pure rfl
  · refine (inStep_fresh _).bind fun id _ hid => .of_pure ?_
    rw [hid trivial]
    rfl

/-- Rolls that differ in their modifiers, with the same ones active in every segment. -/
theorem inStep_execute_of_activeIn
    (h : ∀ f, e.formulaOf d = .ok f → ∀ kind ∈ f.kinds d.kind, ∀ carry,
      e.activeIn { d with modifiers := ms } kind carry = e.activeIn d kind carry) :
    InStep True Table.Alike Eq (e.execute { d with modifiers := ms } : Play σ RollResult)
      (e.execute d) := by
  have hroll : InStep True (Tray.Mirrors True) Eq
      (e.roll { d with modifiers := ms } : Drawing σ (Formula × RollResult)) (e.roll d) := by
    refine inStep_now.bind fun started _ hs => ?_
    obtain rfl := hs trivial
    have hwords : e.formulaOf { d with modifiers := ms } = e.formulaOf d := rfl
    rw [hwords]
    cases hf : e.formulaOf d with
    | error fault => exact .of_throw fault
    | ok f =>
      have hkinds : ∀ p ∈ f.segments.zip (f.kinds d.kind), ∀ carry,
          e.activeIn { d with modifiers := ms } p.2 carry = e.activeIn d p.2 carry :=
        fun p hp => h f hf p.2 (List.of_mem_zip hp).2
      refine (inStep_whenLate _ _ (inStep_rollSegments_of_activeIn hkinds _)).bind_eq fun parts => ?_
      refine (inStep_assemble e d f parts).bind_eq fun result => ?_
      refine inStep_now.bind fun ended _ he => .of_pure ?_
      rw [he trivial]
  refine (inStep_inPlay hroll).bind_eq fun r => ?_
  refine (inStep_inPlay (inStep_fresh _)).bind fun id _ hid => ?_
  obtain rfl := hid trivial
  exact (Play.inStep_remember _ _).bind_eq fun _ =>
    (inStep_inPlay (inStep_note _ _)).bind_eq fun _ => .of_pure rfl

/-- A modifier that applies to no segment of a roll is inert wherever it stands among the modifiers,
if in every segment it gives way to those among which it stands. The roll then comes to the same
answer from the same table, and leaves the same behind but for records. -/
theorem execute_insert_of_givesWay {n : Nat} {m : Modifier}
    (h : ∀ f, e.formulaOf d = .ok f → ∀ kind ∈ f.kinds d.kind, m.appliesToType kind = false ∧
      e.rulebook.GivesWay d.context kind
        (Rulebook.offered (e.rulebook.answers d.context kind d.withCharacter) ++ d.modifiers.take n)
        (d.modifiers.drop n) m) (table : Table σ) :
    (e.execute (d.insert n m) table).1 = (e.execute d table).1 ∧
      (e.execute (d.insert n m) table).2.Alike (e.execute d table).2 := by
  refine (inStep_execute_of_activeIn fun f hf kind hkind carry => ?_).answer_eq ?_
  · obtain ⟨hm, hgives⟩ := h f hf kind hkind
    exact activeIn_insert hm hgives carry
  · exact ⟨⟨rfl, fun _ => rfl⟩, rfl, rfl, rfl⟩

def charmed : Definition where
  id := "d"
  wording := .text "1d20"
  modifiers := [{
    id := "charm"
    name := "Charm"
    source := .homebrew
    kind := .flat
    amount := .whole 5 }]

def charmedFormula : Formula := ⟨"1d20", [⟨none, "1d20", ⟨1, 20, 0, []⟩⟩]⟩

theorem formulaOf_charmed : Engine.formulaOf {} charmed = .ok charmedFormula :=
  eq_ok_of_toOption (by decide +kernel)

def sharpCharm (priority : Int) : Modifier := {
  id := "sharp"
  name := "Charm"
  source := .homebrew
  kind := .flat
  amount := .whole 3
  appliesTo := some [.damage]
  priority }

/-- The charm for damage comes behind the other one, and changes nothing. -/
theorem execute_insert_behind_charm :
    (∀ kind ∈ charmedFormula.kinds charmed.kind, (sharpCharm 50).appliesToType kind = false) ∧
    (execute {} (charmed.insert 1 (sharpCharm 50)) (Table.opening [10])).1 =
      (execute {} charmed (Table.opening [10])).1 := by
  have hkinds : ∀ kind ∈ charmedFormula.kinds charmed.kind, kind = .raw := by decide +kernel
  have happlies : ∀ kind ∈ charmedFormula.kinds charmed.kind,
      (sharpCharm 50).appliesToType kind = false := by decide +kernel
  refine ⟨happlies, (execute_insert_of_givesWay (fun f hf kind hkind => ?_) _).1⟩
  rw [formulaOf_charmed] at hf
  cases hf
  obtain rfl := hkinds kind hkind
  refine ⟨rfl, .behind (n := charmed.modifiers[0]) ?_ rfl rfl (Int.le_refl 50)⟩
  exact Rulebook.mem_applicable (List.mem_append_right _ List.mem_cons_self) rfl

/-- Put before the other one, it takes that one's place and then does not apply: the total is ten
where it was fifteen. -/
theorem execute_insert_displaces_charm :
    (∀ kind ∈ charmedFormula.kinds charmed.kind, (sharpCharm 10).appliesToType kind = false) ∧
    (execute {} charmed (Table.opening [10])).1.toOption.map (·.outcome.total) = some 15 ∧
    (execute {} (charmed.insert 1 (sharpCharm 10)) (Table.opening [10])).1.toOption.map
      (·.outcome.total) = some 10 := by
  decide +kernel

end Engine

end DiceTower
