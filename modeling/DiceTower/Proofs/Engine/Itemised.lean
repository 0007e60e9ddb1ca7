import DiceTower.Proofs.Engine.Parts
import DiceTower.Proofs.Engine.Shown

/-! Every total is the sum of its lines, and every draw has a line of its own. A roll that is read
and begun should fail only where a draw fails or a total cannot be scaled. It also fails with dice of
a modifier that have a list of faces where an operation needs one number: the check of modifiers lets
them pass, though what is malformed should be left out of the roll. -/

namespace DiceTower

open DiceTower.Computation Drawing

def Outcome.draws (o : Outcome) : Nat := o.items.countP Item.isDraw

structure Outcome.Itemised (o : Outcome) : Prop where
  items : o.items ≠ []
  total : Item.counted o.items = o.total

/-- The total is what the modifiers that were applied make of the lines before theirs. -/
structure Outcome.Scaled (o : Outcome) : Prop extends o.Itemised where
  scaled : ∃ ms lines scaling, o.metadata.modifiersApplied = ms.map Modifier.name ∧
    o.items = lines ++ scaling ∧ scaleTotal (Item.counted lines) ms = .ok o.total

def Rolled.outcomes (r : Rolled) : List Outcome := r.outcome :: r.extras

def Rolled.draws (r : Rolled) : Nat := (r.outcomes.map (·.draws)).sum

def RollResult.draws (r : RollResult) : Nat := (r.rolled.map (·.draws)).sum

/-- All outcomes of a roll are itemised, and that of the whole roll is that of its last segment. -/
structure RollResult.Itemised (r : RollResult) : Prop where
  outcome : r.outcome.Itemised
  extras : ∀ o ∈ r.extras, o.Itemised
  parts : ∀ p ∈ r.rolled, ∀ o ∈ p.outcomes, o.Scaled
  last : ∃ p ∈ r.rolled.getLast?, r.outcome.total = p.outcome.total ∧ r.outcome.items = p.outcome.items

theorem Shows.whenLate {σ α : Type} {F : Fault → Prop} {n : Nat} {s : α → Nat} {P : α → Prop}
    {x : Drawing σ α} (h : Shows F n s P x) (r : Record) : Shows F n s P (x.whenLate r) := by
  intro tray
  have h := h tray
  unfold Drawing.whenLate
  split
  · next he =>
    rw [he] at h
    exact h
  · exact h

theorem Outcome.Scaled.timed {o o' : Outcome} (h : o.Scaled) (ht : o.Timed o') : o'.Scaled := by
  obtain ⟨elapsed, rfl⟩ := ht
  exact ⟨⟨h.items, h.total⟩, h.scaled⟩

theorem RollResult.draws_timed (r : RollResult) (elapsed : Float) :
    (r.timed elapsed).draws = r.draws := by
  unfold draws rolled
  show (List.map _ (if r.parts.isEmpty then _ else r.parts)).sum = _
  split
  · rfl
  · rfl

namespace Engine

/-- Some modifier gives dice with an operation that has a list of faces in place of a number. -/
def ListsFaces (e : Engine) (d : Definition) : Prop :=
  ∃ kind, ∃ m ∈ e.rulebook.resolve d.context kind d.modifiers d.withCharacter, ∃ t,
    m.kind = .dice ∧ m.amount = .dice t ∧ ¬ Single t.pool.operations

def Hinders (e : Engine) (d : Definition) (fault : Fault) : Prop :=
  fault.OfDraw ∨ fault.OfScaling ∨ fault = .wrongKind ∧ e.ListsFaces d

/-- What a roll is made with is fit: dice with sides can be drawn, the extra dice of the rules can be
rolled, and the modifiers of every copy can be counted. -/
structure Ready (σ : Type) [Source σ] (F : Fault → Prop) (e : Engine) (d : Definition)
    (deadline : Option Float) : Prop where
  draws : ∀ sides, 1 ≤ sides → DrawsWithin σ F deadline sides
  extra : ∀ t ∈ e.extraDice, t.Rollable
  equipped : ∀ kind carry, Equipped σ F deadline (e.activeIn d kind carry).1

section Strikes

variable {σ : Type} [Source σ] {F : Fault → Prop} {e : Engine} {d : Definition}
  {deadline : Option Float} {s : Segment} {kind : RollType} {carry : Carry}

theorem foretells_check {o : Outcome} (h : o.Itemised) : Foretells F (fun p => p = o) o.check := by
  rw [Outcome.check_eq_ok_iff.mpr ⟨rfl, h.items, h.total⟩]
  rfl

namespace Ready

variable (h : e.Ready σ F d deadline)

include h

theorem shows_strike (hs : s.term.Rollable) :
    Shows F 0 (·.outcome.draws)
      (fun st => st.outcome.Scaled ∧ ∀ m ∈ st.modifiers, m.Whole)
      (e.strike d deadline s kind carry : Drawing σ Strike) := by
  have hequipped := h.equipped kind carry
  rw [strike_eq]
  refine Shows.bind (s := fun _ => 0) (P := fun a => a = e.activeIn d kind carry)
    (.of_inDrawing fun records => ?_) ?_
  · rw [e.answer_activeNoted]
    exact ⟨rfl, rfl⟩
  rintro active rfl
  have hfavoured := hs.withAdvantage kind (e.activeIn d kind carry).1
  refine Shows.bind (s := fun _ => 0) (.of_inDrawing fun records =>
    (hfavoured.foretells_withOperations (e.activeIn d kind carry).1 records).mono
      fun plain hplain => ⟨hplain, rfl⟩) fun plain hplain => ?_
  refine (shows_tally h.draws h.extra hequipped (Term.countP_remarks_withAdvantage ..)
    (hplain.rolledTerm e kind carry) _ _ _ _).bind fun t ⟨hne, lines, scaling, hitems, hscaled⟩ => ?_
  exact .of_pure ⟨⟨⟨hne, rfl⟩, _, lines, scaling, rfl, hitems, hscaled⟩, hequipped.whole⟩ rfl

theorem shows_copies (hs : s.term.Rollable) (n : Nat) :
    Shows F 0 (fun r => (r.1.map (·.draws)).sum) (fun r => ∀ o ∈ r.1, o.Scaled)
      (e.copies d deadline s kind carry n : Drawing σ (List Outcome × List String)) := by
  induction n generalizing carry with
  | zero => exact .of_pure (by simp) rfl
  | succ n ih =>
    refine (h.shows_strike hs).bind fun copy ⟨hcopy, _⟩ => ?_
    refine Shows.bind (s := (·.draws)) (P := fun o => o = copy.outcome) (.of_lift
      ((foretells_check hcopy.toItemised).mono fun o ho => ⟨ho, by rw [ho]⟩)) ?_
    rintro _ rfl
    refine (ih.shift copy.outcome.draws).bind fun r hr => .of_pure ?_ rfl
    exact List.forall_mem_cons.mpr ⟨hcopy, hr⟩

theorem shows_rollSegment (hs : s.term.Rollable) :
    Shows F 0 (·.1.draws) (fun r => ∀ o ∈ r.1.outcomes, o.Scaled)
      (e.rollSegment d deadline s kind carry : Drawing σ (Rolled × Carry)) := by
  refine (h.shows_strike hs).bind fun main ⟨hmain, hwhole⟩ => ?_
  have hcount : Foretells F (fun _ => True)
      (if kind.isAttack then extraCount main.modifiers else .ok 0) := by
    split
    · exact foretells_extraCount hwhole
    · trivial
  refine Shows.bind (s := fun _ => main.outcome.draws)
    (.of_lift (hcount.mono fun _ _ => ⟨trivial, rfl⟩)) fun n _ => ?_
  refine ((h.shows_copies hs n).shift main.outcome.draws).bind fun r hr => ?_
  refine Shows.bind (s := fun o => o.draws + (r.1.map (·.draws)).sum)
    (P := fun o => o = main.outcome) (.of_lift
      ((foretells_check hmain.toItemised).mono fun o ho => ⟨ho, by rw [ho]⟩)) ?_
  rintro _ rfl
  exact .of_pure (List.forall_mem_cons.mpr ⟨hmain, hr⟩) rfl

theorem shows_rollSegments {segments : List (Segment × RollType)}
    (hs : ∀ s ∈ segments, s.1.term.Rollable) :
    Shows F 0 (fun parts => (parts.map (·.draws)).sum)
      (fun parts => parts.length = segments.length ∧ ∀ p ∈ parts, ∀ o ∈ p.outcomes, o.Scaled)
      (e.rollSegments d deadline carry segments : Drawing σ (List Rolled)) := by
  induction segments generalizing carry with
  | nil => exact .of_pure ⟨rfl, by simp⟩ rfl
  | cons s segments ih =>
    obtain ⟨hfirst, hrest⟩ := List.forall_mem_cons.mp hs
    refine (h.shows_rollSegment hfirst).bind fun r hr => ?_
    refine ((ih hrest).shift r.1.draws).bind fun parts ⟨hlength, hparts⟩ => .of_pure ?_ rfl
    exact ⟨congrArg Nat.succ hlength, List.forall_mem_cons.mpr ⟨hr, hparts⟩⟩

end Ready

omit [Source σ] in
theorem shows_assemble {f : Formula} {parts : List Rolled} (hne : parts ≠ [])
    (hp : ∀ p ∈ parts, ∀ o ∈ p.outcomes, o.Scaled) :
    Shows F ((parts.map (·.draws)).sum) (·.draws)
      (fun r => ∀ elapsed, (r.timed elapsed).Itemised)
      (e.assemble d f parts : Drawing σ RollResult) := by
  match parts with
  | [] => exact absurd rfl hne
  | [only] =>
    obtain ⟨ho, hextras⟩ := List.forall_mem_cons.mp (hp only List.mem_cons_self)
    refine .of_pure (fun elapsed => ?_) rfl
    have ht : ((⟨only.outcome, only.extras, []⟩ : RollResult).timed elapsed).outcome.Scaled :=
      ho.timed ⟨elapsed, rfl⟩
    refine ⟨ht.toItemised, fun o ho => (hextras o ho).toItemised, fun p hmem => ?_, ?_⟩
    · obtain rfl := List.mem_singleton.mp hmem
      exact List.forall_mem_cons.mpr ⟨ht, hextras⟩
    · exact ⟨_, rfl, rfl, rfl⟩
  | first :: second :: rest =>
    refine (shows_fresh "res").bind fun id _ => .of_pure (fun elapsed => ?_) rfl
    have hlast : (first :: second :: rest).getLast? =
        some ((first :: second :: rest).getLastD first) := List.getLast?_cons
    have ho := (hp _ (List.mem_of_getLast? hlast) _ List.mem_cons_self).toItemised
    refine ⟨⟨ho.items, ho.total⟩, fun o hmem => ?_, hp, _, hlast, rfl, rfl⟩
    obtain ⟨p, hmem, hextra⟩ := List.mem_flatMap.mp hmem
    exact (hp p hmem o (List.mem_cons_of_mem _ hextra)).toItemised

theorem Ready.shows_roll (h : ∀ started, e.Ready σ F d (e.deadline? started)) {f : Formula}
    (hf : e.formulaOf d = .ok f) (hne : f.segments ≠ [])
    (hs : ∀ s ∈ f.segments, s.term.Rollable) :
    Shows F 0 (·.2.draws) (fun r => r.2.Itemised)
      (e.roll d : Drawing σ (Formula × RollResult)) := by
  have hsegments : ∀ s ∈ f.segments.zip (f.kinds d.kind), s.1.term.Rollable :=
    fun s hmem => hs s.1 (List.of_mem_zip hmem).1
  have hlength : (f.segments.zip (f.kinds d.kind)).length = f.segments.length := by
    rw [List.length_zip, Formula.kinds, length_segmentKinds, Nat.min_self]
  unfold roll
  refine shows_now.bind fun started _ => ?_
  rw [hf, lift_ok_bind]
  refine (((h started).shows_rollSegments hsegments).whenLate (e.lateRecord d f)).bind ?_
  rintro parts ⟨hcount, hparts⟩
  have hparts' : parts ≠ [] := by
    rintro rfl
    rw [hlength] at hcount
    exact hne (List.length_eq_zero_iff.mp hcount.symm)
  refine (shows_assemble hparts' hparts).bind fun r hr => ?_
  exact shows_now.bind fun ended _ => .of_pure (hr _) (r.draws_timed _)

/-- Whatever the draws, the dice of modifiers and the scaling, no other fault hinders a roll. -/
theorem ready_hinders (hx : ∀ t ∈ e.extraDice, t.Rollable) (d : Definition)
    (deadline : Option Float) : e.Ready σ (e.Hinders d) d deadline := by
  have hdraw (sides : Int) : DrawsWithin σ (e.Hinders d) deadline sides :=
    drawsWithin_of_ofDraw fun _ => .inl
  refine ⟨fun sides _ => hdraw sides, hx, fun kind carry => ⟨fun _ => fits_of_mem_activeIn,
    fun _ => whole_of_mem_activeIn, fun m hm t hk ht => ⟨hdraw _, fun hn => ?_⟩,
    fun _ _ h => .inr (.inl h)⟩⟩
  exact .inr (.inr ⟨rfl, kind, m, mem_of_mem_activate hm, t, hk, ht, hn⟩)

theorem shows_roll (hx : ∀ t ∈ e.extraDice, t.Rollable) {f : Formula} (hf : e.formulaOf d = .ok f)
    (hne : f.segments ≠ []) (hs : ∀ s ∈ f.segments, s.term.Rollable) :
    Shows (e.Hinders d) 0 (·.2.draws) (fun r => r.2.Itemised)
      (e.roll d : Drawing σ (Formula × RollResult)) :=
  Ready.shows_roll (fun started => ready_hinders hx d (e.deadline? started)) hf hne hs

theorem rollable_of_extraDice {rules : CriticalRules} {limits : Limits} {rulebook : Rulebook}
    {cap : Int} {patience : Float} (h : build rules limits rulebook cap patience = .ok e) :
    ∀ t ∈ e.extraDice, t.Rollable := by
  obtain ⟨extra, hextra, rfl⟩ := map_eq_ok_iff.mp h
  rintro t rfl
  unfold extraDice? at hextra
  split at hextra
  · split at hextra
    · cases hextra
    · obtain ⟨t', ht', he⟩ := map_eq_ok_iff.mp hextra
      obtain rfl := Option.some.inj he
      exact .of_denotes (Term.parse_eq_ok_iff.mp ht').2
  · cases hextra

/-- A roll whose notation is read is itemised, and its lines show every draw, unless a draw fails or
a total cannot be scaled, or a modifier's dice have a list of faces where one number is needed. -/
theorem itemised_of_execute {rules : CriticalRules} {limits limits' : Limits} {rulebook : Rulebook}
    {cap : Int} {patience : Float} (hb : build rules limits rulebook cap patience = .ok e)
    {f : Formula} {text : String} (hf : e.formulaOf d = .ok f)
    (hp : Formula.parse limits' text = .ok f) (table : Table σ) :
    match e.execute d table with
    | (.ok r, table') => r.Itemised ∧
        table'.tray.drawn.length = table.tray.drawn.length + r.draws
    | (.error fault, _) => e.Hinders d fault := by
  obtain ⟨hne, hread⟩ := Formula.readable_of_parse hp
  have hs : ∀ s ∈ f.segments, s.term.Rollable := fun s hmem => by
    obtain ⟨cs, hd⟩ := (hread s hmem).pool
    exact .of_denotes hd
  have hroll := shows_roll (σ := σ) (rollable_of_extraDice hb) hf hne hs table.tray
  split
  · next r table' he =>
    obtain ⟨g, tray, id, hr, hdrawn, _⟩ := roll_of_execute he
    rw [hr] at hroll
    rw [hdrawn]
    exact hroll
  · next fault table' he =>
    obtain ⟨tray, hr, _⟩ := roll_of_execute_eq_error he
    rw [hr] at hroll
    exact hroll

def wardedBlow : Definition where
  id := "blow"
  kind := .attack
  wording := .text "attack:1d20,damage:2d6r1-40"
  modifiers := [{
    id := "ward"
    name := "Ward"
    source := .condition
    kind := .divider
    amount := .whole 2
    appliesTo := some [.damage] }]

theorem itemised_wardedBlow : ∃ r table',
    execute {} wardedBlow (Table.opening [20, 1, 3, 2, 6, 5]) = (.ok r, table') ∧
    r.rolled.map (·.outcome.total) = [20, -12] ∧ r.draws = 6 ∧
    r.Itemised ∧ table'.tray.drawn.length = 0 + r.draws := by
  let table := Table.opening [20, 1, 3, 2, 6, 5]
  obtain ⟨f, hf, -⟩ := exists_eq_ok_of_any (p := fun _ => true)
    (show (Formula.parse {} "attack:1d20,damage:2d6r1-40").toOption.any _ = true by decide +kernel)
  obtain ⟨r, hr, htotals⟩ := exists_eq_ok_of_any (p := fun r : RollResult => decide
    (r.rolled.map (·.outcome.total) = [20, -12] ∧ r.draws = 6))
    (show (execute {} wardedBlow table).1.toOption.any _ = true by decide +kernel)
  obtain ⟨htotals, hdraws⟩ := of_decide_eq_true htotals
  have he : execute {} wardedBlow table = (.ok r, (execute {} wardedBlow table).2) := Prod.ext hr rfl
  have hbuilt : build {} {} (Rulebook.standard {} true true true) 100 5.0 = .ok {} := rfl
  have hread : Engine.formulaOf {} wardedBlow = .ok f := hf
  have hall := itemised_of_execute hbuilt hread hf table
  rw [he] at hall
  exact ⟨r, _, he, htotals, hdraws, hall⟩

end Strikes

theorem eq_wrongKind_of_ctorIdx {fault : Fault} (h : fault.ctorIdx = Fault.wrongKind.ctorIdx) :
    fault = .wrongKind := by
  cases fault <;> first | rfl | cases h

def listedTorch : Definition where
  id := "torch"
  wording := .text "1d20"
  modifiers := [{
    id := "torch"
    name := "Torch"
    source := .item
    kind := .dice
    amount := .dice ⟨"1d6kh1", ⟨1, 6, 0, [⟨.keepHighest, .many [1], false⟩]⟩⟩ }]

/-- The notation is read, every draw gives a face and nothing is scaled, but there is no result: the
modifier should be left out, or its one die be kept. -/
theorem not_made_listedTorch : (∃ f, Formula.parse {} "1d20" = .ok f) ∧
    ∃ fault table', execute {} listedTorch (Table.opening [10, 1]) = (.error fault, table') ∧
      ¬ fault.OfDraw ∧ ¬ fault.OfScaling := by
  obtain ⟨f, hf, -⟩ := exists_eq_ok_of_any (p := fun _ => true)
    (show (Formula.parse {} "1d20").toOption.any _ = true by decide +kernel)
  have hrun : (match (execute {} listedTorch (Table.opening [10, 1])).1 with
      | .error fault => some fault.ctorIdx
      | .ok _ => none) = some Fault.wrongKind.ctorIdx := by decide +kernel
  split at hrun
  · next fault he =>
    obtain rfl := eq_wrongKind_of_ctorIdx (Option.some.inj hrun)
    exact ⟨⟨f, hf⟩, .wrongKind, _, Prod.ext he rfl, by simp [Fault.OfDraw],
      by simp [Fault.OfScaling]⟩
  · cases hrun

end Engine

end DiceTower
