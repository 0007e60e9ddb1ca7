import DiceTower.Proofs.Engine.Foreseen
import DiceTower.Proofs.Engine.Recorded
import DiceTower.Proofs.Engine.Unfailing

/-! A roll of which one twenty-sided die counts, with a modifier that puts another face on it. Which
die counts and what it shows depends on the draws, and the lines of the outcome tell it; what the
outcome comes to does not depend on them. -/

namespace DiceTower

open DiceTower.Computation Drawing Number

/-- Outcomes that come to the same: the total, the natural roll, and whether it is a success. -/
structure Outcome.Concurs (o o' : Outcome) : Prop where
  total : o.total = o'.total
  natural : o.natural = o'.natural
  criticalSuccess : o.criticalSuccess = o'.criticalSuccess
  criticalFailure : o.criticalFailure = o'.criticalFailure
  success : o.success = o'.success

/-- Twenty-sided dice of which one is kept, and none explodes. -/
structure Pool.Lone (p : Pool) : Prop where
  sides : p.sides = 20
  fixed : ∀ op ∈ p.operations, op.kind ≠ .explode
  kept : sizeKept p.operations p.count.toNat = 1

def Roll.Lone (r : Roll) : Prop := ∃ d, r.kept = [d] ∧ d.exploded = false

section Dice

variable {σ : Type} [Source σ] {deadline : Option Float} {cap : Int} {kind : RollType}
  {ms : List Modifier}

theorem Pool.Lone.append {p : Pool} (h : p.Lone) {added : List Operation}
    (ha : Addable p.sides p.operations added) :
    Pool.Lone { p with operations := p.operations ++ added } := by
  refine ⟨h.sides, fun op hop => ?_, ?_⟩
  · rcases List.mem_append.mp hop with hop | hop
    · exact h.fixed op hop
    · exact (ha.faces op hop).kind_ne_explode
  · have hnone : added.any (·.kind.selects) = false :=
      List.any_eq_false.mpr fun op hop => by simp [(ha.faces op hop).not_selects]
    have happend : sizeKept (p.operations ++ added) p.count.toNat =
        sizeKept added (sizeKept p.operations p.count.toNat) := List.foldl_append
    rw [happend, h.kept, sizeKept_of_not_selects hnone]

theorem Term.gives_lone {t : Term} (h : t.pool.Lone) (hp : t.pool.Legible)
    (label : Option String) :
    Gives (t.roll deadline cap label : Drawing σ Roll) fun r => r.term = t ∧ r.Lone := by
  have hpos : ∀ op ∈ t.pool.operations, op.Positive := fun op hop => (hp.operations op hop).value
  obtain ⟨records, -, hroll⟩ :=
    Term.exists_roll_eq (σ := σ) hpos hp.compatible.bounds deadline cap label
  rw [hroll]
  refine t.pool.gives_grow.bind fun p ⟨hthrown, hgrown⟩ => .of_pure ⟨rfl, ?_⟩
  have hlength : p.dice.length = t.pool.count.toNat :=
    hgrown.same fun op hop => h.fixed op (List.mem_filter.mp hop).1
  have hcounted := hthrown.lying.counted.settled
    (fun op hop => hpos op (List.mem_filter.mp hop).1) fun op hop => (List.mem_filter.mp hop).2
  rw [sizeKept_filter_selects, hlength, h.kept] at hcounted
  have hone : (counting (t.pool.settle p.dice)).length = 1 := by
    have hsame := congrArg List.length (faces_map_within t.pool.operations
      (settled (t.pool.operations.filter (·.kind.selects)) p.dice))
    simp only [faces, List.length_map] at hsame
    exact hsame.trans hcounted.size
  obtain ⟨d, hd⟩ := List.length_eq_one_iff.mp hone
  refine ⟨d, hd, ?_⟩
  have hmem : d ∈ t.pool.settle p.dice :=
    (List.mem_filter.mp (hd ▸ List.mem_singleton_self d)).1
  have hexploded : d.exploded ∈ (t.pool.settle p.dice).map (·.exploded) := List.mem_map_of_mem hmem
  rw [t.pool.exploded_settle, hthrown.exploded, hlength, Nat.sub_self, List.replicate_zero,
    List.append_nil] at hexploded
  exact List.eq_of_mem_replicate hexploded

theorem Roll.kept_replaced (r : Roll) (index : Nat) (face : Int) :
    (r.replaced index face).kept = r.kept.map fun d =>
      if d.index = index then { d with value := face, natural := face } else d := by
  unfold kept replaced
  rw [List.filter_map]
  congr 2
  funext d
  simp only [Function.comp]
  split <;> rfl

/-- The face that a modifier puts in the place of the one die that counts is all that is left of the
dice. -/
theorem Roll.Lone.of_natural {r : Roll} (h : r.Lone) (hk : kind.isD20 = true)
    (hs : r.term.pool.sides = 20) {m : Modifier} (hm : ms.find? (·.kind = .replaceDie) = some m)
    {v : Int} (hv : m.amount = .whole v) {n : Natural} (hn : r.natural kind ms = .ok n) :
    n.face = some (min v 20) ∧ n.roll.total = min v 20 + r.term.pool.modifier ∧
      Item.counted n.remarks = 0 := by
  obtain ⟨d, hd, hexploded⟩ := h
  have hdeciding : r.deciding? kind = some d := by
    have hown : r.kept.filter (!·.exploded) = [d] := by
      rw [hd, List.filter_cons_of_pos (by simp [hexploded]), List.filter_nil]
    unfold deciding?
    rw [hown]
    exact if_pos ⟨hk, hs⟩
  unfold natural at hn
  rw [hdeciding, hm] at hn
  dsimp only at hn
  rw [hv] at hn
  cases hn
  refine ⟨rfl, ?_, rfl⟩
  unfold total
  rw [kept_replaced, hd, List.map_singleton, if_pos rfl, List.map_singleton, sum_cons, sum_nil,
    Int.add_zero]
  rfl

end Dice

section Tallies

def Modifier.numbers (m : Modifier) : Except Fault (List Item) :=
  if m.kind = .flat then m.amount.truncated.map fun n => [m.item n] else .ok []

def settledTotal (total : Int) (ms : List Modifier) : Except Fault Int := do
  let numbers ← ms.mapM (·.numbers)
  scaleTotal (total + Item.counted numbers.flatten) ms

def Engine.criticalFaces (e : Engine) (kind : RollType) (ms : List Modifier) :
    Except Fault (List Int) :=
  if kind.isAttack then criticalRange e.rules ms else .ok e.rules.range

/-- A tally of which a face decides everything that an outcome comes to. -/
structure Tally.DecidedBy (e : Engine) (kind : RollType) (ms : List Modifier) (face bonus : Int)
    (t : Tally) : Prop where
  natural : t.natural = some face
  total : settledTotal (face + bonus) ms = .ok (Item.counted t.items)
  faces : e.criticalFaces kind ms = .ok t.faces

variable {σ : Type} [Source σ] {e : Engine} {deadline : Option Float} {kind : RollType}
  {ms : List Modifier}

theorem Engine.gives_numbers {m : Modifier} (h : m.kind ≠ .dice) (critical : Bool) :
    Gives (e.modifierItems deadline critical m : Drawing σ (List Item)) fun items =>
      m.numbers = .ok items := by
  unfold modifierItems Modifier.numbers
  cases hk : m.kind
  case flat => exact (Gives.of_lift fun n hn => hn).bind fun n hn => .of_pure (by rw [hn]; rfl)
  case dice => exact absurd hk h
  all_goals exact .of_pure rfl

/-- Whatever was drawn, the face that a modifier puts on the one die that counts decides the tally. -/
theorem Engine.gives_decided_tally {t : Term} (hl : t.pool.Lone) (hp : t.pool.Legible)
    (hk : kind.isD20 = true) {m : Modifier} (hm : ms.find? (·.kind = .replaceDie) = some m) {v : Int}
    (hv : m.amount = .whole v) (hd : ∀ m ∈ ms, m.kind ≠ .dice) {remarks : List Item}
    (hr : Item.counted remarks = 0) (label : Option String) (critical : Bool) :
    Gives (e.tally deadline label kind ms remarks t critical false : Drawing σ Tally)
      (Tally.DecidedBy e kind ms (min v 20) t.pool.modifier) := by
  unfold tally
  refine (Term.gives_lone hl hp label).bind fun rolled ⟨hterm, hlone⟩ => ?_
  have hsides : rolled.term.pool.sides = 20 := by rw [hterm, hl.sides]
  refine (Gives.of_lift fun n hn => hlone.of_natural hk hsides hm hv hn).bind
    fun natural ⟨hface, htotal, hremarks⟩ => ?_
  refine (Gives.mapM fun m hmem => e.gives_numbers (hd m hmem) critical).bind
    fun numbers hnumbers => ?_
  rw [extraItems_of_not_due, pure_bind]
  refine (Gives.of_lift fun scaling h => h).bind fun scaling hscaling => ?_
  refine (Gives.of_lift fun faces h => h).bind fun faces hfaces => ?_
  refine (Gives.trivial _).bind fun id _ => .of_pure ⟨hface, ?_, hfaces⟩
  have hlines : Item.counted (natural.roll.items none ++ remarks ++ natural.remarks ++
      numbers.flatten ++ []) = min v 20 + t.pool.modifier + Item.counted numbers.flatten := by
    simp only [Item.counted_append, Roll.counted_items, htotal, hterm, hr, hremarks, counted_nil,
      Int.add_zero]
  have hscaled := scaleTotal_of_scaleLines hscaling
  rw [hlines] at hscaled
  rw [settledTotal, mapM_eq_ok_iff.mpr hnumbers, Item.counted_append, hlines]
  exact hscaled

theorem Tally.DecidedBy.concurs_struck {face bonus : Int} {t t' : Tally}
    (h : t.DecidedBy e kind ms face bonus) (h' : t'.DecidedBy e kind ms face bonus) (d : Definition)
    (s : Segment) (carry : Carry) (active : List Modifier × List String) (plain : Term) :
    (e.struck d s kind carry active plain t).outcome.Concurs
      (e.struck d s kind carry active plain t').outcome := by
  have hnatural : t.natural = t'.natural := h.natural.trans h'.natural.symm
  have htotal : Item.counted t.items = Item.counted t'.items :=
    Except.ok.inj (h.total.symm.trans h'.total)
  have hfaces : t.faces = t'.faces := Except.ok.inj (h.faces.symm.trans h'.faces)
  unfold Engine.struck
  rw [hnatural, htotal, hfaces]
  exact ⟨rfl, rfl, rfl, rfl, rfl⟩

end Tallies

section Runs

variable {e : Engine} {d : Definition} {limits : Limits} {text : String} {f : Formula} {s : Segment}
  {kind : RollType} {m : Modifier} (hparse : Formula.parse limits text = .ok f)
  (hf : e.formulaOf d = .ok f) (hs : f.segments = [s]) (hk : f.kinds d.kind = [kind])
  (hd20 : kind.isD20 = true)
  (hlone : (s.term.withAdvantage kind (e.activeIn d kind {}).1).term.pool.Lone)
  (hm : (e.activeIn d kind {}).1.find? (·.kind = .replaceDie) = some m)
  (hdice : ∀ m ∈ (e.activeIn d kind {}).1, m.kind ≠ .dice)

namespace Engine

include hparse hf hs hk hd20 hlone hm hdice

/-- The outcome of one run: its dice are settled before any draw, and the face decides the tally. -/
theorem exists_decided_of_execute {v : Int} (hv : m.amount = .whole v) {σ : Type} [Source σ]
    {r : RollResult} {table table' : Table σ} (h : e.execute d table = (.ok r, table')) :
    ∃ plain t,
      (∀ records, ((s.term.withAdvantage kind (e.activeIn d kind {}).1).term.withOperations
        (e.activeIn d kind {}).1 records).1 = .ok plain) ∧
      t.DecidedBy e kind (e.activeIn d kind {}).1 (min v 20) plain.pool.modifier ∧
      (e.struck d s kind {} (e.activeIn d kind {}) plain t).outcome.Timed r.outcome := by
  obtain ⟨-, deadline, rolled, after, hroll, htimed, -⟩ :=
    exists_only_rollSegment_of_execute h hf hs hk
  obtain ⟨st, n, used, source₁, hst, -, -, hmain, -⟩ := strike_copies_of_rollSegment hroll
  obtain ⟨plain, t, hplain, ht, rfl⟩ := struck_of_strike hst
  have hfits : ∀ m ∈ (e.activeIn d kind {}).1, m.Fits := fun _ => fits_of_mem_activeIn
  obtain ⟨cs, hread⟩ :=
    ((Formula.readable_of_parse hparse).2 s (by rw [hs]; exact List.mem_singleton_self s)).pool
  have hfavoured := Term.legible_withAdvantage (Pool.legible_of_denotes hread) kind
    (e.activeIn d kind {}).1
  have hlegible := Term.gives_legible_withOperations hfits hfavoured [] plain _
    (Prod.ext (hplain []) rfl)
  obtain ⟨added, hadded, hpool⟩ := Term.gives_addable_withOperations hfits hfavoured.single
    hfavoured.compatible.bounds [] plain _ (Prod.ext (hplain []) rfl)
  have hown : plain.pool.Lone := by
    rw [hpool]
    exact hlone.append hadded
  have hharmless := RollType.not_isDamage_of_isD20 hd20
  rw [rolledTerm_of_not_isDamage hharmless, extraDue_of_not_isDamage hharmless] at ht
  refine ⟨plain, t, hplain, ht.of_gives ?_, hmain ▸ htimed⟩
  exact gives_decided_tally hown hlegible hd20 hm hv hdice
    (Term.counted_remarks_withAdvantage ..) s.label _

/-- Where a roll has one segment, of a type that is rolled with a twenty-sided die, one die is kept of
it and a modifier replaces its face, all runs that are made come to the same, whatever their sources
show: what is drawn, rerolled, left out or bounded does not count. The natural roll is the face that
the first such modifier gives, twenty at most. -/
theorem concurs_of_execute {σ σ' : Type} [Source σ] [Source σ'] {r r' : RollResult}
    {table table₁ : Table σ} {table' table₁' : Table σ'} (h : e.execute d table = (.ok r, table₁))
    (h' : e.execute d table' = (.ok r', table₁')) :
    r.outcome.Concurs r'.outcome ∧
      ∃ v, m.amount = .whole v ∧ r.outcome.natural = some (min v 20) := by
  have hkind : m.kind = .replaceDie := by simpa using List.find?_some hm
  obtain ⟨v, hv⟩ := whole_of_mem_activeIn (List.mem_of_find?_eq_some hm) (.inr (.inr hkind))
  obtain ⟨plain, t, hplain, ht, elapsed, hr⟩ :=
    exists_decided_of_execute hparse hf hs hk hd20 hlone hm hdice hv h
  obtain ⟨plain', t', hplain', ht', elapsed', hr'⟩ :=
    exists_decided_of_execute hparse hf hs hk hd20 hlone hm hdice hv h'
  obtain rfl := Except.ok.inj ((hplain []).symm.trans (hplain' []))
  have hsame := ht.concurs_struck ht' d s {} (e.activeIn d kind {}) plain
  rw [hr, hr']
  exact ⟨⟨hsame.total, hsame.natural, hsame.criticalSuccess, hsame.criticalFailure, hsame.success⟩,
    v, hv, ht.natural⟩

end Engine

end Runs

namespace Engine

def fates : List Modifier := [
  { id := "aim", name := "Aim", source := .feat, kind := .advantage },
  { id := "fate", name := "Fate", source := .spell, kind := .replaceDie, amount := .whole 25 },
  { id := "luck", name := "Luck", source := .item, kind := .minimum, amount := .whole 5 },
  { id := "might", name := "Might", source := .item, kind := .flat, amount := .whole 4 }]

def fatedBlow : Definition where
  id := "blow"
  kind := .attack
  wording := .text "1d20r1+2"
  modifiers := fates
  withCharacter := false

def fatedFormula : Formula :=
  ⟨"1d20r1+2", [⟨none, ⟨"1d20r1+2", ⟨1, 20, 2, [⟨.reroll, .one 1, false⟩]⟩⟩⟩]⟩

def patientEngine : Engine := { patience := 0.0 }

theorem parse_fatedFormula : Formula.parse {} "1d20r1+2" = .ok fatedFormula :=
  eq_ok_of_toOption (by decide +kernel)

theorem formulaOf_fatedBlow : patientEngine.formulaOf fatedBlow = .ok fatedFormula :=
  parse_fatedFormula

theorem activeIn_fatedBlow : (activeIn patientEngine fatedBlow .attack {}).1 = fates := by
  have hstandard : patientEngine.rulebook.IsStandard := ⟨{}, true, true, true, rfl⟩
  have happlicable : patientEngine.rulebook.applicable {} fates = fates := rfl
  have hsorted : Modifier.collapse fates = fates := Modifier.collapse_eq_self rfl (by decide)
  have hresolve : patientEngine.rulebook.resolve {} .attack fates false = fates := by
    rw [Rulebook.resolve, Rulebook.offered_of_nothing_known hstandard, List.nil_append,
      happlicable, hsorted]
  show (activate .attack false false [] (patientEngine.rulebook.resolve {} .attack fates false)).1 =
    fates
  rw [hresolve]
  rfl

theorem exists_execute_fatedBlow (table : Table StdGen) :
    ∃ r table', patientEngine.execute fatedBlow table = (.ok r, table') := by
  have hrules : patientEngine.rulebook.Harmless := .of_isStandard ⟨{}, true, true, true, rfl⟩
  have hharmless : ∀ m ∈ fates, m.Harmless := by
    simp only [fates, List.forall_mem_cons, List.not_mem_nil, false_implies, implies_true, and_true]
    refine ⟨?_, ?_, ?_, ?_⟩ <;> exact ⟨rfl, nofun⟩
  exact exists_execute_of_fair (fun t ht => by cases ht) (by decide +kernel) hrules
    (fun _ _ _ => rfl) hharmless formulaOf_fatedBlow parse_fatedFormula fair_stdGen table

/-- Two generators, each with a seed of its own. -/
theorem concurs_fatedBlow : ∃ m r r' table table',
    (activeIn patientEngine fatedBlow .attack {}).1.find? (·.kind = .replaceDie) = some m ∧
    patientEngine.execute fatedBlow
      { tray := { source := seeded 7 }, history := { limit := 50 } } = (.ok r, table) ∧
    patientEngine.execute fatedBlow
      { tray := { source := seeded 8 }, history := { limit := 50 } } = (.ok r', table') ∧
    r.outcome.Concurs r'.outcome ∧
    ∃ v, m.amount = .whole v ∧ r.outcome.natural = some (min v 20) := by
  have hlone : (Term.withAdvantage .attack (activeIn patientEngine fatedBlow .attack {}).1
      ⟨"1d20r1+2", ⟨1, 20, 2, [⟨.reroll, .one 1, false⟩]⟩⟩).term.pool.Lone := by
    rw [activeIn_fatedBlow]
    exact ⟨rfl, by decide, rfl⟩
  obtain ⟨m, hm⟩ : ∃ m,
      (activeIn patientEngine fatedBlow .attack {}).1.find? (·.kind = .replaceDie) = some m := by
    rw [activeIn_fatedBlow]
    exact ⟨_, rfl⟩
  have hdice : ∀ m ∈ (activeIn patientEngine fatedBlow .attack {}).1, m.kind ≠ .dice := by
    rw [activeIn_fatedBlow]
    decide
  obtain ⟨r, table, hr⟩ := exists_execute_fatedBlow
    { tray := { source := seeded 7 }, history := { limit := 50 } }
  obtain ⟨r', table', hr'⟩ := exists_execute_fatedBlow
    { tray := { source := seeded 8 }, history := { limit := 50 } }
  exact ⟨m, r, r', table, table', hm, hr, hr',
    concurs_of_execute parse_fatedFormula formulaOf_fatedBlow rfl rfl rfl hlone hm hdice hr hr'⟩

end Engine

end DiceTower
