import DiceTower.Proofs.Engine.CriticalCarry

/-! Modifiers that apply once. What a roll has used up of them is what was offered so far by its
segments and by the further copies of its attacks; another roll begins with nothing used up. -/

namespace DiceTower

open DiceTower.Computation Drawing

/-- A segment as it was rolled once. A further copy is one that modifiers give to an attack. -/
structure Copy where
  segment : Segment
  kind : RollType
  further : Bool
  outcome : Outcome

structure Turn extends Copy where
  active : List Modifier

def Passage.copies (p : Passage) : List Copy :=
  ⟨p.segment, p.kind, false, p.rolled.outcome⟩ ::
    p.rolled.extras.map (⟨p.segment, p.kind, true, ·⟩)

def Modifier.isOnceOf (id : String) (m : Modifier) : Bool := m.isOnce && m.id == id

/-- Whether one of some modifiers has the chance to be used up under a name. -/
def chance (kind : RollType) (missed : Bool) (ms : List Modifier) (id : String) : Bool :=
  !(kind.isDamage && missed) && ms.any fun m => m.isOnceOf id && m.appliesToType kind

section Activation

variable {kind : RollType} {critical missed : Bool} {used : List String} {ms : List Modifier}
  {id : String}

theorem Modifier.suits_of_isOnce {m : Modifier} (h : m.isOnce = true) :
    m.suits kind critical = m.appliesToType kind := by
  have hdamage : (m.timing != .onDamage) = true := by
    cases ht : m.timing <;> simp_all [isOnce, Timing.isOnce]
  have hcritical : (m.timing != .onCritical) = true := by
    cases ht : m.timing <;> simp_all [isOnce, Timing.isOnce]
  simp [suits, hdamage, hcritical]

theorem used_activate_critical (critical critical' : Bool) :
    (activate kind critical missed used ms).2 = (activate kind critical' missed used ms).2 := by
  induction ms generalizing used with
  | nil => rfl
  | cons m ms ih =>
    by_cases ho : m.isOnce = true
    · unfold activate
      rw [Modifier.suits_of_isOnce ho, Modifier.suits_of_isOnce ho, if_pos ho, if_pos ho]
      split
      · exact ih
      · split
        · exact ih
        · exact ih
    · have hrest (critical : Bool) : (activate kind critical missed used (m :: ms)).2 =
          (activate kind critical missed used ms).2 := by
        cases hs : m.suits kind critical <;> simp [activate, hs, ho]
      rw [hrest, hrest, ih]

theorem activate_eq_filter : (activate kind false missed used ms).1 =
    (activate kind true missed used ms).1.filter (·.timing != .onCritical) := by
  induction ms generalizing used with
  | nil => rfl
  | cons m ms ih =>
    by_cases ht : m.timing = .onCritical
    · have hfalse : m.suits kind false = false := by simp [Modifier.suits, ht]
      have ho : m.isOnce = false := by rw [Modifier.isOnce, ht]; rfl
      cases hs : m.suits kind true with
      | false => simp [activate, hfalse, hs, ih]
      | true => simp [activate, hfalse, hs, ho, ih, ht]
    · have hsame : m.suits kind false = m.suits kind true := by simp [Modifier.suits, ht]
      unfold activate
      rw [hsame]
      split
      · exact ih
      · split
        · split
          · exact ih
          · simp [ih, ht]
        · simp [ih, ht]

theorem chance_cons {m : Modifier} : chance kind missed (m :: ms) id =
    (!(kind.isDamage && missed) && (m.isOnceOf id && m.appliesToType kind) ||
      chance kind missed ms id) := by
  simp [chance, Bool.and_or_distrib_left]

theorem chance_cons_of_not_isOnceOf {m : Modifier} (h : m.isOnceOf id = false) :
    chance kind missed (m :: ms) id = chance kind missed ms id := by
  simp [chance_cons, h]

theorem chance_cons_of_not_suits {m : Modifier} (h : m.suits kind critical = false) :
    chance kind missed (m :: ms) id = chance kind missed ms id := by
  by_cases ho : m.isOnce = true
  · have happly : m.appliesToType kind = false := Modifier.suits_of_isOnce ho ▸ h
    simp [chance_cons, happly]
  · exact chance_cons_of_not_isOnceOf (by simp [Modifier.isOnceOf, ho])

theorem activate_cons {m : Modifier} :
    m.suits kind critical = true ∧ m.isOnce = false ∧
        activate kind critical missed used (m :: ms) =
          (m :: (activate kind critical missed used ms).1,
            (activate kind critical missed used ms).2) ∨
      m.suits kind critical = true ∧ m.isOnce = true ∧ m.id ∉ used ∧
        (kind.isDamage && missed) = false ∧ activate kind critical missed used (m :: ms) =
          (m :: (activate kind critical missed (m.id :: used) ms).1,
            (activate kind critical missed (m.id :: used) ms).2) ∨
      (m.suits kind critical = false ∨
        m.isOnce = true ∧ (m.id ∈ used ∨ (kind.isDamage && missed) = true)) ∧
        activate kind critical missed used (m :: ms) = activate kind critical missed used ms := by
  by_cases hs : m.suits kind critical = true
  · by_cases ho : m.isOnce = true
    · by_cases hu : m.id ∈ used
      · exact .inr (.inr ⟨.inr ⟨ho, .inl hu⟩, by simp [activate, hs, ho, hu]⟩)
      · cases hm : (kind.isDamage && missed) with
        | false => exact .inr (.inl ⟨hs, ho, hu, rfl, by simp [activate, hs, ho, hu, hm]⟩)
        | true => exact .inr (.inr ⟨.inr ⟨ho, .inr rfl⟩, by simp [activate, hs, ho, hm]⟩)
    · exact .inl ⟨hs, by simpa using ho, by simp [activate, hs, ho]⟩
  · exact .inr (.inr ⟨.inl (by simpa using hs), by simp [activate, hs]⟩)

theorem chance_cons_of_left_out {m : Modifier} (hid : id ∉ used)
    (h : m.suits kind critical = false ∨
      m.isOnce = true ∧ (m.id ∈ used ∨ (kind.isDamage && missed) = true)) :
    chance kind missed (m :: ms) id = chance kind missed ms id := by
  obtain hs | ⟨_, hu | hm⟩ := h
  · exact chance_cons_of_not_suits hs
  · have hne : m.id ≠ id := fun he => hid (he ▸ hu)
    exact chance_cons_of_not_isOnceOf (by simp [Modifier.isOnceOf, hne])
  · simp [chance, hm]

/-- The names that are used up after a segment: those before it, and those that had their chance. -/
theorem mem_used_activate_iff : id ∈ (activate kind critical missed used ms).2 ↔
    id ∈ used ∨ chance kind missed ms id = true := by
  induction ms generalizing used with
  | nil => simp [activate, chance]
  | cons m ms ih =>
    obtain ⟨_, ho, h⟩ | ⟨hs, ho, _, hm, h⟩ | ⟨hout, h⟩ :=
      @activate_cons kind critical missed used ms m
    · have hof : m.isOnceOf id = false := by simp [Modifier.isOnceOf, ho]
      rw [h, ih, chance_cons_of_not_isOnceOf hof]
    · have happly : m.appliesToType kind = true := Modifier.suits_of_isOnce ho ▸ hs
      rw [h, ih, List.mem_cons, chance_cons, hm, happly]
      by_cases hid : m.id = id
      · simp [Modifier.isOnceOf, ho, hid]
      · simp [Modifier.isOnceOf, hid, Ne.symm hid]
    · rw [h, ih]
      by_cases hid : id ∈ used
      · simp [hid]
      · rw [chance_cons_of_left_out hid hout]

/-- Of the modifiers of one name that apply once, one is active where they have their chance and the
name is not used up, and none elsewhere. -/
theorem countP_activate : (activate kind critical missed used ms).1.countP (·.isOnceOf id) =
    if id ∉ used ∧ chance kind missed ms id = true then 1 else 0 := by
  induction ms generalizing used with
  | nil => simp [activate, chance]
  | cons m ms ih =>
    obtain ⟨_, ho, h⟩ | ⟨hs, ho, hu, hm, h⟩ | ⟨hout, h⟩ :=
      @activate_cons kind critical missed used ms m
    · have hof : m.isOnceOf id = false := by simp [Modifier.isOnceOf, ho]
      rw [h, List.countP_cons_of_neg (by simp [hof]), ih, chance_cons_of_not_isOnceOf hof]
    · have happly : m.appliesToType kind = true := Modifier.suits_of_isOnce ho ▸ hs
      rw [h]
      by_cases hid : m.id = id
      · have hof : m.isOnceOf id = true := by simp [Modifier.isOnceOf, ho, hid]
        rw [List.countP_cons_of_pos hof, ih, chance_cons, hm, hof, happly]
        simp [← hid, hu]
      · have hof : m.isOnceOf id = false := by simp [Modifier.isOnceOf, hid]
        rw [List.countP_cons_of_neg (by simp [hof]), ih, chance_cons_of_not_isOnceOf hof]
        simp [Ne.symm hid]
    · rw [h, ih]
      by_cases hid : id ∈ used
      · simp [hid]
      · rw [chance_cons_of_left_out hid hout]

theorem countP_activate_le_one :
    (activate kind critical missed used ms).1.countP (·.isOnceOf id) ≤ 1 := by
  rw [countP_activate]
  split <;> omega

theorem exists_mem_activate_iff :
    (∃ m ∈ (activate kind critical missed used ms).1, m.isOnceOf id = true) ↔
      id ∉ used ∧ chance kind missed ms id = true := by
  rw [← List.countP_pos_iff, countP_activate]
  split <;> simp [*]

end Activation

section Turns

variable (before : List Turn)

/-- Whether the last attack failed; its further copies do not count. -/
def lastMissed : Bool :=
  (before.reverse.find? fun t => t.kind.isAttack && !t.further).any
    (·.outcome.success == some false)

/-- Whether a turn offers a name: some modifier of that name that applies once is resolved for the
turn and applies to its type, and it is no damage of an attack that failed. -/
def Engine.offers (e : Engine) (d : Definition) (t : Turn) (id : String) : Bool :=
  chance t.kind (lastMissed before)
    (e.rulebook.resolve d.context t.kind d.modifiers d.withCharacter) id

def Engine.Offered (e : Engine) (d : Definition) (id : String) : Prop :=
  ∃ earlier t later, before = earlier ++ t :: later ∧ e.offers earlier d t id = true

/-- Modifiers of a name that apply once, over the turns of a roll. -/
structure Engine.SpendsOnce (e : Engine) (d : Definition) (turns : List Turn) (id : String) :
    Prop where
  /-- No more than one of them is active, in one turn. -/
  once : (turns.flatMap (·.active)).countP (·.isOnceOf id) ≤ 1
  /-- One is active in the first turn that offers the name, and in no other. -/
  first : ∀ before t after, turns = before ++ t :: after →
    ((∃ m ∈ t.active, m.isOnceOf id = true) ↔
      e.offers before d t id = true ∧ ¬ e.Offered before d id)
  /-- None is active in damage of an attack that failed. -/
  missed : ∀ before t after, turns = before ++ t :: after → t.kind.isDamage = true →
    lastMissed before = true → ∀ m ∈ t.active, m.isOnceOf id = false

end Turns

section Run

variable {σ : Type} [Source σ]

def Carry.past (further : Bool) (carry after : Carry) : Carry :=
  if further then { carry with used := after.used } else after

def Engine.Takes (e : Engine) (d : Definition) (deadline : Option Float) :
    Carry → σ → List Turn → Carry → σ → Prop
  | carry, source, [], carry', source' => carry' = carry ∧ source' = source
  | carry, source, t :: turns, carry', source' => ∃ st source₁,
      Comes (e.strike d deadline t.segment t.kind carry) source st source₁ ∧
      st.modifiers = t.active ∧ st.outcome.Timed t.outcome ∧
      e.Takes d deadline (carry.past t.further st.carry) source₁ turns carry' source'

end Run

section Remembering

variable {e : Engine} {d : Definition} {before : List Turn} {t : Turn} {carry : Carry} {id : String}

theorem lastMissed_append_singleton : lastMissed (before ++ [t]) =
    if t.kind.isAttack && !t.further then t.outcome.success == some false
    else lastMissed before := by
  unfold lastMissed
  rw [List.reverse_append, List.reverse_singleton, List.singleton_append, List.find?_cons]
  cases t.kind.isAttack && !t.further <;> rfl

namespace Engine

theorem not_offered_nil : ¬ e.Offered [] d id := by
  rintro ⟨earlier, t, later, h, _⟩
  simp at h

theorem offered_append_singleton : e.Offered (before ++ [t]) d id ↔
    e.Offered before d id ∨ e.offers before d t id = true := by
  constructor
  · rintro ⟨earlier, u, later, h, ho⟩
    rcases List.eq_nil_or_concat' later with rfl | ⟨later, v, rfl⟩
    · obtain ⟨rfl, hu⟩ := List.append_inj' h rfl
      cases hu
      exact .inr ho
    · rw [← List.cons_append, ← List.append_assoc] at h
      exact .inl ⟨earlier, u, later, (List.append_inj' h rfl).1, ho⟩
  · rintro (⟨earlier, u, later, rfl, ho⟩ | ho)
    · exact ⟨earlier, u, later ++ [t], by simp, ho⟩
    · exact ⟨before, t, [], rfl, ho⟩

end Engine

section Struck

variable {s : Segment} {kind : RollType} {active : List Modifier × List String} {plain : Term}
  {tally : Tally}

theorem Engine.used_struck : (e.struck d s kind carry active plain tally).carry.used = active.2 := by
  unfold struck carryAfter
  dsimp only
  split <;> rfl

theorem Engine.missed_struck : (e.struck d s kind carry active plain tally).carry.missed =
    if kind.isAttack then
      (e.struck d s kind carry active plain tally).outcome.success == some false
    else carry.missed := by
  unfold struck carryAfter
  dsimp only
  split <;> rfl

theorem Carry.used_past (further : Bool) (carry after : Carry) :
    (carry.past further after).used = after.used := by
  cases further <;> rfl

theorem Carry.missed_past (further : Bool) (carry after : Carry) :
    (carry.past further after).missed = if further then carry.missed else after.missed := by
  cases further <;> rfl

end Struck

/-- What is carried along tells which names were offered, and whether the last attack failed. -/
structure Carry.Remembers (e : Engine) (d : Definition) (before : List Turn) (carry : Carry) :
    Prop where
  used : ∀ id, id ∈ carry.used ↔ e.Offered before d id
  missed : carry.missed = lastMissed before

theorem Carry.remembers_start : Carry.Remembers e d [] {} :=
  ⟨fun _ => ⟨nofun, fun h => absurd h Engine.not_offered_nil⟩, rfl⟩

variable {σ : Type} [Source σ] {deadline : Option Float} {source source' : σ}

theorem Carry.Remembers.strike (h : carry.Remembers e d before) {st : Strike}
    (hst : Comes (e.strike d deadline t.segment t.kind carry) source st source')
    (ha : st.modifiers = t.active) (ho : st.outcome.Timed t.outcome) :
    (∀ id, t.active.countP (·.isOnceOf id) ≤ 1 ∧ ((∃ m ∈ t.active, m.isOnceOf id = true) ↔
      e.offers before d t id = true ∧ ¬ e.Offered before d id)) ∧
    (carry.past t.further st.carry).Remembers e d (before ++ [t]) := by
  obtain ⟨plain, tally, _, _, rfl⟩ := Engine.struck_of_strike hst
  obtain ⟨elapsed, ho⟩ := ho
  have hactive : t.active = (e.activeIn d t.kind carry).1 := ha.symm
  have hused (id : String) : id ∈ (e.activeIn d t.kind carry).2 ↔
      e.Offered (before ++ [t]) d id := by
    rw [Engine.activeIn, mem_used_activate_iff, h.used, h.missed, Engine.offered_append_singleton]
    rfl
  refine ⟨fun id => ?_, fun id => ?_, ?_⟩
  · rw [hactive, Engine.activeIn]
    refine ⟨countP_activate_le_one, ?_⟩
    rw [exists_mem_activate_iff, h.used, h.missed, and_comm]
    rfl
  · rw [used_past, Engine.used_struck, hused]
  · rw [lastMissed_append_singleton, missed_past, Engine.missed_struck, ho, h.missed]
    cases t.further <;> cases t.kind.isAttack <;> rfl

/-- Over a run of turns each name is used up where it is first offered, and what was offered is
remembered after it. -/
theorem Carry.Remembers.takes {turns : List Turn} {carry' : Carry} (h : carry.Remembers e d before)
    (ht : e.Takes d deadline carry source turns carry' source') :
    (∀ earlier t later, turns = earlier ++ t :: later → ∀ id,
      t.active.countP (·.isOnceOf id) ≤ 1 ∧ ((∃ m ∈ t.active, m.isOnceOf id = true) ↔
        e.offers (before ++ earlier) d t id = true ∧ ¬ e.Offered (before ++ earlier) d id)) ∧
    carry'.Remembers e d (before ++ turns) := by
  induction turns generalizing before carry source with
  | nil =>
    obtain ⟨rfl, _⟩ := ht
    refine ⟨fun earlier t later he => by simp at he, ?_⟩
    rwa [List.append_nil]
  | cons t turns ih =>
    obtain ⟨st, source₁, hst, ha, ho, ht⟩ := ht
    obtain ⟨hfirst, hpast⟩ := h.strike hst ha ho
    obtain ⟨hlater, hend⟩ := ih hpast ht
    rw [List.append_assoc, List.singleton_append] at hend
    refine ⟨fun earlier u later he => ?_, hend⟩
    cases earlier with
    | nil =>
      obtain ⟨rfl, rfl⟩ := List.cons.inj he
      rwa [List.append_nil]
    | cons v earlier =>
      obtain ⟨rfl, hrest⟩ := List.cons.inj he
      have hu := hlater earlier u later hrest
      rwa [List.append_assoc, List.singleton_append] at hu

theorem countP_active_le_one {turns : List Turn}
    (h : ∀ before t after, turns = before ++ t :: after → t.active.countP (·.isOnceOf id) ≤ 1 ∧
      ((∃ m ∈ t.active, m.isOnceOf id = true) ↔
        e.offers before d t id = true ∧ ¬ e.Offered before d id)) :
    (turns.flatMap (·.active)).countP (·.isOnceOf id) ≤ 1 ∧
      (0 < (turns.flatMap (·.active)).countP (·.isOnceOf id) → e.Offered turns d id) := by
  -- on the turns from the end, since what is active in one depends on those before it
  induction turns using List.reverseRecOn with
  | nil => simp
  | append_singleton before t ih =>
    have hbefore := ih fun earlier u later he => h earlier u (later ++ [t]) (by simp [he])
    obtain ⟨hle, hpos⟩ := hbefore
    obtain ⟨hone, hmem⟩ := h before t [] rfl
    have hspent : 0 < t.active.countP (·.isOnceOf id) ↔
        e.offers before d t id = true ∧ ¬ e.Offered before d id :=
      List.countP_pos_iff.trans hmem
    rw [List.flatMap_append, List.flatMap_singleton, List.countP_append,
      Engine.offered_append_singleton]
    constructor
    · by_contra hlt
      have hoffered := hpos (by omega)
      exact absurd hoffered (hspent.mp (by omega)).2
    · intro hsum
      by_cases hb : 0 < (before.flatMap (·.active)).countP (·.isOnceOf id)
      · exact .inl (hpos hb)
      · exact .inr (hspent.mp (by omega)).1

theorem spendsOnce_of_takes {turns : List Turn} {carry' : Carry}
    (ht : e.Takes d deadline {} source turns carry' source') (id : String) :
    e.SpendsOnce d turns id := by
  have hturn (before : List Turn) (t : Turn) (after : List Turn)
      (he : turns = before ++ t :: after) := (Carry.remembers_start.takes ht).1 before t after he id
  have hfirst (before : List Turn) (t : Turn) (after : List Turn)
      (he : turns = before ++ t :: after) := (hturn before t after he).2
  refine ⟨(countP_active_le_one hturn).1, hfirst, fun before t after he hk hmissed => ?_⟩
  have hnone : e.offers before d t id = false := by simp [Engine.offers, chance, hk, hmissed]
  have hnot : ¬ ∃ m ∈ t.active, m.isOnceOf id = true := fun h => by
    simpa [hnone] using ((hfirst before t after he).mp h).1
  simpa using hnot

end Remembering

section Runs

variable {σ : Type} [Source σ] {e : Engine} {d : Definition} {deadline : Option Float}
  {s : Segment} {kind : RollType} {carry carry₁ carry₂ : Carry} {source source₁ source₂ : σ}

namespace Engine

theorem Takes.append {turns more : List Turn}
    (h : e.Takes d deadline carry source turns carry₁ source₁)
    (hm : e.Takes d deadline carry₁ source₁ more carry₂ source₂) :
    e.Takes d deadline carry source (turns ++ more) carry₂ source₂ := by
  induction turns generalizing carry source with
  | nil =>
    obtain ⟨rfl, rfl⟩ := h
    exact hm
  | cons t turns ih =>
    obtain ⟨st, source', hst, ha, ho, h⟩ := h
    exact ⟨st, source', hst, ha, ho, ih h⟩

theorem takes_copies {n : Nat} {outcomes : List Outcome} {used : List String}
    (h : Comes (e.copies d deadline s kind carry n) source (outcomes, used) source₁) :
    ∃ turns : List Turn, turns.map (·.toCopy) = outcomes.map (⟨s, kind, true, ·⟩) ∧
      e.Takes d deadline carry source turns { carry with used } source₁ := by
  induction n generalizing carry source outcomes with
  | zero =>
    obtain ⟨he, rfl⟩ := comes_pure_iff.mp h
    cases he
    exact ⟨[], rfl, rfl, rfl⟩
  | succ n ih =>
    obtain ⟨copy, source', hcopy, h⟩ := Comes.of_bind h
    obtain ⟨outcome, _, hcheck, h⟩ := h.of_bind
    obtain ⟨⟨rest, left⟩, _, hrest, h⟩ := h.of_bind
    obtain ⟨he, rfl⟩ := comes_pure_iff.mp h
    obtain ⟨hchecked, rfl⟩ := hcheck.of_lift
    obtain ⟨rfl, _⟩ := Outcome.check_eq_ok_iff.mp hchecked
    cases he
    obtain ⟨turns, hturns, htakes⟩ := ih hrest
    refine ⟨⟨⟨s, kind, true, copy.outcome⟩, copy.modifiers⟩ :: turns, ?_, ?_⟩
    · rw [List.map_cons, hturns, List.map_cons]
    · exact ⟨copy, _, hcopy, rfl, copy.outcome.timed_refl, htakes⟩

theorem takes_rollSegment {rolled rolled' : Rolled}
    (h : Comes (e.rollSegment d deadline s kind carry) source (rolled, carry₁) source₁)
    (hr : rolled.Timed rolled') :
    ∃ turns : List Turn, turns.map (·.toCopy) = Passage.copies ⟨s, kind, rolled'⟩ ∧
      e.Takes d deadline carry source turns carry₁ source₁ := by
  obtain ⟨st, n, used, source', hst, _, hextras, hmain, rfl⟩ := strike_copies_of_rollSegment h
  obtain ⟨ho, hx⟩ := hr
  rw [hmain] at ho
  obtain ⟨turns, hturns, htakes⟩ := takes_copies hextras
  refine ⟨⟨⟨s, kind, false, rolled'.outcome⟩, st.modifiers⟩ :: turns, ?_, ?_⟩
  · rw [List.map_cons, hturns, hx]
    rfl
  · exact ⟨st, source', hst, rfl, ho, htakes⟩

theorem takes_rollSegments {segments : List (Segment × RollType)} {parts rolled : List Rolled}
    (h : Comes (e.rollSegments d deadline carry segments) source parts source₁)
    (hr : List.Forall₂ Rolled.Timed parts rolled) :
    rolled.length = segments.length ∧ ∃ (turns : List Turn) (carry₁ : Carry),
      turns.map (·.toCopy) = (passages segments rolled).flatMap Passage.copies ∧
      e.Takes d deadline carry source turns carry₁ source₁ := by
  induction segments generalizing carry source parts rolled with
  | nil =>
    obtain ⟨rfl, rfl⟩ := comes_pure_iff.mp h
    cases hr
    exact ⟨rfl, [], carry, rfl, rfl, rfl⟩
  | cons segment segments ih =>
    obtain ⟨s, kind⟩ := segment
    obtain ⟨⟨part, carry'⟩, _, hpart, h⟩ := Comes.of_bind h
    obtain ⟨rest, _, hrest, h⟩ := h.of_bind
    obtain ⟨rfl, rfl⟩ := comes_pure_iff.mp h
    cases hr with
    | cons ho hr =>
      obtain ⟨first, hfirst, htakes⟩ := takes_rollSegment hpart ho
      obtain ⟨hlength, turns, carry₁, hturns, hlater⟩ := ih hrest hr
      refine ⟨congrArg Nat.succ hlength, first ++ turns, carry₁, ?_, htakes.append hlater⟩
      rw [List.map_append, hfirst, hturns]
      rfl

/-- In a roll that is made, a name of modifiers that apply once is used up by the first segment or
further copy that offers it, and by nothing after that; damage of an attack that failed leaves it
alone. Whatever was rolled before, a roll begins with nothing used up. -/
theorem spendsOnce_of_execute {r : RollResult} {table table' : Table σ}
    (h : e.execute d table = (.ok r, table')) :
    ∃ f deadline turns carry, e.formulaOf d = .ok f ∧ r.rolled.length = f.segments.length ∧
      turns.map (·.toCopy) =
        (passages (f.segments.zip (f.kinds d.kind)) r.rolled).flatMap Passage.copies ∧
      e.Takes d deadline {} table.tray.source turns carry table'.tray.source ∧
      ∀ id, e.SpendsOnce d turns id := by
  obtain ⟨f, hf, deadline, parts, hparts, hrolled, _⟩ := exists_rollSegments_of_execute h
  obtain ⟨hlength, turns, carry, hturns, htakes⟩ := takes_rollSegments hparts hrolled
  refine ⟨f, deadline, turns, carry, hf, ?_, hturns, htakes, spendsOnce_of_takes htakes⟩
  rw [hlength, List.length_zip, Formula.kinds, length_segmentKinds, Nat.min_self]

def sneakAttack : Modifier where
  id := "sneak"
  name := "Sneak Attack"
  source := .classFeature
  kind := .flat
  amount := .whole 7
  timing := .oncePerTurn
  appliesTo := some [.damage]

def sneakBlows : Definition where
  id := "blows"
  kind := .attack
  wording := .text "attack:1d20,damage:1d8,attack:1d20,damage:1d8,damage:1d8"
  context := { target := some { ac := some 12 } }
  modifiers := [sneakAttack]

theorem spendsOnce_sneakBlows : ∃ r r' table table',
    execute {} sneakBlows (Table.opening [2, 3, 19, 4, 5, 18, 6, 17, 7, 8]) = (.ok r, table) ∧
    execute {} sneakBlows table = (.ok r', table') ∧
    ∃ f deadline turns carry, Engine.formulaOf {} sneakBlows = .ok f ∧
      r'.rolled.length = f.segments.length ∧
      turns.map (·.toCopy) =
        (passages (f.segments.zip (f.kinds sneakBlows.kind)) r'.rolled).flatMap Passage.copies ∧
      Takes {} sneakBlows deadline {} table.tray.source turns carry table'.tray.source ∧
      ∀ id, SpendsOnce {} sneakBlows turns id := by
  let table := Table.opening [2, 3, 19, 4, 5, 18, 6, 17, 7, 8]
  obtain ⟨r, hr, -⟩ := exists_eq_ok_of_any (p := fun _ => true)
    (show (execute {} sneakBlows table).1.toOption.any _ = true by decide +kernel)
  obtain ⟨r', hr', -⟩ := exists_eq_ok_of_any (p := fun _ => true)
    (show (execute {} sneakBlows (execute {} sneakBlows table).2).1.toOption.any _ = true by
      decide +kernel)
  exact ⟨r, r', _, _, Prod.ext hr rfl, Prod.ext hr' rfl, spendsOnce_of_execute (Prod.ext hr' rfl)⟩

/-- The first attack fails, so that the number waits for the damage of the second, and it is added
there alone; in the next roll it is added to the first damage. -/
example : let first := execute {} sneakBlows (Table.opening [2, 3, 19, 4, 5, 18, 6, 17, 7, 8])
    let totals (x : Except Fault RollResult) :=
      x.toOption.map fun r => r.rolled.map (·.outcome.total)
    totals first.1 = some [2, 3, 19, 11, 5] ∧
      totals (execute {} sneakBlows first.2).1 = some [18, 13, 17, 7, 8] := by
  decide +kernel

end Engine

end Runs

end DiceTower
