import DiceTower.Proofs.Engine.Execution
import DiceTower.Proofs.Engine.Parts

/-! How a critical hit is carried through the segments of a roll. What a segment is rolled with is
told from the segments before it and their outcomes alone. -/

namespace DiceTower

open DiceTower.Computation Drawing

structure Passage where
  segment : Segment
  kind : RollType
  rolled : Rolled

def passages (segments : List (Segment × RollType)) (rolled : List Rolled) : List Passage :=
  List.zipWith (fun s r => ⟨s.1, s.2, r⟩) segments rolled

theorem passages_cons (s : Segment) (kind : RollType) (segments : List (Segment × RollType))
    (part : Rolled) (rolled : List Rolled) :
    passages ((s, kind) :: segments) (part :: rolled) =
      ⟨s, kind, part⟩ :: passages segments rolled := rfl

theorem mem_of_mem_passages {segments : List (Segment × RollType)} {rolled : List Rolled}
    {p : Passage} (h : p ∈ passages segments rolled) : (p.segment, p.kind) ∈ segments := by
  induction segments generalizing rolled with
  | nil => cases h
  | cons s segments ih =>
    cases rolled with
    | nil => cases h
    | cons part rolled =>
      rcases List.mem_cons.mp h with rfl | h
      · exact List.mem_cons_self
      · exact List.mem_cons_of_mem _ (ih h)

def Passage.isDamageDice (p : Passage) : Bool := p.kind.isDamage && !p.segment.term.pool.isFlat

section Before

variable (before : List Passage)

def lastAttack? : Option Passage := before.reverse.find? (·.kind.isAttack)

/-- What followed the last attack, the newest first. -/
def sinceAttack : List Passage := before.reverse.takeWhile (!·.kind.isAttack)

/-- Whether the last attack was a critical hit; its further copies do not count. -/
def afterCritical : Bool := (lastAttack? before).any (·.rolled.outcome.criticalSuccess)

/-- Whether the dice of a segment are those of a critical hit. -/
def CriticalRules.doubles (rules : CriticalRules) (p : Passage) : Bool :=
  afterCritical before && p.isDamageDice &&
    !(rules.affected == .weaponOnly && (sinceAttack before).any Passage.isDamageDice)

def Definition.owes (d : Definition) (p : Passage) : Bool :=
  p.kind.isDamage && (d.criticalHit || afterCritical before)

def Definition.owesAmong (d : Definition) : List Passage → List Passage → Bool
  | _, [] => false
  | before, p :: after => d.owes before p || d.owesAmong (before ++ [p]) after

/-- Whether a segment is the first damage of a critical hit. -/
def Definition.owesFirst (d : Definition) (p : Passage) : Bool :=
  d.owes before p && !d.owesAmong [] before

end Before

section Rolls

variable {σ : Type} [Source σ]

namespace Engine

/-- A copy of a segment, rolled from where the source stands. The dice are those that the modifiers
leave, as on a critical hit where they are doubled; `critical` is for the dice that modifiers add,
`extra` for those that the rules add. -/
def Rolls (e : Engine) (d : Definition) (deadline : Option Float) (s : Segment) (kind : RollType)
    (critical doubled extra : Bool) (source : σ) (o : Outcome) (source' : σ) : Prop :=
  ∃ (missed : Bool) (used : List String) (plain : Term) (t : Tally),
    let ms := (activate kind critical missed used
      (e.rulebook.resolve d.context kind d.modifiers d.withCharacter)).1
    let favoured := s.term.withAdvantage kind ms
    let term := if doubled then plain.critical e.rules else plain
    (∀ records, (favoured.term.withOperations ms records).1 = .ok plain) ∧
    Comes (e.tally deadline s.label kind ms favoured.remarks term critical extra) source t source' ∧
    o.items = t.items ∧ o.metadata.expression = term.pool.text ∧ o.metadata.kind = kind ∧
    o.metadata.modifiersApplied = ms.map (·.name)

/-- Further copies of an attack, one after another and never as those of a critical hit. -/
def RollsCopies (e : Engine) (d : Definition) (deadline : Option Float) (s : Segment)
    (kind : RollType) : σ → List Outcome → σ → Prop
  | source, [], source' => source' = source
  | source, o :: outcomes, source' => ∃ source₁,
      e.Rolls d deadline s kind false false false source o source₁ ∧
      e.RollsCopies d deadline s kind source₁ outcomes source'

def Tells (e : Engine) (d : Definition) (deadline : Option Float) :
    List Passage → σ → List Passage → σ → Prop
  | _, source, [], source' => source' = source
  | before, source, p :: after, source' => ∃ source₁ source₂,
      e.Rolls d deadline p.segment p.kind (d.owes before p) (e.rules.doubles before p)
        (d.owesFirst before p) source p.rolled.outcome source₁ ∧
      e.RollsCopies d deadline p.segment p.kind source₁ p.rolled.extras source₂ ∧
      e.Tells d deadline (before ++ [p]) source₂ after source'

end Engine

end Rolls

section Recall

variable {before : List Passage} {p : Passage} {d : Definition} {e : Engine}

theorem lastAttack?_append_singleton :
    lastAttack? (before ++ [p]) = if p.kind.isAttack then some p else lastAttack? before := by
  unfold lastAttack?
  rw [List.reverse_append, List.reverse_singleton, List.singleton_append, List.find?_cons]
  cases p.kind.isAttack <;> rfl

theorem sinceAttack_append_singleton :
    sinceAttack (before ++ [p]) = if p.kind.isAttack then [] else p :: sinceAttack before := by
  unfold sinceAttack
  rw [List.reverse_append, List.reverse_singleton, List.singleton_append, List.takeWhile_cons]
  cases p.kind.isAttack <;> rfl

theorem afterCritical_append_singleton : afterCritical (before ++ [p]) =
    if p.kind.isAttack then p.rolled.outcome.criticalSuccess else afterCritical before := by
  unfold afterCritical
  rw [lastAttack?_append_singleton]
  split <;> rfl

theorem owesAmong_append_singleton (earlier : List Passage) :
    d.owesAmong earlier (before ++ [p]) =
      (d.owesAmong earlier before || d.owes (earlier ++ before) p) := by
  induction before generalizing earlier with
  | nil => simp [Definition.owesAmong]
  | cons q before ih => simp [Definition.owesAmong, ih, Bool.or_assoc]

/-- What is carried along tells what was before: whether the last attack was a critical hit, whether
dice of damage followed that, and whether extra dice were owed. -/
structure Carry.Recalls (e : Engine) (d : Definition) (before : List Passage) (carry : Carry) :
    Prop where
  critical : carry.critical = afterCritical before
  spent : carry.spent = (afterCritical before && (sinceAttack before).any Passage.isDamageDice)
  extraRolled : carry.extraRolled = (e.extraDice.isSome && d.owesAmong [] before)

variable {carry : Carry} {plain : Term}

theorem Carry.recalls_start : Carry.Recalls e d [] {} :=
  ⟨rfl, rfl, by rw [Definition.owesAmong, Bool.and_false]⟩

namespace Carry.Recalls

theorem criticalDamage_eq (h : carry.Recalls e d before) :
    carry.criticalDamage d p.kind = d.owes before p := by
  rw [criticalDamage, Definition.owes, h.critical]

theorem extraDue_eq (h : carry.Recalls e d before) :
    e.extraDue d p.kind carry = (e.extraDice.isSome && d.owesFirst before p) := by
  rw [Engine.extraDue, h.criticalDamage_eq, h.extraRolled, Definition.owesFirst]
  cases e.extraDice.isSome <;> simp

theorem transforms_eq (h : carry.Recalls e d before)
    (hflat : p.kind.isDamage = true → plain.pool.isFlat = p.segment.term.pool.isFlat) :
    e.transforms p.kind carry plain = e.rules.doubles before p := by
  have hdice : p.isDamageDice = (p.kind.isDamage && !p.segment.term.pool.isFlat) := rfl
  rw [Engine.transforms, CriticalRules.doubles, h.critical, h.spent, hdice]
  cases hk : p.kind.isDamage with
  | false => simp only [Bool.false_and, Bool.and_false]
  | true =>
    rw [hflat hk]
    cases afterCritical before
    · simp only [Bool.and_false, Bool.false_and]
    · simp only [Bool.true_and, Bool.and_comm]

theorem carryAfter (h : carry.Recalls e d before) (success : Option Bool) (used : List String) :
    (Engine.carryAfter p.kind p.rolled.outcome.criticalSuccess success { carry with
      used
      spent := carry.spent || e.rules.doubles before p
      extraRolled := carry.extraRolled || e.extraDue d p.kind carry }).Recalls e d
      (before ++ [p]) := by
  have hextra : (carry.extraRolled || e.extraDue d p.kind carry) =
      (e.extraDice.isSome && d.owesAmong [] (before ++ [p])) := by
    rw [h.extraDue_eq, h.extraRolled, owesAmong_append_singleton, List.nil_append,
      Definition.owesFirst]
    cases e.extraDice.isSome <;> cases d.owesAmong [] before <;> simp
  unfold Engine.carryAfter
  split
  · next hk =>
    refine ⟨?_, ?_, hextra⟩
    · rw [afterCritical_append_singleton, if_pos hk]
    · rw [sinceAttack_append_singleton, if_pos hk, List.any_nil, Bool.and_false]
  · next hk =>
    refine ⟨?_, ?_, hextra⟩
    · rw [afterCritical_append_singleton, if_neg hk]
      exact h.critical
    · rw [afterCritical_append_singleton, sinceAttack_append_singleton, if_neg hk, if_neg hk,
        h.spent, List.any_cons, CriticalRules.doubles]
      cases afterCritical before <;> cases p.isDamageDice <;>
        cases (sinceAttack before).any Passage.isDamageDice <;> simp

end Carry.Recalls

end Recall

section Runs

variable {σ : Type} [Source σ] {e : Engine} {d : Definition} {deadline : Option Float} {s : Segment}
  {kind : RollType} {carry : Carry} {source source' : σ}

namespace Engine

theorem Rolls.timed {critical doubled extra : Bool} {o o' : Outcome}
    (h : e.Rolls d deadline s kind critical doubled extra source o source') (ho : o.Timed o') :
    e.Rolls d deadline s kind critical doubled extra source o' source' := by
  obtain ⟨elapsed, rfl⟩ := ho
  exact h

theorem isFlat_of_settled {t plain : Term} (hk : kind.isDamage = true) {ms : List Modifier}
    (h : ∀ records, (((t.withAdvantage kind ms).term.withOperations ms) records).1 = .ok plain) :
    plain.pool.isFlat = t.pool.isFlat := by
  have hflat := Term.gives_isFlat_withOperations ms (t.withAdvantage kind ms).term [] plain _
    (Prod.ext (h []) rfl)
  rwa [Term.term_withAdvantage_of_not_isD20 (RollType.not_isD20_of_isDamage hk)] at hflat

theorem rolls_of_strike_attack (hk : kind.isAttack = true) {st : Strike}
    (h : Comes (e.strike d deadline s kind carry) source st source') :
    e.Rolls d deadline s kind false false false source st.outcome source' := by
  have hdamage := RollType.not_isDamage_of_isAttack hk
  have hcritical := carry.criticalDamage_of_not_isDamage hdamage d
  obtain ⟨plain, t, hplain, ht, rfl⟩ := struck_of_strike h
  have hdoubled := e.rolledTerm_of_not_isDamage hdamage carry plain
  rw [e.extraDue_of_not_isDamage hdamage, hcritical, hdoubled] at ht
  unfold activeIn at hplain ht
  rw [hcritical] at hplain ht
  refine ⟨_, _, plain, t, hplain, ht, rfl, ?_, rfl, ?_⟩
  · show (e.rolledTerm kind carry plain).pool.text = _
    rw [hdoubled]
    rfl
  · show (e.activeIn d kind carry).1.map _ = _
    rw [activeIn, hcritical]

theorem rollsCopies_of_copies (hk : kind.isAttack = true) {n : Nat} {outcomes : List Outcome}
    {used : List String}
    (h : Comes (e.copies d deadline s kind carry n) source (outcomes, used) source') :
    e.RollsCopies d deadline s kind source outcomes source' := by
  induction n generalizing carry source outcomes with
  | zero =>
    obtain ⟨he, rfl⟩ := comes_pure_iff.mp h
    cases he
    rfl
  | succ n ih =>
    obtain ⟨copy, source₁, hcopy, h⟩ := Comes.of_bind h
    obtain ⟨outcome, source₂, hcheck, h⟩ := h.of_bind
    obtain ⟨⟨rest, left⟩, source₃, hrest, h⟩ := h.of_bind
    obtain ⟨he, rfl⟩ := comes_pure_iff.mp h
    obtain ⟨hchecked, rfl⟩ := hcheck.of_lift
    obtain ⟨rfl, _⟩ := Outcome.check_eq_ok_iff.mp hchecked
    cases he
    exact ⟨_, rolls_of_strike_attack hk hcopy, ih hrest⟩

end Engine

namespace Carry.Recalls

variable {before : List Passage} {p : Passage}

/-- A segment is rolled as those before it want, if they are recalled, and is recalled after it. -/
theorem strike (h : carry.Recalls e d before) {st : Strike}
    (hst : Comes (e.strike d deadline p.segment p.kind carry) source st source')
    (ho : st.outcome.Timed p.rolled.outcome) :
    e.Rolls d deadline p.segment p.kind (d.owes before p) (e.rules.doubles before p)
      (d.owesFirst before p) source p.rolled.outcome source' ∧
    st.carry.Recalls e d (before ++ [p]) := by
  obtain ⟨plain, t, hplain, ht, rfl⟩ := Engine.struck_of_strike hst
  have hdoubled := h.transforms_eq fun hk => Engine.isFlat_of_settled hk hplain
  constructor
  · refine Engine.Rolls.timed ?_ ho
    unfold Engine.rolledTerm at ht
    unfold Engine.activeIn at hplain ht
    rw [hdoubled, h.extraDue_eq, Engine.tally_extra, h.criticalDamage_eq] at ht
    rw [h.criticalDamage_eq] at hplain
    refine ⟨_, _, plain, t, hplain, ht, rfl, ?_, rfl, ?_⟩
    · show (e.rolledTerm p.kind carry plain).pool.text = _
      rw [Engine.rolledTerm, hdoubled]
    · show (e.activeIn d p.kind carry).1.map _ = _
      rw [Engine.activeIn, h.criticalDamage_eq]
  · obtain ⟨elapsed, ho⟩ := ho
    unfold Engine.struck
    rw [hdoubled]
    have hcarry := h.carryAfter (p := p) p.rolled.outcome.success (e.activeIn d p.kind carry).2
    rw [ho] at hcarry
    exact hcarry

theorem withUsed (h : carry.Recalls e d before) (used : List String) :
    ({ carry with used } : Carry).Recalls e d before := ⟨h.critical, h.spent, h.extraRolled⟩

end Carry.Recalls

namespace Engine

variable {before : List Passage}

theorem tells_rollSegment (h : carry.Recalls e d before) {rolled rolled' : Rolled} {after : Carry}
    (hs : Comes (e.rollSegment d deadline s kind carry) source (rolled, after) source')
    (hr : rolled.Timed rolled') :
    ∃ source₁, e.Rolls d deadline s kind (d.owes before ⟨s, kind, rolled'⟩)
        (e.rules.doubles before ⟨s, kind, rolled'⟩) (d.owesFirst before ⟨s, kind, rolled'⟩) source
        rolled'.outcome source₁ ∧
      e.RollsCopies d deadline s kind source₁ rolled'.extras source' ∧
      after.Recalls e d (before ++ [⟨s, kind, rolled'⟩]) := by
  obtain ⟨st, n, used, source₁, hst, hcount, hextras, hmain, rfl⟩ := strike_copies_of_rollSegment hs
  obtain ⟨ho, hx⟩ := hr
  rw [hmain] at ho
  obtain ⟨hrolls, hrecalls⟩ := h.strike (p := ⟨s, kind, rolled'⟩) hst ho
  refine ⟨_, hrolls, ?_, hrecalls.withUsed used⟩
  rw [← hx]
  split at hcount
  · next hk => exact rollsCopies_of_copies hk hextras
  · cases hcount
    obtain ⟨he, rfl⟩ := comes_pure_iff.mp hextras
    rw [(Prod.mk.inj he).1]
    rfl

theorem tells_rollSegments {segments : List (Segment × RollType)} {parts rolled : List Rolled}
    (h : carry.Recalls e d before)
    (hs : Comes (e.rollSegments d deadline carry segments) source parts source')
    (hr : List.Forall₂ Rolled.Timed parts rolled) :
    rolled.length = segments.length ∧
      e.Tells d deadline before source (passages segments rolled) source' := by
  -- what is recalled of the segments before is what the induction carries on
  induction segments generalizing carry before source parts rolled with
  | nil =>
    obtain ⟨rfl, rfl⟩ := comes_pure_iff.mp hs
    cases hr
    exact ⟨rfl, rfl⟩
  | cons segment segments ih =>
    obtain ⟨s, kind⟩ := segment
    obtain ⟨⟨part, carry'⟩, source₁, hpart, hs⟩ := Comes.of_bind hs
    obtain ⟨rest, source₂, hrest, hs⟩ := hs.of_bind
    obtain ⟨rfl, rfl⟩ := comes_pure_iff.mp hs
    cases hr with
    | cons ho hr =>
      obtain ⟨source₃, hrolls, hcopies, hrecalls⟩ := tells_rollSegment h hpart ho
      obtain ⟨hlength, htells⟩ := ih hrecalls hrest hr
      exact ⟨congrArg Nat.succ hlength, source₃, source₁, hrolls, hcopies, htells⟩

/-- In a roll that is made, every segment is rolled as those before it want: its dice are doubled
exactly where the last attack was a critical hit, and the extra dice of the rules are rolled exactly
in the first segment that owes them. -/
theorem tells_of_execute {r : RollResult} {table table' : Table σ}
    (h : e.execute d table = (.ok r, table')) :
    ∃ f deadline, e.formulaOf d = .ok f ∧ r.rolled.length = f.segments.length ∧
      e.Tells d deadline [] table.tray.source
        (passages (f.segments.zip (f.kinds d.kind)) r.rolled) table'.tray.source := by
  obtain ⟨f, hf, deadline, parts, hparts, hrolled, _⟩ := exists_rollSegments_of_execute h
  obtain ⟨hlength, htells⟩ := tells_rollSegments Carry.recalls_start hparts hrolled
  refine ⟨f, deadline, hf, ?_, htells⟩
  rw [hlength, List.length_zip, Formula.kinds, length_segmentKinds, Nat.min_self]

def fierceRules : CriticalRules := { additionalDice := some "1d6" }

def blow : Definition where
  id := "blow"
  kind := .attack
  wording := .text "attack:1d20,damage:1d8,damage:2,damage:1d6"
  modifiers := [{
    id := "haste"
    name := "Haste"
    source := .spell
    kind := .extraAttack
    amount := .whole 1 }]

/-- The attack is a critical hit and its further copy is not. Only the first dice of damage are
doubled, as the rules affect the weapon alone, and the die of the rules is rolled with them. -/
theorem tells_blow : ∃ e r table',
    build fierceRules {} (Rulebook.standard {} true true true) 100 0.0 = .ok e ∧
    e.execute blow (Table.opening [20, 7, 3, 4, 6, 1, 5]) = (.ok r, table') ∧
    r.rolled.map (·.outcome.metadata.expression) = ["1d20", "2d8", "2", "1d6"] ∧
    r.rolled.map (·.outcome.total) = [20, 13, 2, 5] ∧
    r.rolled.map (·.extras.map (·.total)) = [[7], [], [], []] ∧
    ∃ f deadline, e.formulaOf blow = .ok f ∧ r.rolled.length = f.segments.length ∧
      e.Tells blow deadline [] (Table.opening [20, 7, 3, 4, 6, 1, 5]).tray.source
        (passages (f.segments.zip (f.kinds blow.kind)) r.rolled) table'.tray.source := by
  let table := Table.opening [20, 7, 3, 4, 6, 1, 5]
  obtain ⟨e, he, hruns⟩ := exists_eq_ok_of_any
    (p := fun e : Engine => (e.execute blow table).1.toOption.any
      fun r : RollResult => decide (
        r.rolled.map (·.outcome.metadata.expression) = ["1d20", "2d8", "2", "1d6"] ∧
        r.rolled.map (·.outcome.total) = [20, 13, 2, 5] ∧
        r.rolled.map (·.extras.map (·.total)) = [[7], [], [], []]))
    (show (build fierceRules {} (Rulebook.standard {} true true true) 100 0.0).toOption.any _ = true
      by decide +kernel)
  obtain ⟨r, hr, hshown⟩ := exists_eq_ok_of_any hruns
  obtain ⟨hexpressions, htotals, hextras⟩ := of_decide_eq_true hshown
  exact ⟨e, r, _, he, Prod.ext hr rfl, hexpressions, htotals, hextras,
    tells_of_execute (Prod.ext hr rfl)⟩

end Engine

end Runs

end DiceTower
