import DiceTower.Proofs.Engine.Parts
import DiceTower.Proofs.Engine.Shown

/-! The preview of damage that is a critical hit from the start. What is rolled then has the dice of
modifiers as they are on a critical hit, and the extra dice of the rules, and a preview has neither.
With both its range bounds what is rolled; as it is, it does where there is nothing of the kind. -/

namespace DiceTower

open DiceTower.Computation Drawing

def Amount.pool? : Amount → Option Pool
  | dice t => some t.pool
  | _ => none

/-- A modifier as it is rolled: on a critical hit its dice are those of one, unless the rules affect
the weapon alone. -/
def Modifier.asRolled (rules : CriticalRules) (critical : Bool) (m : Modifier) : Modifier :=
  match m.kind, m.amount with
  | .dice, .dice t =>
    if critical && rules.affected != .weaponOnly then { m with amount := .dice (t.critical rules) }
    else m
  | _, _ => m

namespace Engine

def withExtra (e : Engine) (critical : Bool) (range : Range ℚ) : Except Fault (Range ℚ) :=
  match critical, e.extraDice with
  | true, some t => (estimate t.pool e.cap).map fun extra => Range.combine [range, extra]
  | _, _ => .ok range

def wholeRange (e : Engine) (critical : Bool) (t : Term) (ms : List Modifier) :
    Except Fault (Range ℚ) :=
  segmentRange e.cap t (ms.map (·.asRolled e.rules critical)) >>= e.withExtra critical

/-- The dice of a segment, or any other that is rolled for it, may be more than there is room for. -/
def CrowdedWhole (e : Engine) (critical : Bool) (t : Term) (ms : List Modifier) : Prop :=
  t.Crowded e.cap (ms.map (·.asRolled e.rules critical)) ∨
    critical = true ∧ ∃ extra ∈ e.extraDice, extra.pool.Crowded e.cap

/-- On a critical hit nothing is rolled that a preview leaves out. -/
def AddsNothing (e : Engine) (critical : Bool) (ms : List Modifier) : Prop :=
  critical = true → e.extraDice = none ∧ (e.rules.affected = .weaponOnly ∨
    ∀ m ∈ ms, ∀ t, m.kind = .dice → m.amount = .dice t → t.pool.isFlat = true)

end Engine

section AsRolled

variable {rules : CriticalRules} {critical : Bool} {m : Modifier}

theorem Modifier.asRolled_cases (rules : CriticalRules) (critical : Bool) (m : Modifier) :
    m.asRolled rules critical = m ∨ ∃ t, m.kind = .dice ∧ m.amount = .dice t ∧
      critical = true ∧ rules.affected ≠ .weaponOnly ∧
      m.asRolled rules critical = { m with amount := .dice (t.critical rules) } := by
  unfold asRolled
  split
  · next t hk ht =>
    by_cases h : critical && rules.affected != .weaponOnly
    · rw [if_pos h]
      have h' : critical = true ∧ rules.affected ≠ .weaponOnly := by simpa using h
      exact .inr ⟨t, hk, ht, h'.1, h'.2, rfl⟩
    · rw [if_neg h]
      exact .inl rfl
  · exact .inl rfl

theorem Modifier.kind_asRolled : (m.asRolled rules critical).kind = m.kind := by
  rcases m.asRolled_cases rules critical with h | ⟨_, _, _, _, _, h⟩ <;> rw [h]

theorem Modifier.Fits.asRolled (h : m.Fits) : (m.asRolled rules critical).Fits := by
  rcases m.asRolled_cases rules critical with he | ⟨t, hk, _, _, _, he⟩
  · rwa [he]
  · rw [he]
    refine ⟨fun hf => ?_, fun _ => ⟨_, rfl⟩, fun hs => ?_, fun ho => ?_⟩
    · simp [hk] at hf
    · simp [hk, ModifierKind.scales] at hs
    · simp [hk, ModifierKind.operation?] at ho

theorem Modifier.SoundDice.asRolled (h : m.SoundDice) :
    (m.asRolled rules critical).SoundDice := by
  rcases m.asRolled_cases rules critical with he | ⟨t, hk, ht, _, _, he⟩
  · rwa [he]
  · rw [he]
    intro t' _ ht'
    obtain rfl := Amount.dice.inj ht'
    exact Term.sound_critical (h t hk ht) rules

theorem Engine.map_asRolled {e : Engine} {ms : List Modifier} (h : e.AddsNothing critical ms) :
    ms.map (·.asRolled e.rules critical) = ms := by
  refine (List.map_congr_left fun m hm => ?_).trans (List.map_id ms)
  rcases m.asRolled_cases e.rules critical with he | ⟨t, hk, ht, hc, hw, he⟩
  · exact he
  · have hflat := (h hc).2.resolve_left hw m hm t hk ht
    rw [he, Term.critical_of_isFlat hflat, ← ht]
    rfl

theorem Engine.wholeRange_of_addsNothing {e : Engine} {t : Term} {ms : List Modifier}
    (h : e.AddsNothing critical ms) : e.wholeRange critical t ms = segmentRange e.cap t ms := by
  have hnone (range : Range ℚ) : e.withExtra critical range = .ok range := by
    unfold withExtra
    cases hc : critical with
    | false => rfl
    | true => rw [(h hc).1]
  unfold wholeRange
  rw [e.map_asRolled h, funext hnone]
  exact bind_pure _

end AsRolled

theorem foretells_segmentRange_of_unscaled {cap : Int} {t : Term} {ms : List Modifier} {own : Int}
    {itemss : List (List Item)} (hs : ∀ m ∈ ms, m.kind.scales = false)
    (ho : Foretells (Fault.OfMemory (t.pool.Crowded cap)) (fun r => r.Contains own)
      (estimate t.pool cap : Except Fault (Range ℚ)))
    (ha : List.Forall₂ (Modifier.Adds cap) ms itemss) :
    Foretells (Fault.OfMemory (t.Crowded cap ms))
      (fun r : Range ℚ => r.Contains (own + Item.counted itemss.flatten)) (segmentRange cap t ms) := by
  unfold segmentRange
  refine (ho.crowd .inl).bind fun r hr =>
    ((foretells_mapM_range? ha).crowd .inr).bind fun added hadded => ?_
  rw [foldlM_scaledBy_of_unscaled hs]
  exact ⟨Int.add_le_add hr.min hadded.1, Int.add_le_add hr.max hadded.2⟩

theorem foretells_segmentRange_of_sound {cap : Int} {t : Term} {ms : List Modifier}
    (hs : ∀ m ∈ ms, m.kind.scales = false) (ht : t.pool.Sound)
    (hm : ∀ m ∈ ms, m.SoundDice) :
    Foretells (Fault.OfMemory (t.Crowded cap ms)) (fun _ => True)
      (segmentRange cap t ms : Except Fault (Range ℚ)) := by
  have hrange : ∀ m ∈ ms, Foretells (Fault.OfMemory (t.Crowded cap ms)) (fun _ => True)
      (m.range? cap : Except Fault (Option (Range ℚ))) := by
    intro m hmem
    unfold Modifier.range?
    split
    · trivial
    · next t' hk ha =>
      have hcrowded (hc : t'.pool.Crowded cap) : t.Crowded cap ms := .inr ⟨m, hmem, t', ha, hc⟩
      exact .map ((((hm m hmem t' hk ha).foretells_estimate cap).crowd hcrowded).mono
        fun _ _ => trivial)
    · trivial
  unfold segmentRange
  refine ((ht.foretells_estimate cap).crowd .inl).bind fun own _ => (Foretells.mapM hrange).bind fun added _ => ?_
  rw [foldlM_scaledBy_of_unscaled hs]
  trivial

theorem counted_map_asCritical (items : List Item) :
    Item.counted (items.map Item.asCritical) = Item.counted items := by
  induction items with
  | nil => rfl
  | cons i items ih =>
    rw [List.map_cons, Item.counted_cons, Item.counted_cons, ih]
    rfl

section Tallies

variable {σ : Type} [Source σ] {e : Engine} {deadline : Option Float} {ms : List Modifier}
  {kind : RollType} {critical : Bool}

namespace Engine

theorem modifierItems_asRolled (m : Modifier) :
    (e.modifierItems deadline critical m : Drawing σ (List Item)) =
      e.modifierItems deadline false (m.asRolled e.rules critical) := by
  unfold modifierItems Modifier.asRolled
  cases hk : m.kind
  case dice =>
    cases ha : m.amount
    case dice t =>
      by_cases h : critical && e.rules.affected != .weaponOnly
      · simp only [h, Bool.false_and, Bool.false_eq_true, if_true, if_false]
      · simp only [h, hk, ha, Bool.false_and, Bool.false_eq_true, if_false]
    all_goals simp only [hk, ha]
  all_goals simp only [hk]

theorem gives_extraItems (hx : ∀ t ∈ e.extraDice, t.pool.Sound) {range : Range ℚ} {total : Int}
    (hr : range.Contains total) :
    Gives (e.extraItems deadline critical : Drawing σ (List Item)) fun items =>
      Foretells (Fault.OfMemory (critical = true ∧ ∃ extra ∈ e.extraDice, extra.pool.Crowded e.cap))
        (fun r : Range ℚ => r.Contains (total + Item.counted items)) (e.withExtra critical range) := by
  have hnone {crowded : Prop} : Foretells (Fault.OfMemory crowded)
      (fun r : Range ℚ => r.Contains (total + Item.counted [])) (.ok range) := by
    rw [counted_nil, Int.add_zero]
    exact hr
  unfold extraItems withExtra
  cases critical with
  | false => exact .of_pure hnone
  | true =>
    cases ht : e.extraDice with
    | none => exact .of_pure hnone
    | some t =>
      refine (t.gives_total_within_estimate (hx t ht) (some "critical")).bind fun roll hroll =>
        .of_pure (.map ((hroll.2.crowd fun hc => ⟨rfl, t, rfl, hc⟩).mono fun extra hextra => ?_))
      have hmin := Int.add_le_add hr.min hextra.min
      have hmax := Int.add_le_add hr.max hextra.max
      have hnil : Number.sum [] = 0 := rfl
      rw [counted_map_asCritical, Roll.counted_items]
      constructor
      · simpa [Range.combine, Number.sum_cons, hnil] using hmin
      · simpa [Range.combine, Number.sum_cons, hnil] using hmax

/-- What is rolled of a segment lies within the range of all that is rolled for it. -/
theorem gives_tally (hm : ∀ m ∈ ms, m.Fits ∧ m.Foreseeable) (hs : ∀ m ∈ ms, m.kind.scales = false)
    (hx : ∀ t ∈ e.extraDice, t.pool.Sound) {term : Term} (ht : term.pool.Sound)
    {remarks : List Item} (hr : Item.counted remarks = 0) (label : Option String) :
    Gives (e.tally deadline label kind ms remarks term critical critical : Drawing σ Tally) fun t =>
      Foretells (Fault.OfMemory (e.CrowdedWhole critical term ms))
        (fun r : Range ℚ => r.Contains (Item.counted t.items)) (e.wholeRange critical term ms) := by
  have hscales : ∀ m ∈ ms.map (·.asRolled e.rules critical), m.kind.scales = false := by
    intro m hmem
    obtain ⟨m₀, hm₀, rfl⟩ := List.mem_map.mp hmem
    rw [Modifier.kind_asRolled]
    exact hs m₀ hm₀
  have hadds : ∀ m ∈ ms, Gives (e.modifierItems deadline critical m : Drawing σ (List Item))
      ((m.asRolled e.rules critical).Adds e.cap) := by
    intro m hmem
    have hsound : m.SoundDice := fun t hk ht => ((hm m hmem).2.dice t hk ht).sound
    rw [e.modifierItems_asRolled]
    exact e.gives_modifierItems deadline (hm m hmem).1.asRolled hsound.asRolled
  unfold tally
  refine (term.gives_total_within_estimate ht label).bind fun rolled hrolled => ?_
  refine (Gives.of_lift fun n hn => Roll.natural_eq (fun m hmem => (hm m hmem).2.kind) hn).bind
    fun natural hnatural => ?_
  refine (Gives.mapM hadds).bind fun bonuses hbonuses => ?_
  have hbonuses : List.Forall₂ (Modifier.Adds e.cap) (ms.map (·.asRolled e.rules critical)) bonuses :=
    List.forall₂_map_left_iff.mpr hbonuses
  have hrange := foretells_segmentRange_of_unscaled hscales hrolled.2 hbonuses
  refine Gives.bind (P := fun items => Foretells (Fault.OfMemory (e.CrowdedWhole critical term ms))
    (fun r : Range ℚ => r.Contains (rolled.total + Item.counted bonuses.flatten +
      Item.counted items)) (e.wholeRange critical term ms)) ?_ fun extra hextra => ?_
  · intro tray items tray' he
    exact (hrange.crowd .inl).bind fun range hcontains =>
      (gives_extraItems hx hcontains _ _ _ he).crowd .inr
  · obtain ⟨hroll, hremarks⟩ := hnatural
    dsimp only
    rw [scaleLines_of_unscaled hs, lift_ok_bind]
    refine (Gives.trivial _).bind fun faces _ => (Gives.trivial _).bind fun id _ => .of_pure ?_
    simpa only [Item.counted_append, hr, hremarks, hroll, Roll.counted_items, counted_nil,
      Int.add_zero] using hextra

end Engine

end Tallies

section Previews

variable {e : Engine} {d : Definition} {f : Formula} {s : Segment} {kind : RollType}

namespace Engine

/-- A preview of one segment has the range of its dice and its modifiers, which are as they would
be without a critical hit. -/
theorem foretells_analyze_only (hf : e.formulaOf d = .ok f) (hs : f.segments = [s])
    (hk : f.kinds d.kind = [kind]) {plain : Term}
    (hplain : ∀ records, ((s.term.withAdvantage kind (e.activeIn d kind {}).1).term.withOperations
      (e.activeIn d kind {}).1 records).1 = .ok plain)
    (hr : Foretells (Fault.OfMemory (plain.Crowded e.cap (e.activeIn d kind {}).1)) (fun _ => True)
      (segmentRange e.cap plain (e.activeIn d kind {}).1 : Except Fault (Range ℚ))) :
    Noted.Foretells (Fault.OfMemory ¬ e.HasRoom [s] [(e.activeIn d kind {}).1])
      (fun p : Preview ℚ => ∃ range,
      segmentRange e.cap plain (e.activeIn d kind {}).1 = .ok range ∧
      p.labelRanges = [(s.key 0, range)]) (e.analyze d) := by
  have hactive : e.activeIn d kind {} = activate kind (kind.isDamage && d.criticalHit) false []
      (e.rulebook.resolve d.context kind d.modifiers d.withCharacter) := by
    rw [activeIn, Carry.criticalDamage, Bool.or_false]
  obtain ⟨faces, hfaces, -⟩ := Foretells.exists_eq_ok (foretells_criticalRange e.rules
    fun _ => whole_of_mem_activeIn)
  refine foretells_analyze_of_foresee (P := fun ranges => ∃ range,
    segmentRange e.cap plain (e.activeIn d kind {}).1 = .ok range ∧ ranges = [(s.key 0, range)])
    (fun _ => id) hf ?_
  rw [hs, hk]
  refine (foretells_foresee_of_settled hactive hplain (hr.crowd fun hc hroom =>
    hroom.not_crowded hplain hc) fun _ => ⟨faces, hfaces⟩).bind fun o ho => .of_pure ?_
  obtain ⟨_, _, hcritical, range, _, hrange, hranges, hlast⟩ := ho
  refine ⟨⟨range, hrange, hranges⟩, by rw [hlast]; rfl, fun hroom => ?_⟩
  rcases hcritical with hsame | hwidened
  · rw [hsame]
    exact (not_not.mp hroom).range
  · exact (not_not.mp hroom).faces _ List.mem_cons_self _ hwidened

variable {σ : Type} [Source σ]

/-- A preview of one segment and the total that was rolled of it: with what the preview leaves out
its range contains the total, and without that where nothing is left out. -/
def Foresees (e : Engine) (d : Definition) (s : Segment) (kind : RollType) (total : Int)
    (p : Preview ℚ) : Prop :=
  ∃ plain range,
    let ms := (e.activeIn d kind {}).1
    let critical := kind.isDamage && d.criticalHit
    (∀ records, ((s.term.withAdvantage kind ms).term.withOperations ms records).1 = .ok plain) ∧
    segmentRange e.cap plain ms = .ok range ∧ p.labelRanges = [(s.key 0, range)] ∧
    Foretells (Fault.OfMemory (e.CrowdedWhole critical plain ms))
      (fun whole : Range ℚ => whole.Contains total) (e.wholeRange critical plain ms) ∧
    (e.AddsNothing critical ms → range.Contains total)

/-- The preview of one segment bounds what is rolled of it once it has what it leaves out: the dice
of modifiers as they are on a critical hit and the extra dice of the rules. Where there is nothing
of the kind it bounds what is rolled as it is. Nothing is rerolled without end, no face is replaced
and nothing is scaled. The preview itself fails for nothing but room for a list, and is given where
there is room for all its dice. -/
theorem analyze_foresees_only (hf : e.formulaOf d = .ok f) (hs : f.segments = [s])
    (hk : f.kinds d.kind = [kind]) (hp : s.term.pool.Foreseeable)
    (hm : ∀ m ∈ (e.activeIn d kind {}).1, m.Foreseeable ∧ m.kind.scales = false)
    (hx : ∀ t ∈ e.extraDice, t.pool.Foreseeable) {r : RollResult} {table table' : Table σ}
    (hr : e.execute d table = (.ok r, table')) :
    Noted.Foretells (Fault.OfMemory ¬ e.HasRoom [s] [(e.activeIn d kind {}).1])
      (e.Foresees d s kind r.outcome.total) (e.analyze d) := by
  have hfits : ∀ m ∈ (e.activeIn d kind {}).1, m.Fits := fun m hmem =>
    Rulebook.fits_of_mem_resolve (mem_of_mem_activate hmem)
  have hscales : ∀ m ∈ (e.activeIn d kind {}).1, m.kind.scales = false := fun m hmem => (hm m hmem).2
  have hcritical : Carry.criticalDamage d kind {} = (kind.isDamage && d.criticalHit) := by
    rw [Carry.criticalDamage, Bool.or_false]
  obtain ⟨-, deadline, rolled, after, hroll, ⟨elapsed, htimed⟩, -⟩ :=
    exists_only_rollSegment_of_execute hr hf hs hk
  obtain ⟨st, n, used, source₁, hst, -, -, hmain, -⟩ := strike_copies_of_rollSegment hroll
  obtain ⟨plain, t, hplain, ht, rfl⟩ := struck_of_strike hst
  have htotal : r.outcome.total = Item.counted t.items := by
    have hsame := congrArg Outcome.total htimed
    rw [hmain] at hsame
    exact hsame
  have hsound : plain.pool.Sound := Term.gives_sound_withOperations hfits
    (Term.sound_withAdvantage hp.sound kind _) [] plain _ (Prod.ext (hplain []) rfl)
  have hplainly : e.rolledTerm kind {} plain = plain := by
    rw [rolledTerm, transforms, Bool.and_false]
    rfl
  have hdue : e.extraDue d kind {} = (e.extraDice.isSome && (kind.isDamage && d.criticalHit)) := by
    rw [extraDue, hcritical, Bool.not_false, Bool.and_true, Bool.and_comm]
  rw [hplainly, hcritical, hdue, tally_extra] at ht
  have hwhole := ht.of_gives (gives_tally (fun m hmem => ⟨hfits m hmem, (hm m hmem).1⟩) hscales
    (fun t ht => (hx t ht).sound) hsound (Term.counted_remarks_withAdvantage ..) _)
  rw [← htotal] at hwhole
  have hrange : Foretells (Fault.OfMemory (plain.Crowded e.cap (e.activeIn d kind {}).1))
      (fun _ => True) (segmentRange e.cap plain (e.activeIn d kind {}).1 : Except Fault (Range ℚ)) :=
    foretells_segmentRange_of_sound hscales hsound fun m hmem t hk ht =>
      ((hm m hmem).1.dice t hk ht).sound
  intro records
  refine (foretells_analyze_only hf hs hk hplain hrange records).mono fun p hrange => ?_
  obtain ⟨range, hrange, hkeys⟩ := hrange
  refine ⟨plain, range, hplain, hrange, hkeys, hwhole, fun hnothing => ?_⟩
  rw [wholeRange_of_addsNothing hnothing, hrange] at hwhole
  exact hwhole

def smite : Definition where
  id := "smite"
  kind := .damage
  wording := .text "2d6r1+3"
  modifiers := [{
    id := "smite"
    name := "Smite"
    source := .spell
    kind := .dice
    amount := .text "1d8"
    timing := .onCritical }]
  criticalHit := true

def smiteFormula : Formula := ⟨"2d6r1+3", [⟨none, ⟨"2d6r1+3", ⟨2, 6, 3, [⟨.reroll, .one 1, false⟩]⟩⟩⟩]⟩

theorem analyze_foresees_smite : ∃ r table' p range,
    execute {} smite (Table.opening [6, 1, 4, 8]) = (.ok r, table') ∧ r.outcome.total = 21 ∧
    (analyze {} smite []).1 = .ok (p : Preview ℚ) ∧ p.labelRanges = [("roll_1", range)] ∧
    range.Contains r.outcome.total ∧ range.min = 6 ∧ range.max = 23 := by
  have hf : Engine.formulaOf {} smite = .ok smiteFormula := eq_ok_of_toOption (by decide +kernel)
  have hseen := @Formula.foreseeable_of_parse {} "2d6r1+3" _ hf (by decide)
  have hspell : (⟨1, 8, 0, []⟩ : Pool).Foreseeable :=
    ⟨⟨{}, "1d8".toList, eq_ok_of_toOption (by decide +kernel)⟩, by simp⟩
  have hactive : ∀ m ∈ (activeIn {} smite .damage {}).1,
      m.kind = .dice ∧ m.amount.pool? = some ⟨1, 8, 0, []⟩ := by
    decide +kernel
  obtain ⟨r, hr, htotal⟩ := exists_eq_ok_of_any (p := fun r : RollResult => r.outcome.total == 21)
    (show (execute {} smite (Table.opening [6, 1, 4, 8])).1.toOption.any _ = true by decide +kernel)
  have he : execute {} smite (Table.opening [6, 1, 4, 8]) = (.ok r, _) := Prod.ext hr rfl
  obtain ⟨p, hp, hends⟩ := exists_eq_ok_of_any (p := fun p : Preview ℚ =>
      decide (p.labelRanges.map (fun r => (r.1, r.2.min, r.2.max)) = [("roll_1", 6, 23)]))
    (show (analyze {} smite []).1.toOption.any _ = true by decide +kernel)
  have hforeseen := analyze_foresees_only hf rfl rfl (hseen _ List.mem_cons_self) ?_ nofun he []
  · rw [hp] at hforeseen
    obtain ⟨plain, range, _, _, hranges, _, hcontains⟩ := hforeseen
    rw [hranges] at hends
    obtain ⟨-, hends⟩ : _ ∧ range.min = 6 ∧ range.max = 23 := by
      simpa using of_decide_eq_true hends
    exact ⟨r, _, p, range, he, by simpa using htotal, hp, hranges,
      hcontains fun _ => ⟨rfl, .inl rfl⟩, hends⟩
  · intro m hm
    obtain ⟨hk, hdice⟩ := hactive m hm
    have hscales : m.kind.scales = false := by rw [hk]; rfl
    refine ⟨⟨by simp [hk], fun t _ ht => ?_, fun h => by simp [hscales] at h⟩, hscales⟩
    have hpool : t.pool = ⟨1, 8, 0, []⟩ := by simpa [ht, Amount.pool?] using hdice
    rw [hpool]
    exact hspell

def cruelRules : CriticalRules := { additionalDice := some "1d6" }

def cruelBlow : Definition where
  id := "blow"
  kind := .damage
  wording := .text "1d8"
  criticalHit := true

theorem analyze_misses_cruelBlow : ∃ e r table' p,
    build cruelRules {} (Rulebook.standard {} true true true) 100 0.0 = .ok e ∧
    e.execute cruelBlow (Table.opening [8, 6]) = (.ok r, table') ∧
    (e.analyze cruelBlow []).1 = .ok (p : Preview ℚ) ∧
    p.labelRanges.map (fun r => (r.1, r.2.min, r.2.max)) = [("roll_1", 1, 8)] ∧
    r.outcome.total = 14 := by
  let table := Table.opening [8, 6]
  obtain ⟨e, he, hruns⟩ := exists_eq_ok_of_any
    (p := fun e : Engine => (e.execute cruelBlow table).1.toOption.any (·.outcome.total == 14) &&
      (e.analyze cruelBlow []).1.toOption.any fun p : Preview ℚ =>
        decide (p.labelRanges.map (fun r => (r.1, r.2.min, r.2.max)) = [("roll_1", 1, 8)]))
    (show (build cruelRules {} (Rulebook.standard {} true true true) 100 0.0).toOption.any _ = true
      by decide +kernel)
  rw [Bool.and_eq_true] at hruns
  obtain ⟨r, hr, htotal⟩ := exists_eq_ok_of_any hruns.1
  obtain ⟨p, hp, hranges⟩ := exists_eq_ok_of_any hruns.2
  exact ⟨e, r, _, p, he, Prod.ext hr rfl, hp, of_decide_eq_true hranges, by simpa using htotal⟩

end Engine

end Previews

end DiceTower
