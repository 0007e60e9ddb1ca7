import DiceTower.Proofs.Dice.Growth
import DiceTower.Proofs.Engine.Places

/-! What a preview announces of a critical hit, and what is told of it once it was rolled. Preview and
roll find a segment in the same place, so that two things alone can set them apart: modifiers for
critical hits, and damage that the rules leave as it is because it is not the first. -/

namespace DiceTower

open DiceTower.Computation Drawing

section Runs

variable {σ : Type} [Source σ] {e : Engine} {d : Definition} {deadline : Option Float} {s : Segment}
  {kind : RollType} {carry : Carry} {source source' : σ} {before : List Passage}

/-- What a segment that was rolled tells of a critical hit. -/
def Passage.tells (q : Passage) : List String := q.rolled.outcome.metadata.notes.filter tellsHit

section Notes

theorem tellsHit_hitNote (hit : String × String) : tellsHit (hitNote hit) = true := by
  unfold tellsHit Text.beginsWith hitNote
  rw [String.append_assoc, String.append_assoc, String.toList_append, List.isPrefixOf_iff_prefix]
  exact List.prefix_append _ _

theorem not_tellsHit_append {first : String} {c : Char} (h : first.toList.head? = some c)
    (hc : c ≠ 'C') (rest : String) : tellsHit (first ++ rest) = false := by
  obtain ⟨cs, hcs⟩ := List.head?_eq_some_iff.mp h
  unfold tellsHit Text.beginsWith
  rw [String.toList_append, hcs]
  simp [List.isPrefixOf, hc.symm]

theorem Term.not_tellsHit_favoured {kind : RollType} {advantage : Bool} {label : String} {t : Term}
    (h : ∀ rest, tellsHit (label ++ rest) = false) :
    ∀ note ∈ (t.favoured kind advantage label).notes, tellsHit note = false := by
  unfold favoured
  split
  · exact List.forall_mem_nil _
  · split
    all_goals
      split
      · exact List.forall_mem_nil _
      · intro note hnote
        rw [List.mem_singleton.mp hnote, String.append_assoc]
        exact h _

theorem Term.not_tellsHit_withAdvantage (t : Term) (kind : RollType) (ms : List Modifier) :
    ∀ note ∈ (t.withAdvantage kind ms).notes, tellsHit note = false := by
  unfold withAdvantage
  dsimp only
  split
  · exact List.forall_mem_nil _
  · refine not_tellsHit_favoured fun rest => ?_
    rw [String.append_assoc, String.append_assoc]
    exact not_tellsHit_append (c := 'A') rfl (by decide) _
  · refine not_tellsHit_favoured fun rest => ?_
    rw [String.append_assoc, String.append_assoc]
    exact not_tellsHit_append (c := 'D') rfl (by decide) _
  · intro note hnote
    rw [List.mem_singleton.mp hnote]
    decide

theorem not_tellsHit_capNote (cap : Int) : tellsHit (capNote cap) = false := by
  unfold capNote
  rw [String.append_assoc]
  exact not_tellsHit_append (c := 'E') rfl (by decide) _

theorem Engine.tells_struck {active : List Modifier × List String} {plain : Term} {tally : Tally}
    (ht : ∀ note ∈ tally.notes, tellsHit note = false) :
    (e.struck d s kind carry active plain tally).outcome.metadata.notes.filter tellsHit =
      if e.transforms kind carry plain then [hitNote (plain.hit e.rules)] else [] := by
  have hnone {notes : List String} (h : ∀ note ∈ notes, tellsHit note = false) :
      notes.filter tellsHit = [] :=
    List.filter_eq_nil_iff.mpr fun note hnote => by simp [h note hnote]
  unfold struck
  dsimp only
  rw [List.filter_append, List.filter_append, hnone (s.term.not_tellsHit_withAdvantage kind _),
    hnone ht, List.nil_append, List.append_nil]
  split
  · next hdoubled =>
    have hnote : "Critical hit: " ++ plain.pool.text ++ " rolled as " ++
        (plain.critical e.rules).pool.text = hitNote (plain.hit e.rules) := rfl
    rw [rolledTerm, if_pos hdoubled, hnote, List.filter_cons_of_pos (tellsHit_hitNote _),
      List.filter_nil]
  · rfl

theorem Engine.gives_notes_tally {label : Option String} {ms : List Modifier} {remarks : List Item}
    {term : Term} {critical due : Bool} :
    Gives (e.tally deadline label kind ms remarks term critical due : Drawing σ Tally) fun t =>
      ∀ note ∈ t.notes, tellsHit note = false := by
  unfold tally
  refine (term.gives_capNotes label).bind fun rolled hrolled => ?_
  refine (Gives.trivial _).bind fun natural _ => (Gives.trivial _).bind fun bonuses _ => ?_
  refine (Gives.trivial _).bind fun extra _ => (Gives.trivial _).bind fun scaling _ => ?_
  refine (Gives.trivial _).bind fun faces _ => (Gives.trivial _).bind fun id _ => .of_pure ?_
  intro note hnote
  rw [hrolled note hnote]
  exact not_tellsHit_capNote e.cap

end Notes

/-- A segment that was rolled in its place: the dice are those that the modifiers leave, and what is
told of a critical hit is that these were doubled, if they were. -/
structure Engine.Echoes (e : Engine) (d : Definition) (before : List Passage) (x : Place)
    (q : Passage) : Prop where
  segment : x.segment = q.segment
  kind : x.kind = q.kind
  attacked : x.attacked = before.any (·.kind.isAttack)
  tells : ∃ t, x.dice e d (d.criticalHit || afterCritical before) = .ok t ∧
    q.tells = if e.rules.doubles before q then [hitNote (t.hit e.rules)] else []

theorem successOf_of_hit (hk : kind.isAttack = true) (target : Option Int) (total : Int)
    (failure : Bool) : successOf kind target total true failure ≠ some false := by
  cases target <;> simp [successOf, hk]

theorem Carry.Recalls.echoes (h : carry.Recalls e d before) (hm : carry.missed = false)
    {q : Passage} {st : Strike}
    (hst : Comes (e.strike d deadline q.segment q.kind carry) source st source')
    (ho : st.outcome.Timed q.rolled.outcome) :
    e.Echoes d before ⟨q.segment, q.kind, carry.used, before.any (·.kind.isAttack)⟩ q := by
  obtain ⟨plain, t, hplain, ht, rfl⟩ := Engine.struck_of_strike hst
  have hdoubled := h.transforms_eq fun hk => Engine.isFlat_of_settled hk hplain
  refine ⟨rfl, rfl, rfl, plain, ?_, ?_⟩
  · unfold Engine.activeIn criticalDamage at hplain
    rw [h.critical, hm] at hplain
    exact hplain []
  · obtain ⟨elapsed, ho⟩ := ho
    unfold Passage.tells
    rw [ho, ← hdoubled]
    exact Engine.tells_struck (d := d) (ht.of_gives Engine.gives_notes_tally)

namespace Engine

theorem echoes_rollSegment (h : carry.Recalls e d before) (hm : carry.missed = false)
    {rolled rolled' : Rolled} {after : Carry}
    (hs : Comes (e.rollSegment d deadline s kind carry) source (rolled, after) source')
    (hr : rolled.Timed rolled')
    (hhit : kind.isAttack = true → rolled'.outcome.criticalSuccess = true) :
    e.Echoes d before ⟨s, kind, carry.used, before.any (·.kind.isAttack)⟩ ⟨s, kind, rolled'⟩ ∧
      after.Recalls e d (before ++ [⟨s, kind, rolled'⟩]) ∧ after.missed = false ∧
      after.used = (e.active d kind carry.used).2 := by
  obtain ⟨_, _, _, hrecalls⟩ := tells_rollSegment h hs hr
  obtain ⟨st, n, used, source₁, hst, hcount, hextras, hmain, rfl⟩ := strike_copies_of_rollSegment hs
  have ho := hr.1
  rw [hmain] at ho
  have hused : st.carry.used = (e.active d kind carry.used).2 := by
    rw [hst.of_gives gives_used_strike, hm]
    exact used_activate_critical _ _
  refine ⟨h.echoes (q := ⟨s, kind, rolled'⟩) hm hst ho, hrecalls, ?_, ?_⟩
  · obtain ⟨plain, t, _, _, rfl⟩ := struck_of_strike hst
    obtain ⟨elapsed, ho⟩ := ho
    show (e.struck d s kind carry _ plain t).carry.missed = false
    rw [missed_struck]
    split
    · next hk =>
      have hcritical := hhit hk
      rw [ho] at hcritical
      have hsuccess := successOf_of_hit hk (d.context.targetNumber kind) (Item.counted t.items)
        (isCriticalFailure (if kind = .initiative then none else t.natural) e.rules)
      rw [← hcritical] at hsuccess
      exact beq_eq_false_iff_ne.mpr hsuccess
    · exact hm
  · show used = _
    split at hcount
    · next hk => exact (hextras.of_gives (gives_used_copies hk hused n)).trans hused
    · cases hcount
      exact (Prod.mk.inj (comes_pure_iff.mp hextras).1).2.trans hused

theorem echoes_rollSegments {segments : List (Segment × RollType)} {parts rolled : List Rolled}
    (h : carry.Recalls e d before) (hm : carry.missed = false)
    (hs : Comes (e.rollSegments d deadline carry segments) source parts source')
    (hr : List.Forall₂ Rolled.Timed parts rolled)
    (hhits : ∀ q ∈ passages segments rolled, q.kind.isAttack = true →
      q.rolled.outcome.criticalSuccess = true)
    {earlier later : List Passage} {q : Passage}
    (he : passages segments rolled = earlier ++ q :: later) :
    ∃ x, (e.places d carry.used (before.any (·.kind.isAttack)) segments)[earlier.length]? = some x ∧
      e.Echoes d (before ++ earlier) x q := by
  induction segments generalizing carry before source parts rolled earlier with
  | nil => simp [passages] at he
  | cons segment segments ih =>
    obtain ⟨s, kind⟩ := segment
    obtain ⟨⟨part, carry'⟩, source₁, hpart, hs⟩ := Comes.of_bind hs
    obtain ⟨rest, source₂, hrest, hs⟩ := hs.of_bind
    obtain ⟨rfl, rfl⟩ := comes_pure_iff.mp hs
    cases hr with
    | @cons _ part' _ rolled ho hr =>
      rw [passages_cons] at he hhits
      obtain ⟨hhit, hlater⟩ := List.forall_mem_cons.mp hhits
      obtain ⟨hechoes, hrecalls, hmissed, hused⟩ := echoes_rollSegment h hm hpart ho hhit
      cases earlier with
      | nil =>
        obtain ⟨rfl, _⟩ := List.cons.inj he
        rw [List.append_nil]
        exact ⟨_, rfl, hechoes⟩
      | cons p earlier =>
        obtain ⟨rfl, hrolled⟩ := List.cons.inj he
        obtain ⟨x, hx, hq⟩ := ih hrecalls hmissed hrest hr hlater hrolled
        rw [List.append_assoc, List.singleton_append] at hq
        refine ⟨x, ?_, hq⟩
        rw [hused, List.any_append, List.any_cons, List.any_nil, Bool.or_false] at hx
        exact hx

end Engine

end Runs

section Dice

variable {e : Engine} {d : Definition} {x : Place} {t t' : Term}

/-- The dice that became others are read off a note, as no notation has a space in it. -/
theorem fst_eq_of_hitNote_eq {hit hit' : String × String} (h : ' ' ∉ hit.1.toList)
    (h' : ' ' ∉ hit'.1.toList) (he : hitNote hit = hitNote hit') : hit.1 = hit'.1 := by
  have hspace : " rolled as ".toList = ' ' :: "rolled as ".toList := rfl
  have hfirst {cs rest : List Char} (hcs : ' ' ∉ cs) :
      (cs ++ ' ' :: rest).takeWhile (· ≠ ' ') = cs := by
    have hall : ∀ c ∈ cs, decide (c ≠ ' ') = true := fun c hc =>
      decide_eq_true fun he => hcs (by rwa [he] at hc)
    rw [List.takeWhile_append_of_pos hall, List.takeWhile_cons_of_neg (by simp), List.append_nil]
  have hlist := congrArg String.toList he
  unfold hitNote at hlist
  simp only [String.toList_append, List.append_assoc, hspace, List.cons_append] at hlist
  have hrest := congrArg (List.takeWhile (· ≠ ' ')) (List.append_cancel_left hlist)
  rw [hfirst h, hfirst h'] at hrest
  exact String.toList_injective hrest

theorem Place.hitNote_eq_iff {critical critical' : Bool} (hk : x.kind.isDamage = true)
    {limits : Limits} {cs : List Char} (hd : Denotes limits cs x.segment.term.pool)
    (hf : ¬ x.segment.term.pool.isFlat = true) (h : x.dice e d critical = .ok t)
    (h' : x.dice e d critical' = .ok t') (rules : CriticalRules) :
    hitNote (t'.hit rules) = hitNote (t.hit rules) ↔ t'.pool = t.pool := by
  have hsingle {u : Term} {critical : Bool} (hu : x.dice e d critical = .ok u) :
      Single u.pool.operations := fun op hop =>
    have ⟨n, hn, _⟩ := ((allowed_dice hk hd hf hu).2.2.2 op hop).value
    ⟨n, hn⟩
  constructor
  · intro he
    have hfirst : (t'.hit rules).1 = (t.hit rules).1 := fst_eq_of_hitNote_eq
      (Pool.space_not_mem_text (hsingle h')) (Pool.space_not_mem_text (hsingle h)) he
    exact pool_eq_of_text_eq hk hd hf h h' hfirst
  · intro hpool
    rw [Term.hit_congr hpool]

/-- What is told of damage after a critical hit is what was announced, exactly where its dice are
those that were announced and are doubled as they could be. -/
theorem Engine.Echoes.tells_eq_iff {before : List Passage} {q : Passage}
    (h : e.Echoes d before x q) (hx : ∃ t, x.dice e d d.criticalHit = .ok t) {limits : Limits}
    {cs : List Char} (hd : Denotes limits cs q.segment.term.pool) (hk : q.kind.isDamage = true)
    (ha : ∃ p ∈ before, p.kind.isAttack = true) (hcritical : afterCritical before = true) :
    q.tells = (x.announced e d).toList.map hitNote ↔
      q.segment.term.pool.isFlat = true ∨ x.SameDice e d ∧
        (e.rules.affected = .weaponOnly →
          (sinceAttack before).any Passage.isDamageDice = false) := by
  obtain ⟨t, hdice⟩ := hx
  obtain ⟨t', hdice', htells⟩ := h.tells
  rw [hcritical, Bool.or_true] at hdice'
  have hkind : x.kind.isDamage = true := by rwa [h.kind]
  have hattacked : x.attacked = true := by
    rw [h.attacked]
    exact List.any_eq_true.mpr ha
  have hflat : t.pool.isFlat = q.segment.term.pool.isFlat := by
    rw [Place.isFlat_dice hkind hdice, h.segment]
  rw [htells, CriticalRules.doubles, Passage.isDamageDice, hcritical, hk, Place.announced, hdice]
  dsimp only
  rw [hkind, hattacked, hflat]
  by_cases hf : q.segment.term.pool.isFlat = true
  · simp [hf]
  · have hsame : x.SameDice e d ↔ hitNote (t'.hit e.rules) = hitNote (t.hit e.rules) := by
      rw [← h.segment] at hd hf
      rw [Place.hitNote_eq_iff hkind hd hf hdice hdice']
      constructor
      · rintro ⟨u, u', hu, hu', hpool⟩
        obtain rfl := Except.ok.inj (hdice.symm.trans hu)
        obtain rfl := Except.ok.inj (hdice'.symm.trans hu')
        exact hpool
      · exact fun hpool => ⟨t, t', hdice, hdice', hpool⟩
    rw [hsame]
    cases hlater : (sinceAttack before).any Passage.isDamageDice <;>
      cases haffected : e.rules.affected <;> simp [hf]

end Dice

section Hits

variable {before : List Passage}

theorem afterCritical_of_hits (h : ∃ p ∈ before, p.kind.isAttack = true)
    (hhits : ∀ p ∈ before, p.kind.isAttack = true → p.rolled.outcome.criticalSuccess = true) :
    afterCritical before = true := by
  unfold afterCritical lastAttack?
  cases hp : before.reverse.find? (·.kind.isAttack) with
  | none =>
    obtain ⟨p, hmem, hk⟩ := h
    exact absurd hk (List.find?_eq_none.mp hp p (List.mem_reverse.mpr hmem))
  | some p =>
    have hk : p.kind.isAttack = true := by simpa using List.find?_some hp
    exact hhits p (List.mem_reverse.mp (List.mem_of_find?_eq_some hp)) hk

theorem countP_passages {segments : List (Segment × RollType)} {rolled : List Rolled}
    (h : rolled.length = segments.length) :
    (passages segments rolled).countP (·.kind.isAttack) =
      (segments.map (·.2)).countP (·.isAttack) := by
  induction segments generalizing rolled with
  | nil => rfl
  | cons s segments ih =>
    obtain ⟨part, rolled, rfl⟩ := List.exists_cons_of_length_eq_add_one h
    rw [passages_cons, List.map_cons, List.countP_cons, List.countP_cons, ih (Nat.succ.inj h)]

theorem eq_of_countP_eq_one {α : Type} {p : α → Bool} {l : List α} (h : l.countP p = 1) {a b : α}
    (ha : a ∈ l) (hb : b ∈ l) (hpa : p a = true) (hpb : p b = true) : a = b := by
  rw [List.countP_eq_length_filter] at h
  obtain ⟨c, hc⟩ := List.length_eq_one_iff.mp h
  have ha' : a ∈ l.filter p := List.mem_filter.mpr ⟨ha, hpa⟩
  have hb' : b ∈ l.filter p := List.mem_filter.mpr ⟨hb, hpb⟩
  rw [hc, List.mem_singleton] at ha' hb'
  rw [ha', hb']

end Hits

/-- A preview and a roll of a formula in which all attacks are critical hits. Every note of the preview
has its place; and of damage after an attack the roll tells what the preview announced, exactly where
the dice are numbers, or are those of the preview and are doubled: the rules may affect the weapon
alone, and modifiers for critical hits may change the dice. -/
structure Engine.Heralds {α : Type} (e : Engine) (d : Definition) (f : Formula) (r : RollResult)
    (p : Preview α) : Prop where
  notes : ∃ faces : Option String,
    p.notes = (e.places d [] false (f.segments.zip (f.kinds d.kind))).flatMap (·.notes e d) ++
      faces.toList.map ("Critical hit on " ++ ·)
  damage : ∀ before q after, passages (f.segments.zip (f.kinds d.kind)) r.rolled =
      before ++ q :: after →
    q.kind.isDamage = true → (∃ a ∈ before, a.kind.isAttack = true) →
    ∃ x, (e.places d [] false (f.segments.zip (f.kinds d.kind)))[before.length]? = some x ∧
      x.segment = q.segment ∧
      (q.tells = (x.announced e d).toList.map hitNote ↔
        q.segment.term.pool.isFlat = true ∨ x.SameDice e d ∧
          (e.rules.affected = .weaponOnly →
            (sinceAttack before).any Passage.isDamageDice = false)) ∧
      (d.criticalHit = true ∨ (∀ m ∈ x.modifiers e d true, m.timing = .onCritical →
        m.kind.operation? = none) → x.SameDice e d)

namespace Engine

variable {σ α : Type} [Source σ] [Chance α] {e : Engine} {d : Definition} {f : Formula}

/-- A formula is read in which there is one attack, and it is rolled as a critical hit. Of damage
after it the roll tells what a preview announced, but for two things: damage that is not the first
where the rules affect the weapon alone, and dice that modifiers for critical hits change. -/
theorem heralds_of_execute {limits : Limits} {text : String}
    (hparse : Formula.parse limits text = .ok f) (hf : e.formulaOf d = .ok f)
    (hone : (f.kinds d.kind).countP (·.isAttack) = 1) {r : RollResult} {table table' : Table σ}
    (h : e.execute d table = (.ok r, table'))
    (hcritical : ∃ a ∈ passages (f.segments.zip (f.kinds d.kind)) r.rolled,
      a.kind.isAttack = true ∧ a.rolled.outcome.criticalSuccess = true) :
    Gives (e.analyze d : Noted (Preview α)) (e.Heralds d f r) := by
  obtain ⟨g, hg, deadline, parts, hparts, hrolled, _⟩ := exists_rollSegments_of_execute h
  obtain rfl := Except.ok.inj (hf.symm.trans hg)
  obtain ⟨hlength, -⟩ := tells_rollSegments Carry.recalls_start hparts hrolled
  have hkinds : (f.segments.zip (f.kinds d.kind)).map (·.2) = f.kinds d.kind :=
    List.map_snd_zip (length_segmentKinds ..).le
  obtain ⟨a, ha, hattack, hhit⟩ := hcritical
  have hhits : ∀ q ∈ passages (f.segments.zip (f.kinds d.kind)) r.rolled,
      q.kind.isAttack = true → q.rolled.outcome.criticalSuccess = true := by
    intro q hq hk
    have hcount := countP_passages hlength
    rw [hkinds, hone] at hcount
    rwa [eq_of_countP_eq_one hcount hq ha hk hattack]
  refine (gives_analyze hf).mono fun p hp => ?_
  obtain ⟨hdice, hnotes⟩ := hp
  refine ⟨hnotes, fun before q after he hk hbefore => ?_⟩
  obtain ⟨x, hx, hechoes⟩ := echoes_rollSegments Carry.recalls_start rfl hparts hrolled hhits he
  have hplace := hdice x (List.mem_of_getElem? hx)
  have hsegment : q.segment ∈ f.segments := by
    have hmem : q ∈ passages (f.segments.zip (f.kinds d.kind)) r.rolled := by simp [he]
    exact (List.of_mem_zip (mem_of_mem_passages hmem)).1
  obtain ⟨cs, hdenotes⟩ := ((Formula.readable_of_parse hparse).2 q.segment hsegment).pool
  have hafter := afterCritical_of_hits hbefore fun p hp => hhits p (by simp [he, hp])
  have hkind : x.kind.isDamage = true := by rwa [hechoes.kind]
  exact ⟨x, hx, hechoes.segment, hechoes.tells_eq_iff hplace hdenotes hk hbefore hafter,
    Place.sameDice hkind hplace⟩

def sweeping : Engine := { rules := { affected := .allDamage } }

def flamingBlow : Definition where
  id := "flaming"
  kind := .attack
  wording := .text "attack:1d20,damage:2d6+3,damage:1d8"
  modifiers := [{
    id := "savage"
    name := "Savage"
    source := .feat
    kind := .flat
    amount := .whole 4
    timing := .onCritical }]

theorem heralds_flamingBlow : ∃ f r table' p records,
    Formula.parse {} "attack:1d20,damage:2d6+3,damage:1d8" = .ok f ∧
    sweeping.formulaOf flamingBlow = .ok f ∧
    (f.kinds flamingBlow.kind).countP (·.isAttack) = 1 ∧
    sweeping.execute flamingBlow (Table.opening [20, 3, 1, 5, 6, 8, 7]) = (.ok r, table') ∧
    (∃ a ∈ passages (f.segments.zip (f.kinds flamingBlow.kind)) r.rolled,
      a.kind.isAttack = true ∧ a.rolled.outcome.criticalSuccess = true) ∧
    sweeping.analyze flamingBlow [] = (.ok (p : Preview ℚ), records) ∧
    sweeping.Heralds flamingBlow f r p := by
  let table := Table.opening [20, 3, 1, 5, 6, 8, 7]
  obtain ⟨f, hf, hrolls⟩ := exists_eq_ok_of_any
    (p := fun f : Formula => (f.kinds flamingBlow.kind).countP (·.isAttack) == 1 &&
      (sweeping.execute flamingBlow table).1.toOption.any fun r =>
        (passages (f.segments.zip (f.kinds flamingBlow.kind)) r.rolled).any fun a =>
          a.kind.isAttack && a.rolled.outcome.criticalSuccess)
    (show (Formula.parse {} "attack:1d20,damage:2d6+3,damage:1d8").toOption.any _ = true by
      decide +kernel)
  rw [Bool.and_eq_true, beq_iff_eq] at hrolls
  obtain ⟨hone, hrolls⟩ := hrolls
  obtain ⟨r, hr, hhit⟩ := exists_eq_ok_of_any hrolls
  obtain ⟨p, hp, -⟩ := exists_eq_ok_of_any (p := fun _ : Preview ℚ => true)
    (show (sweeping.analyze flamingBlow []).1.toOption.any _ = true by decide +kernel)
  have hread : sweeping.formulaOf flamingBlow = .ok f := hf
  have hcritical : ∃ a ∈ passages (f.segments.zip (f.kinds flamingBlow.kind)) r.rolled,
      a.kind.isAttack = true ∧ a.rolled.outcome.criticalSuccess = true := by
    simpa using hhit
  exact ⟨f, r, _, p, _, hf, hread, hone, Prod.ext hr rfl, hcritical, Prod.ext hp rfl,
    heralds_of_execute hf hread hone (Prod.ext hr rfl) hcritical _ _ _ (Prod.ext hp rfl)⟩

def brutalBlow : Definition where
  id := "brutal"
  kind := .attack
  wording := .text "attack:1d20,damage:1d8"
  modifiers := [{
    id := "brutal"
    name := "Brutal"
    source := .feat
    kind := .minimum
    amount := .whole 2
    timing := .onCritical }]

/-- The dice that the preview has are not those of the critical hit. -/
example : (analyze {} brutalBlow []).1.toOption.map (fun p : Preview ℚ => p.notes) =
      some ["On a critical hit 1d8 becomes 2d8"] ∧
    (execute {} brutalBlow (Table.opening [20, 3, 4])).1.toOption.map (fun r =>
      r.rolled.map (·.outcome.metadata.notes)) =
      some [[], ["Critical hit: 1d8min2 rolled as 2d8min2"]] := by
  decide +kernel

def flurry : Definition where
  id := "flurry"
  kind := .attack
  wording := .text "attack:1d20,damage:1d8,damage:1d6"
  withCharacter := false

/-- The preview announces for both what the roll does for the first. -/
theorem analyze_announces_flurry : ∃ f r table' p, Engine.formulaOf {} flurry = .ok f ∧
    (f.kinds flurry.kind).countP (·.isAttack) = 1 ∧
    execute {} flurry (Table.opening [20, 3, 4, 5]) = (.ok r, table') ∧
    r.rolled.head?.any (·.outcome.criticalSuccess) = true ∧
    (analyze {} flurry []).1 = .ok (p : Preview ℚ) ∧
    p.notes = ["On a critical hit 1d8 becomes 2d8", "On a critical hit 1d6 becomes 2d6"] ∧
    r.rolled.map (·.outcome.metadata.notes) = [[], ["Critical hit: 1d8 rolled as 2d8"], []] := by
  obtain ⟨f, hf, hone⟩ := exists_eq_ok_of_any
    (p := fun f : Formula => decide ((f.kinds flurry.kind).countP (·.isAttack) = 1))
    (show (Engine.formulaOf {} flurry).toOption.any _ = true by decide +kernel)
  obtain ⟨r, hr, hroll⟩ := exists_eq_ok_of_any
    (p := fun r : RollResult => decide (r.rolled.head?.any (·.outcome.criticalSuccess) = true ∧
      r.rolled.map (·.outcome.metadata.notes) = [[], ["Critical hit: 1d8 rolled as 2d8"], []]))
    (show (execute {} flurry (Table.opening [20, 3, 4, 5])).1.toOption.any _ = true by
      decide +kernel)
  obtain ⟨p, hp, hnotes⟩ := exists_eq_ok_of_any
    (p := fun p : Preview ℚ => decide (p.notes =
      ["On a critical hit 1d8 becomes 2d8", "On a critical hit 1d6 becomes 2d6"]))
    (show (analyze {} flurry []).1.toOption.any _ = true by decide +kernel)
  obtain ⟨hcritical, htold⟩ := of_decide_eq_true hroll
  exact ⟨f, r, _, p, hf, of_decide_eq_true hone, Prod.ext hr rfl, hcritical, hp,
    of_decide_eq_true hnotes, htold⟩

end Engine

end DiceTower
