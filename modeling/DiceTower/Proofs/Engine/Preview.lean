import DiceTower.Proofs.Engine.Execution
import DiceTower.Proofs.Engine.Foreseen

/-! The preview of a roll bounds what is rolled. Roll and preview go through the segments in step:
what is used up in one segment is used up in both, and where no attack is a critical hit or a miss
nothing else is carried on. -/

namespace DiceTower

open DiceTower.Computation

namespace Engine

inductive FollowsAll (e : Engine) (d : Definition) :
    List String → List (Segment × RollType) → List Rolled → Prop where
  | nil {used} : FollowsAll e d used [] []
  | cons {used s kind segments r parts} : e.Follows s kind (e.active d kind used).1 r.outcome →
      FollowsAll e d (e.active d kind used).2 segments parts →
      FollowsAll e d used ((s, kind) :: segments) (r :: parts)

section Rolls

variable {σ : Type} [Source σ] {e : Engine} {d : Definition} {deadline : Option Float}
  {s : Segment} {kind : RollType} {carry : Carry}

theorem gives_used_copies (hk : kind.isAttack = true) {used : List String}
    (hu : carry.used = (e.active d kind used).2) (n : Nat) :
    Gives (e.copies d deadline s kind carry n : Drawing σ (List Outcome × List String)) fun r =>
      r.2 = carry.used := by
  have hdamage := RollType.not_isDamage_of_isAttack hk
  induction n generalizing carry with
  | zero => exact .of_pure rfl
  | succ n ih =>
    refine gives_used_strike.bind fun copy hcopy => ?_
    have hsame : copy.carry.used = carry.used := by
      rw [hcopy, hdamage, Bool.false_and, activate_of_not_isDamage hdamage false, hu]
      exact used_activate_activate
    refine (Gives.trivial _).bind fun outcome _ => ?_
    have hlater : copy.carry.used = (e.active d kind used).2 := hsame.trans hu
    refine (@ih { carry with used := copy.carry.used } hlater).bind fun r hr => .of_pure ?_
    exact hr.trans hsame

theorem gives_rollSegment (hd : d.criticalHit = false) (hc : carry.Calm) (hp : s.term.pool.Sound)
    (hm : ∀ m ∈ (e.active d kind carry.used).1, m.Foreseeable) :
    Gives (e.rollSegment d deadline s kind carry : Drawing σ (Rolled × Carry)) fun r =>
      r.2.used = (e.active d kind carry.used).2 ∧ (r.1.outcome.Calm → r.2.Calm) ∧
      e.Follows s kind (e.active d kind carry.used).1 r.1.outcome := by
  refine (gives_strike hd hc hp hm).bind fun main hmain => ?_
  obtain ⟨hused, hcalm, hfollows⟩ := hmain
  refine (Gives.of_lift fun n h => h).bind fun n hn => ?_
  have hcopies : Gives (e.copies d deadline s kind main.carry n :
      Drawing σ (List Outcome × List String)) fun r => r.2 = main.carry.used := by
    by_cases hk : kind.isAttack = true
    · exact gives_used_copies hk hused n
    · rw [if_neg hk] at hn
      cases hn
      exact .of_pure rfl
  refine hcopies.bind fun r hr => ?_
  refine (Gives.of_lift fun o h => (Outcome.check_eq_ok_iff.mp h).1).bind fun outcome ho =>
    .of_pure ?_
  subst ho
  exact ⟨hr.trans hused, hcalm, hfollows⟩

theorem gives_rollSegments (hd : d.criticalHit = false) {segments : List (Segment × RollType)}
    (hp : ∀ s ∈ segments, s.1.term.pool.Sound) :
    Gives (e.rollSegments d deadline carry segments : Drawing σ (List Rolled)) fun parts =>
      carry.Calm → (∀ ms ∈ e.actives d carry.used (segments.map (·.2)), ∀ m ∈ ms, m.Foreseeable) →
      (∀ r ∈ parts, r.outcome.Calm) → e.FollowsAll d carry.used segments parts := by
  induction segments generalizing carry with
  | nil => exact .of_pure fun _ _ _ => .nil
  | cons s segments ih =>
    obtain ⟨s, kind⟩ := s
    obtain ⟨hs, hsegments⟩ := List.forall_mem_cons.mp hp
    -- calm is known of the whole roll only, so each step is taken under its conditions
    have hfirst : Gives (e.rollSegment d deadline s kind carry :
        Drawing σ (Rolled × Carry)) fun r =>
        carry.Calm → (∀ m ∈ (e.active d kind carry.used).1, m.Foreseeable) →
        r.2.used = (e.active d kind carry.used).2 ∧ (r.1.outcome.Calm → r.2.Calm) ∧
        e.Follows s kind (e.active d kind carry.used).1 r.1.outcome :=
      fun _ _ _ h hc hm => gives_rollSegment hd hc hs hm _ _ _ h
    refine hfirst.bind fun r hr => (ih hsegments).bind fun rest hrest => .of_pure ?_
    intro hc hm hcalm
    obtain ⟨hm, hms⟩ := List.forall_mem_cons.mp hm
    obtain ⟨hfirst, hothers⟩ := List.forall_mem_cons.mp hcalm
    obtain ⟨hused, hnext, hfollows⟩ := hr hc hm
    rw [hused] at hrest
    exact .cons hfollows (hrest (hnext hfirst) hms hothers)

end Rolls

section Room

/-- No two faces are as far apart as a list can be long. -/
def AreClose (faces : List Int) : Prop := ∀ m ∈ faces, ∀ n ∈ faces, n - m < memoryLimit

instance (faces : List Int) : Decidable (AreClose faces) :=
  inferInstanceAs (Decidable (∀ m ∈ faces, ∀ n ∈ faces, n - m < memoryLimit))

/-- There is room for the dice of some segments and of their modifiers, with all that explosions may
add, and for the faces from the first critical one to the last. -/
structure HasRoom (e : Engine) (segments : List Segment) (mss : List (List Modifier)) : Prop where
  cap : e.cap ≤ memoryLimit
  dice : ∀ s ∈ segments, s.term.pool.count ≤ memoryLimit
  added : ∀ ms ∈ mss, ∀ m ∈ ms, ∀ t, m.amount = .dice t → t.pool.count ≤ memoryLimit
  range : AreClose e.rules.range
  faces : ∀ ms ∈ mss, ∀ faces, criticalRange e.rules ms = .ok faces → AreClose faces

variable {e : Engine} {s : Segment} {segments : List Segment} {ms : List Modifier}
  {mss : List (List Modifier)}

theorem HasRoom.tail (h : e.HasRoom (s :: segments) (ms :: mss)) : e.HasRoom segments mss where
  cap := h.cap
  dice := (List.forall_mem_cons.mp h.dice).2
  added := (List.forall_mem_cons.mp h.added).2
  range := h.range
  faces := (List.forall_mem_cons.mp h.faces).2

theorem HasRoom.not_crowded (h : e.HasRoom (s :: segments) (ms :: mss)) {kind : RollType}
    {plain : Term} (hp : ∀ records,
      ((s.term.withAdvantage kind ms).term.withOperations ms records).1 = .ok plain) :
    ¬ plain.Crowded e.cap ms := by
  have hs := h.dice s List.mem_cons_self
  have hcount : plain.pool.count ≤ memoryLimit := by
    rw [Term.gives_withOperations ms _ [] plain _ (Prod.ext (hp []) rfl)]
    rcases s.term.term_withAdvantage kind ms with he | ⟨_, advantage, he⟩
    · rwa [he]
    · rw [he]
      exact (by decide : (2 : Int) ≤ memoryLimit)
  rintro (hc | ⟨m, hm, t, ht, hc⟩)
  · exact Pool.not_crowded h.cap hcount hc
  · exact Pool.not_crowded h.cap (h.added ms List.mem_cons_self m hm t ht) hc

theorem foretells_describeFaces (faces : List Int) :
    Foretells (Fault.OfMemory ¬ AreClose faces) (fun _ => True) (describeFaces faces) := by
  unfold describeFaces
  dsimp only
  split
  · next first second rest =>
    refine ((foretells_roomFor _).crowd fun hlong hclose => ?_).bind fun _ _ => trivial
    have hlast : (second :: rest).getLastD second ∈ first :: second :: rest := by
      rw [List.getLastD_cons]
      exact List.mem_cons_of_mem _ (List.getLastD_mem_cons ..)
    have := hclose first List.mem_cons_self _ hlast
    omega
  · trivial

end Room

section Previews

def keysFrom (place : Nat) : List Segment → List String
  | [] => []
  | s :: segments => s.key place :: keysFrom (place + 1) segments

def Bounded (ranges : List (String × Range ℚ)) (keys : List String) (outcomes : List Outcome) :
    Prop :=
  List.Forall₂ (fun key o => ∃ range, ranges.lookup key = some range ∧ range.Contains o.total)
    keys outcomes

variable {e : Engine} {d : Definition} {s : Segment} {kind : RollType} {o : Outlook ℚ}
  {crowded wide : Prop}

theorem foretells_foresee_of_settled {F : Fault → Prop} {P : Range ℚ → Prop}
    {active : List Modifier × List String}
    (ha : active = activate kind (kind.isDamage && d.criticalHit) false o.used
      (e.rulebook.resolve d.context kind d.modifiers d.withCharacter)) {plain : Term}
    (hplain : ∀ records,
      ((s.term.withAdvantage kind active.1).term.withOperations active.1 records).1 = .ok plain)
    (hr : Foretells F P (segmentRange e.cap plain active.1))
    (hfaces : kind.isAttack = true → ∃ faces, criticalRange e.rules active.1 = .ok faces) :
    Noted.Foretells F (fun o' : Outlook ℚ => o'.count = o.count + 1 ∧ o'.used = active.2 ∧
      (o'.criticalFaces = o.criticalFaces ∨ criticalRange e.rules active.1 = .ok o'.criticalFaces) ∧
      ∃ range, P range ∧ segmentRange e.cap plain active.1 = .ok range ∧
        o'.ranges = Keyed.put (s.key o.count) range o.ranges ∧ o'.last = some range)
      (e.foresee d o s kind) := by
  have hactive := Noted.Foretells.of_answer (F := F)
    (e.answer_activeNoted d kind (kind.isDamage && d.criticalHit) false o.used)
  rw [← ha] at hactive
  unfold foresee
  refine hactive.bind ?_
  rintro active rfl
  refine (Noted.Foretells.of_answer hplain).bind ?_
  rintro _ rfl
  refine (Noted.Foretells.of_lift hr.and_eq).bind fun range hrange => ?_
  refine Noted.Foretells.bind (P := fun faces => faces = o.criticalFaces ∨
    criticalRange e.rules active.1 = .ok faces) (.of_lift ?_) fun faces hf => .of_pure ?_
  · split
    · next hk =>
      obtain ⟨faces, hfaces⟩ := hfaces (Bool.and_eq_true_iff.mp hk).1
      rw [hfaces]
      exact .inr rfl
    · exact .inl rfl
  · exact ⟨rfl, rfl, hf, range, hrange.1, hrange.2, rfl, rfl⟩

theorem foretells_foresee (hd : d.criticalHit = false) {outcome : Outcome}
    (hf : e.Follows s kind (e.active d kind o.used).1 outcome)
    (he : outcome.Exact ((e.active d kind o.used).1.countP (·.kind.scales)))
    {segments : List Segment} {mss : List (List Modifier)}
    (hc : ¬ crowded → e.HasRoom (s :: segments) ((e.active d kind o.used).1 :: mss))
    (hw : ¬ e.ForeseesExactly s kind (e.active d kind o.used).1 → wide) :
    Noted.Foretells (Fault.OfSize crowded wide) (fun o' : Outlook ℚ => o'.count = o.count + 1 ∧
      o'.used = (e.active d kind o.used).2 ∧
      (o'.criticalFaces = o.criticalFaces ∨
        criticalRange e.rules (e.active d kind o.used).1 = .ok o'.criticalFaces) ∧
      ∃ range, range.Contains outcome.total ∧ o'.ranges = Keyed.put (s.key o.count) range o.ranges ∧ o'.last = some range)
      (e.foresee d o s kind) := by
  obtain ⟨plain, hplain, hrange⟩ := hf.range
  have hwide : ¬ plain.ForeseenExactly e.cap (e.active d kind o.used).1 → wide :=
    fun h => hw fun hexact => h (hexact plain hplain)
  have hcrowded : plain.Crowded e.cap (e.active d kind o.used).1 → crowded :=
    fun h => by_contra fun hn => (hc hn).not_crowded hplain h
  have hactive : e.active d kind o.used = activate kind (kind.isDamage && d.criticalHit) false o.used
      (e.rulebook.resolve d.context kind d.modifiers d.withCharacter) := by
    rw [hd, Bool.and_false]
    rfl
  intro records
  refine (foretells_foresee_of_settled hactive hplain ((hrange he).widen hcrowded hwide) hf.faces
    records).mono fun o' ho' => ?_
  obtain ⟨hcount, hused, hfaces, range, hcontains, _, hranges, hlast⟩ := ho'
  exact ⟨hcount, hused, hfaces, range, hcontains, hranges, hlast⟩

/-- What a preview learns of all the segments that it follows. -/
theorem foretells_foldlM_foresee (hd : d.criticalHit = false)
    {segments : List (Segment × RollType)} {parts : List Rolled}
    (hf : e.FollowsAll d o.used segments parts)
    (he : List.Forall₂ (fun r (ms : List Modifier) => r.outcome.Exact (ms.countP (·.kind.scales)))
      parts (e.actives d o.used (segments.map (·.2))))
    (hk : (keysFrom o.count (segments.map (·.1))).Nodup)
    (hc : ¬ crowded →
      e.HasRoom (segments.map (·.1)) (e.actives d o.used (segments.map (·.2))))
    (hw : ¬ e.ForeseesAllExactly d o.used segments → wide)
    (hclose : ¬ crowded → AreClose o.criticalFaces) :
    Noted.Foretells (Fault.OfSize crowded wide) (fun o' : Outlook ℚ =>
      Bounded o'.ranges (keysFrom o.count (segments.map (·.1))) (parts.map (·.outcome)) ∧
      (∀ key ∉ keysFrom o.count (segments.map (·.1)),
        o'.ranges.lookup key = o.ranges.lookup key) ∧
      (o.last.isSome ∨ parts ≠ [] → o'.last.isSome) ∧ (¬ crowded → AreClose o'.criticalFaces))
      (segments.foldlM (fun o s => e.foresee d o s.1 s.2) o) := by
  generalize hu : o.used = used at hf he hw hc
  induction hf generalizing o with
  | nil => exact .of_pure ⟨.nil, fun _ _ => rfl, fun h => h.resolve_right (by simp), hclose⟩
  | @cons used s kind segments r parts hfirst _ ih =>
    subst hu
    rw [List.map_cons, actives, List.forall₂_cons] at he
    simp only [List.map_cons, actives] at hc
    rw [List.map_cons, keysFrom, List.nodup_cons] at hk
    rw [List.foldlM_cons]
    have hw₁ : ¬ e.ForeseesExactly s kind (e.active d kind o.used).1 → wide :=
      fun h => hw fun hexact => h hexact.1
    have hw₂ : ¬ e.ForeseesAllExactly d (e.active d kind o.used).2 segments → wide :=
      fun h => hw fun hexact => h hexact.2
    refine (foretells_foresee hd hfirst he.1 hc hw₁).bind fun o' ho' => ?_
    obtain ⟨hcount, hused, hfaces, range, hcontains, hranges, hlast⟩ := ho'
    have hclose' (hn : ¬ crowded) : AreClose o'.criticalFaces := by
      rcases hfaces with hsame | hwidened
      · rw [hsame]
        exact hclose hn
      · exact (hc hn).faces _ List.mem_cons_self _ hwidened
    intro records
    refine (ih (by rw [hcount]; exact hk.2) hclose' hused he.2 hw₂ (fun hn => (hc hn).tail)
      records).mono fun o'' ho'' => ?_
    obtain ⟨hbounded, hothers, hlast', hlate⟩ := ho''
    rw [hcount] at hbounded hothers
    rw [List.map_cons, keysFrom, List.map_cons]
    refine ⟨.cons ⟨range, ?_, hcontains⟩ hbounded, fun key hkey => ?_, fun _ => ?_, hlate⟩
    · rw [hothers _ hk.1, hranges, Keyed.lookup_put]
    · rw [List.mem_cons, not_or] at hkey
      rw [hothers _ hkey.2, hranges, Keyed.lookup_put_of_ne hkey.1]
    · exact hlast' (.inl (by rw [hlast]; rfl))

theorem foretells_analyze_of_foresee {F : Fault → Prop}
    (hF : ∀ fault, fault.OfMemory crowded → F fault)
    {f : Formula} (hformula : e.formulaOf d = .ok f) {P : List (String × Range ℚ) → Prop}
    (h : Noted.Foretells F (fun o : Outlook ℚ => P o.ranges ∧ o.last.isSome ∧
        (¬ crowded → AreClose o.criticalFaces))
      ((f.segments.zip (f.kinds d.kind)).foldlM (fun o s => e.foresee d o s.1 s.2)
        { criticalFaces := e.rules.range })) :
    Noted.Foretells F (fun p : Preview ℚ => P p.labelRanges) (e.analyze d) := by
  unfold analyze
  rw [hformula, lift_ok_bind]
  refine h.bind fun o ⟨hranges, hsome, hclose⟩ => ?_
  obtain ⟨range, hlast⟩ := Option.isSome_iff_exists.mp hsome
  rw [hlast]
  refine Noted.Foretells.bind (P := fun _ => True) (.of_lift ?_) fun remark _ => .of_pure hranges
  split
  · trivial
  · have hdescribed := (foretells_describeFaces o.criticalFaces).crowd fun hn =>
      by_contra fun hroom => hn (hclose hroom)
    exact .map ((hdescribed.mono fun _ _ => trivial).allow hF)

theorem foretells_analyze (hd : d.criticalHit = false) {f : Formula}
    (hformula : e.formulaOf d = .ok f) {parts : List Rolled} (hparts : parts ≠ [])
    (hf : e.FollowsAll d [] (f.segments.zip (f.kinds d.kind)) parts)
    (he : List.Forall₂ (fun r (ms : List Modifier) => r.outcome.Exact (ms.countP (·.kind.scales)))
      parts (e.actives d [] (f.kinds d.kind)))
    (hk : (keysFrom 0 f.segments).Nodup)
    (hc : ¬ crowded → e.HasRoom f.segments (e.actives d [] (f.kinds d.kind)))
    (hw : ¬ e.ForeseesAllExactly d [] (f.segments.zip (f.kinds d.kind)) → wide) :
    Noted.Foretells (Fault.OfSize crowded wide) (fun p : Preview ℚ =>
      Bounded p.labelRanges (keysFrom 0 f.segments) (parts.map (·.outcome))) (e.analyze d) := by
  have hl : f.segments.length = (f.kinds d.kind).length := (length_segmentKinds ..).symm
  have hkinds : (f.segments.zip (f.kinds d.kind)).map (·.2) = f.kinds d.kind :=
    List.map_snd_zip hl.ge
  have hsegments : (f.segments.zip (f.kinds d.kind)).map (·.1) = f.segments :=
    List.map_fst_zip hl.le
  have hrange (hn : ¬ crowded) : AreClose e.rules.range := (hc hn).range
  have hc' (hn : ¬ crowded) : e.HasRoom ((f.segments.zip (f.kinds d.kind)).map (·.1))
      (e.actives d [] ((f.segments.zip (f.kinds d.kind)).map (·.2))) := by
    rw [hsegments, hkinds]
    exact hc hn
  rw [← hkinds] at he
  rw [← hsegments] at hk ⊢
  refine foretells_analyze_of_foresee (P := fun ranges => Bounded ranges _ _)
    (fun _ h => Or.inl h) hformula fun records => ?_
  exact (foretells_foldlM_foresee hd (o := { criticalFaces := e.rules.range }) hf he hk hc' hw
    hrange records).mono fun o ho => ⟨ho.1, ho.2.2.1 (.inr hparts), ho.2.2.2⟩

end Previews

end Engine

section Results

def RollResult.segments (r : RollResult) : List Outcome :=
  if r.parts.isEmpty then [r.outcome] else r.parts.map (·.outcome)

def Outcome.Timed (o o' : Outcome) : Prop :=
  ∃ elapsed, o' = { o with metadata := { o.metadata with elapsed } }

theorem Outcome.timed_refl (o : Outcome) : o.Timed o := ⟨o.metadata.elapsed, rfl⟩

theorem Drawing.gives_whenLate {σ α : Type} {x : Drawing σ α} {P : α → Prop} (h : Gives x P)
    (r : Record) : Gives (x.whenLate r) P := by
  intro tray a tray' he
  unfold whenLate at he
  split at he
  · cases he
  · exact h tray a tray' he

theorem forall₂_timed_refl (outcomes : List Outcome) :
    List.Forall₂ Outcome.Timed outcomes outcomes := by
  induction outcomes with
  | nil => exact .nil
  | cons o outcomes ih => exact .cons o.timed_refl ih

namespace Engine

variable {σ : Type} [Source σ] {e : Engine} {d : Definition} {f : Formula}

omit [Source σ] in
theorem gives_assemble (parts : List Rolled) (elapsed : Float) :
    Gives (e.assemble d f parts : Drawing σ RollResult) fun r => parts ≠ [] ∧
      List.Forall₂ Outcome.Timed (parts.map (·.outcome)) (r.timed elapsed).segments := by
  unfold assemble
  split
  · exact .of_throw _
  · exact .of_pure ⟨by simp, .cons ⟨_, rfl⟩ .nil⟩
  · exact (Gives.trivial _).bind fun id _ => .of_pure ⟨by simp, forall₂_timed_refl _⟩

/-- What a roll leaves if all was calm. -/
theorem gives_roll (hd : d.criticalHit = false) (hf : e.formulaOf d = .ok f)
    (hp : ∀ s ∈ f.segments, s.term.pool.Foreseeable)
    (hm : ∀ ms ∈ e.actives d [] (f.kinds d.kind), ∀ m ∈ ms, m.Foreseeable) :
    Gives (e.roll d : Drawing σ (Formula × RollResult)) fun r => ∃ parts, parts ≠ [] ∧
      List.Forall₂ Outcome.Timed (parts.map (·.outcome)) r.2.segments ∧
      ((∀ r ∈ parts, r.outcome.Calm) →
        e.FollowsAll d [] (f.segments.zip (f.kinds d.kind)) parts) := by
  have hkinds : (f.segments.zip (f.kinds d.kind)).map (·.2) = f.kinds d.kind :=
    List.map_snd_zip (length_segmentKinds ..).le
  unfold roll
  refine (Gives.trivial _).bind fun started _ => ?_
  rw [hf, lift_ok_bind]
  refine (Drawing.gives_whenLate (gives_rollSegments hd fun s hs =>
    (hp s.1 (List.of_mem_zip hs).1).sound) _).bind fun parts hparts => ?_
  intro tray r tray' he
  obtain ⟨result, tray₁, hresult, he⟩ := bind_apply_eq_ok_iff.mp he
  obtain ⟨ended, tray₂, _, he⟩ := bind_apply_eq_ok_iff.mp he
  cases he
  obtain ⟨hne, htimed⟩ := gives_assemble parts _ _ _ _ hresult
  exact ⟨parts, hne, htimed, hparts ⟨rfl, rfl⟩ (by rwa [hkinds])⟩

end Engine

theorem Engine.FollowsAll.length_eq {e : Engine} {d : Definition} {used : List String}
    {segments : List (Segment × RollType)} {parts : List Rolled}
    (h : e.FollowsAll d used segments parts) : parts.length = segments.length := by
  induction h with
  | nil => rfl
  | cons _ _ ih => rw [List.length_cons, List.length_cons, ih]

theorem Engine.length_actives (e : Engine) (d : Definition) (used : List String)
    (kinds : List RollType) : (e.actives d used kinds).length = kinds.length := by
  induction kinds generalizing used with
  | nil => rfl
  | cons kind kinds ih => rw [actives, List.length_cons, List.length_cons, ih]

end Results

namespace Engine

variable {σ : Type} [Source σ] {e : Engine} {d : Definition} {f : Formula}

/-- The preview bounds what is rolled. Where no damage is critical from the start and the keys of
the segments differ, a roll in which no attack is a critical hit or a miss has each of its totals
within the range under the key of its segment, whatever the source shows. The pools and the
modifiers are those that a preview can follow, and the totals that are scaled are exact in double
precision. The preview itself fails for nothing but room for a list or, where totals of its own are
not exact, for a quotient; where there is room and its totals are exact it is given. -/
theorem analyze_bounds_execute (hd : d.criticalHit = false) (hf : e.formulaOf d = .ok f)
    (hp : ∀ s ∈ f.segments, s.term.pool.Foreseeable) (hk : (keysFrom 0 f.segments).Nodup)
    (hm : ∀ ms ∈ e.actives d [] (f.kinds d.kind), ∀ m ∈ ms, m.Foreseeable)
    {r : RollResult} {table table' : Table σ} (hr : e.execute d table = (.ok r, table'))
    (hc : ∀ o ∈ r.segments, o.Calm)
    (he : ∀ p ∈ r.segments.zip (e.actives d [] (f.kinds d.kind)),
      p.1.Exact (p.2.countP (·.kind.scales))) :
    Noted.Foretells (Fault.OfSize (¬ e.HasRoom f.segments (e.actives d [] (f.kinds d.kind)))
        ¬ e.ForeseesAllExactly d [] (f.segments.zip (f.kinds d.kind)))
      (fun p : Preview ℚ => Bounded p.labelRanges (keysFrom 0 f.segments) r.segments)
      (e.analyze d) := by
  obtain ⟨formula, tray, _, hroll, _⟩ := roll_of_execute hr
  obtain ⟨parts, hne, htimed, hfollows⟩ := gives_roll hd hf hp hm _ _ _ hroll
  have hcalm : ∀ r ∈ parts, r.outcome.Calm := by
    intro r hr
    obtain ⟨o, ho, elapsed, rfl⟩ :=
      exists_mem_of_forall₂ htimed.flip r.outcome (List.mem_map_of_mem hr)
    have hcalm := hc _ ho
    exact hcalm
  have hf' := hfollows hcalm
  have hlength : r.segments.length = (e.actives d [] (f.kinds d.kind)).length := by
    rw [← htimed.length_eq, List.length_map, hf'.length_eq, length_actives, List.length_zip,
      Formula.kinds, length_segmentKinds, Nat.min_self]
  have hexact : List.Forall₂ (fun r (ms : List Modifier) =>
      r.outcome.Exact (ms.countP (·.kind.scales))) parts (e.actives d [] (f.kinds d.kind)) := by
    have hsegments := List.forall₂_iff_zip.mpr ⟨hlength, fun {o ms} h => he (o, ms) h⟩
    rw [← List.forall₂_map_left_iff (f := Rolled.outcome)
      (R := fun (o : Outcome) (ms : List Modifier) => o.Exact (ms.countP (·.kind.scales)))]
    refine forall₂_comp ?_ htimed hsegments
    rintro o _ ms ⟨elapsed, rfl⟩ ho
    exact ho
  intro records
  refine (foretells_analyze hd hf hne hf' hexact hk not_not.mp id records).mono fun p hbounded => ?_
  refine forall₂_comp ?_ hbounded htimed
  rintro key o _ ⟨range, hrange, hcontains⟩ ⟨elapsed, rfl⟩
  exact ⟨range, hrange, hcontains⟩

instance (o : Outcome) : Decidable o.Calm :=
  inferInstanceAs (Decidable (o.metadata.kind.isAttack = true → _ ∧ _))

instance (o : Outcome) (n : Nat) : Decidable (o.Exact n) :=
  inferInstanceAs (Decidable (∀ j ≤ n, _))

def doubledDamage : Definition where
  id := "volley"
  kind := .attack
  wording := .text "attack:1d20+5,damage:2d6r1min2"
  modifiers := [{
    id := "vulnerable"
    name := "Vulnerability"
    source := .condition
    kind := .multiplier
    amount := .whole 2
    timing := .onDamage }]

def doubledFormula : Formula := ⟨"attack:1d20+5,damage:2d6r1min2", [
  ⟨some "attack", ⟨"1d20+5", ⟨1, 20, 5, []⟩⟩⟩,
  ⟨some "damage", ⟨"2d6r1min2", ⟨2, 6, 0,
    [⟨.reroll, .one 1, false⟩, ⟨.minimum, .one 2, false⟩]⟩⟩⟩]⟩

theorem analyze_bounds_doubledDamage : ∃ r table' p,
    Engine.execute {} doubledDamage (Table.opening [12, 6, 1, 1]) = (.ok r, table') ∧
    r.segments.map (·.total) = [17, 16] ∧
    (Engine.analyze {} doubledDamage []).1 = .ok (p : Preview ℚ) ∧
    p.labelRanges.map (fun r => (r.1, r.2.min, r.2.max)) = [("attack", 6, 25), ("damage", 8, 24)] ∧
    Bounded p.labelRanges ["attack", "damage"] r.segments := by
  have hf : Engine.formulaOf {} doubledDamage = .ok doubledFormula :=
    eq_ok_of_toOption (by decide +kernel)
  have hactive : ∀ ms ∈ actives {} doubledDamage [] [.attack, .damage], ∀ m ∈ ms,
      m.kind = .multiplier ∧ m.amount.whole? = some 2 := by decide +kernel
  have hrun : (match Engine.execute {} doubledDamage (Table.opening [12, 6, 1, 1]) with
      | (.ok r, _) => decide (r.segments.map (·.total) = [17, 16] ∧ (∀ o ∈ r.segments, o.Calm) ∧
        ∀ p ∈ r.segments.zip (actives {} doubledDamage [] [.attack, .damage]),
          p.1.Exact (p.2.countP (·.kind.scales)))
      | (.error _, _) => false) = true := by decide +kernel
  obtain ⟨p, hp, hranges⟩ := exists_eq_ok_of_any (p := fun p : Preview ℚ =>
      decide (p.labelRanges.map (fun r => (r.1, r.2.min, r.2.max)) =
        [("attack", 6, 25), ("damage", 8, 24)]))
    (show (Engine.analyze {} doubledDamage []).1.toOption.any _ = true by decide +kernel)
  split at hrun
  · next r table' he =>
    obtain ⟨htotals, hcalm, hexact⟩ := of_decide_eq_true hrun
    have hseen := @Formula.foreseeable_of_parse {} "attack:1d20+5,damage:2d6r1min2" _ hf (by decide)
    have hbounded := analyze_bounds_execute rfl hf hseen (by decide) ?_ he hcalm hexact []
    · rw [hp] at hbounded
      exact ⟨r, table', p, he, htotals, hp, of_decide_eq_true hranges, hbounded⟩
    · intro ms hms m hm
      obtain ⟨hk, ha⟩ := hactive ms hms m hm
      refine ⟨by simp [hk], fun t ht => by simp [hk] at ht, fun _ => ⟨2, ?_⟩⟩
      cases hm : m.amount <;> simp [hm, Amount.whole?] at ha
      rw [ha]
  · cases hrun

end Engine

end DiceTower
