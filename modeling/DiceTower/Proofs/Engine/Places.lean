import DiceTower.Proofs.Engine.OnceOnly
import DiceTower.Proofs.Notation.Reread

/-! What a preview says of the segments of a roll. What is used up before a segment does not depend on
critical hits, so that a segment has its place before anything is rolled: with it go the dice that
its modifiers leave, on a critical hit or without one, and the notes of the preview. -/

namespace DiceTower

open DiceTower.Computation Drawing

/-- A segment in its place: the modifiers that were used up before it, and whether an attack was. -/
structure Place where
  segment : Segment
  kind : RollType
  used : List String
  attacked : Bool

def Engine.places (e : Engine) (d : Definition) (used : List String) (attacked : Bool) :
    List (Segment × RollType) → List Place
  | [] => []
  | (s, kind) :: segments => ⟨s, kind, used, attacked⟩ ::
      e.places d (e.active d kind used).2 (attacked || kind.isAttack) segments

def announcement (hit : String × String) : String :=
  "On a critical hit " ++ hit.1 ++ " becomes " ++ hit.2

def hitNote (hit : String × String) : String :=
  "Critical hit: " ++ hit.1 ++ " rolled as " ++ hit.2

def tellsHit (note : String) : Bool := Text.beginsWith "Critical hit: " note

def Term.hit (rules : CriticalRules) (t : Term) : String × String :=
  (t.pool.text, (t.critical rules).pool.text)

namespace Place

variable (e : Engine) (d : Definition) (x : Place)

def modifiers (critical : Bool) : List Modifier :=
  (activate x.kind (x.kind.isDamage && critical) false x.used
    (e.rulebook.resolve d.context x.kind d.modifiers d.withCharacter)).1

def dice (critical : Bool) : Except Fault Term :=
  ((x.segment.term.withAdvantage x.kind (x.modifiers e d critical)).term.withOperations
    (x.modifiers e d critical) []).1

/-- What a preview announces: it takes an attack before the segment to be the critical hit. -/
def announced : Option (String × String) :=
  match x.dice e d d.criticalHit with
  | .ok t => if x.kind.isDamage && x.attacked && !t.pool.isFlat then some (t.hit e.rules) else none
  | .error _ => none

def notes : List String :=
  match x.dice e d d.criticalHit with
  | .ok t =>
    (x.segment.term.withAdvantage x.kind (x.modifiers e d d.criticalHit)).notes ++
      (x.modifiers e d d.criticalHit).flatMap (·.onceNote) ++
      (x.announced e d).toList.map announcement ++ e.explosionNote t
  | .error _ => []

/-- Modifiers for critical hits leave the dice as a preview has them. -/
def SameDice : Prop :=
  ∃ t t', x.dice e d d.criticalHit = .ok t ∧ x.dice e d true = .ok t' ∧ t'.pool = t.pool

end Place

section Previews

variable {α : Type} [Chance α] {e : Engine} {d : Definition}

namespace Engine

theorem gives_dice (x : Place) (critical : Bool) :
    Gives ((x.segment.term.withAdvantage x.kind (x.modifiers e d critical)).term.withOperations
      (x.modifiers e d critical)) fun t => x.dice e d critical = .ok t :=
  fun _ _ _ h => (Term.settled_withOperations _ _).eq_ok h []

theorem gives_foresee (o : Outlook α) (s : Segment) (kind : RollType) :
    Gives (e.foresee d o s kind) fun o' => o'.used = (e.active d kind o.used).2 ∧
      o'.attacked = (o.attacked || kind.isAttack) ∧
      (∃ t, Place.dice e d ⟨s, kind, o.used, o.attacked⟩ d.criticalHit = .ok t) ∧
      o'.notes = o.notes ++ Place.notes e d ⟨s, kind, o.used, o.attacked⟩ := by
  let x : Place := ⟨s, kind, o.used, o.attacked⟩
  unfold foresee
  refine (e.gives_activeNoted d kind _ false o.used).bind ?_
  rintro _ rfl
  refine (gives_dice x d.criticalHit).bind fun t ht => ?_
  refine (Gives.trivial _).bind fun range _ => (Gives.trivial _).bind fun faces _ => .of_pure ?_
  refine ⟨used_activate_critical _ _, rfl, ⟨t, ht⟩, ?_⟩
  have hnote : (if kind.isDamage && o.attacked then e.criticalNote t else []) =
      (x.announced e d).toList.map announcement := by
    unfold Place.announced criticalNote
    rw [ht]
    dsimp only
    cases kind.isDamage && o.attacked <;> cases t.pool.isFlat <;> rfl
  rw [Place.notes, ht]
  dsimp only
  rw [hnote]
  simp only [List.append_assoc]
  rfl

theorem gives_foldlM_foresee (segments : List (Segment × RollType)) (o : Outlook α) :
    Gives (segments.foldlM (fun o s => e.foresee d o s.1 s.2) o) fun o' =>
      (∀ x ∈ e.places d o.used o.attacked segments, ∃ t, x.dice e d d.criticalHit = .ok t) ∧
      o'.notes = o.notes ++ (e.places d o.used o.attacked segments).flatMap (·.notes e d) := by
  induction segments generalizing o with
  | nil => exact .of_pure ⟨List.forall_mem_nil _, (List.append_nil _).symm⟩
  | cons s segments ih =>
    rw [List.foldlM_cons]
    refine (gives_foresee o s.1 s.2).bind fun o' ho' => ?_
    obtain ⟨hused, hattacked, hdice, hnotes⟩ := ho'
    refine (ih o').mono fun o'' ho'' => ?_
    obtain ⟨hrest, hlater⟩ := ho''
    rw [hused, hattacked] at hrest hlater
    refine ⟨List.forall_mem_cons.mpr ⟨hdice, hrest⟩, ?_⟩
    rw [hlater, hnotes, List.append_assoc]
    rfl

/-- The notes of a preview are those of the segments in their places, and one on the faces that are
critical hits if they are unusual. -/
theorem gives_analyze {f : Formula} (hf : e.formulaOf d = .ok f) :
    Gives (e.analyze d : Noted (Preview α)) fun p =>
      (∀ x ∈ e.places d [] false (f.segments.zip (f.kinds d.kind)),
        ∃ t, x.dice e d d.criticalHit = .ok t) ∧
      ∃ faces : Option String, p.notes =
        (e.places d [] false (f.segments.zip (f.kinds d.kind))).flatMap (·.notes e d) ++
          faces.toList.map ("Critical hit on " ++ ·) := by
  unfold analyze
  rw [hf, lift_ok_bind]
  refine (gives_foldlM_foresee _ _).bind fun o ho => ?_
  obtain ⟨hdice, hnotes⟩ := ho
  split
  · exact .of_throw _
  · refine Gives.bind (P := fun remark => ∃ faces : Option String,
      remark = faces.toList.map ("Critical hit on " ++ ·)) (.of_lift fun remark hremark => ?_)
      fun remark hremark => .of_pure ?_
    · split at hremark
      · cases hremark
        exact ⟨none, rfl⟩
      · obtain ⟨faces, _, rfl⟩ := map_eq_ok_iff.mp hremark
        exact ⟨some faces, rfl⟩
    · obtain ⟨faces, rfl⟩ := hremark
      exact ⟨hdice, faces, by rw [hnotes]; rfl⟩

end Engine

end Previews

section Dice

variable {e : Engine} {d : Definition} {x : Place} {t t' : Term}

theorem Term.hit_congr (h : t'.pool = t.pool) (rules : CriticalRules) :
    t'.hit rules = t.hit rules := by
  have hcritical : (t'.critical rules).pool = (t.critical rules).pool := by
    unfold Term.critical
    rw [h]
    split
    · exact h
    · rfl
  rw [hit, hit, h, hcritical]

namespace Place

variable {critical critical' : Bool}

theorem isFlat_dice (hk : x.kind.isDamage = true) (h : x.dice e d critical = .ok t) :
    t.pool.isFlat = x.segment.term.pool.isFlat :=
  Engine.isFlat_of_settled hk ((Term.settled_withOperations _ _).eq_ok (Prod.ext h rfl))

theorem allowed_dice (hk : x.kind.isDamage = true) {limits : Limits} {cs : List Char}
    (hd : Denotes limits cs x.segment.term.pool) (hf : ¬ x.segment.term.pool.isFlat = true)
    (h : x.dice e d critical = .ok t) : t.pool.count = x.segment.term.pool.count ∧
      t.pool.sides = x.segment.term.pool.sides ∧
      t.pool.modifier = x.segment.term.pool.modifier ∧
      ∀ op ∈ t.pool.operations, op.Allowed t.pool.sides := by
  have hallowed := hd.isFlat_or_allowed.resolve_left fun hflat => hf hflat.1
  have hfits : ∀ m ∈ x.modifiers e d critical, m.Fits := fun m hm =>
    Rulebook.fits_of_mem_resolve (mem_of_mem_activate hm)
  unfold dice at h
  rw [Term.term_withAdvantage_of_not_isD20 (RollType.not_isD20_of_isDamage hk)] at h
  obtain ⟨added, hadded, hpool⟩ := Term.gives_addable_withOperations hfits hd.single
    hd.compatible.bounds [] t _ (Prod.ext h rfl)
  rw [hpool]
  refine ⟨rfl, rfl, rfl, fun op hop => ?_⟩
  rcases List.mem_append.mp hop with hop | hop
  · exact hallowed.operations op hop
  · exact (hadded.faces op hop).allowed

theorem pool_eq_of_text_eq (hk : x.kind.isDamage = true) {limits : Limits} {cs : List Char}
    (hd : Denotes limits cs x.segment.term.pool) (hf : ¬ x.segment.term.pool.isFlat = true)
    (h : x.dice e d critical = .ok t) (h' : x.dice e d critical' = .ok t')
    (htext : t'.pool.text = t.pool.text) : t'.pool = t.pool := by
  have hflat := isFlat_dice hk h
  have hflat' := isFlat_dice hk h'
  obtain ⟨hcount, hsides, hmodifier, hops⟩ := allowed_dice hk hd hf h
  obtain ⟨hcount', hsides', hmodifier', hops'⟩ := allowed_dice hk hd hf h'
  refine Pool.eq_of_text_eq (hcount'.trans hcount.symm) (hsides'.trans hsides.symm)
    (hmodifier'.trans hmodifier.symm) (fun op hop => (hops op hop).regular) hops' ?_ ?_ ?_ htext
  · rw [hsides']
    exact hd.sides_le
  · rwa [hflat]
  · rwa [hflat']

end Place

theorem Place.sameDice (hk : x.kind.isDamage = true) (hx : ∃ t, x.dice e d d.criticalHit = .ok t)
    (h : d.criticalHit = true ∨ ∀ m ∈ x.modifiers e d true, m.timing = .onCritical →
      m.kind.operation? = none) : x.SameDice e d := by
  obtain ⟨t, ht⟩ := hx
  refine ⟨t, t, ht, ?_, rfl⟩
  by_cases hd : d.criticalHit = true
  · rwa [hd] at ht
  · have hnone := h.resolve_left hd
    rw [Bool.not_eq_true] at hd
    have hfilter : x.modifiers e d false =
        (x.modifiers e d true).filter (·.timing != .onCritical) := by
      unfold modifiers
      rw [hk, Bool.and_false, Bool.and_true]
      exact activate_eq_filter
    have hd20 := RollType.not_isD20_of_isDamage hk
    unfold dice at ht ⊢
    rw [Term.term_withAdvantage_of_not_isD20 hd20] at ht ⊢
    rw [hd, hfilter, Term.withOperations_filter] at ht
    · exact ht
    · intro m hm htiming
      exact hnone m hm (by simpa using htiming)

end Dice

end DiceTower
