import DiceTower.Proofs.Dice.Shown
import DiceTower.Proofs.Engine.Tally
import DiceTower.Proofs.Notation.Reread

/-! The lines of a copy of a segment show everything that was drawn for it. What is not dice among
them, remarks and numbers and corrections by scaling, shows no draw. -/

namespace DiceTower

open DiceTower.Computation Drawing

/-- A total was too large for double precision, or scaling it led to no number. -/
def Fault.OfScaling (fault : Fault) : Prop :=
  fault = .wholeTooLarge ∨ fault = .quotientTooLarge ∨ fault = .notANumber ∨ fault = .infinite

section Scaling

theorem Scalar.foretells_toFloat (s : Scalar) :
    Foretells Fault.OfScaling (fun _ => True) s.toFloat := by
  unfold toFloat
  split
  · split
    · trivial
    · exact .inl rfl
  · trivial

theorem Scalar.foretells_floor (x : Float) : Foretells Fault.OfScaling (fun _ => True) (floor x) := by
  unfold floor
  split
  · exact .inr (.inr (.inl rfl))
  · exact .inr (.inr (.inr rfl))
  · trivial

theorem Scalar.foretells_multiply (n : Int) (s : Scalar) :
    Foretells Fault.OfScaling (fun _ => True) (multiply n s) := by
  cases s with
  | whole k => trivial
  | real x => exact (foretells_toFloat _).bind fun y _ => foretells_floor (y * x)

theorem Scalar.foretells_divide (n : Int) {s : Scalar} (h : s.isZero = false) :
    Foretells Fault.OfScaling (fun _ => True) (divide n s) := by
  unfold divide
  rw [h, if_neg Bool.false_ne_true]
  cases s with
  | whole k =>
    dsimp only
    split
    · trivial
    · exact .inr (.inl rfl)
  | real x => exact (foretells_toFloat _).bind fun y _ => foretells_floor (y / x)

theorem Modifier.foretells_scaled? {m : Modifier} (hf : m.Fits) (total : Int) :
    Foretells Fault.OfScaling (fun _ => True) (m.scaled? total) := by
  have htext (s : Scalar) : Foretells Fault.OfScaling (fun _ => True) s.text :=
    .map (s.foretells_toFloat.mono fun _ _ => trivial)
  unfold scaled?
  split
  · exact (Scalar.foretells_multiply ..).bind fun _ _ => (htext _).bind fun _ _ => trivial
  · next s hk hs =>
    obtain ⟨s', hs', _, hzero⟩ := hf.scale (by rw [hk]; rfl)
    obtain rfl := Option.some.inj (hs.symm.trans hs')
    exact (Scalar.foretells_divide _ (hzero hk)).bind fun _ _ => (htext _).bind fun _ _ => trivial
  · trivial

def scaleTotal (total : Int) (ms : List Modifier) : Except Fault Int :=
  ms.foldlM (fun total m => (m.scaled? total).map (Modifier.left total)) total

/-- The lines of scaling add what it changes in the total. -/
theorem scaleTotal_of_scaleLines {ms : List Modifier} {total : Int} {lines : List Item}
    (h : scaleLines total ms = .ok lines) :
    scaleTotal total ms = .ok (total + Item.counted lines) := by
  induction ms generalizing total lines with
  | nil =>
    cases h
    rw [counted_nil, Int.add_zero]
    rfl
  | cons m ms ih =>
    obtain ⟨r, hr, hlines⟩ := scaleLines_cons h
    have hstep : scaleTotal total (m :: ms) = scaleTotal (Modifier.left total r) ms := by
      rw [scaleTotal, List.foldlM_cons, hr]
      rfl
    rw [hstep]
    obtain ⟨rfl, hl⟩ | ⟨line, rest, _, hd, hv, hl, rfl⟩ := hlines
    · exact ih hl
    · rw [ih hl, Item.counted_cons, hd, if_neg Bool.false_ne_true, hv]
      congr 1
      omega

theorem foretells_scaleLines {ms : List Modifier} (hm : ∀ m ∈ ms, m.Fits) (total : Int) :
    Foretells Fault.OfScaling (fun lines => lines.countP Item.isDraw = 0)
      (scaleLines total ms) := by
  induction ms generalizing total with
  | nil => rfl
  | cons m ms ih =>
    obtain ⟨hf, hms⟩ := List.forall_mem_cons.mp hm
    refine (m.foretells_scaled? hf total).bind fun r _ => ?_
    split
    · exact ih hms total
    · next n label =>
      refine (ih hms n).bind fun lines hlines => ?_
      show List.countP Item.isDraw (_ :: lines) = 0
      rw [List.countP_cons_of_neg (by simp [Item.isDraw]), hlines]

end Scaling

structure Term.Rollable (t : Term) : Prop where
  count : 1 ≤ t.pool.count
  sides : 1 ≤ t.pool.sides
  single : Single t.pool.operations

theorem Term.sides_critical (rules : CriticalRules) (t : Term) :
    (t.critical rules).pool.sides = t.pool.sides :=
  Term.of_critical (P := fun p => p.sides = t.pool.sides) rfl (t.pool.sides_critical rules)

theorem Single.critical {t : Term} (h : Single t.pool.operations) (rules : CriticalRules) :
    Single (t.critical rules).pool.operations := by
  refine Term.of_critical (P := fun p => Single p.operations) h ?_
  refine Pool.forall_mem_operations_critical h (fun op hop => ?_) rules
  obtain ⟨n, hn⟩ := hop
  rcases Operation.operand_doubled hn with hd | hd
  · exact ⟨n, hd⟩
  · exact ⟨n * 2, hd⟩

theorem Modifier.foretells_operations {F : Fault → Prop} (m : Modifier) {pool : Pool}
    (hp : Single pool.operations) {added : List Operation} (ha : Single added) :
    Noted.Foretells F Single (m.operations pool added) := by
  have hnone : Single [] := by simp [Single]
  have hnote (r : Record) : Noted.Foretells F Single (do Noted.note r; pure []) := fun _ => hnone
  have hfaces (kind : OperationKind) (faces : List Int) :
      Single (faces.map fun face => ⟨kind, .one face, false⟩) := by
    intro op hop
    obtain ⟨face, _, rfl⟩ := List.mem_map.mp hop
    exact ⟨face, rfl⟩
  unfold operations
  split
  · exact .of_pure hnone
  · next kind _ =>
    dsimp only
    split
    · exact .of_pure hnone
    · split
      · exact hnote _
      · split
        · exact .of_pure (hfaces .reroll _)
        · have hop := hfaces kind m.amount.listedFaces.head?.toList
          have hagree := ((hp.append ha).append hop).clampsAgree?_eq
          split
          · exact .of_pure hop
          · exact hnote _
          · next hn =>
            rw [hn] at hagree
            simp at hagree

namespace Term.Rollable

variable {t : Term}

theorem of_denotes {limits : Limits} {cs : List Char} (h : Denotes limits cs t.pool) :
    t.Rollable := by
  have hregular := h.regular
  exact ⟨hregular.count, hregular.sides, h.single⟩

theorem withAdvantage (h : t.Rollable) (kind : RollType) (ms : List Modifier) :
    (t.withAdvantage kind ms).term.Rollable := by
  have hcount := count_withAdvantage h.count kind ms
  rcases t.term_withAdvantage kind ms with he | ⟨_, advantage, he⟩
  · rwa [he]
  · rw [he] at hcount ⊢
    refine ⟨hcount, h.sides, fun op hop => ?_⟩
    rcases List.mem_cons.mp hop with rfl | hop
    · exact ⟨1, rfl⟩
    · exact h.single op hop

theorem foretells_withOperations {F : Fault → Prop} (h : t.Rollable) (ms : List Modifier) :
    Noted.Foretells F Term.Rollable (t.withOperations ms) := by
  have hadded {added : List Operation} (ha : Single added) :
      Noted.Foretells F Single (ms.foldlM (fun added m => do
        let ops ← m.operations t.pool added
        pure (added ++ ops)) added) := by
    induction ms generalizing added with
    | nil => exact .of_pure ha
    | cons m ms ih =>
      rw [List.foldlM_cons]
      exact ((m.foretells_operations h.single ha).bind fun ops hops =>
        .of_pure (ha.append hops)).bind fun _ hmore => ih hmore
  refine (hadded (by simp [Single])).bind fun added hs => .of_pure ?_
  split
  · exact h
  · exact ⟨h.count, h.sides, h.single.append hs⟩

theorem critical (h : t.Rollable) (rules : CriticalRules) : (t.critical rules).Rollable :=
  ⟨count_critical h.count rules, by rw [sides_critical]; exact h.sides, h.single.critical rules⟩

theorem rolledTerm (h : t.Rollable) (e : Engine) (kind : RollType) (carry : Carry) :
    (e.rolledTerm kind carry t).Rollable := by
  unfold Engine.rolledTerm
  split
  · exact h.critical e.rules
  · exact h

end Term.Rollable

section Remarks

variable {F : Fault → Prop} {kind : RollType} {ms : List Modifier} {r : Roll}

theorem Term.countP_remarks_withAdvantage (kind : RollType) (ms : List Modifier) (t : Term) :
    (t.withAdvantage kind ms).remarks.countP Item.isDraw = 0 := by
  have hfavoured (advantage : Bool) (label : String) :
      (t.favoured kind advantage label).remarks.countP Item.isDraw = 0 := by
    unfold favoured
    split
    · rfl
    · cases advantage
      · cases t.pool.hasDisadvantage <;> rfl
      · cases t.pool.hasAdvantage <;> rfl
  unfold withAdvantage
  dsimp only
  split
  · rfl
  · exact hfavoured ..
  · exact hfavoured ..
  · rfl

theorem Roll.Accounted.replaced (h : r.Accounted) (index : Nat) (face : Int) :
    (r.replaced index face).Accounted ∧
      facesShown (r.replaced index face).dice = facesShown r.dice := by
  have hdie (d : Die) :
      (if d.index = index then { d with value := face, natural := face } else d).faces = d.faces ∧
      (if d.index = index then { d with value := face, natural := face } else d).sides = d.sides := by
    split
    · exact ⟨rfl, rfl⟩
    · exact ⟨rfl, rfl⟩
  have hsame : facesShown (r.replaced index face).dice = facesShown r.dice :=
    facesShown_map fun d => (hdie d).1
  exact ⟨⟨allShown_map hdie h.shown, fun hflat => hsame.trans (h.number hflat)⟩, hsame⟩

def Modifier.Whole (m : Modifier) : Prop := m.IsCount → ∃ n, m.amount = .whole n

theorem countP_asCritical (items : List Item) :
    (items.map Item.asCritical).countP Item.isDraw = items.countP Item.isDraw :=
  List.countP_map

theorem Roll.Accounted.foretells_natural (h : r.Accounted) (hw : ∀ m ∈ ms, m.Whole) :
    Foretells F (fun n : Natural => n.roll.Accounted ∧ n.remarks.countP Item.isDraw = 0 ∧
      facesShown n.roll.dice = facesShown r.dice) (r.natural kind ms) := by
  unfold Roll.natural
  split
  · exact ⟨h, rfl, rfl⟩
  · split
    · exact ⟨h, rfl, rfl⟩
    · next d _ _ m hm =>
      have hk : m.kind = .replaceDie := by simpa using List.find?_some hm
      obtain ⟨n, hn⟩ := hw m (List.mem_of_find?_eq_some hm) (.inr (.inr hk))
      obtain ⟨hshown, hsame⟩ := h.replaced d.index (min n 20)
      rw [hn]
      exact ⟨hshown, rfl, hsame⟩

theorem foretells_criticalRange (rules : CriticalRules) (hw : ∀ m ∈ ms, m.Whole) :
    Foretells F (fun _ => True) (criticalRange rules ms) := by
  refine Foretells.bind (P := fun _ => True) (.mapM fun m hm => ?_) fun _ _ => trivial
  obtain ⟨hm, hk⟩ := List.mem_filter.mp hm
  obtain ⟨n, hn⟩ := hw m hm (.inr (.inl (of_decide_eq_true hk)))
  rw [hn]
  trivial

theorem foretells_extraCount (hw : ∀ m ∈ ms, m.Whole) :
    Foretells F (fun _ => True) (extraCount ms) := by
  refine Foretells.bind (P := fun _ => True) (.mapM fun m hm => ?_) fun _ _ => trivial
  obtain ⟨hm, hk⟩ := List.mem_filter.mp hm
  obtain ⟨n, hn⟩ := hw m hm (.inl (of_decide_eq_true hk))
  rw [hn]
  trivial

end Remarks

section Tallies

variable {σ : Type} [Source σ] {F : Fault → Prop} {deadline : Option Float} {ms : List Modifier}

namespace Engine

variable {e : Engine}

theorem shows_modifierItems (critical : Bool) {m : Modifier} (hf : m.Fits)
    (hd : ∀ t, m.kind = .dice → m.amount = .dice t → DrawsWithin σ F deadline t.pool.sides ∧
      (¬ Single t.pool.operations → F .wrongKind)) :
    Shows F 0 (·.countP Item.isDraw) (fun _ => True)
      (e.modifierItems deadline critical m : Drawing σ (List Item)) := by
  unfold modifierItems
  cases hk : m.kind
  case flat =>
    obtain ⟨n, hn⟩ := hf.flat hk
    rw [hn]
    exact .of_pure trivial rfl
  case dice =>
    obtain ⟨t, ht⟩ := hf.dice hk
    obtain ⟨hdraw, hop⟩ := hd t hk ht
    have hchanged (b : Bool) :
        DrawsWithin σ F deadline (if b then t.critical e.rules else t).pool.sides ∧
        (¬ Single (if b then t.critical e.rules else t).pool.operations → F .wrongKind) := by
      cases b with
      | false => exact ⟨hdraw, hop⟩
      | true =>
        rw [if_pos rfl, Term.sides_critical]
        exact ⟨hdraw, fun hn => hop fun hs => hn (hs.critical e.rules)⟩
    rw [ht]
    refine (Term.shows_roll (hchanged _).1 (hchanged _).2 _).bind fun r hr => .of_pure trivial ?_
    exact hr.1.countP_items _
  all_goals exact .of_pure trivial rfl

/-- The modifiers of a copy are fit to be counted: their dice can be rolled, and where they scale
the total this may fail. -/
structure Equipped (σ : Type) [Source σ] (F : Fault → Prop) (deadline : Option Float)
    (ms : List Modifier) : Prop where
  fits : ∀ m ∈ ms, m.Fits
  whole : ∀ m ∈ ms, m.Whole
  dice : ∀ m ∈ ms, ∀ t, m.kind = .dice → m.amount = .dice t →
    DrawsWithin σ F deadline t.pool.sides ∧ (¬ Single t.pool.operations → F .wrongKind)
  scaling : (∃ m ∈ ms, m.kind.scales = true) → ∀ fault, fault.OfScaling → F fault

theorem shows_bonuses (h : Equipped σ F deadline ms) (critical : Bool) :
    Shows F 0 (fun bonuses => bonuses.flatten.countP Item.isDraw) (fun _ => True)
      (ms.mapM (e.modifierItems deadline critical) : Drawing σ (List (List Item))) := by
  have hone : ∀ m ∈ ms, Shows F 0 (·.countP Item.isDraw) (fun _ => True)
      (e.modifierItems deadline critical m : Drawing σ (List Item)) := fun m hm =>
    e.shows_modifierItems critical (h.fits m hm) (h.dice m hm)
  have hall := Shows.mapM (v := fun _ => 0) hone
  simp only [List.map_const', List.sum_replicate_nat, Nat.mul_zero] at hall
  refine (hall.recount (k := 0) fun bonuses _ => ?_).mono (fun _ => id) fun _ _ => trivial
  rw [List.countP_flatten, Nat.zero_add]

theorem Equipped.foretells_scaleLines (h : Equipped σ F deadline ms) (total : Int) :
    Foretells F (fun lines => lines.countP Item.isDraw = 0) (scaleLines total ms) := by
  by_cases hs : ∃ m ∈ ms, m.kind.scales = true
  · exact (DiceTower.foretells_scaleLines h.fits total).allow (h.scaling hs)
  · rw [scaleLines_of_unscaled fun m hm => by simpa using fun hk => hs ⟨m, hm, hk⟩]
    rfl

end Engine

variable (hdraw : ∀ sides, 1 ≤ sides → DrawsWithin σ F deadline sides)

include hdraw

theorem Term.Rollable.shows_roll {t : Term} (h : t.Rollable) (cap : Int) (label : Option String) :
    Shows F 0 (fun r => facesShown r.dice) (fun r => r.Accounted ∧ 0 < facesShown r.dice)
      (t.roll deadline cap label : Drawing σ Roll) := by
  refine ((Term.shows_roll (hdraw _ h.sides) (fun hn => absurd h.single hn) label).and_pos
    ((t.drawsIf_roll deadline cap label).draws h.count)).mono (fun _ => id) ?_
  rintro r ⟨⟨haccounted, _⟩, hpos⟩
  exact ⟨haccounted, hpos⟩

namespace Engine

variable {e : Engine} (hx : ∀ t ∈ e.extraDice, t.Rollable)

include hx

theorem shows_extraItems (due : Bool) :
    Shows F 0 (·.countP Item.isDraw) (fun _ => True)
      (e.extraItems deadline due : Drawing σ (List Item)) := by
  unfold extraItems
  split
  · next t ht =>
    refine ((hx t ht).shows_roll hdraw e.cap _).bind fun r hr => .of_pure trivial ?_
    exact (countP_asCritical _).trans (hr.1.countP_items none)
  · exact .of_pure trivial rfl

/-- The lines of a tally show its draws, and add up to what scaling makes of the lines before its
own. -/
theorem shows_tally (h : Equipped σ F deadline ms) {remarks : List Item}
    (hr : remarks.countP Item.isDraw = 0) {term : Term} (ht : term.Rollable)
    (label : Option String) (kind : RollType) (critical due : Bool) :
    Shows F 0 (fun t => t.items.countP Item.isDraw)
      (fun t => t.items ≠ [] ∧ ∃ lines scaling, t.items = lines ++ scaling ∧
        scaleTotal (Item.counted lines) ms = .ok (Item.counted t.items))
      (e.tally deadline label kind ms remarks term critical due : Drawing σ Tally) := by
  unfold tally
  refine (ht.shows_roll hdraw e.cap label).bind fun r ⟨haccounted, hpos⟩ => ?_
  refine Shows.bind (s := fun n : Natural => facesShown n.roll.dice)
    (P := fun n => n.roll.Accounted ∧ n.remarks.countP Item.isDraw = 0 ∧
      0 < facesShown n.roll.dice) (.of_lift ?_) fun natural ⟨hnatural, hremarks, hfaces⟩ => ?_
  · refine (haccounted.foretells_natural h.whole).mono fun n ⟨hn, hremarks, hsame⟩ => ?_
    rw [hsame]
    exact ⟨⟨hn, hremarks, hpos⟩, rfl⟩
  refine ((e.shows_bonuses h critical).shift (facesShown natural.roll.dice)).bind
    fun bonuses _ => ?_
  refine ((shows_extraItems hdraw hx due).shift (facesShown natural.roll.dice +
    bonuses.flatten.countP Item.isDraw)).bind fun extra _ => ?_
  have hlines : (natural.roll.items none ++ remarks ++ natural.remarks ++ bonuses.flatten ++
      extra).countP Item.isDraw = facesShown natural.roll.dice +
        bonuses.flatten.countP Item.isDraw + extra.countP Item.isDraw := by
    simp only [List.countP_append, hnatural.countP_items, hr, hremarks, Nat.add_zero]
  generalize natural.roll.items none ++ remarks ++ natural.remarks ++ bonuses.flatten ++
    extra = lines at hlines
  rw [← hlines]
  refine Shows.bind (s := fun _ => lines.countP Item.isDraw) (.of_lift
    ((h.foretells_scaleLines (Item.counted lines)).and_eq.mono
      fun _ hscaling => ⟨hscaling, rfl⟩)) fun scaling ⟨hscaling, hscaled⟩ => ?_
  have hfaces : Foretells F (fun _ => True)
      (if kind.isAttack then criticalRange e.rules ms else .ok e.rules.range) := by
    split
    · exact foretells_criticalRange e.rules h.whole
    · trivial
  refine Shows.bind (s := fun _ => lines.countP Item.isDraw)
    (.of_lift (hfaces.mono fun _ _ => ⟨trivial, rfl⟩)) fun faces _ => ?_
  refine (shows_fresh "res").bind fun id _ => .of_pure ⟨?_, lines, scaling, rfl, ?_⟩ ?_
  · rintro hnil
    have hnone : lines = [] := (List.append_eq_nil_iff.mp hnil).1
    rw [hnone] at hlines
    simp at hlines
    omega
  · rw [scaleTotal_of_scaleLines hscaled, Item.counted_append]
  · simp only [List.countP_append, hscaling, Nat.add_zero]

end Engine

end Tallies

end DiceTower
