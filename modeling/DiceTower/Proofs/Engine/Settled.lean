import DiceTower.Proofs.Engine.Activation
import DiceTower.Proofs.Modifier.Checked
import DiceTower.Proofs.Notation.Sound

/-! What the preview and the roll of a segment come to alike: the modifiers that are active, and the
dice with the operations that these add. -/

namespace DiceTower

open DiceTower.Computation

section Settled

variable {α β : Type}

/-- What comes of the computation does not depend on the records before it. -/
def Settled (x : Noted α) : Prop := ∃ y, ∀ records, (x records).1 = y

theorem settled_pure (a : α) : Settled (pure a : Noted α) := ⟨.ok a, fun _ => rfl⟩

theorem settled_throw (fault : Fault) : Settled (throw fault : Noted α) :=
  ⟨.error fault, fun _ => rfl⟩

theorem settled_note (r : Record) : Settled (Noted.note r) := ⟨.ok (), fun _ => rfl⟩

theorem Settled.bind {x : Noted α} {f : α → Noted β} (hx : Settled x) (hf : ∀ a, Settled (f a)) :
    Settled (x >>= f) := by
  obtain ⟨y, hy⟩ := hx
  choose g hg using hf
  refine ⟨y >>= g, fun records => ?_⟩
  have h := hy records
  rw [bind_apply]
  rcases hx : x records with ⟨fault | a, records'⟩ <;> rw [hx] at h <;> rw [← h]
  · rfl
  · exact hg a records'

theorem Settled.ite {p : Prop} [Decidable p] {x y : Noted α} (hx : Settled x) (hy : Settled y) :
    Settled (if p then x else y) := by
  split
  · exact hx
  · exact hy

theorem Settled.foldlM {l : List α} {g : β → α → Noted β} (h : ∀ b a, Settled (g b a)) (b : β) :
    Settled (l.foldlM g b) := by
  induction l generalizing b with
  | nil => exact settled_pure b
  | cons a l ih => exact (h b a).bind ih

theorem Settled.eq_ok {x : Noted α} (hx : Settled x) {a : α} {records records' : List Record}
    (h : x records = (.ok a, records')) (other : List Record) : (x other).1 = .ok a := by
  obtain ⟨y, hy⟩ := hx
  rw [hy, ← hy records, h]

end Settled

section Foretelling

variable {α β : Type}

/-- Whatever records there are, the computation gives a value with the property or one of some
faults. -/
def Noted.Foretells (F : Fault → Prop) (P : α → Prop) (x : Noted α) : Prop :=
  ∀ records, DiceTower.Foretells F P (x records).1

variable {F : Fault → Prop} {P : α → Prop} {Q : β → Prop} {x : Noted α} {f : α → Noted β}

theorem Noted.Foretells.of_pure {a : α} (h : P a) : Noted.Foretells F P (pure a) := fun _ => h

theorem Noted.Foretells.of_lift {y : Except Fault α} (h : DiceTower.Foretells F P y) :
    Noted.Foretells F P (liftM y) := fun _ => h

theorem Noted.Foretells.of_answer {a : α} (h : ∀ records, (x records).1 = .ok a) :
    Noted.Foretells F (fun b => b = a) x := by
  intro records
  rw [h]
  rfl

theorem Noted.Foretells.bind (hx : Noted.Foretells F P x)
    (hf : ∀ a, P a → Noted.Foretells F Q (f a)) : Noted.Foretells F Q (x >>= f) := by
  intro records
  have h := hx records
  rw [bind_apply]
  rcases he : x records with ⟨fault | a, records'⟩ <;> rw [he] at h
  · exact h
  · exact hf a h records'

end Foretelling

section Operations

theorem Modifier.settled_operations (pool : Pool) (added : List Operation) (m : Modifier) :
    Settled (m.operations pool added) := by
  unfold operations
  split
  · exact settled_pure _
  · refine .ite (settled_pure _) (.ite ((settled_note _).bind fun _ => settled_pure _)
      (.ite (settled_pure _) ?_))
    dsimp only
    split
    · exact settled_pure _
    · exact (settled_note _).bind fun _ => settled_pure _
    · exact settled_throw _

theorem Term.settled_withOperations (ms : List Modifier) (t : Term) :
    Settled (t.withOperations ms) :=
  (Settled.foldlM (fun added m => (m.settled_operations t.pool added).bind fun _ => settled_pure _)
    _).bind fun _ => settled_pure _

structure Operation.OnFace (sides : Int) (op : Operation) : Prop where
  value : ∃ n, op.operand = .one n ∧ 1 ≤ n ∧ n ≤ sides
  once : op.recursive = false
  kind : op.kind = .reroll ∨ op.kind.clamps = true

theorem Operation.OnFace.sound {sides : Int} {op : Operation} (h : op.OnFace sides) : op.Sound := by
  obtain ⟨n, hn, h1, _⟩ := h.value
  exact ⟨⟨n, hn, h1⟩, h.once⟩

theorem Operation.OnFace.kind_ne_explode {sides : Int} {op : Operation} (h : op.OnFace sides) :
    op.kind ≠ .explode := by
  rcases h.kind with hk | hk <;> intro he <;> rw [he] at hk <;> cases hk

theorem Operation.OnFace.not_selects {sides : Int} {op : Operation} (h : op.OnFace sides) :
    op.kind.selects = false := by
  rcases h.kind with hk | hk
  · rw [hk]
    rfl
  · cases hkind : op.kind <;> simp [hkind, OperationKind.clamps] at hk <;> rfl

theorem Operation.OnFace.allowed {sides : Int} {op : Operation} (h : op.OnFace sides) :
    op.Allowed sides := by
  obtain ⟨n, hn, h1, hle⟩ := h.value
  refine ⟨⟨n, hn, h1, ?_⟩, fun hr => ?_⟩
  · rw [h.not_selects]
    exact hle
  · rw [h.once] at hr
    cases hr

/-- Operations that may be added to those of a pool. -/
structure Addable (sides : Int) (ops added : List Operation) : Prop where
  faces : ∀ op ∈ added, op.OnFace sides
  bounds : BoundsAgree (ops ++ added)

theorem Addable.append {sides : Int} {ops added more : List Operation}
    (h : Addable sides ops added) (hm : ∀ op ∈ more, op.OnFace sides)
    (hb : BoundsAgree (ops ++ added ++ more)) : Addable sides ops (added ++ more) := by
  refine ⟨fun op hop => ?_, by rwa [← List.append_assoc]⟩
  rcases List.mem_append.mp hop with hop | hop
  · exact h.faces op hop
  · exact hm op hop

theorem Addable.compatible {sides : Int} {ops added : List Operation}
    (h : Addable sides ops added) (hc : Compatible ops) : Compatible (ops ++ added) := by
  have hnone : added.countP (·.kind = .explode) = 0 := by
    rw [List.countP_eq_zero]
    intro op hop
    simpa using (h.faces op hop).kind_ne_explode
  refine ⟨?_, h.bounds⟩
  rw [List.countP_append, hnone]
  exact hc.explosions

theorem boundsAgree_append_of_not_clamps {ops more : List Operation} (h : BoundsAgree ops)
    (hm : ∀ op ∈ more, op.kind.clamps = false) : BoundsAgree (ops ++ more) := by
  have hn (kind : OperationKind) (hk : kind.clamps = true) : numbersOf kind more = [] := by
    rw [numbersOf, List.filter_eq_nil_iff.mpr, List.flatMap_nil]
    intro op hop
    have := hm op hop
    simp only [decide_eq_true_eq]
    rintro rfl
    simp [hk] at this
  unfold BoundsAgree
  rw [numbersOf_append, numbersOf_append, hn .minimum rfl, hn .maximum rfl, List.append_nil,
    List.append_nil]
  exact h

theorem onFace_of_mem_map {sides : Int} {kind : OperationKind}
    (hk : kind = .reroll ∨ kind.clamps = true) {faces : List Int}
    (h : ∀ face ∈ faces, 1 ≤ face ∧ face ≤ sides) :
    ∀ op ∈ faces.map fun face => (⟨kind, .one face, false⟩ : Operation), op.OnFace sides := by
  intro op hop
  obtain ⟨face, hface, rfl⟩ := List.mem_map.mp hop
  exact ⟨⟨face, rfl, h face hface⟩, rfl, hk⟩

theorem Modifier.gives_operations {m : Modifier} (hf : m.Fits) {pool : Pool}
    (hs : Single pool.operations) {added : List Operation}
    (ha : Addable pool.sides pool.operations added) :
    Gives (m.operations pool added) fun more =>
      Addable pool.sides pool.operations (added ++ more) := by
  have hnone : Addable pool.sides pool.operations (added ++ []) := by rwa [List.append_nil]
  unfold operations
  split
  · exact .of_pure hnone
  · next kind hk =>
    have h1 := hf.faces (by rw [hk]; simp)
    have hkind : kind = .reroll ∨ kind.clamps = true := by
      cases hm : m.kind <;> rw [hm] at hk <;> cases hk
      · exact .inl rfl
      · exact .inr rfl
      · exact .inr rfl
    dsimp only
    split
    · exact .of_pure hnone
    · split
      · exact (Gives.trivial _).bind fun _ _ => .of_pure hnone
      · next hfaces =>
        have hin : ∀ face ∈ m.amount.listedFaces, 1 ≤ face ∧ face ≤ pool.sides := by
          intro face hface
          refine ⟨h1 face hface, Int.not_lt.mp fun hlt => hfaces ?_⟩
          exact List.any_eq_true.mpr ⟨face, hface, by simpa using hlt⟩
        split
        · refine .of_pure (ha.append (onFace_of_mem_map (.inl rfl) hin) ?_)
          refine boundsAgree_append_of_not_clamps ha.bounds fun op hop => ?_
          obtain ⟨face, _, rfl⟩ := List.mem_map.mp hop
          rfl
        · have hhead : ∀ face ∈ m.amount.listedFaces.head?.toList, 1 ≤ face ∧ face ≤ pool.sides :=
            fun face hface => hin face (List.mem_of_head? (by simpa using hface))
          have hop := onFace_of_mem_map hkind hhead
          split
          · next hagree =>
            have hadded := single_of_sound fun op hop => (ha.faces op hop).sound
            have hmore := single_of_sound fun op h => (hop op h).sound
            have hsingle := (hs.append hadded).append hmore
            exact .of_pure (ha.append hop (hsingle.clampsAgree?_eq_true_iff.mp hagree))
          · exact (Gives.trivial _).bind fun _ _ => .of_pure hnone
          · exact .of_throw _

theorem Term.gives_addable_withOperations {ms : List Modifier} (hm : ∀ m ∈ ms, m.Fits) {t : Term}
    (hs : Single t.pool.operations) (hb : BoundsAgree t.pool.operations) :
    Gives (t.withOperations ms) fun t' => ∃ added,
      Addable t.pool.sides t.pool.operations added ∧
      t'.pool = { t.pool with operations := t.pool.operations ++ added } := by
  refine Gives.bind (P := Addable t.pool.sides t.pool.operations) ?_
    fun added ha => .of_pure ⟨added, ha, ?_⟩
  · refine .foldlM (fun added ha m hmem => ?_) ⟨by simp, by simpa using hb⟩
    exact (Modifier.gives_operations (hm m hmem) hs ha).bind fun more hmore => .of_pure hmore
  split
  · next he =>
    rw [List.isEmpty_iff.mp he, List.append_nil]
  · rfl

/-- Modifiers leave a sound pool sound. -/
theorem Term.gives_sound_withOperations {ms : List Modifier} (hm : ∀ m ∈ ms, m.Fits) {t : Term}
    (ht : t.pool.Sound) : Gives (t.withOperations ms) fun t' => t'.pool.Sound := by
  have hsingle := single_of_sound ht.operations
  refine (gives_addable_withOperations hm hsingle ht.compatible.bounds).mono ?_
  rintro t' ⟨added, ha, he⟩
  rw [he]
  refine ⟨ht.count, ht.sides, fun op hop => ?_, ha.compatible ht.compatible⟩
  rcases List.mem_append.mp hop with hop | hop
  · exact ht.operations op hop
  · exact (ha.faces op hop).sound

end Operations

section Active

variable {kind : RollType} {critical missed : Bool} {used : List String} {ms : List Modifier}

theorem mem_of_mem_activate {m : Modifier} (h : m ∈ (activate kind critical missed used ms).1) :
    m ∈ ms := by
  induction ms generalizing used with
  | nil => exact h
  | cons m' ms ih =>
    unfold activate at h
    split at h
    · exact List.mem_cons_of_mem _ (ih h)
    · split at h
      · split at h
        · exact List.mem_cons_of_mem _ (ih h)
        · rcases List.mem_cons.mp h with rfl | h
          · exact List.mem_cons_self
          · exact List.mem_cons_of_mem _ (ih h)
      · rcases List.mem_cons.mp h with rfl | h
        · exact List.mem_cons_self
        · exact List.mem_cons_of_mem _ (ih h)

theorem activate_of_not_isDamage (h : kind.isDamage = false) (missed' : Bool) :
    activate kind critical missed used ms = activate kind critical missed' used ms := by
  induction ms generalizing used with
  | nil => rfl
  | cons m ms ih =>
    unfold activate
    simp only [h, Bool.false_and, Bool.or_false, ih]

theorem mem_used_of_mem {id : String} (h : id ∈ used) :
    id ∈ (activate kind critical missed used ms).2 := by
  induction ms generalizing used with
  | nil => exact h
  | cons m ms ih =>
    unfold activate
    split
    · exact ih h
    · split
      · split
        · exact ih h
        · exact ih (List.mem_cons_of_mem _ h)
      · exact ih h

def Modifier.Spendable (kind : RollType) (critical missed : Bool) (m : Modifier) : Prop :=
  m.suits kind critical = true ∧ m.isOnce = true ∧ (kind.isDamage && missed) = false

theorem id_mem_used {m : Modifier} (hm : m ∈ ms) (hs : m.Spendable kind critical missed) :
    m.id ∈ (activate kind critical missed used ms).2 := by
  obtain ⟨hsuits, honce, hmissed⟩ := hs
  induction ms generalizing used with
  | nil => cases hm
  | cons m' ms ih =>
    unfold activate
    rcases List.mem_cons.mp hm with rfl | hm
    · rw [if_neg (by simp [hsuits]), if_pos honce]
      split
      · next h =>
        rw [hmissed, Bool.or_false] at h
        exact mem_used_of_mem (by simpa using h)
      · exact mem_used_of_mem List.mem_cons_self
    · split
      · exact ih hm
      · split
        · split
          · exact ih hm
          · exact ih hm
        · exact ih hm

theorem used_of_all_used (h : ∀ m ∈ ms, m.Spendable kind critical missed → m.id ∈ used) :
    (activate kind critical missed used ms).2 = used := by
  induction ms with
  | nil => rfl
  | cons m ms ih =>
    obtain ⟨hm, hms⟩ := List.forall_mem_cons.mp h
    unfold activate
    split
    · exact ih hms
    · next hs =>
      split
      · next ho =>
        split
        · exact ih hms
        · next hu =>
          rw [Bool.or_eq_true, not_or] at hu
          have hid := hm ⟨by simpa using hs, ho, by simpa using hu.2⟩
          exact absurd (by simpa using hid) hu.1
      · exact ih hms

theorem used_activate_activate :
    (activate kind critical missed (activate kind critical missed used ms).2 ms).2 =
      (activate kind critical missed used ms).2 :=
  used_of_all_used fun _ hm hs => id_mem_used hm hs

end Active

end DiceTower
