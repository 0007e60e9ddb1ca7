import DiceTower.Proofs.Dice.Choice
import DiceTower.Proofs.Dice.Growth

/-! The records of a roll. Each of them takes up the faces that the one before it left and lists the
dice that its operation changed, so that what became of every die can be told from them. -/

namespace DiceTower

open DiceTower.Computation Drawing

def AppliedOperation.lists (p : OperationKind → Bool) (i : Nat) (a : AppliedOperation) : Bool :=
  p a.kind && a.affected.contains i

def Chained : List Int → List AppliedOperation → List Int → Prop
  | first, [], last => first = last
  | first, a :: records, last => a.before = first ∧ Chained a.after records last

/-- What became of a die is what the records tell. -/
structure Die.Traced (records : List AppliedOperation) (d : Die) : Prop where
  dropped : records.countP (·.lists (·.selects) d.index) = if d.dropped then 1 else 0
  exploded : d.exploded = records.any (·.lists (· == .explode) d.index)
  rerolled : d.rerolled = records.any (·.lists (· == .reroll) d.index)
  clamped : d.clamped = records.any (·.lists (·.clamps) d.index)

structure Die.Marked (kind : OperationKind) (affected : List Nat) (d d' : Die) : Prop where
  index : d'.index = d.index
  sides : d'.sides = d.sides
  faces : d.faces <+: d'.faces
  value : d.index ∉ affected → d'.value = d.value
  dropped : d'.dropped = (d.dropped || kind.selects && affected.contains d.index)
  once : (kind.selects && affected.contains d.index) = true → d.dropped = false
  exploded : d'.exploded = (d.exploded || kind == .explode && affected.contains d.index)
  rerolled : d'.rerolled = (d.rerolled || kind == .reroll && affected.contains d.index)
  clamped : d'.clamped = (d.clamped || kind.clamps && affected.contains d.index)

variable {σ : Type} [Source σ] {deadline : Option Float} {cap : Int} {dice : List Die}
  {sides : Int} {records : List AppliedOperation}

section Chains

theorem Chained.append_singleton {first mid : List Int} (h : Chained first records mid)
    {a : AppliedOperation} (ha : a.before = mid) : Chained first (records ++ [a]) a.after := by
  induction records generalizing first with
  | nil =>
    have hfirst : first = mid := h
    exact ⟨ha.trans hfirst.symm, rfl⟩
  | cons b records ih =>
    obtain ⟨hb, hrest⟩ := h
    exact ⟨hb, ih hrest⟩

theorem Die.Traced.marked {d d' : Die} (h : d.Traced records) {a : AppliedOperation}
    (hm : d.Marked a.kind a.affected d') : d'.Traced (records ++ [a]) := by
  have hlists (p : OperationKind → Bool) :
      a.lists p d.index = (p a.kind && a.affected.contains d.index) := rfl
  constructor
  · have hold := h.dropped
    have hdropped := hm.dropped
    have honce := hm.once
    rw [hm.index, List.countP_append, List.countP_singleton, hold, hdropped, ← hlists (·.selects)]
    rw [← hlists (·.selects)] at honce
    cases hl : a.lists (·.selects) d.index
    · simp
    · simp [honce hl]
  · rw [hm.index, hm.exploded, h.exploded]
    simp [hlists]
  · rw [hm.index, hm.rerolled, h.rerolled]
    simp [hlists]
  · rw [hm.index, hm.clamped, h.clamped]
    simp [hlists]

end Chains

section Marks

def Die.Added (sides : Int) (d : Die) : Prop :=
  ∃ place face, d = { ofFace place sides face with exploded := true }

structure Marks (sides : Int) (kind : OperationKind) (dice kept added : List Die)
    (affected : List Nat) : Prop where
  marked : List.Forall₂ (Die.Marked kind affected) dice kept
  grown : ∀ d ∈ added, kind = .explode ∧ d.Added sides ∧ d.index ∈ affected ∧
    dice.length ≤ d.index
  index : (kept ++ added).map (·.index) = List.range (kept ++ added).length
  within : ∀ i ∈ affected, i < (kept ++ added).length

theorem Die.marked_refl {kind : OperationKind} {affected : List Nat} {d : Die}
    (h : d.index ∉ affected) : d.Marked kind affected d := by
  constructor <;> simp [h]

theorem index_lt (hi : dice.map (·.index) = List.range dice.length) {d : Die} (hd : d ∈ dice) :
    d.index < dice.length := by
  have hmem : d.index ∈ dice.map (·.index) := List.mem_map_of_mem hd
  rw [hi] at hmem
  exact List.mem_range.mp hmem

theorem nodup_of_index (hi : dice.map (·.index) = List.range dice.length) :
    (dice.map (·.index)).Nodup := by
  rw [hi]
  exact List.nodup_range

theorem index_mem_map_filter_iff (hi : dice.map (·.index) = List.range dice.length)
    (p : Die → Bool) {d : Die} (hd : d ∈ dice) :
    d.index ∈ (dice.filter p).map (·.index) ↔ p d = true := by
  have hsub : ∀ e ∈ dice.filter p, e ∈ dice := fun e he => (List.mem_filter.mp he).1
  rw [mem_of_index_mem (nodup_of_index hi) hsub hd, List.mem_filter]
  exact and_iff_right hd

theorem index_of_forall₂ {kind : OperationKind} {affected : List Nat} {dice' : List Die}
    (h : List.Forall₂ (Die.Marked kind affected) dice dice') :
    dice'.map (·.index) = dice.map (·.index) := by
  induction h with
  | nil => rfl
  | cons hd _ ih => exact congrArg₂ List.cons hd.index ih

/-- An operation that changes dice in their places lists those that it changes. -/
theorem marks_of_forall₂ (hi : dice.map (·.index) = List.range dice.length) (kind : OperationKind)
    (p : Die → Bool) {dice' : List Die}
    (h : List.Forall₂ (Die.Marked kind ((dice.filter p).map (·.index))) dice dice') :
    Marks sides kind dice dice' [] ((dice.filter p).map (·.index)) := by
  have hlength := h.length_eq
  have hindex := index_of_forall₂ h
  refine ⟨h, by simp, by simp [hindex, hi, hlength], fun i hm => ?_⟩
  obtain ⟨d, hd, rfl⟩ := List.mem_map.mp hm
  have hlt := index_lt hi (List.mem_filter.mp hd).1
  simpa [← hlength] using hlt

theorem Die.gives_marked_reroll {affected : List Nat} {d : Die} (targets : List Int)
    (attempts : Nat) (h : d.index ∈ affected ↔ d.shows targets = true) :
    Gives (d.reroll deadline targets attempts : Drawing σ Die) (d.Marked .reroll affected) := by
  unfold reroll
  by_cases hs : d.shows targets = true
  · have hin := h.mpr hs
    rw [if_pos hs]
    refine (Gives.trivial _).bind fun faces _ => .of_pure ?_
    constructor <;> simp [hin, OperationKind.selects, OperationKind.clamps]
  · rw [if_neg hs]
    exact .of_pure (marked_refl (mt h.mp hs))

theorem gives_marks_rerollAll (hi : dice.map (·.index) = List.range dice.length) (op : Operation) :
    Gives (rerollAll deadline cap op dice : Drawing σ (List Die × List Nat)) fun r =>
      Marks sides .reroll dice r.1 [] r.2 := by
  have hall : Gives (dice.mapM (·.reroll deadline op.operand.values (op.attempts cap)) :
      Drawing σ (List Die)) (List.Forall₂ (Die.Marked .reroll
        ((dice.filter (·.shows op.operand.values)).map (·.index))) dice) :=
    .mapM fun d hd => Die.gives_marked_reroll _ _ (index_mem_map_filter_iff hi _ hd)
  exact hall.bind fun dice' hdice => .of_pure (marks_of_forall₂ hi _ _ hdice)

theorem gives_marks_explodeAll (hi : dice.map (·.index) = List.range dice.length) (op : Operation)
    (hsides : ∀ d ∈ dice, d.sides = sides) :
    Gives (explodeAll deadline cap op dice : Drawing σ (List Die × List Nat × Bool)) fun r =>
      ∃ added, r.1 = dice ++ added ∧ Marks sides .explode dice dice added r.2.1 := by
  refine Gives.mono (deals_explodeAll (F := fun _ => True) (fun _ => trivial) drawsWithin_any
    hsides).gives fun r hr => ?_
  obtain ⟨added, hadded, hlisted, hburst⟩ := hr
  have hrange := hburst.index
  dsimp only at hrange
  refine ⟨added, hadded, ?_, fun d hd => ?_, ?_, ?_⟩
  · refine List.forall₂_same.mpr fun d hd => Die.marked_refl ?_
    have hlt := index_lt hi hd
    rw [hlisted, hrange, List.mem_range'_1]
    omega
  · obtain ⟨place, face, -, he⟩ := hburst.dice d hd
    have hin : d.index ∈ added.map (·.index) := List.mem_map_of_mem hd
    rw [hlisted]
    refine ⟨rfl, ⟨place, face, he⟩, hin, ?_⟩
    rw [hrange, List.mem_range'_1] at hin
    exact hin.1
  · rw [List.map_append, hi, hrange, List.length_append, List.range_eq_range', List.range_eq_range']
    simpa using @List.range'_append 0 dice.length added.length 1
  · intro i hm
    rw [hlisted, hrange, List.mem_range'_1] at hm
    rw [List.length_append]
    omega

theorem marks_select (hi : dice.map (·.index) = List.range dice.length) {kind : OperationKind}
    (hk : kind.selects = true) (n : Int) :
    Marks sides kind dice (select kind n dice).1 [] (select kind n dice).2 := by
  have hin : ∀ e ∈ leftOut kind n (dice.filter (!·.dropped)), e ∈ dice ∧ e.dropped = false := by
    intro e he
    have hperm := stays_append_leftOut_perm kind n (dice.filter (!·.dropped))
    have hmem := List.mem_filter.mp (hperm.subset (List.mem_append_right _ he))
    exact ⟨hmem.1, by simpa using hmem.2⟩
  have hnodup := nodup_of_index hi
  unfold select
  generalize leftOut kind n (dice.filter (!·.dropped)) = out at hin
  refine marks_of_forall₂ hi kind (fun d => (out.map (·.index)).contains d.index) ?_
  refine List.forall₂_map_right_iff.mpr (List.forall₂_same.mpr fun d hd => ?_)
  have hlisted := index_mem_map_filter_iff hi (fun d => (out.map (·.index)).contains d.index) hd
  generalize (dice.filter _).map (·.index) = affected at hlisted ⊢
  by_cases ho : (out.map (·.index)).contains d.index = true
  · have hlist := hlisted.mpr ho
    rw [if_pos ho]
    have hcounts : d.dropped = false := by
      have hindex : d.index ∈ out.map (·.index) := by simpa using ho
      exact (hin d ((mem_of_index_mem hnodup (fun e he => (hin e he).1) hd).mp hindex)).2
    have hclamps : kind.clamps = false := by
      cases kind <;> simp_all [OperationKind.selects, OperationKind.clamps]
    have hreroll : (kind == .reroll) = false := by cases kind <;> simp_all [OperationKind.selects]
    have hexplode : (kind == .explode) = false := by cases kind <;> simp_all [OperationKind.selects]
    constructor <;> simp [hlist, hk, hcounts, hclamps, hreroll, hexplode]
  · rw [if_neg ho]
    exact Die.marked_refl (mt hlisted.mp ho)

theorem marks_bound (hi : dice.map (·.index) = List.range dice.length) {kind : OperationKind}
    (hk : kind.clamps = true) (n : Int) :
    Marks sides kind dice (bound kind n dice).1 [] (bound kind n dice).2 := by
  refine marks_of_forall₂ hi kind (·.exceeds kind n) ?_
  refine List.forall₂_map_right_iff.mpr (List.forall₂_same.mpr fun d hd => ?_)
  have hlisted := index_mem_map_filter_iff hi (·.exceeds kind n) hd
  by_cases he : d.exceeds kind n = true
  · have hlist := hlisted.mpr he
    rw [if_pos he]
    have hselects : kind.selects = false := by
      cases kind <;> simp_all [OperationKind.selects, OperationKind.clamps]
    have hreroll : (kind == .reroll) = false := by cases kind <;> simp_all [OperationKind.clamps]
    have hexplode : (kind == .explode) = false := by cases kind <;> simp_all [OperationKind.clamps]
    constructor <;> simp [hlist, hk, hselects, hreroll, hexplode]
  · rw [if_neg he]
    exact Die.marked_refl (mt hlisted.mp he)

theorem Operation.gives_marks (hi : dice.map (·.index) = List.range dice.length)
    (hs : ∀ d ∈ dice, d.sides = sides) (op : Operation) :
    Gives (op.apply deadline cap dice : Drawing σ (List Die × List Nat × Bool)) fun r =>
      ∃ kept added, r.1 = kept ++ added ∧ Marks sides op.kind dice kept added r.2.1 := by
  have hbound {kind : OperationKind} (hk : kind.clamps = true) (operand : Operand) (again : Bool) :
      Gives (liftM (boundAll ⟨kind, operand, again⟩ dice) : Drawing σ (List Die × List Nat))
        fun r => Marks sides kind dice r.1 [] r.2 := by
    refine .of_lift fun r hr => ?_
    unfold boundAll at hr
    split at hr
    · next hall =>
      have hmarks : Marks sides kind dice _ [] _ := marks_bound hi hk 0
      rw [bound_of_all_dropped kind 0 hall] at hmarks
      cases hr
      exact hmarks
    · obtain ⟨n, -, rfl⟩ := map_eq_ok_iff.mp hr
      exact marks_bound hi hk n
  obtain ⟨kind, operand, again⟩ := op
  unfold apply
  cases kind
  case reroll =>
    refine Gives.bind (gives_marks_rerollAll hi _) fun r hr => .of_pure ⟨r.1, [], ?_, hr⟩
    simp
  case explode =>
    exact (gives_marks_explodeAll hi _ hs).mono fun r ⟨added, hr⟩ => ⟨dice, added, hr⟩
  case minimum | maximum =>
    exact (hbound rfl operand again).bind fun r hr => .of_pure ⟨r.1, [], by simp, hr⟩
  all_goals
    refine (Gives.trivial _).bind fun n _ => .of_pure ⟨_, [], ?_, marks_select hi rfl n⟩
    simp

end Marks

section Runs

/-- An operation lists every die that shows another face after it. -/
def AppliedOperation.Complete (a : AppliedOperation) : Prop :=
  ∀ i v w, a.before[i]? = some v → a.after[i]? = some w → v ≠ w → i ∈ a.affected

structure Progress.Traced (sides : Int) (initial : List Int) (p : Progress) : Prop where
  index : p.dice.map (·.index) = List.range p.dice.length
  shape : ∀ d ∈ p.dice, d.sides = sides
  faces : ∀ d ∈ p.dice, d.faces ≠ []
  first : (p.dice.take initial.length).map (·.firstFace) = initial
  traced : ∀ d ∈ p.dice, d.Traced p.operations
  within : ∀ a ∈ p.operations, ∀ i ∈ a.affected, i < p.dice.length
  chained : Chained initial p.operations (p.dice.map (·.value))
  complete : ∀ a ∈ p.operations, a.Complete

variable {initial : List Int} {p p' : Progress} {kind : OperationKind} {affected : List Nat}

theorem Die.Marked.firstFace {d d' : Die} (h : d.Marked kind affected d') (hd : d.faces ≠ []) :
    d'.firstFace = d.firstFace := by
  obtain ⟨more, hmore⟩ := h.faces
  unfold Die.firstFace
  rw [← hmore]
  cases hf : d.faces with
  | nil => exact absurd hf hd
  | cons face faces => rfl

theorem map_firstFace_of_forall₂ {kept : List Die}
    (h : List.Forall₂ (Die.Marked kind affected) dice kept) (hf : ∀ d ∈ dice, d.faces ≠ []) :
    kept.map (·.firstFace) = dice.map (·.firstFace) := by
  induction h with
  | nil => rfl
  | cons hd _ ih =>
    obtain ⟨hface, hfaces⟩ := List.forall_mem_cons.mp hf
    exact congrArg₂ List.cons (hd.firstFace hface) (ih hfaces)

theorem Die.Added.traced {d : Die} (h : d.Added sides) {a : AppliedOperation}
    (hk : a.kind = .explode) (ha : d.index ∈ a.affected)
    (hrecords : ∀ b ∈ records, d.index ∉ b.affected) : d.Traced (records ++ [a]) := by
  have hnone (p : OperationKind → Bool) : ∀ b ∈ records, ¬ b.lists p d.index = true := by
    intro b hb
    have hout := hrecords b hb
    simp [AppliedOperation.lists, hout]
  have hlast (p : OperationKind → Bool) : a.lists p d.index = p .explode := by
    simp [AppliedOperation.lists, hk, ha]
  have hany (p : OperationKind → Bool) :
      (records ++ [a]).any (·.lists p d.index) = p .explode := by
    have hold : records.any (·.lists p d.index) = false := List.any_eq_false.mpr (hnone p)
    rw [List.any_append, hold, List.any_cons, List.any_nil, hlast, Bool.false_or, Bool.or_false]
  obtain ⟨place, face, he⟩ := h
  constructor
  · have hcount : records.countP (·.lists (·.selects) d.index) = 0 :=
      List.countP_eq_zero.mpr (hnone _)
    rw [List.countP_append, hcount, List.countP_singleton, hlast, he]
    rfl
  all_goals rw [hany, he]; rfl

theorem Marks.complete (hi : dice.map (·.index) = List.range dice.length) {a : AppliedOperation}
    {kept added : List Die} (h : Marks sides a.kind dice kept added a.affected)
    (hbefore : a.before = dice.map (·.value)) (hafter : a.after = (kept ++ added).map (·.value)) :
    a.Complete := by
  intro i v w hv hw hne
  rw [hbefore, List.getElem?_map, Option.map_eq_some_iff] at hv
  obtain ⟨d, hd, rfl⟩ := hv
  obtain ⟨hlt, rfl⟩ := List.getElem?_eq_some_iff.mp hd
  have hlt' : i < kept.length := by rwa [← h.marked.length_eq]
  rw [hafter, List.getElem?_map, List.getElem?_append_left hlt', List.getElem?_eq_getElem hlt'] at hw
  have hmark : dice[i].Marked a.kind a.affected kept[i] := h.marked.get hlt hlt'
  have hplace : dice[i].index = i := by
    have hget := congrArg (·[i]?) hi
    simpa [hlt] using hget
  by_contra hout
  have hsame := hmark.value (by rwa [hplace])
  exact hne (hsame.symm.trans (Option.some.inj hw))

theorem Progress.Traced.marks (h : p.Traced sides initial) {a : AppliedOperation}
    {kept added : List Die} (hm : Marks sides a.kind p.dice kept added a.affected)
    (hdice : p'.dice = kept ++ added) (hrecorded : p'.operations = p.operations ++ [a])
    (hbefore : a.before = p.dice.map (·.value)) (hafter : a.after = p'.dice.map (·.value)) :
    p'.Traced sides initial := by
  have hlength := hm.marked.length_eq
  have hle : p.dice.length ≤ p'.dice.length := by
    rw [hdice, List.length_append]
    omega
  have hcases {d' : Die} (hd' : d' ∈ p'.dice) : (∃ d ∈ p.dice, d.Marked a.kind a.affected d') ∨
      d' ∈ added := by
    rw [hdice] at hd'
    exact (List.mem_append.mp hd').imp_left (exists_mem_of_forall₂ hm.marked d')
  constructor
  · rw [hdice, hm.index]
  · intro d' hd'
    rcases hcases hd' with ⟨d, hd, hmark⟩ | hd'
    · exact hmark.sides.trans (h.shape d hd)
    · obtain ⟨-, ⟨place, face, rfl⟩, -⟩ := hm.grown d' hd'
      rfl
  · intro d' hd'
    rcases hcases hd' with ⟨d, hd, hmark⟩ | hd'
    · have hprefix := hmark.faces
      intro hnil
      rw [hnil, List.prefix_nil] at hprefix
      exact h.faces d hd hprefix
    · obtain ⟨-, ⟨place, face, rfl⟩, -⟩ := hm.grown d' hd'
      simp [Die.ofFace]
  · have hfirst := map_firstFace_of_forall₂ hm.marked h.faces
    have hinitial : initial.length ≤ kept.length := by
      have hl := congrArg List.length h.first
      rw [List.length_map, List.length_take] at hl
      omega
    rw [hdice, List.take_append_of_le_length hinitial, List.map_take, hfirst, ← List.map_take]
    exact h.first
  · intro d' hd'
    rw [hrecorded]
    rcases hcases hd' with ⟨d, hd, hmark⟩ | hd'
    · exact (h.traced d hd).marked hmark
    · obtain ⟨hk, hadded, haffected, hnew⟩ := hm.grown d' hd'
      refine hadded.traced hk haffected fun b hb hin => ?_
      have hold := h.within b hb _ hin
      omega
  · intro b hb i hin
    rw [hrecorded] at hb
    rcases List.mem_append.mp hb with hb | hb
    · have := h.within b hb i hin
      omega
    · rw [List.mem_singleton.mp hb] at hin
      rw [hdice]
      exact hm.within i hin
  · rw [hrecorded, ← hafter]
    exact h.chained.append_singleton hbefore
  · intro b hb
    rw [hrecorded] at hb
    rcases List.mem_append.mp hb with hb | hb
    · exact h.complete b hb
    · rw [List.mem_singleton.mp hb]
      exact hm.complete h.index hbefore (by rw [hafter, hdice])

/-- What one operation keeps: the dice and the records still tell the same. -/
theorem Progress.Traced.gives_step (h : p.Traced sides initial) (op : Operation) :
    Gives (p.step deadline cap op : Drawing σ Progress) fun p' => p'.Traced sides initial ∧
      ∃ a : AppliedOperation, (a.kind = op.kind ∧ a.operand = op.operand) ∧
        p'.operations = p.operations ++ [a] := by
  refine (gives_recorded (op.gives_marks h.index h.shape)).mono fun p' hp' => ?_
  obtain ⟨affected, full, ⟨kept, added, hdice, hmarks⟩, hrecorded, -⟩ := hp'
  exact ⟨h.marks hmarks hdice hrecorded rfl rfl, _, ⟨rfl, rfl⟩, hrecorded⟩

theorem Progress.Traced.gives_run (h : p.Traced sides initial) (ops : List Operation) :
    Gives (ops.foldlM (step deadline cap) p : Drawing σ Progress) fun p' =>
      p'.Traced sides initial ∧ ∃ records : List AppliedOperation,
        List.Forall₂ (fun op a => a.kind = op.kind ∧ a.operand = op.operand) ops records ∧
        p'.operations = p.operations ++ records := by
  induction ops generalizing p with
  | nil => exact .of_pure ⟨h, [], .nil, by simp⟩
  | cons op ops ih =>
    rw [List.foldlM_cons]
    refine (h.gives_step op).bind fun p₁ ⟨hp₁, a, ha, hrecorded⟩ => ?_
    refine (ih hp₁).mono fun p₂ ⟨hp₂, records, hrecords, hrun⟩ => ?_
    refine ⟨hp₂, a :: records, .cons ha hrecords, ?_⟩
    rw [hrun, hrecorded, List.append_assoc]
    rfl

theorem Progress.traced_of_fallen (hi : dice.map (·.index) = List.range dice.length)
    (hf : ∀ d ∈ dice, ∃ place face, d = Die.ofFace place sides face) :
    ({ dice } : Progress).Traced sides (dice.map (·.value)) := by
  constructor <;> dsimp only
  · exact hi
  · intro d hd
    obtain ⟨place, face, rfl⟩ := hf d hd
    rfl
  · intro d hd
    obtain ⟨place, face, rfl⟩ := hf d hd
    simp [Die.ofFace]
  · rw [List.length_map, List.take_length]
    refine List.map_congr_left fun d hd => ?_
    obtain ⟨place, face, rfl⟩ := hf d hd
    rfl
  · intro d hd
    obtain ⟨place, face, rfl⟩ := hf d hd
    exact ⟨rfl, rfl, rfl, rfl⟩
  · simp
  · exact rfl
  · simp

end Runs

section Rolls

/-- A roll whose records tell all that became of its dice, from the faces that they showed first. -/
structure Roll.Traced (t : Term) (initial : List Int) (r : Roll) : Prop where
  recorded : List.Forall₂ (fun op a => a.kind = op.kind ∧ a.operand = op.operand) t.pool.phases
    r.operations
  index : r.dice.map (·.index) = List.range r.dice.length
  rolled : initial.length = t.pool.count.toNat
  first : (r.dice.take initial.length).map (·.firstFace) = initial
  chained : Chained initial r.operations (r.dice.map (·.value))
  within : ∀ a ∈ r.operations, ∀ i ∈ a.affected, i < r.dice.length
  /-- One selection lists a die that it left out, and none a die that counts. -/
  dropped : ∀ d ∈ r.dice,
    r.operations.countP (·.lists (·.selects) d.index) = if d.dropped then 1 else 0
  exploded : ∀ i, r.operations.any (·.lists (· == .explode) i) = true ↔
    ∃ d ∈ r.dice, d.index = i ∧ d.exploded = true
  rerolled : ∀ i, r.operations.any (·.lists (· == .reroll) i) = true ↔
    ∃ d ∈ r.dice, d.index = i ∧ d.rerolled = true
  clamped : ∀ i, r.operations.any (·.lists (·.clamps) i) = true ↔
    ∃ d ∈ r.dice, d.index = i ∧ d.clamped = true
  complete : ∀ a ∈ r.operations, a.Complete

theorem any_lists_iff {dice : List Die} (hi : dice.map (·.index) = List.range dice.length)
    (hw : ∀ a ∈ records, ∀ i ∈ a.affected, i < dice.length) {p : OperationKind → Bool}
    {flag : Die → Bool} (hf : ∀ d ∈ dice, flag d = records.any (·.lists p d.index)) (i : Nat) :
    records.any (·.lists p i) = true ↔ ∃ d ∈ dice, d.index = i ∧ flag d = true := by
  constructor
  · intro h
    obtain ⟨a, ha, hlists⟩ := List.any_eq_true.mp h
    have hin : i ∈ a.affected := by
      simp only [AppliedOperation.lists, Bool.and_eq_true] at hlists
      simpa using hlists.2
    have hplace : i ∈ dice.map (·.index) := by
      rw [hi]
      exact List.mem_range.mpr (hw a ha i hin)
    obtain ⟨d, hd, rfl⟩ := List.mem_map.mp hplace
    exact ⟨d, hd, rfl, (hf d hd).trans h⟩
  · rintro ⟨d, hd, rfl, hflag⟩
    rwa [← hf d hd]

variable {label : Option String} {tray tray' : Tray σ}

theorem dealt_of_rollDice {next n : Nat} (h : (rollDice deadline sides next n : Drawing σ _) tray =
    (.ok dice, tray')) : tray.Dealt sides (dice.map (·.value)) tray' := by
  induction n generalizing next dice tray with
  | zero =>
    cases h
    exact .of_still rfl rfl
  | succ n ih =>
    obtain ⟨face, tray₁, hface, h⟩ := bind_apply_eq_ok_iff.mp h
    obtain ⟨rest, tray₂, hrest, h⟩ := bind_apply_eq_ok_iff.mp h
    cases h
    exact (dealt_of_draw hface).append (ih hrest)

theorem Term.traced_of_roll {t : Term} {r : Roll}
    (hr : (t.roll deadline cap label : Drawing σ Roll) tray = (.ok r, tray')) :
    ∃ faces, tray.Dealt t.pool.sides faces tray' ∧
      r.Traced t (faces.take t.pool.count.toNat) := by
  obtain ⟨dice, tray₁, hdice, hr⟩ := bind_apply_eq_ok_iff.mp hr
  obtain ⟨p, tray₂, hp, hr⟩ := bind_apply_eq_ok_iff.mp hr
  cases hr
  have hany : DrawsWithin σ (fun _ => True) deadline t.pool.sides := drawsWithin_any
  obtain ⟨⟨hindex, hfallen⟩, -⟩ := (deals_rollDice hany 0 _ : Deals _ _ [] _ _ _).of_ok hdice
  obtain ⟨⟨hthrown, hlength⟩, -⟩ := (deals_thrown_rollDice hany _).of_ok hdice
  obtain ⟨-, later, hlater, -⟩ :=
    (Pool.deals_phases hany (fun _ => trivial) (q := { dice }) hthrown).of_ok hp
  have hstart := Progress.traced_of_fallen hthrown.index fun d hd => by
    obtain ⟨place, face, -, he⟩ := hfallen d hd
    exact ⟨place, face, he⟩
  obtain ⟨htraced, records, hrecords, hrun⟩ := hstart.gives_run t.pool.phases _ _ _ hp
  rw [List.nil_append] at hrun
  have hinitial : (dice.map (·.value)).length = t.pool.count.toNat := by
    rw [List.length_map, hlength]
  refine ⟨dice.map (·.value) ++ later, (dealt_of_rollDice hdice).append hlater, ?_⟩
  rw [List.take_left' hinitial]
  exact {
    recorded := by rwa [hrun]
    index := htraced.index
    rolled := hinitial
    first := htraced.first
    chained := htraced.chained
    within := htraced.within
    dropped := fun d hd => (htraced.traced d hd).dropped
    exploded := any_lists_iff htraced.index htraced.within fun d hd => (htraced.traced d hd).exploded
    rerolled := any_lists_iff htraced.index htraced.within fun d hd => (htraced.traced d hd).rerolled
    clamped := any_lists_iff htraced.index htraced.within fun d hd => (htraced.traced d hd).clamped
    complete := htraced.complete }

/-- Only time or an unfair source is in the way of a roll of what was read, and its records tell all
that became of its dice. -/
theorem Term.roll_traced {limits : Limits} {text : String} {t : Term}
    (h : parse limits text = .ok t) (deadline : Option Float) (cap : Int) (label : Option String)
    (tray : Tray σ) :
    (Source.Fair σ → deadline = none →
      ∃ r tray', t.roll deadline cap label tray = (.ok r, tray')) ∧
    ∀ r tray', t.roll deadline cap label tray = (.ok r, tray') →
      ∃ faces, tray.Dealt t.pool.sides faces tray' ∧
        r.Traced t (faces.take t.pool.count.toNat) := by
  refine ⟨fun hs hd => ?_, fun r tray' hr => traced_of_roll hr⟩
  have hread := (Term.parse_eq_ok_iff.mp h).2
  rcases hr : t.roll deadline cap label tray with ⟨fault | r, tray'⟩
  · have hsingle : Single t.pool.operations := fun op hop => by
      obtain ⟨n, hn, _⟩ := hread.positive op hop
      exact ⟨n, hn⟩
    exact absurd hd (timeout_of_roll_eq_error hread.regular.sides hsingle hs hr).2
  · exact ⟨r, tray', rfl⟩

theorem Term.roll_traced_brawl : parse {} "3d6rr1!6kh2min3+1" = .ok brawl ∧ ∃ r tray' faces,
    brawl.roll none 100 none ({ source := seeded 7 } : Tray StdGen) = (.ok r, tray') ∧
    Gave 6 (seeded 7) faces tray'.source ∧ r.Traced brawl (faces.take 3) := by
  have h : parse {} "3d6rr1!6kh2min3+1" = .ok brawl := eq_ok_of_toOption (by decide +kernel)
  obtain ⟨hrolls, htraced⟩ := Term.roll_traced h none 100 none ({ source := seeded 7 } : Tray StdGen)
  obtain ⟨r, tray', hr⟩ := hrolls fair_stdGen rfl
  obtain ⟨faces, hdealt, htrace⟩ := htraced r tray' hr
  exact ⟨h, r, tray', faces, hr, hdealt.gave, htrace⟩

end Rolls

end DiceTower
