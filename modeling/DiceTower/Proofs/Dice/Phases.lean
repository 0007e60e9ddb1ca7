import DiceTower.Proofs.Dice.Settling

/-! The operations of a pool in their phases. First the number of dice grows, then fewer of them
count, last the faces that count are brought within bounds. -/

namespace DiceTower

open DiceTower.Computation Drawing

variable {σ : Type} [Source σ] {F : Fault → Prop} {sides : Int} {deadline : Option Float} {cap : Int}
  {count rounds : Nat}

theorem Progress.gives_step {p : Progress} {op : Operation} {P : List Die → Prop}
    (h : Gives (op.apply deadline cap p.dice : Drawing σ (List Die × List Nat × Bool))
      fun r => P r.1) :
    Gives (p.step deadline cap op : Drawing σ Progress) fun p' => P p'.dice := by
  rw [step_eq]
  refine h.bind fun r hr => ?_
  unfold record
  split
  · exact (Gives.trivial _).bind fun _ _ => .of_pure hr
  · exact .of_pure hr

theorem Progress.deals_step {p : Progress} {op : Operation} {P : List Die → Prop}
    (h : Deals F sides (everyFace p.dice) (fun r => everyFace r.1) (fun r => P r.1)
      (op.apply deadline cap p.dice : Drawing σ (List Die × List Nat × Bool))) :
    Deals F sides (everyFace p.dice) (fun p' => everyFace p'.dice) (fun p' => P p'.dice)
      (p.step deadline cap op : Drawing σ Progress) := by
  rw [step_eq]
  refine h.bind fun r hr => ?_
  unfold record
  split
  · exact (deals_note _).bind fun _ _ => .of_pure hr (.refl _)
  · exact .of_pure hr (.refl _)

section Growing

def Operation.redraws (cap : Int) (op : Operation) : Nat :=
  if op.kind = .reroll then op.attempts cap else 0

/-- How the number of dice grows by operations that neither select nor bound. -/
structure Grown (cap : Int) (ops : List Operation) (n n' : Nat) : Prop where
  least : n ≤ n'
  most : n' ≤ max cap n
  same : (∀ op ∈ ops, op.kind ≠ .explode) → n' = n
  full : 1 ≤ n → (∃ op ∈ ops, op.kind = .explode ∧ op.number ≤ 1) → cap ≤ n'

theorem grown_refl {ops : List Operation} (h : ∀ op ∈ ops, op.kind ≠ .explode) (n : Nat) :
    Grown cap ops n n :=
  ⟨le_rfl, by omega, fun _ => rfl, fun _ ⟨op, hop, hk, _⟩ => absurd hk (h op hop)⟩

theorem Grown.cons {op : Operation} {ops : List Operation} {n n' n'' : Nat}
    (h : Grown cap [op] n n') (h' : Grown cap ops n' n'') : Grown cap (op :: ops) n n'' := by
  have hl := h.least
  have hl' := h'.least
  have hm := h.most
  have hm' := h'.most
  refine ⟨hl.trans hl', by omega, fun hn => ?_, ?_⟩
  · rw [h'.same fun op hop => hn op (by simp [hop]), h.same (by simpa using hn op (by simp))]
  · rintro h1 ⟨op', hop, hk⟩
    rcases List.mem_cons.mp hop with rfl | hop
    · have := h.full h1 ⟨op', by simp, hk⟩
      omega
    · exact h'.full (by omega) ⟨op', hop, hk⟩

theorem Burst.grown {dice added : List Die} {full : Bool} {op : Operation}
    (hk : op.kind = .explode) (h : Thrown sides count rounds dice)
    (hb : Burst sides op.number (cap - dice.length).toNat dice.length dice (added, full)) :
    Grown cap [op] dice.length (dice ++ added).length := by
  have hfresh := (h.burst hb).lying.fresh
  have hmost := hb.most
  rw [List.length_append]
  dsimp only at hmost
  refine ⟨by omega, by push_cast; omega, fun hx => absurd hk (hx op (by simp)), ?_⟩
  rintro h1 ⟨op', hop, _, ht⟩
  rw [List.mem_singleton.mp hop] at ht
  cases full with
  | true =>
    have hroom := hb.full rfl
    dsimp only at hroom
    push_cast
    omega
  | false =>
    have hexact := hb.exact rfl
    have hall : (dice ++ added).countP (fun d => decide (op.number ≤ d.value)) =
        (dice ++ added).length := by
      refine List.countP_eq_length.mpr fun d hd => ?_
      have hface := (hfresh d hd).face.1
      simp only [decide_eq_true_eq]
      omega
    simp only [hall, List.length_append] at hexact
    omega

theorem Operation.deals_apply_growing (hd : DrawsWithin σ F deadline sides) {op : Operation}
    (hop : (¬ ∃ n, op.operand = .one n) → F .wrongKind)
    (hk : op.kind.selects = false ∧ op.kind.clamps = false) {dice : List Die}
    (h : Thrown sides count rounds dice) :
    Deals F sides (everyFace dice) (fun r => everyFace r.1)
      (fun r => Thrown sides count (rounds + op.redraws cap) r.1 ∧
        Grown cap [op] dice.length r.1.length)
      (op.apply deadline cap dice : Drawing σ (List Die × List Nat × Bool)) := by
  obtain ⟨kind, operand, recursive⟩ := op
  cases kind <;> try cases hk.1
  case reroll =>
    refine (deals_rerollAll hd h _).bind fun r hr => .of_pure ⟨hr.1, ?_⟩ (.refl _)
    show Grown _ _ _ r.1.length
    rw [hr.2]
    exact grown_refl (by simp) _
  case explode =>
    refine (deals_explodeAll hop hd fun d hmem => (h.told d hmem).shape).mono fun r hr => ?_
    obtain ⟨added, hadded, -, hburst⟩ := hr
    rw [hadded]
    exact ⟨h.burst hburst, hburst.grown rfl h⟩
  case minimum | maximum => cases hk.2

theorem deals_growing (hd : DrawsWithin σ F deadline sides) {ops : List Operation}
    (hop : ∀ op ∈ ops, (¬ ∃ n, op.operand = .one n) → F .wrongKind)
    (hk : ∀ op ∈ ops, op.kind.selects = false ∧ op.kind.clamps = false) {p : Progress}
    (h : Thrown sides count rounds p.dice) :
    Deals F sides (everyFace p.dice) (fun p' => everyFace p'.dice)
      (fun p' => Thrown sides count (rounds + (ops.map (·.redraws cap)).sum) p'.dice ∧
        Grown cap ops p.dice.length p'.dice.length)
      (ops.foldlM (Progress.step deadline cap) p : Drawing σ Progress) := by
  induction ops generalizing p rounds with
  | nil => exact .of_pure ⟨h, grown_refl (by simp) _⟩ (.refl _)
  | cons op ops ih =>
    obtain ⟨ho, hops⟩ := List.forall_mem_cons.mp hop
    obtain ⟨hkind, hks⟩ := List.forall_mem_cons.mp hk
    rw [List.foldlM_cons, List.map_cons, List.sum_cons, ← Nat.add_assoc]
    refine (Progress.deals_step (P := fun dice => Thrown sides count (rounds + op.redraws cap) dice ∧
      Grown cap [op] p.dice.length dice.length)
      (Operation.deals_apply_growing hd ho hkind h)).bind fun p' ⟨hp', hgrown⟩ => ?_
    exact (ih hops hks hp').mono fun p'' hp'' => ⟨hp''.1, hgrown.cons hp''.2⟩

end Growing

section Settling

theorem Operation.deals_apply_settling {op : Operation}
    (hop : (¬ ∃ n, op.operand = .one n) → F .wrongKind)
    (hk : op.kind.selects = true ∨ op.kind.clamps = true) (dice : List Die) :
    Deals F sides (everyFace dice) (fun r => everyFace r.1)
      (fun r => r.1.map Die.thrown = dice.map Die.thrown)
      (op.apply deadline cap dice : Drawing σ (List Die × List Nat × Bool)) := by
  have hnumber := Operation.foretells_number hop
  have hbound : Deals F sides (everyFace dice) (fun r => everyFace r.1)
      (fun r => r.1.map Die.thrown = dice.map Die.thrown)
      (liftM (boundAll op dice) : Drawing σ (List Die × List Nat)) := by
    refine .of_lift ?_
    unfold boundAll
    split
    · exact ⟨rfl, .refl _⟩
    · refine .map (hnumber.mono fun n _ => ?_)
      have hsame := map_thrown_bound op.kind n dice
      exact ⟨hsame, .of_eq (everyFace_of_map_thrown hsame)⟩
  unfold apply
  split
  · next hr => simp [hr, OperationKind.selects, OperationKind.clamps] at hk
  · next hx => simp [hx, OperationKind.selects, OperationKind.clamps] at hk
  · exact hbound.bind fun r hr => .of_pure hr (.refl _)
  · exact hbound.bind fun r hr => .of_pure hr (.refl _)
  · refine Deals.bind (P := fun _ => True) (w := fun _ => everyFace dice)
      (.of_lift (hnumber.mono fun _ _ => ⟨trivial, .refl _⟩)) fun n _ => ?_
    have hsame := map_thrown_select op.kind n dice
    exact .of_pure hsame (.of_eq (everyFace_of_map_thrown hsame))

theorem deals_settling {ops : List Operation}
    (hop : ∀ op ∈ ops, (¬ ∃ n, op.operand = .one n) → F .wrongKind)
    (hk : ∀ op ∈ ops, op.kind.selects = true ∨ op.kind.clamps = true) (p : Progress) :
    Deals F sides (everyFace p.dice) (fun p' => everyFace p'.dice)
      (fun p' => p'.dice.map Die.thrown = p.dice.map Die.thrown)
      (ops.foldlM (Progress.step deadline cap) p : Drawing σ Progress) :=
  .foldlM (I := fun p' => p'.dice.map Die.thrown = p.dice.map Die.thrown)
    (fun p' hp' op hmem =>
      (Progress.deals_step (P := fun dice => dice.map Die.thrown = p'.dice.map Die.thrown)
        (Operation.deals_apply_settling (hop op hmem) (hk op hmem) _)).mono
          fun _ h => h.trans hp') rfl

end Settling

section Selecting

/-- Dice in places of their own of which so many count, each with one of its faces. -/
structure Counted (sides : Int) (size : Nat) (dice : List Die) : Prop where
  index : (dice.map (·.index)).Nodup
  size : (counting dice).length = size
  face : ∀ d ∈ counting dice, 1 ≤ d.value ∧ d.value ≤ sides

theorem Lying.counting_eq {dice : List Die} (h : Lying sides dice) : counting dice = dice :=
  List.filter_eq_self.mpr fun d hd => by simp [(h.fresh d hd).counts]

theorem Lying.counted {dice : List Die} (h : Lying sides dice) :
    Counted sides dice.length dice := by
  refine ⟨?_, by rw [h.counting_eq], fun d hd => ?_⟩
  · rw [h.index]
    exact List.nodup_range
  · rw [h.counting_eq] at hd
    exact (h.fresh d hd).face

theorem Counted.counting_index {size : Nat} {dice : List Die} (h : Counted sides size dice) :
    ((counting dice).map (·.index)).Nodup :=
  h.index.sublist ((List.filter_sublist ..).map _)

theorem Counted.select {size : Nat} {dice : List Die} (h : Counted sides size dice) {n : Int}
    (hn : 0 ≤ n) (kind : OperationKind) :
    Counted sides (kind.keeps n size) (select kind n dice).1 := by
  refine ⟨?_, ?_, fun d hd => ?_⟩
  · rw [index_select]
    exact h.index
  · rw [counting_select, (filter_leftOut_perm kind n h.counting_index).length_eq, length_stays hn,
      h.size]
  · rw [counting_select] at hd
    exact h.face d (List.mem_filter.mp hd).1

theorem Counted.settled {ops : List Operation} (h : ∀ op ∈ ops, op.Positive)
    (hk : ∀ op ∈ ops, op.kind.selects = true) {size : Nat} {dice : List Die}
    (hd : Counted sides size dice) : Counted sides (sizeKept ops size) (settled ops dice) := by
  induction ops generalizing dice size with
  | nil => exact hd
  | cons op ops ih =>
    obtain ⟨hop, hops⟩ := List.forall_mem_cons.mp h
    obtain ⟨hs, hks⟩ := List.forall_mem_cons.mp hk
    have h1 := hop.operand.2
    rw [settled_cons, Operation.settle_of_selects hs]
    exact ih hops hks (hd.select (by omega) op.kind)

end Selecting

section Bounding

def faces (dice : List Die) : List Int := (counting dice).map (·.value)

theorem faces_map {g : Die → Die} {f : Int → Int} (hd : ∀ d, (g d).dropped = d.dropped)
    (hv : ∀ d, d.dropped = false → (g d).value = f d.value) (dice : List Die) :
    faces (dice.map g) = (faces dice).map f := by
  unfold faces counting
  induction dice with
  | nil => rfl
  | cons d dice ih =>
    rw [List.map_cons]
    cases hc : d.dropped
    · rw [List.filter_cons_of_pos (by simp [hd, hc]), List.filter_cons_of_pos (by simp [hc]),
        List.map_cons, List.map_cons, List.map_cons, ih, hv d hc]
    · rw [List.filter_cons_of_neg (by simp [hd, hc]), List.filter_cons_of_neg (by simp [hc]), ih]

def Die.within (ops : List Operation) (d : Die) : Die :=
  if d.dropped then d
  else { d with value := shown ops d.value, clamped := d.clamped || shown ops d.value != d.value }

theorem Die.within_cons {op : Operation} {ops : List Operation} (h : op.Positive)
    (hb : BoundsAgree (op :: ops)) (d : Die) :
    within ops (if d.exceeds op.kind op.number
      then { d with value := bounded op.kind op.number d.value, clamped := true } else d) =
      within (op :: ops) d := by
  have hcons := shown_cons h hb d.value
  unfold exceeds
  cases hd : d.dropped
  · by_cases hv : bounded op.kind op.number d.value = d.value
    · rw [hv] at hcons
      simp [within, hd, hv, hcons]
    · have hmoved : shown (op :: ops) d.value ≠ d.value := mt (bounded_eq_of_shown_eq h hb) hv
      simp [within, hd, hv, hcons, hmoved]
  · simp [within, hd]

theorem settled_bounds {ops : List Operation} (h : ∀ op ∈ ops, op.Positive)
    (hk : ∀ op ∈ ops, op.kind.clamps = true) (hb : BoundsAgree ops) (dice : List Die) :
    settled ops dice = dice.map (Die.within ops) := by
  induction ops generalizing dice with
  | nil =>
    have hsame (d : Die) : d.within [] = d := by
      unfold Die.within
      split
      · rfl
      · have hshown : shown [] d.value = d.value := rfl
        simp [hshown]
    exact ((List.map_congr_left fun d _ => hsame d).trans (List.map_id _)).symm
  | cons op ops ih =>
    obtain ⟨hop, hops⟩ := List.forall_mem_cons.mp h
    obtain ⟨hc, hks⟩ := List.forall_mem_cons.mp hk
    rw [settled_cons, Operation.settle_of_clamps hc, ih hops hks hb.tail]
    unfold bound
    rw [List.map_map]
    exact List.map_congr_left fun d _ => Die.within_cons hop hb d

theorem faces_map_within (ops : List Operation) (dice : List Die) :
    faces (dice.map (Die.within ops)) = (faces dice).map (shown ops) := by
  refine faces_map (fun d => ?_) (fun d hd => ?_) dice
  · unfold Die.within
    split <;> rfl
  · simp [Die.within, hd]

theorem settled_filter_clamps {ops : List Operation}
    (h : ∀ op ∈ ops.filter (·.kind.clamps), op.Positive) (hb : BoundsAgree ops) (dice : List Die) :
    settled (ops.filter (·.kind.clamps)) dice = dice.map (Die.within ops) := by
  rw [settled_bounds h (fun op hop => (List.mem_filter.mp hop).2) hb.filter_clamps]
  unfold Die.within
  rw [shown_filter_clamps]

end Bounding

section Rolls

def Pool.redraws (cap : Int) (p : Pool) : Nat := (p.operations.map (·.redraws cap)).sum

theorem Pool.sum_redraws_growing (cap : Int) (p : Pool) :
    ((p.operations.filter fun op => !op.kind.selects && !op.kind.clamps).map
      (·.redraws cap)).sum = p.redraws cap := by
  unfold redraws
  induction p.operations with
  | nil => rfl
  | cons op ops ih =>
    by_cases hk : (!op.kind.selects && !op.kind.clamps) = true
    · rw [List.filter_cons, if_pos hk, List.map_cons, List.map_cons, List.sum_cons, List.sum_cons, ih]
    · have hnone : op.redraws cap = 0 := by
        unfold Operation.redraws
        rw [if_neg fun hr => hk (by rw [hr]; rfl)]
      rw [List.filter_cons, if_neg hk, List.map_cons, List.sum_cons, hnone, Nat.zero_add, ih]

theorem Pool.growing_of_mem {p : Pool} {op : Operation}
    (h : op ∈ p.operations.filter fun op => !op.kind.selects && !op.kind.clamps) :
    op.kind.selects = false ∧ op.kind.clamps = false := by
  simpa using (List.mem_filter.mp h).2

def Pool.grow (deadline : Option Float) (cap : Int) (p : Pool) : Drawing σ Progress := do
  let dice ← rollDice deadline p.sides 0 p.count.toNat
  (p.operations.filter fun op => !op.kind.selects && !op.kind.clamps).foldlM
    (Progress.step deadline cap) { dice }

theorem Term.roll_eq (t : Term) (deadline : Option Float) (cap : Int) (label : Option String) :
    (t.roll deadline cap label : Drawing σ Roll) = (do
      let p ← t.pool.grow deadline cap
      let p ← (t.pool.operations.filter (·.kind.selects)).foldlM (Progress.step deadline cap) p
      let p ← (t.pool.operations.filter (·.kind.clamps)).foldlM (Progress.step deadline cap) p
      pure { term := t, label, dice := p.dice, operations := p.operations, notes := p.notes }) := by
  unfold roll Pool.grow Pool.phases
  simp only [List.foldlM_append, bind_assoc]

theorem Pool.deals_grow {p : Pool} (hd : DrawsWithin σ F deadline p.sides)
    (hop : ¬ Single p.operations → F .wrongKind) :
    Deals F p.sides [] (fun q => everyFace q.dice)
      (fun q => Thrown p.sides p.count.toNat (p.redraws cap) q.dice ∧
        Grown cap (p.operations.filter fun op => !op.kind.selects && !op.kind.clamps)
          p.count.toNat q.dice.length)
      (p.grow deadline cap : Drawing σ Progress) := by
  refine (deals_thrown_rollDice hd _).bind fun dice ⟨hdice, hlength⟩ => ?_
  refine (deals_growing hd (fun op hop' hlist => hop fun hsingle => hlist ?_)
    (fun _ => Pool.growing_of_mem) (p := { dice }) hdice).mono fun q ⟨hq, hgrown⟩ => ?_
  · exact hsingle op (List.mem_filter.mp hop').1
  · rw [Pool.sum_redraws_growing, Nat.zero_add] at hq
    rw [hlength] at hgrown
    exact ⟨hq, hgrown⟩

/-- Whatever is amiss with the source or the time, it is no matter for what a drawing may give. -/
theorem Pool.gives_grow (p : Pool) :
    Gives (p.grow deadline cap : Drawing σ Progress) fun q =>
      Thrown p.sides p.count.toNat (p.redraws cap) q.dice ∧
        Grown cap (p.operations.filter fun op => !op.kind.selects && !op.kind.clamps)
          p.count.toNat q.dice.length :=
  (Pool.deals_grow drawsWithin_any fun _ => trivial).gives

theorem Pool.deals_phases {p : Pool} (hd : DrawsWithin σ F deadline p.sides)
    (hop : ¬ Single p.operations → F .wrongKind) {q : Progress}
    (h : Thrown p.sides count rounds q.dice) :
    Deals F p.sides (everyFace q.dice) (fun q' => everyFace q'.dice)
      (fun q' => Thrown p.sides count (rounds + p.redraws cap) (q'.dice.map Die.thrown))
      (p.phases.foldlM (Progress.step deadline cap) q : Drawing σ Progress) := by
  have hone (f : Operation → Bool) : ∀ op ∈ p.operations.filter f,
      (¬ ∃ n, op.operand = .one n) → F .wrongKind := fun op hmem hlist =>
    hop fun hsingle => hlist (hsingle op (List.mem_filter.mp hmem).1)
  unfold phases
  rw [List.foldlM_append, List.foldlM_append, bind_assoc]
  refine (deals_growing hd (hone _) (fun _ => growing_of_mem) h).bind fun q₁ ⟨hq₁, _⟩ => ?_
  refine (deals_settling (hone _) (fun op hmem => .inl (List.mem_filter.mp hmem).2) q₁).bind
    fun q₂ hq₂ => ?_
  refine (deals_settling (hone _) (fun op hmem => .inr (List.mem_filter.mp hmem).2) q₂).mono
    fun q₃ hq₃ => ?_
  have hsame : q₃.dice.map Die.thrown = q₁.dice := by
    rw [hq₃, hq₂, List.map_congr_left hq₁.untouched, List.map_id']
  rwa [hsame, ← sum_redraws_growing]

theorem Term.deals_roll {t : Term} (hd : DrawsWithin σ F deadline t.pool.sides)
    (hop : ¬ Single t.pool.operations → F .wrongKind) (label : Option String) :
    Deals F t.pool.sides [] (fun r => everyFace r.dice)
      (fun r => Thrown t.pool.sides t.pool.count.toNat (t.pool.redraws cap)
        (r.dice.map Die.thrown) ∧ r.term = t)
      (t.roll deadline cap label : Drawing σ Roll) := by
  refine (deals_thrown_rollDice hd _).bind fun dice ⟨hdice, _⟩ => ?_
  refine (Pool.deals_phases hd hop (q := { dice }) hdice).bind fun p hp => .of_pure ⟨?_, rfl⟩ (.refl _)
  rwa [Nat.zero_add] at hp

def Pool.settle (p : Pool) (dice : List Die) : List Die :=
  (settled (p.operations.filter (·.kind.selects)) dice).map (Die.within p.operations)

theorem Pool.map_thrown_settle (p : Pool) (dice : List Die) :
    (p.settle dice).map Die.thrown = dice.map Die.thrown := by
  have hwithin (d : Die) : (d.within p.operations).thrown = d.thrown := by
    unfold Die.within
    split <;> rfl
  rw [← map_thrown_settled (p.operations.filter (·.kind.selects)) dice]
  unfold settle
  rw [List.map_map]
  exact List.map_congr_left fun d _ => hwithin d

theorem Pool.exploded_settle (p : Pool) (dice : List Die) :
    (p.settle dice).map (·.exploded) = dice.map (·.exploded) := by
  have hsame := congrArg (List.map (·.exploded)) (p.map_thrown_settle dice)
  rw [List.map_map, List.map_map] at hsame
  exact hsame

/-- Once its dice have grown, a pool with positive numbers and bounds that agree draws no more, and
nothing is in the way of its roll. -/
theorem Term.exists_roll_eq {t : Term} (h : ∀ op ∈ t.pool.operations, op.Positive)
    (hb : BoundsAgree t.pool.operations) (deadline : Option Float) (cap : Int)
    (label : Option String) :
    ∃ records : Progress → List AppliedOperation,
      (∀ p, (records p).map (·.kind) = (t.pool.operations.filter (·.kind.selects) ++
        t.pool.operations.filter (·.kind.clamps)).map (·.kind)) ∧
      (t.roll deadline cap label : Drawing σ Roll) = (do
        let p ← t.pool.grow deadline cap
        pure {
          term := t, label, dice := t.pool.settle p.dice, operations := p.operations ++ records p,
          notes := p.notes }) := by
  have hpos (f : Operation → Bool) : ∀ op ∈ t.pool.operations.filter f, op.Positive :=
    fun op hop => h op (List.mem_filter.mp hop).1
  have hsettles (p : Progress) := p.exists_foldlM_step_of_settles (σ := σ) deadline cap
    (hpos (·.kind.selects)) fun op hop => by
      simp [OperationKind.settles, (List.mem_filter.mp hop).2]
  have hbounds (p : Progress) := p.exists_foldlM_step_of_settles (σ := σ) deadline cap
    (hpos (·.kind.clamps)) fun op hop => by
      simp [OperationKind.settles, (List.mem_filter.mp hop).2]
  choose selecting hselecting hselect using hsettles
  choose bounding hbounding hbound using hbounds
  let chosen (p : Progress) : Progress := {
    dice := settled (t.pool.operations.filter (·.kind.selects)) p.dice
    operations := p.operations ++ selecting p, notes := p.notes }
  refine ⟨fun p => selecting p ++ bounding (chosen p), fun p => ?_, ?_⟩
  · rw [List.map_append, List.map_append, hselecting, hbounding]
  · rw [roll_eq]
    simp only [hselect, hbound, pure_bind, List.append_assoc,
      settled_filter_clamps (hpos (·.kind.clamps)) hb]
    rfl

end Rolls

end DiceTower
