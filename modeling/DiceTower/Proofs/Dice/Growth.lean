import Mathlib.Algebra.Order.BigOperators.Group.List
import DiceTower.Proofs.Dice.Faithful

/-! How far a roll can go. Explosions and repeated rerolls stop at the cap, so that there is a bound
on the dice and one on the draws, whatever a source shows; and short of the cap every die that
explodes adds one. -/

namespace DiceTower

open DiceTower.Computation Drawing

def capNote (cap : Int) : String := "Explosions stopped at the " ++ Number.wholeText cap ++ " dice cap"

/-- A roll that stayed within the cap. The record of its explosion, if there is one, has the faces
that counted after it. -/
structure Roll.WithinCap (t : Term) (cap : Int) (r : Roll) : Prop where
  most : (r.dice.length : Int) ≤ max t.pool.count cap
  steps : ∀ a ∈ r.operations, a.before.length ≤ r.dice.length ∧ a.after.length ≤ r.dice.length
  exploded : ∀ op ∈ t.pool.operations, op.kind = .explode → ∃ threshold a,
    op.operand = .one threshold ∧ a.operand = .one threshold ∧
    r.operations.filter (·.kind = .explode) = [a] ∧ a.after.length = r.dice.length ∧
    (capNote cap ∉ r.notes → r.dice.countP (·.exploded) = a.after.countP (threshold ≤ ·)) ∧
    (capNote cap ∈ r.notes → (r.dice.length : Int) = max t.pool.count cap)

variable {σ : Type} [Source σ] {deadline : Option Float} {cap sides : Int} {count rounds : Nat}

section Records

theorem Progress.gives_recorded {p : Progress} {op : Operation}
    {P : List Die × List Nat × Bool → Prop}
    (h : Gives (op.apply deadline cap p.dice : Drawing σ (List Die × List Nat × Bool)) P) :
    Gives (p.step deadline cap op : Drawing σ Progress) fun p' => ∃ affected full,
      P (p'.dice, affected, full) ∧
      p'.operations = p.operations ++ [⟨op.kind, op.operand, p.dice.map (·.value),
        p'.dice.map (·.value), affected, op.description⟩] ∧
      p'.notes = p.notes ++ if full then [capNote cap] else [] := by
  rw [step_eq]
  refine h.bind fun r hr => ?_
  unfold record
  split
  · next hfull =>
    exact (Gives.trivial _).bind fun _ _ => .of_pure ⟨r.2.1, true, by rwa [← hfull], rfl, rfl⟩
  · next hfull =>
    have hfalse : r.2.2 = false := by simpa using hfull
    exact .of_pure ⟨r.2.1, false, by rwa [← hfalse], rfl, rfl⟩

theorem Operation.gives_length_le (op : Operation) (dice : List Die) :
    Gives (op.apply deadline cap dice : Drawing σ (List Die × List Nat × Bool)) fun r =>
      dice.length ≤ r.1.length := by
  have hbound : Gives (liftM (boundAll op dice) : Drawing σ (List Die × List Nat))
      fun r => dice.length ≤ r.1.length := by
    refine .of_lift fun r hr => ?_
    unfold boundAll at hr
    split at hr
    · cases hr
      exact Nat.le_refl _
    · obtain ⟨n, _, rfl⟩ := map_eq_ok_iff.mp hr
      exact (List.length_map _).ge
  unfold apply
  split
  · refine Gives.bind (P := fun r => dice.length ≤ r.1.length) ?_ fun r hr => .of_pure hr
    have hall : Gives (dice.mapM fun d => d.reroll deadline op.operand.values (op.attempts cap) :
        Drawing σ (List Die)) (List.Forall₂ (fun _ _ => True) dice) :=
      .mapM fun d _ => .trivial _
    exact hall.bind fun dice' hdice => .of_pure hdice.length_eq.le
  · unfold explodeAll
    split
    · next hempty =>
      rw [List.isEmpty_iff.mp hempty]
      exact .of_pure (Nat.le_refl _)
    · refine (Gives.trivial _).bind fun _ _ => (Gives.trivial _).bind fun r _ => .of_pure ?_
      simp
  · exact hbound.bind fun r hr => .of_pure hr
  · exact hbound.bind fun r hr => .of_pure hr
  · refine (Gives.trivial _).bind fun n _ => .of_pure ?_
    exact (List.length_map _).ge

def Progress.Grows (p : Progress) : Prop :=
  ∀ a ∈ p.operations, a.before.length ≤ p.dice.length ∧ a.after.length ≤ p.dice.length

theorem Progress.gives_grows {p : Progress} (h : p.Grows) (op : Operation) :
    Gives (p.step deadline cap op : Drawing σ Progress) Grows := by
  refine (gives_recorded (op.gives_length_le p.dice)).mono fun p' hp' a ha => ?_
  obtain ⟨affected, full, hle, hrecorded, -⟩ := hp'
  rw [hrecorded] at ha
  rcases List.mem_append.mp ha with ha | ha
  · have := h a ha
    dsimp only at hle
    omega
  · rw [List.mem_singleton.mp ha]
    simpa using hle

theorem Term.gives_steps (t : Term) (label : Option String) :
    Gives (t.roll deadline cap label : Drawing σ Roll) fun r => ∀ a ∈ r.operations,
      a.before.length ≤ r.dice.length ∧ a.after.length ≤ r.dice.length := by
  refine (Gives.trivial _).bind fun dice _ => ?_
  refine Gives.bind (P := Progress.Grows) ?_ fun p hp => .of_pure hp
  exact .foldlM (fun p hp op _ => Progress.gives_grows hp op) fun a ha => by cases ha

theorem Term.gives_capNotes (t : Term) (label : Option String) :
    Gives (t.roll deadline cap label : Drawing σ Roll) fun r => ∀ note ∈ r.notes,
      note = capNote cap := by
  refine (Gives.trivial _).bind fun dice _ => ?_
  refine Gives.bind (P := fun p : Progress => ∀ note ∈ p.notes, note = capNote cap) ?_
    fun p hp => .of_pure hp
  refine .foldlM (fun p hp op _ => ?_) fun note hnote => by cases hnote
  refine (Progress.gives_recorded (Gives.trivial _)).mono fun p' hp' note hnote => ?_
  obtain ⟨_, full, _, _, hnotes⟩ := hp'
  rw [hnotes] at hnote
  rcases List.mem_append.mp hnote with hnote | hnote
  · exact hp note hnote
  · cases full with
    | true => exact List.mem_singleton.mp hnote
    | false => cases hnote

end Records

section Explosions

theorem gives_rerolling {ops : List Operation} (hk : ∀ op ∈ ops, op.kind = .reroll) {p : Progress}
    (h : Thrown sides count rounds p.dice) :
    Gives (ops.foldlM (Progress.step deadline cap) p : Drawing σ Progress) fun p' =>
      (∃ rounds, Thrown sides count rounds p'.dice) ∧ p'.dice.length = p.dice.length ∧
      p'.operations.filter (·.kind = .explode) = p.operations.filter (·.kind = .explode) ∧
      p'.notes = p.notes := by
  induction ops generalizing p rounds with
  | nil => exact .of_pure ⟨⟨rounds, h⟩, rfl, rfl, rfl⟩
  | cons op ops ih =>
    obtain ⟨hop, hops⟩ := List.forall_mem_cons.mp hk
    have happly : Gives (op.apply deadline cap p.dice : Drawing σ (List Die × List Nat × Bool))
        fun r => Thrown sides count (rounds + op.attempts cap) r.1 ∧
          r.1.length = p.dice.length ∧ r.2.2 = false := by
      unfold Operation.apply
      rw [hop]
      exact (deals_rerollAll drawsWithin_any h op).gives.bind fun r hr => .of_pure ⟨hr.1, hr.2, rfl⟩
    refine (Progress.gives_recorded happly).bind fun p' hp' => ?_
    obtain ⟨affected, full, ⟨hthrown, hlength, hfull⟩, hrecorded, hnotes⟩ := hp'
    refine (ih hops hthrown).mono fun p'' hp'' => ?_
    refine ⟨hp''.1, hp''.2.1.trans hlength, hp''.2.2.1.trans ?_, hp''.2.2.2.trans ?_⟩
    · rw [hrecorded, List.filter_append, List.filter_singleton, hop]
      simp
    · dsimp only at hfull
      rw [hnotes, hfull]
      simp

/-- A pool after its explosions: the record, and how many dice they added. -/
structure Progress.Burst (op : Operation) (cap : Int) (count : Nat) (p : Progress)
    (a : AppliedOperation) : Prop where
  only : p.operations.filter (·.kind = .explode) = [a]
  operand : a.operand = op.operand
  length : a.after.length = p.dice.length
  exact : capNote cap ∉ p.notes → p.dice.length - count = a.after.countP (op.number ≤ ·)
  full : capNote cap ∈ p.notes → (p.dice.length : Int) = max (count : Int) cap

theorem Progress.gives_burst {op : Operation} (hk : op.kind = .explode) {p : Progress}
    (h : Thrown sides count rounds p.dice) (hl : p.dice.length = count)
    (ho : p.operations.filter (·.kind = .explode) = []) (hn : p.notes = []) :
    Gives (p.step deadline cap op : Drawing σ Progress) fun p' =>
      (∃ rounds, Thrown sides count rounds p'.dice) ∧ ∃ a, p'.Burst op cap count a := by
  have happly : Gives (op.apply deadline cap p.dice : Drawing σ (List Die × List Nat × Bool))
      fun r => ∃ added, r.1 = p.dice ++ added ∧
        DiceTower.Burst sides op.number (cap - p.dice.length).toNat p.dice.length p.dice
          (added, r.2.2) := by
    unfold Operation.apply
    rw [hk]
    refine (deals_explodeAll (fun _ => trivial) drawsWithin_any fun d hd =>
      (h.told d hd).shape).gives.mono fun r hr => ?_
    obtain ⟨added, hadded, -, hburst⟩ := hr
    exact ⟨added, hadded, hburst⟩
  refine (gives_recorded happly).mono fun p' hp' => ?_
  obtain ⟨affected, full, ⟨added, hadded, hburst⟩, hrecorded, hnotes⟩ := hp'
  dsimp only at hadded
  have hlength : p'.dice.length = count + added.length := by rw [hadded, List.length_append, hl]
  rw [hn, List.nil_append] at hnotes
  refine ⟨⟨rounds, hadded ▸ h.burst hburst⟩, ⟨op.kind, op.operand, p.dice.map (·.value),
    p'.dice.map (·.value), affected, op.description⟩, ⟨?_, rfl, List.length_map _, fun hno => ?_,
      fun hyes => ?_⟩⟩
  · rw [hrecorded, List.filter_append, ho, List.nil_append, List.filter_singleton, hk]
    rfl
  · cases full with
    | true => simp [hnotes] at hno
    | false =>
      have hexact := hburst.exact rfl
      rw [← hadded] at hexact
      dsimp only at hexact ⊢
      rw [hlength, Nat.add_sub_cancel_left, hexact, List.countP_map]
      rfl
  · cases full with
    | true =>
      have hroom := hburst.full rfl
      dsimp only at hroom
      rw [hlength]
      omega
    | false => simp [hnotes] at hyes

/-- At most one operation explodes dice, and the others of those that make a pool grow are rerolls. -/
theorem exists_growing_eq {ops : List Operation} (hc : ops.countP (·.kind = .explode) ≤ 1)
    {op : Operation} (hop : op ∈ ops) (hk : op.kind = .explode) : ∃ before after,
      (ops.filter fun op => !op.kind.selects && !op.kind.clamps) = before ++ op :: after ∧
      (∀ op ∈ before, op.kind = .reroll) ∧ ∀ op ∈ after, op.kind = .reroll := by
  have hmem : op ∈ ops.filter fun op => !op.kind.selects && !op.kind.clamps :=
    List.mem_filter.mpr ⟨hop, by rw [hk]; rfl⟩
  obtain ⟨before, after, he⟩ := List.append_of_mem hmem
  have hle : (before ++ op :: after).countP (·.kind = .explode) ≤ 1 := by
    rw [← he]
    exact ((List.filter_sublist ..).countP_le).trans hc
  rw [List.countP_append, List.countP_cons_of_pos (by simpa using hk)] at hle
  have hnone {l : List Operation} (hz : l.countP (·.kind = .explode) = 0)
      (hs : ∀ op ∈ l, op ∈ ops.filter fun op => !op.kind.selects && !op.kind.clamps) :
      ∀ op ∈ l, op.kind = .reroll := by
    intro op hop
    have hx := List.countP_eq_zero.mp hz op hop
    have hgrows := (List.mem_filter.mp (hs op hop)).2
    cases hkind : op.kind <;> simp_all [OperationKind.selects, OperationKind.clamps]
  exact ⟨before, after, he, hnone (by omega) fun op hop => by rw [he]; simp [hop],
    hnone (by omega) fun op hop => by rw [he]; simp [hop]⟩

theorem Pool.gives_burst {p : Pool} (hc : p.operations.countP (·.kind = .explode) ≤ 1)
    {op : Operation} (hop : op ∈ p.operations) (hk : op.kind = .explode) :
    Gives (p.grow deadline cap : Drawing σ Progress) fun q =>
      ∃ a, q.Burst op cap p.count.toNat a := by
  obtain ⟨before, after, he, hbefore, hafter⟩ := exists_growing_eq hc hop hk
  unfold grow
  rw [he]
  refine (deals_thrown_rollDice drawsWithin_any _).gives.bind fun dice ⟨hthrown, hlength⟩ => ?_
  rw [List.foldlM_append]
  refine (gives_rerolling hbefore (p := { dice }) hthrown).bind fun q ⟨⟨_, hq⟩, hl, ho, hn⟩ => ?_
  rw [List.foldlM_cons]
  refine (Progress.gives_burst hk hq (hl.trans hlength) ho hn).bind fun q' ⟨⟨_, hq'⟩, a, ha⟩ => ?_
  refine (gives_rerolling hafter hq').mono fun q'' ⟨_, hl', ho', hn'⟩ => ⟨a, ?_⟩
  refine ⟨ho'.trans ha.only, ha.operand, ha.length.trans hl'.symm, ?_, ?_⟩
  · rw [hn', hl']
    exact ha.exact
  · rw [hn', hl']
    exact ha.full

end Explosions

theorem Thrown.length_everyFace_le {dice : List Die}
    (h : Thrown sides count rounds (dice.map Die.thrown)) :
    (everyFace dice).length ≤ dice.length * (1 + rounds) := by
  unfold everyFace
  rw [List.length_flatMap]
  refine (List.sum_le_card_nsmul _ (1 + rounds) fun n hn => ?_).trans (by simp)
  obtain ⟨d, hd, rfl⟩ := List.mem_map.mp hn
  exact h.most d.thrown (List.mem_map_of_mem hd)

theorem Pool.length_settle (p : Pool) (dice : List Die) : (p.settle dice).length = dice.length := by
  simpa using congrArg List.length (p.map_thrown_settle dice)

theorem Pool.countP_exploded_settle (p : Pool) (dice : List Die) :
    (p.settle dice).countP (·.exploded) = dice.countP (·.exploded) := by
  have hsame := congrArg (List.countP (·.exploded)) (p.map_thrown_settle dice)
  rwa [List.countP_map, List.countP_map] at hsame

section Rolls

variable {t : Term} (h : ∀ op ∈ t.pool.operations, op.Positive)
  (hc : Compatible t.pool.operations) (label : Option String)

include h hc

theorem Term.gives_length_le :
    Gives (t.roll deadline cap label : Drawing σ Roll) fun r =>
      (r.dice.length : Int) ≤ max (t.pool.count.toNat : Int) cap := by
  obtain ⟨records, -, hroll⟩ := exists_roll_eq (σ := σ) h hc.bounds deadline cap label
  rw [hroll]
  refine t.pool.gives_grow.bind fun q ⟨_, hgrown⟩ => .of_pure ?_
  have hmost := hgrown.most
  rw [t.pool.length_settle]
  omega

theorem Term.gives_exploded {op : Operation} (hop : op ∈ t.pool.operations)
    (hk : op.kind = .explode) :
    Gives (t.roll deadline cap label : Drawing σ Roll) fun r => ∃ a,
      r.operations.filter (·.kind = .explode) = [a] ∧ a.operand = op.operand ∧
      a.after.length = r.dice.length ∧
      (capNote cap ∉ r.notes → r.dice.countP (·.exploded) = a.after.countP (op.number ≤ ·)) ∧
      (capNote cap ∈ r.notes → (r.dice.length : Int) = max (t.pool.count.toNat : Int) cap) := by
  obtain ⟨records, hkinds, hroll⟩ := exists_roll_eq (σ := σ) h hc.bounds deadline cap label
  have hnone (q : Progress) : (records q).filter (·.kind = .explode) = [] := by
    refine List.filter_eq_nil_iff.mpr fun a ha hx => ?_
    have hmem : a.kind ∈ (records q).map (·.kind) := List.mem_map_of_mem ha
    rw [hkinds] at hmem
    obtain ⟨op, hop, he⟩ := List.mem_map.mp hmem
    have hx : a.kind = .explode := by simpa using hx
    rw [hx] at he
    rcases List.mem_append.mp hop with hop | hop
    all_goals
      have hkind := (List.mem_filter.mp hop).2
      simp [he, OperationKind.selects, OperationKind.clamps] at hkind
  rw [hroll]
  refine ((Pool.gives_burst hc.explosions hop hk).and t.pool.gives_grow).bind fun q hq => ?_
  obtain ⟨⟨a, ha⟩, hthrown, -⟩ := hq
  refine .of_pure ⟨a, ?_, ha.operand, ?_, ?_, ?_⟩
  · rw [List.filter_append, hnone, List.append_nil, ha.only]
  · rw [t.pool.length_settle, ha.length]
  · rw [t.pool.countP_exploded_settle, hthrown.countP_exploded]
    exact ha.exact
  · rw [t.pool.length_settle]
    exact ha.full

end Rolls

/-- With a fair source, a roll of what was read ends unless time does. Its dice and draws stay within
the cap, and short of it explosions add a die for each that shows their threshold. -/
theorem Term.roll_within_cap {limits : Limits} {text : String} {t : Term}
    (h : parse limits text = .ok t) (hs : Source.Fair σ) (deadline : Option Float) (cap : Int)
    (label : Option String) (tray : Tray σ) :
    (deadline ≠ none ∧ ∃ tray', t.roll deadline cap label tray = (.error .timeout, tray')) ∨
    ∃ r tray', t.roll deadline cap label tray = (.ok r, tray') ∧ r.WithinCap t cap ∧
      tray'.drawn.length ≤
        tray.drawn.length + (max t.pool.count cap).toNat * (1 + t.pool.redraws cap) := by
  have hread := (Term.parse_eq_ok_iff.mp h).2
  have hpos := hread.positive
  have hsides := hread.regular.sides
  have hcount := hread.regular.count
  rcases hr : t.roll deadline cap label tray with ⟨fault | r, tray'⟩
  · have hsingle : Single t.pool.operations := fun op hop => by
      obtain ⟨n, hn, _⟩ := hpos op hop
      exact ⟨n, hn⟩
    obtain ⟨rfl, hlimited⟩ := timeout_of_roll_eq_error hsides hsingle hs hr
    exact .inl ⟨hlimited, tray', rfl⟩
  · have hlength := gives_length_le hpos hread.compatible label _ _ _ hr
    refine .inr ⟨r, tray', rfl, ⟨by omega, t.gives_steps label _ _ _ hr, fun op hop hk => ?_⟩, ?_⟩
    · obtain ⟨a, honly, hoperand, hafter, hexact, hfull⟩ :=
        gives_exploded hpos hread.compatible label hop hk _ _ _ hr
      obtain ⟨hone, -⟩ := (hpos op hop).operand
      refine ⟨op.number, a, hone, hoperand.trans hone, honly, hafter, hexact, fun hyes => ?_⟩
      have := hfull hyes
      omega
    · have hdeals := @Term.deals_roll σ _ (fun _ => True) deadline cap t drawsWithin_any
        (fun _ => trivial) label
      obtain ⟨⟨hthrown, -⟩, faces, hdealt, hperm⟩ := hdeals.of_ok hr
      have hfaces := hthrown.length_everyFace_le
      rw [hperm.length_eq, List.nil_append] at hfaces
      have hmost := Nat.mul_le_mul_right (1 + t.pool.redraws cap)
        (show r.dice.length ≤ (max t.pool.count cap).toNat by omega)
      have hdrawn := hdealt.length_drawn
      omega

theorem Term.roll_within_cap_brawl : parse {} "3d6rr1!6kh2min3+1" = .ok brawl ∧
    Source.Fair StdGen ∧ ∃ r tray',
      brawl.roll none 5 none ({ source := seeded 7 } : Tray StdGen) = (.ok r, tray') ∧
      r.WithinCap brawl 5 ∧ tray'.drawn.length ≤ 30 := by
  have h : parse {} "3d6rr1!6kh2min3+1" = .ok brawl := eq_ok_of_toOption (by decide +kernel)
  rcases Term.roll_within_cap h fair_stdGen none 5 none { source := seeded 7 } with
    ⟨hlimited, -⟩ | ⟨r, tray', hr, hwithin, hdrawn⟩
  · exact absurd rfl hlimited
  · exact ⟨h, fair_stdGen, r, tray', hr, hwithin, hdrawn⟩

end DiceTower
