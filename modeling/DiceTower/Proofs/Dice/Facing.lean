import DiceTower.Proofs.Dice.Growth
import DiceTower.Proofs.Dice.Ranking
import DiceTower.Proofs.Dice.Totals

/-! Which totals a pool can reach. The estimate takes all rerolls together for every die; but a die
that an explosion adds is not touched by the rerolls before it, so that it can show more faces. -/

namespace DiceTower

open DiceTower.Computation Drawing

section Laws

def Law.afterGrowth (fresh law : Law ℚ) (op : Operation) : Law ℚ :=
  if op.kind = .explode ∧ ∃ f ∈ law.possible, op.number ≤ f.1 then fresh
  else fresh.afterOperation law op

def Pool.latest (p : Pool) : Law ℚ :=
  (p.operations.foldl (Law.uniform p.sides : Law ℚ).afterGrowth (Law.uniform p.sides)).possible

variable {sides : Int} {fresh law : Law ℚ}

theorem Law.Whole.afterGrowth (hf : fresh.Whole sides) (hl : law.Whole sides) (op : Operation) :
    (fresh.afterGrowth law op).Whole sides := by
  unfold Law.afterGrowth
  split
  · exact hf
  · exact hf.afterOperation hl op

theorem Law.Whole.foldl {f : Law ℚ → Operation → Law ℚ}
    (hf : ∀ law, Law.Whole sides law → ∀ op, (f law op).Whole sides) (ops : List Operation)
    (hl : law.Whole sides) : (ops.foldl f law).Whole sides := by
  induction ops generalizing law with
  | nil => exact hl
  | cons op ops ih => exact ih (hf law hl op)

theorem Pool.proper_latest {p : Pool} (h : 1 ≤ p.sides) : p.latest.Proper p.sides :=
  have hu := Law.whole_uniform h
  (Law.Whole.foldl (fun _ hl => hu.afterGrowth hl) _ hu).possible

theorem foldl_filter_growing {f : Law ℚ → Operation → Law ℚ}
    (hf : ∀ law op, op.kind ≠ .reroll → op.kind ≠ .explode → f law op = law)
    (ops : List Operation) (law : Law ℚ) :
    (ops.filter fun op => !op.kind.selects && !op.kind.clamps).foldl f law = ops.foldl f law := by
  rw [List.foldl_filter]
  refine List.foldl_ext _ _ _ fun law op _ => ?_
  split
  · rfl
  · next hk =>
    exact (hf law op (fun hr => hk (by rw [hr]; rfl)) fun hx => hk (by rw [hx]; rfl)).symm

theorem Law.afterOperation_of_ne (fresh law : Law ℚ) {op : Operation} (hr : op.kind ≠ .reroll) :
    fresh.afterOperation law op = law := if_neg hr

theorem Law.afterGrowth_of_ne (fresh law : Law ℚ) {op : Operation} (hx : op.kind ≠ .explode) :
    fresh.afterGrowth law op = fresh.afterOperation law op := if_neg fun h => hx h.1

end Laws

variable {σ : Type} [Source σ] {deadline : Option Float} {cap sides : Int} {count rounds : Nat}
  {dice : List Die} {early late : Law ℚ}

/-- A recursive reroll that its attempts are enough for leaves no target. -/
def Operation.Clears (op : Operation) (after : List Int) : Prop :=
  op.kind = .reroll → op.recursive = true → ∀ face ∈ after, op.operand.values.contains face = false

instance (op : Operation) (after : List Int) : Decidable (op.Clears after) :=
  inferInstanceAs (Decidable (_ → _ → ∀ face ∈ after, _))

/-- What the dice of a pool can show: one law for those that it is rolled with, another one for all of
them together. -/
structure Facing (early late : Law ℚ) (dice : List Die) : Prop where
  early : ∀ d ∈ dice, d.exploded = false → early.Shows d.value
  late : ∀ d ∈ dice, late.Shows d.value

section Steps

theorem Die.gives_redrawn {d : Die} (h : d.Fresh sides) (targets : List Int) (attempts : Nat) :
    Gives (d.reroll deadline targets attempts : Drawing σ Die) fun d' =>
      d'.Fresh sides ∧ d'.exploded = d.exploded ∧
        (targets.contains d.value = false ∧ d'.value = d.value ∨
          targets.contains d.value = true) := by
  unfold reroll
  by_cases hs : d.shows targets = true
  · have ht : targets.contains d.value = true := by
      unfold shows at hs
      simp only [Bool.and_eq_true] at hs
      exact hs.2
    rw [if_pos hs, h.shape]
    refine (deals_redraw drawsWithin_any targets attempts :
      Deals (fun _ => True) sides [] _ _ _).gives.bind fun faces ⟨hfaces, _⟩ =>
        .of_pure ⟨⟨rfl, ?_, h.counts⟩, rfl, .inr ht⟩
    show 1 ≤ faces.getLast?.getD d.value ∧ faces.getLast?.getD d.value ≤ sides
    cases hlast : faces.getLast? with
    | none => exact h.face
    | some face => exact hfaces face (List.mem_of_getLast? hlast)
  · have ht : targets.contains d.value = false := by
      unfold shows at hs
      simpa [h.counts] using hs
    rw [if_neg hs]
    exact .of_pure ⟨h, rfl, .inl ⟨ht, rfl⟩⟩

theorem gives_facing_rerollAll (h : Lying sides dice) (he : early.Whole sides)
    (hl : late.Whole sides) (op : Operation) (hk : op.kind = .reroll) :
    Gives (rerollAll deadline cap op dice : Drawing σ (List Die × List Nat)) fun r =>
      op.Clears (r.1.map (·.value)) → Facing early late dice →
        Facing (Law.reroll (Law.uniform sides) early op.operand.values op.recursive)
          (Law.reroll (Law.uniform sides) late op.operand.values op.recursive) r.1 := by
  refine Gives.bind (.mapM fun d hd => Die.gives_redrawn (h.fresh d hd) _ _) fun dice' hdice =>
    .of_pure fun hclear hs => ?_
  have hstep {law : Law ℚ} (hlaw : law.Whole sides) {d d' : Die} (hd' : d' ∈ dice')
      (hshows : law.Shows d.value) (hfresh : d'.Fresh sides)
      (hd : op.operand.values.contains d.value = false ∧ d'.value = d.value ∨
        op.operand.values.contains d.value = true) :
      (Law.reroll (Law.uniform sides) law op.operand.values op.recursive).Shows d'.value := by
    refine hshows.reroll (Law.whole_uniform (hfresh.face.1.trans hfresh.face.2)) hlaw
      (hd.imp_right fun ht => ?_)
    exact ⟨ht, Law.shows_uniform hfresh.face, fun hr => hclear hk hr _ (List.mem_map_of_mem hd')⟩
  constructor
  · intro d' hd' hx
    obtain ⟨d, hd, hfresh, hsame, hredrawn⟩ := exists_mem_of_forall₂ hdice d' hd'
    exact hstep he hd' (hs.early d hd (hsame ▸ hx)) hfresh hredrawn
  · intro d' hd'
    obtain ⟨d, hd, hfresh, -, hredrawn⟩ := exists_mem_of_forall₂ hdice d' hd'
    exact hstep hl hd' (hs.late d hd) hfresh hredrawn

theorem explosions_of_below {threshold : Int} (room next : Nat)
    (h : ∀ d ∈ dice, d.value < threshold) :
    (explosions deadline threshold room next dice : Drawing σ (List Die × Bool)) =
      pure ([], false) := by
  induction dice with
  | nil =>
    unfold explosions
    rfl
  | cons d dice ih =>
    obtain ⟨hd, hdice⟩ := List.forall_mem_cons.mp h
    unfold explosions
    rw [if_neg (by omega), ih hdice]

theorem gives_explodeAll_below {op : Operation} (h : ∀ d ∈ dice, d.value < op.number) :
    Gives (explodeAll deadline cap op dice : Drawing σ (List Die × List Nat × Bool)) fun r =>
      r.1 = dice := by
  unfold explodeAll
  split
  · next hempty => exact .of_pure (List.isEmpty_iff.mp hempty).symm
  · refine Gives.bind (P := fun n => op.number = n) (.of_lift fun n hn => ?_) ?_
    · have hnumber : Foretells (fun _ => True) (fun n => op.number = n) op.operand.number :=
        Operation.foretells_number fun _ => trivial
      rwa [hn] at hnumber
    · rintro _ rfl
      rw [explosions_of_below _ _ h]
      exact .of_pure (List.append_nil dice)

theorem gives_facing_explodeAll (h : Lying sides dice) {op : Operation} (hk : op.kind = .explode) :
    Gives (explodeAll deadline cap op dice : Drawing σ (List Die × List Nat × Bool)) fun r =>
      Facing early late dice →
        Facing early ((Law.uniform sides : Law ℚ).afterGrowth late op) r.1 := by
  unfold Law.afterGrowth
  by_cases hx : ∃ f ∈ late.possible, op.number ≤ f.1
  · rw [if_pos ⟨hk, hx⟩]
    refine (deals_explodeAll (F := fun _ => True) (fun _ => trivial) drawsWithin_any fun d hd =>
      (h.fresh d hd).shape).gives.mono fun r ⟨added, hadded, _, hburst⟩ hs => ?_
    rw [hadded]
    refine ⟨fun d hd hold => ?_, fun d hd => ?_⟩
    · refine (List.mem_append.mp hd).elim (hs.early d · hold) fun hd => ?_
      obtain ⟨place, face, -, rfl⟩ := hburst.dice d hd
      cases hold
    · refine (List.mem_append.mp hd).elim (fun hd => Law.shows_uniform (h.fresh d hd).face) fun hd => ?_
      obtain ⟨place, face, hface, rfl⟩ := hburst.dice d hd
      exact Law.shows_uniform hface
  · rw [if_neg fun hboth => hx hboth.2, Law.afterOperation_of_ne _ _ (by rw [hk]; nofun)]
    intro tray r tray' hr hs
    refine gives_explodeAll_below (fun d hd => ?_) _ _ _ hr ▸ hs
    obtain ⟨f, hf, hface⟩ := List.mem_map.mp (Law.shows_iff.mp (hs.late d hd))
    exact not_le.mp fun hle => hx ⟨f, hf, hface ▸ hle⟩

theorem Operation.gives_facing (h : Lying sides dice) (he : early.Whole sides)
    (hl : late.Whole sides) {op : Operation} (hk : op.kind.selects = false ∧ op.kind.clamps = false) :
    Gives (op.apply deadline cap dice : Drawing σ (List Die × List Nat × Bool)) fun r =>
      op.Clears (r.1.map (·.value)) → Facing early late dice →
        Facing ((Law.uniform sides : Law ℚ).afterOperation early op)
          ((Law.uniform sides : Law ℚ).afterGrowth late op) r.1 := by
  obtain ⟨kind, operand, recursive⟩ := op
  cases kind <;> try cases hk.1
  case reroll =>
    exact (gives_facing_rerollAll h he hl _ rfl).bind fun r hr => .of_pure hr
  case explode =>
    exact (gives_facing_explodeAll h rfl).mono fun r hr _ => hr
  case minimum | maximum => cases hk.2

end Steps

section Runs

/-- The records of a run tell whether its recursive rerolls were stopped. While they were not, dice
show what they can by their laws. -/
theorem gives_facing_growing {ops : List Operation}
    (hk : ∀ op ∈ ops, op.kind.selects = false ∧ op.kind.clamps = false) {p : Progress}
    (h : Thrown sides count rounds p.dice) (hs : 1 ≤ sides) (he : early.Whole sides)
    (hl : late.Whole sides) :
    Gives (ops.foldlM (Progress.step deadline cap) p : Drawing σ Progress) fun p' =>
      ∃ records, p'.operations = p.operations ++ records ∧ records.length = ops.length ∧
        (List.Forall₂ (fun op a => op.Clears a.after) ops records → Facing early late p.dice →
          Facing (ops.foldl (Law.uniform sides : Law ℚ).afterOperation early)
            (ops.foldl (Law.uniform sides : Law ℚ).afterGrowth late) p'.dice) := by
  induction ops generalizing p rounds early late with
  | nil => exact .of_pure ⟨[], by simp, rfl, fun _ hfacing => hfacing⟩
  | cons op ops ih =>
    obtain ⟨hop, hops⟩ := List.forall_mem_cons.mp hk
    have hu := Law.whole_uniform hs
    rw [List.foldlM_cons]
    refine Gives.bind (Progress.gives_recorded ((Operation.deals_apply_growing (F := fun _ => True)
      drawsWithin_any (fun _ => trivial) hop h).gives.and
        (Operation.gives_facing h.lying he hl hop))) fun p₁ hp₁ => ?_
    obtain ⟨affected, full, ⟨⟨hp₁, -⟩, hstep⟩, hrecorded, -⟩ := hp₁
    refine (ih hops hp₁ (hu.afterOperation he op) (hu.afterGrowth hl op)).mono fun p₂ hp₂ => ?_
    obtain ⟨records, hrun, hlength, hlater⟩ := hp₂
    refine ⟨_ :: records, by rw [hrun, hrecorded, List.append_assoc]; rfl, by simp [hlength], ?_⟩
    intro hclear hdice
    obtain ⟨hfirst, hrest⟩ := List.forall₂_cons.mp hclear
    exact hlater hrest (hstep hfirst hdice)

/-- What the dice of a pool show: those that it is rolled with faces that the estimate counts with,
and all of them faces that a die can show in the end. -/
structure Pool.Turns (cap : Int) (p : Pool) (rolled : List Int) : Prop where
  fewest : (p.fewest cap).toNat ≤ rolled.length
  most : rolled.length ≤ (p.most cap).toNat
  early : p.count.toNat ≤ rolled.countP (· ∈ (Law.ofPool p : Law ℚ).map (·.1))
  late : ∀ face ∈ rolled, face ∈ p.latest.map (·.1)

theorem Thrown.le_countP (h : Thrown sides count rounds dice) (hc : count ≤ dice.length)
    {law : Law ℚ} (hd : ∀ d ∈ dice, d.exploded = false → law.Shows d.value) :
    count ≤ (dice.map (·.value)).countP (· ∈ law.possible.map (·.1)) := by
  have hold : dice.countP (fun d => !d.exploded) = count := by
    have hsplit := List.length_eq_countP_add_countP (·.exploded) (l := dice)
    rw [h.countP_exploded] at hsplit
    simp only [Bool.not_eq_true, Bool.decide_eq_false] at hsplit
    omega
  rw [List.countP_map, ← hold]
  refine List.countP_mono_left fun d hmem hx => ?_
  simpa using Law.shows_iff.mp (hd d hmem (by simpa using hx))

/-- The dice of a grown pool show what they can in the end, unless a recursive reroll was stopped. -/
theorem Pool.Orderly.gives_turns {p : Pool} (h : p.Orderly) :
    Gives (p.grow deadline cap : Drawing σ Progress) fun q => Lying p.sides q.dice ∧
      q.operations.length = (p.operations.filter fun op =>
        !op.kind.selects && !op.kind.clamps).length ∧
      (List.Forall₂ (fun op a => op.Clears a.after)
        (p.operations.filter fun op => !op.kind.selects && !op.kind.clamps) q.operations →
          p.Turns cap (q.dice.map (·.value))) := by
  have hu := Law.whole_uniform h.sides
  have hrun : Gives (p.grow deadline cap : Drawing σ Progress) fun q =>
      q.operations.length = (p.operations.filter fun op =>
        !op.kind.selects && !op.kind.clamps).length ∧
      (List.Forall₂ (fun op a => op.Clears a.after)
        (p.operations.filter fun op => !op.kind.selects && !op.kind.clamps) q.operations →
          Facing (p.operations.foldl (Law.uniform p.sides : Law ℚ).afterOperation
            (Law.uniform p.sides)) (p.operations.foldl (Law.uniform p.sides : Law ℚ).afterGrowth
            (Law.uniform p.sides)) q.dice) := by
    refine (deals_thrown_rollDice drawsWithin_any _).gives.bind fun dice ⟨hdice, _⟩ => ?_
    refine (gives_facing_growing (fun _ => growing_of_mem) (p := { dice }) hdice h.sides hu hu).mono
      fun q ⟨records, hrecords, hlength, hfacing⟩ => ?_
    rw [List.nil_append] at hrecords
    refine ⟨by rw [hrecords, hlength], fun hclear => ?_⟩
    rw [hrecords] at hclear
    have huniform (d : Die) (hd : d ∈ dice) : (Law.uniform p.sides : Law ℚ).Shows d.value :=
      Law.shows_uniform (hdice.lying.fresh d hd).face
    have hlast := hfacing hclear ⟨fun d hd _ => huniform d hd, huniform⟩
    rwa [foldl_filter_growing fun law op hr _ => Law.afterOperation_of_ne _ law hr,
      foldl_filter_growing fun law op hr hx => by
        rw [Law.afterGrowth_of_ne _ law hx, Law.afterOperation_of_ne _ law hr]] at hlast
  refine (p.gives_grow.and hrun).mono fun q ⟨⟨hthrown, hgrown⟩, hlength, hfacing⟩ =>
    ⟨hthrown.lying, hlength, fun hclear => ?_⟩
  obtain ⟨hfewest, hmost⟩ := h.size_of_grown hgrown
  obtain ⟨hearly, hlate⟩ := hfacing hclear
  refine ⟨by simpa using hfewest, by simpa using hmost, ?_, fun face hface => ?_⟩
  · exact hthrown.le_countP hgrown.least hearly
  · obtain ⟨d, hd, rfl⟩ := List.mem_map.mp hface
    exact Law.shows_iff.mp (hlate d hd)

end Runs

end DiceTower
