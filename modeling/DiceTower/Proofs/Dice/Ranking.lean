import DiceTower.Proofs.Dice.Phases
import DiceTower.Proofs.Odds.Ranks

/-! Selections by rank. Among dice of one face it depends on their places which of them is left out;
the faces of those that stay are the faces of the ranks that an estimate keeps. -/

namespace DiceTower

section Sorting

variable {n : Int} {ranks : List Nat} {g : Nat → Int}

theorem map_value_lowestFirst (dice : List Die) :
    (lowestFirst dice).map (·.value) = ascending (dice.map (·.value)) :=
  List.map_mergeSort fun _ _ _ _ => rfl

theorem map_value_highestFirst (dice : List Die) :
    (highestFirst dice).map (·.value) = (ascending (dice.map (·.value))).reverse := by
  have hsort : (highestFirst dice).map (·.value) =
      (dice.map (·.value)).mergeSort fun a b => decide (a ≥ b) :=
    List.map_mergeSort fun _ _ _ _ => rfl
  rw [hsort]
  refine List.Perm.eq_of_pairwise' (r := (· ≥ ·)) (List.pairwise_mergeSort' (· ≥ ·) _) ?_ ?_
  · exact List.pairwise_reverse.mpr (pairwise_ascending _)
  · exact (List.mergeSort_perm ..).trans
      ((ascending_perm _).symm.trans (List.reverse_perm _).symm)

theorem map_value_stays_perm (h : 0 ≤ n) (kind : OperationKind) {dice : List Die}
    (hd : ascending (dice.map (·.value)) = ranks.map g) :
    ((stays kind n dice).map (·.value)).Perm ((keepRanks kind n ranks).map g) := by
  have hlow := map_value_lowestFirst dice
  have hhigh := map_value_highestFirst dice
  have hl : dice.length = ranks.length := by
    simpa [length_ascending] using congrArg List.length hd
  rw [hd] at hlow hhigh
  cases kind <;> simp only [stays, keepRanks, hl]
  case keepHighest =>
    rw [upTo_of_nonneg (by omega), startingAt_of_nonneg (by omega), List.map_take, hhigh,
      List.take_reverse, List.length_map, List.map_drop]
    rw [show (ranks.length - min n ranks.length : Int).toNat =
      ranks.length - (min n ranks.length).toNat by omega]
    exact List.reverse_perm _
  case keepLowest =>
    rw [upTo_of_nonneg (by omega), upTo_of_nonneg (by omega), List.map_take, hlow, List.map_take]
  case dropHighest =>
    rw [startingAt_of_nonneg (by omega), upTo_of_nonneg (by omega), List.map_drop, hhigh,
      List.drop_reverse, List.length_map, List.map_take]
    rw [show (ranks.length - min n ranks.length : Int).toNat =
      ranks.length - (min n ranks.length).toNat by omega]
    exact List.reverse_perm _
  case dropLowest =>
    rw [startingAt_of_nonneg (by omega), startingAt_of_nonneg (by omega), List.map_drop, hlow,
      List.map_drop]
  all_goals
    rw [← hd]
    exact (ascending_perm _).symm

end Sorting

/-- Dice in places of their own of which those that count show the faces of some ranks. -/
structure Ranking (rolled : List Int) (ranks : List Nat) (dice : List Die) : Prop where
  index : (dice.map (·.index)).Nodup
  faces : ascending (faces dice) = ranks.map (ranked rolled)

variable {rolled : List Int} {ranks kept : List Nat} {dice : List Die}

theorem ranking_of_counting (hn : (dice.map (·.index)).Nodup)
    (hc : ∀ d ∈ dice, d.dropped = false) :
    Ranking (dice.map (·.value)) (List.range dice.length) dice := by
  have hall : counting dice = dice := List.filter_eq_self.mpr fun d hd => by simp [hc d hd]
  refine ⟨hn, ?_⟩
  unfold faces
  rw [hall, ← map_ranked, List.length_map]

theorem Lying.ranking {sides : Int} (h : Lying sides dice) :
    Ranking (dice.map (·.value)) (List.range dice.length) dice :=
  ranking_of_counting h.counted.index fun d hd => (h.fresh d hd).counts

theorem Ranking.select (h : Ranking rolled ranks dice) {n : Int} (hn : 0 ≤ n)
    (kind : OperationKind) :
    Ranking rolled (keepRanks kind n ranks) (select kind n dice).1 := by
  have hcounting : ((counting dice).map (·.index)).Nodup :=
    h.index.sublist ((List.filter_sublist ..).map _)
  have hperm : (DiceTower.faces (DiceTower.select kind n dice).1).Perm
      ((keepRanks kind n ranks).map (ranked rolled)) := by
    unfold DiceTower.faces
    rw [counting_select]
    exact ((filter_leftOut_perm kind n hcounting).map _).trans
      (map_value_stays_perm hn kind h.faces)
  refine ⟨?_, ascending_eq ?_ hperm⟩
  · rw [index_select]
    exact h.index
  · have hsorted := pairwise_ascending (DiceTower.faces dice)
    rw [h.faces] at hsorted
    exact hsorted.sublist ((keepRanks_sublist kind n ranks).map _)

/-- Selections keep the dice of the ranks that an estimate keeps. -/
theorem Ranking.settled {ops : List Operation} (h : ∀ op ∈ ops, op.Positive)
    (hk : ∀ op ∈ ops, op.kind.selects = true) (hd : Ranking rolled ranks dice)
    (hkept : ops.foldlM (fun ranks op =>
      op.operand.single?.map fun n => keepRanks op.kind n ranks) ranks = some kept) :
    Ranking rolled kept (settled ops dice) := by
  induction ops generalizing dice ranks with
  | nil =>
    obtain rfl := Option.some.inj hkept
    exact hd
  | cons op ops ih =>
    obtain ⟨hop, hops⟩ := List.forall_mem_cons.mp h
    obtain ⟨hs, hks⟩ := List.forall_mem_cons.mp hk
    obtain ⟨ho, h1⟩ := hop.operand
    rw [List.foldlM_cons, ho] at hkept
    rw [settled_cons, Operation.settle_of_selects hs]
    exact ih hops hks (hd.select (by omega) op.kind) hkept

/-- The dice of the ranks that an estimate keeps count, brought within the bounds. -/
theorem Lying.faces_settle_perm {sides : Int} {p : Pool} (hd : Lying sides dice)
    (h : ∀ op ∈ p.operations, op.Positive) (hkept : keptRanks? p.operations dice.length = some kept) :
    (faces (p.settle dice)).Perm (kept.map fun r =>
      shown p.operations (ranked (dice.map (·.value)) r)) := by
  have hpos : ∀ op ∈ p.operations.filter (·.kind.selects), op.Positive := fun op hop =>
    h op (List.mem_filter.mp hop).1
  have hchosen := hd.ranking.settled hpos (fun op hop => (List.mem_filter.mp hop).2) hkept
  have hperm := (ascending_perm (faces (settled (p.operations.filter (·.kind.selects)) dice))).symm
  rw [hchosen.faces] at hperm
  have hshown := hperm.map (shown p.operations)
  unfold Pool.settle
  rw [faces_map_within]
  rwa [List.map_map] at hshown

theorem Number.sum_eq (ns : List Int) : Number.sum ns = ns.sum := rfl

end DiceTower
