import Mathlib.Data.List.Nodup
import DiceTower.Dice.Roller
import DiceTower.Proofs.Notation.Sound

/-! How many dice the operations of a pool keep. The roller leaves out dice by their faces and the
estimate keeps ranks; of a pool of some size both keep the same number, and never fewer of a larger
one. -/

namespace DiceTower

def OperationKind.keeps (kind : OperationKind) (n : Int) (size : Nat) : Nat :=
  match kind with
  | keepHighest | keepLowest => min n.toNat size
  | dropHighest | dropLowest => size - n.toNat
  | _ => size

def Operation.number (op : Operation) : Int := op.operand.single?.getD 0

/-- How many dice operations keep of a pool of some size. -/
def sizeKept (ops : List Operation) (size : Nat) : Nat :=
  ops.foldl (fun size op => op.kind.keeps op.number size) size

theorem OperationKind.keeps_mono (kind : OperationKind) (n : Int) {size size' : Nat}
    (h : size ≤ size') : kind.keeps n size ≤ kind.keeps n size' := by
  cases kind <;> simp only [keeps] <;> omega

theorem OperationKind.keeps_of_not_selects {kind : OperationKind} (h : kind.selects = false)
    (n : Int) (size : Nat) : kind.keeps n size = size := by
  cases kind <;> first | rfl | simp [selects] at h

theorem sizeKept_mono (ops : List Operation) {size size' : Nat} (h : size ≤ size') :
    sizeKept ops size ≤ sizeKept ops size' := by
  induction ops generalizing size size' with
  | nil => exact h
  | cons op ops ih => exact ih (op.kind.keeps_mono _ h)

theorem sizeKept_filter_selects (ops : List Operation) (size : Nat) :
    sizeKept (ops.filter (·.kind.selects)) size = sizeKept ops size := by
  induction ops generalizing size with
  | nil => rfl
  | cons op ops ih =>
    cases hs : op.kind.selects
    · rw [List.filter_cons_of_neg (by simp [hs]), ih]
      show _ = sizeKept ops (op.kind.keeps op.number size)
      rw [OperationKind.keeps_of_not_selects hs]
    · rw [List.filter_cons_of_pos (by simp [hs])]
      exact ih _

theorem sizeKept_of_not_selects {ops : List Operation} (h : ops.any (·.kind.selects) = false)
    (size : Nat) : sizeKept ops size = size := by
  rw [← sizeKept_filter_selects, List.filter_eq_nil_iff.mpr fun op hop => ?_]
  · rfl
  · simpa using List.any_eq_false.mp h op hop

theorem Operation.Positive.operand {op : Operation} (h : op.Positive) :
    op.operand = .one op.number ∧ 1 ≤ op.number := by
  obtain ⟨n, hn, h1⟩ := h
  have he : op.number = n := by rw [number, hn]; rfl
  rw [he]
  exact ⟨hn, h1⟩

theorem Operation.Sound.positive {op : Operation} (h : op.Sound) : op.Positive := h.value

section Ranks

theorem length_keepRanks {n : Int} (h : 0 ≤ n) (kind : OperationKind) (ranks : List Nat) :
    (keepRanks kind n ranks).length = kind.keeps n ranks.length := by
  cases kind <;> simp only [keepRanks, OperationKind.keeps]
  case keepHighest | dropLowest =>
    rw [startingAt_of_nonneg (by omega), List.length_drop]
    omega
  case keepLowest | dropHighest =>
    rw [upTo_of_nonneg (by omega), List.length_take]
    omega

theorem keepRanks_sublist (kind : OperationKind) (n : Int) (ranks : List Nat) :
    (keepRanks kind n ranks).Sublist ranks := by
  cases kind
  case keepHighest | dropLowest => exact List.drop_sublist ..
  case keepLowest | dropHighest => exact List.take_sublist ..
  all_goals exact List.Sublist.refl _

theorem exists_foldlM_keepRanks {ops : List Operation} (h : ∀ op ∈ ops, op.Positive)
    (ranks : List Nat) :
    ∃ kept, ops.foldlM (fun ranks op =>
        op.operand.single?.map fun n => keepRanks op.kind n ranks) ranks = some kept ∧
      kept.length = sizeKept ops ranks.length ∧ kept.Sublist ranks := by
  induction ops generalizing ranks with
  | nil => exact ⟨ranks, rfl, rfl, List.Sublist.refl _⟩
  | cons op ops ih =>
    obtain ⟨ho, h1⟩ := (h op (by simp)).operand
    obtain ⟨kept, hk, hl, hs⟩ := ih (fun op hop => h op (by simp [hop]))
      (keepRanks op.kind op.number ranks)
    refine ⟨kept, ?_, ?_, hs.trans (keepRanks_sublist ..)⟩
    · rw [List.foldlM_cons, ho]
      exact hk
    · rw [hl, length_keepRanks (by omega)]
      rfl

theorem exists_keptRanks?_of_positive {ops : List Operation}
    (h : ∀ op ∈ ops.filter (·.kind.selects), op.Positive) (size : Nat) :
    ∃ ranks, keptRanks? ops size = some ranks ∧ ranks.length = sizeKept ops size ∧
      ranks.Sublist (List.range size) := by
  obtain ⟨ranks, hk, hl, hs⟩ := exists_foldlM_keepRanks h (List.range size)
  refine ⟨ranks, hk, ?_, hs⟩
  rw [hl, sizeKept_filter_selects, List.length_range]

theorem length_of_keptRanks? {ops : List Operation} (h : ∀ op ∈ ops, op.Positive) {size : Nat}
    {ranks : List Nat} (hk : keptRanks? ops size = some ranks) :
    ranks.length = sizeKept ops size ∧ ∀ r ∈ ranks, r < size := by
  obtain ⟨kept, hkept, hlength, hsub⟩ := exists_keptRanks?_of_positive
    (fun op hop => h op (List.mem_filter.mp hop).1) size
  obtain rfl : ranks = kept := Option.some.inj (hk.symm.trans hkept)
  exact ⟨hlength, fun r hr => List.mem_range.mp (hsub.subset hr)⟩

/-- The ranks that sound operations keep. -/
theorem exists_keptRanks? {ops : List Operation} (h : ∀ op ∈ ops, op.Sound) (size : Nat) :
    ∃ ranks, keptRanks? ops size = some ranks ∧ ranks.length = sizeKept ops size ∧
      ranks.Sublist (List.range size) :=
  exists_keptRanks?_of_positive (fun op hop => (h op (List.mem_filter.mp hop).1).positive) size

end Ranks

section Dice

def counting (dice : List Die) : List Die := dice.filter (!·.dropped)

variable {n : Int} {dice : List Die}

/-- The dice that an operation keeps of those that count, in the order that it goes by. -/
def stays (kind : OperationKind) (n : Int) (dice : List Die) : List Die :=
  let amount := min n dice.length
  match kind with
  | .keepHighest => upTo amount (highestFirst dice)
  | .keepLowest => upTo amount (lowestFirst dice)
  | .dropHighest => startingAt amount (highestFirst dice)
  | .dropLowest => startingAt amount (lowestFirst dice)
  | _ => dice

theorem highestFirst_perm (dice : List Die) : (highestFirst dice).Perm dice :=
  List.mergeSort_perm ..

theorem lowestFirst_perm (dice : List Die) : (lowestFirst dice).Perm dice :=
  List.mergeSort_perm ..

theorem stays_append_leftOut_perm (kind : OperationKind) (n : Int) (dice : List Die) :
    (stays kind n dice ++ leftOut kind n dice).Perm dice := by
  have hhigh := highestFirst_perm dice
  have hlow := lowestFirst_perm dice
  cases kind <;> simp only [stays, leftOut]
  case keepHighest => rwa [upTo_append_startingAt]
  case keepLowest => rwa [upTo_append_startingAt]
  case dropHighest => exact List.perm_append_comm.trans (by rwa [upTo_append_startingAt])
  case dropLowest => exact List.perm_append_comm.trans (by rwa [upTo_append_startingAt])
  all_goals rw [List.append_nil]

theorem length_stays (h : 0 ≤ n) (kind : OperationKind) (dice : List Die) :
    (stays kind n dice).length = kind.keeps n dice.length := by
  have hhigh := (highestFirst_perm dice).length_eq
  have hlow := (lowestFirst_perm dice).length_eq
  cases kind <;> simp only [stays, OperationKind.keeps]
  case keepHighest | keepLowest =>
    rw [upTo_of_nonneg (by omega), List.length_take]
    omega
  case dropHighest | dropLowest =>
    rw [startingAt_of_nonneg (by omega), List.length_drop]
    omega

theorem filter_leftOut_perm (kind : OperationKind) (n : Int) (hn : (dice.map (·.index)).Nodup) :
    (dice.filter fun d => !((leftOut kind n dice).map (·.index)).contains d.index).Perm
      (stays kind n dice) := by
  have hp := stays_append_leftOut_perm kind n dice
  have hd := (hp.map (·.index)).nodup_iff.mpr hn
  rw [List.map_append] at hd
  have hdisj := List.disjoint_of_nodup_append hd
  refine (hp.filter _).symm.trans ?_
  rw [List.filter_append, List.filter_eq_self.mpr, List.filter_eq_nil_iff.mpr, List.append_nil]
  · intro d hd
    simpa using ⟨d, hd, rfl⟩
  · intro d hd
    have hd := fun h => hdisj (List.mem_map_of_mem hd) h
    simpa using hd

theorem counting_select (kind : OperationKind) (n : Int) (dice : List Die) :
    counting (select kind n dice).1 = (counting dice).filter fun d =>
      !((leftOut kind n (counting dice)).map (·.index)).contains d.index := by
  unfold select counting
  generalize (leftOut kind n (dice.filter (!·.dropped))).map (·.index) = out
  dsimp only
  rw [List.filter_filter]
  clear * -
  induction dice with
  | nil => rfl
  | cons d dice ih =>
    rw [List.map_cons]
    by_cases ho : out.contains d.index
    · rw [if_pos ho, List.filter_cons_of_neg (by simp), List.filter_cons_of_neg (by simp_all), ih]
    · rw [if_neg ho]
      by_cases hd : d.dropped = true
      · rw [List.filter_cons_of_neg (by simp [hd]), List.filter_cons_of_neg (by simp [hd]), ih]
      · rw [List.filter_cons_of_pos (by simpa using hd), List.filter_cons_of_pos (by simp_all), ih]

theorem index_select (kind : OperationKind) (n : Int) (dice : List Die) :
    (select kind n dice).1.map (·.index) = dice.map (·.index) := by
  unfold select
  dsimp only
  rw [List.map_map]
  refine List.map_congr_left fun d _ => ?_
  simp only [Function.comp]
  split <;> rfl

end Dice

end DiceTower
