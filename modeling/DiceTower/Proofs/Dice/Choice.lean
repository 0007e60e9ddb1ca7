import DiceTower.Dice.Seeded
import DiceTower.Proofs.Dice.Ranking

/-! Which dice selections choose. The roller sorts the dice that count and leaves some of them out;
the estimate only knows ranks. Both keep the same faces, and of dice with one face those rolled
earlier are chosen first. -/

namespace DiceTower

open DiceTower.Computation Drawing

/-- Whether an operation chose a die: one that keeps dice chooses those that still count after it,
one that drops dice chooses those that no longer do. -/
def OperationKind.Chose (kind : OperationKind) (after : List Die) (d : Die) : Prop :=
  match kind with
  | .keepHighest | .keepLowest => d.index ∈ (counting after).map (·.index)
  | _ => d.index ∉ (counting after).map (·.index)

/-- Of the dice that count and show one face, those in earlier places are chosen first. -/
def ChoosesEarlier (kind : OperationKind) (before after : List Die) : Prop :=
  ∀ d ∈ counting before, ∀ d' ∈ counting before, d.value = d'.value → d.index < d'.index →
    kind.Chose after d' → kind.Chose after d

def chosen (kind : OperationKind) (n : Int) (dice : List Die) : List Die :=
  match kind with
  | .keepHighest | .keepLowest => stays kind n dice
  | _ => leftOut kind n dice

variable {n : Int} {dice : List Die} {d d' : Die} {le : Die → Die → Bool}

section Order

def Ordered (dice : List Die) : Prop := (dice.map (·.index)).Pairwise (· < ·)

theorem Ordered.nodup (h : Ordered dice) : (dice.map (·.index)).Nodup :=
  h.imp Nat.ne_of_lt

theorem Ordered.counting (h : Ordered dice) : Ordered (counting dice) :=
  h.sublist ((List.filter_sublist ..).map _)

theorem Ordered.select (h : Ordered dice) (kind : OperationKind) (n : Int) :
    Ordered (select kind n dice).1 := by
  unfold Ordered
  rw [index_select]
  exact h

theorem Ordered.pair_sublist (h : Ordered dice) (hd : d ∈ dice) (hd' : d' ∈ dice)
    (hlt : d.index < d'.index) : [d, d'].Sublist dice := by
  obtain ⟨earlier, later, rfl⟩ := List.append_of_mem hd
  have hp := List.pairwise_map.mp h
  have hbefore := (List.pairwise_append.mp hp).2.2
  simp only [List.mem_append, List.mem_cons] at hd'
  rcases hd' with hd' | rfl | hd'
  · have := hbefore d' hd' d (by simp)
    omega
  · omega
  · exact List.sublist_append_of_sublist_right (by simpa using hd')

theorem mem_take_of_pair_sublist {sorted : List Die} (hn : sorted.Nodup)
    (hs : [d, d'].Sublist sorted) {k : Nat} (h : d' ∈ sorted.take k) : d ∈ sorted.take k := by
  rw [← List.take_append_drop k sorted] at hs hn
  have hdisj := List.disjoint_of_nodup_append hn
  obtain ⟨front, back, he, hfront, hback⟩ := List.sublist_append_iff.mp hs
  cases front with
  | nil =>
    obtain rfl : [d, d'] = back := he
    exact absurd (hback.subset (by simp)) (hdisj h)
  | cons e front =>
    obtain ⟨rfl, -⟩ := List.cons_eq_cons.mp he
    exact hfront.subset (by simp)

/-- Sorted by faces, the earlier of two dice with one face stays the earlier one, so that the first
dice of the order include it whenever they include the other. -/
theorem Ordered.mem_upTo_mergeSort (h : Ordered dice) (hd : d ∈ dice) (hd' : d' ∈ dice)
    (hlt : d.index < d'.index) (trans : ∀ a b c, le a b → le b c → le a c)
    (total : ∀ a b, le a b || le b a) (hle : le d d') (hn : 0 ≤ n)
    (hm : d' ∈ upTo n (dice.mergeSort le)) : d ∈ upTo n (dice.mergeSort le) := by
  rw [upTo_of_nonneg hn] at hm ⊢
  have hs := List.pair_sublist_mergeSort trans total hle (h.pair_sublist hd hd' hlt)
  have hnodup := (List.mergeSort_perm dice le).nodup_iff.mpr (List.Nodup.of_map _ h.nodup)
  exact mem_take_of_pair_sublist hnodup hs hm

theorem Ordered.mem_chosen (h : Ordered dice) (hn : 0 ≤ n) {kind : OperationKind}
    (hk : kind.selects = true) (hd : d ∈ dice) (hd' : d' ∈ dice) (hv : d.value = d'.value)
    (hlt : d.index < d'.index) (hm : d' ∈ chosen kind n dice) : d ∈ chosen kind n dice := by
  have ha : 0 ≤ min n (dice.length : Int) := by omega
  cases kind <;> cases hk
  case keepHighest | dropHighest =>
    exact h.mem_upTo_mergeSort hd hd' hlt (by simpa using fun a b c => fun hab hbc => hbc.trans hab)
      (by simpa using fun a b => Int.le_total _ _) (by simp [hv]) ha hm
  case keepLowest | dropLowest =>
    exact h.mem_upTo_mergeSort hd hd' hlt (by simpa using fun a b c => fun hab hbc => hab.trans hbc)
      (by simpa using fun a b => Int.le_total _ _) (by simp [hv]) ha hm

end Order

section Selecting

theorem mem_of_index_mem {chosen : List Die} (hn : (dice.map (·.index)).Nodup)
    (hs : ∀ e ∈ chosen, e ∈ dice) (hd : d ∈ dice) :
    d.index ∈ chosen.map (·.index) ↔ d ∈ chosen := by
  refine ⟨fun h => ?_, List.mem_map_of_mem⟩
  obtain ⟨e, he, hi⟩ := List.mem_map.mp h
  rwa [← List.inj_on_of_nodup_map hn (hs e he) hd hi]

theorem chose_select_iff (hn : (dice.map (·.index)).Nodup) (n : Int) {kind : OperationKind}
    (hk : kind.selects = true) (hd : d ∈ counting dice) :
    kind.Chose (select kind n dice).1 d ↔ d ∈ chosen kind n (counting dice) := by
  have hc : ((counting dice).map (·.index)).Nodup := hn.sublist ((List.filter_sublist ..).map _)
  have hperm := stays_append_leftOut_perm kind n (counting dice)
  have hmem : ∀ e, e ∈ stays kind n (counting dice) ∨ e ∈ leftOut kind n (counting dice) →
      e ∈ counting dice := fun e he => hperm.subset (List.mem_append.mpr he)
  have hstays : d.index ∈ (counting (select kind n dice).1).map (·.index) ↔
      d ∈ stays kind n (counting dice) := by
    rw [counting_select, ((filter_leftOut_perm kind n hc).map _).mem_iff]
    exact mem_of_index_mem hc (fun e he => hmem e (.inl he)) hd
  have hleft : d.index ∉ (counting (select kind n dice).1).map (·.index) ↔
      d ∈ leftOut kind n (counting dice) := by
    have hnodup := hperm.nodup_iff.mpr (List.Nodup.of_map _ hc)
    have hdisj := List.disjoint_of_nodup_append hnodup
    have hd := List.mem_append.mp (hperm.symm.subset hd)
    rw [hstays]
    exact ⟨hd.resolve_left, fun hl hs => hdisj hs hl⟩
  cases kind <;> cases hk
  case keepHighest | keepLowest => exact hstays
  case dropHighest | dropLowest => exact hleft

theorem Ordered.choosesEarlier (h : Ordered dice) {op : Operation} (hop : op.Positive)
    (hk : op.kind.selects = true) : ChoosesEarlier op.kind dice (op.settle dice) := by
  intro d hd d' hd' hv hlt hc
  have hn : 0 ≤ op.number := by
    have := hop.operand.2
    omega
  rw [Operation.settle_of_selects hk] at hc ⊢
  rw [chose_select_iff h.nodup _ hk hd'] at hc
  rw [chose_select_iff h.nodup _ hk hd]
  exact h.counting.mem_chosen hn hk hd hd' hv hlt hc

theorem Ordered.settled (h : Ordered dice) {ops : List Operation}
    (hk : ∀ op ∈ ops, op.kind.selects = true) : Ordered (settled ops dice) := by
  induction ops generalizing dice with
  | nil => exact h
  | cons op ops ih =>
    obtain ⟨hop, hops⟩ := List.forall_mem_cons.mp hk
    rw [settled_cons, Operation.settle_of_selects hop]
    exact ih (h.select op.kind op.number) hops

end Selecting

variable {σ : Type} [Source σ]

/-- Selections leave the faces at the ranks that an estimate keeps of a pool of that size, and each
of them chooses the earlier of two dice with one face. -/
theorem Progress.selecting_keeps_ranks {ops : List Operation} {p : Progress}
    (h : ∀ op ∈ ops, op.kind.selects = true → op.Positive)
    (hp : p.dice.map (·.index) = List.range p.dice.length)
    (hc : ∀ d ∈ p.dice, d.dropped = false) (deadline : Option Float) (cap : Int) (tray : Tray σ) :
    ∃ kept q, keptRanks? ops p.dice.length = some kept ∧
      kept.Sublist (List.range p.dice.length) ∧
      (ops.filter (·.kind.selects)).foldlM (step deadline cap) p tray = (.ok q, tray) ∧
      ascending (faces q.dice) = kept.map (ranked (p.dice.map (·.value))) ∧
      (counting q.dice).length = kept.length ∧
      ∀ before op after, ops.filter (·.kind.selects) = before ++ op :: after →
        ∃ p₁ p₂, before.foldlM (step deadline cap) p tray = (.ok p₁, tray) ∧
          p₁.step deadline cap op tray = (.ok p₂, tray) ∧
          ChoosesEarlier op.kind p₁.dice p₂.dice := by
  have hk : ∀ op ∈ ops.filter (·.kind.selects), op.kind.selects = true :=
    fun op hop => (List.mem_filter.mp hop).2
  have hpos : ∀ op ∈ ops.filter (·.kind.selects), op.Positive :=
    fun op hop => h op (List.mem_filter.mp hop).1 (hk op hop)
  have hordered : Ordered p.dice := by
    unfold Ordered
    rw [hp]
    exact List.pairwise_lt_range
  have hsettles : ∀ op ∈ ops.filter (·.kind.selects), op.kind.settles = true :=
    fun op hop => by simp [OperationKind.settles, hk op hop]
  obtain ⟨kept, hkept, -, hsub⟩ := exists_keptRanks?_of_positive hpos p.dice.length
  have hranking := (ranking_of_counting hordered.nodup hc).settled hpos hk hkept
  obtain ⟨records, -, hrun⟩ :=
    p.exists_foldlM_step_of_settles (σ := σ) deadline cap hpos hsettles
  refine ⟨kept, _, hkept, hsub, by rw [hrun]; rfl, hranking.faces, ?_, ?_⟩
  · have hl := congrArg List.length hranking.faces
    simpa [faces, length_ascending] using hl
  · intro before op after he
    rw [he] at hpos hk hsettles
    obtain ⟨hbefore, hafter⟩ := List.forall_mem_append.mp hpos
    obtain ⟨_, -, hrun₁⟩ := p.exists_foldlM_step_of_settles (σ := σ) deadline cap hbefore
      (List.forall_mem_append.mp hsettles).1
    obtain ⟨hkbefore, hkafter⟩ := List.forall_mem_append.mp hk
    obtain ⟨hop, -⟩ := List.forall_mem_cons.mp hafter
    obtain ⟨hkop, -⟩ := List.forall_mem_cons.mp hkafter
    obtain ⟨_, -, hstep⟩ := Progress.exists_step_of_settles (σ := σ) deadline cap hop
      (hsettles op (by simp)) ⟨settled before p.dice, p.operations ++ _, p.notes⟩
    exact ⟨_, _, by rw [hrun₁]; rfl, by rw [hstep]; rfl,
      (hordered.settled hkbefore).choosesEarlier hop hkop⟩

def tied : Progress :=
  { dice := [Die.ofFace 0 6 4, Die.ofFace 1 6 2, Die.ofFace 2 6 4, Die.ofFace 3 6 4] }

def keepThree : Operation := ⟨.keepHighest, .one 3, false⟩

def dropOne : Operation := ⟨.dropLowest, .one 1, false⟩

/-- Of four, two, four and four, the highest three without the lowest of them are the last two: the
drop finds three fours and takes the first of them. -/
theorem Progress.selecting_keeps_ranks_tied : ∃ p₁ p₂ q,
    let tray : Tray StdGen := { source := seeded 7 }
    ([keepThree, dropOne].filter (·.kind.selects)).foldlM (step none 100) tied tray = (.ok q, tray) ∧
    ascending (faces q.dice) = [4, 4] ∧ (counting q.dice).length = 2 ∧
    [keepThree].foldlM (step none 100) tied tray = (.ok p₁, tray) ∧
    p₁.step none 100 dropOne tray = (.ok p₂, tray) ∧
    ChoosesEarlier .dropLowest p₁.dice p₂.dice := by
  have hpos : ∀ op ∈ [keepThree, dropOne], op.kind.selects = true → op.Positive := by
    intro op hop _
    simp only [List.mem_cons, List.not_mem_nil, or_false] at hop
    rcases hop with rfl | rfl
    · exact ⟨3, rfl, by decide⟩
    · exact ⟨1, rfl, by decide⟩
  obtain ⟨kept, q, hkept, -, hrun, hfaces, hl, hearlier⟩ := Progress.selecting_keeps_ranks hpos
    (p := tied) (by decide) (by decide) none 100 ({ source := seeded 7 } : Tray StdGen)
  obtain ⟨p₁, p₂, hfirst, hsecond, hchoice⟩ := hearlier [keepThree] dropOne [] rfl
  have hk : kept = [2, 3] := Option.some.inj (hkept.symm.trans (by decide))
  have hsorted : ascending (tied.dice.map (·.value)) = [2, 4, 4, 4] :=
    ascending_eq (by decide) (by decide)
  subst hk
  refine ⟨p₁, p₂, q, hrun, ?_, hl, hfirst, hsecond, hchoice⟩
  rw [hfaces]
  unfold ranked
  rw [hsorted]
  rfl

end DiceTower
