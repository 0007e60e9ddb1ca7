import DiceTower.Proofs.Dice.Ranking
import DiceTower.Proofs.Dice.Scripted

/-! The average of an estimate is the mean of the totals that the pool is rolled to, over all faces
that its dice and their rerolls can show. -/

namespace DiceTower

open DiceTower.Computation Chance

variable {cap : Int} {kept : List Nat} {stream : List Int}

/-- The total of a pool on some faces, of which the dice of some ranks count after the rerolls. -/
def Pool.totalOn (p : Pool) (ranks : List Nat) (stream : List Int) : Int :=
  let rolled := (rerollings p.rerolls (stream.take p.count.toNat) (stream.drop p.count.toNat)).1
  (ranks.map fun r => shown p.operations (ranked rolled r)).sum + p.modifier

theorem Pool.filter_growing {p : Pool} (h : ∀ op ∈ p.operations, op.kind ≠ .explode) :
    p.operations.filter (fun op => !op.kind.selects && !op.kind.clamps) =
      p.operations.filter (·.kind = .reroll) := by
  refine List.filter_congr fun op hop => ?_
  have hx := h op hop
  cases hk : op.kind <;> simp_all [OperationKind.selects, OperationKind.clamps]

theorem Term.reads_total {t : Term} (h : t.pool.Sound)
    (hx : ∀ op ∈ t.pool.operations, op.kind ≠ .explode)
    (hkept : keptRanks? t.pool.operations t.pool.count.toNat = some kept)
    (hf : AllFaces t.pool.sides stream)
    (hl : stream.length = t.pool.count.toNat * (1 + t.pool.rerolls.length))
    (label : Option String) :
    Reads (t.roll none cap label) stream fun r _ => r.total = t.pool.totalOn kept stream := by
  have hn : t.pool.count.toNat ≤ stream.length := by
    rw [hl]
    exact Nat.le_mul_of_pos_right _ (by omega)
  obtain ⟨records, -, hroll⟩ := Term.exists_roll_eq (σ := Script)
    (fun op hop => (h.operations op hop).positive) h.compatible.bounds none cap label
  rw [hroll]
  unfold Pool.grow
  rw [bind_assoc, Pool.filter_growing hx]
  refine ((reads_rollDice 0 hf hn).and_gives
    (deals_thrown_rollDice Drawing.drawsWithin_any _).gives).bind ?_
  rintro dice _ hs ⟨⟨hdice, rfl⟩, hthrown, hlength⟩
  refine (reads_rerollings (fun op hop => ?_) hthrown (hf.of_suffix hs) ?_).bind ?_
  · obtain ⟨hop, hk⟩ := List.mem_filter.mp hop
    exact ⟨by simpa using hk, (h.operations op hop).once⟩
  · rw [List.length_drop, hl, hlength, t.pool.length_rerolls, ← List.countP_eq_length_filter,
      Nat.mul_add, Nat.mul_comm]
    omega
  rintro p _ _ ⟨hp, hcount, hrolled⟩
  refine .of_pure ?_
  have hperm := hp.faces_settle_perm (fun op hop => (h.operations op hop).positive)
    (by rwa [hcount.trans hlength])
  show Number.sum (faces (t.pool.settle p.dice)) + t.pool.modifier = _
  rw [Number.sum_eq, hperm.sum_eq, hrolled, hdice]
  rfl

/-- The average of an estimate that is not rounded, over all faces that the dice and their rerolls
can show. -/
theorem Pool.Sound.exists_exactEstimate {p : Pool} (h : p.Sound)
    (hx : ∀ op ∈ p.operations, op.kind ≠ .explode) (hcount : p.count ≤ memoryLimit)
    (hkept : keptRanks? p.operations p.count.toNat = some kept) (cap : Int) :
    ∃ range : Range ℚ, exactEstimate p cap = .ok range ∧
      range.average = (Law.uniform p.sides : Law ℚ).expect
        (p.count.toNat * (1 + p.rerolls.length)) fun stream => (p.totalOn kept stream : ℚ) := by
  have honce : ∀ op ∈ p.operations, op.recursive = false := fun op hop => (h.operations op hop).once
  have hnone : p.operations.find? (·.kind = .explode) = none :=
    List.find?_eq_none.mpr fun op hop => by simpa using hx op hop
  obtain ⟨range, _, _, hrange, _, hreckoned⟩ := h.orderly.exists_exactEstimate hx hcount cap
  obtain ⟨ranks, hranks, haverage⟩ := hreckoned.fixed hnone
  obtain rfl : ranks = kept := Option.some.inj (hranks.symm.trans hkept)
  refine ⟨range, hrange, ?_⟩
  have hmodifier : (Law.ofPool p : Law ℚ).expect p.count.toNat (fun _ => (p.modifier : ℚ)) =
      p.modifier := (Law.certain_ofPool h.sides honce).expect_const _ _
  rw [haverage, ← hmodifier, ← Law.expect_add, Law.expect_ofPool h.sides honce]
  refine Law.expect_congr fun stream _ _ => ?_
  unfold totalOn
  push_cast
  rw [List.map_map]
  rfl

/-- The previewed average is the true one. Of all faces that the dice of a pool and their rerolls can
show, each is rolled to some total, and the average of the estimate before it is rounded is the mean
of these totals. -/
theorem Term.average_eq_mean_of_parse {limits : Limits} {text : String} {t : Term}
    (h : parse limits text = .ok t) (hx : ∀ op ∈ t.pool.operations, op.kind ≠ .explode)
    (honce : ∀ op ∈ t.pool.operations, op.recursive = false) (cap cap' : Int)
    (label : Option String) :
    ∃ (range : Range ℚ) (totals : List Int), exactEstimate t.pool cap = .ok range ∧
      List.Forall₂ (fun faces total => Reads (t.roll none cap' label) faces fun r _ =>
        r.total = total) (streams t.pool.sides
          (t.pool.count.toNat * (1 + t.pool.operations.countP (·.kind = .reroll)))) totals ∧
      range.average = (totals.sum : ℚ) / totals.length := by
  have hd := (Term.parse_eq_ok_iff.mp h).2
  have hsound : t.pool.Sound := (⟨⟨limits, _, Pool.parse_of_denotes hd⟩, honce⟩ :
    t.pool.Foreseeable).sound
  have hcount : t.pool.count ≤ memoryLimit := hd.count_le.trans (by decide)
  obtain ⟨kept, hkept, _⟩ := exists_keptRanks? hsound.operations t.pool.count.toNat
  obtain ⟨range, hrange, haverage⟩ := hsound.exists_exactEstimate hx hcount hkept cap
  rw [← t.pool.length_rerolls]
  generalize hlength : t.pool.count.toNat * (1 + t.pool.rerolls.length) = l at haverage ⊢
  refine ⟨range, (streams t.pool.sides l).map (t.pool.totalOn kept), hrange, ?_, ?_⟩
  · refine List.forall₂_map_right_iff.mpr (List.forall₂_same.mpr fun stream hstream => ?_)
    obtain ⟨hl, hf⟩ := mem_streams.mp hstream
    exact t.reads_total hsound hx hkept hf (hl.trans hlength.symm) label
  · rw [haverage, Law.expect_uniform hsound.sides, List.length_map]
    push_cast
    rw [List.map_map]
    rfl

def Term.betterOfTwo : Term :=
  ⟨"2d4r1kh1+2", 2, 4, 2, [⟨.reroll, .one 1, false⟩, ⟨.keepHighest, .one 1, false⟩]⟩

/-- Four faces of four sides are all that two dice and their rerolls can show. -/
theorem Term.average_eq_mean_betterOfTwo : parse {} "2d4r1kh1+2" = .ok betterOfTwo ∧
    (∀ op ∈ betterOfTwo.pool.operations, op.kind ≠ .explode ∧ op.recursive = false) ∧
    ∃ (range : Range ℚ) (totals : List Int), exactEstimate betterOfTwo.pool 100 = .ok range ∧
      List.Forall₂ (fun faces total => Reads (betterOfTwo.roll none 100 none) faces fun r _ =>
        r.total = total) (streams 4 4) totals ∧
      range.average = (totals.sum : ℚ) / totals.length := by
  have h : parse {} "2d4r1kh1+2" = .ok betterOfTwo := eq_ok_of_toOption (by decide +kernel)
  exact ⟨h, by decide, average_eq_mean_of_parse h (by decide) (by decide) 100 100 none⟩

/-- A die that is rolled again shows the lowest face once in sixteen times. -/
example : ((exactEstimate ⟨1, 4, 0, [⟨.reroll, .one 1, false⟩]⟩ 100 : Except Fault (Range ℚ))
    |>.toOption.map (·.average)) = some (46 / 16) := by
  decide +kernel

end DiceTower
