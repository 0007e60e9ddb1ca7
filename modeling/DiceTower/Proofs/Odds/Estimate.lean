import DiceTower.Proofs.Dice.Clamping
import DiceTower.Proofs.Number.Nearest
import DiceTower.Proofs.Odds.Ranks

/-! What an estimate makes of a pool: its least and its greatest total, and its average. -/

namespace DiceTower

open Chance

theorem foretells_roomFor (n : Int) :
    Foretells (Fault.OfMemory (memoryLimit < n)) (fun size => size = n.toNat) (roomFor n) := by
  unfold roomFor
  split
  · next h =>
    refine ⟨.inl rfl, lt_of_le_of_lt ?_ h⟩
    decide
  · split
    · next h => exact ⟨.inr rfl, h⟩
    · rfl

structure Law.Ends (law : Law ℚ) (first last : Int) : Prop where
  first_mem : first ∈ law.map (·.1)
  last_mem : last ∈ law.map (·.1)
  between : ∀ face ∈ law.map (·.1), first ≤ face ∧ face ≤ last

theorem Law.Proper.exists_ends {sides : Int} {law : Law ℚ} (h : law.Proper sides) :
    ∃ first p last q, law.head? = some (first, p) ∧ law.getLast? = some (last, q) ∧
      law.Ends first last := by
  have hne : law ≠ [] := by
    rintro rfl
    exact absurd h.certain (by simp [Law.Certain])
  refine ⟨(law.head hne).1, (law.head hne).2, (law.getLast hne).1, (law.getLast hne).2,
    List.head?_eq_some_head hne, List.getLast?_eq_some_getLast hne,
    List.mem_map_of_mem (List.head_mem hne), List.mem_map_of_mem (List.getLast_mem hne), ?_⟩
  intro face hface
  have hsorted : (law.map (·.1)).Pairwise (· ≤ ·) := h.ascending.imp le_of_lt
  have hne' : law.map (·.1) ≠ [] := by simpa using hne
  have hhead : (law.head hne).1 = (law.map (·.1)).head hne' := by rw [List.head_map]
  have hlast : (law.getLast hne).1 = (law.map (·.1)).getLast hne' := by rw [List.getLast_map]
  rw [hhead, hlast]
  exact ⟨hsorted.rel_head hface, hsorted.rel_getLast hface⟩

theorem Law.Ends.unique {law : Law ℚ} {first last first' last' : Int} (h : law.Ends first last)
    (h' : law.Ends first' last') : first = first' ∧ last = last' := by
  have hlow := (h.between _ h'.first_mem).1
  have hlow' := (h'.between _ h.first_mem).1
  have hhigh := (h.between _ h'.last_mem).2
  have hhigh' := (h'.between _ h.last_mem).2
  omega

namespace Pool

/-- The size of the pool for which the least total is counted, when dice show some face at least. -/
def fewestFrom (p : Pool) (cap first : Int) : Int :=
  match p.operations.find? (·.kind = .explode) with
  | none => p.count
  | some op => if op.number ≤ first then cap else p.count

def fewest (p : Pool) (cap : Int) : Int := p.fewestFrom cap 1

def most (p : Pool) (cap : Int) : Int :=
  match p.operations.find? (·.kind = .explode) with
  | none => p.count
  | some _ => max cap p.count

/-- Explosions may make the pool larger than a list can be. -/
def Crowded (p : Pool) (cap : Int) : Prop := memoryLimit < p.most cap

def grownSize (p : Pool) (cap : Int) (trigger : ℚ) : ℚ :=
  if trigger < 1 then min (cap : ℚ) (p.count / (1 - trigger)) else cap

def grownKept (p : Pool) (cap : Int) (trigger : ℚ) : ℚ :=
  if p.operations.any (·.kind.selects)
  then sizeKept p.operations (roundRat (p.grownSize cap trigger)).toNat else p.grownSize cap trigger

/-- What an estimate gives to a pool whose dice show the faces from one to another. -/
structure Reckoned (p : Pool) (cap first last : Int) (r : Range ℚ) : Prop where
  min : r.min = sizeKept p.operations (p.fewestFrom cap first).toNat * shown p.operations first +
    p.modifier
  max : r.max = sizeKept p.operations (p.most cap).toNat * shown p.operations last + p.modifier
  /-- Without explosions, the dice of the ranks that are kept add up to the average. -/
  fixed : p.operations.find? (·.kind = .explode) = none → ∃ ranks,
    keptRanks? p.operations p.count.toNat = some ranks ∧
    r.average = (Law.ofPool p : Law ℚ).expect p.count.toNat (fun faces =>
      (ranks.map fun r => (shown p.operations (ranked faces r) : ℚ)).sum) + p.modifier
  /-- With explosions, each die that counts adds the average of a single one. -/
  exploding : ∀ op, p.operations.find? (·.kind = .explode) = some op →
    r.average = p.grownKept cap ((Law.ofPool p : Law ℚ).chance (op.number ≤ ·)) *
      (Law.ofPool p : Law ℚ).mean (lowestShown p.operations) (highestShown p.operations) + p.modifier

variable {p : Pool}

theorem not_crowded {cap : Int} (hcap : cap ≤ memoryLimit) (hcount : p.count ≤ memoryLimit) :
    ¬ p.Crowded cap := by
  unfold Crowded most
  split <;> omega

theorem foretells_ranksKept (h : ∀ op ∈ p.operations, op.Positive) (size : Int) :
    Foretells (Fault.OfMemory (memoryLimit < size))
      (fun ranks => keptRanks? p.operations size.toNat = some ranks ∧
      ranks.length = sizeKept p.operations size.toNat ∧ ranks.Sublist (List.range size.toNat))
      (ranksKept p size) := by
  refine (foretells_roomFor size).bind ?_
  rintro _ rfl
  obtain ⟨ranks, hk, hl, hs⟩ := exists_keptRanks?_of_positive
    (fun op hop => h op (List.mem_filter.mp hop).1) size.toNat
  rw [hk]
  exact ⟨rfl, hl, hs⟩

theorem averageSize_eq (p : Pool) (cap : Int) (trigger : ℚ) :
    averageSize p cap trigger = .ok (p.grownSize cap trigger) := by
  unfold averageSize grownSize
  rw [requireHeld_rat]
  by_cases ht : trigger < 1
  · have hless : less trigger one = true := ht
    rw [if_pos ht, hless, ← lesser_eq_min]
    rfl
  · have hless : less trigger one = false := eq_false_of_ne_true ht
    rw [if_neg ht, hless]
    rfl

theorem roundRat_grownSize_le (p : Pool) (cap : Int) (trigger : ℚ) :
    roundRat (p.grownSize cap trigger) ≤ cap := by
  refine (roundRat_mono ?_).trans_eq (roundRat_intCast cap)
  unfold grownSize
  split
  · exact min_le_left ..
  · exact le_rfl

theorem foretells_explodingAverage (h : ∀ op ∈ p.operations, op.Positive) (law : Law ℚ)
    (threshold cap : Int) (low high : Option Int) :
    Foretells (Fault.OfMemory (memoryLimit < cap)) (fun average =>
      average = p.grownKept cap (law.chance (threshold ≤ ·)) * law.mean low high)
      (explodingAverage law p threshold cap low high) := by
  unfold explodingAverage Law.requireHeld grownKept
  rw [requireHeld_rat, averageSize_eq]
  have hsize := p.roundRat_grownSize_le cap (law.chance (threshold ≤ ·))
  generalize p.grownSize cap (law.chance (threshold ≤ ·)) = size at hsize
  dsimp only [bind, Except.bind]
  by_cases hs : p.operations.any (·.kind.selects) = true
  · rw [if_pos hs, if_pos hs]
    have hkept : Foretells (Fault.OfMemory (memoryLimit < cap))
        (fun kept : ℚ => kept = sizeKept p.operations (roundRat size).toNat)
        ((ranksKept p (nearest size)).map fun ranks => ofInt ranks.length) := by
      refine .map (((foretells_ranksKept h (roundRat size)).crowd fun hc => hc.trans_le hsize).mono
        fun ranks hranks => ?_)
      rw [← hranks.2.1]
      exact Int.cast_natCast _
    refine Foretells.bind (f := fun kept => .ok (kept * law.mean low high)) hkept fun kept hk => ?_
    rw [hk]
    exact rfl
  · rw [if_neg hs, if_neg hs, requireHeld_rat]
    exact rfl

/-- What an estimate takes for the least and the greatest total of an orderly pool, and for the
average. -/
theorem Orderly.foretells_reckoned (h : p.Orderly) (cap : Int) :
    Foretells (Fault.OfMemory (p.Crowded cap)) (fun r => ∃ first last, (Law.ofPool p : Law ℚ).Ends first last ∧
      p.Reckoned cap first last r) (exactEstimate p cap : Except Fault (Range ℚ)) := by
  have hl := Law.proper_ofPool h.sides
  obtain ⟨first, _, last, _, hfirst, hlast, hends⟩ := hl.exists_ends
  unfold exactEstimate
  rw [Bounds.ofOperations_eq (single_of_positive h.operations)]
  dsimp only
  rw [hfirst, hlast]
  refine Foretells.bind (P := fun r : Range ℚ => p.Reckoned cap first last
    ⟨r.min + p.modifier, r.max + p.modifier, r.average + p.modifier⟩) ?_ fun r hr => ?_
  · unfold poolAverage
    rw [Bounds.numbers_one]
    cases hf : p.operations.find? (·.kind = .explode) with
    | none =>
      have hmost : p.most cap = p.count := by rw [most, hf]
      refine ((foretells_ranksKept h.operations _).crowd fun hc => ?_).bind
        fun ranks ⟨hk, hlength, hs⟩ => ?_
      · rwa [Crowded, hmost]
      dsimp only [bind, Except.bind]
      rw [hl.fixedAverage_eq h.count hs]
      refine ⟨?_, ?_, fun _ => ⟨ranks, hk, rfl⟩, fun op hop => ?_⟩
      · rw [hlength, fewestFrom, hf]
        rfl
      · rw [hlength, most, hf]
        rfl
      · rw [hf] at hop
        cases hop
    | some op =>
      obtain ⟨ho, -⟩ := (h.operations op (List.mem_of_find?_eq_some hf)).operand
      simp only [ho, Operand.number]
      have hmost : p.most cap = max cap p.count := by rw [most, hf]
      have hcrowded {size : Int} (hsize : size ≤ max cap p.count) (hc : memoryLimit < size) :
          p.Crowded cap := by
        rw [Crowded, hmost]
        exact hc.trans_le hsize
      refine ((foretells_ranksKept h.operations _).crowd (hcrowded ?_)).bind
        fun ranks ⟨_, hlength, _⟩ => ?_
      · split
        · exact le_max_left ..
        · exact le_max_right ..
      refine ((foretells_ranksKept h.operations _).crowd (hcrowded le_rfl)).bind
        fun ranks' ⟨_, hlength', _⟩ => ?_
      refine ((foretells_explodingAverage h.operations ..).crowd (hcrowded (le_max_left ..))).bind
        fun average haverage => ?_
      refine ⟨?_, ?_, fun hn => ?_, fun op' hop' => ?_⟩
      · rw [hlength, fewestFrom, hf]
        rfl
      · rw [hlength', most, hf]
        rfl
      · rw [hf] at hn
        cases hn
      · rw [hf] at hop'
        cases hop'
        rw [haverage]
  · rw [requireHeld_rat]
    exact ⟨first, last, hends, hr⟩

theorem Orderly.exists_exactEstimate (h : p.Orderly)
    (hx : ∀ op ∈ p.operations, op.kind ≠ .explode) (hcount : p.count ≤ memoryLimit) (cap : Int) :
    ∃ (r : Range ℚ) (first last : Int), exactEstimate p cap = .ok r ∧
      (Law.ofPool p : Law ℚ).Ends first last ∧ p.Reckoned cap first last r := by
  have hnone : p.operations.find? (·.kind = .explode) = none :=
    List.find?_eq_none.mpr fun op hop => by simpa using hx op hop
  have hroom : ¬ p.Crowded cap := by
    rw [Crowded, most, hnone]
    exact not_lt.mpr hcount
  obtain ⟨r, hr, first, last, hends, hreckoned⟩ :=
    (h.foretells_reckoned cap).exists_eq_ok_of_room hroom
  exact ⟨r, first, last, hr, hends, hreckoned⟩

structure Spans (p : Pool) (cap : Int) (r : Range ℚ) : Prop where
  min : r.min = sizeKept p.operations (p.fewest cap).toNat * shown p.operations 1 + p.modifier
  max : r.max = sizeKept p.operations (p.most cap).toNat * shown p.operations p.sides + p.modifier

theorem Sound.foretells_exactEstimate (h : p.Sound) (cap : Int) :
    Foretells (Fault.OfMemory (p.Crowded cap)) (p.Spans cap) (exactEstimate p cap : Except Fault (Range ℚ)) := by
  have hl := Law.full_ofPool h.sides fun op hop => (h.operations op hop).once
  refine (h.orderly.foretells_reckoned cap).mono fun r ⟨first, last, hends, hr⟩ => ?_
  have hfaces : ∀ face, face ∈ (Law.ofPool p : Law ℚ).map (·.1) ↔ 1 ≤ face ∧ face ≤ p.sides := by
    intro face
    rw [hl.faces]
    exact mem_facesOf
  have hsides := h.sides
  have hone := hends.between 1 ((hfaces 1).mpr ⟨le_rfl, hsides⟩)
  have htop := hends.between p.sides ((hfaces p.sides).mpr ⟨hsides, le_rfl⟩)
  have hfirst := (hfaces first).mp hends.first_mem
  have hlast := (hfaces last).mp hends.last_mem
  obtain rfl : first = 1 := by omega
  obtain rfl : last = p.sides := by omega
  exact ⟨hr.min, hr.max⟩

theorem Sound.foretells_estimate (h : p.Sound) (cap : Int) :
    Foretells (Fault.OfMemory (p.Crowded cap)) (p.Spans cap) (estimate p cap : Except Fault (Range ℚ)) :=
  ((h.foretells_exactEstimate cap).mono fun _ hr => ⟨hr.min, hr.max⟩).map

end Pool

end DiceTower
