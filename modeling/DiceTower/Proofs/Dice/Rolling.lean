import DiceTower.Proofs.Dice.Clamping
import DiceTower.Proofs.Dice.Operations
import DiceTower.Proofs.Play.Dealing

/-! Dice before any of them is left out or its face is bounded, whatever the source shows. Each die
keeps the faces drawn for it, and explosions add dice after those that were rolled. -/

namespace DiceTower

open DiceTower.Computation Drawing

structure Die.Fresh (sides : Int) (d : Die) : Prop where
  shape : d.sides = sides
  face : 1 ≤ d.value ∧ d.value ≤ sides
  counts : d.dropped = false

structure Lying (sides : Int) (dice : List Die) : Prop where
  index : dice.map (·.index) = List.range dice.length
  fresh : ∀ d ∈ dice, d.Fresh sides

def everyFace (dice : List Die) : List Int := dice.flatMap (·.faces)

def Die.thrown (d : Die) : Die :=
  { d with value := d.natural, dropped := false, clamped := false }

/-- A die that tells of the faces drawn for it. -/
structure Die.Told (sides : Int) (d : Die) : Prop where
  shape : d.sides = sides
  faces : ∀ face ∈ d.faces, 1 ≤ face ∧ face ≤ sides
  natural : d.faces.getLast? = some d.natural
  rerolled : d.rerolled = decide (1 < d.faces.length)

/-- Dice of which none is left out or bounded: so many that were rolled, each followed by so many
faces at most, and after them those that explosions added. -/
structure Thrown (sides : Int) (count rounds : Nat) (dice : List Die) : Prop where
  index : dice.map (·.index) = List.range dice.length
  exploded : dice.map (·.exploded) =
    List.replicate count false ++ List.replicate (dice.length - count) true
  told : ∀ d ∈ dice, d.Told sides
  most : ∀ d ∈ dice, d.faces.length ≤ 1 + rounds
  untouched : ∀ d ∈ dice, d.thrown = d

variable {σ : Type} [Source σ] {F : Fault → Prop} {deadline : Option Float} {cap sides : Int}
  {before : List Int} {count rounds : Nat} {dice : List Die}

section Faces

theorem everyFace_append (dice dice' : List Die) :
    everyFace (dice ++ dice') = everyFace dice ++ everyFace dice' := List.flatMap_append

theorem everyFace_of_map_thrown {dice' : List Die} (h : dice'.map Die.thrown = dice.map Die.thrown) :
    everyFace dice' = everyFace dice := by
  have hfaces (dice : List Die) : everyFace (dice.map Die.thrown) = everyFace dice := by
    unfold everyFace
    rw [List.flatMap_map]
    rfl
  rw [← hfaces dice', h, hfaces]

theorem Thrown.count_le (h : Thrown sides count rounds dice) : count ≤ dice.length := by
  have hl := congrArg List.length h.exploded
  rw [List.length_map, List.length_append, List.length_replicate, List.length_replicate] at hl
  omega

theorem Thrown.countP_exploded (h : Thrown sides count rounds dice) :
    dice.countP (·.exploded) = dice.length - count := by
  have hc := congrArg (List.countP id) h.exploded
  rw [List.countP_map, List.countP_append, List.countP_replicate, List.countP_replicate] at hc
  simpa using hc

theorem Thrown.lying (h : Thrown sides count rounds dice) : Lying sides dice := by
  refine ⟨h.index, fun d hd => ?_⟩
  have htold := h.told d hd
  have hface := htold.faces d.natural (List.mem_of_getLast? htold.natural)
  have hvalue : d.natural = d.value := congrArg Die.value (h.untouched d hd)
  rw [hvalue] at hface
  exact ⟨htold.shape, hface, (congrArg Die.dropped (h.untouched d hd)).symm⟩

end Faces

section Rerolls

structure Die.Follows (sides : Int) (attempts : Nat) (d d' : Die) : Prop where
  told : d'.Told sides
  untouched : d'.thrown = d'
  index : d'.index = d.index
  exploded : d'.exploded = d.exploded
  most : d'.faces.length ≤ d.faces.length + attempts

theorem deals_redraw (hd : DrawsWithin σ F deadline sides) (targets : List Int) (n : Nat) :
    Deals F sides before (fun faces => before ++ faces)
      (fun faces => (∀ face ∈ faces, 1 ≤ face ∧ face ≤ sides) ∧ (1 ≤ n → faces ≠ []) ∧
        faces.length ≤ n)
      (redraw deadline sides targets n : Drawing σ (List Int)) := by
  induction n generalizing before with
  | zero => exact .of_pure ⟨by simp, by simp, Nat.le_refl 0⟩ (by simp)
  | succ n ih =>
    refine (deals_draw hd).bind fun face hface => ?_
    split
    · refine ih.bind fun faces ⟨hfaces, _, hlength⟩ => .of_pure ⟨?_, by simp, ?_⟩ (by simp)
      · exact List.forall_mem_cons.mpr ⟨hface, hfaces⟩
      · exact Nat.succ_le_succ hlength
    · exact .of_pure ⟨by simpa using hface, by simp, Nat.succ_le_succ (Nat.zero_le n)⟩ (.refl _)

theorem Die.deals_reroll (hd : DrawsWithin σ F deadline sides) {d : Die} (h : d.Told sides)
    (hu : d.thrown = d) (targets : List Int) {attempts : Nat} (ha : 1 ≤ attempts) :
    Deals F sides d.faces (·.faces) (d.Follows sides attempts)
      (d.reroll deadline targets attempts : Drawing σ Die) := by
  have hcounts : d.dropped = false := (congrArg Die.dropped hu).symm
  have hfree : d.clamped = false := (congrArg Die.clamped hu).symm
  unfold reroll
  split
  · obtain rfl := h.shape
    refine (deals_redraw hd targets attempts).bind fun faces ⟨hfaces, hne, hlength⟩ =>
      .of_pure ⟨⟨rfl, ?_, ?_, ?_⟩, ?_, rfl, rfl, ?_⟩ (.refl _)
    · intro face hface
      rcases List.mem_append.mp hface with hface | hface
      · exact h.faces face hface
      · exact hfaces face hface
    · obtain ⟨face, hlast⟩ := Option.ne_none_iff_exists'.mp
        (mt List.getLast?_eq_none_iff.mp (hne ha))
      simp [hlast]
    · have hold : d.faces ≠ [] := fun hnil => by
        have := h.natural
        simp [hnil] at this
      have h1 := List.length_pos_iff.mpr hold
      have h2 := List.length_pos_iff.mpr (hne ha)
      have hmore : 1 < (d.faces ++ faces).length := by
        rw [List.length_append]
        omega
      exact (decide_eq_true hmore).symm
    · simp [thrown, hcounts, hfree]
    · rw [List.length_append]
      omega
  · exact .of_pure ⟨h, hu, rfl, rfl, Nat.le_add_right _ _⟩ (.refl _)

theorem Thrown.follows {attempts : Nat} {dice' : List Die} (h : Thrown sides count rounds dice)
    (hf : List.Forall₂ (Die.Follows sides attempts) dice dice') :
    Thrown sides count (rounds + attempts) dice' := by
  have hsame : ∀ {dice dice' : List Die}, List.Forall₂ (Die.Follows sides attempts) dice dice' →
      dice'.map (·.index) = dice.map (·.index) ∧ dice'.map (·.exploded) = dice.map (·.exploded) := by
    intro dice dice' hf
    induction hf with
    | nil => exact ⟨rfl, rfl⟩
    | cons hd _ ih =>
      exact ⟨congrArg₂ List.cons hd.index ih.1, congrArg₂ List.cons hd.exploded ih.2⟩
  obtain ⟨hindex, hexploded⟩ := hsame hf
  refine ⟨?_, ?_, fun d hd => ?_, fun d hd => ?_, fun d hd => ?_⟩
  · rw [hindex, h.index, hf.length_eq]
  · rw [hexploded, h.exploded, hf.length_eq]
  all_goals obtain ⟨d₀, hd₀, hdie⟩ := exists_mem_of_forall₂ hf d hd
  · exact hdie.told
  · have := hdie.most
    have := h.most d₀ hd₀
    omega
  · exact hdie.untouched

theorem Operation.one_le_attempts (cap : Int) (op : Operation) : 1 ≤ op.attempts cap := by
  unfold attempts
  split <;> omega

theorem deals_rerollAll (hd : DrawsWithin σ F deadline sides)
    (h : Thrown sides count rounds dice) (op : Operation) :
    Deals F sides (everyFace dice) (fun r => everyFace r.1)
      (fun r => Thrown sides count (rounds + op.attempts cap) r.1 ∧ r.1.length = dice.length)
      (rerollAll deadline cap op dice : Drawing σ (List Die × List Nat)) := by
  refine (Deals.mapM fun d hmem => Die.deals_reroll hd (h.told d hmem) (h.untouched d hmem) _
    (op.one_le_attempts cap)).bind fun dice' hdice =>
      .of_pure ⟨h.follows hdice, hdice.length_eq.symm⟩ (.refl _)

end Rerolls

section Explosions

/-- What explosions of some dice add, and whether the cap stopped them: without the cap one die for
each that shows the threshold, those added among them. -/
structure Burst (sides threshold : Int) (room next : Nat) (queue : List Die)
    (r : List Die × Bool) : Prop where
  index : r.1.map (·.index) = List.range' next r.1.length
  dice : ∀ d ∈ r.1, ∃ place face, (1 ≤ face ∧ face ≤ sides) ∧
    d = { Die.ofFace place sides face with exploded := true }
  most : r.1.length ≤ room
  exact : r.2 = false → r.1.length = (queue ++ r.1).countP fun d => decide (threshold ≤ d.value)
  full : r.2 = true → r.1.length = room

theorem deals_explosions (hd : DrawsWithin σ F deadline sides) (threshold : Int) (room next : Nat)
    {queue : List Die} (hq : ∀ d ∈ queue, d.sides = sides) :
    Deals F sides before (fun r => before ++ everyFace r.1)
      (Burst sides threshold room next queue)
      (explosions deadline threshold room next queue : Drawing σ (List Die × Bool)) := by
  induction room, next, queue using explosions.induct threshold generalizing before with
  | case1 =>
    unfold explosions
    exact .of_pure ⟨rfl, by simp, Nat.zero_le _, fun _ => rfl, nofun⟩ (by simp [everyFace])
  | case2 _ _ _ h =>
    unfold explosions
    rw [if_pos h]
    exact .of_pure ⟨rfl, by simp, Nat.zero_le _, nofun, fun _ => rfl⟩ (by simp [everyFace])
  | case3 next d queue h room ih =>
    obtain ⟨hsides, hrest⟩ := List.forall_mem_cons.mp hq
    unfold explosions
    rw [if_pos h, hsides]
    refine (deals_draw hd).bind fun face hface => ?_
    have hlater : ∀ d' ∈ queue ++ [{ Die.ofFace next sides face with exploded := true }],
        d'.sides = sides := by
      intro d' hd'
      rcases List.mem_append.mp hd' with hd' | hd'
      · exact hrest d' hd'
      · rw [List.mem_singleton.mp hd']
        rfl
    rw [hsides] at ih
    refine (ih face hlater).bind fun r hr => .of_pure ⟨?_, ?_, ?_, fun he => ?_, fun he => ?_⟩ ?_
    · rw [List.map_cons, hr.index, List.length_cons, List.range'_succ]
      rfl
    · exact List.forall_mem_cons.mpr ⟨⟨next, face, hface, rfl⟩, hr.dice⟩
    · exact Nat.succ_le_succ hr.most
    · have hexact := hr.exact he
      simp only [List.countP_append, List.countP_cons, List.countP_nil, List.length_cons,
        List.cons_append, h, decide_true, if_true] at hexact ⊢
      omega
    · exact congrArg Nat.succ (hr.full he)
    · simp [everyFace, Die.ofFace]
  | case4 _ _ d queue h ih =>
    unfold explosions
    rw [if_neg h]
    refine (ih (List.forall_mem_cons.mp hq).2).mono fun r hr =>
      ⟨hr.index, hr.dice, hr.most, fun he => ?_, hr.full⟩
    rw [hr.exact he, List.cons_append, List.countP_cons_of_neg (by simpa using h)]

theorem Thrown.burst {threshold : Int} {room : Nat} {queue : List Die} {r : List Die × Bool}
    (h : Thrown sides count rounds dice) (hb : Burst sides threshold room dice.length queue r) :
    Thrown sides count rounds (dice ++ r.1) := by
  have hadded {d : Die} (hd : d ∈ r.1) : d.Told sides ∧ d.faces.length ≤ 1 + rounds ∧
      d.thrown = d ∧ d.exploded = true := by
    obtain ⟨place, face, hface, rfl⟩ := hb.dice d hd
    exact ⟨⟨rfl, by simpa [Die.ofFace] using hface, rfl, rfl⟩, Nat.le_add_right 1 rounds, rfl, rfl⟩
  have hcount := h.count_le
  refine ⟨?_, ?_, fun d hd => ?_, fun d hd => ?_, fun d hd => ?_⟩
  · rw [List.map_append, h.index, hb.index, List.length_append, List.range_eq_range',
      List.range_eq_range']
    simpa using @List.range'_append 0 dice.length r.1.length 1
  · have hlater : r.1.map (·.exploded) = List.replicate r.1.length true :=
      List.eq_replicate_iff.mpr ⟨List.length_map _, by
        simpa using fun d hd => (hadded hd).2.2.2⟩
    rw [List.map_append, h.exploded, hlater, List.append_assoc, List.replicate_append_replicate,
      List.length_append]
    congr 2
    omega
  all_goals rcases List.mem_append.mp hd with hd | hd
  · exact h.told d hd
  · exact (hadded hd).1
  · exact h.most d hd
  · exact (hadded hd).2.1
  · exact h.untouched d hd
  · exact (hadded hd).2.2.1

variable {op : Operation} (hop : (¬ ∃ n, op.operand = .one n) → F .wrongKind)

include hop

theorem Operation.foretells_number :
    Foretells F (fun n => op.number = n) op.operand.number := by
  cases ho : op.operand with
  | one n =>
    show op.number = n
    rw [Operation.number, ho]
    rfl
  | many ns => exact hop (by simp [ho])

theorem deals_explodeAll (hd : DrawsWithin σ F deadline sides) (h : ∀ d ∈ dice, d.sides = sides) :
    Deals F sides (everyFace dice) (fun r => everyFace r.1)
      (fun r => ∃ added, r.1 = dice ++ added ∧ r.2.1 = added.map (·.index) ∧
        Burst sides op.number (cap - dice.length).toNat dice.length dice (added, r.2.2))
      (explodeAll deadline cap op dice : Drawing σ (List Die × List Nat × Bool)) := by
  unfold explodeAll
  split
  · next hempty =>
    have hnil : dice = [] := List.isEmpty_iff.mp hempty
    subst hnil
    exact .of_pure ⟨[], rfl, rfl, rfl, by simp, Nat.zero_le _, fun _ => rfl, nofun⟩ (.refl _)
  · refine Deals.bind (P := fun n => op.number = n) (w := fun _ => everyFace dice)
      (.of_lift ((Operation.foretells_number hop).mono fun _ hn => ⟨hn, .refl _⟩)) ?_
    rintro _ rfl
    exact (deals_explosions hd _ _ _ h).bind fun r hr =>
      .of_pure ⟨r.1, rfl, rfl, hr⟩ (by rw [everyFace_append])

end Explosions

section Rolls

theorem deals_rollDice (hd : DrawsWithin σ F deadline sides) (next n : Nat) :
    Deals F sides before (fun dice => before ++ everyFace dice)
      (fun dice => dice.map (·.index) = List.range' next n ∧
        ∀ d ∈ dice, ∃ place face, (1 ≤ face ∧ face ≤ sides) ∧ d = Die.ofFace place sides face)
      (rollDice deadline sides next n : Drawing σ (List Die)) := by
  induction n generalizing before next with
  | zero => exact .of_pure ⟨rfl, by simp⟩ (by simp [everyFace])
  | succ n ih =>
    refine (deals_draw hd).bind fun face hface => ?_
    refine (ih (next + 1)).bind fun dice ⟨hindex, hdice⟩ => .of_pure ⟨?_, ?_⟩ ?_
    · rw [List.map_cons, hindex, List.range'_succ]
      rfl
    · exact List.forall_mem_cons.mpr ⟨⟨next, face, hface, rfl⟩, hdice⟩
    · simp [everyFace, Die.ofFace]

theorem deals_thrown_rollDice (hd : DrawsWithin σ F deadline sides) (n : Nat) :
    Deals F sides [] everyFace (fun dice => Thrown sides n 0 dice ∧ dice.length = n)
      (rollDice deadline sides 0 n : Drawing σ (List Die)) := by
  refine (deals_rollDice hd 0 n).mono fun dice ⟨hindex, hdice⟩ => ?_
  have hlength : dice.length = n := by simpa using congrArg List.length hindex
  refine ⟨⟨?_, ?_, fun d hmem => ?_, fun d hmem => ?_, fun d hmem => ?_⟩, hlength⟩
  · rw [hindex, hlength, List.range_eq_range']
  · rw [hlength, Nat.sub_self, List.replicate_zero, List.append_nil]
    refine List.eq_replicate_iff.mpr ⟨by rw [List.length_map, hlength], ?_⟩
    intro b hb
    obtain ⟨d, hmem, rfl⟩ := List.mem_map.mp hb
    obtain ⟨place, face, _, rfl⟩ := hdice d hmem
    rfl
  all_goals obtain ⟨place, face, hface, rfl⟩ := hdice d hmem
  · exact ⟨rfl, by simpa [Die.ofFace] using hface, rfl, rfl⟩
  · exact Nat.le_refl 1
  · rfl

end Rolls

end DiceTower
