import DiceTower.Proofs.Engine.Scaling

/-! The lines of a segment and its range. What the dice and the modifiers add to the total lies
within what they add to the range. -/

namespace DiceTower

open DiceTower.Computation Number

theorem Die.counted_items (origin : Option String) (d : Die) :
    Item.counted (d.items origin) = if d.dropped then 0 else d.value := by
  unfold Die.items
  dsimp only
  rw [Item.counted_append, Item.counted_cons, counted_nil, Int.add_zero]
  have hrerolled (faces : List Int) : Item.counted (faces.map fun face => {
      kind := .reroll
      label := lead origin ++ "d" ++ Number.wholeText d.sides ++ " (rerolled)"
      value := face
      firstFace := some face
      sides := some d.sides
      origin
      rerolled := true
      dropped := true
      faces := d.faces }) = 0 := by
    induction faces with
    | nil => rfl
    | cons face faces ih => rw [List.map_cons, Item.counted_cons, ih]; rfl
  rw [hrerolled, Int.zero_add]

theorem counted_dice (origin : Option String) (dice : List Die) :
    Item.counted (dice.flatMap (·.items origin)) = Number.sum (faces dice) := by
  induction dice with
  | nil => rfl
  | cons d dice ih =>
    rw [List.flatMap_cons, Item.counted_append, ih, d.counted_items]
    unfold faces counting
    cases hd : d.dropped
    · rw [List.filter_cons_of_pos (by simp [hd]), List.map_cons, sum_cons]
      rfl
    · rw [List.filter_cons_of_neg (by simp [hd]), if_pos rfl, Int.zero_add]

theorem Roll.counted_items (origin : Option String) (r : Roll) :
    Item.counted (r.items origin) = r.total := by
  have htotal : r.total = Number.sum (faces r.dice) + r.term.pool.modifier := rfl
  unfold Roll.items
  split
  · rw [Item.counted_cons, if_neg (by simp), counted_nil, Int.add_zero]
  · rw [Item.counted_append, counted_dice, htotal]
    split
    · next hm => rw [hm, counted_nil]
    · rw [Item.counted_cons, if_neg (by simp), counted_nil, Int.add_zero]

def Modifier.SoundDice (m : Modifier) : Prop :=
  ∀ t, m.kind = .dice → m.amount = .dice t → t.pool.Sound

def Modifier.Crowded (cap : Int) (m : Modifier) : Prop :=
  ∃ t, m.amount = .dice t ∧ t.pool.Crowded cap

/-- What a modifier adds to the total lies within what it adds to the range. -/
def Modifier.Adds (cap : Int) (m : Modifier) (items : List Item) : Prop :=
  Foretells (Fault.OfMemory (m.Crowded cap)) (fun r : Option (Range ℚ) => match r with
    | some r => r.Contains (Item.counted items)
    | none => Item.counted items = 0) (m.range? cap)

theorem Engine.gives_modifierItems {σ : Type} [Source σ] (e : Engine) (deadline : Option Float)
    {m : Modifier} (hf : m.Fits) (hd : m.SoundDice) :
    Gives (e.modifierItems deadline false m : Drawing σ (List Item)) (m.Adds e.cap) := by
  unfold Modifier.Adds Modifier.range? modifierItems
  cases hk : m.kind
  case flat =>
    obtain ⟨n, hn⟩ := hf.flat hk
    have hc : Item.counted [m.item n] = n := Int.add_zero n
    rw [hn]
    exact .of_pure ⟨hc.ge, hc.le⟩
  case dice =>
    obtain ⟨t, ht⟩ := hf.dice hk
    rw [ht]
    refine (t.gives_total_within_estimate (hd t hk ht) (some m.name)).bind ?_
    rintro r ⟨_, hr⟩
    refine .of_pure (Foretells.map ?_)
    dsimp only
    rw [r.counted_items]
    exact hr.crowd fun hc => ⟨t, ht, hc⟩
  all_goals exact .of_pure rfl

theorem foretells_mapM_range? {cap : Int} {ms : List Modifier} {itemss : List (List Item)}
    (h : List.Forall₂ (Modifier.Adds cap) ms itemss) :
    Foretells (Fault.OfMemory (∃ m ∈ ms, m.Crowded cap)) (fun added : List (Option (Range ℚ)) =>
      Number.sum ((added.filterMap id).map (·.min)) ≤ Item.counted itemss.flatten ∧
      Item.counted itemss.flatten ≤ Number.sum ((added.filterMap id).map (·.max)))
      (ms.mapM (·.range? cap)) := by
  induction h with
  | nil => exact ⟨le_rfl, le_rfl⟩
  | cons hm _ ih =>
    rw [List.mapM_cons, List.flatten_cons, Item.counted_append]
    refine (hm.crowd fun hc => ⟨_, List.mem_cons_self, hc⟩).bind fun r hr =>
      (ih.crowd fun ⟨m, hm, hc⟩ => ⟨m, List.mem_cons_of_mem _ hm, hc⟩).bind fun added hadded => ?_
    cases r with
    | none =>
      have h0 : Item.counted _ = 0 := hr
      rw [h0, Int.zero_add]
      exact hadded
    | some r => exact ⟨Int.add_le_add hr.min hadded.1, Int.add_le_add hr.max hadded.2⟩

def Term.Crowded (cap : Int) (t : Term) (ms : List Modifier) : Prop :=
  t.pool.Crowded cap ∨ ∃ m ∈ ms, m.Crowded cap

def Term.ForeseenExactly (cap : Int) (t : Term) (ms : List Modifier) : Prop :=
  ∀ own added, (estimate t.pool cap : Except Fault (Range ℚ)) = .ok own →
    ms.mapM (·.range? cap) = .ok added → (Range.combine (own :: added.filterMap id)).ExactAll ms

/-- The total of a segment lies within its range: the dice and what is added, then scaled. -/
theorem foretells_segmentRange {cap : Int} {t : Term} {ms : List Modifier} {own : Int}
    {itemss : List (List Item)} {scaling : List Item} (hm : ∀ m ∈ ms, m.Fits ∧ m.WholeScale)
    (ho : Foretells (Fault.OfMemory (t.pool.Crowded cap)) (fun r => r.Contains own)
      (estimate t.pool cap : Except Fault (Range ℚ)))
    (ha : List.Forall₂ (Modifier.Adds cap) ms itemss)
    (hs : scaleLines (own + Item.counted itemss.flatten) ms = .ok scaling)
    (he : ExactFrom (own + Item.counted itemss.flatten) scaling) :
    Foretells (Fault.OfSize (t.Crowded cap ms) ¬ t.ForeseenExactly cap ms)
      (fun r : Range ℚ => r.Contains (own + Item.counted itemss.flatten + Item.counted scaling))
      (segmentRange cap t ms) := by
  unfold segmentRange
  refine (ho.crowd .inl).of_memory.and_eq.bind fun r hr => ?_
  refine ((foretells_mapM_range? ha).crowd .inr).of_memory.and_eq.bind fun added hadded => ?_
  refine foretells_foldlM_scaledBy hm hs he ⟨?_, ?_⟩ fun h hexact => h (hexact _ _ hr.2 hadded.2)
  · exact Int.add_le_add hr.1.min hadded.1.1
  · exact Int.add_le_add hr.1.max hadded.1.2

end DiceTower
