import Mathlib.Data.List.Forall2
import DiceTower.Fault

/-! When a computation that may fail gives an answer, and when it fails. -/

namespace DiceTower

variable {ε α β : Type}

theorem bind_eq_ok_iff {x : Except ε α} {f : α → Except ε β} {b : β} :
    (x >>= f) = .ok b ↔ ∃ a, x = .ok a ∧ f a = .ok b := by
  cases x <;> simp [bind, Except.bind]

theorem bind_eq_error_iff {x : Except ε α} {f : α → Except ε β} {e : ε} :
    (x >>= f) = .error e ↔ x = .error e ∨ ∃ a, x = .ok a ∧ f a = .error e := by
  cases x <;> simp [bind, Except.bind]

theorem map_eq_ok_iff {x : Except ε α} {f : α → β} {b : β} :
    x.map f = .ok b ↔ ∃ a, x = .ok a ∧ f a = b := by
  cases x <;> simp [Except.map]

theorem map_eq_error_iff {x : Except ε α} {f : α → β} {e : ε} :
    x.map f = .error e ↔ x = .error e := by
  cases x <;> simp [Except.map]

theorem eq_ok_of_toOption {x : Except ε α} {a : α} (h : x.toOption = some a) : x = .ok a := by
  cases x with
  | error e => cases h
  | ok b => rw [Option.some.inj h]

theorem exists_eq_ok_of_any {p : α → Bool} {x : Except ε α} (h : x.toOption.any p = true) :
    ∃ a, x = .ok a ∧ p a = true := by
  cases x with
  | error e => cases h
  | ok a => exact ⟨a, rfl, h⟩

theorem mapM_eq_ok_iff {f : α → Except ε β} {l : List α} {l' : List β} :
    l.mapM f = .ok l' ↔ List.Forall₂ (fun a b => f a = .ok b) l l' := by
  induction l generalizing l' with
  | nil =>
    rw [List.mapM_nil]
    constructor
    · rintro h
      cases h
      exact .nil
    · rintro ⟨⟩
      rfl
  | cons a l ih =>
    simp only [List.mapM_cons, bind_eq_ok_iff, ih]
    constructor
    · rintro ⟨b, hb, bs, hbs, h⟩
      cases h
      exact .cons hb hbs
    · rintro (_ | ⟨hb, hbs⟩)
      exact ⟨_, hb, _, hbs, rfl⟩

theorem forM_eq_ok {l : List α} {f : α → Except ε Unit}
    (h : ∀ a ∈ l, f a = .ok ()) : l.forM f = .ok () := by
  induction l with
  | nil => rfl
  | cons a l ih =>
    show (f a >>= fun _ => l.forM f) = .ok ()
    rw [h a (by simp)]
    exact ih fun a ha => h a (by simp [ha])

theorem exists_mem_of_forall₂ {R : α → β → Prop} {l : List α} {l' : List β}
    (h : List.Forall₂ R l l') : ∀ b ∈ l', ∃ a ∈ l, R a b := by
  induction h with
  | nil => simp
  | cons hr _ ih =>
    intro b hb
    rcases List.mem_cons.mp hb with rfl | hb
    · exact ⟨_, List.mem_cons_self, hr⟩
    · obtain ⟨a, ha, hr⟩ := ih b hb
      exact ⟨a, List.mem_cons_of_mem _ ha, hr⟩

theorem forall₂_comp {γ : Type} {R : α → β → Prop} {S : β → γ → Prop} {T : α → γ → Prop}
    {l : List α} {l' : List β} {l'' : List γ} (h : ∀ a b c, R a b → S b c → T a c)
    (hr : List.Forall₂ R l l') (hs : List.Forall₂ S l' l'') : List.Forall₂ T l l'' := by
  induction hr generalizing l'' with
  | nil =>
    cases hs
    exact .nil
  | cons hab _ ih =>
    cases hs with
    | cons hbc hs => exact .cons (h _ _ _ hab hbc) (ih hs)

theorem Fault.code?_eq_badDice_iff {fault : Fault} :
    fault.code? = some "DICE_PARSE_ERROR" ↔ ∃ cited flaw, fault = .badDice cited flaw := by
  cases fault <;> simp [code?]

def NeverBadDice (x : Except Fault α) : Prop := ∀ cited flaw, x ≠ .error (.badDice cited flaw)

theorem NeverBadDice.of_ok (a : α) : NeverBadDice (.ok a) := nofun

theorem NeverBadDice.bind {x : Except Fault α} {f : α → Except Fault β} (hx : NeverBadDice x)
    (hf : ∀ a, NeverBadDice (f a)) : NeverBadDice (x >>= f) := by
  intro cited flaw h
  rcases bind_eq_error_iff.mp h with h | ⟨a, _, h⟩
  · exact hx cited flaw h
  · exact hf a cited flaw h

theorem NeverBadDice.map {x : Except Fault α} (hx : NeverBadDice x) (f : α → β) :
    NeverBadDice (x.map f) :=
  fun cited flaw h => hx cited flaw (map_eq_error_iff.mp h)

theorem NeverBadDice.mapM {l : List α} {f : α → Except Fault β} (h : ∀ a, NeverBadDice (f a)) :
    NeverBadDice (l.mapM f) := by
  induction l with
  | nil => exact .of_ok _
  | cons a l ih =>
    rw [List.mapM_cons]
    exact (h a).bind fun _ => ih.bind fun _ => .of_ok _

/-- There is no room for a list, which only happens where some list is crowded. -/
def Fault.OfMemory (crowded : Prop) (fault : Fault) : Prop :=
  (fault = .beyondIndex ∨ fault = .beyondMemory) ∧ crowded

/-- There is no room for a crowded list or, where a total may be wide, for a quotient. -/
def Fault.OfSize (crowded wide : Prop) (fault : Fault) : Prop :=
  fault.OfMemory crowded ∨ fault = .quotientTooLarge ∧ wide

/-- The outcome has the property, or is one of some faults. -/
def Foretells (F : Fault → Prop) (P : α → Prop) : Except Fault α → Prop
  | .ok a => P a
  | .error fault => F fault

section Foretells

variable {F : Fault → Prop} {P P' : α → Prop} {Q : β → Prop} {x : Except Fault α}
  {f : α → Except Fault β}

theorem Foretells.bind (hx : Foretells F P x) (hf : ∀ a, P a → Foretells F Q (f a)) :
    Foretells F Q (x >>= f) := by
  cases x with
  | error fault => exact hx
  | ok a => exact hf a hx

theorem Foretells.map {g : α → β} (hx : Foretells F (fun a => Q (g a)) x) :
    Foretells F Q (x.map g) := by
  cases x <;> exact hx

theorem Foretells.mono (hx : Foretells F P x) (h : ∀ a, P a → P' a) : Foretells F P' x := by
  cases x with
  | error fault => exact hx
  | ok a => exact h a hx

theorem Foretells.and_eq (hx : Foretells F P x) : Foretells F (fun a => P a ∧ x = .ok a) x := by
  cases x with
  | error fault => exact hx
  | ok a => exact ⟨hx, rfl⟩

theorem Foretells.allow {F' : Fault → Prop} (hx : Foretells F P x) (h : ∀ fault, F fault → F' fault) :
    Foretells F' P x := by
  cases x with
  | error fault => exact h fault hx
  | ok a => exact hx

section Sizes

variable {crowded crowded' wide wide' : Prop}

theorem Foretells.crowd (hx : Foretells (Fault.OfMemory crowded) P x) (h : crowded → crowded') :
    Foretells (Fault.OfMemory crowded') P x := hx.allow fun _ => And.imp_right h

theorem Foretells.of_memory (hx : Foretells (Fault.OfMemory crowded) P x) :
    Foretells (Fault.OfSize crowded wide) P x := hx.allow fun _ => .inl

theorem Foretells.widen (hx : Foretells (Fault.OfSize crowded wide) P x)
    (hc : crowded → crowded') (hw : wide → wide') : Foretells (Fault.OfSize crowded' wide') P x :=
  hx.allow fun _ => Or.imp (And.imp_right hc) (And.imp_right hw)

/-- Where no list is crowded there is an answer. -/
theorem Foretells.exists_eq_ok_of_room (hx : Foretells (Fault.OfMemory crowded) P x)
    (h : ¬ crowded) : ∃ a, x = .ok a ∧ P a := by
  cases x with
  | error fault => exact absurd hx.2 h
  | ok a => exact ⟨a, rfl, hx⟩

end Sizes

theorem Foretells.exists_eq_ok (hx : Foretells (fun _ => False) P x) : ∃ a, x = .ok a ∧ P a := by
  cases x with
  | error fault => exact hx.elim
  | ok a => exact ⟨a, rfl, hx⟩

theorem Foretells.mapM {l : List α} {g : α → Except Fault β}
    (h : ∀ a ∈ l, Foretells F (fun _ => True) (g a)) :
    Foretells F (fun _ => True) (l.mapM g) := by
  induction l with
  | nil => trivial
  | cons a l ih =>
    rw [List.mapM_cons]
    obtain ⟨ha, hl⟩ := List.forall_mem_cons.mp h
    exact ha.bind fun b _ => (ih hl).bind fun bs _ => trivial

end Foretells

end DiceTower
