import Mathlib.Data.List.Forall2
import DiceTower.Proofs.Play.Drawing

/-! Two computations in step with each other. From related states they come to related values and
leave related states again. Two strict runs also fail alike; of others nothing is said unless both
end well. -/

namespace DiceTower

namespace Computation

variable {S T α β α' β' : Type}

def Keeps (strict : Prop) (R : S → T → Prop) (P : α → β → Prop) :
    Except Fault α × S → Except Fault β × T → Prop
  | (.ok a, s), (.ok b, t) => P a b ∧ R s t
  | (.error f, s), (.error g, t) => strict → f = g ∧ R s t
  | _, _ => ¬ strict

/-- Two computations that keep step. -/
structure InStep (strict : Prop) (R : S → T → Prop) (P : α → β → Prop) (x : Computation S α)
    (y : Computation T β) : Prop where
  keeps : ∀ s t, R s t → Keeps strict R P (x s) (y t)

variable {strict : Prop} {R : S → T → Prop} {P : α → β → Prop} {Q : α' → β' → Prop}
  {x : Computation S α} {y : Computation T β} {f : α → Computation S α'}
  {g : β → Computation T β'}

theorem Keeps.of_error_left (h : ¬ strict) (fault : Fault) (s : S) (b : Except Fault β × T) :
    Keeps strict R P (.error fault, s) b := by
  rcases b with ⟨_ | _, _⟩
  · exact fun hs => absurd hs h
  · exact h

theorem Keeps.of_error_right (h : ¬ strict) (a : Except Fault α × S) (fault : Fault) (t : T) :
    Keeps strict R P a (.error fault, t) := by
  rcases a with ⟨_ | _, _⟩
  · exact fun hs => absurd hs h
  · exact h

theorem Keeps.mono {P' : α → β → Prop} (h : ∀ a b, P a b → P' a b) {a : Except Fault α × S}
    {b : Except Fault β × T} (hk : Keeps strict R P a b) : Keeps strict R P' a b := by
  rcases a with ⟨_ | _, _⟩ <;> rcases b with ⟨_ | _, _⟩
  · exact hk
  · exact hk
  · exact hk
  · exact ⟨h _ _ hk.1, hk.2⟩

namespace InStep

theorem of_pure {a : α} {b : β} (h : P a b) :
    InStep strict R P (pure a : Computation S α) (pure b : Computation T β) :=
  ⟨fun _ _ hr => ⟨h, hr⟩⟩

theorem of_throw (fault : Fault) :
    InStep strict R P (throw fault : Computation S α) (throw fault : Computation T β) :=
  ⟨fun _ _ hr _ => ⟨rfl, hr⟩⟩

theorem of_lift (v : Except Fault α) :
    InStep strict R Eq (liftM v : Computation S α) (liftM v : Computation T α) := by
  refine ⟨fun s t hr => ?_⟩
  cases v with
  | error fault => exact fun _ => ⟨rfl, hr⟩
  | ok a => exact ⟨rfl, hr⟩

theorem of_lift_map (v : Except Fault α) (u : α → β) :
    InStep strict R (fun a b => v = .ok a ∧ b = u a) (liftM v : Computation S α)
      (liftM (v.map u) : Computation T β) := by
  refine ⟨fun s t hr => ?_⟩
  cases v with
  | error fault => exact fun _ => ⟨rfl, hr⟩
  | ok a => exact ⟨⟨rfl, rfl⟩, hr⟩

theorem mono {P' : α → β → Prop} (hx : InStep strict R P x y) (h : ∀ a b, P a b → P' a b) :
    InStep strict R P' x y := ⟨fun s t hr => (hx.keeps s t hr).mono h⟩

theorem bind (hx : InStep strict R P x y) (hf : ∀ a b, P a b → InStep strict R Q (f a) (g b)) :
    InStep strict R Q (x >>= f) (y >>= g) := by
  refine ⟨fun s t hr => ?_⟩
  have h := hx.keeps s t hr
  rw [bind_apply, bind_apply]
  generalize x s = u, y t = v at h ⊢
  rcases u with ⟨fault | a, s'⟩ <;> rcases v with ⟨fault' | b, t'⟩
  · exact h
  · exact .of_error_left h _ _ _
  · exact .of_error_right h _ _ _
  · exact (hf a b h.1).keeps s' t' h.2

theorem bind_eq {y : Computation T α} {g : α → Computation T β'}
    (hx : InStep strict R Eq x y) (hf : ∀ a, InStep strict R Q (f a) (g a)) :
    InStep strict R Q (x >>= f) (y >>= g) :=
  hx.bind fun a _ he => he ▸ hf a

theorem ite {p : Prop} [Decidable p] {x' : Computation S α} {y' : Computation T β}
    (hx : InStep strict R P x y) (hy : InStep strict R P x' y') :
    InStep strict R P (if p then x else x') (if p then y else y') := by
  split
  · exact hx
  · exact hy

theorem mapM {l : List α} {u : α → Computation S α'} {v : α → Computation T β'}
    (h : ∀ a, InStep strict R Q (u a) (v a)) :
    InStep strict R (List.Forall₂ Q) (l.mapM u) (l.mapM v) := by
  induction l with
  | nil => exact of_pure .nil
  | cons a l ih =>
    rw [List.mapM_cons, List.mapM_cons]
    exact (h a).bind fun b c hbc => ih.bind fun bs cs hbs => of_pure (.cons hbc hbs)

theorem mapM_eq {l : List α} {u : α → Computation S α'} {v : α → Computation T α'}
    (h : ∀ a, InStep strict R Eq (u a) (v a)) :
    InStep strict R Eq (l.mapM u) (l.mapM v) :=
  (mapM h).mono fun _ _ hbs => List.forall₂_eq_eq_eq ▸ hbs

theorem foldlM_eq {l : List α} {u : α' → α → Computation S α'} {v : α' → α → Computation T α'}
    (h : ∀ b a, InStep strict R Eq (u b a) (v b a)) (b : α') :
    InStep strict R Eq (l.foldlM u b) (l.foldlM v b) := by
  induction l generalizing b with
  | nil => exact of_pure rfl
  | cons a l ih => exact (h b a).bind_eq ih

theorem of_ok (hx : InStep strict R P x y) {s s' : S} {t t' : T} (hr : R s t) {a : α} {b : β}
    (ha : x s = (.ok a, s')) (hb : y t = (.ok b, t')) : P a b ∧ R s' t' := by
  have h := hx.keeps s t hr
  rw [ha, hb] at h
  exact h

/-- Strict runs that come to equal values come to the same answer. -/
theorem answer_eq {y : Computation T α} (hx : InStep True R Eq x y) {s : S} {t : T} (hr : R s t) :
    (x s).1 = (y t).1 ∧ R (x s).2 (y t).2 := by
  have h := hx.keeps s t hr
  generalize x s = u, y t = v at h ⊢
  rcases u with ⟨fault | a, s'⟩ <;> rcases v with ⟨fault' | b, t'⟩
  · exact ⟨congrArg _ (h trivial).1, (h trivial).2⟩
  · exact absurd trivial h
  · exact absurd trivial h
  · exact ⟨congrArg _ h.1, h.2⟩

end InStep

end Computation

open DiceTower.Computation

variable {σ α β : Type} {strict : Prop}

/-- Trays of which the same faces can be drawn. Strict ones differ in their records only. -/
structure Tray.Mirrors (strict : Prop) (t t' : Tray σ) : Prop where
  source : t.source = t'.source
  rest : strict → t' = { t with records := t'.records }

theorem Tray.Mirrors.of_source {t t' : Tray σ} (h : ¬ strict) (hs : t.source = t'.source) :
    t.Mirrors strict t' := ⟨hs, fun hst => absurd hst h⟩

theorem Tray.Mirrors.records {t t' : Tray σ} (h : t.Mirrors strict t') (rs rs' : List Record) :
    Tray.Mirrors strict { t with records := rs } { t' with records := rs' } := by
  refine ⟨h.source, fun hs => ?_⟩
  rw [h.rest hs]

theorem Noted.inStep_inDrawing {x : Noted α} {y : Noted β} {P : α → β → Prop} {u : Except Fault α}
    {v : Except Fault β} (hx : ∀ records, (x records).1 = u) (hy : ∀ records, (y records).1 = v)
    (h : InStep strict (Tray.Mirrors strict) P (liftM u : Drawing σ α) (liftM v : Drawing σ β)) :
    InStep strict (Tray.Mirrors strict) P (x.inDrawing : Drawing σ α) y.inDrawing := by
  refine ⟨fun t t' hr => ?_⟩
  have hkeeps := h.keeps _ _ (hr.records (x t.records).2 (y t'.records).2)
  rw [lift_apply, lift_apply, ← hx t.records, ← hy t'.records] at hkeeps
  exact hkeeps

namespace Drawing

theorem inStep_note (r r' : Record) :
    InStep strict (Tray.Mirrors strict) Eq (note r : Drawing σ Unit) (note r') :=
  Noted.inStep_inDrawing (fun _ => rfl) (fun _ => rfl) (.of_lift (.ok ()))

theorem inStep_now : InStep strict (Tray.Mirrors strict) (fun a b => strict → a = b)
    (now : Drawing σ Float) now := by
  refine ⟨fun t t' hr => ?_⟩
  refine ⟨fun hs => ?_, hr.source, fun hs => ?_⟩
  · rw [hr.rest hs]
  · rw [hr.rest hs]

theorem inStep_fresh (word : String) : InStep strict (Tray.Mirrors strict)
    (fun a b => strict → a = b) (fresh word : Drawing σ String) (fresh word) := by
  refine ⟨fun t t' hr => ?_⟩
  refine ⟨fun hs => ?_, hr.source, fun hs => ?_⟩
  · rw [hr.rest hs]
  · rw [hr.rest hs]

theorem inStep_checkTime {deadline deadline' : Option Float} (h : strict → deadline = deadline') :
    InStep strict (Tray.Mirrors strict) Eq (checkTime deadline : Drawing σ Unit)
      (checkTime deadline') := by
  by_cases hs : strict
  · cases h hs
    cases deadline with
    | none => exact .of_pure rfl
    | some time =>
      refine inStep_now.bind fun a b hab => ?_
      cases hab hs
      exact .ite (.of_throw _) (.of_pure rfl)
  · refine ⟨fun t t' hr => ?_⟩
    have hclock : ∀ (deadline : Option Float) (t : Tray σ),
        (∃ fault, (checkTime deadline t).1 = .error fault) ∨
          ∃ readings, checkTime deadline t = (.ok (), { t with readings }) := by
      intro deadline t
      cases deadline with
      | none => exact .inr ⟨t.readings, rfl⟩
      | some time =>
        rw [show checkTime (some time) = now >>= fun now =>
          (if time < now then throw .timeout else pure () : Drawing σ Unit) from rfl, bind_apply]
        by_cases hlate : time < t.clock t.readings
        · exact .inl ⟨.timeout, by simp only [now, if_pos hlate]; rfl⟩
        · exact .inr ⟨t.readings + 1, by simp only [now, if_neg hlate]; rfl⟩
    rcases hclock deadline t with ⟨fault, hx⟩ | ⟨n, hx⟩
    · rw [← Prod.eta (checkTime deadline t), hx]
      exact .of_error_left hs _ _ _
    · rcases hclock deadline' t' with ⟨fault, hy⟩ | ⟨n', hy⟩
      · rw [← Prod.eta (checkTime deadline' t'), hy]
        exact .of_error_right hs _ _ _
      · rw [hx, hy]
        exact ⟨rfl, .of_source hs hr.source⟩

variable [Source σ]

theorem inStep_ask (sides : Int) :
    InStep strict (Tray.Mirrors strict) Eq (ask sides : Drawing σ Data) (ask sides) := by
  refine ⟨fun t t' hr => ?_⟩
  unfold ask
  rw [← hr.source]
  refine ⟨rfl, rfl, fun hs => ?_⟩
  rw [hr.rest hs]

theorem inStep_draw {deadline deadline' : Option Float} (h : strict → deadline = deadline')
    (sides : Int) : InStep strict (Tray.Mirrors strict) Eq (draw deadline sides : Drawing σ Int)
      (draw deadline' sides) := by
  refine (inStep_checkTime h).bind_eq fun _ => (inStep_ask sides).bind_eq fun value => ?_
  split
  · exact .of_pure rfl
  · exact .of_throw _

end Drawing

end DiceTower
