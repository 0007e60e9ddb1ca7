import DiceTower.Proofs.Engine.Execution
import DiceTower.Proofs.Number.Rounding
import DiceTower.Session.Basic

/-! What the history keeps over a run of calls: the newest results of the rolls that were made since
it was cleared. A call that fails leaves it as it was, at whatever draw it fails. -/

namespace DiceTower

open DiceTower.Computation Number

inductive Call where
  | execute (d : Definition)
  | analyze (d : Definition)
  | criticalDamage (w : Wording)
  | criticalTerm (t : Term)
  | clear

inductive Answer where
  | result (r : RollResult)
  | preview (p : Preview Float)
  | damage (w : Wording)
  | term (t : Term)
  | cleared

namespace Answer

def result? : Except Fault Answer → Option RollResult
  | .ok (.result r) => some r
  | _ => none

def isCleared : Except Fault Answer → Bool
  | .ok .cleared => true
  | _ => false

def newest (answers : List (Except Fault Answer)) : List RollResult :=
  (answers.reverse.takeWhile fun a => !isCleared a).filterMap result?

variable {answers : List (Except Fault Answer)} {answer : Except Fault Answer}

theorem newest_append_singleton : newest (answers ++ [answer]) =
    if isCleared answer then [] else (result? answer).toList ++ newest answers := by
  unfold newest
  rw [List.reverse_append, List.reverse_singleton, List.singleton_append, List.takeWhile_cons]
  cases isCleared answer
  · cases h : result? answer <;> simp [h]
  · rfl

end Answer

namespace Session

variable {σ : Type} [Source σ]

def answer (s : Session) : Call → Play σ Answer
  | .execute d => do
    let r ← s.engine.execute d
    pure (.result r)
  | .analyze d => do
    let p ← (s.engine.analyze d).inPlay
    pure (.preview p)
  | .criticalDamage w => do
    let w ← (s.criticalWording w : Except Fault Wording)
    pure (.damage w)
  | .criticalTerm t => pure (.term (t.critical s.engine.rules))
  | .clear => do
    modify fun table => { table with history := table.history.clear }
    pure .cleared

def serve (s : Session) : List Call → Table σ → List (Except Fault Answer) × Table σ
  | [], table => ([], table)
  | c :: calls, table =>
    let (first, table) := s.answer c table
    let (answers, table) := s.serve calls table
    (first :: answers, table)

end Session

section Step

variable {σ : Type} [Source σ] {s : Session} {d : Definition} {c : Call} {table : Table σ}

theorem Engine.history_of_execute_eq_error {e : Engine} {fault : Fault} {table' : Table σ}
    (h : e.execute d table = (.error fault, table')) : table'.history = table.history := by
  obtain ⟨tray, _, rfl⟩ := roll_of_execute_eq_error h
  rfl

/-- What an answer makes of the history: a roll that is made puts its result first, and a clearing
leaves nothing. Other calls and those that fail leave the history as it was. -/
def History.Follows (h : History) : Except Fault Answer → History → Prop
  | .ok (.result r), h' => ∃ id time, h' = h.append ⟨id, time, r⟩
  | .ok .cleared, h' => h' = h.clear
  | _, h' => h' = h

theorem Session.follows_answer (s : Session) (c : Call) (table : Table σ) :
    table.history.Follows (s.answer c table).1 (s.answer c table).2.history := by
  cases c with
  | execute d =>
    simp only [answer, bind_apply]
    rcases hx : s.engine.execute d table with ⟨fault | r, table'⟩
    · exact Engine.history_of_execute_eq_error hx
    · obtain ⟨_, _, id, _, _, hr⟩ := Engine.roll_of_execute hx
      exact ⟨id, table.time, hr⟩
  | analyze d =>
    simp only [answer, bind_apply]
    have hkept : (((s.engine.analyze d : Noted (Preview Float)).inPlay : Play σ _) table).2.history =
        table.history := rfl
    generalize ((s.engine.analyze d : Noted (Preview Float)).inPlay : Play σ _) table = x at hkept ⊢
    rcases x with ⟨fault | p, table'⟩
    · exact hkept
    · exact hkept
  | criticalDamage w =>
    simp only [answer, bind_apply, lift_apply]
    cases s.criticalWording w <;> rfl
  | criticalTerm t => rfl
  | clear => rfl

theorem History.Follows.limit_eq {h h' : History} {answer : Except Fault Answer}
    (hf : h.Follows answer h') : h'.limit = h.limit := by
  unfold Follows at hf
  split at hf
  · obtain ⟨_, _, rfl⟩ := hf
    rfl
  · rw [hf]
    rfl
  · rw [hf]

theorem History.Follows.results_eq {h h' : History} {answer : Except Fault Answer}
    (hf : h.Follows answer h') : h'.results =
      if Answer.isCleared answer then []
      else ((Answer.result? answer).toList ++ h.results).take h.limit := by
  have hlength : h.results.length ≤ h.limit := by simpa [results] using h.length_le
  unfold Follows at hf
  split at hf
  · obtain ⟨_, _, rfl⟩ := hf
    simp [Answer.isCleared, Answer.result?, results, entries_append, List.map_take]
  · rw [hf]
    simp [Answer.isCleared, results, entries_clear]
  · next hr hc =>
    have hcleared : Answer.isCleared answer = false := by
      unfold Answer.isCleared
      split
      · exact absurd rfl hc
      · rfl
    have hresult : Answer.result? answer = none := by
      unfold Answer.result?
      split
      · exact absurd rfl (hr _)
      · rfl
    rw [hf, hcleared, hresult]
    simp [List.take_of_length_le hlength]

theorem History.Follows.eq_of_error {h h' : History} {fault : Fault}
    (hf : h.Follows (.error fault) h') : h' = h := hf

end Step

section Run

variable {σ : Type} [Source σ] {s : Session} {table : Table σ}

theorem take_append_take {α : Type} (xs ys : List α) (n : Nat) :
    (xs ++ ys.take n).take n = (xs ++ ys).take n := by
  rw [List.take_append, List.take_append, List.take_take]
  simp

theorem Session.results_serve {calls : List Call} {earlier : List (Except Fault Answer)}
    (h : table.history.results = (Answer.newest earlier).take table.history.limit) :
    (s.serve calls table).2.history.results =
      (Answer.newest (earlier ++ (s.serve calls table).1)).take table.history.limit := by
  induction calls generalizing table earlier with
  | nil => simpa [serve] using h
  | cons c calls ih =>
    have hf := s.follows_answer c table
    have hlimit := hf.limit_eq
    have hstep : (s.answer c table).2.history.results =
        (Answer.newest (earlier ++ [(s.answer c table).1])).take
          (s.answer c table).2.history.limit := by
      rw [hf.results_eq, hlimit, Answer.newest_append_singleton, h]
      split
      · exact List.take_nil.symm
      · exact take_append_take ..
    have hrest := ih hstep
    rw [hlimit, List.append_assoc] at hrest
    exact hrest

end Run

section Statistics

variable {h : History}

structure Statistics.Counts (st : Statistics) (results : List RollResult) : Prop where
  rolls : st.rolls = results.length
  criticals : st.criticals = results.countP (·.outcome.criticalSuccess)
  failures : st.failures = results.countP (·.outcome.criticalFailure)

/-- The mean of the totals of some results is beyond the range of double precision. -/
def VastMean (results : List RollResult) : Prop :=
  results ≠ [] ∧
    beyond * results.length ≤ (Number.sum (results.map (·.outcome.total))).natAbs

theorem History.foretells_statistics (h : History) :
    Foretells (fun fault => fault = .quotientTooLarge ∧ VastMean h.results)
      (fun st => st.Counts h.results ∧ ¬ VastMean h.results) h.statistics := by
  have hlength : h.entries.length = h.results.length := by simp [results]
  unfold statistics
  by_cases hnil : h.entries = []
  · have hresults : h.results = [] := by simp [results, hnil]
    rw [if_pos (by simp [hnil]), hresults]
    exact ⟨⟨rfl, rfl, rfl⟩, fun hvast => hvast.1 rfl⟩
  · have hpos : 0 < h.results.length := by
      rw [← hlength]
      exact List.length_pos_iff.mpr hnil
    have hne : h.results ≠ [] := List.ne_nil_of_length_pos hpos
    have hmean := @nearest?_eq_none_iff (decide (Number.sum (h.results.map (·.outcome.total)) < 0))
      (Number.sum (h.results.map (·.outcome.total))).natAbs (h.results.length) hpos
    rw [if_neg (by simpa using hnil)]
    unfold average
    rw [List.length_map]
    split
    · next x hx =>
      refine ⟨⟨hlength, ?_, ?_⟩, fun hvast => ?_⟩
      · exact List.countP_eq_length_filter.symm
      · exact List.countP_eq_length_filter.symm
      · rw [hmean.mpr hvast.2] at hx
        cases hx
    · next hx => exact ⟨rfl, hne, hmean.mp hx⟩

/-- A history keeps some results, the newest first, and tells of them alone. -/
structure History.Keeps (h : History) (results : List RollResult) : Prop where
  kept : h.results = results
  /-- The last roll of a type is the first of the results that has it. -/
  last : ∀ kind, h.last? (some kind) = results.find? (·.outcome.metadata.kind = kind)
  newest : h.last? none = results.head?
  /-- The counts are those over the results, unless their mean is beyond double precision. -/
  statistics : Foretells (fun fault => fault = .quotientTooLarge ∧ VastMean results)
    (fun st => st.Counts results ∧ ¬ VastMean results) h.statistics

theorem History.keeps_results (h : History) : h.Keeps h.results := by
  refine ⟨rfl, fun kind => rfl, ?_, h.foretells_statistics⟩
  unfold last?
  cases h.results <;> simp

theorem History.eq_of_ofLimit {limit : Int} {start : History} (h : ofLimit limit = .ok start) :
    start = { limit := limit.toNat } := by
  simp only [ofLimit] at h
  split at h
  · cases h
  · split at h
    · cases h
    · exact (Except.ok.inj h).symm

end Statistics

namespace Session

variable {σ : Type} [Source σ]

/-- After any calls on a new history it keeps the newest results of the rolls that were made since it
was cleared, as many as its limit allows. A call that fails leaves the history as it was. -/
theorem history_of_serve {limit : Int} {start : History}
    (hstart : History.ofLimit limit = .ok start) (s : Session) {calls : List Call}
    {table table' : Table σ} {answers : List (Except Fault Answer)}
    (h : s.serve calls { table with history := start } = (answers, table')) :
    table'.history.Keeps ((Answer.newest answers).take limit.toNat) ∧
    ∀ c (before : Table σ) fault, (s.answer c before).1 = .error fault →
      (s.answer c before).2.history = before.history := by
  obtain rfl := History.eq_of_ofLimit hstart
  have hempty : ({ limit := limit.toNat } : History).results =
      (Answer.newest []).take limit.toNat := by
    simp [Answer.newest, History.results]
  have hrun := @Session.results_serve _ _ s { table with history := { limit := limit.toNat } } calls
    [] hempty
  rw [h, List.nil_append] at hrun
  refine ⟨hrun ▸ table'.history.keeps_results, fun c before fault hf => ?_⟩
  have hfollows := s.follows_answer c before
  rw [hf] at hfollows
  exact hfollows.eq_of_error

def fist : Definition where
  id := "fist"
  kind := .attack
  wording := .text "1d20"

def smudged : Definition where
  id := "smudged"
  wording := .text "1d"

def visit : List Call :=
  [.execute fist, .clear, .execute fist, .execute smudged, .analyze smudged, .execute fist]

theorem history_of_serve_visit : ∃ start answers table', History.ofLimit 1 = .ok start ∧
    serve {} visit { Table.opening [11, 12, 20] with history := start } = (answers, table') ∧
    table'.history.Keeps ((Answer.newest answers).take (1 : Int).toNat) ∧
    ∀ c (before : Table Script) fault, (answer {} c before).1 = .error fault →
      (answer {} c before).2.history = before.history := by
  have hstart : History.ofLimit 1 = .ok { limit := 1 } := rfl
  rcases h : serve {} visit { Table.opening [11, 12, 20] with history := { limit := 1 } } with
    ⟨answers, table'⟩
  exact ⟨_, answers, table', hstart, h, history_of_serve hstart {} h⟩

/-- Two results follow the clearing, and one is kept. -/
example : let run := serve {} visit { Table.opening [11, 12, 20] with history := { limit := 1 } }
    (Answer.newest run.1).map (·.outcome.total) = [20, 12] ∧
      run.2.history.results.map (·.outcome.total) = [20] ∧
      run.2.history.statistics.toOption.map (·.criticals) = some 1 := by
  decide +kernel

def vastBonus : Modifier where
  id := "vast"
  name := "Vast"
  source := .homebrew
  kind := .flat
  amount := .whole (tenTo 310)

def vastFist : Definition where
  id := "vast"
  kind := .attack
  wording := .text "1d20"
  modifiers := [vastBonus]

/-- The roll is made and kept, but there are no statistics to count it. -/
theorem not_counts_of_vastFist :
    (serve {} [.execute vastFist] (Table.opening [10])).2.history.results.length = 1 ∧
    ¬ ∃ st, (serve {} [.execute vastFist] (Table.opening [10])).2.history.statistics = .ok st ∧
      st.Counts (serve {} [.execute vastFist] (Table.opening [10])).2.history.results := by
  have hnone :
      (serve {} [.execute vastFist] (Table.opening [10])).2.history.statistics.toOption.isNone =
        true := by decide +kernel
  refine ⟨by decide +kernel, ?_⟩
  rintro ⟨st, hst, _⟩
  rw [hst] at hnone
  cases hnone

end Session

end DiceTower
