import DiceTower.Proofs.Notation.Grammar
import DiceTower.Proofs.Outcomes
import DiceTower.Notation.Reading

/-! Reading a text one token at a time accepts the texts of the grammar and no others. -/

namespace DiceTower

open Text

theorem readNumber_eq_ok_iff_digitRun {ds : List Char} {n : Int} (hn : ds ≠ [])
    (hd : ∀ c ∈ ds, isDigit c = true) : readNumber ds = .ok n ↔ DigitRun ds n := by
  rw [readNumber_eq_ok_iff]
  exact ⟨fun h => ⟨hn, hd, h.1, h.2⟩, fun h => ⟨h.length_le, h.value⟩⟩

theorem readNumber_or_eq_ok_iff {ds : List Char} {usual n : Int}
    (hd : ∀ c ∈ ds, isDigit c = true) :
    (if ds = [] then .ok usual else readNumber ds) = .ok n ↔ DigitsOr usual ds n := by
  by_cases hn : ds = []
  · constructor
    · intro h
      simp only [hn, if_true, Except.ok.injEq] at h
      exact .inl ⟨hn, h.symm⟩
    · rintro (⟨_, rfl⟩ | h)
      · simp [hn]
      · exact absurd hn h.ne_nil
  · rw [if_neg hn, readNumber_eq_ok_iff_digitRun hn hd]
    exact ⟨.inr, fun h => h.resolve_left fun h => hn h.1⟩

namespace Tail

def extend (tail : Tail) (ops : List Operation) (n : Int) : Tail :=
  ⟨tail.operations ++ ops, tail.modifier + n⟩

def explosions (tail : Tail) : Nat := tail.operations.countP (·.kind = .explode)

theorem extend_nil (tail : Tail) : tail.extend [] 0 = tail := by simp [extend]

theorem extend_extend (tail : Tail) (ops ops' : List Operation) (n n' : Int) :
    (tail.extend ops n).extend ops' n' = tail.extend (ops ++ ops') (n + n') := by
  simp [extend, Int.add_assoc]

theorem explosions_extend (tail : Tail) (ops : List Operation) (n : Int) :
    (tail.extend ops n).explosions = tail.explosions + ops.countP (·.kind = .explode) := by
  simp [explosions, extend]

theorem push_eq_extend (tail : Tail) (kind : OperationKind) (n : Int) (recursive : Bool) :
    tail.push kind n recursive = tail.extend [⟨kind, .one n, recursive⟩] 0 := by
  simp [push, extend]

variable {tail tail' : Tail} {t : Token} {sides : Int}

theorem readFace_eq_ok_iff {n : Int} (hn : t.digits ≠ []) (hd : ∀ c ∈ t.digits, isDigit c = true) :
    readFace t sides = .ok n ↔ DigitRun t.digits n ∧ 1 ≤ n ∧ n ≤ sides := by
  rw [readFace, bind_eq_ok_iff]
  simp only [readNumber_eq_ok_iff_digitRun hn hd]
  constructor
  · rintro ⟨m, hm, h⟩
    split at h
    · next hb => cases h; exact ⟨hm, hb⟩
    · cases h
  · rintro ⟨hm, hb⟩
    exact ⟨n, hm, if_pos hb⟩

theorem addNumber_eq_ok_iff {sign : Int} (hd : ∀ c ∈ t.digits, isDigit c = true) :
    tail.addNumber t sign = .ok tail' ↔
      ∃ n, DigitRun t.digits n ∧ tail' = tail.extend [] (sign * n) := by
  unfold addNumber
  by_cases hn : t.digits = []
  · rw [if_pos hn]
    exact ⟨nofun, fun ⟨_, h, _⟩ => absurd hn h.ne_nil⟩
  · rw [if_neg hn, map_eq_ok_iff]
    simp only [readNumber_eq_ok_iff_digitRun hn hd]
    exact exists_congr fun n => and_congr_right fun _ => by
      rw [eq_comm (b := tail')]; simp [extend]

theorem addSelection_eq_ok_iff {kind : OperationKind} (hd : ∀ c ∈ t.digits, isDigit c = true) :
    tail.addSelection t kind = .ok tail' ↔ ∃ n, DigitsOr 1 t.digits n ∧ 1 ≤ n ∧
      tail' = tail.extend [⟨kind, .one n, false⟩] 0 := by
  have he : tail.addSelection t kind =
      (if t.digits = [] then .ok 1 else readNumber t.digits) >>= fun n =>
        if n < 1 then .error (.missingCount t.mark) else .ok (tail.push kind n) := by
    unfold addSelection
    split <;> rfl
  rw [he, bind_eq_ok_iff]
  simp only [readNumber_or_eq_ok_iff hd, push_eq_extend]
  refine exists_congr fun n => and_congr_right fun _ => ?_
  by_cases hn : n < 1
  · rw [if_pos hn]
    exact ⟨nofun, fun h => absurd h.1 (by omega)⟩
  · rw [if_neg hn, Except.ok.injEq, eq_comm]
    exact ⟨fun h => ⟨by omega, h⟩, fun h => h.2⟩

theorem addReroll_eq_ok_iff {recursive : Bool} (hd : ∀ c ∈ t.digits, isDigit c = true) :
    tail.addReroll t sides recursive = .ok tail' ↔ ∃ n, (DigitRun t.digits n ∧ 1 ≤ n ∧ n ≤ sides) ∧
      tail.extend [⟨.reroll, .one n, recursive⟩] 0 = tail' := by
  unfold addReroll
  by_cases hn : t.digits = []
  · rw [if_pos hn]
    exact ⟨nofun, fun ⟨_, h, _⟩ => absurd hn h.1.ne_nil⟩
  · rw [if_neg hn, map_eq_ok_iff]
    simp only [readFace_eq_ok_iff hn hd, push_eq_extend]

theorem addClamp_eq_ok_iff {kind : OperationKind} (hd : ∀ c ∈ t.digits, isDigit c = true) :
    tail.addClamp t sides kind = .ok tail' ↔ ∃ n, (DigitRun t.digits n ∧ 1 ≤ n ∧ n ≤ sides) ∧
      tail.extend [⟨kind, .one n, false⟩] 0 = tail' := by
  unfold addClamp
  by_cases hn : t.digits = []
  · rw [if_pos hn]
    exact ⟨nofun, fun ⟨_, h, _⟩ => absurd hn h.1.ne_nil⟩
  · rw [if_neg hn, map_eq_ok_iff]
    simp only [readFace_eq_ok_iff hn hd, push_eq_extend]

theorem addExplosion_eq_ok_iff (hd : ∀ c ∈ t.digits, isDigit c = true) :
    tail.addExplosion t sides = .ok tail' ↔ tail.explosions = 0 ∧
      ∃ n, (t.digits = [] ∧ n = sides ∨ DigitRun t.digits n ∧ 1 ≤ n ∧ n ≤ sides) ∧
        tail.extend [⟨.explode, .one n, false⟩] 0 = tail' := by
  have he : tail.operations.any (·.kind = .explode) = true ↔ tail.explosions ≠ 0 := by
    simp [explosions]
  unfold addExplosion
  by_cases h : tail.explosions = 0
  · rw [if_neg (by simpa [h] using he.not)]
    by_cases hn : t.digits = []
    · rw [if_pos hn, Except.ok.injEq, push_eq_extend]
      constructor
      · exact fun h' => ⟨h, sides, .inl ⟨hn, rfl⟩, h'⟩
      · rintro ⟨_, n, ⟨_, rfl⟩ | hr, h'⟩
        · exact h'
        · exact absurd hn hr.1.ne_nil
    · rw [if_neg hn, map_eq_ok_iff]
      simp only [readFace_eq_ok_iff hn hd, push_eq_extend, h, hn, false_and, false_or, true_and]
  · rw [if_pos (he.mpr h)]
    exact ⟨nofun, fun h' => absurd h'.1 h⟩

theorem piece_of_add (hd : ∀ c ∈ t.digits, isDigit c = true) (h : tail.add sides t = .ok tail') :
    ∃ ops n, Piece sides t.mark t.digits ops n ∧ tail' = tail.extend ops n := by
  obtain ⟨m, ds⟩ := t
  cases m <;> simp only [add] at h
  case keepHighest | keepLowest | dropHighest | dropLowest =>
    obtain ⟨n, hn, h1, rfl⟩ := (addSelection_eq_ok_iff hd).mp h
    exact ⟨_, _, .selection rfl hn h1, rfl⟩
  case rerollUntil =>
    obtain ⟨n, ⟨hn, h1, hs⟩, rfl⟩ := (addReroll_eq_ok_iff hd).mp h
    exact ⟨_, _, .rerollUntil hn h1 hs, rfl⟩
  case reroll =>
    obtain ⟨n, ⟨hn, h1, hs⟩, rfl⟩ := (addReroll_eq_ok_iff hd).mp h
    exact ⟨_, _, .reroll hn h1 hs, rfl⟩
  case minimum | maximum =>
    obtain ⟨n, ⟨hn, h1, hs⟩, rfl⟩ := (addClamp_eq_ok_iff hd).mp h
    exact ⟨_, _, .bound rfl hn h1 hs, rfl⟩
  case explode =>
    obtain ⟨_, n, ⟨rfl, rfl⟩ | ⟨hn, h1, hs⟩, rfl⟩ := (addExplosion_eq_ok_iff hd).mp h
    · exact ⟨_, _, .explodeHighest, rfl⟩
    · exact ⟨_, _, .explode hn h1 hs, rfl⟩
  case plus =>
    obtain ⟨n, hn, rfl⟩ := (addNumber_eq_ok_iff hd).mp h
    exact ⟨_, _, .plus hn, by simp⟩
  case minus =>
    obtain ⟨n, hn, rfl⟩ := (addNumber_eq_ok_iff hd).mp h
    exact ⟨_, _, .minus hn, by simp⟩

theorem add_of_piece {m : Mark} {ds : List Char} {ops : List Operation} {n : Int}
    (h : Piece sides m ds ops n) (hx : (tail.extend ops n).explosions ≤ 1) :
    tail.add sides ⟨m, ds⟩ = .ok (tail.extend ops n) := by
  have hd := h.isDigit
  cases h with
  | @selection m kind ds n hm hn h1 =>
    cases m <;> cases hm <;> exact (addSelection_eq_ok_iff hd).mpr ⟨n, hn, h1, rfl⟩
  | reroll hn h1 hs => exact (addReroll_eq_ok_iff hd).mpr ⟨_, ⟨hn, h1, hs⟩, rfl⟩
  | rerollUntil hn h1 hs => exact (addReroll_eq_ok_iff hd).mpr ⟨_, ⟨hn, h1, hs⟩, rfl⟩
  | explodeHighest =>
    rw [explosions_extend] at hx
    exact (addExplosion_eq_ok_iff hd).mpr ⟨by simpa using hx, _, .inl ⟨rfl, rfl⟩, rfl⟩
  | explode hn h1 hs =>
    rw [explosions_extend] at hx
    exact (addExplosion_eq_ok_iff hd).mpr ⟨by simpa using hx, _, .inr ⟨hn, h1, hs⟩, rfl⟩
  | @bound m kind ds n hm hn h1 hs =>
    cases m <;> cases hm <;> exact (addClamp_eq_ok_iff hd).mpr ⟨n, ⟨hn, h1, hs⟩, rfl⟩
  | @plus ds n hn => exact (addNumber_eq_ok_iff hd).mpr ⟨n, hn, by simp⟩
  | @minus ds n hn => exact (addNumber_eq_ok_iff hd).mpr ⟨n, hn, by simp⟩

theorem explosions_le_of_add (hd : ∀ c ∈ t.digits, isDigit c = true)
    (hx : tail.explosions ≤ 1) (h : tail.add sides t = .ok tail') : tail'.explosions ≤ 1 := by
  obtain ⟨ops, n, hp, rfl⟩ := piece_of_add hd h
  rw [explosions_extend]
  obtain ⟨m, ds⟩ := t
  cases hp with
  | selection hm _ _ => cases m <;> cases hm <;> simpa using hx
  | bound hm _ _ _ => cases m <;> cases hm <;> simpa using hx
  | explodeHighest => have := ((addExplosion_eq_ok_iff hd).mp h).1; simp [this]
  | explode _ _ _ => have := ((addExplosion_eq_ok_iff hd).mp h).1; simp [this]
  | _ => simpa using hx

end Tail

theorem Mark.read?_chars_append {m : Mark} {cs : List Char}
    (h : m = .reroll → ∀ c ∈ cs.head?, c ≠ 'r') : read? (m.chars ++ cs) = some (m, cs) := by
  cases m with
  | reroll =>
    cases cs with
    | nil => rfl
    | cons c cs =>
      have hc : c ≠ 'r' := h rfl c (by simp)
      unfold chars read?
      split <;> simp_all
  | _ => rfl

theorem Token.read?_piece {sides n : Int} {m : Mark} {ds rest : List Char} {ops : List Operation}
    (h : Piece sides m ds ops n) (hr : EndsDigits rest) :
    read? (m.chars ++ (ds ++ rest)) = some (⟨m, ds⟩, rest) := by
  have hm : Mark.read? (m.chars ++ (ds ++ rest)) = some (m, ds ++ rest) := by
    apply Mark.read?_chars_append
    rintro rfl c hc rfl
    cases h with
    | selection hm _ _ => cases hm
    | bound hm _ _ _ => cases hm
    | reroll hd _ _ =>
      obtain ⟨d, ds, rfl⟩ := List.exists_cons_of_ne_nil hd.ne_nil
      have hc : d = 'r' := by simpa using hc
      have := hd.isDigit d (by simp)
      rw [hc] at this
      exact absurd this (by decide)
  rw [read?, hm]
  simp [takeWhile_isDigit_append h.isDigit hr, dropWhile_isDigit_append h.isDigit hr]

theorem Token.isDigit_of_read? {t : Token} {cs rest : List Char} (h : read? cs = some (t, rest)) :
    ∀ c ∈ t.digits, isDigit c = true := by
  obtain ⟨⟨m, ds⟩, _, he⟩ := Option.map_eq_some_iff.mp h
  cases he
  exact fun c hc => isDigit_of_mem_takeWhile hc

theorem Token.eq_of_read? {t : Token} {cs rest : List Char} (h : read? cs = some (t, rest)) :
    cs = t.mark.chars ++ (t.digits ++ rest) := by
  obtain ⟨⟨m, ds⟩, hm, he⟩ := Option.map_eq_some_iff.mp h
  cases he
  simpa using Mark.eq_of_read? hm

namespace Tail

variable {tail tail' : Tail} {sides : Int}

theorem readFrom_of_read? {t : Token} {cs rest : List Char}
    (h : Token.read? cs = some (t, rest)) :
    tail.readFrom sides cs = tail.add sides t >>= fun tail => tail.readFrom sides rest := by
  have hn : cs ≠ [] := by
    rintro rfl
    cases h
  rw [readFrom, if_neg hn]
  split
  · next h' => rw [h] at h'; cases h'
  · next h' => rw [h] at h'; cases h'; rfl

theorem pieces_of_readFrom {cs : List Char} (hx : tail.explosions ≤ 1)
    (h : tail.readFrom sides cs = .ok tail') :
    ∃ ops n, Pieces sides cs ops n ∧ tail' = tail.extend ops n ∧ tail'.explosions ≤ 1 := by
  induction hl : cs.length using Nat.strong_induction_on generalizing cs tail with
  | h l ih =>
    subst hl
    by_cases hn : cs = []
    · subst hn
      rw [readFrom_nil] at h
      cases h
      exact ⟨[], 0, .nil, (extend_nil _).symm, hx⟩
    · cases ht : Token.read? cs with
      | none =>
        rw [readFrom, if_neg hn] at h
        split at h
        · cases h
        · next h' => rw [ht] at h'; cases h'
      | some p =>
        obtain ⟨t, rest⟩ := p
        rw [readFrom_of_read? ht] at h
        obtain ⟨tail₁, ha, hr⟩ := bind_eq_ok_iff.mp h
        have hd := Token.isDigit_of_read? ht
        have hx₁ := explosions_le_of_add hd hx ha
        obtain ⟨ops, n, hp, rfl⟩ := piece_of_add hd ha
        obtain ⟨ops', n', hs, rfl, hx'⟩ := ih _ (Token.length_lt_of_read? ht) hx₁ hr rfl
        refine ⟨ops ++ ops', n + n', ?_, extend_extend .., hx'⟩
        rw [Token.eq_of_read? ht]
        exact .cons hp hs

theorem readFrom_of_pieces {cs : List Char} {ops : List Operation} {n : Int}
    (h : Pieces sides cs ops n) (hx : (tail.extend ops n).explosions ≤ 1) :
    tail.readFrom sides cs = .ok (tail.extend ops n) := by
  induction h generalizing tail with
  | nil => rw [readFrom_nil, extend_nil]
  | @cons m ds cs ops ops' n n' hp hs ih =>
    have hx' : (tail.extend ops n).explosions ≤ 1 := by
      rw [explosions_extend] at hx ⊢
      rw [List.countP_append] at hx
      omega
    rw [readFrom_of_read? (Token.read?_piece hp hs.endsDigits), add_of_piece hp hx',
      ← extend_extend]
    rw [← extend_extend] at hx
    exact ih hx

theorem read_eq_ok_iff {cs : List Char} {tail : Tail} :
    read sides cs = .ok tail ↔
      Pieces sides cs tail.operations tail.modifier ∧ Compatible tail.operations := by
  rw [read, bind_eq_ok_iff]
  constructor
  · rintro ⟨tail', hr, h⟩
    obtain ⟨ops, n, hp, rfl, hx⟩ := pieces_of_readFrom (by simp [explosions]) hr
    split at h
    · cases h
    · next hc =>
      cases h
      have hp' : Pieces sides cs (extend {} ops n).operations (extend {} ops n).modifier := by
        simpa [extend] using hp
      rw [hp'.single.clampsAgree?_eq_false_iff, not_not] at hc
      exact ⟨hp', hx, hc⟩
  · rintro ⟨hp, hx, hc⟩
    have he : extend {} tail.operations tail.modifier = tail := by simp [extend]
    refine ⟨tail, ?_, if_neg ?_⟩
    · rw [readFrom_of_pieces hp (by rw [he]; exact hx), he]
    · rwa [hp.single.clampsAgree?_eq_false_iff, not_not]

end Tail

theorem checkModifier_eq_ok_iff {limits : Limits} {n : Int} {u : Unit} :
    checkModifier limits n = .ok u ↔ (n.natAbs : Int) ≤ limits.modifier := by
  unfold checkModifier
  split
  · exact ⟨nofun, fun h => by omega⟩
  · exact ⟨fun _ => by omega, fun _ => rfl⟩

theorem flatNumber?_minus (ds : List Char) :
    flatNumber? ('-' :: ds) = if ds ≠ [] ∧ ds.all isDigit then some (true, ds) else none := rfl

theorem flatNumber?_plus (ds : List Char) :
    flatNumber? ('+' :: ds) = if ds ≠ [] ∧ ds.all isDigit then some (false, ds) else none := rfl

theorem flatNumber?_unsigned {cs : List Char} (hm : ∀ ds, cs ≠ '-' :: ds)
    (hp : ∀ ds, cs ≠ '+' :: ds) :
    flatNumber? cs = if cs ≠ [] ∧ cs.all isDigit then some (false, cs) else none := by
  rw [flatNumber?]
  · exact hm
  · exact hp

theorem sign_of_flatNumber? {cs ds : List Char} {negative : Bool}
    (h : flatNumber? cs = some (negative, ds)) :
    ∃ sign, Sign sign (if negative then -1 else 1) ∧ cs = sign ++ ds ∧ ds ≠ [] ∧
      ∀ c ∈ ds, isDigit c = true := by
  by_cases hm : ∃ ds, cs = '-' :: ds
  · obtain ⟨ds', rfl⟩ := hm
    rw [flatNumber?_minus] at h
    split at h
    · next hd => cases h; exact ⟨['-'], .minus, rfl, hd.1, List.all_eq_true.mp hd.2⟩
    · cases h
  · by_cases hp : ∃ ds, cs = '+' :: ds
    · obtain ⟨ds', rfl⟩ := hp
      rw [flatNumber?_plus] at h
      split at h
      · next hd => cases h; exact ⟨['+'], .plus, rfl, hd.1, List.all_eq_true.mp hd.2⟩
      · cases h
    · rw [flatNumber?_unsigned (fun ds e => hm ⟨ds, e⟩) fun ds e => hp ⟨ds, e⟩] at h
      split at h
      · next hd => cases h; exact ⟨[], .none, rfl, hd.1, List.all_eq_true.mp hd.2⟩
      · cases h

theorem flatNumber?_of_sign {sign ds : List Char} {s : Int} (hs : Sign sign s) (hn : ds ≠ [])
    (hd : ∀ c ∈ ds, isDigit c = true) :
    ∃ negative : Bool, flatNumber? (sign ++ ds) = some (negative, ds) ∧
      s = if negative then -1 else 1 := by
  have hall : ds ≠ [] ∧ ds.all isDigit = true := ⟨hn, List.all_eq_true.mpr hd⟩
  cases hs with
  | minus => exact ⟨true, by rw [List.singleton_append, flatNumber?_minus, if_pos hall], rfl⟩
  | plus => exact ⟨false, by rw [List.singleton_append, flatNumber?_plus, if_pos hall], rfl⟩
  | none =>
    have hhead : ∀ c ds', isDigit c = false → ds ≠ c :: ds' := by
      rintro c ds' hc rfl
      have := hd c (by simp)
      rw [hc] at this
      cases this
    refine ⟨false, ?_, rfl⟩
    rw [List.nil_append, flatNumber?_unsigned (fun ds' => hhead '-' ds' (by decide))
      (fun ds' => hhead '+' ds' (by decide)), if_pos hall]

theorem flatNumber?_of_mem_d {cs : List Char} (h : 'd' ∈ cs) : flatNumber? cs = none := by
  cases hf : flatNumber? cs with
  | none => rfl
  | some p =>
    obtain ⟨negative, ds⟩ := p
    obtain ⟨sign, hs, rfl, _, hd⟩ := sign_of_flatNumber? hf
    rcases List.mem_append.mp h with h | h
    · generalize (if negative then -1 else 1 : Int) = s at hs
      cases hs <;> simp at h
    · exact absurd (hd _ h) (by decide)

namespace Pool

variable {limits : Limits} {p : Pool}

theorem checkSize_eq_ok_iff {count sides : Int} {u : Unit} :
    checkSize limits count sides = .ok u ↔
      1 ≤ count ∧ count ≤ limits.dice ∧ 1 ≤ sides ∧ sides ≤ limits.sides := by
  unfold checkSize
  split
  · exact ⟨nofun, fun h => by omega⟩
  · split
    · exact ⟨nofun, fun h => by omega⟩
    · split
      · exact ⟨nofun, fun h => by omega⟩
      · split
        · exact ⟨nofun, fun h => by omega⟩
        · exact ⟨fun _ => by omega, fun _ => rfl⟩

theorem parseFlat_eq_ok_iff {negative : Bool} {ds : List Char} (hn : ds ≠ [])
    (hd : ∀ c ∈ ds, isDigit c = true) :
    parseFlat limits negative ds = .ok p ↔ ∃ n, DigitRun ds n ∧
      ((((if negative then -1 else 1) * n - 1).natAbs : Int) ≤ limits.modifier ∧
      ⟨1, 1, (if negative then -1 else 1) * n - 1, []⟩ = p) := by
  rw [parseFlat, bind_eq_ok_iff]
  simp only [readNumber_eq_ok_iff_digitRun hn hd, bind_eq_ok_iff, checkModifier_eq_ok_iff,
    Except.ok.injEq, exists_const, flat]
  cases negative <;> simp

theorem parseDice_eq_ok_iff {cds sds rest : List Char} (hc : ∀ c ∈ cds, isDigit c = true)
    (hs : ∀ c ∈ sds, isDigit c = true) :
    parseDice limits cds sds rest = .ok p ↔ DigitsOr 1 cds p.count ∧ DigitRun sds p.sides ∧
      Pieces p.sides rest p.operations p.modifier ∧
      (1 ≤ p.count ∧ p.count ≤ limits.dice ∧ 1 ≤ p.sides ∧ p.sides ≤ limits.sides) ∧
      (p.modifier.natAbs : Int) ≤ limits.modifier ∧ Compatible p.operations := by
  by_cases hn : sds = []
  · simp only [parseDice, hn, if_true]
    exact ⟨nofun, fun h => absurd rfl h.2.1.ne_nil⟩
  · have he : parseDice limits cds sds rest =
        (if cds = [] then .ok 1 else readNumber cds) >>= fun count =>
          readNumber sds >>= fun sides => checkSize limits count sides >>= fun _ =>
            Tail.read sides rest >>= fun tail => checkModifier limits tail.modifier >>= fun _ =>
              .ok ⟨count, sides, tail.modifier, tail.operations⟩ := by
      unfold parseDice
      rw [if_neg hn]
      split <;> rfl
    rw [he]
    simp only [bind_eq_ok_iff, readNumber_or_eq_ok_iff hc, readNumber_eq_ok_iff_digitRun hn hs,
      checkSize_eq_ok_iff, Tail.read_eq_ok_iff, checkModifier_eq_ok_iff]
    constructor
    · rintro ⟨count, hcount, sides, hsides, _, hsize, tail, ⟨hp, hcomp⟩, _, hm, h⟩
      cases h
      exact ⟨hcount, hsides, hp, hsize, hm, hcomp⟩
    · rintro ⟨hcount, hsides, hp, hsize, hm, hcomp⟩
      exact ⟨_, hcount, _, hsides, (), hsize, ⟨p.operations, p.modifier⟩, ⟨hp, hcomp⟩, (), hm, rfl⟩

theorem denotes_of_parse {cs : List Char} (h : parse limits cs = .ok p) : Denotes limits cs p := by
  unfold parse at h
  split at h
  · next negative ds hf =>
    obtain ⟨sign, hs, rfl, hn, hd⟩ := sign_of_flatNumber? hf
    obtain ⟨n, hr, hm, rfl⟩ := (parseFlat_eq_ok_iff hn hd).mp h
    exact .number hs hr hm
  · split at h
    · next rest hrest =>
      obtain ⟨hcount, hsides, hp, ⟨h1, h2, h3, h4⟩, hm, hcomp⟩ :=
        (parseDice_eq_ok_iff (fun _ => isDigit_of_mem_takeWhile)
          (fun _ => isDigit_of_mem_takeWhile)).mp h
      have he := Denotes.dice hcount hsides hp h1 h2 h3 h4 hm hcomp
      rwa [List.takeWhile_append_dropWhile, ← hrest, List.takeWhile_append_dropWhile] at he
    · cases h

theorem parse_of_denotes {cs : List Char} (h : Denotes limits cs p) : parse limits cs = .ok p := by
  cases h with
  | @number sign s ds n hs hr hm =>
    obtain ⟨negative, hf, rfl⟩ := flatNumber?_of_sign hs hr.ne_nil hr.isDigit
    unfold parse
    rw [hf]
    exact (parseFlat_eq_ok_iff hr.ne_nil hr.isDigit).mpr ⟨n, hr, hm, rfl⟩
  | @dice cds sds tail count sides ops n hcount hsides hp h1 h2 h3 h4 hm hcomp =>
    have hd : EndsDigits ('d' :: (sds ++ tail)) := endsDigits_cons (by decide) _
    unfold parse
    rw [flatNumber?_of_mem_d (by simp)]
    simp only [dropWhile_isDigit_append hcount.isDigit hd,
      takeWhile_isDigit_append hcount.isDigit hd,
      dropWhile_isDigit_append hsides.isDigit hp.endsDigits,
      takeWhile_isDigit_append hsides.isDigit hp.endsDigits]
    exact (parseDice_eq_ok_iff hcount.isDigit hsides.isDigit).mpr
      ⟨hcount, hsides, hp, ⟨h1, h2, h3, h4⟩, hm, hcomp⟩

theorem parse_eq_ok_iff {cs : List Char} : parse limits cs = .ok p ↔ Denotes limits cs p :=
  ⟨denotes_of_parse, parse_of_denotes⟩

end Pool

theorem not_denotes_nil {limits : Limits} {p : Pool} : ¬ Denotes limits [] p := by
  generalize hcs : ([] : List Char) = cs
  intro h
  cases h with
  | number _ hr _ => exact hr.ne_nil (List.append_eq_nil_iff.mp hcs.symm).2
  | dice => simp at hcs

theorem Term.parse_eq_ok_iff {limits : Limits} {s : String} {t : Term} :
    Term.parse limits s = .ok t ↔ t.text = String.ofList (compact s.toList) ∧
      Denotes limits (lower (compact s.toList)) t.pool := by
  unfold Term.parse
  split
  · next he =>
    rw [he]
    exact ⟨nofun, fun h => absurd h.2 not_denotes_nil⟩
  · rw [← Pool.parse_eq_ok_iff]
    obtain ⟨text, pool⟩ := t
    split
    · next p hp => simp [hp, eq_comm]
    · next flaw hp => simp [hp]

theorem Term.exists_badDice_of_parse_ne_ok {limits : Limits} {s : String}
    (h : ∀ t, Term.parse limits s ≠ .ok t) :
    ∃ cited flaw, Term.parse limits s = .error (.badDice cited flaw) := by
  unfold Term.parse at h ⊢
  split
  · exact ⟨_, _, rfl⟩
  · next hne =>
    split
    · next p hp => simp [hp] at h
    · exact ⟨_, _, rfl⟩

/-- A text is read exactly when the grammar gives it a pool, and then as that pool; any other text
is refused as bad notation and in no other way. -/
theorem Term.parse_accepts_grammar (limits : Limits) (s : String) :
    (∀ t, Term.parse limits s = .ok t ↔ t.text = String.ofList (compact s.toList) ∧
      Denotes limits (lower (compact s.toList)) t.pool) ∧
    ((∀ p, ¬ Denotes limits (lower (compact s.toList)) p) →
      ∃ cited flaw, Term.parse limits s = .error (.badDice cited flaw)) := by
  refine ⟨fun t => Term.parse_eq_ok_iff, fun h => ?_⟩
  apply Term.exists_badDice_of_parse_ne_ok
  intro t ht
  exact h t.pool (Term.parse_eq_ok_iff.mp ht).2

end DiceTower
