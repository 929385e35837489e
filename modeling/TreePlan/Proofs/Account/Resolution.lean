import TreePlan.Account
import TreePlan.Proofs.Except
import TreePlan.Proofs.Text.Digit

/-! Owners and groups, from the token to the number. Tokens of digits are numerals or nothing, and all others
are names of accounts or nothing. What makes a token nothing is told apart from an account that is missing. -/

namespace TreePlan

/-- No bytes stand for this character in a name. -/
def CodePoint.IsLone (c : CodePoint) : Prop := c.isSurrogate = true ∧ Utf8.holdsByte c = false

instance (c : CodePoint) : Decidable c.IsLone :=
  inferInstanceAs (Decidable (c.isSurrogate = true ∧ Utf8.holdsByte c = false))

theorem CodePoint.not_isLone_iff {c : CodePoint} :
    ¬c.IsLone ↔ (!c.isSurrogate || Utf8.holdsByte c) = true := by
  cases hc : c.isSurrogate with
  | false | true => simp [IsLone, hc]

namespace Utf8

variable {s t r : Text} {c : CodePoint}

theorem nameFault?_eq_none_iff : nameFault? t = none ↔ ∀ c ∈ t, ¬c.IsLone := by
  have hdrop : (∀ c ∈ t, ¬c.IsLone) ↔ (t.dropWhile fun c => !c.isSurrogate || holdsByte c) = [] := by
    simp only [CodePoint.not_isLone_iff, List.dropWhile_eq_nil_iff]
  rw [hdrop, nameFault?]
  split
  · next h => simp [h]
  · next h => simp [h]

/-- A fault begins with the first character that has no bytes and goes on over all surrogates there. -/
theorem nameFault?_append (hs : ∀ d ∈ s, ¬d.IsLone) (hc : c.IsLone) : nameFault? (s ++ c :: r) =
    some (c, s.length, s.length + 1 + (r.takeWhile CodePoint.isSurrogate).length) := by
  have hstop : (!c.isSurrogate || holdsByte c) = false := by simp [hc.1, hc.2]
  have hdrop : (s ++ c :: r).dropWhile (fun c => !c.isSurrogate || holdsByte c) = c :: r :=
    Text.dropWhile_append_cons (fun d hd => CodePoint.not_isLone_iff.1 (hs d hd)) hstop
  have hlength : (s ++ c :: r).length - (r.length + 1) = s.length := by simp
  rw [nameFault?, hdrop]
  simp only [hlength]

end Utf8

/-- A character with a property has a first such before it. -/
theorem Text.exists_first {p : CodePoint → Prop} [DecidablePred p] {t : Text} (h : ∃ c ∈ t, p c) :
    ∃ s c r, t = s ++ c :: r ∧ (∀ d ∈ s, ¬p d) ∧ p c := by
  obtain ⟨c, hc⟩ : ∃ c, t.find? (fun c => p c) = some c := by
    simpa [← Option.isSome_iff_exists] using h
  obtain ⟨hpc, s, r, ht, hs⟩ := List.find?_eq_some_iff_append.1 hc
  exact ⟨s, c, r, ht, by simpa using hs, by simpa using hpc⟩

namespace Account

variable {accounts : Register} {kind : AccountKind} {token : Text} {r : Except Failure Int} {f : Failure}

/-- Nothing but digits, of whatever sort. -/
def IsNumber (token : Text) : Prop := token ≠ [] ∧ ∀ c ∈ token, c.isDigit = true

/-- Decimal digits, and not too many of them. -/
structure IsNumeral (token : Text) : Prop where
  ne_nil : token ≠ []
  decimal : ∀ c ∈ token, c.isDecimal = true
  length_le : token.length ≤ Numeral.digitLimit

/-- What can be asked for among the names of accounts. -/
structure IsNaming (token : Text) : Prop where
  not_number : ¬IsNumber token
  not_lone : ∀ c ∈ token, ¬c.IsLone
  no_null : CodePoint.null ∉ token

/-- Why a token is neither a number nor a name. -/
inductive Defect (token : Text) : Failure → Prop where
  | long {run rest : Text} : IsNumber token → token = run ++ rest → (∀ c ∈ run, c.isDecimal = true) →
      (∀ c ∈ rest.head?, c.isDecimal = false) → Numeral.digitLimit < run.length →
      Defect token (.numeral token (.tooLong run.length))
  | undenoting {run rest : Text} {c : CodePoint} : IsNumber token → token = run ++ c :: rest →
      (∀ d ∈ run, d.isDecimal = true) → c.isDecimal = false → run.length ≤ Numeral.digitLimit →
      Defect token (.numeral token .malformed)
  | lone {s rest : Text} {c : CodePoint} : ¬IsNumber token → token = s ++ c :: rest →
      (∀ d ∈ s, ¬d.IsLone) → c.IsLone →
      Defect token (.unencodable
        ⟨.utf8, c, s.length, s.length + 1 + (rest.takeWhile CodePoint.isSurrogate).length⟩)
  | null : ¬IsNumber token → (∀ c ∈ token, ¬c.IsLone) → CodePoint.null ∈ token → Defect token .nullByte

/-- All ways in which a token is resolved. -/
inductive Resolution (accounts : Register) (kind : AccountKind) (token : Text) : Except Failure Int → Prop where
  | number : IsNumeral token → Resolution accounts kind token (.ok (Numeral.denoted token))
  | found {id : Int} : IsNaming token → accounts kind token = some id → Resolution accounts kind token (.ok id)
  | unknown : IsNaming token → accounts kind token = none →
      Resolution accounts kind token (.error (.unknownAccount kind token))
  | defect {f : Failure} : Defect token f → Resolution accounts kind token (.error f)

theorem isNumber_iff : isNumber token = true ↔ IsNumber token := by
  simp [isNumber, IsNumber]

theorem IsNumeral.isNumber (h : IsNumeral token) : IsNumber token :=
  ⟨h.ne_nil, fun c hc => CodePoint.isDigit_of_isDecimal (h.decimal c hc)⟩

theorem resolveIn_number (h : IsNumber token) : resolveIn accounts kind (some token) =
    ((Numeral.readNat token).map Int.ofNat).mapError (Failure.numeral token) := by
  rw [resolveIn, if_pos (isNumber_iff.2 h), Numeral.readInt_digits h.1 h.2]

theorem resolveIn_name (h : ¬IsNumber token) :
    resolveIn accounts kind (some token) = nameOf accounts kind token := by
  rw [resolveIn, if_neg fun hn => h (isNumber_iff.1 hn)]

/-- A digit is no underscore, so what ends the reading of digits is one that is not decimal. -/
theorem IsNumber.readNat (h : IsNumber token) {run rest : Text} (ht : token = run ++ rest)
    (hrun : ∀ c ∈ run, c.isDecimal = true) (hrest : ∀ c ∈ rest.head?, c.isDecimal = false) :
    Numeral.readNat token =
      if run = [] then .error .malformed
      else if Numeral.digitLimit < run.length then .error (.tooLong run.length)
      else if rest = [] then .ok (Numeral.denoted run)
      else .error .malformed := by
  subst ht
  apply Numeral.readNat_append hrun
  intro c hc
  refine ⟨hrest c hc, ?_⟩
  rintro rfl
  have hdigit := h.2 _ (List.mem_append_right run (List.mem_of_mem_head? hc))
  exact absurd hdigit (by decide)

theorem Defect.resolveIn_eq (h : Defect token f) : resolveIn accounts kind (some token) = .error f := by
  cases h with
  | @long run rest hn ht hrun hrest hlong =>
    have hne : run ≠ [] := List.ne_nil_of_length_pos (Nat.zero_lt_of_lt hlong)
    rw [resolveIn_number hn, hn.readNat ht hrun hrest, if_neg hne, if_pos hlong]
    rfl
  | @undenoting run rest c hn ht hrun hc hle =>
    have hread : Numeral.readNat token = .error .malformed := by
      rw [hn.readNat ht hrun (by simpa using hc), if_neg (Nat.not_lt.2 hle), if_neg (List.cons_ne_nil c rest)]
      simp
    rw [resolveIn_number hn, hread]
    rfl
  | lone hn ht hs hc =>
    subst ht
    rw [resolveIn_name hn, nameOf, Utf8.nameFault?_append hs hc]
  | null hn hs hnull =>
    rw [resolveIn_name hn, nameOf, Utf8.nameFault?_eq_none_iff.2 hs]
    exact if_pos (by simpa using hnull)

/-- A name is looked up as it stands. -/
theorem IsNaming.resolveIn_eq (h : IsNaming token) : resolveIn accounts kind (some token) =
    (accounts kind token).elim (.error (.unknownAccount kind token)) .ok := by
  have hnull : ¬token.contains CodePoint.null = true := by simpa using h.no_null
  rw [resolveIn_name h.not_number, nameOf, Utf8.nameFault?_eq_none_iff.2 h.not_lone]
  dsimp only
  rw [if_neg hnull]
  cases accounts kind token with
  | none | some id => rfl

theorem IsNumeral.resolveIn_eq (h : IsNumeral token) :
    resolveIn accounts kind (some token) = .ok (Numeral.denoted token) := by
  have hread := h.isNumber.readNat (List.append_nil token).symm h.decimal (by simp)
  rw [if_neg h.ne_nil, if_neg (Nat.not_lt.2 h.length_le), if_pos rfl] at hread
  rw [resolveIn_number h.isNumber, hread]
  rfl

theorem Resolution.eq (h : Resolution accounts kind token r) : resolveIn accounts kind (some token) = r := by
  cases h with
  | number h => exact h.resolveIn_eq
  | found h hid | unknown h hid =>
    rw [h.resolveIn_eq, hid]
    rfl
  | defect h => exact h.resolveIn_eq

theorem exists_resolution (accounts : Register) (kind : AccountKind) (token : Text) :
    ∃ r, Resolution accounts kind token r := by
  -- the first character that is out of place decides, so each kind of token is cut there
  by_cases hn : IsNumber token
  · by_cases hall : ∀ c ∈ token, c.isDecimal = true
    · by_cases hle : token.length ≤ Numeral.digitLimit
      · exact ⟨_, .number ⟨hn.1, hall, hle⟩⟩
      · exact ⟨_, .defect (.long hn (List.append_nil token).symm hall (by simp) (Nat.not_le.1 hle))⟩
    · simp only [not_forall, exists_prop] at hall
      obtain ⟨run, c, rest, ht, hrun, hc⟩ := Text.exists_first hall
      simp only [Bool.not_eq_true, Bool.not_eq_false] at hrun hc
      by_cases hle : run.length ≤ Numeral.digitLimit
      · exact ⟨_, .defect (.undenoting hn ht hrun hc hle)⟩
      · exact ⟨_, .defect (.long hn ht hrun (by simpa using hc) (Nat.not_le.1 hle))⟩
  · by_cases hlone : ∀ c ∈ token, ¬c.IsLone
    · by_cases hnull : CodePoint.null ∈ token
      · exact ⟨_, .defect (.null hn hlone hnull)⟩
      · cases hid : accounts kind token with
        | some id => exact ⟨_, .found ⟨hn, hlone, hnull⟩ hid⟩
        | none => exact ⟨_, .unknown ⟨hn, hlone, hnull⟩ hid⟩
    · simp only [not_forall, not_not, exists_prop] at hlone
      obtain ⟨s, c, rest, ht, hs, hc⟩ := Text.exists_first hlone
      exact ⟨_, .defect (.lone hn ht hs hc)⟩

theorem resolveIn_eq_iff : resolveIn accounts kind (some token) = r ↔ Resolution accounts kind token r := by
  constructor
  · rintro rfl
    obtain ⟨r, hr⟩ := exists_resolution accounts kind token
    rwa [hr.eq]
  · exact Resolution.eq

theorem resolveIn_eq_ok_iff {id : Int} : resolveIn accounts kind (some token) = .ok id ↔
    IsNumeral token ∧ id = Numeral.denoted token ∨ IsNaming token ∧ accounts kind token = some id := by
  rw [resolveIn_eq_iff]
  constructor
  · intro h
    cases h with
    | number h => exact .inl ⟨h, rfl⟩
    | found h hid => exact .inr ⟨h, hid⟩
  · rintro (⟨h, rfl⟩ | ⟨h, hid⟩)
    · exact .number h
    · exact .found h hid

theorem resolveIn_eq_error_iff : resolveIn accounts kind (some token) = .error f ↔
    (IsNaming token ∧ accounts kind token = none) ∧ f = .unknownAccount kind token ∨ Defect token f := by
  rw [resolveIn_eq_iff]
  constructor
  · intro h
    cases h with
    | unknown h hid => exact .inl ⟨⟨h, hid⟩, rfl⟩
    | defect h => exact .inr h
  · rintro (⟨⟨h, hid⟩, rfl⟩ | h)
    · exact .unknown h hid
    · exact .defect h

/-- A defect is no failed look-up, and reported only where it is one of encoding. -/
theorem Defect.not_lookup (h : Defect token f) :
    f.kind ≠ .lookup ∧ (f.isExpected = true ↔ ∃ c ∈ token, c.IsLone ∧ ¬IsNumber token) := by
  cases h with
  | long hn | undenoting hn =>
    refine ⟨by simp [Failure.kind], ?_⟩
    simp [Failure.isExpected, Failure.kind, FailureClass.isExpected, hn]
  | @lone s rest c hn ht hs hc =>
    refine ⟨by simp [Failure.kind], fun _ => ⟨c, ?_, hc, hn⟩, fun _ => rfl⟩
    rw [ht]
    exact List.mem_append_right s List.mem_cons_self
  | null hn hs hnull =>
    refine ⟨by simp [Failure.kind], ?_⟩
    simp only [Failure.isExpected, Failure.kind, FailureClass.isExpected, Bool.false_eq_true, false_iff]
    rintro ⟨c, hc, hlone, -⟩
    exact hs c hc hlone

/-- A number that no account can have, too large for a word or not. -/
def OutOfRange (kind : AccountKind) (id : Int) (f : Failure) : Prop :=
  wordLimit ≤ id ∧ f = .idTooLarge kind ∨
    (id < unchanged ∨ idLimit < id ∧ id < wordLimit) ∧ f = .idTooSmall kind

theorem checked_eq_error_iff {id : Int} : checked kind id = .error f ↔ OutOfRange kind id f := by
  have hlimits : idLimit < wordLimit := by decide
  have hunchanged : unchanged < idLimit := by decide
  unfold checked OutOfRange
  split_ifs with hlarge hsmall hsame
  · simp only [Except.error.injEq, eq_comm (a := f)]
    grind
  · simp only [Except.error.injEq, eq_comm (a := f)]
    grind
  · grind
  · grind

theorem exists_checked_eq_ok_iff {id : Int} : (∃ id', checked kind id = .ok id') ↔ ∀ f, ¬OutOfRange kind id f := by
  simp only [← checked_eq_error_iff]
  cases checked kind id with
  | error f => simp
  | ok id' => simp

end Account

end TreePlan
