import Mathlib
import TreePlan.Layout.Token
import TreePlan.Proofs.Fields
import TreePlan.Proofs.Json.Extent

/-! Extras between the braces that are put around them. The map that is read is over with the last brace and not
before it, so what stands in the extras can't close it. Extras that are accepted may be followed by a comma and
more of them, which are written over them. -/

namespace TreePlan.Token

open Json (skipBlanks readMembers)

variable {b b' p q : Text} {fields fields' : Fields}

theorem decodeExtras_eq_ok_iff :
    decodeExtras b = .ok fields ↔ Json.read ("\x7b" ++ b ++ "\x7d") = .ok (.map fields) := by
  unfold decodeExtras
  cases Json.read ("\x7b" ++ b ++ "\x7d") with
  | error f => exact ⟨nofun, nofun⟩
  | ok v =>
    cases v with
    | map fields' =>
      constructor
      · intro h
        cases h
        rfl
      · intro h
        cases h
        rfl
    | _ => exact ⟨nofun, nofun⟩

/-- Extras that say anything are members of a map. -/
theorem exists_members (h : decodeExtras b = .ok fields) (hne : fields ≠ []) :
    ∃ ms, readMembers (2 * (b.length + 2)) (skipBlanks b ++ [CodePoint.ofChar '\x7d']) = .ok (ms, []) ∧
      fields = Fields.ofList ms := by
  rcases Json.read_braces_eq_ok_iff_members.1 (decodeExtras_eq_ok_iff.1 h) with ⟨-, hv⟩ | ⟨ms, hms, hv⟩
  · cases hv
    exact absurd rfl hne
  · cases hv
    exact ⟨ms, hms, rfl⟩

theorem decodeExtras_join (h : decodeExtras b = .ok fields) (h' : decodeExtras b' = .ok fields') (hne : fields ≠ [])
    (hne' : fields' ≠ []) : decodeExtras (b ++ "," ++ b') = .ok (fields.update fields') := by
  obtain ⟨ms, hms, rfl⟩ := exists_members h hne
  obtain ⟨ms', hms', rfl⟩ := exists_members h' hne'
  rw [decodeExtras_eq_ok_iff, ← Fields.ofList_append]
  exact Json.read_braces_join hms hms'

/-- No text that is a value ends before the last brace does. -/
theorem read_ne_ok_of_decodeExtras (h : decodeExtras b = .ok fields) (hp : p ++ q = "\x7b" ++ b ++ "\x7d")
    (hq : q ≠ []) (v : Value) : Json.read p ≠ .ok v := by
  have hread := decodeExtras_eq_ok_iff.1 h
  rw [← hp] at hread
  have hlast : skipBlanks q ≠ [] := by
    rcases List.eq_nil_or_concat q with rfl | ⟨q, d, rfl⟩
    · exact absurd rfl hq
    · rw [List.concat_eq_append, ← List.append_assoc] at hp
      obtain ⟨-, hd⟩ := List.append_inj' hp rfl
      cases hd
      rw [List.concat_eq_append]
      exact Json.skipBlanks_append_ne_nil q (by decide)
  cases p with
  | nil => exact nofun
  | cons c p =>
    obtain ⟨rfl, -⟩ := List.cons.inj hp
    exact Json.read_ne_ok_of_append hread rfl hlast v

/-- Extras do not break out of their braces. What is read between those takes them both and all that is between,
and no beginning of it is a value. With a comma between them extras that say something come to the same as those
behind the comma written over the others. -/
theorem decodeExtras_encloses (h : decodeExtras b = .ok fields) :
    Json.readValue (2 * (b.length + 2) + 1) ("\x7b" ++ b ++ "\x7d") = .ok (.map fields, []) ∧
      (∀ p q : Text, p ++ q = "\x7b" ++ b ++ "\x7d" → q ≠ [] → ∀ v, Json.read p ≠ .ok v) ∧
      ∀ b' fields', decodeExtras b' = .ok fields' → fields ≠ [] → fields' ≠ [] →
        decodeExtras (b ++ "," ++ b') = .ok (fields.update fields') ∧
          ∀ key, (fields.update fields').get? key = (fields'.get? key).or (fields.get? key) := by
  refine ⟨?_, fun p q hp hq => read_ne_ok_of_decodeExtras h hp hq, fun b' fields' h' hne hne' => ⟨?_, ?_⟩⟩
  · exact Json.read_braces_eq_ok_iff.1 (decodeExtras_eq_ok_iff.1 h)
  · exact decodeExtras_join h h' hne hne'
  · exact Fields.get?_update_of_nodup (Json.nodup_keys_of_read (decodeExtras_eq_ok_iff.1 h')) fields

/-- What stands between quotes closes nothing. -/
theorem decodeExtras_encloses_braces :
    decodeExtras "\"a\":\"\x7d,\", \"b\":[\x7b\x7d]" = .ok [("a", .text "\x7d,"), ("b", .list [.map []])] ∧
      decodeExtras "\"b\":1" = .ok [("b", .int 1)] ∧
      (∀ v, Json.read "\x7b\"a\":\"\x7d" ≠ .ok v) ∧
      decodeExtras "\"a\":\"\x7d,\", \"b\":[\x7b\x7d],\"b\":1" = .ok [("a", .text "\x7d,"), ("b", .int 1)] := by
  have h : decodeExtras "\"a\":\"\x7d,\", \"b\":[\x7b\x7d]" = .ok [("a", .text "\x7d,"), ("b", .list [.map []])] := by
    cbv
  have h' : decodeExtras "\"b\":1" = .ok [("b", .int 1)] := by cbv
  obtain ⟨-, hprefix, hjoin⟩ := decodeExtras_encloses h
  obtain ⟨hread, -⟩ := hjoin _ _ h' (List.cons_ne_nil _ _) (List.cons_ne_nil _ _)
  refine ⟨h, h', hprefix _ ",\", \"b\":[\x7b\x7d]\x7d" (by decide) (by decide), ?_⟩
  refine Eq.trans ?_ (hread.trans ?_)
  · exact congrArg decodeExtras (by decide)
  · cbv

end TreePlan.Token
