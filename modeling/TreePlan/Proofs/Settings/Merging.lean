import TreePlan.Proofs.Except
import TreePlan.Settings.Basic

/-! What merging settings comes to. A settings file is sound or not whatever lies below it, and a sound one is laid
over the settings field by field. Overrides are laid over these in the same way. -/

namespace TreePlan.Settings

/-- The fields of a section, none if there is no such section. -/
def table (payload : Fields) (name : Text) : Fields :=
  match payload.get? name with
  | some (.map fields) => fields
  | _ => []

def strictIn (payload : Fields) : Option Value := (table payload "layout").get? "strict_extras"

def encodingIn (payload : Fields) : Option Value := (table payload "layout").get? "content_encoding"

def enabledIn (payload : Fields) : Option Value := (table payload "trace").get? "enabled"

def pathIn (payload : Fields) : Option Value := (table payload "trace").get? "path"

def flag? : Option Value → Option Bool
  | some (.bool b) => some b
  | _ => none

def text? : Option Value → Option Text
  | some (.text t) => some t
  | _ => none

inductive SoundSection : Option Value → Prop where
  | missing : SoundSection none
  | given (fields : Fields) : SoundSection (some (.map fields))

inductive SoundFlag : Option Value → Prop where
  | missing : SoundFlag none
  | null : SoundFlag (some .null)
  | given (b : Bool) : SoundFlag (some (.bool b))

inductive SoundEncoding : Option Value → Prop where
  | missing : SoundEncoding none
  | null : SoundEncoding (some .null)
  | given {name : Text} {codec : Codec} : Codec.lookup name = .ok codec → SoundEncoding (some (.text name))

inductive SoundPath : Option Value → Prop where
  | missing : SoundPath none
  | given {t : Text} : t ≠ [] → SoundPath (some (.text t))

/-- A settings file in which nothing is out of place. -/
structure Sound (payload : Fields) : Prop where
  layout : SoundSection (payload.get? "layout")
  trace : SoundSection (payload.get? "trace")
  strictExtras : SoundFlag (strictIn payload)
  encoding : SoundEncoding (encodingIn payload)
  traceEnabled : SoundFlag (enabledIn payload)
  tracePath : SoundPath (pathIn payload)

/-- The path of the trace, by the file or else by the settings below. -/
def pathOver (base : Settings) (payload : Fields) : Path :=
  ((text? (pathIn payload)).map base.root.join).getD base.tracePath

/-- Settings with what a file says laid over them. -/
def laid (base : Settings) (payload : Fields) : Settings where
  root := base.root
  strictExtras := (flag? (strictIn payload)).getD base.strictExtras
  encoding := (text? (encodingIn payload)).getD base.encoding
  traceEnabled := (flag? (enabledIn payload)).getD base.traceEnabled
  tracePath := pathOver base payload

/-- Settings under overrides, but for that of the trace path. -/
def under (o : Overrides) (s : Settings) : Settings :=
  { s with encoding := o.encoding.getD s.encoding, strictExtras := o.strictExtras.getD s.strictExtras }

variable {base s : Settings} {payload fields : Fields} {o : Overrides} {field name t : Text} {v : Option Value}

section Reading

/-- A name is taken if it is the name of a codec, of whatever kind. -/
theorem encodingName_eq_ok_iff :
    encodingName field name = .ok t ↔ t = name ∧ ∃ codec, Codec.lookup name = .ok codec := by
  unfold encodingName
  split
  · next hempty =>
    have hlookup : Codec.lookup name = .error (.unknown name) := by
      rw [List.isEmpty_iff.1 hempty]
      rfl
    simp [hlookup]
  · cases Codec.lookup name with
    | ok codec => simp [eq_comm]
    | error fault => cases fault <;> simp

theorem sectionOf_eq_ok_iff :
    sectionOf payload name = .ok fields ↔ SoundSection (payload.get? name) ∧ fields = table payload name := by
  unfold sectionOf table
  generalize payload.get? name = v
  constructor
  · intro h
    split at h
    · cases h
      exact ⟨.missing, rfl⟩
    · cases h
      exact ⟨.given _, rfl⟩
    · cases h
  · rintro ⟨hv, rfl⟩
    cases hv <;> rfl

theorem boolean_eq_ok_iff {below b : Bool} :
    boolean field below v = .ok b ↔ SoundFlag v ∧ b = (flag? v).getD below := by
  constructor
  · intro h
    unfold boolean at h
    split at h
    · cases h
      exact ⟨.missing, rfl⟩
    · cases h
      exact ⟨.null, rfl⟩
    · cases h
      exact ⟨.given _, rfl⟩
    · cases h
  · rintro ⟨hv, rfl⟩
    cases hv <;> rfl

theorem encodingField_eq_ok_iff {below : Text} :
    encodingField field below v = .ok t ↔ SoundEncoding v ∧ t = (text? v).getD below := by
  constructor
  · intro h
    unfold encodingField at h
    split at h
    · cases h
      exact ⟨.missing, rfl⟩
    · cases h
      exact ⟨.null, rfl⟩
    · obtain ⟨rfl, codec, hcodec⟩ := encodingName_eq_ok_iff.1 h
      exact ⟨.given hcodec, rfl⟩
    · cases h
  · rintro ⟨hv, rfl⟩
    cases hv with
    | missing => rfl
    | null => rfl
    | given hcodec => exact encodingName_eq_ok_iff.2 ⟨rfl, _, hcodec⟩

theorem pathField_eq_ok_iff {root below path : Path} :
    pathField field root below v = .ok path ↔ SoundPath v ∧ path = ((text? v).map root.join).getD below := by
  constructor
  · intro h
    unfold pathField at h
    split at h
    · cases h
      exact ⟨.missing, rfl⟩
    · split at h
      · cases h
      · next hne =>
        cases h
        exact ⟨.given (by simpa using hne), rfl⟩
    · cases h
  · rintro ⟨hv, rfl⟩
    cases hv with
    | missing => rfl
    | given hne => exact if_neg (by simpa using hne)

theorem overlay_eq_ok_iff : overlay base payload = .ok s ↔ Sound payload ∧ s = laid base payload := by
  unfold overlay
  constructor
  · intro h
    obtain ⟨layout, hlayout, h⟩ := bind_eq_ok_iff.1 h
    obtain ⟨trace, htrace, h⟩ := bind_eq_ok_iff.1 h
    obtain ⟨strictExtras, hstrict, h⟩ := bind_eq_ok_iff.1 h
    obtain ⟨encoding, hencoding, h⟩ := bind_eq_ok_iff.1 h
    obtain ⟨traceEnabled, henabled, h⟩ := bind_eq_ok_iff.1 h
    obtain ⟨tracePath, hpath, h⟩ := bind_eq_ok_iff.1 h
    obtain ⟨slayout, rfl⟩ := sectionOf_eq_ok_iff.1 hlayout
    obtain ⟨strace, rfl⟩ := sectionOf_eq_ok_iff.1 htrace
    obtain ⟨sstrict, rfl⟩ := boolean_eq_ok_iff.1 hstrict
    obtain ⟨sencoding, rfl⟩ := encodingField_eq_ok_iff.1 hencoding
    obtain ⟨senabled, rfl⟩ := boolean_eq_ok_iff.1 henabled
    obtain ⟨spath, rfl⟩ := pathField_eq_ok_iff.1 hpath
    cases h
    exact ⟨⟨slayout, strace, sstrict, sencoding, senabled, spath⟩, rfl⟩
  · rintro ⟨h, rfl⟩
    refine bind_eq_ok_iff.2 ⟨_, sectionOf_eq_ok_iff.2 ⟨h.layout, rfl⟩, ?_⟩
    refine bind_eq_ok_iff.2 ⟨_, sectionOf_eq_ok_iff.2 ⟨h.trace, rfl⟩, ?_⟩
    refine bind_eq_ok_iff.2 ⟨_, boolean_eq_ok_iff.2 ⟨h.strictExtras, rfl⟩, ?_⟩
    refine bind_eq_ok_iff.2 ⟨_, encodingField_eq_ok_iff.2 ⟨h.encoding, rfl⟩, ?_⟩
    refine bind_eq_ok_iff.2 ⟨_, boolean_eq_ok_iff.2 ⟨h.traceEnabled, rfl⟩, ?_⟩
    exact bind_eq_ok_iff.2 ⟨_, pathField_eq_ok_iff.2 ⟨h.tracePath, rfl⟩, rfl⟩

end Reading

section Merging

theorem override_eq_ok_iff : override base o = .ok s ↔
    (∀ name, o.encoding = some name → ∃ codec, Codec.lookup name = .ok codec) ∧
      s = { under o base with
        traceEnabled := base.traceEnabled || o.tracePath.isSome
        tracePath := o.tracePath.getD base.tracePath } := by
  have hsound : SoundEncoding (o.encoding.map .text) ↔
      ∀ name, o.encoding = some name → ∃ codec, Codec.lookup name = .ok codec := by
    cases o.encoding with
    | none => exact ⟨nofun, fun _ => .missing⟩
    | some name =>
      constructor
      · rintro (_ | _ | hcodec) _ ⟨⟩
        exact ⟨_, hcodec⟩
      · intro h
        obtain ⟨codec, hcodec⟩ := h name rfl
        exact .given hcodec
  have htext : text? (o.encoding.map .text) = o.encoding := by cases o.encoding <;> rfl
  unfold override
  rw [bind_eq_ok_iff]
  simp only [encodingField_eq_ok_iff, htext, hsound, and_assoc, exists_and_left, exists_eq_left]
  refine and_congr_right fun _ => ?_
  constructor
  · intro h
    cases h
    rfl
  · rintro rfl
    rfl

theorem merge_eq_ok_iff (ho : o.tracePath = none) : merge base payload o = .ok s ↔
    Sound payload ∧ (∀ name, o.encoding = some name → ∃ codec, Codec.lookup name = .ok codec) ∧
      s = under o (laid base payload) := by
  have hunder : { under o (laid base payload) with
      traceEnabled := (laid base payload).traceEnabled || o.tracePath.isSome
      tracePath := o.tracePath.getD (laid base payload).tracePath } = under o (laid base payload) := by
    rw [ho, Option.isSome_none, Bool.or_false]
    rfl
  unfold merge
  rw [bind_eq_ok_iff]
  simp only [overlay_eq_ok_iff, and_assoc, exists_and_left, exists_eq_left, override_eq_ok_iff, hunder]

end Merging

end TreePlan.Settings
