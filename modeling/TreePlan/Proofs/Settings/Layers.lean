import Mathlib
import TreePlan.Proofs.Settings.Merging
import TreePlan.Proofs.Settings.Standing

/-! Layers of settings. A field of the outcome is what the overrides give, or else the file, or else the settings
below. So the fields of two files may be laid over each other first, or the files one after the other over the
settings. -/

namespace TreePlan

/-- Overrides that hold: the encoding is one, and the trace path leads somewhere. -/
structure Overrides.Sound (fs : FileSystem) (o : Overrides) : Prop where
  encoding : ∀ name, o.encoding = some name → ∃ codec, Codec.lookup name = .ok codec
  tracePath : ∀ path, o.tracePath = some path → ∃ there, fs.realPath path = .ok there

namespace Settings

/-- The outcome of the layers: settings, a file over them, and overrides. -/
structure Layers (fs : FileSystem) (base : Settings) (payload : Fields) (o : Overrides) (s : Settings) : Prop where
  root : s.root = base.root
  strictExtras : s.strictExtras = (o.strictExtras.or (flag? (strictIn payload))).getD base.strictExtras
  encoding : s.encoding = (o.encoding.or (text? (encodingIn payload))).getD base.encoding
  traceEnabled : s.traceEnabled =
    if o.tracePath.isSome then true else (flag? (enabledIn payload)).getD base.traceEnabled
  tracePath : match o.tracePath with
    | some path => fs.realPath path = .ok s.tracePath
    | none => s.tracePath = pathOver base payload

/-- Fields with one of them taken from others, unless it is missing there or passed over. -/
def withField (passed : Value → Bool) (key : Text) (below above : Fields) : Fields :=
  match above.get? key with
  | none => below
  | some v => if passed v then below else below.insert key v

def layoutOver (p q : Fields) : Fields :=
  withField Metadata.isNull "content_encoding"
    (withField Metadata.isNull "strict_extras" (table p "layout") (table q "layout")) (table q "layout")

def traceOver (p q : Fields) : Fields :=
  withField (fun _ => false) "path"
    (withField Metadata.isNull "enabled" (table p "trace") (table q "trace")) (table q "trace")

/-- A settings file over another, field by field. A field that is null is passed over like one that is missing,
but for the path of the trace. -/
def overlaid (p q : Fields) : Fields :=
  (p.insert "layout" (.map (layoutOver p q))).insert "trace" (.map (traceOver p q))

variable {base s a b : Settings} {payload p q : Fields} {o : Overrides} {v : Option Value} {fs : FileSystem}

section Merging

theorem layers_iff_of_none (ho : o.tracePath = none) :
    Layers fs base payload o s ↔ s = under o (laid base payload) := by
  constructor
  · rintro ⟨hroot, hstrict, hencoding, henabled, hpath⟩
    rw [Option.getD_or] at hstrict hencoding
    rw [ho] at henabled hpath
    cases s
    cases hroot
    cases hstrict
    cases hencoding
    cases henabled
    cases hpath
    rfl
  · rintro rfl
    refine ⟨rfl, Option.getD_or.symm, Option.getD_or.symm, ?_, ?_⟩
    · rw [ho]
      rfl
    · rw [ho]
      rfl

theorem layers_iff_of_some {path : Path} (ho : o.tracePath = some path) : Layers fs base payload o s ↔
    ∃ there, fs.realPath path = .ok there ∧
      s = { under o (laid base payload) with traceEnabled := true, tracePath := there } := by
  constructor
  · rintro ⟨hroot, hstrict, hencoding, henabled, hpath⟩
    rw [Option.getD_or] at hstrict hencoding
    rw [ho] at henabled hpath
    refine ⟨s.tracePath, hpath, ?_⟩
    cases s
    cases hroot
    cases hstrict
    cases hencoding
    cases henabled
    rfl
  · rintro ⟨there, hthere, rfl⟩
    refine ⟨rfl, Option.getD_or.symm, Option.getD_or.symm, ?_, ?_⟩
    · rw [ho]
      rfl
    · rw [ho]
      exact hthere

/-- Layers can be merged if the file is sound and the overrides are, and they make up the outcome. -/
theorem mergeAt_eq_ok_iff :
    mergeAt fs base payload o = .ok s ↔ Sound payload ∧ o.Sound fs ∧ Layers fs base payload o s := by
  have hmerge (m : Settings) : merge base payload { o with tracePath := none } = .ok m ↔ _ := merge_eq_ok_iff rfl
  have hunder : under { o with tracePath := none } (laid base payload) = under o (laid base payload) := rfl
  unfold mergeAt
  rw [bind_eq_ok_iff]
  simp only [hmerge, hunder, and_assoc, exists_and_left, exists_eq_left]
  refine and_congr_right fun _ => ?_
  cases ho : o.tracePath with
  | none =>
    rw [layers_iff_of_none ho]
    constructor
    · rintro ⟨hencoding, hs⟩
      exact ⟨⟨hencoding, fun path hpath => by rw [ho] at hpath; cases hpath⟩, (Except.ok.inj hs).symm⟩
    · rintro ⟨hsound, rfl⟩
      exact ⟨hsound.encoding, rfl⟩
  | some path =>
    rw [layers_iff_of_some ho]
    constructor
    · rintro ⟨hencoding, h⟩
      obtain ⟨there, hthere, h⟩ := bind_eq_ok_iff.1 h
      obtain ⟨-, rfl⟩ := override_eq_ok_iff.1 h
      have hreal := mapError_eq_ok_iff.1 hthere
      refine ⟨⟨hencoding, fun path' hpath => ?_⟩, there, hreal, ?_⟩
      · rw [ho] at hpath
        cases hpath
        exact ⟨there, hreal⟩
      · simp [under]
    · rintro ⟨hsound, there, hthere, rfl⟩
      refine ⟨hsound.encoding, bind_eq_ok_iff.2 ⟨there, mapError_eq_ok_iff.2 hthere, ?_⟩⟩
      refine override_eq_ok_iff.2 ⟨nofun, ?_⟩
      simp [under]

end Merging

section Overlaying

/-- A value, unless it is missing or passed over, and else another one. -/
def pick (passed : Value → Bool) (above below : Option Value) : Option Value :=
  match above with
  | none => below
  | some v => if passed v then below else some v

theorem get?_withField (passed : Value → Bool) (key k : Text) (below above : Fields) :
    (withField passed key below above).get? k =
      if k = key then pick passed (above.get? key) (below.get? key) else below.get? k := by
  unfold withField pick
  cases above.get? key with
  | none => by_cases hk : k = key <;> simp [hk]
  | some v =>
    dsimp only
    split
    · by_cases hk : k = key <;> simp [hk]
    · exact Fields.get?_insert below key v k

theorem get?_overlaid_layout (p q : Fields) : (overlaid p q).get? "layout" = some (.map (layoutOver p q)) := by
  rw [overlaid, Fields.get?_insert, if_neg (by decide), Fields.get?_insert, if_pos rfl]

theorem get?_overlaid_trace (p q : Fields) : (overlaid p q).get? "trace" = some (.map (traceOver p q)) := by
  rw [overlaid, Fields.get?_insert, if_pos rfl]

theorem strictIn_overlaid (p q : Fields) :
    strictIn (overlaid p q) = pick Metadata.isNull (strictIn q) (strictIn p) := by
  rw [strictIn, table, get?_overlaid_layout]
  dsimp only
  rw [layoutOver, get?_withField, if_neg (by decide), get?_withField, if_pos rfl]
  rfl

theorem encodingIn_overlaid (p q : Fields) :
    encodingIn (overlaid p q) = pick Metadata.isNull (encodingIn q) (encodingIn p) := by
  rw [encodingIn, table, get?_overlaid_layout]
  dsimp only
  rw [layoutOver, get?_withField, if_pos rfl, get?_withField, if_neg (by decide)]
  rfl

theorem enabledIn_overlaid (p q : Fields) :
    enabledIn (overlaid p q) = pick Metadata.isNull (enabledIn q) (enabledIn p) := by
  rw [enabledIn, table, get?_overlaid_trace]
  dsimp only
  rw [traceOver, get?_withField, if_neg (by decide), get?_withField, if_pos rfl]
  rfl

theorem pathIn_overlaid (p q : Fields) :
    pathIn (overlaid p q) = pick (fun _ => false) (pathIn q) (pathIn p) := by
  rw [pathIn, table, get?_overlaid_trace]
  dsimp only
  rw [traceOver, get?_withField, if_pos rfl, get?_withField, if_neg (by decide)]
  rfl

variable {w : Option Value}

theorem SoundFlag.pick (hv : SoundFlag v) (hw : SoundFlag w) :
    SoundFlag (pick Metadata.isNull v w) ∧ flag? (Settings.pick Metadata.isNull v w) = (flag? v).or (flag? w) := by
  cases hv with
  | missing => exact ⟨hw, rfl⟩
  | null => exact ⟨hw, rfl⟩
  | given b => exact ⟨.given b, rfl⟩

theorem SoundEncoding.pick (hv : SoundEncoding v) (hw : SoundEncoding w) :
    SoundEncoding (pick Metadata.isNull v w) ∧
      text? (Settings.pick Metadata.isNull v w) = (text? v).or (text? w) := by
  cases hv with
  | missing => exact ⟨hw, rfl⟩
  | null => exact ⟨hw, rfl⟩
  | given hcodec => exact ⟨.given hcodec, rfl⟩

theorem SoundPath.pick (hv : SoundPath v) (hw : SoundPath w) :
    SoundPath (pick (fun _ => false) v w) ∧
      text? (Settings.pick (fun _ => false) v w) = (text? v).or (text? w) := by
  cases hv with
  | missing => exact ⟨hw, rfl⟩
  | given ht => exact ⟨.given ht, rfl⟩

theorem sound_overlaid (hp : Sound p) (hq : Sound q) : Sound (overlaid p q) where
  layout := get?_overlaid_layout p q ▸ .given _
  trace := get?_overlaid_trace p q ▸ .given _
  strictExtras := strictIn_overlaid p q ▸ (hq.strictExtras.pick hp.strictExtras).1
  encoding := encodingIn_overlaid p q ▸ (hq.encoding.pick hp.encoding).1
  traceEnabled := enabledIn_overlaid p q ▸ (hq.traceEnabled.pick hp.traceEnabled).1
  tracePath := pathIn_overlaid p q ▸ (hq.tracePath.pick hp.tracePath).1

/-- One file after the other over settings does what the two do laid over each other. -/
theorem laid_laid (hp : Sound p) (hq : Sound q) (base : Settings) :
    laid (laid base p) q = laid base (overlaid p q) := by
  have hstrict := (hq.strictExtras.pick hp.strictExtras).2
  have hencoding := (hq.encoding.pick hp.encoding).2
  have henabled := (hq.traceEnabled.pick hp.traceEnabled).2
  have hpath := (hq.tracePath.pick hp.tracePath).2
  have hpaths : pathOver (laid base p) q = pathOver base (overlaid p q) := by
    rw [pathOver, pathOver, pathIn_overlaid, hpath, Option.map_or, Option.getD_or]
    rfl
  rw [laid, hpaths, laid, laid, strictIn_overlaid, encodingIn_overlaid, enabledIn_overlaid, hstrict,
    hencoding, henabled, Option.getD_or, Option.getD_or, Option.getD_or]

theorem overlay_laid (hp : Sound p) (hq : Sound q) (base : Settings) :
    overlay (laid base p) q = overlay base (overlaid p q) :=
  (overlay_eq_ok_iff.2 ⟨hq, (laid_laid hp hq base).symm⟩).trans (overlay_eq_ok_iff.2 ⟨sound_overlaid hp hq, rfl⟩).symm

end Overlaying

section Outcome

variable {now : Text} {input : Bytes}

theorem run_mergeOn (base : Settings) (payload : Fields) (o : Overrides) :
    (mergeOn (FileSystem.host now input) base payload o).run fs = (mergeAt fs base payload o, fs) :=
  looks_mergeOn base payload o fs

theorem run_mergeOn_iff : (mergeOn (FileSystem.host now input) base payload o).run fs = (.ok s, fs) ↔
    Sound payload ∧ o.Sound fs ∧ Layers fs base payload o s := by
  rw [run_mergeOn, ← mergeAt_eq_ok_iff, Prod.mk.injEq]
  exact and_iff_left rfl

theorem exists_layers (ho : o.Sound fs) (base : Settings) (payload : Fields) :
    ∃ s, Layers fs base payload o s := by
  cases htrace : o.tracePath with
  | none => exact ⟨_, (layers_iff_of_none htrace).2 rfl⟩
  | some path =>
    obtain ⟨there, hthere⟩ := ho.tracePath path htrace
    exact ⟨_, (layers_iff_of_some htrace).2 ⟨there, hthere, rfl⟩⟩

/-- Layers on top of what they have made up already make no difference. -/
theorem Layers.again (h : Layers fs base payload o s) : Layers fs s payload o s := by
  obtain ⟨hroot, hstrict, hencoding, henabled, hpath⟩ := h
  refine ⟨rfl, ?_, ?_, ?_, ?_⟩
  · rw [hstrict]
    cases o.strictExtras.or (flag? (strictIn payload)) <;> rfl
  · rw [hencoding]
    cases o.encoding.or (text? (encodingIn payload)) <;> rfl
  · rw [henabled]
    split
    · rfl
    · cases flag? (enabledIn payload) <;> rfl
  · cases ho : o.tracePath with
    | some path =>
      rw [ho] at hpath
      exact hpath
    | none =>
      rw [ho] at hpath
      dsimp only at hpath ⊢
      rw [pathOver] at hpath ⊢
      rw [hroot, hpath]
      cases text? (pathIn payload) <;> rfl

/-- Settings files that are merged one after the other, with overrides on top, come to the same as the two laid
over each other. Whether a merge goes well is up to the overrides then. In its outcome each field is that of the
topmost layer that has it, and to merge the same layers again changes nothing. -/
theorem merge_layers (hp : (mergeOn (FileSystem.host now input) base p {}).run fs = (.ok a, fs))
    (hq : (mergeOn (FileSystem.host now input) base q {}).run fs = (.ok b, fs)) :
    (∃ c, (mergeOn (FileSystem.host now input) base (overlaid p q) {}).run fs = (.ok c, fs)) ∧
      ∀ o, (mergeOn (FileSystem.host now input) a q o).run fs =
          (mergeOn (FileSystem.host now input) base (overlaid p q) o).run fs ∧
        (o.Sound fs ↔ ∃ s, (mergeOn (FileSystem.host now input) base p o).run fs = (.ok s, fs)) ∧
        ∀ s, (mergeOn (FileSystem.host now input) base p o).run fs = (.ok s, fs) →
          Layers fs base p o s ∧ (mergeOn (FileSystem.host now input) s p o).run fs = (.ok s, fs) := by
  obtain ⟨hsound, hnone, ha⟩ := run_mergeOn_iff.1 hp
  obtain ⟨hsound', -, -⟩ := run_mergeOn_iff.1 hq
  have ha : a = laid base p := (layers_iff_of_none rfl).1 ha
  subst ha
  have hover := sound_overlaid hsound hsound'
  refine ⟨?_, fun o => ⟨?_, ?_, ?_⟩⟩
  · obtain ⟨c, hc⟩ := exists_layers hnone base (overlaid p q)
    exact ⟨c, run_mergeOn_iff.2 ⟨hover, hnone, hc⟩⟩
  · have hmerge : mergeAt fs (laid base p) q o = mergeAt fs base (overlaid p q) o := by
      rw [mergeAt, mergeAt, merge, merge, overlay_laid hsound hsound']
    rw [run_mergeOn, run_mergeOn, hmerge]
  · constructor
    · intro ho
      obtain ⟨s, hs⟩ := exists_layers ho base p
      exact ⟨s, run_mergeOn_iff.2 ⟨hsound, ho, hs⟩⟩
    · rintro ⟨s, hs⟩
      exact (run_mergeOn_iff.1 hs).2.1
  · intro s hs
    obtain ⟨-, ho, hlayers⟩ := run_mergeOn_iff.1 hs
    exact ⟨hlayers, run_mergeOn_iff.2 ⟨hsound, ho, hlayers.again⟩⟩

end Outcome

/-- A settings file that says something about everything. -/
def fullPayload : Fields :=
  [("layout", .map [("strict_extras", .bool true), ("content_encoding", .text "ascii")]),
    ("trace", .map [("enabled", .bool false), ("path", .text "log")])]

/-- A settings file that takes nothing back, and has another path. -/
def halfPayload : Fields :=
  [("layout", .map [("strict_extras", .null)]), ("trace", .map [("path", .text "../log")])]

theorem merge_layers_full :
    (mergeOn (FileSystem.host [] []) (.default ⟨.slash, []⟩) fullPayload {}).run (.withWorkingDirectory []) =
        (.ok ⟨⟨.slash, []⟩, true, "ascii", false, ⟨.slash, ["log"]⟩⟩, .withWorkingDirectory []) ∧
      (mergeOn (FileSystem.host [] []) (.default ⟨.slash, []⟩) halfPayload {}).run (.withWorkingDirectory []) =
        (.ok ⟨⟨.slash, []⟩, false, "utf-8", false, ⟨.slash, ["..", "log"]⟩⟩, .withWorkingDirectory []) ∧
      (mergeOn (FileSystem.host [] []) (.default ⟨.slash, []⟩) (overlaid fullPayload halfPayload) {}).run
          (.withWorkingDirectory []) =
        (.ok ⟨⟨.slash, []⟩, true, "ascii", false, ⟨.slash, ["..", "log"]⟩⟩, .withWorkingDirectory []) := by
  have hp : (mergeOn (FileSystem.host [] []) (.default ⟨.slash, []⟩) fullPayload {}).run (.withWorkingDirectory []) =
      (.ok ⟨⟨.slash, []⟩, true, "ascii", false, ⟨.slash, ["log"]⟩⟩, .withWorkingDirectory []) := by
    rw [run_mergeOn]
    cbv
  have hq : (mergeOn (FileSystem.host [] []) (.default ⟨.slash, []⟩) halfPayload {}).run (.withWorkingDirectory []) =
      (.ok ⟨⟨.slash, []⟩, false, "utf-8", false, ⟨.slash, ["..", "log"]⟩⟩, .withWorkingDirectory []) := by
    rw [run_mergeOn]
    cbv
  refine ⟨hp, hq, ?_⟩
  rw [← ((merge_layers hp hq).2 {}).1, run_mergeOn]
  cbv

end Settings

end TreePlan
