import TreePlan.Proofs.Build.Unwritten
import TreePlan.Proofs.Settings.Merging

/-! Encodings, from the settings that name one to the files that are written in it. A name that the settings
take is the name of a codec. Where that is a character set, nothing but a character that the set lacks is
in the way of a content. Where it is a transformation of bytes, no content can be written at all, which is
found out only when the file is there. -/

namespace TreePlan

open Run (Ends)

/-! What is wrong with a text that a character set can't encode. -/

/-- A fault marks the first characters of a text that the set lacks. -/
structure EncodingFault.Marks (f : EncodingFault) (t : Text) : Prop where
  first : t[f.start]? = some f.first
  start_lt : f.start < f.stop
  stop_le : f.stop ≤ t.length
  fits : ∀ c ∈ t.take f.start, f.charset.lacks c = false
  lacks : ∀ c ∈ (t.take f.stop).drop f.start, f.charset.lacks c = true

namespace Charset

variable {cs : Charset} {t r : Text} {c : CodePoint} {f : EncodingFault}

theorem fits_of_fault?_eq_none (h : cs.fault? t = none) : ∀ c ∈ t, cs.lacks c = false := by
  unfold fault? at h
  split at h
  · next hdrop => simpa using List.dropWhile_eq_nil_iff.1 hdrop
  · cases h

/-- What is reported as lacking is a run of characters that are. -/
theorem lacks_of_mem_take_run (hc : cs.lacks c = true) {run : Nat}
    (hrun : run = if cs.reportsRuns then (r.takeWhile cs.lacks).length + 1 else 1) :
    run ≤ r.length + 1 ∧ 0 < run ∧ ∀ x ∈ (c :: r).take run, cs.lacks x = true := by
  subst hrun
  split
  · have hprefix : r.takeWhile cs.lacks <+: r := List.takeWhile_prefix _
    refine ⟨Nat.succ_le_succ hprefix.length_le, Nat.succ_pos _, fun x hx => ?_⟩
    rw [List.take_succ_cons, ← List.prefix_iff_eq_take.1 hprefix] at hx
    rcases List.mem_cons.1 hx with rfl | hx
    · exact hc
    · exact List.mem_takeWhile_imp hx
  · exact ⟨Nat.succ_le_succ (Nat.zero_le _), Nat.one_pos, by simpa using hc⟩

theorem marks_of_fault?_eq_some (h : cs.fault? t = some f) : f.charset = cs ∧ f.Marks t := by
  unfold fault? at h
  split at h
  · cases h
  · next c r hdrop =>
    dsimp only at h
    have hc : cs.lacks c = true := by
      have hhead := List.head?_dropWhile_not (fun c => !cs.lacks c) t
      simpa [hdrop] using hhead
    obtain ⟨s, hs, rfl⟩ : ∃ s, (∀ x ∈ s, cs.lacks x = false) ∧ t = s ++ c :: r := by
      refine ⟨t.takeWhile fun c => !cs.lacks c, fun x hx => ?_, ?_⟩
      · simpa using List.mem_takeWhile_imp hx
      · rw [← hdrop, List.takeWhile_append_dropWhile]
    clear hdrop
    generalize hrun : (if cs.reportsRuns then (r.takeWhile cs.lacks).length + 1 else 1) = run at h
    obtain ⟨hle, hpos, hlacks⟩ := lacks_of_mem_take_run hc hrun.symm
    have hstart : (s ++ c :: r).length - (r.length + 1) = s.length := by simp
    rw [hstart] at h
    cases h
    refine ⟨rfl, ?_, ?_, ?_, ?_, ?_⟩
    · simp
    · exact Nat.lt_add_of_pos_right hpos
    · simpa using hle
    · simpa using hs
    · simpa [List.take_append] using hlacks

end Charset

namespace Codec

/-- What comes of encoding a content in what a name stands for. -/
inductive Fares (name content : Text) : Codec → Except Failure Bytes → Prop where
  | written {cs : Charset} : (∀ c ∈ content, cs.lacks c = false) →
      Fares name content (.charset cs) (.ok (cs.mark ++ content.flatMap fun c => (cs.encodeChar? c).getD []))
  | lacking {fault : EncodingFault} : fault.Marks content →
      Fares name content (.charset fault.charset) (.error (.unencodable fault))
  | unfit : Fares name content .transformation (.error (.encodingName (.notForText name)))

variable {name content : Text} {codec : Codec}

theorem fares_encodeContent (h : lookup name = .ok codec) (content : Text) :
    codec.Fares name content (Build.encodeContent name content) := by
  unfold Build.encodeContent Charset.lookup
  rw [h]
  cases codec with
  | transformation => exact .unfit
  | charset cs =>
    show Fares name content _ ((cs.encode content).mapError Failure.unencodable)
    unfold Charset.encode
    cases hfault : cs.fault? content with
    | none => exact .written (Charset.fits_of_fault?_eq_none hfault)
    | some fault =>
      obtain ⟨rfl, hmarks⟩ := Charset.marks_of_fault?_eq_some hfault
      exact .lacking hmarks

/-- A content fails for its encoding's name just where that is the name of a transformation. -/
theorem exists_lookup_failure_iff (h : lookup name = .ok codec) :
    (∃ content f, Build.encodeContent name content = .error f ∧ f.kind = .lookup) ↔
      codec = .transformation := by
  refine ⟨?_, ?_⟩
  · intro hfails
    obtain ⟨content, f, hcode, hkind⟩ := hfails
    have hfares := fares_encodeContent h content
    rw [hcode] at hfares
    cases hfares with
    | lacking => cases hkind
    | unfit => rfl
  · intro hcodec
    subst hcodec
    have hfares := fares_encodeContent h []
    generalize hcode : Build.encodeContent name [] = r at hfares
    cases hfares with
    | unfit => exact ⟨[], _, hcode, rfl⟩

end Codec

namespace Settings

/-- The name that is given for the encoding, by an override or else by the settings file. -/
inductive Named (payload : Fields) (o : Overrides) (name : Text) : Prop where
  | override : o.encoding = some name → Named payload o name
  | document {layout : Fields} : o.encoding = none → payload.get? "layout" = some (.map layout) →
      layout.get? "content_encoding" = some (.text name) → Named payload o name

variable {base s : Settings} {payload : Fields} {o : Overrides} {name : Text}

theorem exists_codec_of_merge (hnamed : Named payload o name) (h : merge base payload o = .ok s) :
    s.encoding = name ∧ ∃ codec, Codec.lookup name = .ok codec := by
  obtain ⟨middle, hoverlay, hoverride⟩ := bind_eq_ok_iff.1 h
  obtain ⟨hsound, rfl⟩ := overlay_eq_ok_iff.1 hoverlay
  obtain ⟨hcodec, rfl⟩ := override_eq_ok_iff.1 hoverride
  cases hnamed with
  | override ho =>
    refine ⟨?_, hcodec name ho⟩
    show o.encoding.getD _ = name
    rw [ho, Option.getD_some]
  | @document layout ho hlayout hname =>
    have hencoding : encodingIn payload = some (.text name) := by
      rw [encodingIn, table, hlayout]
      exact hname
    refine ⟨?_, ?_⟩
    · show o.encoding.getD ((text? (encodingIn payload)).getD _) = name
      rw [ho, hencoding]
      rfl
    · have hname := hsound.encoding
      rw [hencoding] at hname
      cases hname with
      | given hcodec => exact ⟨_, hcodec⟩

/-- What has become of the contents of entries when a run over them has ended: if it stopped at a write, the
system has refused that or the content has not been encoded, and if it ended well each file has its
content. -/
structure Encodes (codec : Codec) (name : Text) (es : List Entry) (log : List Exchange)
    (r : Except Stop (List Path)) : Prop where
  stopped : ∀ l, r = .error (.located l) → l.operation = .write →
    (∃ path bytes f, (.write path bytes, .error f) ∈ log ∧ l.reason = f.reason) ∨
      ∃ e content f, es[l.index]? = some e ∧ e.content = some content ∧
        codec.Fares name content (.error f) ∧ l.reason = f.reason
  written : ∀ paths, r = .ok paths → ∀ e ∈ es, e.isDirectory = false → e.target = none →
    ∀ content, e.content = some content →
      ∃ path bytes, codec.Fares name content (.ok bytes) ∧ (.write path bytes, .ok ()) ∈ log

theorem encodes_of_ends {codec : Codec} (hlookup : Codec.lookup name = .ok codec) {observed : Bool}
    {root : Path} {es : List Entry} {log : List Exchange} {r : Except Stop (List Path)}
    (h : Ends (Build.entries { encoding := name, observed } root es) log r) :
    Encodes codec name es log r := by
  have hfares := Codec.fares_encodeContent hlookup
  refine ⟨?_, ?_⟩
  · rintro l rfl hw
    rcases Build.stops_at_write h hw with hrefused | ⟨e, content, f, he, hcontent, hcode, hreason⟩
    · exact .inl hrefused
    · exact .inr ⟨e, content, f, he, hcontent, hcode ▸ hfares content, hreason⟩
  · rintro paths rfl e he hfile hplain content hcontent
    obtain ⟨path, bytes, hcode, hwritten⟩ := Build.written_of_ok h he hfile hplain hcontent
    exact ⟨path, bytes, hcode ▸ hfares content, hwritten⟩

/-- Settings take a name for the encoding only if it is that of a codec. Under it a content can fail for no
other reason than a character that its set lacks, unless the codec is a transformation, under which every
content fails for the name; and no run over entries has any other trouble with the encoding. -/
theorem merge_encoding (hnamed : Named payload o name) (h : merge base payload o = .ok s) :
    s.encoding = name ∧ ∃ codec, Codec.lookup name = .ok codec ∧
      (∀ content, codec.Fares name content (Build.encodeContent s.encoding content)) ∧
      ((∃ content f, Build.encodeContent s.encoding content = .error f ∧ f.kind = .lookup) ↔
        codec = .transformation) ∧
      ∀ (observed : Bool) (root : Path) (es : List Entry) (log : List Exchange)
        (r : Except Stop (List Path)),
        Ends (Build.entries { encoding := s.encoding, observed } root es) log r →
          Encodes codec name es log r := by
  obtain ⟨hencoding, codec, hlookup⟩ := exists_codec_of_merge hnamed h
  rw [hencoding]
  exact ⟨rfl, codec, hlookup, Codec.fares_encodeContent hlookup, Codec.exists_lookup_failure_iff hlookup,
    fun _ _ _ _ _ => encodes_of_ends hlookup⟩

/-- A settings file that names an encoding by one of its other names. -/
def latinPayload : Fields := [("layout", .map [("content_encoding", .text "ISO 8859-1")])]

theorem merge_encoding_latin :
    Named latinPayload {} "ISO 8859-1" ∧
      merge (.default .here) latinPayload {} = .ok { Settings.default .here with encoding := "ISO 8859-1" } ∧
      ∀ content f, Build.encodeContent "ISO 8859-1" content = .error f → f.kind ≠ .lookup := by
  have hnamed : Named latinPayload {} "ISO 8859-1" := .document rfl rfl rfl
  have hmerge : merge (.default .here) latinPayload {} =
      .ok { Settings.default .here with encoding := "ISO 8859-1" } := by cbv
  obtain ⟨-, codec, hlookup, -, hiff, -⟩ := merge_encoding hnamed hmerge
  refine ⟨hnamed, hmerge, fun content f hcode hkind => ?_⟩
  obtain rfl := hiff.1 ⟨content, f, hcode, hkind⟩
  have hlatin : Codec.lookup "ISO 8859-1" = .ok (.charset .latin1) := by cbv
  cases hlatin.symm.trans hlookup

/-- A transformation is taken for an encoding, and a file is made whose content can't be written. -/
theorem merge_takes_transformation :
    merge (.default .here) [] { encoding := some "hex" } = .ok { Settings.default .here with encoding := "hex" } ∧
      Build.encodeContent "hex" "x" = .error (.encodingName (.notForText "hex")) ∧
      (Failure.encodingName (.notForText "hex")).kind = .lookup ∧
      (Build.entries { encoding := "hex" } .here
        [{ name := "f", level := 0, line := 1, content := some "x" }]).play .smooth =
          (.error (.located ((Build.writing 0 (.ofText "f") "x").located
            "'hex' is not a text encoding; use codecs.encode() to handle arbitrary codecs")),
          [(.createFile (.ofText "f"), .ok ()), (.close (.ofText "f"), .ok ())]) := by
  refine ⟨?_, ?_, rfl, ?_⟩
  · cbv
  · cbv
  · cbv

end Settings

end TreePlan
