import Mathlib
import TreePlan.Proofs.Encoding.Faults
import TreePlan.Proofs.Json.Ascii
import TreePlan.Proofs.Json.Remnant
import TreePlan.Proofs.Trace.Store

/-! A record in a log that was left unfinished. It goes on with what stands behind the last end of a line: behind
blanks it is given back, behind anything else it is lost, and the records before it are given back without it.
Behind bytes that do not decode nothing is given back at all. -/

namespace TreePlan

namespace Record

variable {r : Record} {key : Text}

theorem printed_ascii (r : Record) : r.printed.Ascii := Json.print_ascii _

theorem mem_printFields {fields : Fields} {p : Text × Text} (h : p ∈ Json.printFields fields) :
    p.1 ∈ fields.keys := by
  rw [Json.printFields_eq_map] at h
  obtain ⟨q, hq, rfl⟩ := List.mem_map.1 h
  exact List.mem_map_of_mem hq

/-- A member begins with a quote, and the keys of a record with a letter. -/
theorem printPair_key (value : Text) (h : key ∈ (fields r).keys) : ∃ c s, Json.printPair (key, value) =
    CodePoint.ofChar '"' :: c :: s ∧ Json.isBlank c = false ∧ c ∉ Text.ofString ":,]\x7d" := by
  have hkeys : (fields r).keys = (["timestamp", "operation", "path", "ok", "error", "metadata"] : List Text) := rfl
  rw [hkeys] at h
  simp only [List.mem_cons, List.not_mem_nil, or_false] at h
  rcases h with rfl | rfl | rfl | rfl | rfl | rfl <;> exact ⟨_, _, rfl, by decide, by decide⟩

theorem printed_isObject (r : Record) : ∃ q, Json.IsObject r.printed q := by
  have hmem {p : Text × Text} (hp : p ∈ Json.sortByKey (Json.printFields r.fields)) : p.1 ∈ r.fields.keys :=
    mem_printFields ((Json.perm_sortByKey _).mem_iff.1 hp)
  have hne : Json.sortByKey (Json.printFields r.fields) ≠ [] := by
    intro hnil
    have hlen := (Json.perm_sortByKey (Json.printFields r.fields)).length_eq
    rw [hnil] at hlen
    cases hlen
  obtain ⟨p, ps, hp⟩ := List.exists_cons_of_ne_nil hne
  obtain ⟨c, s, hpair, hblank, hc⟩ := printPair_key p.2 (hmem (hp ▸ List.mem_cons_self))
  obtain ⟨q, hq⟩ : ∃ q, Text.unlines ", " ((p :: ps).map Json.printPair) = CodePoint.ofChar '"' :: c :: q := by
    rw [List.map_cons, hpair]
    cases ps.map Json.printPair with
    | nil => exact ⟨s, Text.unlines_singleton ..⟩
    | cons u us =>
      rw [Text.unlines_cons_cons]
      exact ⟨_, rfl⟩
  refine ⟨c :: (q ++ Text.ofString "\x7d"), ?_, c, _, rfl, hblank, hc⟩
  rw [printed, Json.print, hp, hq]
  rfl

end Record

namespace Log

open Utf8 (encodeName)

variable {now : Text} {input : Bytes} {path : Path} {fs gs : FileSystem} {earlier content : Bytes}
  {readable failuresOnly : Bool} {limit : Int} {r : Record} {fields : Fields} {t : Text}
  {fault : Utf8.DecodingFault} {f : Failure}

theorem extended_singleton (earlier : Bytes) (r : Record) :
    extended earlier [r] = earlier ++ encodeName (r.printed ++ [CodePoint.ofChar '\n']) := by
  simp [extended]

theorem decodeFrom_printed (r : Record) :
    Utf8.decodeFrom 0 (encodeName (r.printed ++ [CodePoint.ofChar '\n'])) =
      (r.printed ++ [CodePoint.ofChar '\n'], none) := by
  refine Utf8.decodeFrom_encodeName fun c hc => ?_
  rcases List.mem_append.1 hc with hc | hc
  · have hhi := (r.printed_ascii c hc).2
    omega
  · rw [List.mem_singleton.1 hc]
    decide

/-- The last line of a log that decodes is what was left of it with the record behind. -/
theorem records_of_decode (h : Utf8.decode earlier = .ok t) (r : Record) :
    records failuresOnly (extended earlier [r]) =
      ofLines failuresOnly (t.wholeLines ++ [t.remnant ++ r.printed]) := by
  obtain ⟨q, ho⟩ := r.printed_isObject
  have hwhole := Utf8.decodeFrom_append_eq (decodeFrom_of_decode h) (decodeFrom_printed r)
  rw [← extended_singleton] at hwhole
  have hascii := r.printed_ascii
  have hreturn : CodePoint.ofChar '\r' ∉ r.printed := fun hm => absurd (hascii _ hm).1 (by decide)
  have hne : r.printed ≠ [] := by simp [ho.eq]
  rw [records, Utf8.decodePieces_of_decodeFrom (by rwa [List.nil_append])]
  dsimp only
  rw [Text.lines_append_line hne hascii.no_newline hreturn]

/-- Bytes that do not decode still do not with a record behind them. -/
theorem decodePieces_extended (h : Utf8.decode earlier = .error fault) (r : Record) :
    ∃ t fault, Utf8.decodePieces [] (extended earlier [r]) = (t, some fault) := by
  obtain ⟨t, x, hx⟩ : ∃ t x, Utf8.decodePieces [] (extended earlier [r]) = (t, x) := ⟨_, _, rfl⟩
  cases x with
  | some fault => exact ⟨t, fault, hx⟩
  | none =>
    -- The record begins with an ASCII character, and where the whole decodes, so does what stands before that.
    obtain ⟨q, ho⟩ := r.printed_isObject
    have hwhole := Utf8.decodeFrom_of_decodePieces hx
    rw [List.nil_append, extended_singleton, ho.eq, List.cons_append, Utf8.encodeName_cons,
      Utf8.encodeNameChar_low (by decide)] at hwhole
    obtain ⟨s, hs⟩ := Utf8.decodeFrom_of_low (by decide) hwhole
    rw [Utf8.decode, hs] at h
    cases h

/-- The whole lines before the first piece of a log that does not decode. -/
def linesBefore (content : Bytes) : List Text :=
  (Text.splitOn '\n' (settled (Utf8.decodePieces [] content).1).unifyNewlines).dropLast

theorem records_of_fault (h : Utf8.decodePieces [] content = (t, some fault)) :
    records failuresOnly content =
      ofLines failuresOnly (linesBefore content) >>= fun _ => .error (.undecodable fault) := by
  rw [records, linesBefore, h]
  rfl

theorem objects_remnant (hread : Json.read r.printed = .ok (.map fields)) (t : Text) :
    objects [t ++ r.printed] = if Json.skipBlanks t = [] then [fields] else [] := by
  obtain ⟨q, ho⟩ := r.printed_isObject
  split
  · next ht => exact objects_singleton (Json.read_blanks_append ho hread ht)
  · next ht =>
    have hlost := Json.read_append_ne_ok ho hread ht
    cases hx : Json.read (t ++ r.printed) with
    | ok v => exact absurd hx (hlost v)
    | error x => simp [objects, hx]

theorem last_append_singleton {α : Type} {n : Nat} (hn : 1 ≤ n) (xs : List α) (x : α) :
    last n (xs ++ [x]) = last (n - 1) xs ++ [x] := by
  unfold last
  rw [List.length_append, List.length_singleton, show xs.length + 1 - n = xs.length - (n - 1) by omega,
    List.drop_append_of_le_length (by omega)]

/-- A log that does not decode is not read, for that reason or for another that comes before it. -/
theorem tail_of_fault (hheld : Holds fs path content readable) (hlimit : 1 ≤ limit)
    (hfault : Utf8.decodePieces [] content = (t, some fault)) :
    ∃ f, (tail (FileSystem.host now input) path limit failuresOnly).run fs = (.error f, fs) ∧
      (Hindered fs path readable limit (linesBefore content) f ∨ f = .undecodable fault) := by
  rcases hheld.file_or_absent with ⟨hfile, hread⟩ | ⟨-, rfl, -⟩
  swap
  · rw [Utf8.decodePieces] at hfault
    simp [Utf8.decodeFrom] at hfault
  by_cases hlarge : limitBound < limit
  · exact ⟨_, tail_of_large_limit hlarge hfile, .inl (.limit hfile hlarge)⟩
  have hbound := Int.not_lt.1 hlarge
  have htail {f : Failure} (hf : (fs.readFile path.toText >>= records failuresOnly) = .error f) :
      (tail (FileSystem.host now input) path limit failuresOnly).run fs = (.error f, fs) := by
    rw [tail_of_file hlimit hbound hfile, hf]
    rfl
  rw [hread] at htail
  cases readable with
  | false => exact ⟨_, htail rfl, .inl (.denied hfile hbound rfl)⟩
  | true =>
    have hrecords : (Except.ok content >>= records failuresOnly) = _ := records_of_fault hfault
    rcases first_oversized (linesBefore content) with hsized | ⟨before, line, after, n, hlines, hbefore, hline⟩
    · rw [ofLines_eq hsized] at hrecords
      exact ⟨_, htail hrecords, .inr rfl⟩
    · rw [hlines, ofLines_oversized hbefore hline] at hrecords
      exact ⟨_, htail hrecords, .inl (.oversized hbound rfl hlines hbefore hline)⟩

/-- What was recorded last is the last to be given back, if what the log held before decodes, nothing is in the
way, and there are only blanks where a line was begun. Otherwise it is lost in that line, or nothing is given
back. -/
theorem tail_recalls_last (hholds : Holds fs path earlier readable)
    (hread : Json.read r.printed = .ok (.map fields))
    (hrecorded : (record (FileSystem.host now input) path r).run fs = (.ok (), gs)) (hlimit : 1 ≤ limit) :
    (r.Plain → fields = r.recalled) ∧
      (∀ t, Utf8.decode earlier = .ok t →
        ((∀ f, ¬Hindered gs path readable limit (t.wholeLines ++ [t.remnant ++ r.printed]) f) →
          (tail (FileSystem.host now input) path limit false).run gs =
            (.ok (if Json.skipBlanks t.remnant = [] then last (limit.toNat - 1) (objects t.wholeLines) ++ [fields]
              else last limit.toNat (objects t.wholeLines)), gs)) ∧
        ∀ f, Hindered gs path readable limit (t.wholeLines ++ [t.remnant ++ r.printed]) f →
          (tail (FileSystem.host now input) path limit false).run gs = (.error f, gs)) ∧
      ∀ x, Utf8.decode earlier = .error x →
        ∃ f, (tail (FileSystem.host now input) path limit false).run gs = (.error f, gs) ∧
          (Hindered gs path readable limit (linesBefore (extended earlier [r])) f ∨ ∃ y, f = .undecodable y) := by
  have hheld := holds_record hholds hrecorded
  refine ⟨fun hplain => ?_, fun t ht => ⟨fun hclear => ?_, fun f hf => ?_⟩, fun x hx => ?_⟩
  · rw [Record.read_printed hplain] at hread
    cases hread
    rfl
  · rw [tail_of_clear hheld hlimit (records_of_decode ht r) hclear, objects_append, objects_remnant hread]
    have hone : 1 ≤ limit.toNat := by omega
    split
    · rw [← last_append_singleton hone]
      rfl
    · rw [List.append_nil]
      rfl
  · exact tail_of_hindered hheld hlimit (records_of_decode ht r) hf
  · obtain ⟨t, y, hfault⟩ := decodePieces_extended hx r
    obtain ⟨f, htail, hf⟩ := tail_of_fault hheld hlimit hfault
    exact ⟨f, htail, hf.imp_right fun hf => ⟨y, hf⟩⟩

/-- A log whose last line was cut off. -/
def cutText : Text := "\x7b\"ok\": true\x7d\n\x7b\"op"

def cutShelf : FileSystem :=
  { nodes := [([], FileSystem.rootNode), ([encodeName "t"], ⟨.file (encodeName cutText), 0o644, 0, 0⟩)]
    workingDirectory := [] }

/-- A record that is lost in the line that was cut off. -/
theorem tail_recalls_last_cut :
    ∃ gs, (record (FileSystem.host [] []) (.ofText "t") success).run cutShelf = (.ok (), gs) ∧
      (tail (FileSystem.host [] []) (.ofText "t") 5 false).run gs = (.ok [[("ok", .bool true)]], gs) := by
  obtain ⟨gs, hrecorded, hfile⟩ : ∃ gs,
      (record (FileSystem.host [] []) (.ofText "t") success).run cutShelf = (.ok (), gs) ∧
        gs.isFile (Path.ofText "t").toText = .ok true := ⟨_, by cbv, by cbv⟩
  have hholds : Holds cutShelf (.ofText "t") (encodeName cutText) true := .file (by cbv) rfl rfl
  have hdecode : Utf8.decode (encodeName cutText) = .ok cutText := by cbv
  have hwhole : cutText.wholeLines = [Text.ofString "\x7b\"ok\": true\x7d"] := by decide
  have hremnant : cutText.remnant = "\x7b\"op" := by decide
  have hfirst : Json.read "\x7b\"ok\": true\x7d" = .ok (.map [("ok", .bool true)]) := by cbv
  have hlast : Json.read ("\x7b\"op" ++ success.printed) = .error .expectingColon := by cbv
  have hread : Json.read success.printed = .ok (.map success.recalled) := Record.read_printed success_plain
  have hlimit : (1 : Int) ≤ 5 := by decide
  obtain ⟨-, hgiven, -⟩ := tail_recalls_last hholds hread hrecorded hlimit
  have hclear : ∀ f, ¬Hindered gs (.ofText "t") true 5
      (cutText.wholeLines ++ [cutText.remnant ++ success.printed]) f := by
    rw [hwhole, hremnant]
    intro f h
    cases h with
    | unseen h =>
      rw [hfile] at h
      cases h
    | limit _ h => exact absurd h (by decide)
    | denied _ _ h => cases h
    | @oversized before after line n _ _ hlines _ hline =>
      have hmem : line ∈ [Text.ofString "\x7b\"ok\": true\x7d", "\x7b\"op" ++ success.printed] := by
        rw [← List.singleton_append, hlines]
        simp
      unfold Oversized at hline
      rcases List.mem_pair.1 hmem with rfl | rfl
      · rw [hfirst] at hline
        cases hline
      · rw [hlast] at hline
        cases hline
  have hobjects : objects cutText.wholeLines = ([[("ok", .bool true)]] : List Fields) := by
    rw [hwhole, objects_singleton hfirst]
  have hopen : Json.skipBlanks cutText.remnant ≠ [] := by
    rw [hremnant]
    decide
  have hgiven := (hgiven cutText hdecode).1 hclear
  rw [hobjects, if_neg hopen] at hgiven
  exact ⟨gs, hrecorded, hgiven⟩

end Log

end TreePlan
