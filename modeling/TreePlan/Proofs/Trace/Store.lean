import Mathlib
import TreePlan.Proofs.FileSystem.Appending
import TreePlan.Proofs.Trace.Recall
import TreePlan.Trace.Store

/-! A log on a file system. Each record goes to the end of the file, which is made with the first if it is
not there, and the last records that are asked for are the last of all that the file holds: of the objects
among the lines that it held before and of the records in their order. -/

namespace TreePlan.Log

open Utf8 (encodeName)

open FileSystem (makeDirectories)

variable {now : Text} {input : Bytes} {path : Path} {fs gs : FileSystem} {earlier : Bytes}
  {readable failuresOnly : Bool} {limit : Int} {r : Record} {rs : List Record} {t : Text}

/-- What a log holds and whether it may be read: nothing as long as there is no file, not even once its
directory has been made. -/
inductive Holds (fs : FileSystem) (path : Path) : Bytes → Bool → Prop where
  | file {a : Address} {n : Node} {content : Bytes} {readable : Bool} :
      fs.find .followed path.toText = .ok (a, n) → n.kind = .file content → n.grants .read = readable →
      Holds fs path content readable
  | absent : fs.isFile path.toText ≠ .ok true →
      (makeDirectories path.parent fs).2.isFile path.toText ≠ .ok true → Holds fs path [] true

/-! To record is to append. -/

theorem line_eq_ok {text : Text} (h : line r = .ok text) : text = r.printed ++ [CodePoint.ofChar '\n'] := by
  unfold line at h
  split at h
  · cases h
  · cases h
    rfl

theorem change_eq_ok {f : FileSystem → Except Failure FileSystem}
    (h : FileSystem.change f fs = (.ok (), gs)) : f fs = .ok gs := by
  unfold FileSystem.change at h
  split at h
  · next heq =>
    cases h
    exact heq
  · cases h

theorem record_eq_ok (h : (record (FileSystem.host now input) path r).run fs = (.ok (), gs)) :
    (makeDirectories path.parent fs).2.append path.toText
      (encodeName (r.printed ++ [CodePoint.ofChar '\n'])) = .ok gs := by
  unfold record at h
  obtain ⟨_, hs, hmake, hwrite⟩ := run_bind_eq_ok h
  obtain ⟨text, ms, hlifted, happend⟩ := run_bind_eq_ok hwrite
  have hdirectories : (makeDirectories path.parent fs).2 = hs := congrArg Prod.snd hmake
  obtain ⟨hline, hsame⟩ := run_liftM_eq_ok hlifted
  rw [hdirectories, ← line_eq_ok hline, ← hsame]
  exact change_eq_ok (f := fun fs => fs.append path.toText (encodeName text)) happend

/-- A record goes to the end of what the log holds. -/
theorem holds_record (hholds : Holds fs path earlier readable)
    (h : (record (FileSystem.host now input) path r).run fs = (.ok (), gs)) :
    Holds gs path (extended earlier [r]) readable := by
  have happend := record_eq_ok h
  have hextended : extended earlier [r] = earlier ++ encodeName (r.printed ++ [CodePoint.ofChar '\n']) := by
    simp [extended]
  rw [hextended]
  cases hholds with
  | file hf hk hr =>
    have hmade := (FileSystem.makeDirectories_extends path.parent fs).find hf
    obtain ⟨m, hfm, hkm, hgrants⟩ := FileSystem.find_append hmade hk happend
    exact .file hfm hkm (by rw [hgrants, hr])
  | absent _ hmade =>
    obtain ⟨b, m, hfm, hkm, hr⟩ := FileSystem.find_append_new hmade happend
    exact .file hfm hkm hr

theorem extended_append (earlier : Bytes) (r : Record) (rs : List Record) :
    extended (extended earlier [r]) rs = extended earlier (r :: rs) := by
  unfold extended
  rw [List.flatMap_cons, List.flatMap_cons, List.flatMap_nil, List.append_nil, Utf8.encodeName_append _
    (rs.flatMap _), List.append_assoc]

/-- All records go to the end of what the log holds, one after the other. -/
theorem holds_records (hholds : Holds fs path earlier readable)
    (h : (rs.forM (record (FileSystem.host now input) path)).run fs = (.ok (), gs)) :
    Holds gs path (extended earlier rs) readable := by
  induction rs generalizing fs earlier with
  | nil =>
    cases h
    simpa [extended, encodeName] using hholds
  | cons r rs ih =>
    have hcons : (record (FileSystem.host now input) path r >>= fun _ =>
        rs.forM (record (FileSystem.host now input) path)).run fs = (.ok (), gs) := h
    obtain ⟨_, hs, hr, hrest⟩ := run_bind_eq_ok hcons
    rw [← extended_append]
    exact ih (holds_record hholds hr) hrest

/-! To ask for the last records is to look whether there is a file, and to read it. -/

theorem tail_eq (hlimit : 1 ≤ limit) :
    tail (FileSystem.host now input) path limit failuresOnly = (do
      unless ← (FileSystem.host now input).isFile path.toText do return []
      if limitBound < limit then throw .limitTooLarge
      let records ← liftM (records failuresOnly (← (FileSystem.host now input).readFile path.toText))
      return last limit.toNat records) := by
  rw [tail, if_neg (by omega)]

theorem look_run {x : Except Failure Bool} (h : fs.isFile path.toText = x) :
    ((FileSystem.host now input).isFile path.toText).run fs = (x, fs) := by
  rw [← h]
  rfl

theorem tail_of_unseen {f : Failure} (hlimit : 1 ≤ limit) (h : fs.isFile path.toText = .error f) :
    (tail (FileSystem.host now input) path limit failuresOnly).run fs = (.error f, fs) := by
  rw [tail_eq hlimit]
  exact run_bind_of_error (look_run h)

theorem tail_of_no_file (hlimit : 1 ≤ limit) (h : fs.isFile path.toText = .ok false) :
    (tail (FileSystem.host now input) path limit failuresOnly).run fs = (.ok [], fs) := by
  rw [tail_eq hlimit]
  exact run_bind_of_ok (look_run h)

theorem tail_of_large_limit (hlimit : limitBound < limit) (h : fs.isFile path.toText = .ok true) :
    (tail (FileSystem.host now input) path limit failuresOnly).run fs = (.error .limitTooLarge, fs) := by
  have hpos : 1 ≤ limit := by
    have : (1 : Int) ≤ limitBound := by decide
    omega
  rw [tail_eq hpos]
  refine (run_bind_of_ok (look_run h)).trans ?_
  simp only [if_pos hlimit]
  rfl

theorem tail_of_file (hlimit : 1 ≤ limit) (hbound : limit ≤ limitBound)
    (h : fs.isFile path.toText = .ok true) :
    (tail (FileSystem.host now input) path limit failuresOnly).run fs =
      ((fs.readFile path.toText >>= records failuresOnly).map (last limit.toNat), fs) := by
  rw [tail_eq hlimit]
  refine (run_bind_of_ok (look_run h)).trans ?_
  simp only [if_neg (Int.not_lt.2 hbound)]
  have hread : ((FileSystem.host now input).readFile path.toText).run fs =
      (fs.readFile path.toText, fs) := rfl
  cases hcontent : fs.readFile path.toText with
  | error f =>
    rw [hcontent] at hread
    exact run_bind_of_error hread
  | ok content =>
    rw [hcontent] at hread
    refine (run_bind_of_ok hread).trans ?_
    show _ = ((records failuresOnly content).map (last limit.toNat), fs)
    cases records failuresOnly content <;> rfl

/-- What may keep a log from being read: it can't be looked at, more is asked for than can be, it is not
to be read, or one of its lines, the first such, holds an integer that is too long. -/
inductive Hindered (fs : FileSystem) (path : Path) (readable : Bool) (limit : Int) (lines : List Text) :
    Failure → Prop where
  | unseen {f : Failure} : fs.isFile path.toText = .error f → Hindered fs path readable limit lines f
  | limit : fs.isFile path.toText = .ok true → limitBound < limit →
      Hindered fs path readable limit lines .limitTooLarge
  | denied : fs.isFile path.toText = .ok true → limit ≤ limitBound → readable = false →
      Hindered fs path readable limit lines (.system .accessDenied)
  | oversized {before after : List Text} {line : Text} {n : Nat} : limit ≤ limitBound → readable = true →
      lines = before ++ line :: after → (∀ l ∈ before, ∀ n, ¬Oversized l n) → Oversized line n →
      Hindered fs path readable limit lines (.oversized (.integerTooLong n))

section Lines

variable {content : Bytes} {lines more : List Text} {f : Failure}

/-- Where nothing is in the way, a file may be read, and so can all its lines. -/
theorem not_hindered (h : ∀ f, ¬Hindered fs path readable limit lines f)
    (hfile : fs.isFile path.toText = .ok true) :
    limit ≤ limitBound ∧ readable = true ∧ ∀ line ∈ lines, ∀ n, ¬Oversized line n := by
  have hbound : limit ≤ limitBound := Int.not_lt.1 fun hlarge => h _ (.limit hfile hlarge)
  have hreadable : readable = true := by
    cases readable with
    | true => rfl
    | false => exact absurd (.denied hfile hbound rfl) (h _)
  refine ⟨hbound, hreadable, ?_⟩
  rcases first_oversized lines with hsized | ⟨before, line, after, n, hlines, hbefore, hline⟩
  · exact hsized
  · exact absurd (.oversized hbound hreadable hlines hbefore hline) (h _)

/-- What is in the way of some lines is in the way of more. -/
theorem Hindered.append (h : Hindered fs path readable limit lines f) (more : List Text) :
    Hindered fs path readable limit (lines ++ more) f := by
  cases h with
  | unseen h => exact .unseen h
  | limit hfile hlarge => exact .limit hfile hlarge
  | denied hfile hbound hdenied => exact .denied hfile hbound hdenied
  | oversized hbound hreadable hlines hbefore hline =>
    exact .oversized hbound hreadable (by rw [hlines, List.append_assoc, List.cons_append]) hbefore hline

/-- Lines that can be read do not hinder anyone from reading others. -/
theorem Hindered.of_append (h : Hindered fs path readable limit (lines ++ more) f)
    (hmore : ∀ line ∈ more, ∀ n, ¬Oversized line n) : ∃ f, Hindered fs path readable limit lines f := by
  cases h with
  | unseen h => exact ⟨f, .unseen h⟩
  | limit hfile hlarge => exact ⟨_, .limit hfile hlarge⟩
  | denied hfile hbound hdenied => exact ⟨_, .denied hfile hbound hdenied⟩
  | @oversized _ _ line n hbound hreadable hlines hbefore hline =>
    rcases first_oversized lines with hsized | ⟨before, line', after, n', hlines', hbefore', hline'⟩
    · have hmem : line ∈ lines ++ more := by simp [hlines]
      rcases List.mem_append.1 hmem with hm | hm
      · exact absurd hline (hsized line hm n)
      · exact absurd hline (hmore line hm n)
    · exact ⟨_, .oversized hbound hreadable hlines' hbefore' hline'⟩

theorem Holds.file_or_absent (h : Holds fs path content readable) :
    fs.isFile path.toText = .ok true ∧
        fs.readFile path.toText = (if readable then .ok content else .error (.system .accessDenied)) ∨
      fs.isFile path.toText ≠ .ok true ∧ content = [] ∧ readable = true := by
  cases h with
  | file hf hk hr =>
    refine .inl ⟨?_, ?_⟩
    · rw [FileSystem.isFile_of_find hf, Node.isFile, hk]
    · rw [FileSystem.readFile_of_find hf hk, hr]
  | absent hno _ => exact .inr ⟨hno, rfl, rfl⟩

theorem records_nil : records failuresOnly [] = .ok [] := by
  cases failuresOnly <;> cbv

/-- The last records of a log that nothing hinders anyone from reading. -/
theorem tail_of_clear (hheld : Holds fs path content readable) (hlimit : 1 ≤ limit)
    (hlines : records failuresOnly content = ofLines failuresOnly lines)
    (hclear : ∀ f, ¬Hindered fs path readable limit lines f) :
    (tail (FileSystem.host now input) path limit failuresOnly).run fs =
      (.ok (last limit.toNat (chosen failuresOnly (objects lines))), fs) := by
  rcases hheld.file_or_absent with ⟨hfile, hread⟩ | ⟨hno, hcontent, -⟩
  · obtain ⟨hbound, hreadable, hsized⟩ := not_hindered hclear hfile
    have hfound : (fs.readFile path.toText >>= records failuresOnly) =
        .ok (chosen failuresOnly (objects lines)) := by
      rw [hread, if_pos hreadable, ← ofLines_eq hsized, ← hlines]
      rfl
    rw [tail_of_file hlimit hbound hfile, hfound]
    rfl
  · have hfile : fs.isFile path.toText = .ok false := by
      cases hlook : fs.isFile path.toText with
      | error f => exact absurd (.unseen hlook) (hclear f)
      | ok b =>
        cases b with
        | false => rfl
        | true => exact absurd hlook hno
    rw [hcontent, records_nil] at hlines
    rw [tail_of_no_file hlimit hfile, ← ofLines_eq_ok hlines.symm, last, List.drop_nil]

/-- Whatever hinders a reader of a log is what the reader is told. -/
theorem tail_of_hindered (hheld : Holds fs path content readable) (hlimit : 1 ≤ limit)
    (hlines : records failuresOnly content = ofLines failuresOnly lines)
    (h : Hindered fs path readable limit lines f) :
    (tail (FileSystem.host now input) path limit failuresOnly).run fs = (.error f, fs) := by
  cases h with
  | unseen hunseen => exact tail_of_unseen hlimit hunseen
  | limit hfile hlarge => exact tail_of_large_limit hlarge hfile
  | denied hfile hbound hdenied =>
    rcases hheld.file_or_absent with ⟨-, hread⟩ | ⟨-, -, hreadable⟩
    · rw [tail_of_file hlimit hbound hfile, hread, hdenied]
      rfl
    · rw [hdenied] at hreadable
      cases hreadable
  | @oversized _ _ _ n hbound hreadable hsplit hbefore hline =>
    rw [hsplit, ofLines_oversized hbefore hline] at hlines
    rcases hheld.file_or_absent with ⟨hfile, hread⟩ | ⟨-, hcontent, -⟩
    · have hfound : (fs.readFile path.toText >>= records failuresOnly) =
          .error (.oversized (.integerTooLong n)) := by
        rw [hread, if_pos hreadable, ← hlines]
        rfl
      rw [tail_of_file hlimit hbound hfile, hfound]
      rfl
    · rw [hcontent, records_nil] at hlines
      cases hlines

end Lines

/-- A log gives back what was recorded, behind the objects among the lines that it held before: the last
records asked for are the last of these. It does unless something is in the way, and then it says what. -/
theorem tail_recalls (hholds : Holds fs path earlier readable) (hdecode : Utf8.decode earlier = .ok t)
    (hterminated : t.Terminated) (hplain : ∀ r ∈ rs, r.Plain)
    (hrecorded : (rs.forM (record (FileSystem.host now input) path)).run fs = (.ok (), gs))
    (hlimit : 1 ≤ limit) :
    ((∀ f, ¬Hindered gs path readable limit t.unifyNewlines.lines f) →
        (tail (FileSystem.host now input) path limit failuresOnly).run gs =
          (.ok (last limit.toNat (chosen failuresOnly
            (objects t.unifyNewlines.lines ++ rs.map Record.recalled))), gs)) ∧
      ∀ f, Hindered gs path readable limit t.unifyNewlines.lines f →
        (tail (FileSystem.host now input) path limit failuresOnly).run gs = (.error f, gs) := by
  have hheld := holds_records hholds hrecorded
  have hlines : records failuresOnly (extended earlier rs) =
      ofLines failuresOnly (t.unifyNewlines.lines ++ rs.map Record.printed) :=
    records_extended hdecode hterminated hplain
  have hsized : ∀ line ∈ rs.map Record.printed, ∀ n, ¬Oversized line n := by
    intro line hline
    obtain ⟨r, hr, rfl⟩ := List.mem_map.1 hline
    exact not_oversized_printed (hplain r hr)
  refine ⟨fun hclear => ?_, fun f hhindered => ?_⟩
  · rw [← objects_printed hplain, ← objects_append]
    refine tail_of_clear hheld hlimit hlines fun f hhindered => ?_
    obtain ⟨f', hhindered⟩ := hhindered.of_append hsized
    exact hclear f' hhindered
  · exact tail_of_hindered hheld hlimit hlines (hhindered.append _)

/-- A log that someone wrote into by hand, alone in its directory. -/
def logged : Text := "# by hand\n\x7b\"ok\": false\x7d\r\n"

def shelf : FileSystem :=
  { nodes := [([], FileSystem.rootNode), ([encodeName "t"], ⟨.file (encodeName logged), 0o644, 0, 0⟩)]
    workingDirectory := [] }

def refusal : Record :=
  ⟨"2026-01-01T00:00:00.000Z",
    { operation := "link", path := [CodePoint.ofNat 0xD800], ok := false, error := some "a\nb",
      metadata := [("mode", .int 0o644), ("level", .int 0)] }⟩

def success : Record := ⟨"2026-01-01T00:00:00.001Z", { operation := "create", path := "f", ok := true }⟩

theorem refusal_plain : refusal.Plain where
  timestamp := by decide
  operation := by decide
  path := by decide
  error := by
    intro t ht
    cases ht
    decide
  keys_nodup := by decide
  keys := by decide
  values := by
    intro p hp
    rcases List.mem_pair.1 hp with rfl | rfl
    · exact ⟨Value.plain_int_of_lt (by decide), rfl⟩
    · exact ⟨Value.plain_int_of_lt (by decide), rfl⟩

theorem success_plain : success.Plain where
  timestamp := by decide
  operation := by decide
  path := by decide
  error := nofun
  keys_nodup := .nil
  keys := nofun
  values := nofun

theorem logged_lines : logged.unifyNewlines.lines = ["# by hand", "\x7b\"ok\": false\x7d"] := by decide

theorem logged_sized : ∀ line ∈ logged.unifyNewlines.lines, ∀ n, ¬Oversized line n := by
  rw [logged_lines]
  intro line hline n hn
  rcases List.mem_pair.1 hline with rfl | rfl
  · have hread : Json.read "# by hand" = .error .expectingValue := by cbv
    rw [Oversized, hread] at hn
    cases hn
  · have hread : Json.read "\x7b\"ok\": false\x7d" = .ok (.map [("ok", .bool false)]) := by cbv
    rw [Oversized, hread] at hn
    cases hn

/-- The last two failures, of which one was in the log before. -/
theorem tail_recalls_refusal :
    ∃ gs, ([refusal, success].forM (record (FileSystem.host [] []) (.ofText "t"))).run shelf = (.ok (), gs) ∧
      (tail (FileSystem.host [] []) (.ofText "t") 2 true).run gs =
        (.ok [[("ok", .bool false)], refusal.recalled], gs) := by
  obtain ⟨gs, hrecorded, hfile⟩ : ∃ gs,
      ([refusal, success].forM (record (FileSystem.host [] []) (.ofText "t"))).run shelf = (.ok (), gs) ∧
        gs.isFile (Path.ofText "t").toText = .ok true := ⟨_, by cbv, by cbv⟩
  have hholds : Holds shelf (.ofText "t") (encodeName logged) true := .file (by cbv) rfl rfl
  have hdecode : Utf8.decode (encodeName logged) = .ok logged := by cbv
  have hterminated : logged.Terminated := by
    have hlast : logged.getLast? = some (CodePoint.ofChar '\n') := by cbv
    intro c hc
    rw [hlast] at hc
    cases hc
    exact .inl rfl
  have hplain : ∀ r ∈ [refusal, success], r.Plain := by
    intro r hr
    rcases List.mem_pair.1 hr with rfl | rfl
    · exact refusal_plain
    · exact success_plain
  have hclear : ∀ f, ¬Hindered gs (.ofText "t") true 2 logged.unifyNewlines.lines f := by
    intro f h
    cases h with
    | unseen h =>
      rw [hfile] at h
      cases h
    | limit _ h => exact absurd h (by decide)
    | denied _ _ h => cases h
    | oversized _ _ hlines _ hline => exact logged_sized _ (by rw [hlines]; simp) _ hline
  have hlast : last (2 : Int).toNat (chosen true
      (objects logged.unifyNewlines.lines ++ [refusal, success].map Record.recalled)) =
        ([[("ok", .bool false)], refusal.recalled] : List Fields) := by
    rw [logged_lines]
    cbv
  refine ⟨gs, hrecorded, ?_⟩
  rw [← hlast]
  exact (tail_recalls hholds hdecode hterminated hplain hrecorded (by decide)).1 hclear

end TreePlan.Log
