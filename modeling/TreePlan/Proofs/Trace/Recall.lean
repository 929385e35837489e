import TreePlan.Proofs.Encoding.Pieces
import TreePlan.Proofs.Json.Spelling
import TreePlan.Proofs.Text.Lines
import TreePlan.Trace.Log

/-! What a log gives back. The line of a record is one line of ASCII and is read as the fields of the
record, in the order of their keys; other lines are read by themselves. -/

namespace TreePlan

namespace Fields

variable {fields : Fields}

theorem get?_eq_some_iff (h : fields.keys.Nodup) {key : Text} {value : Value} :
    fields.get? key = some value ↔ (key, value) ∈ fields := by
  induction fields with
  | nil => simp [get?]
  | cons p fields ih =>
    obtain ⟨k, v⟩ := p
    rw [keys_cons, List.nodup_cons] at h
    rw [get?_cons, List.mem_cons, Prod.mk.injEq]
    split
    · next hk =>
      subst hk
      have hnot : (key, value) ∉ fields := fun hm => h.1 (List.mem_map_of_mem hm)
      simp [hnot, eq_comm]
    · next hk => simp [hk, ih h.2]

theorem get?_map (f : Value → Value) (fields : Fields) (key : Text) :
    get? (fields.map fun p => (p.1, f p.2)) key = (fields.get? key).map f := by
  induction fields with
  | nil => rfl
  | cons p fields ih =>
    rw [List.map_cons, get?_cons, get?_cons, ih]
    split <;> rfl

end Fields

namespace Json

variable {fields : Fields}

theorem perm_sortByKey {α : Type} (pairs : List (Text × α)) : (sortByKey pairs).Perm pairs :=
  List.mergeSort_perm ..

theorem nodup_keys_sortByKey (h : fields.keys.Nodup) : (Fields.keys (sortByKey fields)).Nodup :=
  ((perm_sortByKey fields).map Prod.fst).nodup_iff.2 h

/-- To put a map in order changes nothing that is found in it. -/
theorem get?_sortByKey (h : fields.keys.Nodup) (key : Text) :
    Fields.get? (sortByKey fields) key = fields.get? key := by
  refine Option.ext fun value => ?_
  rw [Fields.get?_eq_some_iff (nodup_keys_sortByKey h), Fields.get?_eq_some_iff h,
    (perm_sortByKey fields).mem_iff]

theorem sortByKey_map {α β : Type} (f : α → β) (pairs : List (Text × α)) :
    sortByKey (pairs.map fun p => (p.1, f p.2)) = (sortByKey pairs).map fun p => (p.1, f p.2) := by
  unfold sortByKey
  rw [List.map_mergeSort]
  exact fun _ _ _ _ => rfl

theorem printFields_eq_map (fields : Fields) : printFields fields = fields.map fun p => (p.1, print p.2) := by
  induction fields with
  | nil => rfl
  | cons p fields ih => rw [printFields, ih, List.map_cons]

/-- To print a map is to spell it in the order of its keys. -/
theorem print_map {f : Value → Value} (h : ∀ p ∈ fields, print p.2 = spell (f p.2)) :
    print (.map fields) = spell (.map (sortByKey (fields.map fun p => (p.1, f p.2)))) := by
  have hpairs : (sortByKey (printFields fields)).map printPair =
      spellFields (sortByKey (fields.map fun p => (p.1, f p.2))) := by
    rw [printFields_eq_map, sortByKey_map, sortByKey_map, spellFields_eq_map, List.map_map, List.map_map]
    refine List.map_congr_left fun p hp => ?_
    have hp : p ∈ fields := (perm_sortByKey fields).mem_iff.1 hp
    simp [spellPair, h p hp]
  rw [print, spell, hpairs]

end Json

/-- A value with its keys in order, if it is a map. -/
def Value.inOrder : Value → Value
  | .map fields => .map (Json.sortByKey fields)
  | v => v

namespace Record

/-- Nothing is lost of a record when it is written: its texts are whole, and its metadata are plain
scalars, one for each key. -/
structure Plain (r : Record) : Prop where
  timestamp : r.timestamp.Whole
  operation : r.event.operation.Whole
  path : r.event.path.Whole
  error : ∀ t ∈ r.event.error, t.Whole
  keys_nodup : r.event.metadata.keys.Nodup
  keys : ∀ p ∈ r.event.metadata, p.1.Whole
  values : ∀ p ∈ r.event.metadata, p.2.Plain ∧ Metadata.isScalar p.2 = true

/-- The fields of a record as a log gives them back: the same, in the order of their keys. -/
def recalled (r : Record) : Fields := Json.sortByKey (r.fields.map fun p => (p.1, p.2.inOrder))

/-- The line of a record without its end. -/
def printed (r : Record) : Text := Json.print (.map r.fields)

variable {r : Record}

theorem print_scalar {v : Value} (h : Metadata.isScalar v = true) : Json.print v = Json.spell v := by
  cases v with
  | null | bool | int | float | text => rfl
  | _ => cases h

/-- Each field of a record is written with its keys in order. -/
theorem print_field (h : r.Plain) : ∀ p ∈ r.fields, Json.print p.2 = Json.spell p.2.inOrder := by
  have hmetadata : Json.print (.map r.event.metadata) =
      Json.spell (.map (Json.sortByKey r.event.metadata)) := by
    have hprint := Json.print_map (f := fun v => v) fun p hp => print_scalar (h.values p hp).2
    simpa using hprint
  have herror : Json.print (.ofOption .text r.event.error) =
      Json.spell (Value.ofOption .text r.event.error).inOrder := by
    cases r.event.error <;> rfl
  simp only [fields, List.forall_mem_cons, List.not_mem_nil, false_implies, implies_true, and_true]
  exact ⟨rfl, rfl, rfl, rfl, herror, hmetadata⟩

theorem printed_eq (h : r.Plain) : r.printed = Json.spell (.map r.recalled) :=
  Json.print_map (print_field h)

theorem plain_error (h : r.Plain) : (Value.ofOption .text r.event.error).inOrder.Plain := by
  cases he : r.event.error with
  | none => exact .null
  | some t => exact .text (h.error t he)

theorem plain_metadata (h : r.Plain) : (Value.map r.event.metadata).inOrder.Plain := by
  have hmem {p : Text × Value} (hp : p ∈ Json.sortByKey r.event.metadata) : p ∈ r.event.metadata :=
    (Json.perm_sortByKey _).mem_iff.1 hp
  exact .map (Json.nodup_keys_sortByKey h.keys_nodup) (fun p hp => h.keys p (hmem hp))
    fun p hp => (h.values p (hmem hp)).1

theorem plain_field (h : r.Plain) : ∀ p ∈ r.fields, p.1.Whole ∧ p.2.inOrder.Plain := by
  simp only [fields, List.forall_mem_cons, List.not_mem_nil, false_implies, implies_true, and_true]
  exact ⟨⟨by decide, .text h.timestamp⟩, ⟨by decide, .text h.operation⟩, ⟨by decide, .text h.path⟩,
    ⟨by decide, .bool _⟩, ⟨by decide, plain_error h⟩, ⟨by decide, plain_metadata h⟩⟩

theorem nodup_keys_inOrder (r : Record) :
    (Fields.keys (r.fields.map fun p => (p.1, p.2.inOrder))).Nodup := by
  show (["timestamp", "operation", "path", "ok", "error", "metadata"] : List Text).Nodup
  decide

theorem recalled_plain (h : r.Plain) : (Value.map r.recalled).Plain := by
  have hfield : ∀ p ∈ r.recalled, p.1.Whole ∧ p.2.Plain := by
    intro p hp
    obtain ⟨q, hq, rfl⟩ := List.mem_map.1 ((Json.perm_sortByKey _).mem_iff.1 hp)
    exact plain_field h q hq
  have hkeys : (Fields.keys r.recalled).Nodup := Json.nodup_keys_sortByKey (nodup_keys_inOrder r)
  exact .map hkeys (fun p hp => (hfield p hp).1) fun p hp => (hfield p hp).2

/-- A record is read back from its line. -/
theorem read_printed (h : r.Plain) : Json.read r.printed = .ok (.map r.recalled) := by
  rw [printed_eq h]
  exact Json.read_spell (recalled_plain h)

/-- The line of a record is one line, and not empty. -/
theorem printed_line (h : r.Plain) : r.printed ≠ [] ∧ r.printed.Ascii := by
  have hs := Json.spells_spell (recalled_plain h)
  obtain ⟨c, s, heq, -⟩ := hs.starts
  rw [printed_eq h]
  refine ⟨?_, hs.ascii⟩
  rw [heq]
  exact List.cons_ne_nil c s

/-- What is found in a record that has been read back is what its fields say. -/
theorem get?_recalled (r : Record) (key : Text) :
    r.recalled.get? key = (Fields.get? r.fields key).map Value.inOrder := by
  rw [recalled, Json.get?_sortByKey (nodup_keys_inOrder r), Fields.get?_map]

end Record

namespace Log

/-- The objects among some lines, in their order. -/
def objects (lines : List Text) : List Fields :=
  lines.filterMap fun line =>
    match Json.read line with
    | .ok (.map fields) => some fields
    | _ => none

/-- The records asked for: all, or those of failures. -/
def chosen (failuresOnly : Bool) (records : List Fields) : List Fields :=
  if failuresOnly then records.filter isFailure else records

/-- A line with an integer that is too long to be read. -/
def Oversized (line : Text) (n : Nat) : Prop := Json.read line = .error (.integerTooLong n)

variable {failuresOnly : Bool} {line : Text} {lines more : List Text} {n : Nat}

theorem objects_append (lines more : List Text) : objects (lines ++ more) = objects lines ++ objects more :=
  List.filterMap_append ..

theorem chosen_append (failuresOnly : Bool) (xs ys : List Fields) :
    chosen failuresOnly (xs ++ ys) = chosen failuresOnly xs ++ chosen failuresOnly ys := by
  cases failuresOnly with
  | false => rfl
  | true => exact List.filter_append ..

theorem objects_singleton (h : Json.read line = .ok (.map fields)) : objects [line] = [fields] := by
  simp [objects, h]

/-- What a line adds is what is chosen of it, if it is an object at all. -/
theorem ofLine?_eq (failuresOnly : Bool) (h : ∀ n, ¬Oversized line n) :
    ∃ record, ofLine? failuresOnly line = .ok record ∧
      record.toList = chosen failuresOnly (objects [line]) := by
  unfold Oversized at h
  unfold ofLine?
  cases hread : Json.read line with
  | error fault =>
    cases fault with
    | integerTooLong n => exact absurd hread (h n)
    | _ => exact ⟨none, rfl, by cases failuresOnly <;> simp [objects, chosen, hread]⟩
  | ok v =>
    cases v with
    | map fields =>
      refine ⟨_, rfl, ?_⟩
      rw [objects_singleton hread]
      cases failuresOnly <;> cases hf : isFailure fields <;> simp [chosen, hf]
    | _ => exact ⟨none, rfl, by cases failuresOnly <;> simp [objects, chosen, hread]⟩

theorem ofLines_cons {record : Option Fields} (h : ofLine? failuresOnly line = .ok record) :
    ofLines failuresOnly (line :: lines) = (ofLines failuresOnly lines).map (record.toList ++ ·) := by
  rw [ofLines, h]
  cases ofLines failuresOnly lines <;> rfl

/-- Lines that can be read give the objects among them, or those that tell of failures. -/
theorem ofLines_eq (h : ∀ line ∈ lines, ∀ n, ¬Oversized line n) :
    ofLines failuresOnly lines = .ok (chosen failuresOnly (objects lines)) := by
  induction lines with
  | nil => cases failuresOnly <;> rfl
  | cons line lines ih =>
    obtain ⟨hline, hlines⟩ := List.forall_mem_cons.1 h
    obtain ⟨record, hrecord, hlist⟩ := ofLine?_eq failuresOnly hline
    have hcons : objects (line :: lines) = objects [line] ++ objects lines := objects_append [line] lines
    rw [ofLines_cons hrecord, ih hlines, hlist, hcons, chosen_append]
    rfl

/-- The first line with an integer that is too long ends the reading. -/
theorem ofLines_oversized (h : ∀ line ∈ lines, ∀ n, ¬Oversized line n) (hline : Oversized line n) :
    ofLines failuresOnly (lines ++ line :: more) = .error (.oversized (.integerTooLong n)) := by
  induction lines with
  | nil =>
    have hrefused : ofLine? failuresOnly line = .error (.oversized (.integerTooLong n)) := by
      rw [ofLine?, hline]
    rw [List.nil_append, ofLines, hrefused]
    rfl
  | cons first lines ih =>
    obtain ⟨hfirst, hlines⟩ := List.forall_mem_cons.1 h
    obtain ⟨record, hrecord, -⟩ := ofLine?_eq failuresOnly hfirst
    rw [List.cons_append, ofLines_cons hrecord, ih hlines]
    rfl

theorem first_oversized (lines : List Text) :
    (∀ line ∈ lines, ∀ n, ¬Oversized line n) ∨
      ∃ before line after n, lines = before ++ line :: after ∧ (∀ l ∈ before, ∀ n, ¬Oversized l n) ∧
        Oversized line n := by
  induction lines with
  | nil => exact .inl nofun
  | cons first lines ih =>
    by_cases hfirst : ∃ n, Oversized first n
    · obtain ⟨n, hn⟩ := hfirst
      exact .inr ⟨[], first, lines, n, rfl, nofun, hn⟩
    · have hfirst : ∀ n, ¬Oversized first n := not_exists.1 hfirst
      rcases ih with hall | ⟨before, line, after, n, rfl, hbefore, hline⟩
      · exact .inl (List.forall_mem_cons.2 ⟨hfirst, hall⟩)
      · exact .inr ⟨first :: before, line, after, n, rfl, List.forall_mem_cons.2 ⟨hfirst, hbefore⟩, hline⟩

/-- Whatever lines give when they are read, it is what is chosen of the objects among them. -/
theorem ofLines_eq_ok {found : List Fields} (h : ofLines failuresOnly lines = .ok found) :
    found = chosen failuresOnly (objects lines) := by
  rcases first_oversized lines with hsized | ⟨before, line, after, n, rfl, hbefore, hline⟩
  · rw [ofLines_eq hsized] at h
    cases h
    rfl
  · rw [ofLines_oversized hbefore hline] at h
    cases h

/-- What is recorded comes behind what a log holds, each record on its line. -/
def extended (earlier : Bytes) (rs : List Record) : Bytes :=
  earlier ++ Utf8.encodeName (rs.flatMap fun r => r.printed ++ [CodePoint.ofChar '\n'])

theorem decodeFrom_of_decode {b : Bytes} {t : Text} (h : Utf8.decode b = .ok t) :
    Utf8.decodeFrom 0 b = (t, none) := by
  unfold Utf8.decode at h
  split at h
  · next heq =>
    cases h
    exact heq
  · cases h

/-- The records of a log whose text ends with the end of a line, and to which some have been added. -/
theorem records_extended {earlier : Bytes} {t : Text} {rs : List Record}
    (hdecode : Utf8.decode earlier = .ok t) (ht : t.Terminated) (hrs : ∀ r ∈ rs, r.Plain) :
    records failuresOnly (extended earlier rs) =
      ofLines failuresOnly (t.unifyNewlines.lines ++ rs.map Record.printed) := by
  have hlow : ∀ c ∈ rs.flatMap fun r => r.printed ++ [CodePoint.ofChar '\n'], c.val < 0x80 := by
    intro c hc
    obtain ⟨r, hr, hc⟩ := List.mem_flatMap.1 hc
    rcases List.mem_append.1 hc with hc | hc
    · have hhi := ((Record.printed_line (hrs r hr)).2 c hc).2
      omega
    · rw [List.mem_singleton.1 hc]
      decide
  have hwhole : Utf8.decodeFrom 0 (extended earlier rs) =
      (t ++ rs.flatMap fun r => r.printed ++ [CodePoint.ofChar '\n'], none) :=
    Utf8.decodeFrom_append_eq (decodeFrom_of_decode hdecode) (Utf8.decodeFrom_encodeName hlow)
  have hlines : ∀ s ∈ rs.map Record.printed,
      s ≠ [] ∧ CodePoint.ofChar '\n' ∉ s ∧ CodePoint.ofChar '\r' ∉ s := by
    intro s hs
    obtain ⟨r, hr, rfl⟩ := List.mem_map.1 hs
    obtain ⟨hne, hascii⟩ := Record.printed_line (hrs r hr)
    refine ⟨hne, hascii.no_newline, fun hm => ?_⟩
    exact absurd (hascii _ hm).1 (by decide)
  have hunified := Text.lines_append_lines ht hlines
  rw [List.flatMap_map] at hunified
  rw [records, Utf8.decodePieces_of_decodeFrom (by rwa [List.nil_append])]
  dsimp only
  rw [hunified]

theorem objects_printed {rs : List Record} (hrs : ∀ r ∈ rs, r.Plain) :
    objects (rs.map Record.printed) = rs.map Record.recalled := by
  induction rs with
  | nil => rfl
  | cons r rs ih =>
    obtain ⟨hr, hrs⟩ := List.forall_mem_cons.1 hrs
    have hcons : objects (r.printed :: rs.map Record.printed) =
        objects [r.printed] ++ objects (rs.map Record.printed) := objects_append [r.printed] _
    rw [List.map_cons, List.map_cons, hcons, objects_singleton (Record.read_printed hr), ih hrs]
    rfl

theorem not_oversized_printed {r : Record} (h : r.Plain) (n : Nat) : ¬Oversized r.printed n := by
  unfold Oversized
  rw [Record.read_printed h]
  nofun

end Log

end TreePlan
