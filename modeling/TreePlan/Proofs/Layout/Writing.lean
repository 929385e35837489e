import TreePlan.Proofs.Json.Spelling
import TreePlan.Proofs.Layout.WellFormed
import TreePlan.Proofs.Layout.Word

/-! A line for an entry, and what the readers make of each of its parts. The name is always quoted and
a permission block always has its commas, so where a part ends does not depend on what is in it; a part
that is left out is missed by its reader because none of the parts after it begins as it would. -/

namespace TreePlan

namespace Entry

/-- The members of the extras of a line, content included. -/
def members (e : Entry) : Fields := .optional "content" (e.content.map .text) ++ e.extras

def writeSlash (e : Entry) : Text := if e.isDirectory then "/" else []

def writeMode (e : Entry) : Text :=
  match e.modeText with
  | none => []
  | some d => "(" ++ e.owner.getD [] ++ "," ++ e.group.getD [] ++ "," ++ d ++ ")"

def writeTarget (e : Entry) : Text :=
  match e.target with
  | none => []
  | some t => "->" ++ Json.printText t

def writeMembers (e : Entry) : Text :=
  match e.members with
  | [] => []
  | ms => " " ++ Text.unlines ", " (Json.spellFields ms)

def writeSpec (e : Entry) : Text :=
  Json.printText e.name ++ (e.writeSlash ++ (e.writeMode ++ (e.writeTarget ++ e.writeMembers)))

/-- All that an entry holds can be written. -/
structure Writable (e : Entry) : Prop where
  name : e.name.Whole
  target : ∀ t ∈ e.target, t.Whole
  content : ∀ t ∈ e.content, t.Whole
  keys : ∀ p ∈ e.extras, p.1.Whole
  values : ∀ p ∈ e.extras, p.2.Plain

end Entry

namespace Text

variable {s t : Text} {cs ds : List CodePoint}

/-- If a text begins at all, it begins with one of these. -/
def Begins (cs : List CodePoint) (t : Text) : Prop := ∀ c ∈ t.head?, c ∈ cs

theorem Begins.append (hs : Begins cs s) (ht : Begins ds t) : Begins (cs ++ ds) (s ++ t) := by
  intro c hc
  cases s with
  | nil => exact List.mem_append_right _ (ht c hc)
  | cons => exact List.mem_append_left _ (hs c hc)

theorem Begins.after?_eq_none {c : CodePoint} (ht : Begins cs t) (hc : c ∉ cs) :
    after? (c :: s) t = none := by
  cases h : after? (c :: s) t with
  | none => rfl
  | some r =>
    rw [after?_eq_some_iff] at h
    subst h
    exact absurd (ht c rfl) hc

theorem Begins.startsWith_eq_false {c : CodePoint} (ht : Begins cs t) (hc : c ∉ cs) :
    startsWith t (c :: s) = false := by
  rw [Bool.eq_false_iff]
  intro h
  obtain ⟨r, rfl⟩ := List.isPrefixOf_iff_prefix.1 h
  exact hc (ht c rfl)

end Text

namespace Token

variable {label stops t r : Text}

theorem readWord_printText (h : t.Whole) : readWord label stops (Json.printText t ++ r) = .ok (t, r) :=
  readWord_literal (Json.literal_printText h) r

theorem readOwnedMode?_write {owner group d : Text} (ho : CodePoint.ofChar ',' ∉ owner)
    (hg : CodePoint.ofChar ',' ∉ group) (hd : IsMode d) :
    readOwnedMode? (owner ++ CodePoint.ofChar ',' :: (group ++ CodePoint.ofChar ',' ::
        (d ++ CodePoint.ofChar ')' :: r))) =
      some (⟨Text.octalValue d, d, nonEmpty? owner, nonEmpty? group⟩, r) := by
  simp only [readOwnedMode?, readField?_eq_some_iff.2 ⟨ho, rfl⟩, readField?_eq_some_iff.2 ⟨hg, rfl⟩,
    readMode?_eq_some_iff.2 ⟨hd, rfl⟩, Option.bind_eq_bind, Option.bind_some, valueOf_octal hd]
  rfl

theorem readPermission_of_owned {p : Permission × Text} (h : readOwnedMode? r = some p) :
    readPermission (CodePoint.ofChar '(' :: r) = .ok p := by
  have hafter : Text.after? "(" (CodePoint.ofChar '(' :: r) = some r := rfl
  rw [readPermission, hafter]
  dsimp only
  rw [h]
  rfl

end Token

namespace Layout

variable {e : Entry} {r : Text}

theorem readName_write (hn : IsName e.name) (hw : e.name.Whole) :
    readName (Json.printText e.name ++ r) = .ok (e.name, r) := by
  have hdot : ¬(e.name = Text.ofString "." ∨ e.name = Text.ofString "..") :=
    not_or.2 ⟨hn.ne_dot, hn.ne_dots⟩
  have hempty : ¬e.name.isEmpty = true := by simpa using hn.ne_nil
  have hslash : ¬e.name.contains (CodePoint.ofChar '/') = true := by simpa using hn.no_slash
  rw [readName, Token.readWord_printText hw]
  show (if e.name.isEmpty then _ else _) = _
  rw [if_neg hempty]
  show (if e.name.contains (CodePoint.ofChar '/') then _ else _) = _
  rw [if_neg hslash]
  show (if e.name = Text.ofString "." ∨ e.name = Text.ofString ".." then _ else _) = _
  rw [if_neg hdot]
  rfl

theorem readSlash_write (hr : Text.Begins ['(', '-', ' '] r) :
    readSlash (e.writeSlash ++ r) = (e.isDirectory, r) := by
  unfold Entry.writeSlash
  cases e.isDirectory with
  | true => rfl
  | false =>
    have hnone : Text.after? "/" r = none := hr.after?_eq_none (by decide)
    rw [if_neg (by decide), List.nil_append, readSlash, hnone]

/-- What a permission block says of an entry. -/
def permission? (e : Entry) : Option Permission :=
  e.modeText.map fun d => ⟨Text.octalValue d, d, e.owner, e.group⟩

theorem nonEmpty?_getD {t : Option Text} (h : ∀ u ∈ t, IsOwner u) :
    Token.nonEmpty? (t.getD []) = t ∧ CodePoint.ofChar ',' ∉ t.getD [] := by
  cases t with
  | none => exact ⟨rfl, by simp⟩
  | some u =>
    have hu := h u rfl
    have hne : ¬u.isEmpty = true := by simpa using hu.ne_nil
    exact ⟨if_neg hne, hu.no_comma⟩

theorem readPermission?_write (hw : e.WellFormed) (hr : Text.Begins ['-', ' '] r) :
    readPermission? (e.writeMode ++ r) = .ok (permission? e, r) := by
  unfold Entry.writeMode permission?
  cases hd : e.modeText with
  | none =>
    have hnone : Text.startsWith r "(" = false := hr.startsWith_eq_false (by decide)
    rw [List.nil_append, readPermission?, if_neg (by simp [hnone])]
    rfl
  | some d =>
    obtain ⟨howner, hocomma⟩ := nonEmpty?_getD hw.owner
    obtain ⟨hgroup, hgcomma⟩ := nonEmpty?_getD hw.group
    have hread := Token.readPermission_of_owned (r := _)
      (Token.readOwnedMode?_write (r := r) hocomma hgcomma (hw.modeText d hd))
    have heq : "(" ++ e.owner.getD [] ++ "," ++ e.group.getD [] ++ "," ++ d ++ ")" ++ r =
        CodePoint.ofChar '(' :: (e.owner.getD [] ++ CodePoint.ofChar ',' :: (e.group.getD [] ++
          CodePoint.ofChar ',' :: (d ++ CodePoint.ofChar ')' :: r))) := by
      simp only [List.append_assoc]
      rfl
    have hstart (s : Text) : Text.startsWith (CodePoint.ofChar '(' :: s) "(" = true := rfl
    dsimp only
    rw [heq, readPermission?, if_pos (hstart _), hread, howner, hgroup]
    rfl

/-- Extras are left out, or they begin with a blank and a quote. -/
theorem writeMembers_cases (e : Entry) :
    e.members = [] ∧ e.writeMembers = [] ∨
      ∃ s, Text.unlines ", " (Json.spellFields e.members) = CodePoint.ofChar '"' :: s ∧
        e.writeMembers = CodePoint.ofChar ' ' :: CodePoint.ofChar '"' :: s := by
  unfold Entry.writeMembers
  cases e.members with
  | nil => exact .inl ⟨rfl, rfl⟩
  | cons p ms =>
    obtain ⟨c, s, heq, rfl⟩ := Json.unlines_start (Json.spellPair_quote p) (Json.spellFields ms)
    have hbody : Text.unlines ", " (Json.spellFields (p :: ms)) = CodePoint.ofChar '"' :: s := heq
    refine .inr ⟨s, hbody, ?_⟩
    dsimp only
    rw [hbody]
    rfl

theorem readTarget?_write (hw : e.WellFormed) (hwhole : ∀ t ∈ e.target, t.Whole) :
    readTarget? e.isDirectory (e.writeTarget ++ e.writeMembers) = .ok (e.target, e.writeMembers) := by
  unfold Entry.writeTarget
  cases ht : e.target with
  | none =>
    have hnone : Token.afterArrow? e.writeMembers = none := by
      rcases writeMembers_cases e with ⟨-, h⟩ | ⟨s, -, h⟩
      · rw [h]
        rfl
      · rw [h]
        rfl
    rw [List.nil_append, readTarget?, hnone]
  | some t =>
    have harrow : Token.afterArrow? ("->" ++ Json.printText t ++ e.writeMembers) =
        some (Json.printText t ++ e.writeMembers) := by
      rw [List.append_assoc, Json.printText_append]
      rfl
    have hfile : e.isDirectory = false := by
      cases hd : e.isDirectory with
      | false => rfl
      | true => simp [hw.link hd] at ht
    have hne : ¬t.isEmpty = true := by
      have := hw.target
      rw [ht] at this
      simpa using this
    dsimp only
    rw [readTarget?, harrow, hfile]
    dsimp only
    rw [if_neg (by decide), Token.readWord_printText (hwhole t ht)]
    show (if t.isEmpty then _ else _) = _
    rw [if_neg hne]
    rfl

theorem members_plain (hw : e.WellFormed) (hwrite : e.Writable) : (Value.map e.members).Plain := by
  have hkey : (Text.ofString "content").Whole := by unfold Text.Whole; decide
  unfold Entry.members
  cases hc : e.content with
  | none => exact .map hw.keys hwrite.keys hwrite.values
  | some t =>
    refine .map ?_ ?_ ?_
    · exact List.nodup_cons.2 ⟨hw.extras, hw.keys⟩
    · exact List.forall_mem_cons.2 ⟨hkey, hwrite.keys⟩
    · exact List.forall_mem_cons.2 ⟨.text (hwrite.content t hc), hwrite.values⟩

theorem readExtras_write (h : (Value.map e.members).Plain) :
    readExtras e.writeMembers = .ok e.members := by
  rcases writeMembers_cases e with ⟨hnone, hw⟩ | ⟨s, hs, hw⟩
  · rw [hw, hnone]
    rfl
  · have hsplit : Token.splitExtras e.writeMembers = (some (CodePoint.ofChar '"' :: s), []) := by
      have hdrop : Text.dropBlanks (CodePoint.ofChar ' ' :: CodePoint.ofChar '"' :: s) =
          CodePoint.ofChar '"' :: s := rfl
      rw [hw, Token.splitExtras, hdrop]
      simp
    have hread := Json.read_spell h
    rw [Json.spell, hs] at hread
    have hblank : Text.isBlank [] = true := rfl
    rw [readExtras, hsplit]
    dsimp only
    rw [hblank, if_neg (by decide), Token.decodeExtras, hread]

/-- Content is told from the other extras by its key. -/
theorem contentOf_members (hw : e.WellFormed) : contentOf e.isDirectory e.members = .ok e.content := by
  unfold Entry.members
  cases hc : e.content with
  | none =>
    have hnone : Fields.get? e.extras "content" = none := Fields.get?_of_notMem hw.extras
    show contentOf e.isDirectory e.extras = _
    rw [contentOf, hnone]
  | some t =>
    have hfile : e.isDirectory = false := by
      cases hd : e.isDirectory with
      | false => rfl
      | true => simp [hw.content hd] at hc
    rw [hfile]
    rfl

theorem erase_members (hw : e.WellFormed) : e.members.erase "content" = e.extras := by
  have hrest : Fields.erase e.extras "content" = e.extras := Fields.erase_of_notMem hw.extras
  unfold Entry.members
  cases e.content with
  | none => exact hrest
  | some t => exact hrest

theorem begins_nil (cs : List CodePoint) : Text.Begins cs [] := by simp [Text.Begins]

theorem begins_cons {c : CodePoint} (s : Text) : Text.Begins [c] (c :: s) := by simp [Text.Begins]

theorem writeMembers_begins (e : Entry) : Text.Begins [' '] e.writeMembers := by
  rcases writeMembers_cases e with ⟨-, h⟩ | ⟨s, -, h⟩
  · rw [h]
    exact begins_nil _
  · rw [h]
    exact begins_cons _

theorem writeTarget_begins (e : Entry) : Text.Begins ['-'] e.writeTarget := by
  unfold Entry.writeTarget
  cases e.target with
  | none => exact begins_nil _
  | some t => exact begins_cons _

theorem writeMode_begins (e : Entry) : Text.Begins ['('] e.writeMode := by
  unfold Entry.writeMode
  cases e.modeText with
  | none => exact begins_nil _
  | some d =>
    simp only [List.append_assoc]
    exact begins_cons _

/-- A permission block says all there is to say of rights and owners. -/
theorem permission?_says (hw : e.WellFormed) :
    (permission? e).map (fun p => (p.mode : Int)) = e.mode ∧
      (permission? e).map (fun p => p.text) = e.modeText ∧
      (permission? e).bind (fun p => p.owner) = e.owner ∧
      (permission? e).bind (fun p => p.group) = e.group := by
  unfold permission?
  rw [hw.mode]
  cases hd : e.modeText with
  | none =>
    obtain ⟨howner, hgroup⟩ := hw.unowned hd
    rw [howner, hgroup]
    exact ⟨rfl, rfl, rfl, rfl⟩
  | some d => exact ⟨rfl, rfl, rfl, rfl⟩

/-- What is written for an entry is read as that entry. -/
theorem readSpec_write (hw : e.WellFormed) (hwrite : e.Writable) (h0 : 0 ≤ e.level) :
    readSpec false e.level.toNat e.line e.writeSpec = .ok e := by
  -- no part begins as one does that may be left out before it
  have htail := (writeTarget_begins e).append (writeMembers_begins e)
  have hblock := (writeMode_begins e).append htail
  have hmembers := members_plain hw hwrite
  simp only [readSpec, Entry.writeSpec, readName_write hw.name hwrite.name, bind, Except.bind,
    readSlash_write hblock, readPermission?_write hw htail, readTarget?_write hw hwrite.target,
    readExtras_write hmembers, contentOf_members hw, erase_members hw, Bool.false_and]
  obtain ⟨hmode, htext, howner, hgroup⟩ := permission?_says hw
  rw [if_neg (by decide), hmode, htext, howner, hgroup, Int.toNat_of_nonneg h0]
  rfl

end Layout

end TreePlan
