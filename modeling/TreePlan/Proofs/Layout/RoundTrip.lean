import TreePlan.Proofs.Layout.Writing

/-! Every well-formed tree can be written down. Each level takes one blank more than the one above, so a
line returns to any level by as many blanks as that level takes, and lines that make no entry are left
blank. -/

namespace TreePlan

namespace Indents

/-- The widths that are open at a level where each level takes one blank more. -/
def stairs : Nat → List Int
  | 0 => [0]
  | n + 1 => ((n + 1 : Nat) : Int) :: stairs n

theorem length_stairs (n : Nat) : (stairs n).length = n + 1 := by
  induction n with
  | zero => rfl
  | succ n ih => rw [stairs, List.length_cons, ih]

theorem exists_stairs_eq_cons (n : Nat) : ∃ rest, stairs n = (n : Int) :: rest := by
  cases n <;> exact ⟨_, rfl⟩

/-- The stairs go down to any step through steps that are all higher. -/
theorem exists_stairs_eq_append {n m : Nat} (h : m ≤ n) :
    ∃ closed, stairs n = closed ++ stairs m ∧ ∀ w ∈ closed, (m : Int) < w := by
  induction n with
  | zero =>
    obtain rfl : m = 0 := by omega
    exact ⟨[], rfl, by simp⟩
  | succ n ih =>
    by_cases he : m = n + 1
    · exact ⟨[], by rw [he]; rfl, by simp⟩
    · obtain ⟨closed, hsplit, hclosed⟩ := ih (by omega)
      exact ⟨((n + 1 : Nat) : Int) :: closed, by rw [stairs, hsplit]; rfl,
        List.forall_mem_cons.2 ⟨by omega, hclosed⟩⟩

end Indents

namespace Entry

def writeLine (e : Entry) : Text := List.replicate e.level.toNat (CodePoint.ofChar ' ') ++ e.writeSpec

end Entry

namespace Layout

open Indents (stairs)

/-- The lines for entries, from the line of a given number on. -/
def writeLines (line : Nat) : List Entry → List Text
  | [] => []
  | e :: es => List.replicate (e.line - line) [] ++ e.writeLine :: writeLines (e.line + 1) es

def write (es : List Entry) : Text := Text.unlines "\n" (writeLines 1 es)

variable {e : Entry} {es : List Entry} {ctx : Context} {line : Nat}

theorem turn_stairs {n m : Nat} (hc : ctx.indents = ⟨stairs n⟩)
    (h : m ≤ n ∨ m = n + 1 ∧ ctx.belowDirectory = true) : Turn ctx m (.ok ⟨stairs m⟩) := by
  have hw : ctx.indents.widths = stairs n := congrArg Indents.widths hc
  rcases h with h | ⟨rfl, hd⟩
  · obtain ⟨closed, hsplit, hclosed⟩ := Indents.exists_stairs_eq_append h
    obtain ⟨rest, hrest⟩ := Indents.exists_stairs_eq_cons m
    rw [hsplit, hrest] at hw
    rw [hrest]
    cases closed with
    | nil => exact .level hw
    | cons top closed =>
      obtain ⟨htop, hclosed⟩ := List.forall_mem_cons.1 hclosed
      exact .back hw htop fun hm => absurd (hclosed _ hm) (Int.lt_irrefl _)
  · obtain ⟨rest, hrest⟩ := Indents.exists_stairs_eq_cons n
    rw [hrest] at hw
    rw [stairs, hrest]
    exact .deeper hw (by omega) hd

theorem open_stairs {n m : Nat} (hc : ctx.indents = ⟨stairs n⟩)
    (h : m ≤ n ∨ m = n + 1 ∧ ctx.belowDirectory = true) :
    ctx.open (List.replicate m (CodePoint.ofChar ' ')) = .ok ⟨stairs m⟩ := by
  apply Turn.open_eq
  · rw [List.length_replicate]
    exact turn_stairs hc h
  · exact Text.notMem_spaces (by decide)

theorem readLines_blank {strict : Bool} (n : Nat) (rest : List Text) :
    readLines strict line ctx (List.replicate n [] ++ rest) = readLines strict (line + n) ctx rest := by
  induction n generalizing line with
  | zero => rfl
  | succ n ih =>
    have hskip : isSkipped [] = true := rfl
    rw [List.replicate_succ, List.cons_append, readLines, if_pos hskip, ih, Nat.add_assoc, Nat.add_comm 1]

theorem writeSpec_start (e : Entry) : ∃ s, e.writeSpec = CodePoint.ofChar '"' :: s :=
  ⟨_, Json.printText_append _ _⟩

/-- The indentation of a line ends where its name begins. -/
theorem writeLine_split (e : Entry) :
    e.writeLine.leadingBlanks = List.replicate e.level.toNat (CodePoint.ofChar ' ') ∧
      e.writeLine.dropBlanks = e.writeSpec := by
  obtain ⟨s, hs⟩ := writeSpec_start e
  have hquote : ∀ c ∈ e.writeSpec.head?, c.isBlank = false := by
    rw [hs]
    rintro _ ⟨⟩
    decide
  exact Text.spaces_append e.level.toNat hquote

theorem isSkipped_writeLine (e : Entry) : isSkipped e.writeLine = false := by
  obtain ⟨s, hs⟩ := writeSpec_start e
  rw [isSkipped, (writeLine_split e).2, hs]
  rfl

theorem readLine_write (hw : e.WellFormed) (hwrite : e.Writable) (h0 : 0 ≤ e.level)
    (ho : ctx.open (List.replicate e.level.toNat (CodePoint.ofChar ' ')) = .ok ⟨stairs e.level.toNat⟩) :
    readLine false e.line ctx e.writeLine = .ok (e, ⟨⟨stairs e.level.toNat⟩, e.isDirectory⟩) := by
  obtain ⟨hblanks, hbody⟩ := writeLine_split e
  have hlevel : Indents.level ⟨stairs e.level.toNat⟩ = e.level.toNat := by
    rw [Indents.level, Indents.length_stairs, Nat.add_sub_cancel]
  refine bind_eq_ok_iff.2 ⟨_, hblanks ▸ ho, bind_eq_ok_iff.2 ⟨e, ?_, rfl⟩⟩
  rw [hlevel, hbody]
  exact readSpec_write hw hwrite h0

theorem readLines_write (hchain : es.IsChain Follows) (hlines : es.Pairwise fun a b => a.line < b.line)
    (hline : ∀ e ∈ es, line ≤ e.line) (hw : ∀ e ∈ es, e.WellFormed) (hwrite : ∀ e ∈ es, e.Writable)
    (ho : ∀ e ∈ es.head?, 0 ≤ e.level ∧
      ctx.open (List.replicate e.level.toNat (CodePoint.ofChar ' ')) = .ok ⟨stairs e.level.toNat⟩) :
    readLines false line ctx (writeLines line es) = .ok es := by
  induction es generalizing line ctx with
  | nil => rfl
  | cons e es ih =>
    obtain ⟨h0, hopen⟩ := ho e rfl
    obtain ⟨hfollows, hchain⟩ := List.isChain_cons.1 hchain
    obtain ⟨hlater, hlines⟩ := List.pairwise_cons.1 hlines
    have hread := readLine_write (hw e (by simp)) (hwrite e (by simp)) h0 hopen
    -- an entry after this one returns to a step of the stairs or takes the next
    have hnext : ∀ e' ∈ es.head?, 0 ≤ e'.level ∧
        Context.open ⟨⟨stairs e.level.toNat⟩, e.isDirectory⟩
          (List.replicate e'.level.toNat (CodePoint.ofChar ' ')) = .ok ⟨stairs e'.level.toNat⟩ := by
      intro e' he'
      obtain ⟨h0', hle | ⟨hsucc, hd⟩⟩ := hfollows e' he'
      · exact ⟨h0', open_stairs rfl (.inl (by omega))⟩
      · exact ⟨h0', open_stairs rfl (.inr ⟨by omega, hd⟩)⟩
    have hrest := ih hchain hlines hlater (fun e' h' => hw e' (by simp [h']))
      (fun e' h' => hwrite e' (by simp [h'])) hnext
    have hfirst : line + (e.line - line) = e.line := Nat.add_sub_cancel' (hline e (by simp))
    rw [writeLines, readLines_blank, hfirst, readLines, isSkipped_writeLine, if_neg (by decide), hread]
    dsimp only
    rw [hrest]
    rfl

section Newlines

theorem newline_notMem_getD {t : Option Text} (h : ∀ u ∈ t, IsOwner u) :
    CodePoint.ofChar '\n' ∉ t.getD [] := by
  cases t with
  | none => simp
  | some u => exact (h u rfl).no_newline

theorem newline_notMem_writeMode (hw : e.WellFormed) : CodePoint.ofChar '\n' ∉ e.writeMode := by
  unfold Entry.writeMode
  cases hd : e.modeText with
  | none => simp
  | some d =>
    have hdigits : CodePoint.ofChar '\n' ∉ d := by
      intro hm
      have hlo := ((hw.modeText d hd).octal _ hm).1
      revert hlo
      decide
    have hopen : CodePoint.ofChar '\n' ∉ Text.ofString "(" := by decide
    have hcomma : CodePoint.ofChar '\n' ∉ Text.ofString "," := by decide
    have hclose : CodePoint.ofChar '\n' ∉ Text.ofString ")" := by decide
    simp only [List.mem_append, not_or]
    exact ⟨⟨⟨⟨⟨⟨hopen, newline_notMem_getD hw.owner⟩, hcomma⟩, newline_notMem_getD hw.group⟩, hcomma⟩,
      hdigits⟩, hclose⟩

theorem writeTarget_ascii (e : Entry) : e.writeTarget.Ascii := by
  unfold Entry.writeTarget
  cases e.target with
  | none => decide
  | some t => exact Text.Ascii.append (by decide) (Json.printText_ascii t)

theorem writeMembers_ascii (h : (Value.map e.members).Plain) : e.writeMembers.Ascii := by
  have hspell := (Json.spells_spell h).ascii
  rw [Json.spell] at hspell
  have hbody : (Text.unlines ", " (Json.spellFields e.members)).Ascii := fun c hc =>
    hspell c (List.mem_append_left _ (List.mem_append_right _ hc))
  rcases writeMembers_cases e with ⟨-, hm⟩ | ⟨s, hs, hm⟩
  · rw [hm]
    decide
  · rw [hm, ← hs]
    exact List.forall_mem_cons.2 ⟨by decide, hbody⟩

theorem newline_notMem_writeLine (hw : e.WellFormed) (hwrite : e.Writable) :
    CodePoint.ofChar '\n' ∉ e.writeLine := by
  have hspaces : CodePoint.ofChar '\n' ∉ List.replicate e.level.toNat (CodePoint.ofChar ' ') :=
    Text.notMem_spaces (by decide)
  have hslash : e.writeSlash.Ascii := by
    unfold Entry.writeSlash
    cases e.isDirectory <;> decide
  have hmembers := writeMembers_ascii (members_plain hw hwrite)
  unfold Entry.writeLine Entry.writeSpec
  simp only [List.mem_append, not_or]
  exact ⟨hspaces, (Json.printText_ascii e.name).no_newline, hslash.no_newline,
    newline_notMem_writeMode hw, (writeTarget_ascii e).no_newline, hmembers.no_newline⟩

theorem newline_notMem_writeLines (hw : ∀ e ∈ es, e.WellFormed) (hwrite : ∀ e ∈ es, e.Writable) :
    ∀ t ∈ writeLines line es, CodePoint.ofChar '\n' ∉ t := by
  induction es generalizing line with
  | nil => simp [writeLines]
  | cons e es ih =>
    have hrest : ∀ t ∈ writeLines (e.line + 1) es, CodePoint.ofChar '\n' ∉ t :=
      ih (fun e' h' => hw e' (by simp [h'])) fun e' h' => hwrite e' (by simp [h'])
    intro t ht
    rw [writeLines, List.mem_append, List.mem_cons] at ht
    rcases ht with ht | rfl | ht
    · rw [List.eq_of_mem_replicate ht]
      simp
    · exact newline_notMem_writeLine (hw e (by simp)) (hwrite e (by simp))
    · exact hrest t ht

end Newlines

/-- Entries that make up a well-formed tree are read back, each on its line, from what is written for
them. -/
theorem parse_write (hn : Nested es) (hpos : ∀ e ∈ es, 1 ≤ e.line)
    (hlines : es.Pairwise fun a b => a.line < b.line) (hw : ∀ e ∈ es, e.WellFormed)
    (hwrite : ∀ e ∈ es, e.Writable) : parse false (write es) = .ok es := by
  have hfirst : ∀ e ∈ es.head?, 0 ≤ e.level ∧
      Context.open {} (List.replicate e.level.toNat (CodePoint.ofChar ' ')) =
        .ok ⟨stairs e.level.toNat⟩ := by
    intro e he
    rw [hn.head e he]
    exact ⟨Int.le_refl 0, rfl⟩
  have hread := readLines_write hn.chain hlines hpos hw hwrite hfirst
  cases es with
  | nil => rfl
  | cons e es =>
    have hne : writeLines 1 (e :: es) ≠ [] := by simp [writeLines]
    have hsplit : Text.splitOn '\n' (write (e :: es)) = writeLines 1 (e :: es) :=
      Text.splitOn_unlines hne (newline_notMem_writeLines hw hwrite)
    rw [parse, hsplit]
    exact hread

/-- Names and texts full of what has a meaning in a line, and a way back over two levels. -/
def knottyEntries : List Entry :=
  [{ name := "a\n# (,,7)", level := 0, line := 2, isDirectory := true, mode := some 0o4755
     modeText := some "4755", owner := some "ro)ot" },
    { name := "\"->", level := 1, line := 3, isDirectory := true },
    { name := CodePoint.ofNat 0xD800 :: CodePoint.ofNat 0x1F600 :: "\\", level := 2, line := 7
      content := some "x\n"
      extras := [("k", .map [("]", .int (-7)), ("", .list [.null, .bool true, .text "\x7d,"])])] },
    { name := "...", level := 0, line := 8, target := some " -> (,,644)" }]

theorem parse_write_knotty : parse false (write knottyEntries) = .ok knottyEntries := by
  have hnested : Nested knottyEntries := ⟨by simp [knottyEntries], by simp [knottyEntries, Follows]⟩
  have hlines : knottyEntries.Pairwise fun a b => a.line < b.line := by simp [knottyEntries]
  have hwell : ∀ e ∈ knottyEntries, e.WellFormed := by
    simp only [knottyEntries, List.forall_mem_cons]
    exact ⟨by decide, by decide, by decide, by decide, by simp⟩
  have hlist : (Value.list [.null, .bool true, .text "\x7d,"]).Plain := by
    refine .list ?_
    simp only [List.forall_mem_cons]
    exact ⟨.null, .bool true, .text (by decide), by simp⟩
  have hmap : (Value.map [("]", .int (-7)), ("", .list [.null, .bool true, .text "\x7d,"])]).Plain := by
    refine .map (by decide) ?_ ?_
    · simp only [List.forall_mem_cons]
      exact ⟨by decide, by decide, by simp⟩
    · simp only [List.forall_mem_cons]
      exact ⟨Value.plain_int_of_lt (by decide), hlist, by simp⟩
  have hwrite : ∀ e ∈ knottyEntries, e.Writable := by
    simp only [knottyEntries, List.forall_mem_cons]
    refine ⟨⟨by decide, by simp, by simp, by simp, by simp⟩,
      ⟨by decide, by simp, by simp, by simp, by simp⟩, ⟨by decide, by simp, ?_, ?_, ?_⟩,
      ⟨by decide, ?_, by simp, by simp, by simp⟩, by simp⟩
    · exact fun t ht => Option.some.inj ht ▸ by decide
    · simp only [List.forall_mem_cons]
      exact ⟨by decide, by simp⟩
    · simp only [List.forall_mem_cons]
      exact ⟨hmap, by simp⟩
    · exact fun t ht => Option.some.inj ht ▸ by decide
  exact parse_write hnested (by decide) hlines hwell hwrite

end Layout

end TreePlan
