import TreePlan.Proofs.Build.Settled

/-! Blocks of entries side by side. A block begins at the top, so nothing in it hangs on the blocks before: its
entries have the names that they have alone, and they are settled in a state just when each block is settled there
and no two have an address in common. -/

namespace TreePlan

open FileSystem (Extends)

open Layout (Nested)

/-- The entry, whatever line it comes from. -/
def Entry.unlined (e : Entry) : Entry := { e with line := 0 }

namespace Plan

variable {es init : List Entry} {e : Entry} {k : Nat}

theorem nearest?_append (es init : List Entry) (k : Nat) :
    nearest? (es ++ init) k = (nearest? init k).or (nearest? es k) := by
  rw [nearest?, List.reverse_append, List.find?_append]
  rfl

/-- What leads to an entry stands in its block. -/
theorem names_append (es : List Entry) (h : Nested (init ++ [e])) : names (es ++ init) e = names init e := by
  have hleading : leading (es ++ init) e.level.toNat = leading init e.level.toNat := by
    refine List.map_congr_left fun k hk => ?_
    obtain ⟨d, hd, -⟩ := open_of_nested h k (List.mem_range.1 hk)
    rw [nearest?_append, hd, Option.some_or]
  rw [names, names, hleading]

theorem eachFrom_eq_each {β : Type} (f : List Entry → Entry → β) (earlier es : List Entry) :
    eachFrom f earlier es = each (fun init => f (earlier ++ init)) es := by
  induction es using List.reverseRecOn with
  | nil => rfl
  | append_singleton es e ih => rw [eachFrom_append, ih, each_append_singleton]; rfl

/-- What is said of entries by their names is said of each block by itself. -/
theorem each_append {β : Type} (f : List Text → β) {es xs : List Entry} (h : Nested xs) :
    each (fun init e => f (names init e)) (es ++ xs) =
      each (fun init e => f (names init e)) es ++ each (fun init e => f (names init e)) xs := by
  conv_lhs => rw [each, eachFrom_append, List.nil_append, eachFrom_eq_each _ es]
  refine congrArg (_ ++ ·) (each_congr fun init e rest hsplit => ?_)
  rw [hsplit, List.append_cons] at h
  rw [names_append es h.append_left]

theorem each_map {β : Type} (f : List Entry → Entry → β) (g : Entry → Entry) (es : List Entry) :
    each f (es.map g) = each (fun init e => f (init.map g) (g e)) es := by
  induction es using List.reverseRecOn with
  | nil => rfl
  | append_singleton es e ih =>
    rw [List.map_append, List.map_singleton, each_append_singleton, each_append_singleton, ih]

theorem nearest?_unlined (init : List Entry) (k : Nat) :
    nearest? (init.map Entry.unlined) k = (nearest? init k).map Entry.unlined := by
  rw [nearest?, ← List.map_reverse, List.find?_map]
  rfl

theorem names_unlined (init : List Entry) (e : Entry) :
    names (init.map Entry.unlined) e.unlined = names init e := by
  have hleading : leading (init.map Entry.unlined) e.level.toNat = leading init e.level.toNat := by
    refine List.map_congr_left fun k _ => ?_
    rw [nearest?_unlined, Option.map_map]
    rfl
  rw [names, names]
  exact congrArg (· ++ [e.name]) hleading

theorem path_unlined (root : Path) (init : List Entry) (e : Entry) :
    path root (init.map Entry.unlined) e.unlined = path root init e := by
  rw [path, path, names_unlined]

theorem moves_unlined (root : Path) (init : List Entry) (e : Entry) :
    moves root (init.map Entry.unlined) e.unlined = moves root init e := by
  rw [moves, moves, List.getLast?_map, ← List.map_dropLast]
  cases init.getLast? with
  | none => rfl
  | some p =>
    dsimp only [Option.map_some]
    rw [path_unlined]
    rfl

/-- Building does not look at the lines that entries come from. -/
theorem steps_unlined (root : Path) (encoding : Text) (es : List Entry) :
    steps root encoding (es.map Entry.unlined) = steps root encoding es := by
  rw [steps, steps, each_map]
  refine congrArg List.flatten (each_congr fun init e rest _ => ?_)
  rw [entrySteps, entrySteps, moves_unlined, path_unlined, List.length_map]
  rfl

theorem paths_unlined (root : Path) (es : List Entry) :
    paths root (es.map Entry.unlined) = paths root es := by
  rw [paths, paths, each_map]
  exact each_congr fun init e rest _ => path_unlined root init e

end Plan

namespace FileSystem

/-- Two states that no operation can tell apart. -/
structure Same (fs gs : FileSystem) : Prop where
  node? : ∀ a, fs.node? a = gs.node? a
  workingDirectory : fs.workingDirectory = gs.workingDirectory

end FileSystem

namespace Build

variable {encoding : Text} {root : Path} {base : Address} {fs gs hs : FileSystem} {es xs init init' : List Entry}
  {e : Entry}

theorem Stands.of_names_eq (h : Stands encoding root base fs gs init e)
    (hnames : Plan.names init' e = Plan.names init e) : Stands encoding root base fs gs init' e := by
  have haddress : Plan.address base init' e = Plan.address base init e := by
    rw [Plan.address, Plan.address, hnames]
  have hpath : Plan.path root init' e = Plan.path root init e := by rw [Plan.path, Plan.path, hnames]
  obtain ⟨hvacant, hreached, hformed⟩ := h
  exact ⟨haddress ▸ hvacant, hnames ▸ hreached, by rwa [haddress, hpath]⟩

theorem each_address_append (base : Address) (es : List Entry) (h : Nested xs) :
    Plan.each (Plan.address base) (es ++ xs) =
      Plan.each (Plan.address base) es ++ Plan.each (Plan.address base) xs :=
  Plan.each_append (fun names => base ++ names.map Utf8.encodeName) h

theorem paths_append (root : Path) (es : List Entry) (h : Nested xs) :
    Plan.paths root (es ++ xs) = Plan.paths root es ++ Plan.paths root xs := Plan.each_append root.below h

/-- Blocks are settled side by side just when each is settled by itself and they keep out of each other's way. -/
theorem settled_append_iff (h : Nested xs) : Settled encoding root base fs (es ++ xs) gs ↔
    Settled encoding root base fs es gs ∧ Settled encoding root base fs xs gs ∧
      (Plan.each (Plan.address base) es).Disjoint (Plan.each (Plan.address base) xs) := by
  have hnames : ∀ init e rest, xs = init ++ e :: rest → Plan.names (es ++ init) e = Plan.names init e := by
    rintro init e rest rfl
    rw [List.append_cons] at h
    exact Plan.names_append es h.append_left
  refine ⟨?_, ?_⟩
  · rintro ⟨hx, hnodup, hstands⟩
    rw [each_address_append base es h, List.nodup_append'] at hnodup
    obtain ⟨hes, hxs, hdisjoint⟩ := hnodup
    refine ⟨⟨hx, hes, fun init e rest hsplit => ?_⟩, ⟨hx, hxs, fun init e rest hsplit => ?_⟩, hdisjoint⟩
    · exact hstands init e (rest ++ xs) (by simp [hsplit])
    · exact (hstands (es ++ init) e rest (by simp [hsplit])).of_names_eq (hnames init e rest hsplit).symm
  · rintro ⟨⟨hx, hes, hstands⟩, ⟨-, hxs, hstands'⟩, hdisjoint⟩
    refine ⟨hx, ?_, fun init e rest hsplit => ?_⟩
    · rw [each_address_append base es h, List.nodup_append']
      exact ⟨hes, hxs, hdisjoint⟩
    · -- The entry is one of the second block, or of the first; between the two it begins the second.
      rcases List.append_eq_append_iff.1 hsplit with ⟨mid, rfl, hmid⟩ | ⟨mid, rfl, hmid⟩
      · exact (hstands' mid e rest hmid).of_names_eq (hnames mid e rest hmid)
      · cases mid with
        | nil =>
          have hone := hstands' [] e rest hmid.symm
          have heq := hnames [] e rest hmid.symm
          rw [List.append_nil, List.append_nil] at heq
          exact hone.of_names_eq heq
        | cons y mid =>
          obtain ⟨rfl, rfl⟩ := List.cons.inj hmid
          exact hstands init e mid rfl

/-- Two runs from one state that build at the same addresses, and the same there, end the same. -/
theorem Built.same (h : Built encoding root base fs es gs) (h' : Built encoding root base fs xs hs)
    (hmem : ∀ a, a ∈ Plan.each (Plan.address base) es ↔ a ∈ Plan.each (Plan.address base) xs)
    (hagree : ∀ a ∈ Plan.each (Plan.address base) xs, hs.node? a = gs.node? a) : gs.Same hs := by
  refine ⟨fun a => ?_, h.extends_.workingDirectory.trans h'.extends_.workingDirectory.symm⟩
  cases ha : fs.node? a with
  | some n => rw [h.extends_.node? a n ha, h'.extends_.node? a n ha]
  | none =>
    by_cases hx : a ∈ Plan.each (Plan.address base) xs
    · exact (hagree a hx).symm
    · have hg : ¬(gs.node? a).isSome := fun hs => hx ((hmem a).1 ((h.new_iff a).1 ⟨ha, hs⟩))
      have hh : ¬(hs.node? a).isSome := fun hs => hx ((h'.new_iff a).1 ⟨ha, hs⟩)
      rw [Option.not_isSome_iff_eq_none.1 hg, Option.not_isSome_iff_eq_none.1 hh]

/-- A run over two blocks can be made in the other order, and ends the same. -/
theorem carriedOut_swap (hbase : fs.LeadsToDirectory root base) (hes : Nested es) (hxs : Nested xs)
    (hsound : ∀ x ∈ es, x.IsSound) (hsound' : ∀ x ∈ xs, x.IsSound)
    (h : CarriedOut (Plan.steps root encoding (es ++ xs)) fs none gs) :
    ∃ hs, CarriedOut (Plan.steps root encoding (xs ++ es)) fs none hs ∧ gs.Same hs := by
  have hall : ∀ x ∈ es ++ xs, x.IsSound := List.forall_mem_append.2 ⟨hsound, hsound'⟩
  have hall' : ∀ x ∈ xs ++ es, x.IsSound := List.forall_mem_append.2 ⟨hsound', hsound⟩
  have hsettled := settled_of_carriedOut hbase (hes.append hxs) hall h
  obtain ⟨hse, hsx, hdisjoint⟩ := (settled_append_iff hxs).1 hsettled
  have hswapped := (settled_append_iff hes).2 ⟨hsx, hse, hdisjoint.symm⟩
  obtain ⟨hs, hrun, hagree⟩ := carriedOut_of_stands hbase (hxs.append hes) hall' hswapped
  have hbuilt := built_of_carriedOut hbase (hes.append hxs) hall h
  have hbuilt' := built_of_carriedOut hbase (hxs.append hes) hall' hrun
  refine ⟨hs, hrun, hbuilt.same hbuilt' (fun a => ?_) hagree⟩
  rw [each_address_append base es hxs, each_address_append base xs hes, List.mem_append, List.mem_append, or_comm]

end Build

end TreePlan
