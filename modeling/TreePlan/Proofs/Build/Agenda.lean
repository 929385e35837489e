import TreePlan.Proofs.Build.Arrival
import TreePlan.Proofs.Build.Errand

/-! What a run is going to do, said before it begins. The answers to its calls decide how far a run comes
and nothing else: the entries alone, with whatever levels, make an agenda of errands, and to build the
entries is to carry out their agenda. -/

namespace TreePlan

open Run (Ends)

namespace Cursor

/-- The names on record once some entries have been built. -/
def recorded (earlier : List Entry) : List Text :=
  earlier.foldl (fun names e => if e.isDirectory then before names e.level ++ [e.name] else names) []

/-- The depth of a level. The first entry is built at the root, whatever its level. -/
def depthAt (earlier : List Entry) (level : Int) : Int :=
  level - (earlier.head?.map Entry.level).getD level

/-- The cursor that some entries have left, moved to a level. -/
def standing (root : Path) (earlier : List Entry) (level : Int) : Cursor :=
  { root, records := recorded earlier, depth := depthAt earlier level }

variable {root : Path} {earlier : List Entry} {e p : Entry}

theorem standing_nil (root : Path) (level : Int) : standing root [] level = { root } := by
  simp [standing, recorded, depthAt]

theorem recorded_append_singleton (earlier : List Entry) (e : Entry) :
    recorded (earlier ++ [e]) =
      if e.isDirectory then before (recorded earlier) e.level ++ [e.name] else recorded earlier := by
  simp [recorded]

theorem depthAt_append_singleton (earlier : List Entry) (e : Entry) :
    depthAt (earlier ++ [e]) e.level = depthAt earlier e.level := by
  cases earlier with
  | nil => simp [depthAt]
  | cons p earlier => simp [depthAt]

/-- Among other entries than none, depths differ as levels do. -/
theorem depthAt_add (hp : p ∈ earlier.getLast?) (level : Int) :
    depthAt earlier level = depthAt earlier p.level + (level - p.level) := by
  cases earlier with
  | nil => cases hp
  | cons q earlier =>
    simp only [depthAt, List.head?_cons, Option.map_some, Option.getD_some]
    omega

theorem standing_append_singleton (root : Path) (earlier : List Entry) (e : Entry) :
    standing root (earlier ++ [e]) e.level =
      if e.isDirectory then (standing root earlier e.level).record e.level e.name
      else standing root earlier e.level := by
  unfold standing
  rw [depthAt_append_singleton, recorded_append_singleton]
  split
  · rfl
  · rfl

end Cursor

namespace Build

open Cursor (standing)

/-! The errands of a run, part by part. -/

def descents (index : Nat) : Nat → Cursor → List Errand
  | 0, _ => []
  | n + 1, cursor =>
    match cursor.below? with
    | .error f => [.halt (.stray f)]
    | .ok none => [.lost index cursor.location]
    | .ok (some target) =>
      .attempt (moving true index target) (.visit target)
        :: descents index n { cursor with depth := cursor.depth + 1 }

def ascents (index : Nat) : Nat → Cursor → List Errand
  | 0, _ => []
  | n + 1, cursor =>
    .attempt (moving false index cursor.above) (.visit cursor.above)
      :: ascents index n { cursor with depth := cursor.depth - 1 }

def arrivals (root : Path) (earlier : List Entry) (e : Entry) : List Errand :=
  match earlier.getLast? with
  | none => []
  | some p =>
    if p.level < e.level then
      descents earlier.length (e.level - p.level).toNat (standing root earlier p.level)
    else ascents earlier.length (p.level - e.level).toNat (standing root earlier p.level)

def refused (index : Nat) (path : Path) (refusal : Refusal) : Located :=
  ⟨.creation, index, path, .resolve, refusal.reason,
    "Can't create " ++ path.toText ++ ": " ++ refusal.reason⟩

def placing (index : Nat) (cursor : Cursor) (name : Text) : List Errand :=
  match Path.compose cursor.root cursor.segments name with
  | .ok _ => []
  | .error refusal => [.halt (.located (refused index (cursor.location.join name) refusal))]

def writing (index : Nat) (path : Path) (content : Text) : Attempt :=
  { index, operation := .write, path
    failure := "Can't write content to file " ++ path.toText
    metadata := [("content", .text content)] }

def contentErrand (encoding : Text) (index : Nat) (path : Path) (content : Text) : Errand :=
  match encodeContent encoding content with
  | .error f => .unable (writing index path content) f
  | .ok bytes => .attempt (writing index path content) (.write path bytes)

def changingMode (index : Nat) (path : Path) (mode : Int) : Attempt :=
  { index, operation := .chmod, path
    failure := "Can't chmod file " ++ path.toText
    metadata := [("mode", .int mode)] }

def fileErrands (encoding : Text) (index : Nat) (e : Entry) (path : Path) : List Errand :=
  .attempt { index, operation := .create, path, failure := "Can't create file " ++ path.toText }
      (.createFile path)
    :: e.content.toList.map (contentErrand encoding index path)
    ++ .close path
    :: e.mode.toList.map fun mode =>
      .attempt (changingMode index path mode) (.setMode path mode)

def nodeErrands (encoding : Text) (index : Nat) (e : Entry) (path : Path) : List Errand :=
  if e.isDirectory then
    [.attempt
      { index, operation := .mkdir, path
        failure := "Can't create directory " ++ path.toText
        metadata := [("mode", .ofOption .int e.mode)] }
      (.makeDirectory path e.mode)]
  else
    match e.target with
    | some target =>
      [.attempt
        { index, operation := .symlink, path
          failure := "Can't create symlink " ++ path.toText ++ " -> " ++ target
          metadata := [("target", .text target)] }
        (.link target path)]
    | none => fileErrands encoding index e path

def ownerErrands (index : Nat) (e : Entry) (path : Path) : List Errand :=
  if e.hasOwnership then
    [.attempt
      { index, operation := .chown, path
        failure := "Can't chown " ++ path.toText
        metadata := [("owner", .ofOption .text e.owner), ("group", .ofOption .text e.group)] }
      (.setOwner path e.owner e.group (!e.isSymlink))]
  else []

/-- Where an entry is built, in view of those before it. -/
def spot (root : Path) (earlier : List Entry) (e : Entry) : Path :=
  (standing root earlier e.level).location.join e.name

def entryErrands (root : Path) (encoding : Text) (earlier : List Entry) (e : Entry) : List Errand :=
  arrivals root earlier e
    ++ (placing earlier.length (standing root earlier e.level) e.name
    ++ (nodeErrands encoding earlier.length e (spot root earlier e)
    ++ ownerErrands earlier.length e (spot root earlier e)))

def agenda (root : Path) (encoding : Text) (es : List Entry) : List Errand :=
  (Plan.each (entryErrands root encoding) es).flatten

/-! No part leaves a file open but a file that has been made, and that is closed. -/

theorem tidy_descents (index n : Nat) (cursor : Cursor) : Tidy (descents index n cursor) := by
  induction n generalizing cursor with
  | zero => rfl
  | succ n ih =>
    rw [descents]
    split
    · rfl
    · rfl
    · exact ih _

theorem tidy_ascents (index n : Nat) (cursor : Cursor) : Tidy (ascents index n cursor) := by
  induction n generalizing cursor with
  | zero => rfl
  | succ n ih => exact ih _

theorem tidy_arrivals (root : Path) (earlier : List Entry) (e : Entry) :
    Tidy (arrivals root earlier e) := by
  unfold arrivals
  split
  · rfl
  · split
    · exact tidy_descents ..
    · exact tidy_ascents ..

theorem tidy_placing (index : Nat) (cursor : Cursor) (name : Text) :
    Tidy (placing index cursor name) := by
  unfold placing
  split
  · rfl
  · rfl

theorem leaves_contentErrand (open? : Option Path) (encoding : Text) (index : Nat) (path : Path)
    (content : Text) : (contentErrand encoding index path content).leaves open? = open? := by
  unfold contentErrand
  split
  · rfl
  · rfl

theorem tidy_fileErrands (encoding : Text) (index : Nat) (e : Entry) (path : Path) :
    Tidy (fileErrands encoding index e path) := by
  unfold Tidy fileErrands
  cases e.content <;> cases e.mode <;> simp [Errand.leaves, held]

theorem tidy_nodeErrands (encoding : Text) (index : Nat) (e : Entry) (path : Path) :
    Tidy (nodeErrands encoding index e path) := by
  unfold nodeErrands
  split
  · rfl
  · split
    · rfl
    · exact tidy_fileErrands ..

theorem tidy_ownerErrands (index : Nat) (e : Entry) (path : Path) :
    Tidy (ownerErrands index e path) := by
  unfold ownerErrands
  split
  · rfl
  · rfl

theorem tidy_entryErrands (root : Path) (encoding : Text) (earlier : List Entry) (e : Entry) :
    Tidy (entryErrands root encoding earlier e) :=
  (tidy_arrivals ..).append ((tidy_placing ..).append ((tidy_nodeErrands ..).append (tidy_ownerErrands ..)))

/-! To build is to carry out the errands, part by part. -/

variable (o : Options)

theorem carryOut_visit (a : Attempt) (p : Path) (rest : List Errand) :
    carryOut o none (.attempt a (.visit p) :: rest) = (do
      attempt o a (.visit p)
      carryOut o none rest) :=
  carryOut_attempt o a (fun _ => rfl) rest

theorem descend_eq_carryOut (index n : Nat) (cursor : Cursor) :
    descend o index n cursor = (do
      carryOut o none (descents index n cursor)
      pure { cursor with depth := cursor.depth + n }) := by
  induction n generalizing cursor with
  | zero => simp [descend, descents, carryOut]
  | succ n ih =>
    rw [descend, descents]
    rcases hb : cursor.below? with f | _ | target
    · rfl
    · dsimp only
      rw [carryOut, bind_assoc, Errand.run]
      unfold leaving
      rw [bind_assoc]
      rfl
    · dsimp only
      rw [carryOut_visit, ih, bind_assoc, Nat.cast_add, Nat.cast_one, Int.add_comm (n : Int),
        ← Int.add_assoc]
      rfl

theorem ascend_eq_carryOut (index n : Nat) (cursor : Cursor) :
    ascend o index n cursor = (do
      carryOut o none (ascents index n cursor)
      pure { cursor with depth := cursor.depth - n }) := by
  induction n generalizing cursor with
  | zero => simp [ascend, ascents, carryOut]
  | succ n ih =>
    rw [ascend, ascents, carryOut_visit, ih, bind_assoc, Nat.cast_add, Nat.cast_one,
      Int.add_comm (n : Int), ← Int.sub_sub]
    rfl

/-- Wherever a run comes from, it arrives at the depth of the entry. -/
theorem arrive_eq_carryOut (root : Path) (earlier : List Entry) (e : Entry) :
    arrive o earlier.length (earlier.getLast?.map Entry.level) e.level
        (standing root earlier ((earlier.getLast?.map Entry.level).getD e.level)) = (do
      carryOut o none (arrivals root earlier e)
      pure (standing root earlier e.level)) := by
  unfold arrivals
  cases hlast : earlier.getLast? with
  | none => simp [arrive, carryOut]
  | some p =>
    have hdepth := Cursor.depthAt_add hlast e.level
    show navigate o earlier.length p.level e.level (standing root earlier p.level) = _
    unfold navigate
    dsimp only
    split
    · rw [descend_eq_carryOut]
      have hcursor : { standing root earlier p.level with
          depth := (standing root earlier p.level).depth + ((e.level - p.level).toNat : Int) } =
            standing root earlier e.level := by
        simp only [standing, Cursor.mk.injEq, true_and]
        omega
      rw [hcursor]
    · rw [ascend_eq_carryOut]
      have hcursor : { standing root earlier p.level with
          depth := (standing root earlier p.level).depth - ((p.level - e.level).toNat : Int) } =
            standing root earlier e.level := by
        simp only [standing, Cursor.mk.injEq, true_and]
        omega
      rw [hcursor]

theorem place_eq_carryOut (index : Nat) (cursor : Cursor) (name : Text) :
    place index cursor name = (do
      carryOut o none (placing index cursor name)
      pure (cursor.location.join name)) := by
  unfold place placing
  cases hc : Path.compose cursor.root cursor.segments name with
  | error refusal => rfl
  | ok path =>
    have hpath : path = cursor.location.join name := by
      unfold Path.compose at hc
      split at hc
      · cases hc
      · cases hc
        simp [Cursor.location, Path.joinAll]
    rw [hpath]
    simp [carryOut]

theorem closing_eq_leaving (path : Path) (body : Build Unit) :
    closing path body = (do
      leaving (some path) body
      (Errand.close path).run o (some path)) := by
  refine ExceptT.ext ?_
  unfold closing
  rw [ExceptT.run_bind, ExceptT.run_bind, run_leaving, ExceptT.run_lift, bind_assoc, bind_map_left]
  congr
  funext r
  cases r with
  | ok u => rfl
  | error s =>
    show _ = (parting path s >>= fun _ => (Errand.close path).run o (some path)).run
    rw [parting_bind]
    rfl

/-- A content is written, if there is one, while the file is open. -/
theorem carryOut_content (index : Nat) (path : Path) (content? : Option Text) (rest : List Errand) :
    carryOut o (some path) (content?.toList.map (contentErrand o.encoding index path) ++ rest) = (do
      leaving (some path) (match content? with
        | none => pure ()
        | some content => writeContent o index path content)
      carryOut o (some path) rest) := by
  cases content? with
  | none => rfl
  | some content =>
    show carryOut o (some path) (contentErrand o.encoding index path content :: rest) = _
    rw [carryOut, leaves_contentErrand]
    dsimp only
    unfold writeContent contentErrand
    cases encodeContent o.encoding content with
    | error f => rfl
    | ok bytes =>
      dsimp only
      unfold attempt
      rw [leaving_call_bind]
      rfl

theorem carryOut_chmod (index : Nat) (mode? : Option Int) (path : Path) :
    carryOut o none (mode?.toList.map fun mode =>
        .attempt (changingMode index path mode) (.setMode path mode)) =
      match mode? with
      | none => pure ()
      | some mode => attempt o (changingMode index path mode) (.setMode path mode) := by
  cases mode? with
  | none => rfl
  | some mode =>
    show carryOut o none [_] = _
    rw [carryOut_attempt o _ fun _ => rfl]
    simp [carryOut, leaving]

theorem buildFile_eq_carryOut (index : Nat) (e : Entry) (path : Path) :
    buildFile o index e path = carryOut o none (fileErrands o.encoding index e path) := by
  unfold buildFile fileErrands
  dsimp only
  rw [List.cons_append, carryOut, Errand.run, bind_assoc]
  congr
  funext answer
  cases answer with
  | error f => exact settle_error_bind o _ f false true _ _
  | ok u =>
    have hopen : held none (.createFile path, .ok u) = some path := rfl
    have hleaves (a : Attempt) : (Errand.attempt a (.createFile path)).leaves none = some path := rfl
    have hclose : (Errand.close path).leaves (some path) = none := rfl
    rw [hopen, hleaves, closing_eq_leaving o, leaving_bind, carryOut_content, carryOut, hclose,
      carryOut_chmod]
    simp only [bind_assoc]
    rfl

theorem carryOut_lone (a : Attempt) {c : Call} (h : ∀ answer, held none (c, answer) = none) :
    carryOut o none [.attempt a c] = attempt o a c := by
  rw [carryOut_attempt o a h]
  exact bind_pure _

theorem buildNode_eq_carryOut (index : Nat) (e : Entry) (path : Path) :
    buildNode o index e path = carryOut o none (nodeErrands o.encoding index e path) := by
  unfold buildNode nodeErrands
  split
  · exact (carryOut_lone o _ fun _ => rfl).symm
  · cases e.target with
    | some target => exact (carryOut_lone o _ fun _ => rfl).symm
    | none => exact buildFile_eq_carryOut o index e path

theorem setOwner_eq_carryOut (index : Nat) (e : Entry) (path : Path) :
    setOwner o index e path = carryOut o none (ownerErrands index e path) := by
  unfold setOwner ownerErrands
  split
  · exact (carryOut_lone o _ fun _ => rfl).symm
  · rfl

/-- To build an entry where those before have left the cursor is to carry out its errands. -/
theorem buildEntry_eq_carryOut (root : Path) (earlier : List Entry) (e : Entry) :
    buildEntry o earlier.length (earlier.getLast?.map Entry.level)
        (standing root earlier ((earlier.getLast?.map Entry.level).getD e.level)) e = (do
      carryOut o none (entryErrands root o.encoding earlier e)
      pure (spot root earlier e, standing root (earlier ++ [e]) e.level)) := by
  unfold buildEntry entryErrands
  rw [arrive_eq_carryOut, bind_assoc, (tidy_arrivals ..).carryOut_append,
    (tidy_placing ..).carryOut_append, (tidy_nodeErrands ..).carryOut_append,
    Cursor.standing_append_singleton]
  simp only [pure_bind, bind_assoc, place_eq_carryOut o, buildNode_eq_carryOut, setOwner_eq_carryOut]
  rfl

theorem buildFrom_eq_carryOut (root : Path) (earlier es : List Entry) (level : Int)
    (hlevel : ∀ p ∈ earlier.getLast?, level = p.level) :
    buildFrom o earlier.length (earlier.getLast?.map Entry.level) (standing root earlier level) es = (do
      carryOut o none (Plan.eachFrom (entryErrands root o.encoding) earlier es).flatten
      pure (Plan.eachFrom (spot root) earlier es)) := by
  induction es generalizing earlier level with
  | nil => rfl
  | cons e rest ih =>
    have hstart : standing root earlier level =
        standing root earlier ((earlier.getLast?.map Entry.level).getD e.level) := by
      cases hlast : earlier.getLast? with
      | none =>
        rw [List.getLast?_eq_none_iff.1 hlast, Cursor.standing_nil, Cursor.standing_nil]
      | some p => rw [hlevel p hlast]; rfl
    have hrest := ih (earlier ++ [e]) e.level (by simp)
    rw [List.getLast?_concat, List.length_append, List.length_singleton] at hrest
    rw [buildFrom, hstart, buildEntry_eq_carryOut, Plan.eachFrom, Plan.eachFrom, List.flatten_cons,
      (tidy_entryErrands ..).carryOut_append]
    simp only [bind_assoc, pure_bind]
    rw [← Option.map_some, hrest]
    simp only [bind_assoc, pure_bind]

/-- To build entries is to carry out their agenda. -/
theorem entries_eq_carryOut (root : Path) (es : List Entry) :
    Build.entries o root es = (do
      carryOut o none (agenda root o.encoding es)
      pure (Plan.each (spot root) es) : Build (List Path)).run := by
  have hstart := buildFrom_eq_carryOut o root [] es 0 (by simp)
  rw [Cursor.standing_nil] at hstart
  exact congrArg ExceptT.run hstart

/-- However a run over entries goes, it proceeds by their agenda. -/
theorem proceeds_of_entries {o : Options} {root : Path} {es : List Entry} {log : List Exchange}
    {r : Except Stop (List Path)} (h : Ends (Build.entries o root es) log r) :
    ∃ u, Proceeds o none (agenda root o.encoding es) log u ∧
      r = u.map fun _ => Plan.each (spot root) es := by
  rw [entries_eq_carryOut] at h
  rcases ends_bind.1 h with ⟨s, hs, rfl⟩ | ⟨l₁, u, l₂, h₁, h₂, rfl⟩
  · exact ⟨.error s, proceeds_of_ends hs, rfl⟩
  · obtain ⟨rfl, rfl⟩ := ends_pure.1 h₂
    rw [List.append_nil]
    exact ⟨.ok u, proceeds_of_ends h₁, rfl⟩

end Build

/-! What can be on an agenda. -/

/-- What an attempt to make a call can be known as. -/
def Call.operations : Call → List Operation
  | .visit _ => [.enter, .leave]
  | .makeDirectory _ _ => [.mkdir]
  | .createFile _ => [.create]
  | .write _ _ => [.write]
  | .setMode _ _ => [.chmod]
  | .link _ _ => [.symlink]
  | .setOwner _ _ _ _ => [.chown]
  | .close _ | .observe _ => []

namespace Build

open Cursor (standing)

/-- An attempt goes by the name of its call and has its path. -/
structure Attempt.Fits (a : Attempt) (c : Call) : Prop where
  operation : a.operation ∈ c.operations
  path : c.path? = some a.path

/-- What can be on the agenda of entries, and why a run can't go on there. -/
inductive Due (root : Path) (encoding : Text) (es : List Entry) : Errand → Prop where
  | attempt {a : Attempt} {c : Call} : a.Fits c → Due root encoding es (.attempt a c)
  | close (path : Path) : Due root encoding es (.close path)
  | unable {earlier later : List Entry} {e : Entry} {content : Text} {f : Failure} :
      es = earlier ++ e :: later → e.content = some content →
      encodeContent encoding content = .error f →
      Due root encoding es (.unable (writing earlier.length (spot root earlier e) content) f)
  | lost {earlier later : List Entry} {p e : Entry} {level : Int} :
      es = earlier ++ e :: later → earlier.getLast? = some p → p.level ≤ level → level < e.level →
      ((Cursor.recorded earlier).length : Int) ≤ Cursor.depthAt earlier level →
      Due root encoding es (.lost earlier.length (standing root earlier level).location)
  | refused {l : Located} : l.operation = .resolve → Due root encoding es (.halt (.located l))
  | stray (f : Failure) : Due root encoding es (.halt (.stray f))

variable {root : Path} {encoding : Text} {es earlier later : List Entry} {e : Entry} {errand : Errand}

theorem below?_eq_none {cursor : Cursor} (h : cursor.below? = .ok none) :
    (cursor.records.length : Int) ≤ cursor.depth := by
  unfold Cursor.below? at h
  split at h
  · assumption
  · split at h
    · cases h
    · split at h
      · cases h
      · cases h

theorem due_descents {p : Entry} {level : Int} {n : Nat} (hes : es = earlier ++ e :: later)
    (hp : earlier.getLast? = some p) (hle : p.level ≤ level) (hn : level + n ≤ e.level)
    (hm : errand ∈ descents earlier.length n (standing root earlier level)) :
    Due root encoding es errand := by
  -- each step down leaves a cursor that stands one level deeper over the same entries
  induction n generalizing level with
  | zero => cases hm
  | succ n ih =>
    rw [descents] at hm
    rcases hb : (standing root earlier level).below? with f | _ | target
    · rw [hb] at hm
      rw [List.mem_singleton.1 hm]
      exact .stray f
    · rw [hb] at hm
      rw [List.mem_singleton.1 hm]
      exact .lost hes hp hle (by omega) (below?_eq_none hb)
    · rw [hb] at hm
      rcases List.mem_cons.1 hm with rfl | hm
      · exact .attempt ⟨by simp [moving, Call.operations], rfl⟩
      · have hdeeper : { standing root earlier level with
            depth := (standing root earlier level).depth + 1 } = standing root earlier (level + 1) := by
          have hdepth := Cursor.depthAt_add hp
          have h₁ := hdepth level
          have h₂ := hdepth (level + 1)
          simp only [standing, Cursor.mk.injEq, true_and]
          omega
        rw [hdeeper] at hm
        exact ih (by omega) (by omega) hm

theorem due_ascents {index n : Nat} {cursor : Cursor} (hm : errand ∈ ascents index n cursor) :
    Due root encoding es errand := by
  induction n generalizing cursor with
  | zero => cases hm
  | succ n ih =>
    rcases List.mem_cons.1 hm with rfl | hm
    · exact .attempt ⟨by simp [moving, Call.operations], rfl⟩
    · exact ih hm

theorem due_fileErrands (hes : es = earlier ++ e :: later)
    (hm : errand ∈ fileErrands encoding earlier.length e (spot root earlier e)) :
    Due root encoding es errand := by
  unfold fileErrands at hm
  rw [List.cons_append, List.mem_cons, List.mem_append, List.mem_cons] at hm
  rcases hm with rfl | hm | rfl | hm
  · exact .attempt ⟨by simp [Call.operations], rfl⟩
  · obtain ⟨content, hcontent, rfl⟩ := List.mem_map.1 hm
    unfold contentErrand
    cases hcode : encodeContent encoding content with
    | error f => exact .unable hes (by simpa using hcontent) hcode
    | ok bytes => exact .attempt ⟨by simp [writing, Call.operations], rfl⟩
  · exact .close _
  · obtain ⟨mode, -, rfl⟩ := List.mem_map.1 hm
    exact .attempt ⟨by simp [changingMode, Call.operations], rfl⟩

theorem due_entryErrands (hes : es = earlier ++ e :: later)
    (hm : errand ∈ entryErrands root encoding earlier e) : Due root encoding es errand := by
  unfold entryErrands at hm
  rw [List.mem_append, List.mem_append, List.mem_append] at hm
  rcases hm with hm | hm | hm | hm
  · unfold arrivals at hm
    cases hp : earlier.getLast? with
    | none =>
      rw [hp] at hm
      cases hm
    | some p =>
      rw [hp] at hm
      dsimp only at hm
      split at hm
      · exact due_descents hes hp (Int.le_refl _) (by omega) hm
      · exact due_ascents hm
  · unfold placing at hm
    split at hm
    · cases hm
    · rw [List.mem_singleton.1 hm]
      exact .refused rfl
  · unfold nodeErrands at hm
    split at hm
    · rw [List.mem_singleton.1 hm]
      exact .attempt ⟨by simp [Call.operations], rfl⟩
    · cases ht : e.target with
      | some target =>
        rw [ht] at hm
        rw [List.mem_singleton.1 hm]
        exact .attempt ⟨by simp [Call.operations], rfl⟩
      | none =>
        rw [ht] at hm
        exact due_fileErrands hes hm
  · unfold ownerErrands at hm
    split at hm
    · rw [List.mem_singleton.1 hm]
      exact .attempt ⟨by simp [Call.operations], rfl⟩
    · cases hm

theorem due_agenda (hm : errand ∈ agenda root encoding es) : Due root encoding es errand := by
  obtain ⟨errands, hmem, hm⟩ := List.mem_flatten.1 hm
  obtain ⟨earlier, e, later, hes, rfl⟩ := Plan.mem_each.1 hmem
  exact due_entryErrands hes hm

end Build

end TreePlan
