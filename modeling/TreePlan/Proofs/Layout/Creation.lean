import TreePlan.Proofs.Build.Built

/-! Building a layout on a file system: where it is built, how the steps of its plan are carried out
there, and what stands once it has ended. -/

namespace TreePlan

open Utf8 (encodeName)

open FileSystem (Extends)

open Build

namespace FileSystem

/-- The path to build below, without a prefix that of the working directory. -/
def placePath (fs : FileSystem) : Option Text → Path
  | none => fs.currentPath
  | some t => .ofText t

/-- Whether there is a directory to build in. -/
def checkPlace (fs : FileSystem) : Option Text → Except PrefixError Unit
  | none => if (fs.node? fs.workingDirectory).isSome then .ok () else .error (.failed (.system .notFound))
  | some t =>
    if t.isEmpty then .error (.refused .emptyPrefix)
    else
      match fs.isDirectory (Path.ofText t).toText with
      | .error f => .error (.failed f)
      | .ok true => .ok ()
      | .ok false => .error (.refused (.missingPrefix t))

end FileSystem

namespace Layout

variable {fs gs : FileSystem} {now layout : Text} {input : Bytes} {place : Option Text}

theorem prefixPath_run (now : Text) (input : Bytes) (fs : FileSystem) (place : Option Text) :
    (prefixPath (FileSystem.host now input) place).run fs =
      ((fs.checkPlace place).map fun _ => fs.placePath place, fs) := by
  cases place with
  | none =>
    have hrun : (prefixPath (FileSystem.host now input) none).run fs =
        (fs.currentDirectory.mapError PrefixError.failed, fs) := rfl
    rw [hrun, FileSystem.currentDirectory, FileSystem.checkPlace]
    split <;> rfl
  | some t =>
    unfold prefixPath FileSystem.checkPlace
    by_cases ht : t.isEmpty = true
    · simp only [if_pos ht]
      rfl
    · simp only [if_neg ht]
      have hrun : (ExceptT.adapt PrefixError.failed
          ((FileSystem.host now input).isDirectory (Path.ofText t).toText)).run fs =
          ((fs.isDirectory (Path.ofText t).toText).mapError PrefixError.failed, fs) := rfl
      cases hd : fs.isDirectory (Path.ofText t).toText with
      | error f =>
        rw [hd] at hrun
        exact run_bind_of_error hrun
      | ok b =>
        rw [hd] at hrun
        rw [run_bind_of_ok hrun]
        cases b <;> rfl

theorem answerTraced_host (now : Text) (input : Bytes) :
    answerTraced (FileSystem.host now input) none = FileSystem.answer := by
  funext c
  cases c <;> rfl

/-- What a caller is told of a run. -/
def report : Except Stop (List Path) → Except Failure Status
  | .ok paths => .ok (.ofPaths paths)
  | .error (.located l) => .ok (.ofStop l)
  | .error (.stray f) => .error f

/-- Without settings and without a log, building a layout is reading it, checking the place and
performing the run. -/
theorem create_run (now : Text) (input : Bytes) (layout : Text) (place : Option Text)
    (fs : FileSystem) :
    (create (FileSystem.host now input) layout place none none).run fs =
      match parse false layout with
      | .error (.oversized fault) => (.error (.oversized fault), fs)
      | .error (.invalid e) => (.ok (.ofSyntaxError e), fs)
      | .ok es =>
        match fs.checkPlace place with
        | .error (.refused r) => (.ok (.ofRefusal r place), fs)
        | .error (.failed f) => (.error f, fs)
        | .ok _ =>
          let (r, gs) := (Build.entries {} (fs.placePath place) es).perform FileSystem.answer fs
          (report r, gs) := by
  have hanswer : answerTraced (FileSystem.host now input) (none <|> none) = FileSystem.answer :=
    answerTraced_host now input
  unfold create
  dsimp only [Option.any, Option.map, Option.bind, Option.getD]
  cases parse false layout with
  | error f => cases f <;> rfl
  | ok es =>
    dsimp only
    rw [hanswer]
    refine (run_bind_of_ok (run_lift_of_eq (prefixPath_run now input fs place))).trans ?_
    cases fs.checkPlace place with
    | error r => cases r <;> rfl
    | ok u =>
      dsimp only [Except.map]
      generalize hr : (Build.entries {} (fs.placePath place) es).perform FileSystem.answer fs = r
      obtain ⟨r, gs⟩ := r
      refine (run_bind_of_ok (run_lift_of_eq hr)).trans ?_
      cases r with
      | ok paths => rfl
      | error s => cases s <;> rfl

/-- Whatever a caller is told, all that stood before stands as it was, and what is new is reached from
the directory built in through new directories only. If all is well there is one new node for each
entry, and the paths made are the paths that lead there, all different. If an entry is reported, those
before it have been built, and of itself at most the beginning. -/
theorem create_builds {base : Address} {status : Status}
    (hbase : fs.LeadsToDirectory (fs.placePath place) base)
    (h : (create (FileSystem.host now input) layout place none none).run fs = (.ok status, gs)) :
    Extends fs gs ∧
      (∀ a, fs.node? a = none → (gs.node? a).isSome → NewlyBelow base fs gs a) ∧
      (status.ok = true → ∃ es, parse false layout = .ok es ∧
        Built "utf-8" (fs.placePath place) base fs es gs ∧
        status.created = (Plan.paths (fs.placePath place) es).map Path.toText ∧
        status.created.Nodup) ∧
      (∀ k, status.index = some k → ∃ earlier e later,
        parse false layout = .ok (earlier ++ e :: later) ∧ k = earlier.length ∧
        StoppedAt "utf-8" (fs.placePath place) base fs earlier e gs) ∧
      (status.ok = false → status.index = none → gs = fs) := by
  have hsame : Extends fs fs ∧ ∀ a, fs.node? a = none → (fs.node? a).isSome →
      NewlyBelow base fs fs a := by
    refine ⟨.refl fs, fun a hn hs => ?_⟩
    rw [hn] at hs
    simp at hs
  rw [create_run] at h
  cases hp : parse false layout with
  | error f =>
    rw [hp] at h
    cases f with
    | oversized fault => cases h
    | invalid e =>
      cases h
      exact ⟨hsame.1, hsame.2, nofun, nofun, fun _ _ => rfl⟩
  | ok es =>
    rw [hp] at h
    cases hc : fs.checkPlace place with
    | error r =>
      rw [hc] at h
      cases r with
      | failed f => cases h
      | refused r =>
        cases h
        exact ⟨hsame.1, hsame.2, nofun, nofun, fun _ _ => rfl⟩
    | ok u =>
      obtain ⟨r, hs, hr⟩ : ∃ r hs, (Build.entries {} (fs.placePath place) es).perform
          FileSystem.answer fs = (r, hs) := ⟨_, _, rfl⟩
      rw [hc] at h
      dsimp only at h
      rw [hr] at h
      obtain ⟨hstatus, rfl⟩ : report r = .ok status ∧ hs = gs := Prod.mk.inj h
      have hn := parse_nested hp
      have hsound := parse_isSound hp
      obtain ⟨out, hc, rfl⟩ := entries_carriedOut hn hsound hr
      rcases (Built.start "utf-8" (fs.placePath place) base fs).run hbase hn hsound hc with
        ⟨rfl, hb⟩ | ⟨s, earlier, e, later, rfl, rfl, hstop, hindex⟩
      · cases hstatus
        exact ⟨hb.extends_, fun a ha hs => hb.newlyBelow hn hsound ha hs,
          fun _ => ⟨es, rfl, hb, rfl, hb.paths_nodup⟩, nofun, nofun⟩
      · rw [List.append_cons] at hn hsound
        have hsound' : ∀ x ∈ earlier ++ [e], x.IsSound := fun x hx => hsound x (List.mem_append_left _ hx)
        cases s with
        | stray f => cases hstatus
        | located l =>
          cases hstatus
          refine ⟨hstop.extends_, fun a ha hs => hstop.newlyBelow hn.append_left hsound' ha hs,
            nofun, fun k hk => ⟨earlier, e, later, rfl, ?_, hstop⟩, fun _ => nofun⟩
          rw [← hindex l rfl]
          exact (Option.some.inj hk).symm

/-- A directory with a file in it, and a symlink to that directory. -/
def site : FileSystem :=
  { nodes := [([], FileSystem.rootNode), ([encodeName "srv"], FileSystem.rootNode),
      ([encodeName "srv", encodeName "old"], ⟨.file [0x6F], 0o600, 0, 0⟩),
      ([encodeName "www"], ⟨.symlink (encodeName "srv"), 0o777, 0, 0⟩)]
    workingDirectory := [] }

def siteLayout : Text := "a/\n  f \"content\":\"x\"\nl -> ../t"

def siteAfter : FileSystem :=
  { site with
    nodes := site.nodes ++
      [([encodeName "srv", encodeName "a"], ⟨.directory, 0o755, 0, 0⟩),
        ([encodeName "srv", encodeName "a", encodeName "f"], ⟨.file [0x78], 0o644, 0, 0⟩),
        ([encodeName "srv", encodeName "l"], ⟨.symlink (encodeName "../t"), 0o777, 0, 0⟩)] }

theorem create_builds_site :
    site.LeadsToDirectory (site.placePath (some "/www")) [encodeName "srv"] ∧
      (create (FileSystem.host [] []) siteLayout (some "/www") none none).run site =
        (.ok (.ofPaths [.ofText "/www/a", .ofText "/www/a/f", .ofText "/www/l"]), siteAfter) ∧
      Extends site siteAfter ∧
      ∃ es, parse false siteLayout = .ok es ∧
        Built "utf-8" (.ofText "/www") [encodeName "srv"] site es siteAfter := by
  have hbase : site.LeadsToDirectory (site.placePath (some "/www")) [encodeName "srv"] :=
    ⟨FileSystem.rootNode, by cbv, rfl⟩
  have hrun : (create (FileSystem.host [] []) siteLayout (some "/www") none none).run site =
      (.ok (.ofPaths [.ofText "/www/a", .ofText "/www/a/f", .ofText "/www/l"]), siteAfter) := by
    cbv
  obtain ⟨hext, -, hok, -⟩ := create_builds hbase hrun
  obtain ⟨es, hp, hb, -⟩ := hok rfl
  exact ⟨hbase, hrun, hext, es, hp, hb⟩

end Layout

end TreePlan
