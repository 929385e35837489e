import TreePlan.Proofs.Build.Execution

/-! What is built on a file system. Each entry makes one node, where there was none and right where its
names say, for the directories on the way to it have been made before by entries of their own. -/

namespace TreePlan

open Utf8 (encodeName)

open FileSystem (Extends Filled LeadsToDirectory EndInName)

namespace Build

/-- The node of an entry has its kind, and a file the content written to it. -/
inductive Makes (encoding : Text) (e : Entry) : NodeKind → Prop where
  | directory : e.isDirectory = true → Makes encoding e .directory
  | symlink {target : Text} : e.isDirectory = false → e.target = some target →
      Makes encoding e (.symlink (encodeName target))
  | empty : e.isDirectory = false → e.target = none → e.content = none → Makes encoding e (.file [])
  | file {content : Text} {bytes : Bytes} : e.isDirectory = false → e.target = none →
      e.content = some content → encodeContent encoding content = .ok bytes →
      Makes encoding e (.file bytes)

/-- The same, but a file may still be empty. -/
def Begins (encoding : Text) (e : Entry) (k : NodeKind) : Prop :=
  Makes encoding e k ∨ e.isDirectory = false ∧ e.target = none ∧ k = .file []

variable {encoding : Text} {e : Entry} {index : Nat} {fs gs hs : FileSystem} {a : Address}
  {k : NodeKind} {p : Path} {out : Option Stop}

theorem Makes.not_symlink (h : Makes encoding e k) (he : e.isSymlink = false) (target : Bytes) :
    k ≠ .symlink target := by
  rintro rfl
  cases h with
  | symlink _ ht =>
    rw [Entry.isSymlink, ht] at he
    simp at he

theorem Makes.eq_directory (h : Makes encoding e k) (he : e.isDirectory = true) : k = .directory := by
  cases h with
  | directory => rfl
  | symlink hd | empty hd | file hd =>
    rw [he] at hd
    simp at hd

/-- What has come of building an entry: its node, or at most the beginning of it. -/
structure Comes (encoding : Text) (e : Entry) (p : Path) (a : Address) (fs : FileSystem)
    (out : Option Stop) (gs : FileSystem) : Prop where
  begun : gs = fs ∨ ∃ k, Filled fs p.toText a k gs ∧ Begins encoding e k
  done : out = none → ∃ k, Filled fs p.toText a k gs ∧ Makes encoding e k

theorem Comes.of_makes (h : Filled fs p.toText a k gs) (hm : Makes encoding e k) :
    Comes encoding e p a fs out gs := ⟨.inr ⟨k, h, .inl hm⟩, fun _ => ⟨k, h, hm⟩⟩

section Steps

variable (hend : EndInName (systemNames p.toText))
  (hvac : ∀ b, fs.LeadsToVacancy p.toText b → b = a)

include hend hvac

/-- The first step either makes the node or is the last. -/
theorem first_comes {steps : List Step} {c : Call} (hk : FileSystem.kindMade? c = some k)
    (hp : c.path? = some p) (h : CarriedOut (⟨index, .ok c⟩ :: steps) fs out gs) :
    (out ≠ none ∧ gs = fs) ∨ ∃ hs, Filled fs p.toText a k hs ∧ CarriedOut steps hs out gs := by
  rcases carriedOut_cons.1 h with ⟨hs, he, hrest⟩ | ⟨f, s, -, -, rfl, rfl⟩
  · obtain ⟨b, hf⟩ := FileSystem.effect_fills hk hp hend he
    obtain rfl := hvac b hf.vacancy
    exact .inr ⟨hs, hf, hrest⟩
  · exact .inl ⟨by simp, rfl⟩

omit hend hvac

theorem filled_of_mode (hf : Filled fs p.toText a k hs) (hk : ∀ target, k ≠ .symlink target)
    {mode : Option Int}
    (h : CarriedOut (mode.toList.map fun m => ⟨index, .ok (.setMode p m)⟩) hs out gs) :
    Filled fs p.toText a k gs := by
  cases mode with
  | none =>
    obtain ⟨-, rfl⟩ := carriedOut_nil.1 h
    exact hf
  | some mode =>
    rcases carriedOut_cons.1 h with ⟨ms, he, hrest⟩ | ⟨f, s, -, -, -, rfl⟩
    · obtain ⟨-, rfl⟩ := carriedOut_nil.1 hrest
      exact hf.setMode hk he
    · exact hf

theorem filled_of_owner (hf : Filled fs p.toText a k hs) (hm : Makes encoding e k)
    (h : CarriedOut (((Plan.ownerCalls e p).map Except.ok).map (Step.mk index)) hs out gs) :
    Filled fs p.toText a k gs := by
  unfold Plan.ownerCalls at h
  split at h
  · rcases carriedOut_cons.1 h with ⟨ms, he, hrest⟩ | ⟨f, s, -, -, -, rfl⟩
    · obtain ⟨-, rfl⟩ := carriedOut_nil.1 hrest
      exact hf.setOwner (fun hl => hm.not_symlink (by simpa using hl)) he
    · exact hf
  · obtain ⟨-, rfl⟩ := carriedOut_nil.1 h
    exact hf

theorem content_comes (hf : Filled fs p.toText a (.file []) hs) (hd : e.isDirectory = false)
    (ht : e.target = none)
    (h : CarriedOut (e.content.toList.map fun c =>
      ⟨index, (encodeContent encoding c).map (.write p)⟩) hs out gs) :
    Comes encoding e p a fs out gs := by
  cases hc : e.content with
  | none =>
    rw [hc] at h
    obtain ⟨-, rfl⟩ := carriedOut_nil.1 h
    exact .of_makes hf (.empty hd ht hc)
  | some content =>
    rw [hc, Option.toList_some, List.map_singleton] at h
    have hempty : ∃ k, Filled fs p.toText a k hs ∧ Begins encoding e k :=
      ⟨_, hf, .inr ⟨hd, ht, rfl⟩⟩
    cases hb : encodeContent encoding content with
    | error f =>
      rw [hb] at h
      obtain ⟨s, -, rfl, rfl⟩ := carriedOut_cons_error.1 h
      exact ⟨.inr hempty, nofun⟩
    | ok bytes =>
      rw [hb] at h
      rcases carriedOut_cons.1 h with ⟨ms, he, hrest⟩ | ⟨f, s, -, -, rfl, rfl⟩
      · obtain ⟨-, rfl⟩ := carriedOut_nil.1 hrest
        exact .of_makes (hf.write he) (.file hd ht hc hb)
      · exact ⟨.inr hempty, nofun⟩

include hend hvac

theorem file_comes (hd : e.isDirectory = false) (ht : e.target = none)
    (h : CarriedOut ((Plan.nodeSteps encoding e p).map (Step.mk index)) fs out gs) :
    Comes encoding e p a fs out gs := by
  have hsteps : (Plan.nodeSteps encoding e p).map (Step.mk index) =
      ⟨index, .ok (.createFile p)⟩ ::
        ((e.content.toList.map fun c => ⟨index, (encodeContent encoding c).map (.write p)⟩) ++
          e.mode.toList.map fun m => ⟨index, .ok (.setMode p m)⟩) := by
    simp [Plan.nodeSteps, hd, ht, Function.comp_def]
  rw [hsteps] at h
  rcases first_comes hend hvac rfl rfl h with ⟨hout, rfl⟩ | ⟨hs, hf, hrest⟩
  · exact ⟨.inl rfl, fun h => absurd h hout⟩
  · rcases carriedOut_append.1 hrest with ⟨s, rfl, hc⟩ | ⟨ms, hc, hmode⟩
    · exact ⟨(content_comes hf hd ht hc).begun, nofun⟩
    · obtain ⟨k, hf, hm⟩ := (content_comes hf hd ht hc).done rfl
      refine .of_makes (filled_of_mode hf (hm.not_symlink ?_) hmode) hm
      rw [Entry.isSymlink, ht]
      rfl

theorem node_comes (h : CarriedOut ((Plan.nodeSteps encoding e p).map (Step.mk index)) fs out gs) :
    Comes encoding e p a fs out gs := by
  cases hd : e.isDirectory with
  | true =>
    unfold Plan.nodeSteps at h
    rw [if_pos hd] at h
    rcases first_comes hend hvac rfl rfl h with ⟨hout, rfl⟩ | ⟨hs, hf, hrest⟩
    · exact ⟨.inl rfl, fun h => absurd h hout⟩
    · obtain ⟨-, rfl⟩ := carriedOut_nil.1 hrest
      exact .of_makes hf (.directory hd)
  | false =>
    cases ht : e.target with
    | none => exact file_comes hend hvac hd ht h
    | some target =>
      unfold Plan.nodeSteps at h
      rw [if_neg (by simp [hd]), ht] at h
      rcases first_comes hend hvac rfl rfl h with ⟨hout, rfl⟩ | ⟨hs, hf, hrest⟩
      · exact ⟨.inl rfl, fun h => absurd h hout⟩
      · obtain ⟨-, rfl⟩ := carriedOut_nil.1 hrest
        exact .of_makes hf (.symlink hd ht)

end Steps

theorem entry_comes {root : Path} {earlier : List Entry}
    (hend : EndInName (systemNames (Plan.path root earlier e).toText))
    (hvac : ∀ b, fs.LeadsToVacancy (Plan.path root earlier e).toText b → b = a)
    (h : CarriedOut (Plan.entrySteps root encoding earlier e) fs out gs) :
    Comes encoding e (Plan.path root earlier e) a fs out gs := by
  rw [entrySteps_eq] at h
  rcases carriedOut_append.1 h with ⟨s, rfl, hv⟩ | ⟨hs, hv, hrest⟩
  · obtain rfl := carriedOut_visits hv
    exact ⟨.inl rfl, nofun⟩
  · obtain rfl := carriedOut_visits hv
    rcases carriedOut_append.1 hrest with ⟨s, rfl, hnode⟩ | ⟨ms, hnode, howner⟩
    · exact ⟨(node_comes hend hvac hnode).begun, nofun⟩
    · obtain ⟨k, hf, hm⟩ := (node_comes hend hvac hnode).done rfl
      exact .of_makes (filled_of_owner hf hm howner) hm

end Build

end TreePlan
