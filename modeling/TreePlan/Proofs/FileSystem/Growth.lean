import TreePlan.Host
import TreePlan.Proofs.Build.Step
import TreePlan.Proofs.FileSystem.Below

/-! What the calls of a run do to a file system. Three of them make a node where there is none; the
others that change anything change the node that a path leads to, and none of these its kind but for a
write to a file. A call that fails changes nothing. -/

namespace TreePlan

open Utf8 (encodeName)

namespace FileSystem

variable {fs gs hs : FileSystem} {a : Address} {n m : Node} {path : Text} {p : Path}

/-- There is one node more, and all else is as it was. -/
structure Grows (fs : FileSystem) (a : Address) (n : Node) (gs : FileSystem) : Prop where
  vacant : fs.node? a = none
  node?_eq : ∀ b, gs.node? b = if b = a then some n else fs.node? b
  workingDirectory : gs.workingDirectory = fs.workingDirectory

theorem Grows.extends (h : Grows fs a n gs) : Extends fs gs := by
  refine ⟨fun b m hb => ?_, h.workingDirectory⟩
  rw [h.node?_eq, if_neg, hb]
  rintro rfl
  rw [h.vacant] at hb
  simp at hb

theorem Grows.node?_self (h : Grows fs a n gs) : gs.node? a = some n := by
  rw [h.node?_eq, if_pos rfl]

theorem grows_put (h : fs.node? a = none) (n : Node) : Grows fs a n (fs.put a n) :=
  ⟨h, fun b => node?_put fs a b n, workingDirectory_put fs a n⟩

/-- What is done to the new node leaves one node more. -/
theorem Grows.put (h : Grows fs a n gs) (m : Node) : Grows fs a m (gs.put a m) := by
  refine ⟨h.vacant, fun b => ?_, (workingDirectory_put gs a m).trans h.workingDirectory⟩
  rw [node?_put]
  split
  · rfl
  · next hb => rw [h.node?_eq, if_neg hb]

/-- A path leads to where there is no node, though there is a directory to hold one. -/
def LeadsToVacancy (fs : FileSystem) (path : Text) (a : Address) : Prop :=
  ∃ d x, fs.locate .kept path = .ok (.vacant d x) ∧ d ++ [x] = a

theorem addTo_eq_ok {dir : Address} {name : Name} {make : Node → Node}
    (h : fs.addTo dir name make = .ok gs) : ∃ parent, gs = fs.put (dir ++ [name]) (make parent) := by
  unfold addTo at h
  split at h
  · simp at h
  · next parent _ =>
    split at h
    · exact ⟨parent, (Except.ok.inj h).symm⟩
    · simp at h

theorem add_eq_ok {make : Node → Node} (h : fs.add path make = .ok gs) :
    ∃ a parent, fs.LeadsToVacancy path a ∧ Grows fs a (make parent) gs := by
  unfold add at h
  obtain ⟨spot, hl, h⟩ := bind_eq_ok_iff.1 h
  cases spot with
  | found => cases h
  | vacant d x =>
    obtain ⟨parent, rfl⟩ := addTo_eq_ok h
    exact ⟨d ++ [x], parent, ⟨d, x, hl, rfl⟩, grows_put (node?_of_locate_vacant hl) _⟩

theorem makeDirectory_eq_ok {mode : Option Int} (h : fs.makeDirectory path mode = .ok gs) :
    ∃ a n, fs.LeadsToVacancy path a ∧ Grows fs a n gs ∧ n.kind = .directory := by
  unfold makeDirectory at h
  obtain ⟨_, -, h⟩ := bind_eq_ok_iff.1 h
  obtain ⟨mode, -, h⟩ := bind_eq_ok_iff.1 h
  obtain ⟨a, parent, hv, hg⟩ := add_eq_ok h
  exact ⟨a, _, hv, hg, rfl⟩

theorem createFile_eq_ok (h : fs.createFile path = .ok gs) :
    ∃ a n, fs.LeadsToVacancy path a ∧ Grows fs a n gs ∧ n.kind = .file [] := by
  obtain ⟨a, parent, hv, hg⟩ := add_eq_ok h
  exact ⟨a, _, hv, hg, rfl⟩

theorem link_eq_ok {target : Text} (h : fs.link target path = .ok gs) :
    ∃ a n, fs.LeadsToVacancy path a ∧ Grows fs a n gs ∧ n.kind = .symlink (encodeName target) := by
  unfold link at h
  obtain ⟨b, hb, h⟩ := bind_eq_ok_iff.1 h
  obtain ⟨_, -, h⟩ := bind_eq_ok_iff.1 h
  dsimp only at h
  split at h
  · cases h
  · split at h
    · cases h
    · obtain ⟨a, parent, hv, hg⟩ := add_eq_ok h
      obtain ⟨-, -, rfl⟩ := systemBytes_eq_ok_iff.1 hb
      exact ⟨a, _, hv, hg, rfl⟩

theorem overwrite_eq_ok {content : Bytes} (h : fs.overwrite path content = .ok gs) :
    ∃ a n m, fs.find .followed path = .ok (a, n) ∧
      written content (fun old => content ++ old.drop content.length) n = some m ∧ gs = fs.put a m := by
  unfold overwrite at h
  obtain ⟨⟨a, n⟩, hf, h⟩ := bind_eq_ok_iff.1 h
  dsimp only at h
  split at h
  · simp at h
  · next m hm => exact ⟨a, n, m, hf, hm, (Except.ok.inj h).symm⟩

theorem written_kind {content : Bytes} {change : Bytes → Bytes} {old : Bytes} (hn : n.kind = .file old)
    (h : written content change n = some m) (hc : content = [] → change old = old) :
    m.kind = .file (change old) := by
  unfold written at h
  rw [hn] at h
  dsimp only at h
  split at h
  · next he =>
    cases h
    rw [hn, hc (List.isEmpty_iff.1 he)]
  · cases h
    rfl

theorem setMode_eq_ok {mode : Int} (h : fs.setMode path mode = .ok gs) :
    ∃ a n m, fs.find .followed path = .ok (a, n) ∧ m.kind = n.kind ∧ gs = fs.put a m := by
  unfold setMode at h
  obtain ⟨_, -, h⟩ := bind_eq_ok_iff.1 h
  obtain ⟨mode, -, h⟩ := bind_eq_ok_iff.1 h
  obtain ⟨⟨a, n⟩, hf, h⟩ := bind_eq_ok_iff.1 h
  dsimp only at h
  split at h
  · cases h
  · exact ⟨a, n, { n with mode }, hf, rfl, (Except.ok.inj h).symm⟩

theorem setOwner_eq_ok {owner group : Option Text} {follow : Bool}
    (h : fs.setOwner path owner group follow = .ok gs) :
    ∃ a n m, fs.find (if follow then .followed else .kept) path = .ok (a, n) ∧ m.kind = n.kind ∧
      gs = fs.put a m := by
  unfold setOwner setOwnerIn at h
  obtain ⟨_, -, h⟩ := bind_eq_ok_iff.1 h
  obtain ⟨_, -, h⟩ := bind_eq_ok_iff.1 h
  obtain ⟨_, -, h⟩ := bind_eq_ok_iff.1 h
  obtain ⟨owner, -, h⟩ := bind_eq_ok_iff.1 h
  obtain ⟨group, -, h⟩ := bind_eq_ok_iff.1 h
  obtain ⟨⟨a, n⟩, hf, h⟩ := bind_eq_ok_iff.1 h
  dsimp only at h
  split at h
  · cases h
  · exact ⟨a, n, _, hf, by rfl, (Except.ok.inj h).symm⟩

theorem visit_eq_ok (h : fs.visit path = .ok gs) : gs = fs := by
  unfold visit at h
  obtain ⟨_, -, h⟩ := bind_eq_ok_iff.1 h
  dsimp only at h
  split at h
  · obtain ⟨_, -, h⟩ := bind_eq_ok_iff.1 h
    split at h
    · exact (Except.ok.inj h).symm
    · cases h
  · cases h

/-- What a call does to a file system. -/
def effect : Call → FileSystem → Except Failure FileSystem
  | .visit path, fs => fs.visit path.toText
  | .makeDirectory path mode, fs => fs.makeDirectory path.toText mode
  | .createFile path, fs => fs.createFile path.toText
  | .write path content, fs => fs.overwrite path.toText content
  | .setMode path mode, fs => fs.setMode path.toText mode
  | .link target path, fs => fs.link target path.toText
  | .setOwner path owner group follow, fs => fs.setOwner path.toText owner group follow
  | .close _, fs | .observe _, fs => .ok fs

theorem answer_eq (c : Call) : answer c = change (effect c) := by
  cases c <;> rfl

variable {c : Call}

theorem answer_eq_ok_iff : answer c fs = (.ok (), gs) ↔ effect c fs = .ok gs := by
  rw [answer_eq, change]
  refine ⟨?_, ?_⟩
  · intro h
    split at h
    · next hs he =>
      cases h
      exact he
    · cases h
  · intro h
    rw [h]

theorem answer_eq_error_iff {f : Failure} :
    answer c fs = (.error f, gs) ↔ effect c fs = .error f ∧ gs = fs := by
  rw [answer_eq, change]
  refine ⟨?_, ?_⟩
  · intro h
    split at h
    · cases h
    · next he =>
      cases h
      exact ⟨he, rfl⟩
  · intro h
    obtain ⟨h, rfl⟩ := h
    rw [h]

/-- Closing a file and telling an observer succeed and do nothing. -/
theorem answer_of_not_primitive (hc : c.isPrimitive = false) {answer : Answer}
    (h : FileSystem.answer c fs = (answer, gs)) : answer = .ok () ∧ gs = fs := by
  cases c with
  | close | observe =>
    cases h
    exact ⟨rfl, rfl⟩
  | _ => cases hc

/-- A call that makes a node makes it of this kind, and empty. -/
def kindMade? : Call → Option NodeKind
  | .makeDirectory _ _ => some .directory
  | .createFile _ => some (.file [])
  | .link target _ => some (.symlink (encodeName target))
  | _ => none

/-- A node of a kind has come to where a path led to a vacancy. -/
structure Filled (fs : FileSystem) (path : Text) (a : Address) (k : NodeKind) (gs : FileSystem) :
    Prop where
  vacancy : fs.LeadsToVacancy path a
  ends : EndInName (systemNames path)
  grows : ∃ n, Grows fs a n gs ∧ n.kind = k

theorem effect_fills {k : NodeKind} (hk : kindMade? c = some k) (hp : c.path? = some p)
    (hend : EndInName (systemNames p.toText)) (h : effect c fs = .ok gs) :
    ∃ a, Filled fs p.toText a k gs := by
  cases c with
  | makeDirectory =>
    cases hk
    cases hp
    obtain ⟨a, n, hv, hg⟩ := makeDirectory_eq_ok h
    exact ⟨a, hv, hend, n, hg⟩
  | createFile =>
    cases hk
    cases hp
    obtain ⟨a, n, hv, hg⟩ := createFile_eq_ok h
    exact ⟨a, hv, hend, n, hg⟩
  | link =>
    cases hk
    cases hp
    obtain ⟨a, n, hv, hg⟩ := link_eq_ok h
    exact ⟨a, hv, hend, n, hg⟩
  | _ => cases hk

variable {k : NodeKind}

/-- The path now leads to the new node, as long as it is no symlink that is followed. -/
theorem Filled.find (h : Filled fs path a k gs) (ending : Ending)
    (he : ending = .kept ∨ ending = .followed ∧ ∀ target, k ≠ .symlink target) :
    ∃ n, Grows fs a n gs ∧ n.kind = k ∧ gs.find ending path = .ok (a, n) := by
  obtain ⟨⟨d, x, hl, rfl⟩, hend, n, hg, rfl⟩ := h
  refine ⟨n, hg, rfl, find_of_locate_vacant hl hg.extends hg.node?_self hend ?_⟩
  refine he.imp_right fun he => ⟨he.1, ?_⟩
  unfold Node.target?
  split
  · next target ht => exact absurd ht (he.2 target)
  · rfl

theorem Filled.put (h : Filled fs path a k gs) (m : Node) : Filled fs path a m.kind (gs.put a m) := by
  obtain ⟨hv, hend, n, hg, -⟩ := h
  exact ⟨hv, hend, m, hg.put m, rfl⟩

theorem Filled.write {content : Bytes} (h : Filled fs p.toText a (.file []) gs)
    (he : effect (.write p content) gs = .ok hs) : Filled fs p.toText a (.file content) hs := by
  obtain ⟨b, n', m, hf, hm, rfl⟩ := overwrite_eq_ok he
  obtain ⟨n, -, hn, hfind⟩ := h.find .followed (.inr ⟨rfl, fun _ => nofun⟩)
  rw [hfind] at hf
  cases hf
  have hkind := written_kind hn hm fun hc => by rw [hc]; rfl
  rw [List.drop_nil, List.append_nil] at hkind
  exact hkind ▸ h.put m

theorem Filled.setMode {mode : Int} (h : Filled fs p.toText a k gs) (hk : ∀ target, k ≠ .symlink target)
    (he : effect (.setMode p mode) gs = .ok hs) : Filled fs p.toText a k hs := by
  obtain ⟨b, n', m, hf, hm, rfl⟩ := setMode_eq_ok he
  obtain ⟨n, -, hn, hfind⟩ := h.find .followed (.inr ⟨rfl, hk⟩)
  rw [hfind] at hf
  cases hf
  exact hn ▸ hm ▸ h.put m

theorem Filled.setOwner {owner group : Option Text} {follow : Bool} (h : Filled fs p.toText a k gs)
    (hk : follow = true → ∀ target, k ≠ .symlink target)
    (he : effect (.setOwner p owner group follow) gs = .ok hs) : Filled fs p.toText a k hs := by
  obtain ⟨b, n', m, hf, hm, rfl⟩ := setOwner_eq_ok he
  obtain ⟨n, -, hn, hfind⟩ := h.find (if follow then .followed else .kept) (by
    cases follow with
    | false => exact .inl rfl
    | true => exact .inr ⟨rfl, hk rfl⟩)
  rw [hfind] at hf
  cases hf
  exact hn ▸ hm ▸ h.put m

end FileSystem

end TreePlan
