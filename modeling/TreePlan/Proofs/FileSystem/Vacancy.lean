import TreePlan.Proofs.FileSystem.Growth

/-! Vacancies, and what calls do there. Names lead to a vacancy below a directory through directories that may be
searched. The first call to it makes a node, in view of nothing but the directory that is to hold it, and each
call after that goes to the node alone. -/

namespace TreePlan

open Utf8 (encodeName)

namespace Account

/-- The number that a token asks for, if it asks for a change. -/
def requested (kind : AccountKind) (token : Option Text) : Except Failure (Option Nat) :=
  resolve kind token >>= checked kind

end Account

namespace FileSystem

variable {fs gs : FileSystem} {ending : Ending} {links : Nat} {dir base a d : Address} {x y : Name}
  {xs : List Name} {n m parent : Node} {path : Text} {root p : Path} {names : List Text} {c : Call}

/-! Leading to a vacancy. -/

theorem Searchable.target?_eq (h : Searchable fs dir) : ∃ n, fs.node? dir = some n ∧ n.target? = none := by
  obtain ⟨n, hn, hd, -⟩ := h
  have hkind : n.kind = .directory := by simpa [Node.isDirectory] using hd
  exact ⟨n, hn, by rw [Node.target?, hkind]⟩

theorem leads_vacant (hp : ∀ m ∈ xs ++ [x], Proper m)
    (hs : ∀ k ≤ xs.length, Searchable fs (dir ++ xs.take k))
    (hlen : ∀ m ∈ xs ++ [x], m.length ≤ maxName) (hv : fs.node? (dir ++ xs ++ [x]) = none) :
    Leads fs .kept links dir (xs ++ [x]) (.vacant (dir ++ xs) x) := by
  induction xs generalizing dir with
  | nil =>
    have hfits : Fits .kept x [] := ⟨hp x (by simp), hlen x (by simp), nofun⟩
    simpa using Leads.vacant (by simpa using hs 0 (by simp)) hfits (by simpa using hv) rfl
  | cons m xs ih =>
    obtain ⟨n, hn, ht⟩ := (hs 1 (by simp)).target?_eq
    have hfits : Fits .kept m (xs ++ [x]) := ⟨hp m (by simp), hlen m (by simp), nofun⟩
    have hnext : Leads fs .kept links (dir ++ [m]) (xs ++ [x]) (.vacant (dir ++ [m] ++ xs) x) := by
      refine ih (fun y hy => hp y (List.mem_cons_of_mem _ hy)) (fun k hk => ?_)
        (fun y hy => hlen y (List.mem_cons_of_mem _ hy)) (by simpa using hv)
      simpa using hs (k + 1) (by simpa using hk)
    rw [List.cons_append, List.append_cons dir m xs]
    exact .into (by simpa using hs 0 (by simp)) hfits (by simpa using hn) ht hnext

/-- Names below a directory can be walked up to the last. -/
structure Reached (fs : FileSystem) (root : Path) (base : Address) (names : List Text) : Prop where
  speakable : Speakable (root.below names).toText
  searchable : ∀ k < names.length, Searchable fs (base ++ (names.take k).map encodeName)
  fits : ∀ n ∈ names, (encodeName n).length ≤ maxName

theorem Reached.extend (h : Reached fs root base names) (hx : Extends fs gs) : Reached gs root base names :=
  ⟨h.speakable, fun k hk => hx.searchable (h.searchable k hk), h.fits⟩

/-- A walk over names below a directory is one from there. -/
theorem LeadsToDirectory.walk_below (h : fs.LeadsToDirectory root base) (hne : names ≠ [])
    (hall : ∀ n ∈ names, IsName n) : ∃ left, fs.walk .kept maxLinks
      (fs.origin (encodeName (root.below names).toText)) (systemNames (root.below names).toText) =
        fs.walk .kept left base (names.map encodeName) := by
  obtain ⟨start, lead, n, hlead, hbelow⟩ := h.hasLead
  obtain ⟨horigin, hnames⟩ := hbelow names hne hall
  rw [horigin, hnames]
  exact hlead.onward (by simpa using hne) .kept nofun

theorem LeadsToDirectory.reached {z : Text} (h : fs.LeadsToDirectory root base)
    (hall : ∀ n ∈ names ++ [z], IsName n)
    (hdirs : ∀ k < names.length, ∃ m,
      fs.node? (base ++ (names.take (k + 1)).map encodeName) = some m ∧ m.target? = none)
    (hl : fs.LeadsToVacancy (root.below (names ++ [z])).toText a) : Reached fs root base (names ++ [z]) := by
  obtain ⟨d, y, hl, -⟩ := hl
  obtain ⟨hspeak, hleads⟩ := locate_eq_ok_iff.1 hl
  obtain ⟨left, hwalk⟩ := h.walk_below (by simp) hall
  rw [← walk_eq_ok_iff, hwalk, walk_eq_ok_iff, List.map_append, List.map_singleton] at hleads
  have hproper : ∀ m ∈ names.map encodeName ++ [encodeName z], Proper m := by
    rw [← List.map_singleton, ← List.map_append]
    exact List.forall_mem_map.2 fun t ht => (hall t ht).proper
  obtain ⟨-, hsearch, hlen⟩ := hleads.down hproper fun k hk => by
    rw [← List.map_take]
    exact hdirs k (by simpa using hk)
  refine ⟨hspeak, fun k hk => ?_, ?_⟩
  · have hk : k ≤ names.length := by simpa [Nat.lt_succ_iff] using hk
    rw [List.take_append_of_le_length hk, List.map_take]
    exact hsearch k (by simpa using hk)
  · rw [← List.map_singleton, ← List.map_append] at hlen
    exact List.forall_mem_map.1 hlen

theorem Reached.leadsToVacancy (h : Reached fs root base names) (hbase : fs.LeadsToDirectory root base)
    (hne : names ≠ []) (hall : ∀ n ∈ names, IsName n) (hv : fs.node? (base ++ names.map encodeName) = none) :
    fs.LeadsToVacancy (root.below names).toText (base ++ names.map encodeName) := by
  obtain ⟨left, hwalk⟩ := hbase.walk_below hne hall
  obtain ⟨init, z, rfl⟩ := (List.eq_nil_or_concat names).resolve_left hne
  rw [List.concat_eq_append] at *
  refine ⟨base ++ init.map encodeName, encodeName z, ?_, by simp⟩
  rw [locate_eq_ok_iff, ← walk_eq_ok_iff, hwalk, walk_eq_ok_iff, List.map_append, List.map_singleton]
  refine ⟨h.speakable, leads_vacant ?_ (fun k hk => ?_) ?_ (by simpa using hv)⟩
  · rw [← List.map_singleton, ← List.map_append]
    exact List.forall_mem_map.2 fun t ht => (hall t ht).proper
  · have hk : k ≤ init.length := by simpa using hk
    have hsearch := h.searchable k (by simpa [Nat.lt_succ_iff] using hk)
    rwa [List.take_append_of_le_length hk, List.map_take] at hsearch
  · rw [← List.map_singleton, ← List.map_append]
    exact List.forall_mem_map.2 h.fits

/-- What is found and is no symlink is found by those who follow links too. -/
theorem Leads.followed_of_kept {names : List Name} (h : Leads fs .kept links dir names (.found a n))
    (ht : n.target? = none) : Leads fs .followed links dir names (.found a n) := by
  have hmade : Ending.followed ≠ .made := nofun
  generalize hspot : Spot.found a n = spot at h
  induction h with
  | arrive hn =>
    cases hspot
    exact .arrive hn
  | blank hn hd _ ih => exact .blank hn hd (ih hspot)
  | here hs he hh _ ih => exact .here hs he hh (ih hspot)
  | up hs he hh hu _ ih => exact .up hs he hh hu (ih hspot)
  | into hs hf hn hm _ ih => exact .into hs (hf.of_kept hmade) hn hm (ih hspot)
  | vacant => cases hspot
  | kept _ _ _ _ ht' =>
    cases hspot
    simp [ht] at ht'
  | link hs hf hn hm _ hne _ ih => exact .link hs (hf.of_kept hmade) hn hm nofun hne (ih hspot)

/-- A directory that is found can be visited. -/
theorem visit_of_find (h : fs.find .followed path = .ok (a, n)) (hd : n.isDirectory = true) :
    fs.visit path = .ok fs := by
  have hlook : fs.look? path = .ok (some n) := by rw [look?, h]
  rw [visit, «exists», isDirectory, hlook]
  simp [Except.map, hd]
  rfl

/-! Calls to a vacancy and to the node that is put there. -/

/-- The node that a call makes in a directory. -/
inductive NewNode (parent : Node) : Call → Node → Prop where
  | directory {p : Path} {mode : Option Int} {bits : Nat} : checkMode (mode.getD 0o777) = .ok bits →
      NewNode parent (.makeDirectory p mode)
        ⟨.directory, newDirectoryMode parent bits, Node.user, groupWithin parent⟩
  | file {p : Path} : NewNode parent (.createFile p) (newFile [] parent)
  | link {target : Text} {p : Path} {b : Bytes} : systemBytes target = .ok b → b ≠ [] →
      b.length ≤ Path.maxBytes →
      NewNode parent (.link target p) ⟨.symlink b, 0o777, Node.user, groupWithin parent⟩

/-- What a call makes of a node that its path leads to. -/
inductive Changes : Call → Node → Node → Prop where
  | write {p : Path} {content : Bytes} {n m : Node} :
      written content (fun old => content ++ old.drop content.length) n = some m →
      Changes (.write p content) n m
  | setMode {p : Path} {mode : Int} {bits : Nat} {n : Node} : checkMode mode = .ok bits → n.isOwn = true →
      Changes (.setMode p mode) n { n with mode := bits }
  | setOwner {p : Path} {owner group : Option Text} {follow : Bool} {o g : Option Nat} {n : Node} :
      Account.requested .user owner = .ok o → Account.requested .group group = .ok g →
      mayGive n o g = true →
      Changes (.setOwner p owner group follow) n
        { n with
          mode := if n.isDirectory then n.mode else modeOnceTouched n.mode
          owner := o.getD n.owner
          group := g.getD n.group }

/-- Whether a call changes what its path leads to, and how it gets there. -/
def changing? : Call → Option Ending
  | .write _ _ | .setMode _ _ => some .followed
  | .setOwner _ _ _ follow => some (if follow then .followed else .kept)
  | _ => none

theorem Changes.target?_eq (h : Changes c n m) : m.target? = n.target? := by
  cases h with
  | write hw =>
    unfold written at hw
    split at hw
    · next old hk =>
      split at hw
      · cases hw
        rfl
      · cases hw
        simp [Node.target?, hk]
    · cases hw
  | setMode => rfl
  | setOwner => rfl

theorem Speakable.systemBytes_eq (h : Speakable path) : systemBytes path = .ok (encodeName path) :=
  systemBytes_eq_ok_iff.2 ⟨h.faultless, h.no_null, rfl⟩

theorem LeadsToVacancy.speakable (h : fs.LeadsToVacancy path a) : Speakable path := by
  obtain ⟨d, x, hl, -⟩ := h
  exact (locate_eq_ok_iff.1 hl).1

/-- To add a node is to put it into a directory that may be written to. -/
theorem add_eq_ok_iff {make : Node → Node} (h : fs.LeadsToVacancy path a) :
    fs.add path make = .ok gs ↔ ∃ parent, fs.node? a.dropLast = some parent ∧
      parent.grants .write = true ∧ gs = fs.put a (make parent) := by
  obtain ⟨d, x, hl, rfl⟩ := h
  unfold add
  rw [hl, List.dropLast_concat]
  show fs.addTo d x make = .ok gs ↔ _
  unfold addTo
  cases hd : fs.node? d with
  | none => simp
  | some parent =>
    dsimp only
    by_cases hw : parent.grants .write = true
    · rw [if_pos hw]
      refine ⟨fun he => ⟨parent, rfl, hw, (Except.ok.inj he).symm⟩, ?_⟩
      rintro ⟨_, ⟨⟩, -, rfl⟩
      rfl
    · rw [if_neg hw]
      refine iff_of_false nofun ?_
      rintro ⟨_, ⟨⟩, hw', -⟩
      exact hw hw'

theorem makeDirectory_eq_ok_iff {mode : Option Int} (h : fs.LeadsToVacancy p.toText a) :
    fs.makeDirectory p.toText mode = .ok gs ↔ ∃ parent n, fs.node? a.dropLast = some parent ∧
      parent.grants .write = true ∧ NewNode parent (.makeDirectory p mode) n ∧ gs = fs.put a n := by
  refine ⟨?_, ?_⟩
  · intro he
    obtain ⟨_, -, he⟩ := bind_eq_ok_iff.1 he
    obtain ⟨bits, hbits, he⟩ := bind_eq_ok_iff.1 he
    obtain ⟨parent, hparent, hw, rfl⟩ := (add_eq_ok_iff h).1 he
    exact ⟨parent, _, hparent, hw, .directory hbits, rfl⟩
  · rintro ⟨parent, n, hparent, hw, hn, rfl⟩
    cases hn with
    | directory hbits =>
      refine bind_eq_ok_iff.2 ⟨_, h.speakable.systemBytes_eq, bind_eq_ok_iff.2 ⟨_, hbits, ?_⟩⟩
      exact (add_eq_ok_iff h).2 ⟨parent, hparent, hw, rfl⟩

theorem createFile_eq_ok_iff (h : fs.LeadsToVacancy p.toText a) :
    fs.createFile p.toText = .ok gs ↔ ∃ parent n, fs.node? a.dropLast = some parent ∧
      parent.grants .write = true ∧ NewNode parent (.createFile p) n ∧ gs = fs.put a n := by
  refine (add_eq_ok_iff h).trans ⟨?_, ?_⟩
  · rintro ⟨parent, hparent, hw, rfl⟩
    exact ⟨parent, _, hparent, hw, .file, rfl⟩
  · rintro ⟨parent, n, hparent, hw, hn, rfl⟩
    cases hn with
    | file => exact ⟨parent, hparent, hw, rfl⟩

theorem link_eq_ok_iff {target : Text} (h : fs.LeadsToVacancy p.toText a) :
    fs.link target p.toText = .ok gs ↔ ∃ parent n, fs.node? a.dropLast = some parent ∧
      parent.grants .write = true ∧ NewNode parent (.link target p) n ∧ gs = fs.put a n := by
  refine ⟨?_, ?_⟩
  · intro he
    obtain ⟨b, hb, he⟩ := bind_eq_ok_iff.1 he
    obtain ⟨_, -, he⟩ := bind_eq_ok_iff.1 he
    dsimp only at he
    split at he
    · cases he
    · next hne =>
      split at he
      · cases he
      · next hle =>
        obtain ⟨parent, hparent, hw, rfl⟩ := (add_eq_ok_iff h).1 he
        exact ⟨parent, _, hparent, hw, .link hb (by simpa using hne) (by omega), rfl⟩
  · rintro ⟨parent, n, hparent, hw, hn, rfl⟩
    cases hn with
    | link hb hne hle =>
      refine bind_eq_ok_iff.2 ⟨_, hb, bind_eq_ok_iff.2 ⟨_, h.speakable.systemBytes_eq, ?_⟩⟩
      dsimp only
      rw [if_neg (by simpa using hne), if_neg (by omega)]
      exact (add_eq_ok_iff h).2 ⟨parent, hparent, hw, rfl⟩

/-- A call to a vacancy makes a node there, in view of the directory that holds it. -/
theorem effect_eq_ok_iff_newNode {k : NodeKind} (hk : kindMade? c = some k) (hp : c.path? = some p)
    (h : fs.LeadsToVacancy p.toText a) :
    effect c fs = .ok gs ↔ ∃ parent n, fs.node? a.dropLast = some parent ∧ parent.grants .write = true ∧
      NewNode parent c n ∧ gs = fs.put a n := by
  cases c with
  | makeDirectory =>
    cases hp
    exact makeDirectory_eq_ok_iff h
  | createFile =>
    cases hp
    exact createFile_eq_ok_iff h
  | link =>
    cases hp
    exact link_eq_ok_iff h
  | _ => cases hk

theorem overwrite_eq_ok_iff {content : Bytes} (h : fs.find .followed p.toText = .ok (a, n)) :
    fs.overwrite p.toText content = .ok gs ↔ ∃ m, Changes (.write p content) n m ∧ gs = fs.put a m := by
  refine ⟨?_, ?_⟩
  · intro he
    obtain ⟨b, n', m, hf, hm, rfl⟩ := overwrite_eq_ok he
    rw [h] at hf
    cases hf
    exact ⟨m, .write hm, rfl⟩
  · rintro ⟨m, hm, rfl⟩
    cases hm with
    | write hm =>
      refine bind_eq_ok_iff.2 ⟨_, h, ?_⟩
      dsimp only
      rw [hm]
      rfl

theorem systemBytes_of_find (h : fs.find ending path = .ok (a, n)) : systemBytes path = .ok (encodeName path) :=
  (locate_eq_ok_iff.1 (find_eq_ok_iff.1 h)).1.systemBytes_eq

theorem setMode_eq_ok_iff {mode : Int} (h : fs.find .followed p.toText = .ok (a, n)) :
    fs.setMode p.toText mode = .ok gs ↔ ∃ m, Changes (.setMode p mode) n m ∧ gs = fs.put a m := by
  refine ⟨?_, ?_⟩
  · intro he
    obtain ⟨_, -, he⟩ := bind_eq_ok_iff.1 he
    obtain ⟨bits, hbits, he⟩ := bind_eq_ok_iff.1 he
    obtain ⟨⟨b, n'⟩, hf, he⟩ := bind_eq_ok_iff.1 he
    rw [h] at hf
    cases hf
    dsimp only at he
    split at he
    · cases he
    · next hown =>
      cases he
      exact ⟨_, .setMode hbits (by simpa using hown), rfl⟩
  · rintro ⟨m, hm, rfl⟩
    cases hm with
    | setMode hbits hown =>
      refine bind_eq_ok_iff.2 ⟨_, systemBytes_of_find h, bind_eq_ok_iff.2 ⟨_, hbits, ?_⟩⟩
      refine bind_eq_ok_iff.2 ⟨_, h, ?_⟩
      dsimp only
      rw [if_neg (by simp [hown])]
      rfl

theorem setOwner_eq_ok_iff {owner group : Option Text} {follow : Bool}
    (h : fs.find (if follow then .followed else .kept) p.toText = .ok (a, n)) :
    fs.setOwner p.toText owner group follow = .ok gs ↔
      ∃ m, Changes (.setOwner p owner group follow) n m ∧ gs = fs.put a m := by
  refine ⟨?_, ?_⟩
  · intro he
    obtain ⟨o, ho, he⟩ := bind_eq_ok_iff.1 he
    obtain ⟨g, hg, he⟩ := bind_eq_ok_iff.1 he
    obtain ⟨_, -, he⟩ := bind_eq_ok_iff.1 he
    obtain ⟨o', ho', he⟩ := bind_eq_ok_iff.1 he
    obtain ⟨g', hg', he⟩ := bind_eq_ok_iff.1 he
    obtain ⟨⟨b, n'⟩, hf, he⟩ := bind_eq_ok_iff.1 he
    rw [h] at hf
    cases hf
    dsimp only at he
    split at he
    · cases he
    · next hgive =>
      cases he
      exact ⟨_, .setOwner (bind_eq_ok_iff.2 ⟨o, ho, ho'⟩) (bind_eq_ok_iff.2 ⟨g, hg, hg'⟩)
        (by simpa using hgive), rfl⟩
  · rintro ⟨m, hm, rfl⟩
    cases hm with
    | setOwner ho hg hgive =>
      obtain ⟨o, ho, ho'⟩ := bind_eq_ok_iff.1 ho
      obtain ⟨g, hg, hg'⟩ := bind_eq_ok_iff.1 hg
      refine bind_eq_ok_iff.2 ⟨o, ho, bind_eq_ok_iff.2 ⟨g, hg, ?_⟩⟩
      refine bind_eq_ok_iff.2 ⟨_, systemBytes_of_find h, bind_eq_ok_iff.2 ⟨_, ho', ?_⟩⟩
      refine bind_eq_ok_iff.2 ⟨_, hg', bind_eq_ok_iff.2 ⟨_, h, ?_⟩⟩
      dsimp only
      rw [if_neg (by simp [hgive])]
      rfl

/-- A call to a node changes just that. -/
theorem effect_eq_ok_iff_changes (hc : changing? c = some ending) (hp : c.path? = some p)
    (h : fs.find ending p.toText = .ok (a, n)) :
    effect c fs = .ok gs ↔ ∃ m, Changes c n m ∧ gs = fs.put a m := by
  cases c with
  | write =>
    cases hp
    cases hc
    exact overwrite_eq_ok_iff h
  | setMode =>
    cases hp
    cases hc
    exact setMode_eq_ok_iff h
  | setOwner =>
    cases hp
    cases hc
    exact setOwner_eq_ok_iff h
  | _ => cases hc

/-- Of two nodes that are put at one address the last is there. -/
theorem put_put (fs : FileSystem) (a : Address) (n m : Node) : (fs.put a n).put a m = fs.put a m := by
  have hfound : ((fs.put a n).node? a).isSome = true := by simp [node?_put]
  conv_lhs => rw [put, if_pos hfound]
  unfold put
  split
  · rw [List.map_map]
    refine congrArg (FileSystem.mk · _) (List.map_congr_left fun p _ => ?_)
    by_cases hp : p.1 = a <;> simp [hp]
  · next hnone =>
    have hne : ∀ p ∈ fs.nodes, p.1 ≠ a := by
      rintro p hp rfl
      refine hnone ?_
      rw [node?, List.lookup_isSome_iff]
      exact ⟨p, hp, by simp⟩
    rw [List.map_append, List.map_singleton, if_pos rfl]
    refine congrArg (FileSystem.mk · _) (congrArg (· ++ [(a, m)]) ?_)
    refine (List.map_congr_left fun p hp => if_neg (hne p hp)).trans (List.map_id _)

end FileSystem

end TreePlan
