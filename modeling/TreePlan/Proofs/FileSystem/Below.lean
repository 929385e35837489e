import TreePlan.Proofs.FileSystem.Spelling
import TreePlan.Proofs.Text.Scanning

/-! What lies below a directory that a path leads to. The way to the directory may take links, but from
there on names lead down through directories that are known. -/

namespace TreePlan

open Utf8 (encodeName)

theorem systemNames_unlines_of_isName {names : List Text} (hne : names ≠ [])
    (h : ∀ n ∈ names, IsName n) : systemNames (Text.unlines "/" names) = names.map encodeName := by
  rw [systemNames_unlines hne]
  clear hne
  induction names with
  | nil => rfl
  | cons n names ih =>
    rw [List.flatMap_cons, (h n (by simp)).systemNames_eq, ih fun m hm => h m (by simp [hm])]
    rfl

namespace FileSystem

variable {fs gs : FileSystem} {ending : Ending} {links : Nat} {dir base a d : Address}
  {xs ys : List Name} {n : Node} {spot : Spot} {root : Path} {t : Text}

theorem isAbsolute_encodeName (t : Text) :
    isAbsolute (encodeName t) = true ↔ t.head? = some (CodePoint.ofChar '/') := by
  unfold isAbsolute
  rw [beq_iff_eq]
  cases t with
  | nil => simp [encodeName]
  | cons c t =>
    obtain ⟨b, bs, hb⟩ := List.exists_cons_of_ne_nil (Utf8.encodeNameChar_ne_nil c)
    rw [Utf8.encodeName_cons, hb, List.cons_append, List.head?_cons, List.head?_cons,
      Option.some_inj, Option.some_inj]
    refine ⟨?_, ?_⟩
    · rintro rfl
      exact Utf8.slash_mem_encodeNameChar (by rw [hb]; simp)
    · rintro rfl
      have hslash : Utf8.encodeNameChar (CodePoint.ofChar '/') = [slash] := by decide
      rw [hslash] at hb
      exact (List.cons.inj hb).1.symm

theorem origin_append (fs : FileSystem) (ht : t ≠ []) (u : Text) :
    fs.origin (encodeName (t ++ u)) = fs.origin (encodeName t) := by
  have hhead : (t ++ u).head? = t.head? := by
    obtain ⟨c, t, rfl⟩ := List.exists_cons_of_ne_nil ht
    rfl
  have h : isAbsolute (encodeName (t ++ u)) = isAbsolute (encodeName t) := by
    rw [Bool.eq_iff_iff, isAbsolute_encodeName, isAbsolute_encodeName, hhead]
  rw [origin, origin, h]

theorem origin_of_head (fs : FileSystem) (ht : t.head? = some (CodePoint.ofChar '/')) :
    fs.origin (encodeName t) = [] := if_pos ((isAbsolute_encodeName t).2 ht)

theorem origin_of_isName (fs : FileSystem) (ht : IsName t) (u : Text) :
    fs.origin (encodeName (t ++ u)) = fs.workingDirectory := by
  rw [origin_append fs ht.ne_nil, origin, if_neg]
  rw [isAbsolute_encodeName]
  exact fun h => ht.no_slash (List.mem_of_mem_head? h)

theorem leads_blank : Leads fs ending links dir ([] :: xs) spot ↔
    (∃ m, fs.node? dir = some m ∧ m.isDirectory = true) ∧ Leads fs ending links dir xs spot := by
  refine ⟨?_, ?_⟩
  · intro h
    cases h with
    | blank hn hd h => exact ⟨⟨_, hn, hd⟩, h⟩
    | here _ he => exact absurd rfl he
    | up _ he => exact absurd rfl he
    | into _ hf => exact absurd rfl hf.1.ne_nil
    | vacant _ hf => exact absurd rfl hf.1.ne_nil
    | kept _ _ hf => exact absurd rfl hf.1.ne_nil
    | link _ hf => exact absurd rfl hf.1.ne_nil
  · intro h
    obtain ⟨⟨m, hn, hd⟩, h⟩ := h
    exact .blank hn hd h

theorem leads_nil : Leads fs ending links dir [] (.found a n) ↔ a = dir ∧ fs.node? dir = some n := by
  refine ⟨?_, ?_⟩
  · intro h
    cases h with
    | arrive hn => exact ⟨rfl, hn⟩
  · intro h
    obtain ⟨rfl, hn⟩ := h
    exact .arrive hn

theorem leads_of_blanks (hxs : ∀ x ∈ xs, x = [])
    (h : Leads fs ending links dir (xs ++ [[]]) (.found a n)) :
    Leads fs ending links dir xs (.found a n) := by
  induction xs with
  | nil => exact (leads_blank.1 h).2
  | cons x xs ih =>
    obtain rfl : x = [] := hxs x (by simp)
    obtain ⟨hdir, h⟩ := leads_blank.1 h
    exact leads_blank.2 ⟨hdir, ih (fun y hy => hxs y (by simp [hy])) h⟩

/-- A longer walk comes by where a shorter one has ended. -/
theorem Leads.onward (h : Leads fs .followed links dir xs (.found a n)) (hys : ys ≠ [])
    (ending : Ending) (hm : ending ≠ .made) :
    ∃ left, fs.walk ending links dir (xs ++ ys) = fs.walk ending left a ys := by
  generalize hspot : Spot.found a n = spot at h
  induction h with
  | arrive =>
    cases hspot
    exact ⟨_, rfl⟩
  | blank hn hd _ ih =>
    obtain ⟨left, ih⟩ := ih hspot
    refine ⟨left, ?_⟩
    rw [List.cons_append, walk, hn]
    simpa [hd] using ih
  | here hs he hh _ ih =>
    obtain ⟨left, ih⟩ := ih hspot
    obtain ⟨m, hn, hd, hs⟩ := hs
    refine ⟨left, ?_⟩
    rw [List.cons_append, walk, hn]
    simpa [hd, hs, hh, he] using ih
  | up hs he hh hu _ ih =>
    obtain ⟨left, ih⟩ := ih hspot
    obtain ⟨m, hn, hd, hs⟩ := hs
    refine ⟨left, ?_⟩
    rw [List.cons_append, walk, hn]
    simpa [hd, hs, hh, hu, he] using ih
  | into hs hf ho ht _ ih =>
    obtain ⟨left, ih⟩ := ih hspot
    refine ⟨left, ?_⟩
    rw [List.cons_append, hs.walk_eq ⟨hf.1, hf.2.1, fun h => absurd h hm⟩, ho]
    dsimp only
    rw [ht]
    exact ih
  | vacant => cases hspot
  | kept hk => cases hk
  | link hs hf ho ht _ hne _ ih =>
    obtain ⟨left, ih⟩ := ih hspot
    refine ⟨left, ?_⟩
    rw [List.cons_append, hs.walk_eq ⟨hf.1, hf.2.1, fun h => absurd h hm⟩, ho]
    dsimp only
    rw [ht]
    dsimp only
    rw [if_neg (by simp [hys]), if_neg (by simpa using hne), ← List.append_assoc]
    exact ih

/-- Where a name is that of a node and of no symlink, there is one way on. -/
theorem Leads.of_cons {x : Name} (h : Leads fs .kept links dir (x :: xs) spot) (hx : Proper x)
    (hn : fs.node? (dir ++ [x]) = some n) (ht : n.target? = none) :
    Searchable fs dir ∧ x.length ≤ maxName ∧ Leads fs .kept links (dir ++ [x]) xs spot := by
  cases h with
  | blank => exact absurd rfl hx.ne_nil
  | here _ _ hh => exact absurd hh (by simp [hx.not_here])
  | up _ _ _ hu => exact absurd hu (by simp [hx.not_up])
  | into hs hf _ _ h => exact ⟨hs, hf.2.1, h⟩
  | vacant _ _ ho => exact absurd ho (by simp [hn])
  | kept _ _ _ ho ht' | link _ _ ho ht' =>
    obtain rfl := Option.some.inj (hn.symm.trans ho)
    simp [ht] at ht'

/-- A last name that leads to a vacancy is looked up in a directory that does not have it. -/
theorem Leads.of_singleton {x y : Name} (h : Leads fs .kept links dir [x] (.vacant d y)) (hx : Proper x) :
    Searchable fs dir ∧ x.length ≤ maxName ∧ d = dir ∧ y = x := by
  cases h with
  | blank => exact absurd rfl hx.ne_nil
  | here _ _ hh => exact absurd hh (by simp [hx.not_here])
  | up _ _ _ hu => exact absurd hu (by simp [hx.not_up])
  | into _ _ _ _ h => cases h
  | vacant hs hf => exact ⟨hs, hf.2.1, rfl, rfl⟩
  | link _ _ _ _ hk => exact absurd rfl (hk rfl)

/-- Names that lead down through directories to a vacancy are looked up in each of these, and lead nowhere else. -/
theorem Leads.down {x y : Name} (h : Leads fs .kept links dir (xs ++ [x]) (.vacant d y))
    (hp : ∀ m ∈ xs ++ [x], Proper m)
    (hdirs : ∀ k < xs.length, ∃ m, fs.node? (dir ++ xs.take (k + 1)) = some m ∧ m.target? = none) :
    (d = dir ++ xs ∧ y = x) ∧ (∀ k ≤ xs.length, Searchable fs (dir ++ xs.take k)) ∧
      ∀ m ∈ xs ++ [x], m.length ≤ maxName := by
  induction xs generalizing dir links with
  | nil =>
    obtain ⟨hs, hlen, rfl, rfl⟩ := h.of_singleton (hp x (by simp))
    simpa using ⟨hs, hlen⟩
  | cons m xs ih =>
    obtain ⟨node, hnode, ht⟩ := hdirs 0 (by simp)
    obtain ⟨hs, hlen, h⟩ := Leads.of_cons h (hp m (by simp)) (by simpa using hnode) ht
    obtain ⟨⟨rfl, rfl⟩, hall, hlens⟩ := ih h (fun y hy => hp y (List.mem_cons_of_mem _ hy)) fun k hk => by
      simpa using hdirs (k + 1) (by simpa using hk)
    refine ⟨by simp, fun k hk => ?_, ?_⟩
    · cases k with
      | zero => simpa using hs
      | succ k => simpa using hall k (by simpa using hk)
    · rw [List.cons_append]
      exact List.forall_mem_cons.2 ⟨hlen, hlens⟩

/-- A path leads to a directory, links followed. -/
def LeadsToDirectory (fs : FileSystem) (root : Path) (base : Address) : Prop :=
  ∃ n, fs.find .followed root.toText = .ok (base, n) ∧ n.isDirectory = true

theorem LeadsToDirectory.extend (h : fs.LeadsToDirectory root base) (hx : Extends fs gs) :
    gs.LeadsToDirectory root base := by
  obtain ⟨n, hf, hd⟩ := h
  exact ⟨n, hx.find hf, hd⟩

theorem toText_below_of_parts (root : Path) (hparts : root.parts ≠ []) {names : List Text}
    (hne : names ≠ []) :
    (root.below names).toText =
      root.toText ++ CodePoint.ofChar '/' :: Text.unlines "/" names := by
  obtain ⟨x, names, rfl⟩ := List.exists_cons_of_ne_nil hne
  unfold Path.toText
  rw [if_neg (by simp [Path.below]), if_neg (by simp [hparts]), Path.below,
    Text.unlines_append_cons _ hparts]
  simp only [List.append_assoc]
  rfl

theorem toText_below_of_no_parts (root : Path) (hparts : root.parts = []) {names : List Text}
    (hne : names ≠ []) :
    (root.below names).toText = root.root.toText ++ Text.unlines "/" names := by
  unfold Path.toText
  rw [if_neg (by simp [Path.below, hne]), Path.below, hparts, List.nil_append]

/-- Names that lead to a directory, and with which all paths below it begin. -/
def HasLead (fs : FileSystem) (root : Path) (base : Address) : Prop :=
  ∃ start lead n, Leads fs .followed maxLinks start lead (.found base n) ∧
    ∀ names, names ≠ [] → (∀ x ∈ names, IsName x) →
      fs.origin (encodeName (root.below names).toText) = start ∧
        systemNames (root.below names).toText = lead ++ names.map encodeName

theorem hasLead_of_parts (hparts : root.parts ≠ [])
    (h : fs.find .followed root.toText = .ok (base, n)) : fs.HasLead root base := by
  obtain ⟨hspeak, hleads⟩ := locate_eq_ok_iff.1 (find_eq_ok_iff.1 h)
  refine ⟨_, _, n, hleads, fun names hne hall => ?_⟩
  rw [toText_below_of_parts root hparts hne]
  refine ⟨origin_append fs hspeak.ne_nil _, ?_⟩
  rw [systemNames_append, systemNames_unlines_of_isName hne hall]

theorem hasLead_relative (h : fs.find .followed (Path.toText ⟨.relative, []⟩) = .ok (base, n)) :
    fs.HasLead ⟨.relative, []⟩ base := by
  have hleads := (locate_eq_ok_iff.1 (find_eq_ok_iff.1 h)).2
  have hnames : systemNames (Path.toText ⟨.relative, []⟩) = [[0x2E]] := by rfl
  have hwd : fs.origin (encodeName (Path.toText ⟨.relative, []⟩)) = fs.workingDirectory := rfl
  rw [hnames, hwd] at hleads
  have hbase : base = fs.workingDirectory ∧ fs.node? fs.workingDirectory = some n := by
    cases hleads with
    | here _ _ _ h => exact leads_nil.1 h
    | up _ _ hh => cases hh
    | into _ hf => cases hf.1.not_here
    | kept hk => cases hk
    | link _ hf => cases hf.1.not_here
  obtain ⟨rfl, hn⟩ := hbase
  refine ⟨_, [], n, .arrive hn, fun names hne hall => ?_⟩
  rw [toText_below_of_no_parts _ rfl hne]
  refine ⟨?_, systemNames_unlines_of_isName hne hall⟩
  obtain ⟨x, names, rfl⟩ := List.exists_cons_of_ne_nil hne
  obtain ⟨u, hu⟩ := Text.unlines_eq_append "/" x names
  rw [hu]
  exact origin_of_isName fs (hall x (by simp)) u

/-- Where a path is nothing but slashes, the last of them adds a name that asks for a directory. -/
theorem hasLead_slashes {kind : Path.Root} {t : Text}
    (hkind : kind.toText = t ++ [CodePoint.ofChar '/'])
    (hhead : kind.toText.head? = some (CodePoint.ofChar '/')) (hblank : ∀ x ∈ systemNames t, x = [])
    (h : fs.find .followed (Path.toText ⟨kind, []⟩) = .ok (base, n)) : fs.HasLead ⟨kind, []⟩ base := by
  have htext : Path.toText ⟨kind, []⟩ = t ++ CodePoint.ofChar '/' :: [] := by
    have hne : kind ≠ .relative := by
      rintro rfl
      cases hhead
    rw [Path.toText, if_neg (fun hr => hne hr.1), hkind]
    exact List.append_nil _
  have hleads := (locate_eq_ok_iff.1 (find_eq_ok_iff.1 h)).2
  rw [htext, origin_of_head fs (by rwa [← hkind]), systemNames_append] at hleads
  refine ⟨_, systemNames t, n, leads_of_blanks hblank hleads, fun names hne hall => ?_⟩
  rw [toText_below_of_no_parts _ rfl hne]
  refine ⟨origin_of_head fs ?_, ?_⟩
  · obtain ⟨c, u, hc⟩ := List.exists_cons_of_ne_nil (l := kind.toText) (by simp [hkind])
    rw [hc] at hhead ⊢
    exact hhead
  · rw [hkind, List.append_assoc, List.singleton_append, systemNames_append,
      systemNames_unlines_of_isName hne hall]

/-- All paths below a directory begin with names that lead to it. -/
theorem LeadsToDirectory.hasLead (h : fs.LeadsToDirectory root base) : fs.HasLead root base := by
  obtain ⟨n, hf, -⟩ := h
  by_cases hparts : root.parts = []
  · obtain ⟨kind, parts⟩ := root
    obtain rfl : parts = [] := hparts
    cases kind with
    | relative => exact hasLead_relative hf
    | slash => exact hasLead_slashes (t := []) rfl rfl (by simp [systemNames, encodeName, splitSlashes]) hf
    | doubleSlash =>
      have hblank : ∀ x ∈ systemNames (Path.Root.toText .slash), x = [] := by
        have hnames : systemNames (Path.Root.toText .slash) = List.replicate 2 [] := by rfl
        rw [hnames]
        exact fun x hx => List.eq_of_mem_replicate hx
      exact hasLead_slashes (t := Path.Root.toText .slash) rfl rfl hblank hf
  · exact hasLead_of_parts hparts hf

/-- What is vacant below a directory is where its names say, if they lead through directories. -/
theorem LeadsToDirectory.locate_eq (h : fs.LeadsToDirectory root base) {names : List Text} {x : Text}
    (hall : ∀ m ∈ names ++ [x], IsName m) {y : Name}
    (hdirs : ∀ k < names.length, ∃ m,
      fs.node? (base ++ (names.take (k + 1)).map encodeName) = some m ∧ m.target? = none)
    (hl : fs.locate .kept (root.below (names ++ [x])).toText = .ok (.vacant d y)) :
    d ++ [y] = base ++ (names ++ [x]).map encodeName := by
  obtain ⟨start, lead, n, hlead, hbelow⟩ := h.hasLead
  obtain ⟨horigin, hnames⟩ := hbelow _ (by simp) hall
  have hleads := (locate_eq_ok_iff.1 hl).2
  rw [horigin, hnames, ← walk_eq_ok_iff] at hleads
  have hne : (names ++ [x]).map encodeName ≠ [] := by simp
  obtain ⟨left, hwalk⟩ := hlead.onward hne .kept nofun
  rw [hwalk, walk_eq_ok_iff, List.map_append, List.map_singleton] at hleads
  have hdown := hleads.down (fun m hm => ?_) fun k hk => ?_
  · obtain ⟨⟨rfl, rfl⟩, -⟩ := hdown
    simp
  · rw [← List.map_singleton, ← List.map_append] at hm
    obtain ⟨t, ht, rfl⟩ := List.mem_map.1 hm
    exact (hall t ht).proper
  · rw [← List.map_take]
    exact hdirs k (by simpa using hk)

/-- A path below a directory ends in a name. -/
theorem LeadsToDirectory.endInName (h : fs.LeadsToDirectory root base) {names : List Text} {x : Text}
    (hall : ∀ m ∈ names ++ [x], IsName m) :
    EndInName (systemNames (root.below (names ++ [x])).toText) := by
  obtain ⟨start, lead, n, -, hbelow⟩ := h.hasLead
  rw [(hbelow _ (by simp) hall).2, List.map_append]
  exact ⟨encodeName x, by simp, (hall x (by simp)).proper.ne_nil⟩

end FileSystem

end TreePlan
