import TreePlan.Proofs.FileSystem.Growth

/-! Appending to a file. What is appended is read behind what was read before, or alone where no file was;
to make directories first changes neither. -/

namespace TreePlan.FileSystem

variable {fs gs : FileSystem} {ending : Ending} {links : Nat} {dir a : Address} {name : Name}
  {names rest : List Name} {spot : Spot} {old new n : Node} {path : Text} {content added : Bytes}

theorem Fits.followed (h : Fits .made name rest) : Fits .followed name rest := ⟨h.1, h.2.1, nofun⟩

/-- Where a file may be made, there a file is looked for. -/
theorem Leads.followed (h : Leads fs .made links dir names spot) :
    Leads fs .followed links dir names spot := by
  generalize he : Ending.made = ending at h
  induction h with
  | arrive hn => exact .arrive hn
  | blank hn hd _ ih => exact .blank hn hd ih
  | here hs hne hh _ ih => exact .here hs hne hh ih
  | up hs hne hh hu _ ih => exact .up hs hne hh hu ih
  | into hs hf ho ht _ ih => exact .into hs (he ▸ hf).followed ho ht ih
  | vacant hs hf ho hr => exact .vacant hs (he ▸ hf).followed ho hr
  | kept hk => cases he.trans hk
  | link hs hf ho ht _ hne _ ih => exact .link hs (he ▸ hf).followed ho ht nofun hne ih

theorem target?_of_file (h : n.kind = .file content) : n.target? = none := by
  rw [Node.target?, h]

theorem not_directory_of_file (h : n.kind = .file content) : n.isDirectory = false := by
  rw [Node.isDirectory, h]
  rfl

/-- A path to a file leads there still when the file is another. -/
theorem Leads.put_file (h : Leads fs ending links dir names (.found a old)) (hold : old.kind = .file content)
    (hnew : new.kind = .file added) : Leads (fs.put a new) ending links dir names (.found a new) := by
  have hnode := h.node?_found
  have hother {b : Address} {m : Node} (hb : fs.node? b = some m)
      (hm : m.isDirectory = true ∨ m.target? ≠ none) :
      (fs.put a new).node? b = some m := by
    rw [node?_put, if_neg, hb]
    rintro rfl
    rw [hnode] at hb
    cases hb
    rcases hm with hm | hm
    · rw [not_directory_of_file hold] at hm
      cases hm
    · exact hm (target?_of_file hold)
  have hdir {b : Address} (hs : Searchable fs b) : Searchable (fs.put a new) b := by
    obtain ⟨m, hb, hd, hs⟩ := hs
    exact ⟨m, hother hb (.inl hd), hd, hs⟩
  generalize hspot : Spot.found a old = spot at h
  induction h with
  | @arrive _ dir n hn =>
    cases hspot
    exact .arrive (by rw [node?_put, if_pos rfl])
  | blank hn hd _ ih => exact .blank (hother hn (.inl hd)) hd (ih hspot)
  | here hs hne hh _ ih => exact .here (hdir hs) hne hh (ih hspot)
  | up hs hne hh hu _ ih => exact .up (hdir hs) hne hh hu (ih hspot)
  | @into _ dir name rest _ m hs hf ho ht _ ih =>
    by_cases ha : dir ++ [name] = a
    · exact .into (hdir hs) hf (by rw [node?_put, if_pos ha]) (target?_of_file hnew) (ih hspot)
    · exact .into (hdir hs) hf (by rw [node?_put, if_neg ha, ho]) ht (ih hspot)
  | vacant => cases hspot
  | kept _ _ _ _ ht =>
    cases hspot
    rw [target?_of_file hold] at ht
    cases ht
  | link hs hf ho ht hk hne _ ih =>
    exact .link (hdir hs) hf (hother ho (.inr (by simp [ht]))) ht hk hne (ih hspot)

/-- Where a file could be made, there it is found once it has been. -/
theorem Leads.made {d : Address} {x : Name} (h : Leads fs .made links dir names (.vacant d x))
    (hx : Extends fs gs) (hn : gs.node? (d ++ [x]) = some n) (ht : n.target? = none) :
    Leads gs .followed links dir names (.found (d ++ [x]) n) := by
  generalize he : Ending.made = ending at h
  generalize hspot : Spot.vacant d x = spot at h
  induction h with
  | arrive => cases hspot
  | blank hn' hd _ ih => exact .blank (hx.node? _ _ hn') hd (ih hspot)
  | here hs hne hh _ ih => exact .here (hx.searchable hs) hne hh (ih hspot)
  | up hs hne hh hu _ ih => exact .up (hx.searchable hs) hne hh hu (ih hspot)
  | into hs hf ho ht' _ ih =>
    exact .into (hx.searchable hs) (he ▸ hf).followed (hx.node? _ _ ho) ht' (ih hspot)
  | @vacant _ dir name rest hs hf ho hr =>
    cases hspot
    obtain rfl : rest = [] := (hf.2.2 he.symm).resolve_right (by simp [hr])
    exact .into (hx.searchable hs) (he ▸ hf).followed hn ht (.arrive hn)
  | kept => cases hspot
  | link hs hf ho ht' _ hne _ ih =>
    exact .link (hx.searchable hs) (he ▸ hf).followed (hx.node? _ _ ho) ht' nofun hne (ih hspot)

theorem isFile_of_find (h : fs.find .followed path = .ok (a, n)) : fs.isFile path = .ok n.isFile := by
  rw [isFile, look?, h]
  rfl

theorem readFile_of_find (h : fs.find .followed path = .ok (a, n)) (hk : n.kind = .file content) :
    fs.readFile path = if n.grants .read then .ok content else .error (.system .accessDenied) := by
  rw [readFile, h]
  simp only [bind, Except.bind, hk]
  cases n.grants .read <;> rfl

/-- To drop a bit leaves the bits below it. -/
theorem hasBit_dropBit {mode bit b : Nat} (hb : 0 < b) (h : 2 * b ∣ bit) :
    hasBit (dropBit mode bit) b = hasBit mode b := by
  obtain ⟨k, rfl⟩ := h
  unfold dropBit
  split
  · next hbit =>
    have hle : b * (2 * k) ≤ mode := by
      have hne : mode / (2 * b * k) ≠ 0 := by
        intro hzero
        rw [hasBit, hzero] at hbit
        cases hbit
      have := (Nat.div_ne_zero_iff.1 hne).2
      rwa [Nat.mul_comm 2 b, Nat.mul_assoc] at this
    have hdiv : (mode - 2 * b * k) / b = mode / b - 2 * k := by
      rw [Nat.mul_comm 2 b, Nat.mul_assoc, Nat.sub_mul_div_of_le _ _ _ hle]
    have hk : 2 * k ≤ mode / b := (Nat.le_div_iff_mul_le hb).2 (by rwa [Nat.mul_comm])
    rw [hasBit, hasBit, hdiv]
    congr 1
    omega
  · rfl

/-- What a mode loses when a file is written is no right. -/
theorem grants_touched (n : Node) (r : Right) (k : NodeKind) :
    Node.grants { n with kind := k, mode := modeOnceTouched n.mode } r = n.grants r := by
  have hbits : 0 < n.digit * r.weight ∧ 2 * (n.digit * r.weight) ∣ Node.setuid ∧
      2 * (n.digit * r.weight) ∣ Node.setgid := by
    have hdigit : n.digit = 0o100 ∨ n.digit = 0o010 ∨ n.digit = 1 := by
      unfold Node.digit
      split
      · exact .inl rfl
      · split
        · exact .inr (.inl rfl)
        · exact .inr (.inr rfl)
    rcases hdigit with h | h | h <;> cases r <;> rw [h] <;> decide
  obtain ⟨hpos, huid, hgid⟩ := hbits
  show hasBit (modeOnceTouched n.mode) (n.digit * r.weight) = hasBit n.mode (n.digit * r.weight)
  unfold modeOnceTouched
  dsimp only
  split
  · rw [hasBit_dropBit hpos hgid, hasBit_dropBit hpos huid]
  · rw [hasBit_dropBit hpos huid]

theorem written_eq_some {change : Bytes → Bytes} (hk : n.kind = .file content)
    (h : written added change n = some new) (hchange : added = [] → change content = content) :
    new.kind = .file (change content) ∧ new.grants = n.grants := by
  refine ⟨written_kind hk h hchange, ?_⟩
  unfold written at h
  rw [hk] at h
  dsimp only at h
  split at h
  · cases h
    rfl
  · cases h
    exact funext fun r => grants_touched n r _

theorem append_eq_ok (h : fs.append path added = .ok gs) :
    (∃ a n m, fs.find .made path = .ok (a, n) ∧ written added (fun old => old ++ added) n = some m ∧
        gs = fs.put a m) ∨
      ∃ d x parent, fs.locate .made path = .ok (.vacant d x) ∧
        gs = fs.put (d ++ [x]) (newFile added parent) := by
  unfold append at h
  obtain ⟨spot, hl, h⟩ := bind_eq_ok_iff.1 h
  cases spot with
  | found a n =>
    dsimp only at h
    cases hw : written added (fun old => old ++ added) n with
    | none => rw [hw] at h; cases h
    | some m =>
      rw [hw] at h
      dsimp only at h
      split at h
      · cases h
      · cases h
        exact .inl ⟨a, n, m, find_eq_ok_iff.2 hl, hw, rfl⟩
  | vacant d x =>
    obtain ⟨parent, rfl⟩ := addTo_eq_ok h
    exact .inr ⟨d, x, parent, hl, rfl⟩

/-- A path to a file leads to what the file is replaced by. -/
theorem find_put_file (h : fs.find ending path = .ok (a, old)) (hold : old.kind = .file content)
    (hnew : new.kind = .file added) : (fs.put a new).find ending path = .ok (a, new) := by
  rw [find_eq_ok_iff, locate_eq_ok_iff] at h ⊢
  refine ⟨h.1, ?_⟩
  rw [origin, workingDirectory_put]
  exact h.2.put_file hold hnew

theorem locate_followed (h : fs.locate .made path = .ok spot) : fs.locate .followed path = .ok spot := by
  rw [locate_eq_ok_iff] at h ⊢
  exact ⟨h.1, h.2.followed⟩

/-- What is appended to a file goes behind what it held, and may be read as that was. -/
theorem find_append (hf : fs.find .followed path = .ok (a, n)) (hk : n.kind = .file content)
    (h : fs.append path added = .ok gs) :
    ∃ m, gs.find .followed path = .ok (a, m) ∧ m.kind = .file (content ++ added) ∧ m.grants = n.grants := by
  rcases append_eq_ok h with ⟨b, n', m, hmade, hw, rfl⟩ | ⟨d, x, parent, hl, rfl⟩
  · have hsame := find_eq_ok_iff.2 (locate_followed (find_eq_ok_iff.1 hmade))
    rw [hf] at hsame
    cases hsame
    obtain ⟨hkind, hgrants⟩ := written_eq_some hk hw fun he => by rw [he, List.append_nil]
    exact ⟨m, find_put_file hf hk hkind, hkind, hgrants⟩
  · have hvacant := locate_followed hl
    rw [find_eq_ok_iff.1 hf] at hvacant
    cases hvacant

/-- What is appended where no file was is a file of its own, and may be read. -/
theorem find_append_new (hfile : fs.isFile path ≠ .ok true) (h : fs.append path added = .ok gs) :
    ∃ b m, gs.find .followed path = .ok (b, m) ∧ m.kind = .file added ∧ m.grants .read = true := by
  rcases append_eq_ok h with ⟨b, n, m, hmade, hw, rfl⟩ | ⟨d, x, parent, hl, rfl⟩
  · have hf := find_eq_ok_iff.2 (locate_followed (find_eq_ok_iff.1 hmade))
    rw [isFile_of_find hf, Node.isFile] at hfile
    unfold written at hw
    cases hk : n.kind with
    | file content => rw [hk] at hfile; exact absurd rfl hfile
    | directory => rw [hk] at hw; cases hw
    | symlink => rw [hk] at hw; cases hw
  · have hvacant := (locate_eq_ok_iff.1 hl).2.node?_vacant
    have hgrows := grows_put hvacant (newFile added parent)
    have hreadable : (newFile added parent).grants .read = true := by
      show hasBit 0o644 (0o100 * Right.read.weight) = true
      decide
    refine ⟨d ++ [x], newFile added parent, ?_, rfl, hreadable⟩
    rw [find_eq_ok_iff, locate_eq_ok_iff, hgrows.extends.origin_eq]
    rw [locate_eq_ok_iff] at hl
    exact ⟨hl.1, hl.2.made hgrows.extends hgrows.node?_self rfl⟩

/-! Making directories adds nodes and changes none. -/

theorem makeDirectory_extends {mode : Option Int} (h : fs.makeDirectory path mode = .ok gs) :
    Extends fs gs := by
  obtain ⟨a, n, -, hg, -⟩ := makeDirectory_eq_ok h
  exact hg.extends

theorem attempt_extends (p : Path) (fs : FileSystem) (n : Nat) :
    Extends fs (makeDirectories.attempt p fs n).2 := by
  induction n generalizing fs with
  | zero =>
    rw [makeDirectories.attempt]
    split
    · next h => exact makeDirectory_extends h
    · exact .refl fs
    · exact .refl fs
  | succ n ih =>
    have habove := ih fs
    rw [makeDirectories.attempt]
    split
    · next h => exact makeDirectory_extends h
    · split
      · next h => rw [h] at habove; exact habove
      · next h =>
        rw [h] at habove
        split
        · next h => exact habove.trans (makeDirectory_extends h)
        · exact habove
        · exact habove
    · exact .refl fs

theorem makeDirectories_extends (p : Path) (fs : FileSystem) : Extends fs (makeDirectories p fs).2 :=
  attempt_extends p fs _

end TreePlan.FileSystem
