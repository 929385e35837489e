import TreePlan.Proofs.Except
import TreePlan.Proofs.FileSystem.Leads
import TreePlan.Proofs.Path.Name

/-! How a path is spelled for the system. The bytes of a path fall apart at its slashes into the bytes of
its names, for no other character has a byte that means a slash or a point. -/

namespace TreePlan

namespace Utf8

theorem bytesOf_high {n : Nat} (h : 0x80 ≤ n) (hn : n < 0x110000) : ∀ b ∈ bytesOf n, 0x80 ≤ b.toNat := by
  intro b hb
  unfold bytesOf at hb
  split at hb
  · omega
  · split at hb
    · simp only [List.mem_cons, List.not_mem_nil, or_false] at hb
      rcases hb with rfl | rfl <;> simp only [UInt8.toNat_ofNat'] <;> omega
    · split at hb
      · simp only [List.mem_cons, List.not_mem_nil, or_false] at hb
        rcases hb with rfl | rfl | rfl <;> simp only [UInt8.toNat_ofNat'] <;> omega
      · simp only [List.mem_cons, List.not_mem_nil, or_false] at hb
        rcases hb with rfl | rfl | rfl | rfl <;> simp only [UInt8.toNat_ofNat'] <;> omega

theorem bytesOf_ne_nil (n : Nat) : bytesOf n ≠ [] := by
  unfold bytesOf
  split
  · simp
  · split
    · simp
    · split <;> simp

theorem encodeNameChar_low {c : CodePoint} (h : c.val < 0x80) :
    encodeNameChar c = [UInt8.ofNat c.val] := by
  have hb : holdsByte c = false := by
    rw [holdsByte, Bool.and_eq_false_iff, decide_eq_false_iff_not]
    omega
  rw [encodeNameChar, if_neg (by simp [hb]), bytesOf, if_pos h]

theorem encodeNameChar_high {c : CodePoint} (h : 0x80 ≤ c.val) :
    encodeNameChar c ≠ [] ∧ ∀ b ∈ encodeNameChar c, 0x80 ≤ b.toNat := by
  unfold encodeNameChar
  split
  · next hb =>
    rw [holdsByte, Bool.and_eq_true, decide_eq_true_eq, decide_eq_true_eq] at hb
    refine ⟨by simp, fun b hm => ?_⟩
    rw [List.mem_singleton.1 hm]
    simp only [UInt8.toNat_ofNat']
    omega
  · exact ⟨bytesOf_ne_nil _, bytesOf_high h c.isLt⟩

theorem encodeNameChar_ne_nil (c : CodePoint) : encodeNameChar c ≠ [] := by
  by_cases h : c.val < 0x80
  · simp [encodeNameChar_low h]
  · exact (encodeNameChar_high (by omega)).1

theorem encodeName_cons (c : CodePoint) (t : Text) :
    encodeName (c :: t) = encodeNameChar c ++ encodeName t := rfl

theorem encodeName_append (s t : Text) : encodeName (s ++ t) = encodeName s ++ encodeName t := by
  simp [encodeName]

theorem encodeName_eq_nil_iff {t : Text} : encodeName t = [] ↔ t = [] := by
  cases t with
  | nil => simp [encodeName]
  | cons c t => simp [encodeName_cons, encodeNameChar_ne_nil]

/-- Nothing but an ASCII text has its bytes. -/
theorem eq_of_encodeName_eq {s t : Text} (hs : ∀ c ∈ s, c.val < 0x80)
    (h : encodeName t = encodeName s) : t = s := by
  induction s generalizing t with
  | nil => exact encodeName_eq_nil_iff.1 h
  | cons c s ih =>
    have hc : c.val < 0x80 := hs c (by simp)
    rw [encodeName_cons, encodeNameChar_low hc] at h
    cases t with
    | nil => cases h
    | cons d t =>
      rw [encodeName_cons] at h
      by_cases hd : d.val < 0x80
      · rw [encodeNameChar_low hd] at h
        obtain ⟨hdc, ht⟩ := List.cons.inj h
        have hval : d.val % 256 = c.val % 256 := by
          simpa only [UInt8.toNat_ofNat'] using congrArg UInt8.toNat hdc
        rw [ih (fun x hx => hs x (by simp [hx])) ht, Fin.ext (show d.val = c.val by omega)]
      · obtain ⟨hne, hhigh⟩ := encodeNameChar_high (c := d) (by omega)
        obtain ⟨b, bs, hb⟩ := List.exists_cons_of_ne_nil hne
        rw [hb] at h
        obtain ⟨hbc, -⟩ := List.cons.inj h
        have := hhigh b (by simp [hb])
        rw [hbc] at this
        simp only [UInt8.toNat_ofNat'] at this
        omega

theorem slash_mem_encodeNameChar {c : CodePoint} (h : slash ∈ encodeNameChar c) :
    c = CodePoint.ofChar '/' := by
  by_cases hc : c.val < 0x80
  · rw [encodeNameChar_low hc, List.mem_singleton] at h
    have hval : slash.toNat = c.val % 256 := by
      rw [h, UInt8.toNat_ofNat']
    exact Fin.ext (show c.val = 0x2F by rw [show slash.toNat = 0x2F from rfl] at hval; omega)
  · have := (encodeNameChar_high (c := c) (by omega)).2 _ h
    exact absurd this (by decide)

theorem slash_notMem_encodeName {t : Text} (h : CodePoint.ofChar '/' ∉ t) : slash ∉ encodeName t := by
  intro hm
  obtain ⟨c, hc, hs⟩ := List.mem_flatMap.1 hm
  rw [slash_mem_encodeNameChar hs] at hc
  exact h hc

end Utf8

open Utf8 (encodeName)

theorem splitSlashes_ne_nil (b : Bytes) : splitSlashes b ≠ [] := by
  cases b with
  | nil => simp [splitSlashes]
  | cons x b =>
    unfold splitSlashes
    split
    · simp
    · split <;> simp

theorem splitSlashes_append (b c : Bytes) :
    splitSlashes (b ++ slash :: c) = splitSlashes b ++ splitSlashes c := by
  induction b with
  | nil => rfl
  | cons x b ih =>
    rw [List.cons_append, splitSlashes, splitSlashes, ih]
    split
    · rfl
    · obtain ⟨n, ns, hn⟩ := List.exists_cons_of_ne_nil (splitSlashes_ne_nil b)
      rw [hn]
      rfl

theorem splitSlashes_of_notMem {b : Bytes} (h : slash ∉ b) : splitSlashes b = [b] := by
  induction b with
  | nil => rfl
  | cons x b ih =>
    simp only [List.mem_cons, not_or] at h
    rw [splitSlashes, if_neg (Ne.symm h.1), ih h.2]

/-- The names that the system reads in a text. -/
def systemNames (t : Text) : List Name := splitSlashes (encodeName t)

theorem systemNames_append (s t : Text) :
    systemNames (s ++ CodePoint.ofChar '/' :: t) = systemNames s ++ systemNames t := by
  rw [systemNames, Utf8.encodeName_append, Utf8.encodeName_cons]
  exact splitSlashes_append ..

theorem systemNames_unlines {ts : List Text} (h : ts ≠ []) :
    systemNames (Text.unlines "/" ts) = ts.flatMap systemNames := by
  induction ts with
  | nil => exact absurd rfl h
  | cons t ts ih =>
    cases ts with
    | nil => rw [Text.unlines_singleton, List.flatMap_cons, List.flatMap_nil, List.append_nil]
    | cons u ts =>
      rw [Text.unlines_cons_cons, List.flatMap_cons, ← ih (by simp), List.append_assoc]
      exact systemNames_append ..

namespace IsName

variable {name : Text} (h : IsName name)

include h

theorem systemNames_eq : systemNames name = [encodeName name] :=
  splitSlashes_of_notMem (Utf8.slash_notMem_encodeName h.no_slash)

theorem proper : FileSystem.Proper (encodeName name) := by
  have hdot : (CodePoint.ofChar '.').val < 0x80 := by decide
  refine ⟨fun he => h.ne_nil (Utf8.encodeName_eq_nil_iff.1 he), ?_, ?_⟩
  · rw [FileSystem.isHere, beq_eq_false_iff_ne]
    intro he
    refine h.ne_dot (Utf8.eq_of_encodeName_eq (fun c hc => ?_) he)
    rwa [List.mem_singleton.1 (show c ∈ [CodePoint.ofChar '.'] from hc)]
  · rw [FileSystem.isUp, beq_eq_false_iff_ne]
    intro he
    refine h.ne_dots (Utf8.eq_of_encodeName_eq (fun c hc => ?_) he)
    have hc' : c ∈ List.replicate 2 (CodePoint.ofChar '.') := hc
    rwa [(List.mem_replicate.1 hc').2]

end IsName

theorem systemBytes_eq_ok_iff {t : Text} {b : Bytes} :
    systemBytes t = .ok b ↔
      Utf8.nameFault? t = none ∧ CodePoint.null ∉ t ∧ b = encodeName t := by
  unfold systemBytes
  refine ⟨?_, ?_⟩
  · intro h
    split at h
    · simp at h
    · next hf =>
      split at h
      · simp at h
      · next hn =>
        cases h
        exact ⟨hf, by simpa using hn, rfl⟩
  · intro h
    obtain ⟨hf, hn, rfl⟩ := h
    rw [hf]
    dsimp only
    rw [if_neg (by simpa using hn)]

namespace FileSystem

variable {fs gs : FileSystem} {ending : Ending} {t : Text} {spot : Spot} {a : Address} {n : Node}

/-- Where a walk over the bytes of a path begins. -/
def origin (fs : FileSystem) (b : Bytes) : Address := if isAbsolute b then [] else fs.workingDirectory

theorem locateBytes_eq_ok_iff {b : Bytes} :
    fs.locateBytes ending b = .ok spot ↔
      b ≠ [] ∧ b.length ≤ Path.maxBytes ∧
        Leads fs ending maxLinks (fs.origin b) (splitSlashes b) spot := by
  unfold locateBytes
  rw [← walk_eq_ok_iff]
  refine ⟨?_, ?_⟩
  · intro h
    split at h
    · simp at h
    · next hb =>
      split at h
      · simp at h
      · next hl => exact ⟨by simpa using hb, by omega, h⟩
  · intro h
    obtain ⟨hb, hl, h⟩ := h
    rw [if_neg (by simpa using hb), if_neg (by omega)]
    exact h

/-- A text is fit to be handed to the system as a path. -/
structure Speakable (t : Text) : Prop where
  faultless : Utf8.nameFault? t = none
  no_null : CodePoint.null ∉ t
  ne_nil : t ≠ []
  length_le : (encodeName t).length ≤ Path.maxBytes

theorem locate_eq_ok_iff :
    fs.locate ending t = .ok spot ↔
      Speakable t ∧ Leads fs ending maxLinks (fs.origin (encodeName t)) (systemNames t) spot := by
  unfold locate
  rw [bind_eq_ok_iff]
  have hmap : ∀ {b : Bytes}, (fs.locateBytes ending b).mapError Failure.system = .ok spot ↔
      fs.locateBytes ending b = .ok spot := by
    intro b
    cases fs.locateBytes ending b <;> simp [Except.mapError]
  refine ⟨?_, ?_⟩
  · intro h
    obtain ⟨b, hb, h⟩ := h
    obtain ⟨hf, hn, rfl⟩ := systemBytes_eq_ok_iff.1 hb
    obtain ⟨hne, hl, h⟩ := locateBytes_eq_ok_iff.1 (hmap.1 h)
    exact ⟨⟨hf, hn, fun ht => hne (by rw [ht]; rfl), hl⟩, h⟩
  · intro h
    obtain ⟨⟨hf, hn, hne, hl⟩, h⟩ := h
    refine ⟨_, systemBytes_eq_ok_iff.2 ⟨hf, hn, rfl⟩, hmap.2 (locateBytes_eq_ok_iff.2 ⟨?_, hl, h⟩)⟩
    exact fun he => hne (Utf8.encodeName_eq_nil_iff.1 he)

theorem find_eq_ok_iff : fs.find ending t = .ok (a, n) ↔ fs.locate ending t = .ok (.found a n) := by
  unfold find
  rw [bind_eq_ok_iff]
  refine ⟨?_, ?_⟩
  · intro h
    obtain ⟨spot, hs, h⟩ := h
    cases spot with
    | found b m =>
      cases h
      exact hs
    | vacant d x => cases h
  · intro h
    exact ⟨_, h, rfl⟩

theorem Extends.origin_eq (h : Extends fs gs) (b : Bytes) : gs.origin b = fs.origin b := by
  rw [origin, origin, h.workingDirectory]

theorem Extends.find (h : Extends fs gs) (hf : fs.find ending t = .ok (a, n)) :
    gs.find ending t = .ok (a, n) := by
  rw [find_eq_ok_iff, locate_eq_ok_iff] at hf ⊢
  rw [h.origin_eq]
  exact ⟨hf.1, hf.2.extend h⟩

theorem node?_of_find (h : fs.find ending t = .ok (a, n)) : fs.node? a = some n :=
  (locate_eq_ok_iff.1 (find_eq_ok_iff.1 h)).2.node?_found

theorem node?_of_locate_vacant {d : Address} {x : Name} (h : fs.locate ending t = .ok (.vacant d x)) :
    fs.node? (d ++ [x]) = none := (locate_eq_ok_iff.1 h).2.node?_vacant

theorem find_of_locate_vacant {d : Address} {x : Name} (h : fs.locate .kept t = .ok (.vacant d x))
    (hx : Extends fs gs) (hn : gs.node? (d ++ [x]) = some n) (ht : EndInName (systemNames t))
    (he : ending = .kept ∨ ending = .followed ∧ n.target? = none) :
    gs.find ending t = .ok (d ++ [x], n) := by
  rw [locate_eq_ok_iff] at h
  rw [find_eq_ok_iff, locate_eq_ok_iff, hx.origin_eq]
  exact ⟨h.1, h.2.fill hx hn ht he⟩

end FileSystem

end TreePlan
