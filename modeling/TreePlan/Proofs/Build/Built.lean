import Mathlib.Data.List.Nodup
import TreePlan.Proofs.Build.Making

/-! What stands once some entries have been built: all that stood before, and one new node for each
entry. Up to there no link has been followed, for each directory on the way is itself new. -/

namespace TreePlan

open Utf8 (encodeName)

open FileSystem (Extends Filled Grows LeadsToDirectory LeadsToVacancy EndInName)

namespace Plan

/-- Where below the base the names of an entry lead. -/
def address (base : Address) (earlier : List Entry) (e : Entry) : Address :=
  base ++ (names earlier e).map encodeName

theorem dropLast_address (base : Address) (earlier : List Entry) (e : Entry) :
    (address base earlier e).dropLast = base ++ (leading earlier e.level.toNat).map encodeName := by
  rw [address, names, List.map_append, List.map_singleton, ← List.append_assoc, List.dropLast_concat]

end Plan

namespace Build

/-- A directory that was not there before. -/
def NewDirectory (fs gs : FileSystem) (a : Address) : Prop :=
  fs.node? a = none ∧ ∃ n, gs.node? a = some n ∧ n.kind = .directory

/-- The node of an entry stands where its path leads. -/
structure Made (encoding : Text) (root : Path) (base : Address) (fs gs : FileSystem)
    (earlier : List Entry) (e : Entry) : Prop where
  vacant : fs.node? (Plan.address base earlier e) = none
  found : ∃ n, gs.find .kept (Plan.path root earlier e).toText = .ok (Plan.address base earlier e, n) ∧
    Makes encoding e n.kind
  way : ∀ k, 0 < k → k ≤ e.level.toNat →
    NewDirectory fs gs (base ++ (Plan.leading earlier k).map encodeName)

/-- Some entries have been built on a file system. -/
structure Built (encoding : Text) (root : Path) (base : Address) (fs : FileSystem)
    (es : List Entry) (gs : FileSystem) : Prop where
  extends_ : Extends fs gs
  new_iff : ∀ a, fs.node? a = none ∧ (gs.node? a).isSome ↔ a ∈ Plan.each (Plan.address base) es
  nodup : (Plan.each (Plan.address base) es).Nodup
  made : ∀ init e rest, es = init ++ e :: rest → Made encoding root base fs gs init e

variable {encoding : Text} {root : Path} {base : Address} {fs gs hs : FileSystem}
  {earlier es : List Entry} {e : Entry} {k : NodeKind}

theorem NewDirectory.extend {a : Address} (h : NewDirectory fs gs a) (hx : Extends gs hs) :
    NewDirectory fs hs a := by
  obtain ⟨hv, n, hn, hk⟩ := h
  exact ⟨hv, n, hx.node? a n hn, hk⟩

theorem Made.extend (h : Made encoding root base fs gs earlier e) (hx : Extends gs hs) :
    Made encoding root base fs hs earlier e := by
  obtain ⟨n, hf, hm⟩ := h.found
  exact ⟨h.vacant, ⟨n, hx.find hf, hm⟩, fun k h0 hk => (h.way k h0 hk).extend hx⟩

theorem Built.start (encoding : Text) (root : Path) (base : Address) (fs : FileSystem) :
    Built encoding root base fs [] fs := by
  refine ⟨.refl fs, fun a => ?_, List.nodup_nil, fun init e rest h => by simp at h⟩
  refine ⟨?_, ?_⟩
  · intro h
    obtain ⟨hn, hs⟩ := h
    rw [hn] at hs
    simp at hs
  · intro h
    cases h

/-- What leads to the entry that comes next are directories that have been made for entries before. -/
theorem Built.way (h : Built encoding root base fs earlier gs) (hn : Layout.Nested (earlier ++ [e]))
    (k : Nat) (h0 : 0 < k) (hk : k ≤ e.level.toNat) :
    NewDirectory fs gs (base ++ (Plan.leading earlier k).map encodeName) := by
  obtain ⟨init, d, rest, rfl, hd, hnames⟩ := Plan.exists_names_eq_leading hn h0 hk
  have hmade := h.made init d rest rfl
  obtain ⟨n, hfind, hm⟩ := hmade.found
  rw [← hnames]
  exact ⟨hmade.vacant, n, FileSystem.node?_of_find hfind, hm.eq_directory hd⟩

/-- One entry more. -/
theorem Built.step (h : Built encoding root base fs earlier gs) (hn : Layout.Nested (earlier ++ [e]))
    (hf : Filled gs (Plan.path root earlier e).toText (Plan.address base earlier e) k hs)
    (hm : Makes encoding e k) : Built encoding root base fs (earlier ++ [e]) hs := by
  obtain ⟨n, hg, rfl, hfind⟩ := hf.find .kept (.inl rfl)
  have hvacant : fs.node? (Plan.address base earlier e) = none := by
    by_contra hne
    obtain ⟨m, hm⟩ := Option.ne_none_iff_exists'.1 hne
    have hv := hg.vacant
    rw [h.extends_.node? _ _ hm] at hv
    simp at hv
  refine ⟨h.extends_.trans hg.extends, fun a => ?_, ?_, fun init x rest hsplit => ?_⟩
  · rw [Plan.each_append_singleton, List.mem_append, List.mem_singleton, ← h.new_iff, hg.node?_eq]
    by_cases ha : a = Plan.address base earlier e
    · simp [ha, hvacant]
    · simp [ha]
  · rw [Plan.each_append_singleton, List.nodup_append]
    refine ⟨h.nodup, by simp, fun a ha b hb => ?_⟩
    rintro rfl
    rw [List.mem_singleton.1 hb, ← h.new_iff, hg.vacant] at ha
    cases ha.2
  · rcases Plan.append_singleton_eq_split.1 hsplit with ⟨rfl, rfl, rfl⟩ | ⟨rest', rfl, rfl⟩
    · refine ⟨hvacant, ⟨n, hfind, hm⟩, fun k h0 hk => ?_⟩
      exact (h.way hn k h0 hk).extend hg.extends
    · exact (h.made init x rest' rfl).extend hg.extends

/-- Where the path of the next entry leads, if to a vacancy at all. -/
theorem Built.vacancy (h : Built encoding root base fs earlier gs)
    (hbase : fs.LeadsToDirectory root base) (hn : Layout.Nested (earlier ++ [e]))
    (hsound : ∀ x ∈ earlier ++ [e], x.IsSound) :
    EndInName (systemNames (Plan.path root earlier e).toText) ∧
      ∀ a, gs.LeadsToVacancy (Plan.path root earlier e).toText a → a = Plan.address base earlier e := by
  have hbase' := hbase.extend h.extends_
  have hnames : ∀ x ∈ Plan.names earlier e, IsName x := fun x => Plan.isName_of_mem_names hn hsound
  refine ⟨hbase'.endInName hnames, ?_⟩
  rintro a ⟨d, x, hl, rfl⟩
  refine hbase'.locate_eq hnames (fun k hk => ?_) hl
  rw [Plan.length_leading] at hk
  obtain ⟨-, n, hnode, hkind⟩ := h.way hn (k + 1) (by omega) (by omega)
  rw [Plan.take_leading earlier (by omega)]
  exact ⟨n, hnode, by rw [Node.target?, hkind]⟩

/-- A run has stopped at an entry: those before have been built, and of itself at most the beginning. -/
def StoppedAt (encoding : Text) (root : Path) (base : Address) (fs : FileSystem)
    (earlier : List Entry) (e : Entry) (gs : FileSystem) : Prop :=
  ∃ hs, Built encoding root base fs earlier hs ∧
    (gs = hs ∨ ∃ n, Grows hs (Plan.address base earlier e) n gs ∧ Begins encoding e n.kind)

/-- Steps of entries on top of what has been built before build them, or stop at one of them. -/
theorem Built.run {out : Option Stop} (h : Built encoding root base fs earlier gs)
    (hbase : fs.LeadsToDirectory root base) (hn : Layout.Nested (earlier ++ es))
    (hsound : ∀ x ∈ earlier ++ es, x.IsSound)
    (hc : CarriedOut (Plan.eachFrom (Plan.entrySteps root encoding) earlier es).flatten gs out hs) :
    (out = none ∧ Built encoding root base fs (earlier ++ es) hs) ∨
      ∃ s init e later, out = some s ∧ earlier ++ es = init ++ e :: later ∧
        StoppedAt encoding root base fs init e hs ∧ ∀ l, s = .located l → l.index = init.length := by
  induction es generalizing earlier gs with
  | nil =>
    obtain ⟨rfl, rfl⟩ := carriedOut_nil.1 hc
    rw [List.append_nil]
    exact .inl ⟨rfl, h⟩
  | cons e rest ih =>
    rw [List.append_cons] at hn hsound ⊢
    have hne := hn.append_left
    obtain ⟨hend, hvac⟩ := h.vacancy hbase hne fun x hx => hsound x (by
      rw [List.mem_append]
      exact .inl hx)
    rw [Plan.eachFrom, List.flatten_cons] at hc
    rcases carriedOut_append.1 hc with ⟨s, rfl, hentry⟩ | ⟨ms, hentry, hrest⟩
    · refine .inr ⟨s, earlier, e, rest, rfl, by simp, ⟨gs, h, ?_⟩, fun l hl => ?_⟩
      · rcases (entry_comes hend hvac hentry).begun with rfl | ⟨k, hf, hb⟩
        · exact .inl rfl
        · obtain ⟨n, hg, rfl⟩ := hf.grows
          exact .inr ⟨n, hg, hb⟩
      · subst hl
        refine hentry.index_eq fun step hs => ?_
        unfold Plan.entrySteps at hs
        obtain ⟨c, -, rfl⟩ := List.mem_map.1 hs
        rfl
    · obtain ⟨k, hf, hm⟩ := (entry_comes hend hvac hentry).done rfl
      exact ih (h.step hne hf hm) hn hsound hrest

/-- An address below a base to which nothing but new directories lead from there. -/
def NewlyBelow (base : Address) (fs gs : FileSystem) (a : Address) : Prop :=
  ∃ names, names ≠ [] ∧ (∀ n ∈ names, FileSystem.Proper n) ∧ a = base ++ names ∧
    ∀ k, 0 < k → k < names.length → NewDirectory fs gs (base ++ names.take k)

theorem NewlyBelow.extend {a : Address} (h : NewlyBelow base fs gs a) (hx : Extends gs hs) :
    NewlyBelow base fs hs a := by
  obtain ⟨names, hne, hproper, rfl, hway⟩ := h
  exact ⟨names, hne, hproper, rfl, fun k h0 hk => (hway k h0 hk).extend hx⟩

theorem newlyBelow_address (hn : Layout.Nested (earlier ++ [e]))
    (hsound : ∀ x ∈ earlier ++ [e], x.IsSound)
    (hway : ∀ k, 0 < k → k ≤ e.level.toNat →
      NewDirectory fs gs (base ++ (Plan.leading earlier k).map encodeName)) :
    NewlyBelow base fs gs (Plan.address base earlier e) := by
  refine ⟨(Plan.names earlier e).map encodeName, by simp [Plan.names], fun n hm => ?_, rfl,
    fun k h0 hk => ?_⟩
  · obtain ⟨t, ht, rfl⟩ := List.mem_map.1 hm
    exact (Plan.isName_of_mem_names hn hsound ht).proper
  · rw [List.length_map, Plan.names, List.length_append, Plan.length_leading] at hk
    have hk : k ≤ e.level.toNat := Nat.lt_succ_iff.1 hk
    rw [← List.map_take, Plan.take_names _ hk]
    exact hway k h0 hk

theorem Built.newlyBelow (h : Built encoding root base fs es gs) (hn : Layout.Nested es)
    (hsound : ∀ x ∈ es, x.IsSound) {a : Address} (ha : fs.node? a = none)
    (hs : (gs.node? a).isSome) : NewlyBelow base fs gs a := by
  obtain ⟨init, e, rest, rfl, rfl⟩ := Plan.mem_each.1 ((h.new_iff a).1 ⟨ha, hs⟩)
  rw [List.append_cons] at hn hsound
  exact newlyBelow_address hn.append_left (fun x hx => hsound x (List.mem_append_left _ hx))
    (h.made init e rest rfl).way

theorem StoppedAt.extends_ (h : StoppedAt encoding root base fs earlier e gs) : Extends fs gs := by
  obtain ⟨hs, hb, rfl | ⟨n, hg, -⟩⟩ := h
  · exact hb.extends_
  · exact hb.extends_.trans hg.extends

theorem StoppedAt.newlyBelow (h : StoppedAt encoding root base fs earlier e gs)
    (hn : Layout.Nested (earlier ++ [e])) (hsound : ∀ x ∈ earlier ++ [e], x.IsSound) {a : Address}
    (ha : fs.node? a = none) (hs : (gs.node? a).isSome) : NewlyBelow base fs gs a := by
  obtain ⟨ms, hb, rfl | ⟨n, hg, -⟩⟩ := h
  · exact hb.newlyBelow hn.append_left (fun x hx => hsound x (List.mem_append_left _ hx)) ha hs
  · by_cases he : a = Plan.address base earlier e
    · rw [he]
      exact newlyBelow_address hn hsound fun k h0 hk => (hb.way hn k h0 hk).extend hg.extends
    · rw [hg.node?_eq, if_neg he] at hs
      have hbelow := hb.newlyBelow hn.append_left
        (fun x hx => hsound x (List.mem_append_left _ hx)) ha hs
      exact hbelow.extend hg.extends

/-- No two entries have been built at the same path. -/
theorem Built.paths_nodup (h : Built encoding root base fs es gs) :
    ((Plan.paths root es).map Path.toText).Nodup := by
  let whereTo (t : Text) : Address := ((gs.find .kept t).toOption.map Prod.fst).getD []
  have haddresses : ((Plan.paths root es).map Path.toText).map whereTo =
      Plan.each (Plan.address base) es := by
    rw [Plan.paths, Plan.map_each, Plan.map_each]
    refine Plan.each_congr fun init e rest he => ?_
    obtain ⟨n, hf, -⟩ := (h.made init e rest he).found
    simp [whereTo, hf, Except.toOption]
  apply List.Nodup.of_map whereTo
  rw [haddresses]
  exact h.nodup

end Build

end TreePlan
