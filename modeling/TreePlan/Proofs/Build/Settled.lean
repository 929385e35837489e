import TreePlan.Proofs.Build.Forming

/-! A completed run, said without its order. Every entry is held against the state that the run began with and the
one that it ends with, and against nothing between: it was vacant, it can be reached now, and it is what its steps
form in the directory that now holds it. Entries that all stand so can be built, and building them leads there. -/

namespace TreePlan

open Utf8 (encodeName)

open FileSystem (Extends Reached)

open Layout (Nested)

namespace Build

/-- An entry stands in the end where nothing was, as its steps form it there. -/
structure Stands (encoding : Text) (root : Path) (base : Address) (fs gs : FileSystem) (earlier : List Entry)
    (e : Entry) : Prop where
  vacant : fs.node? (Plan.address base earlier e) = none
  reached : Reached gs root base (Plan.names earlier e)
  formed : ∃ parent n, gs.node? (Plan.address base earlier e).dropLast = some parent ∧
    parent.grants .write = true ∧ Formed parent (Plan.making encoding e (Plan.path root earlier e)) n ∧
    gs.node? (Plan.address base earlier e) = some n

/-- All entries stand in the end, each at an address of its own. -/
structure Settled (encoding : Text) (root : Path) (base : Address) (fs : FileSystem) (es : List Entry)
    (gs : FileSystem) : Prop where
  extends_ : Extends fs gs
  nodup : (Plan.each (Plan.address base) es).Nodup
  stands : ∀ init e rest, es = init ++ e :: rest → Stands encoding root base fs gs init e

variable {encoding : Text} {root : Path} {base : Address} {fs gs hs ms : FileSystem} {index : Nat}
  {earlier es : List Entry} {e : Entry}

theorem Stands.extend (h : Stands encoding root base fs gs earlier e) (hx : Extends gs hs) :
    Stands encoding root base fs hs earlier e := by
  obtain ⟨parent, n, hparent, hw, hformed, hn⟩ := h.formed
  exact ⟨h.vacant, h.reached.extend hx, parent, n, hx.node? _ _ hparent, hw, hformed, hx.node? _ _ hn⟩

theorem steps_append_singleton (root : Path) (encoding : Text) (es : List Entry) (e : Entry) :
    Plan.steps root encoding (es ++ [e]) = Plan.steps root encoding es ++ Plan.entrySteps root encoding es e := by
  simp [Plan.steps, Plan.each_append_singleton]

/-- A run that has come to its end has built its entries. -/
theorem built_of_carriedOut (hbase : fs.LeadsToDirectory root base) (hn : Nested es)
    (hsound : ∀ x ∈ es, x.IsSound)
    (h : CarriedOut (Plan.steps root encoding es) fs none gs) : Built encoding root base fs es gs := by
  rcases (Built.start encoding root base fs).run hbase hn hsound h with ⟨-, hb⟩ | ⟨s, _, _, _, ⟨⟩, -⟩
  exact hb

/-- One entry more has been built, and it stands. -/
theorem Built.stands (h : Built encoding root base fs es ms) (hbase : fs.LeadsToDirectory root base)
    (hn : Nested (es ++ [e])) (hsound : ∀ x ∈ es ++ [e], x.IsSound)
    (hsteps : CarriedOut (Plan.entrySteps root encoding es e) ms none gs) :
    Extends ms gs ∧ (fs.node? (Plan.address base es e) = none → Stands encoding root base fs gs es e) := by
  rw [entrySteps_eq_making] at hsteps
  rcases carriedOut_append.1 hsteps with ⟨s, ⟨⟩, -⟩ | ⟨ms', hv, hmaking⟩
  obtain rfl := carriedOut_visits hv
  obtain ⟨hend, hvac⟩ := h.vacancy hbase hn hsound
  obtain ⟨a, ha⟩ := leadsToVacancy_of_making hend hmaking
  obtain rfl := hvac a ha
  obtain ⟨parent, n, hparent, hw, hformed, rfl⟩ := (carriedOut_making_iff ha hend).1 hmaking
  have hnone : ms'.node? (Plan.address base es e) = none := by
    obtain ⟨d, x, hl, hd⟩ := ha
    rw [← hd]
    exact FileSystem.node?_of_locate_vacant hl
  have hgrows := FileSystem.grows_put hnone n
  refine ⟨hgrows.extends, fun hvacant => ⟨hvacant, ?_, parent, n, ?_, hw, hformed, hgrows.node?_self⟩⟩
  · refine Reached.extend ?_ hgrows.extends
    refine (hbase.extend h.extends_).reached (fun x => Plan.isName_of_mem_names hn hsound) (fun k hk => ?_) ha
    rw [Plan.length_leading] at hk
    obtain ⟨-, m, hm, hkind⟩ := h.way hn (k + 1) (by omega) (by omega)
    rw [Plan.take_leading es (by omega)]
    exact ⟨m, hm, by rw [Node.target?, hkind]⟩
  · exact hgrows.extends.node? _ _ hparent

/-- What a run has built stands. -/
theorem settled_of_carriedOut (hbase : fs.LeadsToDirectory root base) (hn : Nested es)
    (hsound : ∀ x ∈ es, x.IsSound) (h : CarriedOut (Plan.steps root encoding es) fs none gs) :
    Settled encoding root base fs es gs := by
  have hbuilt := built_of_carriedOut hbase hn hsound h
  refine ⟨hbuilt.extends_, hbuilt.nodup, ?_⟩
  clear hbuilt
  induction es using List.reverseRecOn generalizing gs with
  | nil => simp
  | append_singleton es e ih =>
    have hbuilt := built_of_carriedOut hbase hn hsound h
    rw [steps_append_singleton] at h
    rcases carriedOut_append.1 h with ⟨s, ⟨⟩, -⟩ | ⟨ms, hrun, hentry⟩
    have hsound' : ∀ x ∈ es, x.IsSound := fun x hx => hsound x (List.mem_append_left _ hx)
    have hbefore := built_of_carriedOut hbase hn.append_left hsound' hrun
    obtain ⟨hx, hstands⟩ := hbefore.stands hbase hn hsound hentry
    rintro init x rest hsplit
    have hvacant := (hbuilt.made init x rest hsplit).vacant
    rcases Plan.append_singleton_eq_split.1 hsplit with ⟨rfl, rfl, rfl⟩ | ⟨rest', rfl, rfl⟩
    · exact hstands hvacant
    · exact (ih hn.append_left hsound' hrun init x rest' rfl).extend hx

theorem carriedOut_visits_of {paths : List Path}
    (h : ∀ p ∈ paths, ∃ a n, fs.find .followed p.toText = .ok (a, n) ∧ n.isDirectory = true) :
    CarriedOut (visits index paths) fs none fs := by
  induction paths with
  | nil => exact carriedOut_nil.2 ⟨rfl, rfl⟩
  | cons p paths ih =>
    obtain ⟨a, n, hfind, hd⟩ := h p List.mem_cons_self
    have hvisit : FileSystem.effect (.visit p) fs = .ok fs := FileSystem.visit_of_find hfind hd
    exact carriedOut_cons.2 (.inl ⟨fs, hvisit, ih fun q hq => h q (List.mem_cons_of_mem _ hq)⟩)

/-- On the way to the entry that comes next all visits succeed. -/
theorem Built.visits (h : Built encoding root base fs es ms) (hbase : fs.LeadsToDirectory root base)
    (hn : Nested (es ++ [e])) (index : Nat) : CarriedOut (visits index (Plan.moves root es e)) ms none ms := by
  refine carriedOut_visits_of fun q hq => ?_
  rcases Plan.mem_moves hn hq with rfl | ⟨init, d, rest, rfl, hd, rfl⟩
  · obtain ⟨n, hfind, hdir⟩ := hbase.extend h.extends_
    exact ⟨base, n, hfind, hdir⟩
  · obtain ⟨n, hfind, hmakes⟩ := (h.made init d rest rfl).found
    have hkind := hmakes.eq_directory hd
    refine ⟨Plan.address base init d, n, ?_, by simp [Node.isDirectory, hkind]⟩
    rw [FileSystem.find_eq_ok_iff, FileSystem.locate_eq_ok_iff] at hfind ⊢
    exact ⟨hfind.1, hfind.2.followed_of_kept (by rw [Node.target?, hkind])⟩

/-- What leads to the entry that comes next is as it will be in the end, if that holds of all before. -/
theorem Built.leading_eq (h : Built encoding root base fs es ms) (hbase : fs.LeadsToDirectory root base)
    (hx : Extends fs gs) (hn : Nested (es ++ [e]))
    (hagree : ∀ a ∈ Plan.each (Plan.address base) es, ms.node? a = gs.node? a) {k : Nat}
    (hk : k ≤ e.level.toNat) : ms.node? (base ++ (Plan.leading es k).map encodeName) =
      gs.node? (base ++ (Plan.leading es k).map encodeName) := by
  rcases Nat.eq_zero_or_pos k with rfl | h0
  · obtain ⟨n, hfind, -⟩ := hbase
    have hbase := FileSystem.node?_of_find hfind
    have hnil : base ++ (Plan.leading es 0).map encodeName = base := by simp [Plan.leading]
    rw [hnil, h.extends_.node? _ _ hbase, hx.node? _ _ hbase]
  · obtain ⟨init, d, rest, rfl, -, hnames⟩ := Plan.exists_names_eq_leading hn h0 hk
    refine hagree _ (Plan.mem_each.2 ⟨init, d, rest, rfl, ?_⟩)
    rw [Plan.address, hnames]

/-- What can be reached in the end can be reached when its turn comes. -/
theorem Built.reached (h : Built encoding root base fs es ms) (hbase : fs.LeadsToDirectory root base)
    (hx : Extends fs gs) (hn : Nested (es ++ [e]))
    (hagree : ∀ a ∈ Plan.each (Plan.address base) es, ms.node? a = gs.node? a)
    (hreached : Reached gs root base (Plan.names es e)) : Reached ms root base (Plan.names es e) := by
  refine ⟨hreached.speakable, fun k hk => ?_, hreached.fits⟩
  obtain ⟨m, hm, hdir⟩ := hreached.searchable k hk
  rw [Plan.names, List.length_append, Plan.length_leading] at hk
  have hk : k ≤ e.level.toNat := Nat.lt_succ_iff.1 hk
  refine ⟨m, ?_, hdir⟩
  rw [Plan.take_names es hk] at hm ⊢
  rw [h.leading_eq hbase hx hn hagree hk, hm]

/-- Entries that all stand in the end can be built, and then each stands as it does there. -/
theorem carriedOut_of_stands (hbase : fs.LeadsToDirectory root base) (hn : Nested es)
    (hsound : ∀ x ∈ es, x.IsSound) (h : Settled encoding root base fs es gs) :
    ∃ hs, CarriedOut (Plan.steps root encoding es) fs none hs ∧
      ∀ a ∈ Plan.each (Plan.address base) es, hs.node? a = gs.node? a := by
  obtain ⟨hx, hnodup, hstands⟩ := h
  -- When the turn of an entry comes, all that leads to it is as it will be in the end, and nothing is there yet.
  induction es using List.reverseRecOn with
  | nil => exact ⟨fs, carriedOut_nil.2 ⟨rfl, rfl⟩, nofun⟩
  | append_singleton es e ih =>
    have hsound' : ∀ x ∈ es, x.IsSound := fun x hx => hsound x (List.mem_append_left _ hx)
    rw [Plan.each_append_singleton] at hnodup
    obtain ⟨hnodup, -, hfresh⟩ := List.nodup_append.1 hnodup
    obtain ⟨ms, hrun, hagree⟩ := ih hn.append_left hsound' hnodup fun init x rest hsplit =>
      hstands init x (rest ++ [e]) (Plan.append_singleton_eq_split.2 (.inr ⟨rest, rfl, hsplit⟩))
    have hbuilt := built_of_carriedOut hbase hn.append_left hsound' hrun
    obtain ⟨hvacant, hreached, parent, n, hparent, hw, hformed, hnode⟩ := hstands es e [] rfl
    have hnone : ms.node? (Plan.address base es e) = none := by
      by_contra hne
      have hmem := (hbuilt.new_iff _).1 ⟨hvacant, Option.isSome_iff_ne_none.2 hne⟩
      exact hfresh _ hmem _ (List.mem_singleton_self _) rfl
    have hvac : ms.LeadsToVacancy (Plan.path root es e).toText (Plan.address base es e) :=
      (hbuilt.reached hbase hx hn hagree hreached).leadsToVacancy (hbase.extend hbuilt.extends_)
        (by simp [Plan.names]) (fun x => Plan.isName_of_mem_names hn hsound) hnone
    have hend := (hbuilt.vacancy hbase hn hsound).1
    rw [Plan.dropLast_address, ← hbuilt.leading_eq hbase hx hn hagree le_rfl, ← Plan.dropLast_address]
      at hparent
    refine ⟨ms.put (Plan.address base es e) n, ?_, ?_⟩
    · rw [steps_append_singleton, entrySteps_eq_making]
      have hvisits := hbuilt.visits hbase hn es.length
      refine carriedOut_append.2 (.inr ⟨ms, hrun, carriedOut_append.2 (.inr ⟨ms, hvisits, ?_⟩)⟩)
      exact (carriedOut_making_iff hvac hend).2 ⟨parent, n, hparent, hw, hformed, rfl⟩
    · intro a ha
      rw [FileSystem.node?_put]
      split
      · next heq => rw [heq, hnode]
      · next hne =>
        rw [Plan.each_append_singleton] at ha
        rcases List.mem_append.1 ha with ha | ha
        · exact hagree a ha
        · exact absurd (List.mem_singleton.1 ha) hne

end Build

end TreePlan
