import TreePlan.Proofs.Build.Step
import TreePlan.Proofs.Path.Name

/-! A run stays below its root. The cursor may stand at any depth, above zero or below, and its records
may lie at other places than the levels of the entries; but what it has recorded are names, and a path
is never made of anything else. -/

namespace TreePlan

namespace Cursor

theorem mem_of_mem_before {α : Type} {xs : List α} {i : Int} {x : α} (h : x ∈ before xs i) :
    x ∈ xs := by
  unfold before at h
  split at h
  · exact List.mem_of_mem_take h
  · exact List.mem_of_mem_take h

theorem mem_of_item? {α : Type} {xs : List α} {i : Int} {x : α} (h : item? xs i = some x) :
    x ∈ xs := by
  unfold item? at h
  split at h
  · exact List.mem_of_getElem? h
  · split at h
    · exact List.mem_of_getElem? h
    · simp at h

/-- A cursor below a root with nothing but names on its records. -/
structure Within (root : Path) (c : Cursor) : Prop where
  root_eq : c.root = root
  names : ∀ n ∈ c.records, IsName n

variable {root : Path} {c : Cursor}

theorem Within.start (root : Path) : Within root { root } := ⟨rfl, by simp⟩

theorem Within.moved (h : Within root c) (depth : Int) : Within root { c with depth } :=
  ⟨h.root_eq, h.names⟩

theorem Within.record (h : Within root c) (level : Int) {name : Text} (hn : IsName name) :
    Within root (c.record level name) := by
  refine ⟨h.root_eq, fun n hm => ?_⟩
  rcases List.mem_append.1 hm with hm | hm
  · exact h.names n (mem_of_mem_before hm)
  · rw [List.mem_singleton.1 hm]
    exact hn

theorem Within.before (h : Within root c) (i : Int) : ∀ n ∈ before c.records i, IsName n :=
  fun n hn => h.names n (mem_of_mem_before hn)

theorem Within.location_eq (h : Within root c) : c.location = root.below c.segments := by
  rw [location, h.root_eq, @Path.joinAll_of_isName root c.segments (h.before c.depth)]

theorem Within.above_eq (h : Within root c) :
    c.above = root.below (Cursor.before c.records (c.depth - 1)) := by
  rw [above, h.root_eq, Path.joinAll_of_isName root (h.before (c.depth - 1))]

theorem Within.below?_eq (h : Within root c) {target : Path} (ht : c.below? = .ok (some target)) :
    ∃ name ∈ c.records, target = root.below (c.segments ++ [name]) := by
  unfold below? at ht
  split at ht
  · simp at ht
  · split at ht
    · simp at ht
    · split at ht
      · simp at ht
      · next name hn =>
        cases ht
        have hm := mem_of_item? hn
        refine ⟨name, hm, ?_⟩
        rw [h.location_eq, Path.join_of_isName _ (h.names name hm), Path.child_below]

end Cursor

open Run (Ends)

namespace Build

/-- A call about a path below the root; only a visit may be about the root itself. -/
def StaysBelow (root : Path) (c : Call) : Prop :=
  ∀ p, c.path? = some p → ∃ names, p = root.below names ∧ (∀ n ∈ names, IsName n) ∧
    (c.isVisit = false → names ≠ [])

/-- A call that is made on the way to an entry. -/
def OnTheWay (root : Path) (c : Call) : Prop :=
  StaysBelow root c ∧ (c.isPrimitive = true → c.isVisit = true)

variable {root : Path} {cursor : Cursor}

theorem staysBelow_observe (e : Event) : StaysBelow root (.observe e) := by
  intro p hp
  cases hp

theorem onTheWay_observe (e : Event) : OnTheWay root (.observe e) :=
  ⟨staysBelow_observe e, fun h => by cases h⟩

theorem onTheWay_visit {names : List Text} (h : ∀ n ∈ names, IsName n) :
    OnTheWay root (.visit (root.below names)) := by
  refine ⟨?_, fun _ => rfl⟩
  rintro p ⟨⟩
  exact ⟨names, rfl, h, fun hv => by cases hv⟩

theorem ensures_descend (o : Options) (index n : Nat) (h : cursor.Within root) :
    Ensures (descend o index n cursor) (OnTheWay root) (Cursor.Within root) := by
  induction n generalizing cursor with
  | zero => exact ensures_pure h
  | succ n ih =>
    rw [descend]
    split
    · exact ensures_throw _
    · exact (ensures_tell onTheWay_observe o _ _).bind fun _ _ => ensures_throw _
    · next target ht =>
      obtain ⟨name, hm, rfl⟩ := h.below?_eq ht
      have hnames : ∀ n ∈ cursor.segments ++ [name], IsName n := by
        intro n hn
        rcases List.mem_append.1 hn with hn | hn
        · exact h.before _ n hn
        · rw [List.mem_singleton.1 hn]
          exact h.names name hm
      exact (ensures_attempt onTheWay_observe o _ (onTheWay_visit hnames)).bind fun _ _ =>
        ih (h.moved _)

theorem ensures_ascend (o : Options) (index n : Nat) (h : cursor.Within root) :
    Ensures (ascend o index n cursor) (OnTheWay root) (Cursor.Within root) := by
  induction n generalizing cursor with
  | zero => exact ensures_pure h
  | succ n ih =>
    rw [ascend, h.above_eq]
    exact (ensures_attempt onTheWay_observe o _ (onTheWay_visit (h.before _))).bind fun _ _ =>
      ih (h.moved _)

theorem ensures_arrive (o : Options) (index : Nat) (previous : Option Int) (level : Int)
    (h : cursor.Within root) :
    Ensures (arrive o index previous level cursor) (OnTheWay root) (Cursor.Within root) := by
  cases previous with
  | none => exact ensures_pure h
  | some previous =>
    show Ensures (navigate o index previous level cursor) _ _
    unfold navigate
    split
    · exact ensures_descend o index _ h
    · exact ensures_ascend o index _ h

theorem ensures_place {good : Call → Prop} (index : Nat) (name : Text) (h : cursor.Within root) :
    Ensures (place index cursor name) good fun path =>
      IsName name ∧ ∃ names, path = root.below (names ++ [name]) ∧ ∀ n ∈ names, IsName n := by
  unfold place
  split
  · next path hc =>
    obtain ⟨hall, rfl⟩ := Path.compose_eq_ok_iff.1 hc
    rw [h.root_eq]
    exact ensures_pure ⟨hall name (by simp), _, rfl, fun n hn => hall n (by simp [hn])⟩
  · exact ensures_throw _

section Node

variable {good : Call → Prop} (ho : ∀ e, good (.observe e)) (o : Options) (index : Nat) {path : Path}
  (hp : ∀ c : Call, c.path? = some path → good c)

include ho hp

theorem ensures_writeContent (content : Text) :
    Ensures (writeContent o index path content) good fun _ => True := by
  unfold writeContent
  dsimp only
  split
  · exact ensures_settle ho o _ _ _
  · exact ensures_attempt ho o _ (hp _ rfl)

theorem ensures_buildFile (e : Entry) :
    Ensures (buildFile o index e path) good fun _ => True := by
  unfold buildFile
  refine (ensures_call (hp _ rfl)).bind fun answer _ => (ensures_settle ho o _ _ answer).bind
    fun _ _ => (ensures_closing (hp _ rfl) ?_).bind fun _ _ => ?_
  · refine (ensures_tell ho o _ _).bind fun _ _ => ?_
    cases e.content with
    | none => exact ensures_pure trivial
    | some content => exact ensures_writeContent ho o index hp content
  · cases e.mode with
    | none => exact ensures_pure trivial
    | some mode => exact ensures_attempt ho o _ (hp _ rfl)

theorem ensures_buildNode (e : Entry) :
    Ensures (buildNode o index e path) good fun _ => True := by
  unfold buildNode
  split
  · exact ensures_attempt ho o _ (hp _ rfl)
  · split
    · exact ensures_attempt ho o _ (hp _ rfl)
    · exact ensures_buildFile ho o index hp e

theorem ensures_setOwner (e : Entry) : Ensures (setOwner o index e path) good fun _ => True := by
  unfold setOwner
  split
  · exact ensures_attempt ho o _ (hp _ rfl)
  · exact ensures_pure trivial

end Node

theorem staysBelow_of_path {names : List Text} {name : Text} (h : ∀ n ∈ names, IsName n)
    (hn : IsName name) {c : Call} (hc : c.path? = some (root.below (names ++ [name]))) :
    StaysBelow root c := by
  intro p hp
  rw [hc] at hp
  cases hp
  refine ⟨names ++ [name], rfl, fun n hm => ?_, fun _ => by simp⟩
  rcases List.mem_append.1 hm with hm | hm
  · exact h n hm
  · rw [List.mem_singleton.1 hm]
    exact hn

theorem ensures_buildEntry (o : Options) (index : Nat) (previous : Option Int) (e : Entry)
    (h : cursor.Within root) :
    Ensures (buildEntry o index previous cursor e) (StaysBelow root)
      fun r => Cursor.Within root r.2 := by
  have hway := ensures_arrive o index previous e.level h
  unfold buildEntry
  refine Ensures.bind (fun log r hr => ⟨fun x hx => ((hway log r hr).1 x hx).1, (hway log r hr).2⟩)
    fun cursor h => (ensures_place index e.name h).bind fun path hpath => ?_
  obtain ⟨hn, names, rfl, hnames⟩ := hpath
  have hp : ∀ c : Call, c.path? = some (root.below (names ++ [e.name])) → StaysBelow root c :=
    fun c => staysBelow_of_path hnames hn
  refine (ensures_buildNode staysBelow_observe o index hp e).bind fun _ _ =>
    (ensures_setOwner staysBelow_observe o index hp e).bind fun _ _ => ensures_pure ?_
  dsimp only
  split
  · exact h.record e.level hn
  · exact h

/-- For an entry without a name nothing is done but to go where it should have been. -/
theorem ensures_buildEntry_of_not_isName (o : Options) (index : Nat) (previous : Option Int)
    {e : Entry} (h : cursor.Within root) (he : ¬IsName e.name) :
    Ensures (buildEntry o index previous cursor e) (OnTheWay root) fun _ => False := by
  unfold buildEntry
  refine (ensures_arrive o index previous e.level h).bind fun cursor h =>
    (ensures_place index e.name h).bind fun path hpath => ?_
  exact absurd hpath.1 he

theorem Course.staysBelow {o : Options} {index : Nat} {previous : Option Int} {es : List Entry}
    {logs : List (List Exchange)} {r : Except Stop (List Path)}
    (hc : Course o index previous cursor es logs r) (h : cursor.Within root) :
    (∀ x ∈ logs.flatten, StaysBelow root x.1) ∧
      ∀ (i : Nat) (e : Entry) (log : List Exchange), es[i]? = some e → logs[i]? = some log → ¬IsName e.name →
        ∀ x ∈ log, x.1.isPrimitive = true → x.1.isVisit = true := by
  induction hc with
  | finish => simp
  | @stop index previous cursor e rest log s he =>
    refine ⟨?_, fun i e' log' hi hl hn => ?_⟩
    · simpa using (ensures_buildEntry o index previous e h _ _ he).1
    · cases i with
      | zero =>
        cases hi
        cases hl
        intro x hx
        exact ((ensures_buildEntry_of_not_isName o index previous h hn _ _ he).1 x hx).2
      | succ i => cases hl
  | @advance index previous cursor next e rest log path logs r he _ ih =>
    obtain ⟨hlog, hnext⟩ := ensures_buildEntry o index previous e h _ _ he
    obtain ⟨hlogs, hnames⟩ := ih (hnext _ rfl)
    refine ⟨fun x hx => ?_, fun i e' log' hi hl hn => ?_⟩
    · rcases List.mem_append.1 (List.flatten_cons ▸ hx) with hx | hx
      · exact hlog x hx
      · exact hlogs x hx
    · cases i with
      | zero =>
        cases hi
        cases hl
        exact absurd rfl ((ensures_buildEntry_of_not_isName o index previous h hn _ _ he).2 _)
      | succ i => exact hnames i e' log' hi hl hn

/-- Whatever the entries, and however the calls are answered, each path handed out is the root followed
by names, and by at least one where a call does more than visit. For an entry that has no name to be
called by no call is made but visits. -/
theorem calls_stay_below_root (o : Options) (root : Path) (es : List Entry) (script : Script) :
    ∃ logs r, Course o 0 none { root } es logs r ∧
      (Build.entries o root es).play script = (r, logs.flatten) ∧
      (∀ x ∈ logs.flatten, ∀ p, x.1.path? = some p →
        p.root = root.root ∧ ∃ names, p.parts = root.parts ++ names ∧ (∀ n ∈ names, IsName n) ∧
          (x.1.isVisit = false → names ≠ [])) ∧
      ∀ (i : Nat) (e : Entry) (log : List Exchange), es[i]? = some e → logs[i]? = some log → ¬IsName e.name →
        ∀ x ∈ log, x.1.isPrimitive = true → x.1.isVisit = true := by
  have hends := Run.ends_play script (Build.entries o root es)
  obtain ⟨logs, hc, hlog⟩ := ends_buildFrom.1 hends
  obtain ⟨hbelow, hnames⟩ := hc.staysBelow (Cursor.Within.start root)
  refine ⟨logs, _, hc, Prod.ext rfl hlog, fun x hx p hp => ?_, hnames⟩
  obtain ⟨names, rfl, hn, hv⟩ := hbelow x hx p hp
  exact ⟨rfl, names, rfl, hn, hv⟩

end Build

end TreePlan
