import TreePlan.Proofs.Build.Tracking

/-! How a run over the entries of a layout that has been read arrives at each of them. What the cursor
stands for is said by the entries before alone, so the way to an entry is a walk over the directories of
the plan, in which nothing is missing and no name is refused, whatever is answered on it. -/

namespace TreePlan

open Run (Ends)

open Layout (Nested)

namespace Plan

/-- The way to an entry leads down, into the entry before. -/
def leadsDown (earlier : List Entry) (e : Entry) : Bool :=
  earlier.getLast?.any fun p => decide (p.level < e.level)

end Plan

namespace Cursor

variable {root : Path} {earlier : List Entry} {c : Cursor} {level : Int}

/-- There are at least as many records as the cursor is deep; those beyond are left from before. -/
theorem Stands.depth_le (h : c.Stands root earlier level) (h0 : 0 ≤ level) :
    c.depth ≤ c.records.length := by
  have hs := congrArg List.length h.segments_eq
  rw [segments, h.depth_eq, before_of_nonneg _ h0, List.length_take, Plan.length_leading] at hs
  have hd := h.depth_eq
  omega

/-- Only a directory has anything below it, and that is one level down. -/
theorem Tracks.descends {e p : Entry} (h : c.Tracks root earlier) (hn : Nested (earlier ++ [e]))
    (hlast : earlier.getLast? = some p) (hlt : p.level < e.level) :
    e.level = p.level + 1 ∧ c.below? = .ok (some (Plan.path root earlier.dropLast p)) := by
  obtain ⟨init, rfl⟩ : ∃ init, earlier = init ++ [p] := List.getLast?_eq_some_iff.1 hlast
  rcases (hn.follows hlast).2 with hle | ⟨hlevel, hd⟩
  · omega
  · exact ⟨hlevel, h.below?_eq hlast hd hn.append_left.level_nonneg⟩

end Cursor

namespace Build

variable {root : Path} {earlier es : List Entry} {cursor : Cursor} {e : Entry}

/-- One move on the way to an entry, into a directory or back to one. -/
def moving (down : Bool) (index : Nat) (target : Path) : Attempt :=
  { kind := .navigation, index, operation := if down then .enter else .leave, path := target
    failure := (if down then Text.ofString "Can't enter directory "
      else Text.ofString "Can't return to directory ") ++ target.toText }

def walk (o : Options) (down : Bool) (index : Nat) : List Path → Build Unit
  | [] => pure ()
  | p :: rest => do
    attempt o (moving down index p) (.visit p)
    walk o down index rest

theorem ascend_eq (o : Options) (index n : Nat) {level : Int} (h : cursor.Stands root earlier level)
    (hn : (n : Int) ≤ level) :
    ascend o index n cursor = (do
      walk o false index (Plan.ascents n (root.below (Plan.leading earlier level.toNat)))
      pure { cursor with depth := level - n }) := by
  -- each step leaves a cursor that stands one level higher over the same entries
  induction n generalizing cursor level with
  | zero =>
    have hdepth : level - ((0 : Nat) : Int) = cursor.depth := by
      rw [h.depth_eq]
      omega
    rw [ascend, Plan.ascents, walk, pure_bind, hdepth]
  | succ n ih =>
    have hup := h.rise (level - 1) (by omega) (by omega)
    have habove := h.above_eq (by omega)
    have hparent : (root.below (Plan.leading earlier level.toNat)).parent =
        root.below (Plan.leading earlier (level - 1).toNat) := by
      rw [← habove, h.within.above_eq, h.depth_eq]
      exact congrArg root.below hup.segments_eq
    have hrest := ih hup (by omega)
    rw [show level - 1 - (n : Int) = level - ((n + 1 : Nat) : Int) by omega] at hrest
    rw [ascend, Plan.ascents, walk, bind_assoc, habove, h.depth_eq, hrest, hparent]
    rfl

/-- To arrive at an entry is to walk the moves of the plan and then to stand at its level. -/
theorem arrive_eq (o : Options) (index : Nat) (h : cursor.Tracks root earlier)
    (hn : Nested (earlier ++ [e])) :
    arrive o index (earlier.getLast?.map Entry.level) e.level cursor = (do
      walk o (Plan.leadsDown earlier e) index (Plan.moves root earlier e)
      pure { cursor with depth := e.level }) := by
  unfold Plan.moves Plan.leadsDown
  cases hlast : earlier.getLast? with
  | none =>
    have he : earlier = [] := List.getLast?_eq_none_iff.1 hlast
    subst he
    have hlevel : e.level = 0 := hn.head e (by simp)
    rw [hlevel, show (0 : Int) = cursor.depth from h.stands.depth_eq.symm]
    rfl
  | some p =>
    obtain ⟨init, rfl⟩ : ∃ init, earlier = init ++ [p] := List.getLast?_eq_some_iff.1 hlast
    have hdepth : cursor.depth = p.level := h.stands.depth_eq.trans (Cursor.levelAfter_of_mem hlast)
    show navigate o index p.level e.level cursor = _
    unfold navigate
    by_cases hlt : p.level < e.level
    · obtain ⟨hlevel, hbelow⟩ := h.descends hn hlast hlt
      rw [if_pos hlt, Option.any_some, decide_eq_true hlt]
      dsimp only
      rw [if_pos hlt, show (e.level - p.level).toNat = 0 + 1 by omega, descend, hbelow, hlevel, ← hdepth,
        walk, walk, bind_assoc]
      rfl
    · have hs : cursor.Stands root (init ++ [p]) p.level := by
        have hs := h.stands
        rwa [Cursor.levelAfter_of_mem hlast] at hs
      have he := hn.level_nonneg
      have hup := ascend_eq o index (p.level - e.level).toNat hs (by omega)
      rw [show p.level - ((p.level - e.level).toNat : Int) = e.level by omega,
        Plan.leading_append_singleton init p (by omega)] at hup
      rw [if_neg hlt, Option.any_some, decide_eq_false hlt]
      dsimp only
      rw [if_neg hlt, List.dropLast_concat, Plan.parent_path]
      exact hup

theorem compose_eq (h : cursor.Stands root earlier e.level) (hn : IsName e.name) :
    Path.compose cursor.root cursor.segments e.name = .ok (Plan.path root earlier e) := by
  refine Path.compose_eq_ok_iff.2 ⟨fun n hm => ?_, ?_⟩
  · rcases List.mem_append.1 hm with hm | hm
    · exact h.within.before _ n hm
    · rw [List.mem_singleton.1 hm]
      exact hn
  · rw [h.within.root_eq, h.segments_eq]
    rfl

/-- A cursor that has arrived is as deep as the entry, and the name is not refused. -/
theorem arrive_ends (o : Options) {log : List Exchange} {c : Cursor} (h : cursor.Tracks root earlier)
    (hn : Nested (earlier ++ [e])) (hname : IsName e.name)
    (he : Ends (arrive o earlier.length (earlier.getLast?.map Entry.level) e.level cursor).run log
      (.ok c)) :
    c.depth = e.level ∧ 0 ≤ c.depth ∧ c.depth ≤ c.records.length ∧
      Path.compose c.root c.segments e.name = .ok (Plan.path root earlier e) := by
  rw [arrive_eq o _ h hn] at he
  rcases ends_bind.1 he with ⟨s, -, hs⟩ | ⟨l₁, _, l₂, -, h₂, -⟩
  · cases hs
  · obtain ⟨-, hc⟩ := ends_pure.1 h₂
    cases hc
    have hstands := h.arrived hn
    exact ⟨rfl, hn.level_nonneg, hstands.depth_le hn.level_nonneg, compose_eq hstands hname⟩

/-- What is done for an entry, said without a cursor. -/
def planned (o : Options) (root : Path) (earlier : List Entry) (e : Entry) : Build Unit := do
  walk o (Plan.leadsDown earlier e) earlier.length (Plan.moves root earlier e)
  buildNode o earlier.length e (Plan.path root earlier e)
  setOwner o earlier.length e (Plan.path root earlier e)

theorem buildEntry_eq (o : Options) (h : cursor.Tracks root earlier) (hn : Nested (earlier ++ [e]))
    (hname : IsName e.name) :
    ∃ next, next.Tracks root (earlier ++ [e]) ∧
      buildEntry o earlier.length (earlier.getLast?.map Entry.level) cursor e = (do
        planned o root earlier e
        pure (Plan.path root earlier e, next)) := by
  have hs := h.arrived hn
  refine ⟨_, hs.recorded hn.level_nonneg hname, ?_⟩
  unfold buildEntry planned place
  rw [arrive_eq o _ h hn]
  simp only [bind_assoc, pure_bind, compose_eq hs hname]

theorem tracks_of_ends (o : Options) {log : List Exchange} {path : Path} {next : Cursor}
    (h : cursor.Tracks root earlier) (hn : Nested (earlier ++ [e])) (hname : IsName e.name)
    (he : Ends (buildEntry o earlier.length (earlier.getLast?.map Entry.level) cursor e).run log
      (.ok (path, next))) : next.Tracks root (earlier ++ [e]) := by
  obtain ⟨next', hnext, heq⟩ := buildEntry_eq o h hn hname
  rw [heq] at he
  rcases ends_bind.1 he with ⟨s, -, hs⟩ | ⟨l₁, _, l₂, -, h₂, -⟩
  · cases hs
  · obtain ⟨-, hp⟩ := ends_pure.1 h₂
    cases hp
    exact hnext

/-- A run over entries can come to have some of them behind it, the others before it and this cursor. -/
inductive Reaches (o : Options) (root : Path) (es : List Entry) :
    List Entry → Cursor → List Entry → Prop where
  | start : Reaches o root es [] { root } es
  | next {earlier later : List Entry} {cursor next : Cursor} {e : Entry} {log : List Exchange}
      {path : Path} :
      Reaches o root es earlier cursor (e :: later) →
      Ends (buildEntry o earlier.length (earlier.getLast?.map Entry.level) cursor e).run log
        (.ok (path, next)) →
      Reaches o root es (earlier ++ [e]) next later

theorem Reaches.append_eq {o : Options} {later : List Entry}
    (h : Reaches o root es earlier cursor later) : es = earlier ++ later := by
  induction h with
  | start => rfl
  | next _ _ ih => rw [ih, List.append_cons]

theorem Reaches.tracks {o : Options} {later : List Entry}
    (h : Reaches o root es earlier cursor later) (hn : Nested es) (hsound : ∀ e ∈ es, e.IsSound) :
    cursor.Tracks root earlier := by
  induction h with
  | start => exact .start root
  | @next earlier later cursor next e log path hr he ih =>
    have hes := hr.append_eq
    rw [List.append_cons] at hes
    rw [hes] at hn hsound
    exact tracks_of_ends o ih hn.append_left (hsound e (by simp)).name he

/-- What belongs to an entry in a course is exchanged from where the run has come to. -/
theorem Course.reaches {o : Options} {n : Nat} {previous : Option Int} {later : List Entry}
    {logs : List (List Exchange)} {r : Except Stop (List Path)}
    (hc : Course o n previous cursor later logs r) (hlen : n = earlier.length)
    (hprev : previous = earlier.getLast?.map Entry.level)
    (h : Reaches o root es earlier cursor later) :
    ∀ log ∈ logs, ∃ earlier cursor e later r, Reaches o root es earlier cursor (e :: later) ∧
      Ends (buildEntry o earlier.length (earlier.getLast?.map Entry.level) cursor e).run log r := by
  induction hc generalizing earlier with
  | finish => simp
  | stop he =>
    subst hlen hprev
    exact List.forall_mem_singleton.2 ⟨_, _, _, _, _, h, he⟩
  | @advance index previous cursor next e rest log path logs r he hc ih =>
    subst hlen hprev
    have hlevel : some e.level = (earlier ++ [e]).getLast?.map Entry.level := by simp
    have hlogs := ih (by simp) hlevel (h.next he)
    exact List.forall_mem_cons.2 ⟨⟨_, _, _, _, _, h, he⟩, hlogs⟩

end Build

end TreePlan
