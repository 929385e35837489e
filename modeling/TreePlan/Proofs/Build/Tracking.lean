import TreePlan.Proofs.Build.Containment
import TreePlan.Proofs.Build.Plan

/-! The cursor of a run tracks the plan. Over entries whose levels are those of a tree, the names up to
its depth are the names that lead to the entry, though deeper records may be left from directories
that the run has long come out of. -/

namespace TreePlan

open Layout (Follows Nested)

namespace Cursor

/-- The cursor stands where an entry of a level is built. -/
structure Stands (root : Path) (earlier : List Entry) (level : Int) (c : Cursor) : Prop where
  within : c.Within root
  depth_eq : c.depth = level
  segments_eq : c.segments = Plan.leading earlier level.toNat

/-- The level of the last entry, which of none is that of the first. -/
def levelAfter (earlier : List Entry) : Int := (earlier.getLast?.map Entry.level).getD 0

/-- The cursor is as some entries have left it: at the level of the last and, if that is a directory,
with its name as the deepest record. -/
structure Tracks (root : Path) (earlier : List Entry) (c : Cursor) : Prop where
  stands : c.Stands root earlier (levelAfter earlier)
  records_eq : ∀ p ∈ earlier.getLast?, p.isDirectory = true →
    c.records = Plan.names earlier.dropLast p

variable {root : Path} {earlier : List Entry} {c : Cursor} {e p : Entry} {level : Int}

theorem before_of_nonneg {α : Type} (xs : List α) {i : Int} (h : 0 ≤ i) :
    before xs i = xs.take i.toNat := if_pos h

theorem Tracks.start (root : Path) : Tracks root [] { root } :=
  ⟨⟨.start root, rfl, rfl⟩, fun p hp => by cases hp⟩

/-- Higher up the names are the same but fewer. -/
theorem Stands.rise (h : c.Stands root earlier level) (upper : Int) (h0 : 0 ≤ upper)
    (hle : upper ≤ level) : Stands root earlier upper { c with depth := upper } := by
  refine ⟨h.within.moved upper, rfl, ?_⟩
  have hs := h.segments_eq
  rw [segments, h.depth_eq, before_of_nonneg _ (by omega)] at hs
  rw [segments, before_of_nonneg _ h0, ← Plan.take_leading earlier (m := level.toNat) (by omega),
    ← hs, List.take_take, Nat.min_eq_left (by omega)]

theorem Stands.above_eq (h : c.Stands root earlier level) (h0 : 0 < level) :
    c.above = (root.below (Plan.leading earlier level.toNat)).parent := by
  have hs := (h.rise (level - 1) (by omega) (by omega)).segments_eq
  obtain ⟨n, hn⟩ : ∃ n, level.toNat = n + 1 := ⟨level.toNat - 1, by omega⟩
  have hn' : (level - 1).toNat = n := by omega
  rw [h.within.above_eq, h.depth_eq, hn,
    show before c.records (level - 1) = Plan.leading earlier n from hn' ▸ hs]
  unfold Plan.leading
  rw [List.range_succ, List.map_append, List.map_singleton, Path.parent_below]

theorem levelAfter_of_mem (hp : p ∈ earlier.getLast?) : levelAfter earlier = p.level := by
  rw [levelAfter, hp]
  rfl

/-- Below a directory that has just been made the cursor finds that directory. -/
theorem Tracks.below?_eq (h : c.Tracks root earlier) (hp : p ∈ earlier.getLast?)
    (hd : p.isDirectory = true) (h0 : 0 ≤ p.level) :
    c.below? = .ok (some (Plan.path root earlier.dropLast p)) := by
  have hr := h.records_eq p hp hd
  have hdepth : c.depth = p.level := h.stands.depth_eq.trans (levelAfter_of_mem hp)
  have hlen : (Plan.leading earlier.dropLast p.level.toNat).length = p.level.toNat :=
    Plan.length_leading ..
  have hloc : c.location = root.below (Plan.leading earlier.dropLast p.level.toNat) := by
    rw [h.stands.within.location_eq, segments, before_of_nonneg _ (by omega), hr, hdepth, Plan.names,
      List.take_append_of_le_length (by omega), List.take_of_length_le (by omega)]
  have hitem : item? c.records c.depth = some p.name := by
    rw [item?, if_pos (by omega), hr, hdepth, Plan.names,
      List.getElem?_append_right (by omega), hlen, Nat.sub_self]
    rfl
  have hname : IsName p.name := h.stands.within.names p.name (by rw [hr, Plan.names]; simp)
  unfold below?
  rw [if_neg, if_neg, hitem]
  · dsimp only
    rw [hloc, Path.join_of_isName _ hname, Path.child_below]
    rfl
  · simp only [positionLimit]
    omega
  · rw [hr, Plan.names, List.length_append, hlen, List.length_singleton]
    omega

/-- Where the levels are those of a tree, to move the depth is to arrive. -/
theorem Tracks.arrived (h : c.Tracks root earlier) (hn : Nested (earlier ++ [e])) :
    Stands root earlier e.level { c with depth := e.level } := by
  have h0 := hn.level_nonneg
  cases hlast : earlier.getLast? with
  | none =>
    have he : earlier = [] := List.getLast?_eq_none_iff.1 hlast
    subst he
    have hlevel : e.level = 0 := hn.head e (by simp)
    exact h.stands.rise _ h0 (by rw [hlevel]; exact Int.le_refl 0)
  | some p =>
    have hf := hn.follows hlast
    have hlevel := levelAfter_of_mem hlast
    rcases hf.2 with hle | ⟨hl, hd⟩
    · exact h.stands.rise _ h0 (by omega)
    · refine ⟨h.stands.within.moved _, rfl, ?_⟩
      obtain ⟨init, rfl⟩ : ∃ init, earlier = init ++ [p] := by
        obtain ⟨hne, hg⟩ := List.getLast?_eq_some_iff.1 hlast
        exact ⟨_, hg⟩
      have hp : 0 ≤ p.level := hn.append_left.level_nonneg
      have hr := h.records_eq p hlast hd
      rw [List.dropLast_concat] at hr
      rw [segments, before_of_nonneg _ h0, hr, show e.level.toNat = p.level.toNat + 1 by omega,
        Plan.leading_append_singleton_succ init hp]
      exact List.take_of_length_le (by rw [Plan.names, List.length_append, Plan.length_leading]; simp)

theorem Stands.recorded (h : c.Stands root earlier e.level) (h0 : 0 ≤ e.level)
    (hname : IsName e.name) :
    Tracks root (earlier ++ [e]) (if e.isDirectory then c.record e.level e.name else c) := by
  have hs : c.records.take e.level.toNat = Plan.leading earlier e.level.toNat := by
    have hs := h.segments_eq
    rwa [segments, h.depth_eq, before_of_nonneg _ h0] at hs
  have hlead : Plan.leading (earlier ++ [e]) e.level.toNat = Plan.leading earlier e.level.toNat :=
    Plan.leading_append_singleton earlier e (by omega)
  have hlevel : levelAfter (earlier ++ [e]) = e.level := levelAfter_of_mem (by simp)
  split
  · have hr : (c.record e.level e.name).records = Plan.names earlier e := by
      rw [record, before_of_nonneg _ h0, hs, Plan.names]
    refine ⟨⟨h.within.record _ hname, by rw [hlevel]; exact h.depth_eq, ?_⟩, fun p hp _ => ?_⟩
    · rw [hlevel, hlead, segments, hr]
      show before (Plan.names earlier e) c.depth = _
      rw [h.depth_eq, before_of_nonneg _ h0, Plan.names, List.take_append_of_le_length,
        List.take_of_length_le] <;> simp [Plan.length_leading]
    · obtain rfl : e = p := by simpa using hp
      rw [List.dropLast_concat, hr]
  · next hd =>
    refine ⟨⟨h.within, by rw [hlevel]; exact h.depth_eq, by rw [hlevel, hlead]; exact h.segments_eq⟩,
      fun p hp hp' => ?_⟩
    obtain rfl : e = p := by simpa using hp
    exact absurd hp' hd

end Cursor

end TreePlan
