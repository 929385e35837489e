import Mathlib.Data.List.Chain
import TreePlan.Proofs.Layout.Reading
import TreePlan.Proofs.Layout.Rows

/-! What the entries of a layout that has been read can be relied on for. Levels go down one at a time,
below directories only, and each entry by itself is sound. -/

namespace TreePlan

/-- What an entry has by itself once it has been read: a name, and a mode of twelve bits if any. -/
structure Entry.IsSound (e : Entry) : Prop where
  name : IsName e.name
  mode : ∀ m, e.mode = some m → 0 ≤ m ∧ m < 4096

namespace Layout

/-- An entry may come after another: at its level or above it, or right below it if that one is a
directory. -/
def Follows (p e : Entry) : Prop :=
  0 ≤ e.level ∧ (e.level ≤ p.level ∨ e.level = p.level + 1 ∧ p.isDirectory = true)

/-- Entries whose levels are those of a tree written down in document order. -/
structure Nested (es : List Entry) : Prop where
  head : ∀ e ∈ es.head?, e.level = 0
  chain : es.IsChain Follows

theorem Nested.append_left {es fs : List Entry} (h : Nested (es ++ fs)) : Nested es := by
  refine ⟨fun e he => h.head e ?_, (List.isChain_append.1 h.chain).1⟩
  cases es with
  | nil => cases he
  | cons a es => exact he

theorem Nested.follows {es : List Entry} {p e : Entry} (h : Nested (es ++ [e]))
    (hp : p ∈ es.getLast?) : Follows p e :=
  (List.isChain_append.1 h.chain).2.2 p hp e (by simp)

theorem Nested.level_nonneg {es : List Entry} {e : Entry} (h : Nested (es ++ [e])) :
    0 ≤ e.level := by
  cases hes : es.getLast? with
  | none =>
    rw [List.getLast?_eq_none_iff.1 hes] at h
    have := h.head e (by simp)
    omega
  | some p => exact (h.follows hes).1

theorem Nested.append {es xs : List Entry} (h : Nested es) (h' : Nested xs) : Nested (es ++ xs) := by
  refine ⟨fun e he => ?_, List.isChain_append.2 ⟨h.chain, h'.chain, fun p hp e he => ?_⟩⟩
  · cases es with
    | nil => exact h'.head e he
    | cons x es => exact h.head e he
  · have he := h'.head e he
    obtain ⟨init, rfl⟩ := List.getLast?_eq_some_iff.1 hp
    have hp := h.level_nonneg
    exact ⟨he.ge, .inl (by omega)⟩

theorem readSpec_isSound {strict : Bool} {level line : Nat} {s : Text} {e : Entry}
    (h : readSpec strict level line s = .ok e) : e.IsSound ∧ e.level = level := by
  obtain ⟨⟨permission, _, _, _, _, hread⟩, hlevel, -⟩ := readSpec_ok h
  refine ⟨⟨readName_isName hread.name, fun m hm => ?_⟩, hlevel⟩
  rw [hread.mode] at hm
  obtain ⟨p, hp, rfl⟩ := Option.map_eq_some_iff.1 hm
  obtain ⟨htext, hmode, -⟩ := readPermission?_ok hread.block p hp
  have hlt := Text.octalValue_lt htext
  omega

/-- A line goes no deeper than one level below the line before, and that only below a directory. -/
theorem open_level {ctx : Context} {indent : Text} {s : Indents} (h : ctx.open indent = .ok s) :
    s.widths ≠ [] ∧ (ctx.indents.widths = [] → s.level = 0) ∧
      (ctx.indents.widths ≠ [] → s.level ≤ ctx.indents.level ∨
        s.level = ctx.indents.level + 1 ∧ ctx.belowDirectory = true) := by
  unfold Indents.level
  cases (turn_of_open h).2 with
  | first hw => exact ⟨by simp, fun _ => rfl, fun hne => absurd hw hne⟩
  | deeper hw _ hd =>
    rw [hw]
    exact ⟨by simp, fun he => by simp at he, fun _ => .inr ⟨rfl, hd⟩⟩
  | level hw =>
    rw [hw]
    exact ⟨by simp, fun he => by simp at he, fun _ => .inl (Nat.le_refl _)⟩
  | back hw =>
    rw [hw]
    refine ⟨by simp, fun he => by simp at he, fun _ => .inl ?_⟩
    simp only [List.length_cons, List.length_append]
    omega

/-- The context after an entry. -/
structure Context.After (ctx : Context) (p : Entry) : Prop where
  widths : ctx.indents.widths ≠ []
  level : (ctx.indents.level : Int) = p.level
  below : ctx.belowDirectory = p.isDirectory

theorem readLine_ok {strict : Bool} {line : Nat} {ctx ctx' : Context} {source : Text} {e : Entry}
    (h : readLine strict line ctx source = .ok (e, ctx')) :
    e.IsSound ∧ ctx'.After e ∧ (ctx.indents.widths = [] → e.level = 0) ∧
      ∀ p, ctx.After p → Follows p e := by
  unfold readLine at h
  obtain ⟨s, hs, h⟩ := bind_eq_ok_iff.1 h
  obtain ⟨e', he, h⟩ := bind_eq_ok_iff.1 h
  cases h
  obtain ⟨hsound, hlevel⟩ := readSpec_isSound he
  obtain ⟨hw, hfirst, hnext⟩ := open_level hs
  refine ⟨hsound, ⟨hw, hlevel.symm, rfl⟩, fun h => by rw [hlevel, hfirst h]; rfl, fun p hp => ?_⟩
  rw [Follows, hlevel, ← hp.level, ← hp.below]
  rcases hnext hp.widths with h | ⟨h, hb⟩
  · exact ⟨by omega, .inl (by omega)⟩
  · exact ⟨by omega, .inr ⟨by omega, hb⟩⟩

theorem readLines_ok {strict : Bool} {line : Nat} {ctx : Context} {lines : List Text}
    {es : List Entry} (h : readLines strict line ctx lines = .ok es) :
    (∀ e ∈ es, e.IsSound) ∧ es.IsChain Follows ∧
      (ctx.indents.widths = [] → ∀ e ∈ es.head?, e.level = 0) ∧
      ∀ p, ctx.After p → ∀ e ∈ es.head?, Follows p e := by
  induction lines generalizing line ctx es with
  | nil =>
    cases h
    simp
  | cons source rest ih =>
    rw [readLines] at h
    split at h
    · exact ih h
    · split at h
      · simp at h
      · next e ctx' he =>
        obtain ⟨es', hes, rfl⟩ := map_eq_ok_iff.1 h
        obtain ⟨hsound, hafter, hfirst, hnext⟩ := readLine_ok he
        obtain ⟨hall, hchain, -, hhead⟩ := ih hes
        refine ⟨?_, List.isChain_cons.2 ⟨fun y hy => hhead e hafter y hy, hchain⟩, ?_, ?_⟩
        · intro x hx
          rcases List.mem_cons.1 hx with rfl | hx
          · exact hsound
          · exact hall x hx
        · intro hw x hx
          cases hx
          exact hfirst hw
        · intro p hp x hx
          cases hx
          exact hnext p hp

variable {strict : Bool} {text : Text} {es : List Entry}

theorem parse_isSound (h : parse strict text = .ok es) : ∀ e ∈ es, e.IsSound := (readLines_ok h).1

theorem parse_nested (h : parse strict text = .ok es) : Nested es :=
  ⟨(readLines_ok h).2.2.1 rfl, (readLines_ok h).2.1⟩

end Layout

end TreePlan
