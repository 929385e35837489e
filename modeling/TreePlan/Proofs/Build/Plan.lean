import TreePlan.Build.Entries
import TreePlan.Proofs.Layout.Nesting

/-! The plan of a layout: which calls building it takes, said without a cursor. An entry stands below
the nearest entries before it of each lesser level, and the way to it leads down into the entry before
or up through the directories above that one. -/

namespace TreePlan

open Layout (Follows Nested)

namespace Plan

/-- The nearest entry of a level among those before. -/
def nearest? (earlier : List Entry) (level : Nat) : Option Entry :=
  earlier.reverse.find? fun e => e.level = level

/-- The names that lead from the root to where an entry of a level is built. -/
def leading (earlier : List Entry) (level : Nat) : List Text :=
  (List.range level).map fun k => ((nearest? earlier k).map Entry.name).getD []

def names (earlier : List Entry) (e : Entry) : List Text := leading earlier e.level.toNat ++ [e.name]

def path (root : Path) (earlier : List Entry) (e : Entry) : Path := root.below (names earlier e)

/-- The directories above a path, one after the other. -/
def ascents : Nat → Path → List Path
  | 0, _ => []
  | n + 1, p => p.parent :: ascents n p.parent

/-- What is visited on the way from the entry before: that entry, which is a directory, to go down, or
the directories above its own to go up. -/
def moves (root : Path) (earlier : List Entry) (e : Entry) : List Path :=
  match earlier.getLast? with
  | none => []
  | some p =>
    let previous := path root earlier.dropLast p
    if p.level < e.level then [previous]
    else ascents (p.level - e.level).toNat previous.parent

/-- The calls that build an entry. A symlink takes no content and no mode. -/
def nodeCalls (encode : Text → Bytes) (e : Entry) (path : Path) : List Call :=
  if e.isDirectory then [.makeDirectory path e.mode]
  else
    match e.target with
    | some target => [.link target path]
    | none =>
      .createFile path :: (e.content.toList.map fun c => .write path (encode c))
        ++ e.mode.toList.map fun m => .setMode path m

def ownerCalls (e : Entry) (path : Path) : List Call :=
  if e.hasOwnership then [.setOwner path e.owner e.group (!e.isSymlink)] else []

def entryCalls (root : Path) (encode : Text → Bytes) (earlier : List Entry) (e : Entry) : List Call :=
  (moves root earlier e).map .visit ++ nodeCalls encode e (path root earlier e)
    ++ ownerCalls e (path root earlier e)

/-- Something for each entry, in view of those before it. -/
def eachFrom {β : Type} (f : List Entry → Entry → β) (earlier : List Entry) : List Entry → List β
  | [] => []
  | e :: rest => f earlier e :: eachFrom f (earlier ++ [e]) rest

def each {β : Type} (f : List Entry → Entry → β) (es : List Entry) : List β := eachFrom f [] es

def paths (root : Path) (es : List Entry) : List Path := each (path root) es

def moved (root : Path) (es : List Entry) : List Path := (each (moves root) es).flatten

def calls (root : Path) (encode : Text → Bytes) (es : List Entry) : List Call :=
  (each (entryCalls root encode) es).flatten

theorem eachFrom_append {β : Type} (f : List Entry → Entry → β) (earlier es fs : List Entry) :
    eachFrom f earlier (es ++ fs) = eachFrom f earlier es ++ eachFrom f (earlier ++ es) fs := by
  induction es generalizing earlier with
  | nil => simp [eachFrom]
  | cons e es ih => simp [eachFrom, ih]

theorem each_append_singleton {β : Type} (f : List Entry → Entry → β) (es : List Entry)
    (e : Entry) : each f (es ++ [e]) = each f es ++ [f es e] := by
  simp [each, eachFrom_append, eachFrom]

theorem map_each {β γ : Type} (g : β → γ) (f : List Entry → Entry → β) (es : List Entry) :
    (each f es).map g = each (fun earlier e => g (f earlier e)) es := by
  induction es using List.reverseRecOn with
  | nil => rfl
  | append_singleton es e ih => simp [each_append_singleton, ih]

theorem length_each {β : Type} (f : List Entry → Entry → β) (es : List Entry) :
    (each f es).length = es.length := by
  induction es using List.reverseRecOn with
  | nil => rfl
  | append_singleton es e ih => simp [each_append_singleton, ih]

/-- An entry of a longer list is the last or one of those before. -/
theorem append_singleton_eq_split {es init rest : List Entry} {e x : Entry} :
    es ++ [e] = init ++ x :: rest ↔
      (rest = [] ∧ init = es ∧ x = e) ∨ ∃ rest', rest = rest' ++ [e] ∧ es = init ++ x :: rest' := by
  refine ⟨?_, ?_⟩
  · intro h
    rcases List.eq_nil_or_concat rest with rfl | ⟨rest', y, rfl⟩
    · obtain ⟨rfl, hx⟩ := List.append_inj' h rfl
      exact .inl ⟨rfl, rfl, (List.singleton_inj.1 hx).symm⟩
    · rw [List.concat_eq_append, ← List.cons_append, ← List.append_assoc] at h
      obtain ⟨rfl, hy⟩ := List.append_inj' h rfl
      exact .inr ⟨rest', by rw [List.concat_eq_append, List.singleton_inj.1 hy], rfl⟩
  · intro h
    rcases h with ⟨rfl, rfl, rfl⟩ | ⟨rest', rfl, rfl⟩
    · rfl
    · simp

theorem mem_each {β : Type} {f : List Entry → Entry → β} {es : List Entry} {b : β} :
    b ∈ each f es ↔ ∃ init e rest, es = init ++ e :: rest ∧ f init e = b := by
  induction es using List.reverseRecOn with
  | nil => simp [each, eachFrom]
  | append_singleton es e ih =>
    rw [each_append_singleton, List.mem_append, List.mem_singleton, ih]
    simp only [append_singleton_eq_split]
    refine ⟨?_, ?_⟩
    · intro h
      rcases h with ⟨init, x, rest, rfl, rfl⟩ | rfl
      · exact ⟨init, x, rest ++ [e], .inr ⟨rest, rfl, rfl⟩, rfl⟩
      · exact ⟨es, e, [], .inl ⟨rfl, rfl, rfl⟩, rfl⟩
    · intro h
      obtain ⟨init, x, rest, ⟨rfl, rfl, rfl⟩ | ⟨rest', rfl, rfl⟩, rfl⟩ := h
      · exact .inr rfl
      · exact .inl ⟨init, x, rest', rfl, rfl⟩

theorem each_congr {β : Type} {f g : List Entry → Entry → β} {es : List Entry}
    (h : ∀ init e rest, es = init ++ e :: rest → f init e = g init e) : each f es = each g es := by
  induction es using List.reverseRecOn with
  | nil => rfl
  | append_singleton es e ih =>
    rw [each_append_singleton, each_append_singleton, h es e [] rfl, ih fun init x rest he => ?_]
    exact h init x (rest ++ [e]) (append_singleton_eq_split.2 (.inr ⟨rest, rfl, he⟩))

variable {earlier : List Entry} {e p : Entry}

theorem nearest?_append_singleton (earlier : List Entry) (e : Entry) (k : Nat) :
    nearest? (earlier ++ [e]) k = if e.level = k then some e else nearest? earlier k := by
  unfold nearest?
  rw [List.reverse_append, List.reverse_singleton, List.singleton_append, List.find?_cons]
  by_cases h : e.level = k <;> simp [h]

theorem length_leading (earlier : List Entry) (n : Nat) : (leading earlier n).length = n := by
  simp [leading]

theorem take_leading (earlier : List Entry) {n m : Nat} (h : n ≤ m) :
    (leading earlier m).take n = leading earlier n := by
  simp [leading, ← List.map_take, List.take_range, Nat.min_eq_left h]

/-- An entry does not change what leads to its own level. -/
theorem leading_append_singleton (earlier : List Entry) (e : Entry) {n : Nat}
    (h : (n : Int) ≤ e.level) : leading (earlier ++ [e]) n = leading earlier n := by
  unfold leading
  refine List.map_congr_left fun k hk => ?_
  have hk : k < n := List.mem_range.1 hk
  rw [nearest?_append_singleton, if_neg (by omega)]

/-- Below an entry its own name comes last. -/
theorem leading_append_singleton_succ (earlier : List Entry) {e : Entry} (h : 0 ≤ e.level) :
    leading (earlier ++ [e]) (e.level.toNat + 1) = names earlier e := by
  have hlast : nearest? (earlier ++ [e]) e.level.toNat = some e := by
    rw [nearest?_append_singleton, if_pos (by omega)]
  have hinit := leading_append_singleton earlier e (n := e.level.toNat) (by omega)
  unfold leading at hinit ⊢
  rw [List.range_succ, List.map_append, hinit, List.map_singleton, hlast]
  rfl

theorem parent_path (root : Path) (earlier : List Entry) (e : Entry) :
    (path root earlier e).parent = root.below (leading earlier e.level.toNat) :=
  Path.parent_below ..

theorem length_ascents (n : Nat) (p : Path) : (ascents n p).length = n := by
  induction n generalizing p with
  | zero => rfl
  | succ n ih => simp [ascents, ih]

/-- The last of some ascents is as many names shorter. -/
theorem getLast?_ascents (root : Path) (names : List Text) {n : Nat} (h : n < names.length) :
    (ascents (n + 1) (root.below names)).getLast? =
      some (root.below (names.take (names.length - (n + 1)))) := by
  induction n generalizing names with
  | zero => simp [ascents, Path.below, Path.parent, List.dropLast_append_of_ne_nil
      (List.ne_nil_of_length_pos h), List.dropLast_eq_take]
  | succ n ih =>
    obtain ⟨init, last, rfl⟩ := List.eq_nil_or_concat names |>.resolve_left
      (List.ne_nil_of_length_pos (by omega))
    rw [List.concat_eq_append, List.length_append, List.length_singleton] at h ⊢
    rw [ascents, Path.parent_below, List.getLast?_cons, ih init (by omega)]
    simp only [Option.getD_some]
    rw [show init.length + 1 - (n + 1 + 1) = init.length - (n + 1) by omega,
      List.take_append_of_le_length (by omega)]

/-- All levels above one are open, which is to say that a directory stands at each. -/
def Open (earlier : List Entry) (level : Nat) : Prop :=
  ∀ k < level, ∃ d, nearest? earlier k = some d ∧ d.isDirectory = true

theorem open_of_nested {es : List Entry} (h : Nested (es ++ [e])) : Open es e.level.toNat := by
  induction es using List.reverseRecOn generalizing e with
  | nil =>
    intro k hk
    have := h.head e (by simp)
    omega
  | append_singleton es p ih =>
    have hes := h.append_left
    have hp := hes.level_nonneg
    have hf : Follows p e := h.follows (by simp)
    intro k hk
    rw [nearest?_append_singleton]
    split
    · next hk' =>
      refine ⟨p, rfl, ?_⟩
      rcases hf.2 with hl | ⟨-, hd⟩
      · omega
      · exact hd
    · next hk' =>
      apply ih hes k
      rcases hf.2 with hl | ⟨hl, -⟩ <;> omega

theorem take_names (earlier : List Entry) {k : Nat} (hk : k ≤ e.level.toNat) :
    (names earlier e).take k = leading earlier k := by
  rw [names, List.take_append_of_le_length (by rwa [length_leading]), take_leading earlier hk]

/-- The names that lead to an entry are those of a directory before it, if there are any. -/
theorem exists_names_eq_leading (hn : Nested (earlier ++ [e])) {k : Nat} (h0 : 0 < k) (hk : k ≤ e.level.toNat) :
    ∃ init d rest, earlier = init ++ d :: rest ∧ d.isDirectory = true ∧ names init d = leading earlier k := by
  induction earlier using List.reverseRecOn generalizing e with
  | nil =>
    have := hn.head e (by simp)
    omega
  | append_singleton init p ih =>
    have hp := hn.append_left.level_nonneg
    have hf : Layout.Follows p e := hn.follows (by simp)
    by_cases hle : k ≤ p.level.toNat
    · obtain ⟨init', d, rest, rfl, hd, hnames⟩ := ih hn.append_left hle
      refine ⟨init', d, rest ++ [p], by simp, hd, ?_⟩
      rw [hnames, leading_append_singleton _ p (by omega)]
    · obtain ⟨hlevel, hd⟩ : e.level = p.level + 1 ∧ p.isDirectory = true := hf.2.resolve_left (by omega)
      obtain rfl : k = p.level.toNat + 1 := by omega
      exact ⟨init, p, [], rfl, hd, (leading_append_singleton_succ init hp).symm⟩

theorem isName_of_mem_names (hn : Nested (earlier ++ [e])) (hsound : ∀ x ∈ earlier ++ [e], x.IsSound)
    {n : Text} (h : n ∈ names earlier e) : IsName n := by
  rcases List.mem_append.1 h with h | h
  · unfold leading at h
    obtain ⟨k, hk, rfl⟩ := List.mem_map.1 h
    obtain ⟨d, hd, -⟩ := open_of_nested hn k (List.mem_range.1 hk)
    rw [hd]
    unfold nearest? at hd
    have hmem : d ∈ earlier := List.mem_reverse.1 (List.mem_of_find?_eq_some hd)
    exact (hsound d (List.mem_append_left _ hmem)).name
  · rw [List.mem_singleton.1 h]
    exact (hsound e (by simp)).name

theorem length_moves {es : List Entry} (root : Path) (h : Nested (es ++ [e]))
    (hp : p ∈ es.getLast?) : (moves root es e).length = (e.level - p.level).natAbs := by
  have hf := h.follows hp
  unfold moves
  rw [hp]
  dsimp only
  split
  · rcases hf.2 with hl | ⟨hl, -⟩ <;> simp <;> omega
  · rw [length_ascents]
    omega

theorem mem_ascents {root q : Path} {n : Nat} {names : List Text} (hn : n ≤ names.length)
    (hq : q ∈ ascents n (root.below names)) : ∃ k < names.length, q = root.below (names.take k) := by
  induction n generalizing names with
  | zero => cases hq
  | succ n ih =>
    obtain ⟨init, z, rfl⟩ := (List.eq_nil_or_concat names).resolve_left (by rintro rfl; simp at hn)
    rw [List.concat_eq_append] at *
    rw [ascents, Path.parent_below] at hq
    have htake : ∀ k ≤ init.length, (init ++ [z]).take k = init.take k := fun k hk =>
      List.take_append_of_le_length hk
    rcases List.mem_cons.1 hq with rfl | hq
    · exact ⟨init.length, by simp, by rw [htake _ le_rfl, List.take_length]⟩
    · obtain ⟨k, hk, rfl⟩ := ih (by simpa using hn) hq
      exact ⟨k, by rw [List.length_append]; omega, by rw [htake k hk.le]⟩

/-- What is visited is the root or a directory that has been made before. -/
theorem mem_moves {root q : Path} (hn : Nested (earlier ++ [e])) (hq : q ∈ moves root earlier e) :
    q = root ∨ ∃ init d rest, earlier = init ++ d :: rest ∧ d.isDirectory = true ∧ q = path root init d := by
  induction earlier using List.reverseRecOn with
  | nil => cases hq
  | append_singleton init p _ =>
    have hp := hn.append_left.level_nonneg
    have hf : Layout.Follows p e := hn.follows (by simp)
    unfold moves at hq
    rw [List.getLast?_concat, List.dropLast_concat] at hq
    dsimp only at hq
    split at hq
    · obtain rfl := List.mem_singleton.1 hq
      have hd : p.isDirectory = true := (hf.2.resolve_left (by omega)).2
      exact .inr ⟨init, p, [], rfl, hd, rfl⟩
    · rw [parent_path] at hq
      have he := hn.level_nonneg
      obtain ⟨k, hk, rfl⟩ := mem_ascents (by rw [length_leading]; omega) hq
      rw [length_leading] at hk
      rw [take_leading init hk.le]
      rcases Nat.eq_zero_or_pos k with rfl | h0
      · exact .inl (Path.below_nil root)
      · obtain ⟨init', d, rest, rfl, hd, hnames⟩ := exists_names_eq_leading hn.append_left h0 hk.le
        refine .inr ⟨init', d, rest ++ [p], by simp, hd, ?_⟩
        rw [path, hnames]

theorem getLast?_flatten_append {β : Type} (ls : List (List β)) (l : List β) (b : β) :
    ((ls ++ [l]).flatten.getLast?).getD b = l.getLast?.getD (ls.flatten.getLast?.getD b) := by
  rw [List.flatten_append, List.getLast?_append]
  cases h : l.getLast? <;> simp [h]

/-- What was visited last, or else the root, is where the next node is made. -/
theorem moved_getLast {es : List Entry} (root : Path) (h : Nested (es ++ [e])) :
    (moved root (es ++ [e])).getLast?.getD root = (path root es e).parent := by
  induction es using List.reverseRecOn generalizing e with
  | nil =>
    have := h.head e (by simp)
    simp [moved, each, eachFrom, moves, parent_path, this, leading, Path.below_nil]
  | append_singleton es p ih =>
    have hes := h.append_left
    have hp := hes.level_nonneg
    have he := h.level_nonneg
    have hf : Follows p e := h.follows (by simp)
    have hlast := ih hes
    rw [moved, each_append_singleton, getLast?_flatten_append, ← moved, hlast, parent_path,
      parent_path]
    unfold moves
    rw [List.getLast?_concat, List.dropLast_concat]
    dsimp only
    split
    · next hlt =>
      have hl : e.level.toNat = p.level.toNat + 1 := by rcases hf.2 with hl | ⟨hl, -⟩ <;> omega
      rw [hl, leading_append_singleton_succ es hp]
      rfl
    · next hge =>
      rw [parent_path]
      obtain ⟨n, hn⟩ : ∃ n, (p.level - e.level).toNat = n := ⟨_, rfl⟩
      rw [hn]
      cases n with
      | zero =>
        rw [show e.level.toNat = p.level.toNat by omega, leading_append_singleton es p (by omega)]
        rfl
      | succ n =>
        rw [getLast?_ascents root _ (by rw [length_leading]; omega), Option.getD_some, length_leading,
          take_leading es (by omega), leading_append_singleton es p (by omega)]
        congr 2
        omega

end Plan

end TreePlan
