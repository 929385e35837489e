import Mathlib
import TreePlan.Proofs.Build.Blocks
import TreePlan.Proofs.Layout.Completion
import TreePlan.Proofs.Layout.Joining

/-! Layouts that are as wide as each other, one below the other. They are blocks side by side, and it makes no
difference to what is built which of them comes first. -/

namespace TreePlan.Layout

open Build

open Utf8 (encodeName)

variable {fs gs : FileSystem} {now s t : Text} {input : Bytes} {place : Option Text} {settings : Option Settings}
  {status : Status} {base : Address} {strict : Bool} {es xs : List Entry} {p q : Text × Nat}

theorem parse_beside (hs : parse strict s = .ok es) (ht : parse strict t = .ok xs)
    (hp : (textRows s).head? = some p) (hq : (textRows t).head? = some q) (hw : width p.1 = width q.1) :
    parse strict (s ++ CodePoint.ofChar '\n' :: t) =
      .ok (es ++ xs.map (Entry.shifted 0 (Text.splitOn '\n' s).length)) := by
  rw [parse_eq] at hs
  obtain ⟨⟨es, ctx⟩, hread, rfl⟩ := map_eq_ok_iff.1 hs
  obtain ⟨ps, hps⟩ := List.head?_eq_some_iff.1 hp
  have hground : Grounded (width q.1) ctx.indents := hw ▸ grounded_of_readRows (hps ▸ hread)
  exact parse_above hread ht hq hground.turn

theorem unlined_shifted (n : Nat) : Entry.unlined ∘ Entry.shifted 0 n = Entry.unlined := by
  funext e
  simp [Entry.unlined, Entry.shifted, Entry.placed]

/-- What is built of a block is no matter of how far down the text it stands. -/
theorem steps_shifted (root : Path) (encoding : Text) (es xs : List Entry) (n : Nat) :
    Plan.steps root encoding (es ++ xs.map (Entry.shifted 0 n)) = Plan.steps root encoding (es ++ xs) := by
  rw [← Plan.steps_unlined, List.map_append, List.map_map, unlined_shifted, ← List.map_append,
    Plan.steps_unlined]

theorem paths_shifted (root : Path) (es xs : List Entry) (n : Nat) :
    Plan.paths root (es ++ xs.map (Entry.shifted 0 n)) = Plan.paths root (es ++ xs) := by
  rw [← Plan.paths_unlined, List.map_append, List.map_map, unlined_shifted, ← List.map_append,
    Plan.paths_unlined]

/-- Layouts beside each other are well built just when the plan of both blocks has been carried out. -/
theorem create_beside_iff (hquiet : logOf settings none = none) (hs : parse (strictOf settings) s = .ok es)
    (ht : parse (strictOf settings) t = .ok xs) (hp : (textRows s).head? = some p)
    (hq : (textRows t).head? = some q) (hw : width p.1 = width q.1) :
    ((create (FileSystem.host now input) (s ++ CodePoint.ofChar '\n' :: t) place settings none).run fs =
        (.ok status, gs) ∧ status.ok = true) ↔
      fs.checkPlace place = .ok () ∧
        CarriedOut (Plan.steps (fs.placePath place) (encodingOf settings) (es ++ xs)) fs none gs ∧
        status = .ofPaths (Plan.paths (fs.placePath place) (es ++ xs)) := by
  rw [create_well_iff hquiet, parse_beside hs ht hp hq hw]
  simp only [Except.ok.injEq, exists_eq_left', steps_shifted, paths_shifted]

/-- What is well built in one order is well built in the other, and comes to the same. -/
theorem create_swapped (hbase : fs.LeadsToDirectory (fs.placePath place) base)
    (hquiet : logOf settings none = none) (hs : parse (strictOf settings) s = .ok es)
    (ht : parse (strictOf settings) t = .ok xs) (hp : (textRows s).head? = some p)
    (hq : (textRows t).head? = some q) (hw : width p.1 = width q.1)
    (h : (create (FileSystem.host now input) (s ++ CodePoint.ofChar '\n' :: t) place settings none).run fs =
      (.ok status, gs)) (hok : status.ok = true) :
    ∃ status' hs,
      (create (FileSystem.host now input) (t ++ CodePoint.ofChar '\n' :: s) place settings none).run fs =
        (.ok status', hs) ∧ status'.ok = true ∧ gs.Same hs ∧ status.created.Perm status'.created := by
  obtain ⟨hplace, hrun, rfl⟩ := (create_beside_iff hquiet hs ht hp hq hw).1 ⟨h, hok⟩
  have hes := parse_nested hs
  have hxs := parse_nested ht
  obtain ⟨ms, hrun', hsame⟩ := carriedOut_swap hbase hes hxs (parse_isSound hs) (parse_isSound ht) hrun
  obtain ⟨hcreate, hok'⟩ := (create_beside_iff hquiet ht hs hq hp hw.symm).2 ⟨hplace, hrun', rfl⟩
  refine ⟨_, ms, hcreate, hok', hsame, ?_⟩
  show ((Plan.paths _ _).map Path.toText).Perm ((Plan.paths _ _).map Path.toText)
  rw [paths_append _ es hxs, paths_append _ xs hes]
  exact List.perm_append_comm.map _

/-- Two layouts whose first lines are equally wide can be written in either order: building them is well in both
orders or in neither, and if it is well, the states are the same, and so are the paths made but for their order. -/
theorem create_siblings_comm (hbase : fs.LeadsToDirectory (fs.placePath place) base)
    (hquiet : logOf settings none = none) (hs : parse (strictOf settings) s = .ok es)
    (ht : parse (strictOf settings) t = .ok xs) (hp : (textRows s).head? = some p)
    (hq : (textRows t).head? = some q) (hw : width p.1 = width q.1) :
    ((∃ status gs,
        (create (FileSystem.host now input) (s ++ CodePoint.ofChar '\n' :: t) place settings none).run fs =
          (.ok status, gs) ∧ status.ok = true) ↔
      ∃ status gs,
        (create (FileSystem.host now input) (t ++ CodePoint.ofChar '\n' :: s) place settings none).run fs =
          (.ok status, gs) ∧ status.ok = true) ∧
      ∀ status gs status' hs,
        (create (FileSystem.host now input) (s ++ CodePoint.ofChar '\n' :: t) place settings none).run fs =
          (.ok status, gs) → status.ok = true →
        (create (FileSystem.host now input) (t ++ CodePoint.ofChar '\n' :: s) place settings none).run fs =
          (.ok status', hs) → gs.Same hs ∧ status.created.Perm status'.created := by
  refine ⟨⟨?_, ?_⟩, ?_⟩
  · rintro ⟨status, gs, h, hok⟩
    obtain ⟨status', ms, h', hok', -⟩ := create_swapped hbase hquiet hs ht hp hq hw h hok
    exact ⟨status', ms, h', hok'⟩
  · rintro ⟨status, gs, h, hok⟩
    obtain ⟨status', ms, h', hok', -⟩ := create_swapped hbase hquiet ht hs hq hp hw.symm h hok
    exact ⟨status', ms, h', hok'⟩
  · intro status gs status' ms h hok h'
    obtain ⟨status₂, ms₂, h₂, -, hsame, hperm⟩ := create_swapped hbase hquiet hs ht hp hq hw h hok
    rw [h'] at h₂
    cases h₂
    exact ⟨hsame, hperm⟩

/-- A directory with a file in it. -/
def treeText : Text := "a/(700)\n  f \"content\":\"x\""

/-- A symlink to that directory. -/
def linkText : Text := "l -> a"

theorem create_siblings_comm_site : ∃ status gs status' hs,
    (create (FileSystem.host [] []) (treeText ++ CodePoint.ofChar '\n' :: linkText) (some "/www") none none).run
        site = (.ok status, gs) ∧
      (create (FileSystem.host [] []) (linkText ++ CodePoint.ofChar '\n' :: treeText) (some "/www") none none).run
        site = (.ok status', hs) ∧
      gs.Same hs ∧ status.created = ["/www/a", "/www/a/f", "/www/l"] ∧
      status'.created.Perm status.created := by
  have hbase : site.LeadsToDirectory (site.placePath (some "/www")) [encodeName "srv"] :=
    ⟨FileSystem.rootNode, by cbv, rfl⟩
  have hquiet : logOf none none = none := rfl
  have htree : parse false treeText = .ok
      [{ name := "a", level := 0, line := 1, isDirectory := true, mode := some 0o700, modeText := some "700" },
        { name := "f", level := 1, line := 2, content := some "x" }] := by
    cbv
  have hlink : parse false linkText = .ok [{ name := "l", level := 0, line := 1, target := some "a" }] := by cbv
  have hp : (textRows treeText).head? = some (Text.ofString "a/(700)", 1) := by cbv
  have hq : (textRows linkText).head? = some (linkText, 1) := by cbv
  obtain ⟨status, gs, h, hok, hcreated⟩ : ∃ status gs, (create (FileSystem.host [] [])
      (treeText ++ CodePoint.ofChar '\n' :: linkText) (some "/www") none none).run site = (.ok status, gs) ∧
        status.ok = true ∧ status.created = ["/www/a", "/www/a/f", "/www/l"] :=
    ⟨_, _, by cbv, by cbv, by cbv⟩
  obtain ⟨hiff, hsame⟩ := create_siblings_comm hbase hquiet htree hlink hp hq rfl
  obtain ⟨status', hs, h', -⟩ := hiff.1 ⟨status, gs, h, hok⟩
  obtain ⟨hsame, hperm⟩ := hsame status gs status' hs h hok h'
  exact ⟨status, gs, status', hs, h, h', hsame, hcreated, hperm.symm⟩

end TreePlan.Layout
