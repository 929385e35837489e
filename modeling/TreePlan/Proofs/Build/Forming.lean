import TreePlan.Proofs.Build.Built
import TreePlan.Proofs.FileSystem.Vacancy

/-! The node of an entry. The steps of an entry come to a vacancy and stay with the node they make there, so what
becomes of it can be said in view of the directory that holds it and of nothing else. -/

namespace TreePlan

open FileSystem (EndInName NewNode Changes changing? effect)

namespace Plan

/-- The steps that make the node of an entry and give it to its owners. -/
def making (encoding : Text) (e : Entry) (path : Path) : List (Except Failure Call) :=
  nodeSteps encoding e path ++ (ownerCalls e path).map .ok

end Plan

namespace Build

/-- What steps make of a node. -/
inductive Changed : List (Except Failure Call) → Node → Node → Prop where
  | done {n : Node} : Changed [] n n
  | step {c : Call} {rest : List (Except Failure Call)} {n m l : Node} :
      Changes c n m → Changed rest m l → Changed (.ok c :: rest) n l

/-- The node that steps form in a directory: the first makes it and the others change it. -/
inductive Formed (parent : Node) : List (Except Failure Call) → Node → Prop where
  | intro {c : Call} {rest : List (Except Failure Call)} {n m : Node} :
      NewNode parent c n → Changed rest n m → Formed parent (.ok c :: rest) m

/-- A call changes the node that a path leads to, which is no symlink if links are followed. -/
def Suits (p : Path) (n : Node) (c : Call) : Prop :=
  c.path? = some p ∧ ∃ ending, changing? c = some ending ∧
    (ending = .kept ∨ ending = .followed ∧ n.target? = none)

variable {fs gs : FileSystem} {a : Address} {p : Path} {index : Nat} {n m l parent : Node} {c : Call}
  {rest rest' : List (Except Failure Call)} {encoding : Text} {e : Entry}

theorem Suits.of_changes (h : Suits p n c) {c' : Call} (hc : Changes c' n m) : Suits p m c := by
  obtain ⟨hp, ending, hending, he⟩ := h
  exact ⟨hp, ending, hending, he.imp_right fun he => ⟨he.1, hc.target?_eq.trans he.2⟩⟩

theorem carriedOut_changed (hvac : fs.LeadsToVacancy p.toText a) (hend : EndInName (systemNames p.toText))
    (hrest : ∀ c, .ok c ∈ rest → Suits p n c) :
    CarriedOut (rest.map (Step.mk index)) (fs.put a n) none gs ↔ ∃ m, Changed rest n m ∧ gs = fs.put a m := by
  induction rest generalizing n with
  | nil =>
    rw [List.map_nil, carriedOut_nil]
    refine ⟨fun h => ⟨n, .done, h.2⟩, ?_⟩
    rintro ⟨_, ⟨⟩, rfl⟩
    exact ⟨rfl, rfl⟩
  | cons x rest ih =>
    cases x with
    | error f =>
      rw [List.map_cons, carriedOut_cons_error]
      refine iff_of_false ?_ ?_
      · rintro ⟨s, -, ⟨⟩, -⟩
      · rintro ⟨m, ⟨⟩, -⟩
    | ok c =>
      obtain ⟨hp, ending, hc, he⟩ := hrest c List.mem_cons_self
      obtain ⟨d, y, hl, rfl⟩ := hvac
      have hgrows := FileSystem.grows_put (FileSystem.node?_of_locate_vacant hl) n
      have hfind := FileSystem.find_of_locate_vacant hl hgrows.extends hgrows.node?_self hend he
      have hnext {m : Node} (hm : Changes c n m) :
          CarriedOut (rest.map (Step.mk index)) (fs.put (d ++ [y]) m) none gs ↔
            ∃ l, Changed rest m l ∧ gs = fs.put (d ++ [y]) l :=
        ih fun c' hc' => (hrest c' (List.mem_cons_of_mem _ hc')).of_changes hm
      rw [List.map_cons, carriedOut_cons]
      refine ⟨?_, ?_⟩
      · rintro (⟨hs, heff, h⟩ | ⟨_, _, -, -, ⟨⟩, -⟩)
        obtain ⟨m, hm, rfl⟩ := (FileSystem.effect_eq_ok_iff_changes hc hp hfind).1 heff
        rw [FileSystem.put_put, hnext hm] at h
        obtain ⟨l, hl, rfl⟩ := h
        exact ⟨l, .step hm hl, rfl⟩
      · rintro ⟨l, hl, rfl⟩
        cases hl with
        | step hm hl =>
          refine .inl ⟨_, (FileSystem.effect_eq_ok_iff_changes hc hp hfind).2 ⟨_, hm, rfl⟩, ?_⟩
          rw [FileSystem.put_put, hnext hm]
          exact ⟨l, hl, rfl⟩

/-- Steps are carried out at a vacancy just when the directory that is to hold it may be written to and they form
a node there, and then that node is all that is new. -/
theorem carriedOut_formed {k : NodeKind} (hvac : fs.LeadsToVacancy p.toText a)
    (hend : EndInName (systemNames p.toText)) (hk : FileSystem.kindMade? c = some k) (hp : c.path? = some p)
    (hrest : ∀ parent n, NewNode parent c n → ∀ c', .ok c' ∈ rest → Suits p n c') :
    CarriedOut ((.ok c :: rest).map (Step.mk index)) fs none gs ↔
      ∃ parent n, fs.node? a.dropLast = some parent ∧ parent.grants .write = true ∧
        Formed parent (.ok c :: rest) n ∧ gs = fs.put a n := by
  rw [List.map_cons, carriedOut_cons]
  refine ⟨?_, ?_⟩
  · rintro (⟨hs, heff, h⟩ | ⟨_, _, -, -, ⟨⟩, -⟩)
    obtain ⟨parent, n, hparent, hw, hn, rfl⟩ := (FileSystem.effect_eq_ok_iff_newNode hk hp hvac).1 heff
    obtain ⟨m, hm, rfl⟩ := (carriedOut_changed hvac hend (hrest _ _ hn)).1 h
    exact ⟨parent, m, hparent, hw, .intro hn hm, rfl⟩
  · rintro ⟨parent, m, hparent, hw, hm, rfl⟩
    cases hm with
    | intro hn hm =>
      have heff := (FileSystem.effect_eq_ok_iff_newNode hk hp hvac).2 ⟨parent, _, hparent, hw, hn, rfl⟩
      refine .inl ⟨_, heff, ?_⟩
      exact (carriedOut_changed hvac hend (hrest _ _ hn)).2 ⟨m, hm, rfl⟩

theorem suits_of_ownerCalls (h : c ∈ Plan.ownerCalls e p) (he : e.isSymlink = true ∨ n.target? = none) :
    Suits p n c := by
  unfold Plan.ownerCalls at h
  split at h
  · obtain rfl := List.mem_singleton.1 h
    refine ⟨rfl, _, rfl, ?_⟩
    cases hl : e.isSymlink with
    | true => exact .inl rfl
    | false => exact .inr ⟨rfl, he.resolve_left (by simp [hl])⟩
  · cases h

/-- The first step of an entry makes its node, and the others suit it. -/
theorem making_eq_cons (encoding : Text) (e : Entry) (p : Path) :
    ∃ c rest k, Plan.making encoding e p = .ok c :: rest ∧
      FileSystem.kindMade? c = some k ∧ c.path? = some p ∧
      ∀ parent n, NewNode parent c n → ∀ c', .ok c' ∈ rest → Suits p n c' := by
  have howner {n : Node} {c' : Call}
      (h : (Except.ok c' : Except Failure Call) ∈ (Plan.ownerCalls e p).map .ok)
      (he : e.isSymlink = true ∨ n.target? = none) : Suits p n c' := by
    obtain ⟨c, hc, ⟨⟩⟩ := List.mem_map.1 h
    exact suits_of_ownerCalls hc he
  unfold Plan.making Plan.nodeSteps
  split
  · refine ⟨_, _, _, rfl, rfl, rfl, fun parent n hn c' hc' => howner hc' (.inr ?_)⟩
    cases hn with
    | directory => rfl
  · cases ht : e.target with
    | some target =>
      refine ⟨_, _, _, rfl, rfl, rfl, fun parent n hn c' hc' => howner hc' (.inl ?_)⟩
      rw [Entry.isSymlink, ht]
      rfl
    | none =>
      refine ⟨_, _, _, rfl, rfl, rfl, fun parent n hn c' hc' => ?_⟩
      have htarget : n.target? = none := by
        cases hn with
        | file => rfl
      rcases List.mem_append.1 hc' with hc' | hc'
      · rcases List.mem_append.1 hc' with hc' | hc'
        · obtain ⟨content, -, hc'⟩ := List.mem_map.1 hc'
          obtain ⟨bytes, -, rfl⟩ := map_eq_ok_iff.1 hc'
          exact ⟨rfl, _, rfl, .inr ⟨rfl, htarget⟩⟩
        · obtain ⟨m, -, ⟨⟩⟩ := List.mem_map.1 hc'
          exact ⟨rfl, _, rfl, .inr ⟨rfl, htarget⟩⟩
      · exact howner hc' (.inr htarget)

theorem carriedOut_making_iff (hvac : fs.LeadsToVacancy p.toText a) (hend : EndInName (systemNames p.toText)) :
    CarriedOut ((Plan.making encoding e p).map (Step.mk index)) fs none gs ↔
      ∃ parent n, fs.node? a.dropLast = some parent ∧ parent.grants .write = true ∧
        Formed parent (Plan.making encoding e p) n ∧ gs = fs.put a n := by
  obtain ⟨c, rest, k, hmaking, hk, hp, hrest⟩ := making_eq_cons encoding e p
  rw [hmaking]
  exact carriedOut_formed hvac hend hk hp hrest

/-- The steps of an entry are carried out nowhere but at a vacancy. -/
theorem leadsToVacancy_of_making (hend : EndInName (systemNames p.toText))
    (h : CarriedOut ((Plan.making encoding e p).map (Step.mk index)) fs none gs) :
    ∃ a, fs.LeadsToVacancy p.toText a := by
  obtain ⟨c, rest, k, hmaking, hk, hp, -⟩ := making_eq_cons encoding e p
  rw [hmaking, List.map_cons] at h
  rcases carriedOut_cons.1 h with ⟨hs, heff, -⟩ | ⟨_, _, -, -, ⟨⟩, -⟩
  obtain ⟨a, hf⟩ := FileSystem.effect_fills hk hp hend heff
  exact ⟨a, hf.vacancy⟩

theorem entrySteps_eq_making (root : Path) (encoding : Text) (earlier : List Entry) (e : Entry) :
    Plan.entrySteps root encoding earlier e = visits earlier.length (Plan.moves root earlier e) ++
      (Plan.making encoding e (Plan.path root earlier e)).map (Step.mk earlier.length) := by
  rw [entrySteps_eq, Plan.making, List.map_append]

end Build

end TreePlan
