import TreePlan.Proofs.Build.Descent

/-! What a located failure of a run says of the errand it came from, and what that is at a write: the
system has refused to take the content, or the content has not been encoded. -/

namespace TreePlan

open Run (Ends)

namespace Build

open Cursor (standing)

variable {o : Options} {open? : Option Path} {errand : Errand} {a : Attempt} {f : Failure} {s : Stop}
  {l : Located} {log tail : List Exchange} {root : Path} {es earlier later : List Entry} {e : Entry}
  {encoding content : Text}

/-- A file that fails to close is not located, so a located stop was there before. -/
theorem Parts.eq_located (h : Parts s open? tail (.located l)) : s = .located l := by
  cases h with
  | nothing => rfl
  | closed => rfl

theorem Tells.operation_eq_trace {error : Option Text}
    (h : Tells o a error log (.error (.located l))) : l.operation = .trace := by
  generalize hr : (Except.error (Stop.located l) : Except Stop Unit) = r at h
  cases h with
  | alone => cases hr
  | heard => cases hr
  | @unheard g =>
    cases hk : g.kind.isSystem with
    | true =>
      rw [if_pos hk] at hr
      cases hr
      rfl
    | false =>
      rw [if_neg (by simp [hk])] at hr
      cases hr

/-- A failure is located by its attempt, unless the observer's hides it. -/
theorem Fails.eq_located (h : Fails o a f log (.located l)) (ht : l.operation ≠ .trace) :
    l = a.located f.reason := by
  cases h with
  | told => rfl
  | untold _ htold => exact absurd htold.operation_eq_trace ht

/-- The four ways in which an errand can end in a located failure of its own. -/
inductive Locates (log : List Exchange) (l : Located) : Errand → Prop where
  | failed {a : Attempt} {c : Call} {f : Failure} : (c, .error f) ∈ log → l = a.located f.reason →
      Locates log l (.attempt a c)
  | unable {a : Attempt} {f : Failure} : l = a.located f.reason → Locates log l (.unable a f)
  | lost {index : Nat} {here : Path} : l = lostAt index here → Locates log l (.lost index here)
  | halted : Locates log l (.halt (.located l))

theorem Goes.locates (h : Goes o open? errand log (.error (.located l))) (ht : l.operation ≠ .trace) :
    Locates log l errand := by
  cases h with
  | untold htold hparts =>
    cases hparts.eq_located
    exact absurd htold.operation_eq_trace ht
  | failed hfails hparts =>
    cases hparts.eq_located
    exact .failed List.mem_cons_self (hfails.eq_located ht)
  | unable hfails hparts =>
    cases hparts.eq_located
    exact .unable (hfails.eq_located ht)
  | lost _ hparts =>
    cases hparts.eq_located
    exact .lost rfl
  | lostUntold htold hparts =>
    cases hparts.eq_located
    exact absurd htold.operation_eq_trace ht
  | halted hparts =>
    cases hparts.eq_located
    exact .halted

/-- A run that stops at a write has been refused by the system, or its content has not been encoded. -/
theorem stops_at_write (h : Ends (Build.entries o root es) log (.error (.located l)))
    (hw : l.operation = .write) :
    (∃ path bytes f, (.write path bytes, .error f) ∈ log ∧ l.reason = f.reason) ∨
      ∃ e content f, es[l.index]? = some e ∧ e.content = some content ∧
        encodeContent o.encoding content = .error f ∧ l.reason = f.reason := by
  obtain ⟨u, hproceeds, hu⟩ := proceeds_of_entries h
  cases u with
  | ok u => cases hu
  | error s =>
    cases hu
    obtain ⟨errand, hm, open?, part, hsub, hgoes⟩ := hproceeds.goes_of_error
    have hdue := due_agenda hm
    cases hgoes.locates (by simp [hw]) with
    | @failed a c f hcall hl =>
      subst hl
      cases hdue with
      | attempt hfits =>
        have hoperation := hfits.operation
        rw [show a.operation = .write from hw] at hoperation
        cases c with
        | write path bytes => exact .inl ⟨path, bytes, f, hsub hcall, rfl⟩
        | _ => simp [Call.operations] at hoperation
    | unable hl =>
      subst hl
      cases hdue with
      | @unable earlier later e content _ hes hcontent hcode =>
        exact .inr ⟨e, content, _, by simp [hes, writing, Attempt.located], hcontent, hcode, rfl⟩
    | lost hl =>
      subst hl
      cases hw
    | halted =>
      cases hdue with
      | refused hl =>
        rw [hl] at hw
        cases hw

/-- The content of a file is on the agenda. -/
theorem contentErrand_mem_agenda (hes : es = earlier ++ e :: later) (hfile : e.isDirectory = false)
    (hplain : e.target = none) (hcontent : e.content = some content) :
    contentErrand encoding earlier.length (spot root earlier e) content ∈ agenda root encoding es := by
  refine List.mem_flatten.2 ⟨_, Plan.mem_each.2 ⟨earlier, e, later, hes, rfl⟩, ?_⟩
  simp [entryErrands, nodeErrands, fileErrands, hfile, hplain, hcontent]

/-- A run that ends well has written the content of each file, encoded. -/
theorem written_of_ok {paths : List Path} (h : Ends (Build.entries o root es) log (.ok paths))
    (he : e ∈ es) (hfile : e.isDirectory = false) (hplain : e.target = none)
    (hcontent : e.content = some content) :
    ∃ path bytes, encodeContent o.encoding content = .ok bytes ∧ (.write path bytes, .ok ()) ∈ log := by
  obtain ⟨earlier, later, hes⟩ := List.append_of_mem he
  obtain ⟨u, hproceeds, hu⟩ := proceeds_of_entries h
  cases u with
  | error s => cases hu
  | ok u =>
    have hm : contentErrand o.encoding earlier.length (spot root earlier e) content ∈
        agenda root o.encoding es := contentErrand_mem_agenda hes hfile hplain hcontent
    have hwritten := hproceeds.mem_of_ok hm
    unfold contentErrand at hwritten
    cases hcode : encodeContent o.encoding content with
    | error f => simp [hcode] at hwritten
    | ok bytes => exact ⟨_, bytes, rfl, by simpa [hcode] using hwritten⟩

end Build

end TreePlan
