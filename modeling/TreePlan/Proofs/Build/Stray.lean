import TreePlan.Proofs.Build.Descent

/-! What can leave a run over a layout without being located: a file that fails to close, a call that
fails in a way that nobody expects, an observer that fails for another reason than the system's, and a
content that is to be encoded in what no encoding can be called. -/

namespace TreePlan

open Run (Ends)

open Layout (Nested)

namespace Build

open Cursor (standing depthAt)

/-- Why a run is stopped by a failure that it does not locate. -/
inductive Strays (encoding : Text) (es : List Entry) (log : List Exchange) (f : Failure) : Prop where
  | unclosed {path : Path} : (.close path, .error f) ∈ log → Strays encoding es log f
  | unexpected {c : Call} : (c, .error f) ∈ log → c.isPrimitive = true → f.isExpected = false →
      Strays encoding es log f
  | unheard {event : Event} : (.observe event, .error f) ∈ log → f.kind.isSystem = false →
      Strays encoding es log f
  | unwritten {e : Entry} {content : Text} : e ∈ es → e.content = some content →
      encodeContent encoding content = .error f → f.isExpected = false → Strays encoding es log f

variable {encoding : Text} {es earlier : List Entry} {log l₁ l₂ told tail : List Exchange} {f g : Failure}
  {o : Options} {a : Attempt} {open? : Option Path} {errand : Errand} {errands : List Errand} {s : Stop}

theorem Strays.mono (h : Strays encoding es l₁ f) (hsub : l₁ ⊆ l₂) : Strays encoding es l₂ f := by
  cases h with
  | unclosed hm => exact .unclosed (hsub hm)
  | unexpected hm hc hf => exact .unexpected (hsub hm) hc hf
  | unheard hm hk => exact .unheard (hsub hm) hk
  | unwritten he hcontent hcode hf => exact .unwritten he hcontent hcode hf

theorem Tells.strays {error : Option Text} (h : Tells o a error log (.error (.stray f))) :
    Strays encoding es log f := by
  generalize hr : (Except.error (Stop.stray f) : Except Stop Unit) = r at h
  cases h with
  | alone => cases hr
  | heard => cases hr
  | @unheard g =>
    cases hk : g.kind.isSystem with
    | true =>
      rw [if_pos hk] at hr
      cases hr
    | false =>
      rw [if_neg (by simp [hk])] at hr
      cases hr
      exact .unheard List.mem_cons_self hk

/-- A stop that is stray was so before a file was closed, or became so by that. -/
theorem Parts.strays (h : Parts s open? tail (.stray f))
    (hs : s = .stray f → Strays encoding es told f) : Strays encoding es (told ++ tail) f := by
  cases h with
  | nothing => exact (hs rfl).mono (List.subset_append_left _ _)
  | closed => exact (hs rfl).mono (List.subset_append_left _ _)
  | unclosed => exact .unclosed (List.mem_append_right _ List.mem_cons_self)

/-- A failure of an attempt that is left as it is was not expected, unless the observer's hides it. -/
theorem Fails.strays (h : Fails o a g log (.stray f)) :
    g = f ∧ f.isExpected = false ∨ Strays encoding es log f := by
  cases h with
  | untold _ htold => exact .inr htold.strays
  | stray hx => exact .inl ⟨rfl, hx⟩

/-- An errand that ends in a stray failure has met with it, unless it was made to end so. -/
theorem Goes.strays (h : Goes o open? errand log (.error (.stray f)))
    (hcall : ∀ a c, errand = .attempt a c → c.isPrimitive = true)
    (hunable : ∀ a g, errand = .unable a g → ∃ e ∈ es, ∃ content, e.content = some content ∧
      encodeContent encoding content = .error g)
    (hhalt : errand ≠ .halt (.stray f)) : Strays encoding es log f := by
  cases h with
  | untold htold hparts =>
    refine (hparts.strays fun hs => ?_).mono (List.subset_cons_self _ _)
    subst hs
    exact htold.strays
  | @failed a c g told tail s _ hfails hparts =>
    have hattempt (hs : s = .stray f) : Strays encoding es ((c, .error g) :: told) f := by
      subst hs
      rcases hfails.strays with ⟨rfl, hx⟩ | htold
      · exact .unexpected List.mem_cons_self (hcall a c rfl) hx
      · exact htold.mono (List.subset_cons_self _ _)
    exact hparts.strays hattempt
  | unclosed => exact .unclosed List.mem_cons_self
  | @unable a g told tail s _ hfails hparts =>
    refine hparts.strays fun hs => ?_
    subst hs
    rcases hfails.strays with ⟨rfl, hx⟩ | htold
    · obtain ⟨e, he, content, hcontent, hcode⟩ := hunable a g rfl
      exact .unwritten he hcontent hcode hx
    · exact htold
  | lost _ hparts => exact hparts.strays nofun
  | lostUntold htold hparts =>
    refine hparts.strays fun hs => ?_
    subst hs
    exact htold.strays
  | halted hparts =>
    rw [← List.nil_append log]
    exact hparts.strays fun hs => absurd (congrArg Errand.halt hs) hhalt

theorem Proceeds.strays (h : Proceeds o open? errands log (.error (.stray f)))
    (hcall : ∀ a c, .attempt a c ∈ errands → c.isPrimitive = true)
    (hunable : ∀ a g, .unable a g ∈ errands → ∃ e ∈ es, ∃ content, e.content = some content ∧
      encodeContent encoding content = .error g)
    (hhalt : .halt (.stray f) ∉ errands) : Strays encoding es log f := by
  obtain ⟨errand, hm, open?, part, hsub, hgoes⟩ := h.goes_of_error
  refine Strays.mono (hgoes.strays (fun a c he => ?_) (fun a g he => ?_) fun he => ?_) hsub
  · exact hcall a c (he ▸ hm)
  · exact hunable a g (he ▸ hm)
  · exact hhalt (he ▸ hm)

/-! On an agenda of a layout there is nothing that strays by itself. -/

theorem not_stray_descents {index n : Nat} {cursor : Cursor} (h : 0 ≤ cursor.depth) :
    .halt (.stray f) ∉ descents index n cursor := by
  induction n generalizing cursor with
  | zero => simp [descents]
  | succ n ih =>
    have hdeeper := ih (deeper_nonneg h)
    rw [descents_of_nonneg h]
    split
    · simp
    · simpa using hdeeper

theorem not_stray_ascents {index n : Nat} {cursor : Cursor} :
    .halt (.stray f) ∉ ascents index n cursor := by
  induction n generalizing cursor with
  | zero => simp [ascents]
  | succ n ih => simpa [ascents] using ih

theorem not_stray_nodeErrands {index : Nat} {e : Entry} {path : Path} :
    .halt (.stray f) ∉ nodeErrands encoding index e path := by
  unfold nodeErrands
  split
  · simp
  · split
    · simp
    · have hcontent (content : Text) :
          contentErrand encoding index path content ≠ .halt (.stray f) := by
        unfold contentErrand
        split
        · nofun
        · nofun
      simp [fileErrands, hcontent]

theorem not_stray_arrivals {root : Path} {e : Entry} (hn : Nested (earlier ++ [e])) :
    .halt (.stray f) ∉ arrivals root earlier e := by
  unfold arrivals
  cases hp : earlier.getLast? with
  | none => simp
  | some p =>
    dsimp only
    split
    · refine not_stray_descents ?_
      show 0 ≤ depthAt earlier p.level
      rw [depthAt_last hn.head hp]
      obtain ⟨init, rfl⟩ := List.getLast?_eq_some_iff.1 hp
      exact hn.append_left.level_nonneg
    · exact not_stray_ascents

theorem not_stray_entryErrands {root : Path} {e : Entry} (hn : Nested (earlier ++ [e])) :
    .halt (.stray f) ∉ entryErrands root encoding earlier e := by
  have hplacing : .halt (.stray f) ∉ placing earlier.length (standing root earlier e.level) e.name := by
    unfold placing
    split
    · simp
    · simp
  have howner : .halt (.stray f) ∉ ownerErrands earlier.length e (spot root earlier e) := by
    unfold ownerErrands
    split
    · simp
    · simp
  simp only [entryErrands, List.mem_append, not_or]
  exact ⟨not_stray_arrivals hn, hplacing, not_stray_nodeErrands, howner⟩

theorem not_stray_agenda {root : Path} (hn : Nested es) : .halt (.stray f) ∉ agenda root encoding es := by
  intro hm
  obtain ⟨errands, hmem, hm⟩ := List.mem_flatten.1 hm
  obtain ⟨earlier, e, later, rfl, rfl⟩ := Plan.mem_each.1 hmem
  rw [List.append_cons] at hn
  exact not_stray_entryErrands hn.append_left hm

/-- A failure that leaves a run over a layout without being located has one of four reasons. -/
theorem strays_of_ends {root : Path} {r : Except Stop (List Path)} (hn : Nested es)
    (h : Ends (Build.entries o root es) log r) (hr : r = .error (.stray f)) :
    Strays o.encoding es log f := by
  obtain ⟨u, hproceeds, rfl⟩ := proceeds_of_entries h
  cases u with
  | ok u => cases hr
  | error s =>
    cases hr
    refine hproceeds.strays (fun a c hm => ?_) (fun a g hm => ?_) (not_stray_agenda hn)
    · cases due_agenda hm with
      | attempt hfits =>
        have hoperation := hfits.operation
        cases c with
        | close | observe => cases hoperation
        | _ => rfl
    · cases due_agenda hm with
      | @unable earlier later e content _ hes hcontent hcode =>
        exact ⟨e, by simp [hes], content, hcontent, hcode⟩

end Build

end TreePlan
