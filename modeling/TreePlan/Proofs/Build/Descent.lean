import TreePlan.Proofs.Build.FirstFailure

/-! Where a run goes down. If the levels of the entries begin at zero and never fall below it, a run is as
deep as the entry that it has come to, and the names on record lead to directories that it has made. So it
goes down into those alone, and where there is none to go down into it stops, for that reason and no other.
With other levels, records and depth drift apart. -/

namespace TreePlan

open Run (Ends)

def Call.visit? : Call → Option Path
  | .visit path => some path
  | _ => none

/-- The directories that were visited, or tried. -/
def visited (log : List Exchange) : List Path := log.filterMap fun x => x.1.visit?

theorem visited_eq (log : List Exchange) : visited log = (asked log).filterMap Call.visit? := by
  unfold visited asked
  rw [List.filterMap_filter, List.filterMap_map]
  congr
  funext x
  obtain ⟨c, answer⟩ := x
  cases c <;> rfl

namespace Build

open Cursor (standing recorded depthAt)

variable {o : Options} {open? : Option Path} {xs ys errands : List Errand} {log : List Exchange}
  {r : Except Stop Unit} {s : Stop}

/-- Errands are carried out up to one that stops the run, or one part of them after the other. -/
theorem proceeds_append (h : Proceeds o open? (xs ++ ys) log r) :
    (∃ s, r = .error s ∧ Proceeds o open? xs log (.error s)) ∨
      ∃ l₁ l₂, log = l₁ ++ l₂ ∧ Proceeds o open? xs l₁ (.ok ()) ∧
        Proceeds o (xs.foldl Errand.leaves open?) ys l₂ r := by
  induction xs generalizing open? log with
  | nil => exact .inr ⟨[], log, rfl, .finish open?, h⟩
  | cons x xs ih =>
    cases h with
    | stop hgoes => exact .inl ⟨_, rfl, .stop hgoes⟩
    | @advance _ _ _ l₁ l₂ _ hgoes hrest =>
      rcases ih hrest with ⟨s, rfl, hs⟩ | ⟨l₃, l₄, rfl, hxs, hys⟩
      · exact .inl ⟨s, rfl, .advance hgoes hs⟩
      · exact .inr ⟨l₁ ++ l₃, l₄, by rw [List.append_assoc], .advance hgoes hxs, hys⟩

theorem Proceeds.asked_isPrefix_asks (h : Proceeds o open? errands log r) :
    asked log <+: errands.flatMap Errand.asks := by
  induction h with
  | finish => exact List.nil_prefix
  | stop hgoes =>
    rw [hgoes.asked_eq, List.flatMap_cons]
    exact List.prefix_append _ _
  | advance hgoes _ ih =>
    rw [asked_append, hgoes.asked_eq, List.flatMap_cons, List.prefix_append_right_inj]
    exact ih

/-- What has been carried out to its end was no place where a run can't go on, and its calls went well. -/
theorem Proceeds.mem_of_ok (h : Proceeds o open? errands log (.ok ())) {errand : Errand}
    (hm : errand ∈ errands) :
    (∃ a c, errand = .attempt a c ∧ (c, .ok ()) ∈ log) ∨ ∃ path, errand = .close path := by
  generalize hr : (Except.ok () : Except Stop Unit) = r at h
  induction h with
  | finish => cases hm
  | stop => cases hr
  | advance hgoes _ ih =>
    rcases List.mem_cons.1 hm with rfl | hm
    · cases hgoes with
      | @done a c => exact .inl ⟨a, c, rfl, by simp⟩
      | @closed path => exact .inr ⟨path, rfl⟩
    · rcases ih hm hr with ⟨a, c, rfl, hc⟩ | hclose
      · exact .inl ⟨a, c, rfl, List.mem_append_right _ hc⟩
      · exact .inr hclose

/-- A run that stops does so over one of its errands. -/
theorem Proceeds.goes_of_error (h : Proceeds o open? errands log (.error s)) :
    ∃ errand ∈ errands, ∃ open? part, part ⊆ log ∧ Goes o open? errand part (.error s) := by
  generalize hr : (Except.error s : Except Stop Unit) = r at h
  induction h with
  | finish => cases hr
  | @stop open? errand rest part _ hgoes =>
    cases hr
    exact ⟨errand, List.mem_cons_self, open?, part, List.Subset.refl _, hgoes⟩
  | advance _ _ ih =>
    obtain ⟨errand, hm, open?, part, hsub, hgoes⟩ := ih hr
    exact ⟨errand, List.mem_cons_of_mem _ hm, open?, part, List.subset_append_of_subset_right _ hsub, hgoes⟩

theorem Tells.ok_of_all_ok {a : Attempt} {error : Option Text} (h : Tells o a error log r)
    (hok : ∀ x ∈ log, x.2 = .ok ()) : r = .ok () := by
  cases h with
  | alone => rfl
  | heard => rfl
  | unheard => cases hok _ List.mem_cons_self

/-! Down from a depth that is not below zero. -/

/-- Where a run gets to through so many of the names and one more. -/
def trail (root : Path) (names : List Text) (depth : Nat) : Path := root.joinAll (names.take (depth + 1))

theorem trail_eq_join (root : Path) {names : List Text} {depth : Nat} (h : depth < names.length) :
    trail root names depth = (root.joinAll (names.take depth)).join names[depth] := by
  unfold trail
  rw [List.take_succ_eq_append_getElem h, Path.joinAll, List.foldl_append]
  rfl

variable {cursor : Cursor} {index n : Nat}

theorem below?_of_nonneg (h : 0 ≤ cursor.depth) :
    cursor.below? = .ok (if cursor.records.length ≤ cursor.depth.toNat then none
      else some (trail cursor.root cursor.records cursor.depth.toNat)) := by
  unfold Cursor.below?
  split
  · rw [if_pos (by omega)]
  · have hlt : cursor.depth.toNat < cursor.records.length := by omega
    have hlimit : ¬ cursor.depth < -Cursor.positionLimit := by
      unfold Cursor.positionLimit
      omega
    have hitem : Cursor.item? cursor.records cursor.depth = some cursor.records[cursor.depth.toNat] := by
      unfold Cursor.item?
      rw [if_pos h, List.getElem?_eq_getElem hlt]
    rw [if_neg hlimit, hitem, if_neg (by omega), trail_eq_join _ hlt]
    unfold Cursor.location Cursor.segments Cursor.before
    rw [if_pos h]

theorem deeper_nonneg (h : 0 ≤ cursor.depth) : 0 ≤ { cursor with depth := cursor.depth + 1 }.depth := by
  show 0 ≤ cursor.depth + 1
  omega

/-- The way down goes into recorded directories one after the other, or there is none where it ends. -/
theorem descents_of_nonneg (h : 0 ≤ cursor.depth) :
    descents index (n + 1) cursor =
      if cursor.records.length ≤ cursor.depth.toNat then [.lost index cursor.location]
      else .attempt (moving true index (trail cursor.root cursor.records cursor.depth.toNat))
          (.visit (trail cursor.root cursor.records cursor.depth.toNat))
        :: descents index n { cursor with depth := cursor.depth + 1 } := by
  rw [descents, below?_of_nonneg h]
  by_cases hle : cursor.records.length ≤ cursor.depth.toNat
  · rw [if_pos hle, if_pos hle]
  · rw [if_neg hle, if_neg hle]

theorem asks_descents (h : 0 ≤ cursor.depth) {c : Call}
    (hc : c ∈ (descents index n cursor).flatMap Errand.asks) :
    ∃ depth < cursor.records.length, c = .visit (trail cursor.root cursor.records depth) := by
  induction n generalizing cursor with
  | zero => cases hc
  | succ n ih =>
    rw [descents_of_nonneg h] at hc
    split at hc
    · cases hc
    · next hlt =>
      rcases List.mem_cons.1 hc with rfl | hc
      · exact ⟨cursor.depth.toNat, by omega, rfl⟩
      · have hdeeper := ih (deeper_nonneg h) hc
        exact hdeeper

/-- A way down that has been gone to its end was one visit for each level, all within the records. -/
theorem descents_of_ok (h : 0 ≤ cursor.depth) (hok : Proceeds o none (descents index n cursor) log (.ok ())) :
    (visited log).length = n ∧ (0 < n → cursor.depth + n ≤ cursor.records.length) := by
  induction n generalizing cursor log with
  | zero =>
    cases hok
    exact ⟨rfl, by omega⟩
  | succ n ih =>
    rw [descents_of_nonneg h] at hok
    split at hok
    · cases hok with
      | advance hgoes _ => cases hgoes
    · next hlt =>
      cases hok with
      | @advance _ _ _ l₁ l₂ _ hgoes hrest =>
        obtain ⟨hlength, hwithin⟩ := ih (deeper_nonneg h) hrest
        have hvisit : (visited l₁).length = 1 := by
          rw [visited_eq, hgoes.asked_eq]
          rfl
        have happend : visited (l₁ ++ l₂) = visited l₁ ++ visited l₂ := List.filterMap_append ..
        refine ⟨by rw [happend, List.length_append, hvisit, hlength, Nat.add_comm], fun _ => ?_⟩
        rcases Nat.eq_zero_or_pos n with rfl | hn
        · omega
        · have := hwithin hn
          dsimp only at this
          omega

/-- Where all calls go well, nothing but a missing directory stops a run on its way down. -/
theorem stop_of_descents (h : 0 ≤ cursor.depth)
    (hstop : Proceeds o none (descents index n cursor) log (.error s)) (hok : ∀ x ∈ log, x.2 = .ok ()) :
    ∃ here, s = .located (lostAt index here) := by
  induction n generalizing cursor log with
  | zero => cases hstop
  | succ n ih =>
    rw [descents_of_nonneg h] at hstop
    split at hstop
    · cases hstop with
      | stop hgoes =>
        cases hgoes with
        | lost _ hparts =>
          cases hparts
          exact ⟨_, rfl⟩
        | lostUntold htold _ => cases htold.ok_of_all_ok fun x hx => hok x (List.mem_append_left _ hx)
      | advance _ hrest => cases hrest
    · cases hstop with
      | stop hgoes =>
        cases hgoes with
        | untold htold _ => cases htold.ok_of_all_ok fun x hx => hok x (by simp [hx])
        | failed => cases hok _ List.mem_cons_self
      | advance _ hrest =>
        exact ih (deeper_nonneg h) hrest fun x hx => hok x (List.mem_append_right _ hx)

/-! Over entries whose levels begin at zero and never fall below it. -/

variable {root : Path} {encoding : Text} {earlier : List Entry} {e p : Entry} {past part : List Exchange}

theorem depthAt_eq (hfirst : ∀ q ∈ (earlier ++ [e]).head?, q.level = 0) :
    depthAt earlier e.level = e.level := by
  rw [← Cursor.depthAt_append_singleton]
  cases earlier with
  | nil => simp [depthAt, hfirst e (by simp)]
  | cons q earlier => simp [depthAt, hfirst q (by simp)]

theorem depthAt_last (hfirst : ∀ q ∈ (earlier ++ [e]).head?, q.level = 0)
    (hp : earlier.getLast? = some p) : depthAt earlier p.level = p.level := by
  have hadd := Cursor.depthAt_add hp e.level
  have hdepth := depthAt_eq hfirst
  omega

theorem arrivals_of_lt (hp : earlier.getLast? = some p) (hlt : p.level < e.level) :
    arrivals root earlier e =
      descents earlier.length (e.level - p.level).toNat (standing root earlier p.level) := by
  unfold arrivals
  rw [hp]
  exact if_pos hlt

theorem eq_of_asks {a : Attempt} {c c' : Call} (hc : c' ∈ (Errand.attempt a c).asks) : c' = c :=
  List.mem_singleton.1 (List.mem_of_mem_filter hc)

theorem visit?_of_fileErrands {errand : Errand} {c : Call} {path : Path}
    (hm : errand ∈ fileErrands encoding index e path) (hc : c ∈ errand.asks) : c.visit? = none := by
  unfold fileErrands at hm
  rw [List.cons_append, List.mem_cons, List.mem_append, List.mem_cons] at hm
  rcases hm with rfl | hm | rfl | hm
  · rw [eq_of_asks hc]
    rfl
  · obtain ⟨content, -, rfl⟩ := List.mem_map.1 hm
    unfold contentErrand at hc
    split at hc
    · cases hc
    · rw [eq_of_asks hc]
      rfl
  · cases hc
  · obtain ⟨mode, -, rfl⟩ := List.mem_map.1 hm
    rw [eq_of_asks hc]
    rfl

theorem visit?_of_nodeErrands {errand : Errand} {c : Call} {path : Path}
    (hm : errand ∈ nodeErrands encoding index e path) (hc : c ∈ errand.asks) : c.visit? = none := by
  unfold nodeErrands at hm
  split at hm
  · rw [List.mem_singleton.1 hm] at hc
    rw [eq_of_asks hc]
    rfl
  · split at hm
    · rw [List.mem_singleton.1 hm] at hc
      rw [eq_of_asks hc]
      rfl
    · exact visit?_of_fileErrands hm hc

/-- Beyond the way to an entry nothing is visited. -/
theorem visit?_of_asks {c : Call} {path : Path}
    (hc : c ∈ (placing index cursor e.name ++ (nodeErrands encoding index e path ++
      ownerErrands index e path)).flatMap Errand.asks) : c.visit? = none := by
  obtain ⟨errand, hm, hc⟩ := List.mem_flatMap.1 hc
  rw [List.mem_append, List.mem_append] at hm
  rcases hm with hm | hm | hm
  · unfold placing at hm
    split at hm
    · cases hm
    · rw [List.mem_singleton.1 hm] at hc
      cases hc
  · exact visit?_of_nodeErrands hm hc
  · unfold ownerErrands at hm
    split at hm
    · rw [List.mem_singleton.1 hm] at hc
      rw [eq_of_asks hc]
      rfl
    · cases hm

/-- What some entries leave behind: records at least as deep as the last of them, and each of the records
a directory that has been made. -/
structure Trodden (root : Path) (earlier : List Entry) (log : List Exchange) : Prop where
  level_le : ∀ p ∈ earlier.getLast?, p.level ≤ (recorded earlier).length
  made : ∀ depth < (recorded earlier).length,
    ∃ mode, (Call.makeDirectory (trail root (recorded earlier) depth) mode, .ok ()) ∈ log

theorem Trodden.start (root : Path) : Trodden root [] [] := ⟨by simp, by simp [recorded]⟩

/-- A run that has arrived at an entry has records down to its level. -/
theorem Trodden.level_le_of_arrivals (h : Trodden root earlier past)
    (hfirst : ∀ q ∈ (earlier ++ [e]).head?, q.level = 0) (hlast : ∀ q ∈ earlier.getLast?, 0 ≤ q.level)
    (hok : Proceeds o none (arrivals root earlier e) part (.ok ())) :
    e.level ≤ (recorded earlier).length := by
  cases hp : earlier.getLast? with
  | none =>
    obtain rfl := List.getLast?_eq_none_iff.1 hp
    have hzero := hfirst e (by simp)
    omega
  | some p =>
    have hdepth := depthAt_last hfirst hp
    have hp0 := hlast p hp
    by_cases hlt : p.level < e.level
    · rw [arrivals_of_lt hp hlt] at hok
      obtain ⟨-, hwithin⟩ := descents_of_ok (show 0 ≤ depthAt earlier p.level by omega) hok
      have hle := hwithin (by omega)
      simp only [standing] at hle
      omega
    · have hle := h.level_le p hp
      omega

theorem spot_of_levels (hfirst : ∀ q ∈ (earlier ++ [e]).head?, q.level = 0) (hlevel : 0 ≤ e.level) :
    spot root earlier e = (root.joinAll ((recorded earlier).take e.level.toNat)).join e.name := by
  unfold spot Cursor.location Cursor.segments standing Cursor.before
  rw [depthAt_eq hfirst, if_pos hlevel]

/-- A directory that has been built has been made. -/
theorem made_of_ok (hok : Proceeds o none (entryErrands root encoding earlier e) part (.ok ()))
    (hd : e.isDirectory = true) :
    ∃ mode, (Call.makeDirectory (spot root earlier e) mode, .ok ()) ∈ part := by
  have hmem : ∃ a, .attempt a (.makeDirectory (spot root earlier e) e.mode) ∈
      entryErrands root encoding earlier e := by
    unfold entryErrands nodeErrands
    rw [if_pos hd]
    exact ⟨_, List.mem_append_right _ (List.mem_append_right _
      (List.mem_append_left _ List.mem_cons_self))⟩
  obtain ⟨a, hmem⟩ := hmem
  rcases hok.mem_of_ok hmem with ⟨a', c, heq, hm⟩ | ⟨path, heq⟩
  · cases heq
    exact ⟨e.mode, hm⟩
  · cases heq

/-- The next entry keeps to the trodden ground. -/
theorem Trodden.next (h : Trodden root earlier past) (hfirst : ∀ q ∈ (earlier ++ [e]).head?, q.level = 0)
    (hlast : ∀ q ∈ earlier.getLast?, 0 ≤ q.level) (hlevel : 0 ≤ e.level)
    (hok : Proceeds o none (entryErrands root encoding earlier e) part (.ok ())) :
    Trodden root (earlier ++ [e]) (past ++ part) := by
  have hle : e.level.toNat ≤ (recorded earlier).length := by
    rcases proceeds_append hok with ⟨s, hs, -⟩ | ⟨l₁, l₂, -, harrive, -⟩
    · cases hs
    · have := h.level_le_of_arrivals hfirst hlast harrive
      omega
  have hold {depth : Nat} (hd : depth < (recorded earlier).length) :
      ∃ mode, (Call.makeDirectory (trail root (recorded earlier) depth) mode, .ok ()) ∈ past ++ part := by
    obtain ⟨mode, hm⟩ := h.made depth hd
    exact ⟨mode, List.mem_append_left _ hm⟩
  cases hd : e.isDirectory with
  | false =>
    have hrecorded : recorded (earlier ++ [e]) = recorded earlier := by
      rw [Cursor.recorded_append_singleton, hd]
      rfl
    refine ⟨?_, ?_⟩
    · simp only [List.getLast?_concat, Option.mem_some_iff, hrecorded]
      rintro _ rfl
      omega
    · rw [hrecorded]
      exact fun depth => hold
  | true =>
    have hrecorded : recorded (earlier ++ [e]) = (recorded earlier).take e.level.toNat ++ [e.name] := by
      rw [Cursor.recorded_append_singleton, hd, if_pos rfl, Cursor.before, if_pos hlevel]
    have hlength : (recorded (earlier ++ [e])).length = e.level.toNat + 1 := by
      rw [hrecorded, List.length_append, List.length_take, Nat.min_eq_left hle]
      rfl
    refine ⟨?_, fun depth hdepth => ?_⟩
    · simp only [List.getLast?_concat, Option.mem_some_iff, hlength]
      rintro _ rfl
      omega
    · rw [hlength] at hdepth
      rcases Nat.lt_or_eq_of_le (Nat.le_of_lt_succ hdepth) with hlt | rfl
      · have htrail : trail root (recorded (earlier ++ [e])) depth = trail root (recorded earlier) depth := by
          unfold trail
          rw [hrecorded, List.take_append_of_le_length (by simp; omega), List.take_take,
            Nat.min_eq_left (by omega)]
        rw [htrail]
        exact hold (by omega)
      · have htrail : trail root (recorded (earlier ++ [e])) e.level.toNat = spot root earlier e := by
          unfold trail
          rw [spot_of_levels hfirst hlevel, List.take_of_length_le (by omega), hrecorded, Path.joinAll,
            List.foldl_append]
          rfl
        rw [htrail]
        obtain ⟨mode, hm⟩ := made_of_ok hok hd
        exact ⟨mode, List.mem_append_right _ hm⟩

/-- On trodden ground the way down to an entry leads into directories that have been made. If no call
fails on it, it is gone to its end, or the run stops for want of a directory. -/
theorem Trodden.descends (h : Trodden root earlier past)
    (hfirst : ∀ q ∈ (earlier ++ [e]).head?, q.level = 0) (hp : earlier.getLast? = some p)
    (hlevel : 0 ≤ p.level) (hlt : p.level < e.level)
    (hproceeds : Proceeds o none (entryErrands root encoding earlier e) part r) :
    (∀ target ∈ visited part, ∃ mode, (Call.makeDirectory target mode, .ok ()) ∈ past) ∧
      ((∀ x ∈ part, x.2 = .ok ()) → (visited part).length = (e.level - p.level).toNat ∨
        ∃ here, r = .error (.located (lostAt earlier.length here))) := by
  have hdepth : 0 ≤ (standing root earlier p.level).depth := by
    show 0 ≤ depthAt earlier p.level
    rw [depthAt_last hfirst hp]
    exact hlevel
  refine ⟨fun target hm => ?_, fun hok => ?_⟩
  · rw [visited_eq] at hm
    obtain ⟨c, hc, hvisit⟩ := List.mem_filterMap.1 hm
    have hasks := hproceeds.asked_isPrefix_asks.subset hc
    unfold entryErrands at hasks
    rw [List.flatMap_append, List.mem_append, arrivals_of_lt hp hlt] at hasks
    rcases hasks with hasks | hasks
    · obtain ⟨depth, hd, rfl⟩ := asks_descents hdepth hasks
      cases hvisit
      exact h.made depth hd
    · rw [visit?_of_asks hasks] at hvisit
      cases hvisit
  · unfold entryErrands at hproceeds
    rw [arrivals_of_lt hp hlt] at hproceeds
    rcases proceeds_append hproceeds with ⟨s, rfl, hstop⟩ | ⟨l₁, l₂, rfl, hway, hrest⟩
    · obtain ⟨here, rfl⟩ := stop_of_descents hdepth hstop hok
      exact .inr ⟨here, rfl⟩
    · have hnone : visited l₂ = [] := by
        rw [visited_eq, List.filterMap_eq_nil_iff]
        exact fun c hc => visit?_of_asks (hrest.asked_isPrefix_asks.subset hc)
      have happend : visited (l₁ ++ l₂) = visited l₁ ++ visited l₂ := List.filterMap_append ..
      refine .inl ?_
      rw [happend, hnone, List.append_nil]
      exact (descents_of_ok hdepth hway).1

/-- To build an entry where those before have left the cursor is to proceed by its errands. -/
theorem proceeds_of_buildEntry {result : Except Stop (Path × Cursor)}
    (h : Ends (buildEntry o earlier.length (earlier.getLast?.map Entry.level)
      (standing root earlier ((earlier.getLast?.map Entry.level).getD e.level)) e).run log result) :
    ∃ u, Proceeds o none (entryErrands root o.encoding earlier e) log u ∧
      result = u.map fun _ => (spot root earlier e, standing root (earlier ++ [e]) e.level) := by
  rw [buildEntry_eq_carryOut] at h
  rcases ends_bind.1 h with ⟨s, hs, rfl⟩ | ⟨l₁, u, l₂, h₁, h₂, rfl⟩
  · exact ⟨.error s, proceeds_of_ends hs, rfl⟩
  · obtain ⟨rfl, rfl⟩ := ends_pure.1 h₂
    rw [List.append_nil]
    exact ⟨.ok u, proceeds_of_ends h₁, rfl⟩

/-- What holds of the way down to an entry among others, of which it comes after some. -/
theorem Course.descends {previous : Option Int} {index : Nat} {cursor : Cursor} {es : List Entry}
    {logs : List (List Exchange)} {result : Except Stop (List Path)}
    (hc : Course o index previous cursor es logs result) (hindex : index = earlier.length)
    (hprevious : previous = earlier.getLast?.map Entry.level)
    (hcursor : ∀ level, cursor = standing root earlier ((earlier.getLast?.map Entry.level).getD level))
    (h : Trodden root earlier past) (hfirst : ∀ q ∈ (earlier ++ es).head?, q.level = 0)
    (hlevels : ∀ q ∈ earlier ++ es, 0 ≤ q.level) {before later : List Entry}
    (hes : es = before ++ e :: later) (hp : (earlier ++ before).getLast? = some p)
    (hlt : p.level < e.level) (hpart : logs[before.length]? = some part) :
    (∀ target ∈ visited part,
      ∃ mode, (Call.makeDirectory target mode, .ok ()) ∈ past ++ (logs.take before.length).flatten) ∧
    ((∀ x ∈ part, x.2 = .ok ()) → (visited part).length = (e.level - p.level).toNat ∨
      ∃ here, result = .error (.located (lostAt (earlier ++ before).length here))) := by
  induction hc generalizing earlier past before with
  | finish => simp at hes
  | @stop index previous cursor e' rest log s hends =>
    subst hindex hprevious
    rw [hcursor e'.level] at hends
    obtain ⟨u, hproceeds, hu⟩ := proceeds_of_buildEntry hends
    cases before with
    | cons b before => simp at hpart
    | nil =>
      cases hes
      cases hpart
      rw [List.append_nil] at hp ⊢
      obtain ⟨hmade, hstop⟩ := h.descends (by simpa using hfirst) hp
        (hlevels p (List.mem_append_left _ (List.mem_of_getLast? hp))) hlt hproceeds
      refine ⟨by simpa using hmade, fun hok => (hstop hok).imp_right ?_⟩
      rintro ⟨here, rfl⟩
      cases hu
      exact ⟨here, rfl⟩
  | @advance index previous cursor next e' rest log path logs result hends hc ih =>
    subst hindex hprevious
    rw [hcursor e'.level] at hends
    obtain ⟨u, hproceeds, hu⟩ := proceeds_of_buildEntry hends
    cases u with
    | error s => cases hu
    | ok u =>
      cases hu
      have hfirst' : ∀ q ∈ (earlier ++ [e']).head?, q.level = 0 := by simpa using hfirst
      have hlast : ∀ q ∈ earlier.getLast?, 0 ≤ q.level :=
        fun q hq => hlevels q (List.mem_append_left _ (List.mem_of_getLast? hq))
      cases before with
      | nil =>
        cases hes
        cases hpart
        rw [List.append_nil] at hp ⊢
        obtain ⟨hmade, hstop⟩ := h.descends hfirst' hp (hlast p hp) hlt hproceeds
        refine ⟨by simpa using hmade, fun hok => (hstop hok).imp_right ?_⟩
        rintro ⟨here, hr⟩
        cases hr
      | cons b before =>
        cases hes
        have hnext := h.next hfirst' hlast (hlevels e' (by simp)) hproceeds
        obtain ⟨hmade, hstop⟩ := ih (by simp) (by simp) (by simp) hnext (by simpa using hfirst)
          (by simpa using hlevels) rfl (by simpa using hp) hpart
        refine ⟨by simpa using hmade, fun hok => (hstop hok).imp_right ?_⟩
        rintro ⟨here, rfl⟩
        exact ⟨here, by simp; rfl⟩

/-- If the levels of the entries begin at zero and never fall below it, then whatever is answered to a run,
every directory on the way down to an entry is one that the run has made by then. If nothing fails on the
way, it is gone to its end, or the run stops there for want of a directory. -/
theorem descends_into_made_directories (o : Options) (root : Path) {es : List Entry}
    (hfirst : ∀ e ∈ es.head?, e.level = 0) (hlevels : ∀ e ∈ es, 0 ≤ e.level)
    {result : Except Stop (List Path)} (h : Ends (Build.entries o root es) log result) :
    ∃ logs, Course o 0 none { root } es logs result ∧ log = logs.flatten ∧
      ∀ earlier p e later part, es = earlier ++ p :: e :: later → p.level < e.level →
        logs[earlier.length + 1]? = some part →
        (∀ target ∈ visited part, ∃ mode,
          (Call.makeDirectory target mode, .ok ()) ∈ (logs.take (earlier.length + 1)).flatten) ∧
        ((∀ x ∈ part, x.2 = .ok ()) → (visited part).length = (e.level - p.level).toNat ∨
          ∃ here, result = .error (.located (lostAt (earlier.length + 1) here))) := by
  obtain ⟨logs, hc, rfl⟩ := ends_buildFrom.1 h
  refine ⟨logs, hc, rfl, ?_⟩
  rintro earlier p e later part rfl hlt hpart
  have hsplit : earlier ++ p :: e :: later = (earlier ++ [p]) ++ e :: later := List.append_cons ..
  have hstart (level : Int) : ({ root } : Cursor) = standing root [] level := (Cursor.standing_nil root level).symm
  have hdescends := hc.descends rfl rfl hstart (.start root) hfirst hlevels hsplit (by simp) hlt
    (by simpa using hpart)
  simpa using hdescends

/-- Two levels down where there is one directory. -/
def steepEntries : List Entry :=
  [{ name := "a", level := 0, line := 1, isDirectory := true }, { name := "b", level := 2, line := 2 }]

theorem descends_where_made :
    Ends (Build.entries {} .here steepEntries)
        [(.makeDirectory (.ofText "a") none, .ok ()), (.visit (.ofText "a"), .ok ())]
        (.error (.located (lostAt 1 (.ofText "a")))) ∧
      ∃ logs : List (List Exchange),
        logs.flatten = [(.makeDirectory (.ofText "a") none, .ok ()), (.visit (.ofText "a"), .ok ())] ∧
        ∀ part, logs[1]? = some part → ∀ target ∈ visited part,
          ∃ mode, (Call.makeDirectory target mode, .ok ()) ∈ (logs.take 1).flatten := by
  have hends : Ends (Build.entries {} .here steepEntries)
      [(.makeDirectory (.ofText "a") none, .ok ()), (.visit (.ofText "a"), .ok ())]
      (.error (.located (lostAt 1 (.ofText "a")))) := .well (.well (.done _))
  obtain ⟨logs, -, hlogs, hdescends⟩ := descends_into_made_directories {} .here
    (by simp [steepEntries]) (by simp [steepEntries]) hends
  refine ⟨hends, logs, hlogs.symm, fun part hpart => ?_⟩
  exact (hdescends [] _ _ [] part rfl (by simp) hpart).1

/-- A directory one level down, a symlink in it, a directory that takes the place of neither. -/
def crossingEntries : List Entry :=
  [{ name := "a", level := 1, line := 1, isDirectory := true },
    { name := "c", level := 2, line := 2, target := some ".." },
    { name := "c", level := 1, line := 3, isDirectory := true },
    { name := "x", level := 3, line := 4 }]

def sinkingEntries : List Entry :=
  [{ name := "a", level := 0, line := 1 }, { name := "b", level := -1, line := 2 },
    { name := "c", level := 0, line := 3 }]

/-- Where levels begin above zero a run can enter a symlink of its own, and where they fall below zero it
can stop with a failure that is not located, though all calls go well. -/
theorem astray_on_other_levels :
    (∃ log paths, Ends (Build.entries {} .here crossingEntries) log (.ok paths) ∧
      (∀ x ∈ log, x.2 = .ok ()) ∧ .ofText "a/c" ∈ visited log ∧
      (Call.link ".." (.ofText "a/c"), .ok ()) ∈ log ∧
      ∀ mode, (Call.makeDirectory (.ofText "a/c") mode, .ok ()) ∉ log) ∧
    ∃ log, Ends (Build.entries {} .here sinkingEntries) log (.error (.stray .noRecord)) ∧
      ∀ x ∈ log, x.2 = .ok () := by
  have hcrossing : Ends (Build.entries {} .here crossingEntries)
      [(.makeDirectory (.ofText "a") none, .ok ()), (.visit (.ofText "a"), .ok ()),
        (.link ".." (.ofText "a/c"), .ok ()), (.visit .here, .ok ()),
        (.makeDirectory (.ofText "c") none, .ok ()), (.visit (.ofText "a"), .ok ()),
        (.visit (.ofText "a/c"), .ok ()), (.createFile (.ofText "a/c/x"), .ok ()),
        (.close (.ofText "a/c/x"), .ok ())]
      (.ok [.ofText "a", .ofText "a/c", .ofText "c", .ofText "a/c/x"]) :=
    .well (.well (.well (.well (.well (.well (.well (.well (.well (.done _)))))))))
  have hsinking : Ends (Build.entries {} .here sinkingEntries)
      [(.createFile (.ofText "a"), .ok ()), (.close (.ofText "a"), .ok ()), (.visit .here, .ok ()),
        (.createFile (.ofText "b"), .ok ()), (.close (.ofText "b"), .ok ())]
      (.error (.stray .noRecord)) := .well (.well (.well (.well (.well (.done _)))))
  have hneither : Path.ofText "a" ≠ .ofText "a/c" ∧ Path.ofText "c" ≠ .ofText "a/c" := by decide
  refine ⟨⟨_, _, hcrossing, by simp, by simp [visited, Call.visit?], by simp, ?_⟩, _, hsinking, by simp⟩
  intro mode hm
  simp [hneither.1.symm, hneither.2.symm] at hm

end Build

end TreePlan
