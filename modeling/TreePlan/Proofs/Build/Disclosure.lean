import Mathlib
import TreePlan.Proofs.Build.Telling

/-! What a trace discloses of the contents of files. Two runs over entries that differ in contents alone,
each as long as its counterpart and both or neither fit to be encoded, are told of by the same events,
with one exception: a content that can't be encoded is quoted in the reason why it can't. -/

namespace TreePlan

variable {agree : Text → Text → Prop}

/-- Two events say the same but for the reason why something was not written. -/
inductive Event.Alike (agree : Text → Text → Prop) : Event → Event → Prop where
  | same (event : Event) : Event.Alike agree event event
  | unwritten {path reason reason' : Text} {metadata : Fields} : agree reason reason' →
      Event.Alike agree ⟨"write", path, false, some reason, metadata⟩
        ⟨"write", path, false, some reason', metadata⟩

/-- Two calls are the same but for what is written or why something was not. -/
inductive Call.Alike (agree : Text → Text → Prop) : Call → Call → Prop where
  | same (c : Call) : Call.Alike agree c c
  | written {path : Path} {bytes bytes' : Bytes} :
      Call.Alike agree (.write path bytes) (.write path bytes')
  | told {event event' : Event} : event.Alike agree event' →
      Call.Alike agree (.observe event) (.observe event')

def Exchange.Alike (agree : Text → Text → Prop) (x y : Exchange) : Prop :=
  x.1.Alike agree y.1 ∧ x.2 = y.2

/-- A call with neither what is written nor why anything has failed. -/
def Call.masked : Call → Call
  | .write path _ => .write path []
  | .observe event => .observe { event with error := none }
  | c => c

/-- Answers without a look at what is written or why anything has failed. -/
def Script.Blind (script : Script) : Prop :=
  ∀ past c, script past c = script (past.map fun x => (x.1.masked, x.2)) c.masked

theorem Event.Alike.eq {event event' : Event} (h : event.Alike agree event')
    (hagree : ∀ reason reason', agree reason reason' → reason = reason') : event = event' := by
  cases h with
  | same => rfl
  | unwritten h => rw [hagree _ _ h]

theorem Call.Alike.masked_eq {c c' : Call} (h : c.Alike agree c') : c.masked = c'.masked := by
  cases h with
  | same => rfl
  | written => rfl
  | told h =>
    cases h with
    | same => rfl
    | unwritten => rfl

theorem Script.Blind.answer_eq {script : Script} (h : script.Blind) {past past' : List Exchange} {c c' : Call}
    (hpast : List.Forall₂ (Exchange.Alike agree) past past') (hc : c.Alike agree c') :
    script past c = script past' c' := by
  have hmasked : (past.map fun x => (x.1.masked, x.2)) = past'.map fun x => (x.1.masked, x.2) := by
    induction hpast with
    | nil => rfl
    | cons hx _ ih => rw [List.map_cons, List.map_cons, ih, hx.1.masked_eq, hx.2]
  rw [h past c, h past' c', hmasked, hc.masked_eq]

/-- Alike exchanges tell alike events. -/
theorem told_alike {log log' : List Exchange} (h : List.Forall₂ (Exchange.Alike agree) log log') :
    List.Forall₂ (Event.Alike agree) (told log) (told log') := by
  induction h with
  | nil => exact .nil
  | @cons x y log log' hx _ ih =>
    obtain ⟨c, answer⟩ := x
    obtain ⟨c', answer'⟩ := y
    obtain ⟨hc, -⟩ := hx
    cases hc with
    | same =>
      cases c with
      | observe event => exact .cons (.same event) ih
      | _ => exact ih
    | written => exact ih
    | told hevent => exact .cons hevent ih

/-- Two runs that make alike calls so long as they get the same answers, and come to the same result or
are both stopped. -/
inductive Run.Twins (agree : Text → Text → Prop) {α : Type} :
    Run (Except Stop α) → Run (Except Stop α) → Prop where
  | well (a : α) : Run.Twins agree (.done (.ok a)) (.done (.ok a))
  | stopped (s s' : Stop) : Run.Twins agree (.done (.error s)) (.done (.error s'))
  | ask {c c' : Call} {next next' : Answer → Run (Except Stop α)} : c.Alike agree c' →
      (∀ answer, Run.Twins agree (next answer) (next' answer)) →
      Run.Twins agree (.ask c next) (.ask c' next')

namespace Run

variable {α β : Type}

theorem twins_refl (run : Run (Except Stop α)) : Twins agree run run := by
  induction run with
  | done r =>
    cases r with
    | ok a => exact .well a
    | error s => exact .stopped s s
  | ask c next ih => exact .ask (.same c) ih

theorem Twins.bind {run run' : Run (Except Stop α)} {f f' : Except Stop α → Run (Except Stop β)}
    (h : Twins agree run run') (hok : ∀ a, Twins agree (f (.ok a)) (f' (.ok a)))
    (herror : ∀ s s', Twins agree (f (.error s)) (f' (.error s'))) :
    Twins agree (run >>= f) (run' >>= f') := by
  induction h with
  | well a => exact hok a
  | stopped s s' => exact herror s s'
  | ask hc _ ih => exact .ask hc ih

/-- A blind script gives both of two twins the same answers. -/
theorem Twins.perform {run run' : Run (Except Stop α)} (h : Twins agree run run') {script : Script}
    (hblind : script.Blind) {past past' : List Exchange}
    (hpast : List.Forall₂ (Exchange.Alike agree) past past') :
    List.Forall₂ (Exchange.Alike agree) (run.perform script.answer past).2
      (run'.perform script.answer past').2 := by
  induction h generalizing past past' with
  | well a => exact hpast
  | stopped s s' => exact hpast
  | @ask c c' next next' hc _ ih =>
    have hanswer : script past c = script past' c' := hblind.answer_eq hpast hc
    have hnow : List.Forall₂ (Exchange.Alike agree) (past ++ [(c, script past c)])
        (past' ++ [(c', script past' c')]) :=
      List.rel_append hpast (.cons ⟨hc, hanswer⟩ .nil)
    have hrest := ih (script past c) hnow
    show List.Forall₂ _ ((next (script past c)).perform script.answer _).2
      ((next' (script past' c')).perform script.answer _).2
    rw [← hanswer] at hrest ⊢
    exact hrest

end Run

namespace Build

variable {α β : Type} {o : Options} {open? : Option Path}

/-- Two parts of a run that are twins. -/
abbrev Twins (agree : Text → Text → Prop) (b b' : Build α) : Prop := Run.Twins agree b.run b'.run

theorem Twins.bind {b b' : Build α} {f f' : α → Build β} (hb : Twins agree b b')
    (hf : ∀ a, Twins agree (f a) (f' a)) : Twins agree (b >>= f) (b' >>= f') := by
  unfold Twins
  rw [ExceptT.run_bind, ExceptT.run_bind]
  exact Run.Twins.bind hb hf fun s s' => .stopped s s'

theorem twins_call {c c' : Call} (h : c.Alike agree c') : Twins agree (call c) (call c') :=
  .ask h fun answer => .well answer

theorem twins_parting (path : Path) (s s' : Stop) :
    Twins agree (parting path s : Build α) (parting path s') := by
  refine .ask (.same _) fun answer => ?_
  cases answer with
  | ok u => exact .stopped s s'
  | error f => exact .stopped _ _

theorem Twins.leaving {b b' : Build α} (h : Twins agree b b') (open? : Option Path) :
    Twins agree (leaving open? b) (leaving open? b') := by
  cases open? with
  | none => exact h
  | some path =>
    unfold Twins
    rw [run_leaving, run_leaving]
    exact Run.Twins.bind h .well fun s s' => twins_parting path s s'

/-! Contents in the errands of a run. -/

/-- Of a content only its length is told. -/
theorem sanitize_content (content : Text) :
    Metadata.sanitize [("content", .text content)] =
      Fields.ofList [("content_present", .bool true), ("content_length", .ofNat content.length)] := by
  unfold Metadata.sanitize
  rw [List.mergeSort_singleton]
  rfl

variable {index : Nat} {path : Path} {content content' encoding : Text} {f f' : Failure}

theorem event_writing (hlength : content.length = content'.length) (error : Option Text) :
    (writing index path content).event error = (writing index path content').event error := by
  unfold Attempt.event writing
  rw [sanitize_content, sanitize_content, hlength]

theorem settle_writing (hlength : content.length = content'.length) (o : Options) (tells : Bool)
    (answer : Answer) :
    settle o (writing index path content) tells answer = settle o (writing index path content') tells answer := by
  have htell (error : Option Text) :
      tell o (writing index path content) error = tell o (writing index path content') error := by
    unfold tell
    rw [event_writing hlength]
    rfl
  cases answer with
  | ok u =>
    unfold settle
    dsimp only
    rw [htell]
  | error f =>
    unfold settle
    dsimp only
    rw [htell]
    rfl

theorem twins_settle_error (o : Options) (a : Attempt) (tells : Bool) (hwrite : a.operation = .write)
    (hexpected : f.isExpected = f'.isExpected) (hagree : agree f.reason f'.reason) :
    Twins agree (settle o a tells (.error f)) (settle o a tells (.error f')) := by
  unfold settle
  dsimp only
  rw [← hexpected]
  split
  · refine Twins.bind ?_ fun _ => .stopped _ _
    unfold tell
    split
    · refine .ask (.told ?_) fun answer => Run.twins_refl _
      unfold Attempt.event
      rw [hwrite]
      exact .unwritten hagree
    · exact Run.twins_refl _
  · exact .stopped _ _

/-- Two errands that differ in the content of a file alone. -/
inductive Errand.Alike (agree : Text → Text → Prop) : Errand → Errand → Prop where
  | same (errand : Errand) : Errand.Alike agree errand errand
  | written {index : Nat} {path : Path} {content content' : Text} {bytes bytes' : Bytes} :
      content.length = content'.length →
      Errand.Alike agree (.attempt (writing index path content) (.write path bytes))
        (.attempt (writing index path content') (.write path bytes'))
  | unable {index : Nat} {path : Path} {content content' : Text} {f f' : Failure} :
      content.length = content'.length → f.isExpected = f'.isExpected → agree f.reason f'.reason →
      Errand.Alike agree (.unable (writing index path content) f) (.unable (writing index path content') f')

variable {errand errand' : Errand}

theorem Errand.Alike.leaves_eq (h : errand.Alike agree errand') (open? : Option Path) :
    errand.leaves open? = errand'.leaves open? := by
  cases h with
  | same => rfl
  | written => rfl
  | unable => rfl

theorem Errand.Alike.twins (h : errand.Alike agree errand') (o : Options) (open? : Option Path) :
    Twins agree (errand.run o open?) (errand'.run o open?) := by
  cases h with
  | same => exact Run.twins_refl _
  | written hlength =>
    refine (twins_call .written).bind fun answer => ?_
    rw [settle_writing hlength]
    exact Run.twins_refl _
  | @unable index path content content' f f' hlength hexpected hagree =>
    show Twins agree (leaving open? _) (leaving open? _)
    rw [settle_writing hlength]
    exact (twins_settle_error o _ true rfl hexpected hagree).leaving open?

theorem twins_carryOut {errands errands' : List Errand} (o : Options) (open? : Option Path)
    (h : List.Forall₂ (Errand.Alike agree) errands errands') :
    Twins agree (carryOut o open? errands) (carryOut o open? errands') := by
  induction h generalizing open? with
  | nil => exact .well ()
  | cons herrand _ ih =>
    refine (herrand.twins o open?).bind fun _ => ?_
    rw [herrand.leaves_eq]
    exact ih _

end Build

namespace Entry

def bare (e : Entry) : Entry := { e with content := none }

/-- Two entries are the same but for what is written to a file, which is as long in both and can be
encoded in both or neither. -/
structure Resembles (encoding : Text) (e e' : Entry) : Prop where
  rest : e' = { e with content := e'.content }
  content : e.isDirectory = false → e.target = none →
    Option.Rel (fun content content' => content.length = content'.length ∧
      (Build.encodeContent encoding content).isOk = (Build.encodeContent encoding content').isOk)
      e.content e'.content

theorem Resembles.bare_eq {encoding : Text} {e e' : Entry} (h : e.Resembles encoding e') :
    e.bare = e'.bare := by
  rw [h.rest]
  rfl

/-- The content of a file can't be encoded, for this reason. -/
def Unfit (encoding : Text) (e : Entry) (reason : Text) : Prop :=
  e.isDirectory = false ∧ e.target = none ∧
    ∃ content ∈ e.content, ∃ f, Build.encodeContent encoding content = .error f ∧ f.reason = reason

/-- Two entries resemble one another, and the reasons why their contents can't be encoded agree. -/
structure Matches (agree : Text → Text → Prop) (encoding : Text) (e e' : Entry) : Prop
    extends e.Resembles encoding e' where
  reasons : ∀ reason reason', e.Unfit encoding reason → e'.Unfit encoding reason' → agree reason reason'

end Entry

namespace Build

open Cursor (standing recorded depthAt)

variable {index : Nat} {path root : Path} {content content' encoding : Text} {f f' : Failure}
  {earlier earlier' es es' : List Entry} {e e' : Entry}

/-! Contents do not matter to anything else on an agenda. -/

theorem standing_bare (root : Path) (earlier : List Entry) (level : Int) :
    standing root (earlier.map Entry.bare) level = standing root earlier level := by
  have hrecorded : recorded (earlier.map Entry.bare) = recorded earlier := by
    unfold recorded
    rw [List.foldl_map]
    rfl
  have hdepth : depthAt (earlier.map Entry.bare) level = depthAt earlier level := by
    unfold depthAt
    rw [List.head?_map, Option.map_map]
    rfl
  unfold standing
  rw [hrecorded, hdepth]

theorem spot_bare (root : Path) (earlier : List Entry) (e : Entry) :
    spot root (earlier.map Entry.bare) e.bare = spot root earlier e := by
  unfold spot
  rw [standing_bare]
  rfl

theorem arrivals_bare (root : Path) (earlier : List Entry) (e : Entry) :
    arrivals root (earlier.map Entry.bare) e.bare = arrivals root earlier e := by
  unfold arrivals
  rw [List.getLast?_map, List.length_map]
  cases earlier.getLast? with
  | none => rfl
  | some p =>
    dsimp only [Option.map_some]
    rw [standing_bare]
    rfl

/-- Whether a failure to encode is expected is up to the encoding. -/
theorem isExpected_of_encodeContent (h : encodeContent encoding content = .error f)
    (h' : encodeContent encoding content' = .error f') : f.isExpected = f'.isExpected := by
  unfold encodeContent at h h'
  cases hset : Charset.lookup encoding with
  | error fault =>
    rw [hset] at h h'
    cases h
    cases h'
    rfl
  | ok charset =>
    rw [hset] at h h'
    have hrange {content : Text} {f : Failure}
        (h : (charset.encode content).mapError Failure.unencodable = .error f) : f.isExpected = true := by
      cases hcode : charset.encode content with
      | ok bytes =>
        rw [hcode] at h
        cases h
      | error fault =>
        rw [hcode] at h
        cases h
        rfl
    exact (hrange h).trans (hrange h').symm

theorem alike_contentErrand (index : Nat) (path : Path) (hlength : content.length = content'.length)
    (hfit : (encodeContent encoding content).isOk = (encodeContent encoding content').isOk)
    (hagree : ∀ f f', encodeContent encoding content = .error f →
      encodeContent encoding content' = .error f' → agree f.reason f'.reason) :
    (contentErrand encoding index path content).Alike agree (contentErrand encoding index path content') := by
  unfold contentErrand
  cases hcode : encodeContent encoding content with
  | ok bytes =>
    cases hcode' : encodeContent encoding content' with
    | ok bytes' => exact .written hlength
    | error f' =>
      rw [hcode, hcode'] at hfit
      cases hfit
  | error f =>
    cases hcode' : encodeContent encoding content' with
    | ok bytes' =>
      rw [hcode, hcode'] at hfit
      cases hfit
    | error f' =>
      exact .unable hlength (isExpected_of_encodeContent hcode hcode') (hagree f f' hcode hcode')

theorem alike_of_eq {xs ys : List Errand} (h : xs = ys) : List.Forall₂ (Errand.Alike agree) xs ys := by
  rw [h]
  exact List.forall₂_same.2 fun errand _ => .same errand

theorem alike_fileErrands (index : Nat) (path : Path) (h : e.Matches agree encoding e')
    (hd : e.isDirectory = false) (ht : e.target = none) :
    List.Forall₂ (Errand.Alike agree) (fileErrands encoding index e path)
      (fileErrands encoding index e' path) := by
  have hcontent : List.Forall₂ (Errand.Alike agree)
      (e.content.toList.map (contentErrand encoding index path))
      (e'.content.toList.map (contentErrand encoding index path)) := by
    have hrel := h.content hd ht
    cases hc : e.content with
    | none =>
      cases hc' : e'.content with
      | none => exact .nil
      | some content' =>
        rw [hc, hc'] at hrel
        cases hrel
    | some content =>
      cases hc' : e'.content with
      | none =>
        rw [hc, hc'] at hrel
        cases hrel
      | some content' =>
        rw [hc, hc'] at hrel
        cases hrel with
        | some hrel =>
          refine .cons (alike_contentErrand index path hrel.1 hrel.2 fun f f' hf hf' => ?_) .nil
          have hd' : e'.isDirectory = false := by rw [h.rest, ← hd]
          have ht' : e'.target = none := by rw [h.rest, ← ht]
          exact h.reasons _ _ ⟨hd, ht, content, hc, f, hf, rfl⟩ ⟨hd', ht', content', hc', f', hf', rfl⟩
  rw [h.rest] at hcontent ⊢
  exact List.rel_append (.cons (.same _) hcontent) (alike_of_eq rfl)

theorem alike_nodeErrands (index : Nat) (path : Path) (h : e.Matches agree encoding e') :
    List.Forall₂ (Errand.Alike agree) (nodeErrands encoding index e path)
      (nodeErrands encoding index e' path) := by
  unfold nodeErrands
  cases hd : e.isDirectory with
  | true =>
    rw [h.rest, hd]
    exact alike_of_eq rfl
  | false =>
    cases ht : e.target with
    | some target =>
      rw [h.rest, hd, ht]
      exact alike_of_eq rfl
    | none =>
      have hfile := alike_fileErrands index path h hd ht
      rw [h.rest] at hfile ⊢
      rw [hd, ht]
      exact hfile

theorem alike_entryErrands (root : Path) (hearlier : earlier.map Entry.bare = earlier'.map Entry.bare)
    (h : e.Matches agree encoding e') :
    List.Forall₂ (Errand.Alike agree) (entryErrands root encoding earlier e)
      (entryErrands root encoding earlier' e') := by
  have harrivals : arrivals root earlier e = arrivals root earlier' e' := by
    rw [← arrivals_bare, hearlier, h.bare_eq, arrivals_bare]
  have hspot : spot root earlier e = spot root earlier' e' := by
    rw [← spot_bare, hearlier, h.bare_eq, spot_bare]
  have hlength : earlier.length = earlier'.length := by
    simpa using congrArg List.length hearlier
  have hplacing : placing earlier.length (standing root earlier e.level) e.name =
      placing earlier'.length (standing root earlier' e'.level) e'.name := by
    rw [hlength, ← standing_bare, hearlier, standing_bare, h.rest]
  have howner : ownerErrands earlier.length e.bare (spot root earlier e) =
      ownerErrands earlier'.length e'.bare (spot root earlier' e') := by
    rw [hlength, h.bare_eq, hspot]
  unfold entryErrands
  refine List.rel_append (alike_of_eq harrivals) (List.rel_append (alike_of_eq hplacing)
    (List.rel_append ?_ (alike_of_eq howner)))
  rw [hlength, hspot]
  exact alike_nodeErrands _ _ h

/-- What is the same for each entry but for the contents is the same for all of them. -/
theorem rel_eachFrom {γ : Type} {f : List Entry → Entry → γ} {r : γ → γ → Prop}
    (hf : ∀ earlier earlier' e e', earlier.map Entry.bare = earlier'.map Entry.bare →
      e.Matches agree encoding e' → r (f earlier e) (f earlier' e'))
    (h : List.Forall₂ (Entry.Matches agree encoding) es es')
    (hearlier : earlier.map Entry.bare = earlier'.map Entry.bare) :
    List.Forall₂ r (Plan.eachFrom f earlier es) (Plan.eachFrom f earlier' es') := by
  induction h generalizing earlier earlier' with
  | nil => exact .nil
  | @cons e e' es es' he _ ih =>
    have hnext : (earlier ++ [e]).map Entry.bare = (earlier' ++ [e']).map Entry.bare := by
      rw [List.map_append, List.map_append, hearlier, List.map_singleton, List.map_singleton, he.bare_eq]
    exact .cons (hf _ _ _ _ hearlier he) (ih hnext)

theorem twins_entries (o : Options) (root : Path)
    (h : List.Forall₂ (Entry.Matches agree o.encoding) es es') :
    Run.Twins agree (Build.entries o root es) (Build.entries o root es') := by
  have hspots : Plan.each (spot root) es = Plan.each (spot root) es' := by
    have hspot (earlier earlier' : List Entry) (e e' : Entry)
        (hearlier : earlier.map Entry.bare = earlier'.map Entry.bare)
        (he : e.Matches agree o.encoding e') : spot root earlier e = spot root earlier' e' := by
      rw [← spot_bare, hearlier, he.bare_eq, spot_bare]
    exact (congrFun₂ List.forall₂_eq_eq_eq _ _).mp (rel_eachFrom hspot h rfl)
  have hagenda : List.Forall₂ (Errand.Alike agree) (agenda root o.encoding es)
      (agenda root o.encoding es') :=
    List.rel_flatten (rel_eachFrom (fun _ _ _ _ => alike_entryErrands root) h rfl)
  rw [entries_eq_carryOut, entries_eq_carryOut, hspots]
  exact Twins.bind (twins_carryOut o none hagenda) fun _ => .well _

/-- Under a script that does not look at contents, runs over entries that resemble one another tell the
same events, but for the reasons why the content of an entry and of its counterpart can't be encoded. So
all events are the same where there are no such reasons, or the reasons read alike. -/
theorem events_hide_contents (o : Options) (root : Path)
    (h : List.Forall₂ (Entry.Resembles o.encoding) es es') {script : Script} (hblind : script.Blind) :
    List.Forall₂ (Event.Alike fun reason reason' => ∃ e e', (e, e') ∈ es.zip es' ∧
        e.Unfit o.encoding reason ∧ e'.Unfit o.encoding reason')
      (told ((Build.entries o root es).play script).2) (told ((Build.entries o root es').play script).2) ∧
    ((∀ e e' reason reason', (e, e') ∈ es.zip es' → e.Unfit o.encoding reason →
        e'.Unfit o.encoding reason' → reason = reason') →
      told ((Build.entries o root es).play script).2 = told ((Build.entries o root es').play script).2) := by
  have hmatch {agree : Text → Text → Prop} (hagree : ∀ e e' reason reason', (e, e') ∈ es.zip es' →
      e.Unfit o.encoding reason → e'.Unfit o.encoding reason' → agree reason reason') :
      List.Forall₂ (Event.Alike agree) (told ((Build.entries o root es).play script).2)
        (told ((Build.entries o root es').play script).2) := by
    have hpairs : List.Forall₂ (Entry.Matches agree o.encoding) es es' := by
      obtain ⟨hlength, hzip⟩ := List.forall₂_iff_zip.1 h
      refine List.forall₂_iff_zip.2 ⟨hlength, fun hm => ?_⟩
      exact ⟨hzip hm, fun reason reason' => hagree _ _ reason reason' hm⟩
    exact told_alike ((twins_entries o root hpairs).perform hblind .nil)
  refine ⟨hmatch fun e e' reason reason' hm hreason hreason' => ⟨e, e', hm, hreason, hreason'⟩, fun hsame => ?_⟩
  have heq := (hmatch hsame).imp fun _ _ hevent => hevent.eq fun _ _ hreason => hreason
  exact (congrFun₂ List.forall₂_eq_eq_eq _ _).mp heq

/-- A file with something in it. -/
def note (content : Text) : Entry := { name := "f", level := 0, line := 1, content := some content }

theorem note_resembles (h : content.length = content'.length ∧
    (encodeContent encoding content).isOk = (encodeContent encoding content').isOk) :
    (note content).Resembles encoding (note content') := ⟨rfl, fun _ _ => .some h⟩

theorem events_hide_letter :
    List.Forall₂ (Entry.Resembles "utf-8") [note "x"] [note "y"] ∧ Script.Blind .smooth ∧
      told ((Build.entries { observed := true } .here [note "x"]).play .smooth).2 =
        told ((Build.entries { observed := true } .here [note "y"]).play .smooth).2 := by
  have hnotes : List.Forall₂ (Entry.Resembles "utf-8") [note "x"] [note "y"] :=
    .cons (note_resembles (by cbv)) .nil
  have hblind : Script.Blind .smooth := fun _ _ => rfl
  obtain ⟨-, hsame⟩ := events_hide_contents { observed := true } .here hnotes hblind
  refine ⟨hnotes, hblind, hsame fun e e' reason reason' hm hreason _ => ?_⟩
  obtain ⟨rfl, rfl⟩ := Prod.mk.inj (List.mem_singleton.1 hm)
  obtain ⟨-, -, content, hcontent, f, hcode, -⟩ := hreason
  cases hcontent
  have hfit : encodeContent "utf-8" "x" = .ok [0x78] := by cbv
  cases hfit.symm.trans hcode

/-- Two letters that are no part of a character set are told apart by the events of a run, though neither
is written. -/
theorem events_show_letter :
    List.Forall₂ (Entry.Resembles "ascii") [note "\u00e9"] [note "\u00fc"] ∧ Script.Blind .smooth ∧
      told ((Build.entries { encoding := "ascii", observed := true } .here [note "\u00e9"]).play .smooth).2 ≠
        told ((Build.entries { encoding := "ascii", observed := true } .here [note "\u00fc"]).play .smooth).2 := by
  have hacute : (told ((Build.entries { encoding := "ascii", observed := true } .here
      [note "\u00e9"]).play .smooth).2).map Event.error = [none, some (Text.ofString
        "'ascii' codec can't encode character '\\xe9' in position 0: ordinal not in range(128)")] := by
    cbv
  have humlaut : (told ((Build.entries { encoding := "ascii", observed := true } .here
      [note "\u00fc"]).play .smooth).2).map Event.error = [none, some (Text.ofString
        "'ascii' codec can't encode character '\\xfc' in position 0: ordinal not in range(128)")] := by
    cbv
  refine ⟨.cons (note_resembles (by cbv)) .nil, fun _ _ => rfl, fun h => ?_⟩
  rw [h, humlaut] at hacute
  exact absurd hacute (by decide)

end Build

end TreePlan
