import TreePlan.Failure
import TreePlan.Path.Basic
import TreePlan.Trace.Event

/-!
A run as the calls it makes: it is done, or it asks for one call and goes on by the answer. What carries
out the calls is chosen when the run is performed, be it a file system, a script of answers or the
machine itself.
-/

namespace TreePlan

/-- A file is named by its path in the calls on its handle too. -/
inductive Call where
  | visit (path : Path)
  | makeDirectory (path : Path) (mode : Option Int)
  | createFile (path : Path)
  | write (path : Path) (content : Bytes)
  | close (path : Path)
  | setMode (path : Path) (mode : Int)
  | link (target : Text) (path : Path)
  | setOwner (path : Path) (owner group : Option Text) (follow : Bool)
  | observe (event : Event)

abbrev Answer := Except Failure Unit

inductive Run (α : Type) where
  | done (result : α)
  | ask (call : Call) (next : Answer → Run α)

namespace Run

def bind {α β : Type} : Run α → (α → Run β) → Run β
  | .done a, f => f a
  | .ask call next, f => .ask call fun answer => (next answer).bind f

theorem bind_done {α : Type} (run : Run α) : run.bind .done = run := by
  induction run with
  | done a => rfl
  | ask c next ih => simp only [bind, ih]

theorem bind_bind {α β γ : Type} (run : Run α) (f : α → Run β) (g : β → Run γ) :
    (run.bind f).bind g = run.bind fun a => (f a).bind g := by
  induction run with
  | done a => rfl
  | ask c next ih => simp only [bind, ih]

instance : Monad Run where
  pure := .done
  bind := bind

instance : LawfulMonad Run := .mk' _ bind_done (fun _ _ => rfl) bind_bind

def call (c : Call) : Run Answer := .ask c .done

/-- Carries out a run, each call in its turn. -/
def perform {m : Type → Type} [Monad m] {α : Type} (answer : Call → m Answer) : Run α → m α
  | .done a => pure a
  | .ask c next => do (next (← answer c)).perform answer

/-- To perform a run in two parts is to perform the first and then the second. -/
theorem perform_bind {m : Type → Type} [Monad m] [LawfulMonad m] {α β : Type}
    (answer : Call → m Answer) (run : Run α) (f : α → Run β) :
    (run >>= f).perform answer = run.perform answer >>= fun a => (f a).perform answer := by
  induction run with
  | done a => simp [perform, Bind.bind, Run.bind]
  | ask c next ih =>
    show (answer c >>= fun a => ((next a).bind f).perform answer) = _
    simp only [perform, bind_assoc]
    exact congrArg _ (funext ih)

end Run

end TreePlan
