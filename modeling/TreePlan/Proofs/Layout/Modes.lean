import Mathlib
import TreePlan.Proofs.Layout.Completion

/-! The modes that nodes come to. A file has its mode set once it is written, a directory is made with it, and an
owner is given a node after that. So a file keeps the mode asked for unless its owner is set too, which takes the
bits that would run it as another user, and a directory has what the mask and the making of directories leave. -/

namespace TreePlan

open Utf8 (encodeName)

open FileSystem (NewNode Changes modeOnceTouched newDirectoryMode modeBits dropBit)

namespace FileSystem

variable {m : Nat} {c : Call} {n l parent : Node}

/-- The bits that a new directory does not take from the mode asked for: those of the mask, and setuid and
setgid. -/
def withheld : Nat := 0o6022

end FileSystem

namespace Build

variable {encoding : Text} {e : Entry} {p : Path} {m : Nat} {n l parent : Node}
  {steps : List (Except Failure Call)}

/-- Setting the owner changes no more of the mode than it does of a file. -/
theorem Changed.owner (h : Changed ((Plan.ownerCalls e p).map .ok) n l) : l.kind = n.kind ∧
    (n.isDirectory = true → l.mode = n.mode) ∧
    (n.isDirectory = false → l.mode = if e.hasOwnership then modeOnceTouched n.mode else n.mode) := by
  unfold Plan.ownerCalls at h
  cases ho : e.hasOwnership with
  | false =>
    rw [if_neg (by simp [ho])] at h
    cases h
    exact ⟨rfl, fun _ => rfl, fun _ => rfl⟩
  | true =>
    rw [if_pos ho] at h
    cases h with
    | step hc h =>
      cases h
      cases hc with
      | setOwner => exact ⟨rfl, fun hd => if_pos hd, fun hd => if_neg (by simp [hd])⟩

end Build

namespace Layout

open Build

variable {fs gs : FileSystem} {now layout : Text} {input : Bytes} {place : Option Text}
  {settings : Option Settings} {status : Status} {base : Address}

end Layout

end TreePlan
