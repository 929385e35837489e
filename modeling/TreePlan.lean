import TreePlan.FileSystem.Listing
import TreePlan.Main
import TreePlan.Proofs.Build.Exchange
import TreePlan.Proofs.Build.Step
import TreePlan.Proofs.Path.Name
import TreePlan.Proofs.Build.Containment
import TreePlan.Proofs.Except
import TreePlan.Proofs.Layout.Nesting
import TreePlan.Proofs.Build.Plan
import TreePlan.Proofs.Build.Tracking
import TreePlan.Proofs.Build.PlannedCalls
import TreePlan.Proofs.FileSystem.Leads
import TreePlan.Proofs.FileSystem.Spelling
import TreePlan.Proofs.FileSystem.Below
import TreePlan.Proofs.FileSystem.Growth
import TreePlan.Proofs.Build.Execution
import TreePlan.Proofs.Build.Making
import TreePlan.Proofs.Build.Built
import TreePlan.Proofs.Layout.Creation
import TreePlan.Proofs.FileSystem.Misuse
import TreePlan.Proofs.Layout.Escape
import TreePlan.Proofs.Build.Stopping
import TreePlan.Proofs.Layout.Reading
import TreePlan.Proofs.Layout.WellFormed
import TreePlan.Proofs.Json.Quoting
import TreePlan.Proofs.Json.Spelling
import TreePlan.Proofs.Layout.Writing
import TreePlan.Proofs.Layout.RoundTrip
import TreePlan.Proofs.Build.Errand
import TreePlan.Proofs.Build.Agenda
import TreePlan.Proofs.Build.FirstFailure
import TreePlan.Proofs.Build.Telling
import TreePlan.Proofs.Build.Disclosure
import TreePlan.Proofs.Build.Descent
import TreePlan.Proofs.Layout.Block
import TreePlan.Proofs.Build.Handle
import TreePlan.Proofs.Build.Stray
import TreePlan.Proofs.Layout.Shape
import TreePlan.Proofs.Encoding.Pieces
import TreePlan.Proofs.FileSystem.Appending
import TreePlan.Proofs.Text.Lines
import TreePlan.Proofs.Trace.Recall
import TreePlan.Proofs.Trace.Store
import TreePlan.Proofs.Layout.Word
import TreePlan.Proofs.Layout.Rows
import TreePlan.Proofs.Layout.Widths
import TreePlan.Proofs.Layout.Reindent
import TreePlan.Proofs.Layout.Joining
import TreePlan.Proofs.Json.Frame
import TreePlan.Proofs.Json.Padding
import TreePlan.Proofs.Json.Ascii
import TreePlan.Proofs.Json.Remnant
import TreePlan.Proofs.Layout.Trailing
import TreePlan.Proofs.Encoding.Faults
import TreePlan.Proofs.Trace.Remnant
import TreePlan.Proofs.FileSystem.Vacancy
import TreePlan.Proofs.Build.Forming
import TreePlan.Proofs.Build.Settled
import TreePlan.Proofs.Build.Blocks
import TreePlan.Proofs.Layout.Completion
import TreePlan.Proofs.Layout.Modes
import TreePlan.Proofs.Layout.Siblings
import TreePlan.Proofs.Layout.Beginning
import TreePlan.Proofs.Layout.Remarks
import TreePlan.Proofs.Layout.Strictness
import TreePlan.Proofs.Build.Unwritten
import TreePlan.Proofs.Settings.Merging
import TreePlan.Proofs.Settings.Encoding
import TreePlan.Proofs.Text.Order
import TreePlan.Proofs.Trace.Metadata
import TreePlan.Proofs.Settings.Standing
import TreePlan.Proofs.Settings.Layers
import TreePlan.Proofs.Settings.Loss
import TreePlan.Proofs.Json.Extent
import TreePlan.Proofs.Layout.Extras
import TreePlan.Proofs.CommandLine.Check
import TreePlan.Proofs.Path.Composition
import TreePlan.Proofs.Text.Digit
import TreePlan.Proofs.Account.Resolution
import TreePlan.Proofs.Build.Ownership
