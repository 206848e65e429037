import TagScript.Main
import TagScript.Proofs.CallDepth
import TagScript.Proofs.CallScope
import TagScript.Proofs.Environments.Locality
import TagScript.Proofs.Layout.Independence
import TagScript.Proofs.Locks
import TagScript.Proofs.LoopPolicy
import TagScript.Proofs.Markup.Decoding
import TagScript.Proofs.Markup.Failures
import TagScript.Proofs.Markup.RoundTrip
import TagScript.Proofs.Markup.Coordinates
import TagScript.Proofs.Rendering
import TagScript.Proofs.Reuse
import TagScript.Proofs.ReturnSlot.FirstReturn
import TagScript.Proofs.Safety.Crash
import TagScript.Proofs.Safety.Stuck
import TagScript.Proofs.Safety.WellFormed
import TagScript.Proofs.Shape.Blame
import TagScript.Proofs.Termination
import TagScript.Proofs.LoopSchedule
import TagScript.Proofs.Eval.Tracing
import TagScript.Proofs.Transparency
import TagScript.Proofs.Refusals
import TagScript.Proofs.Markup.Nesting
import TagScript.Proofs.Binary64.RoundTrip
import TagScript.Proofs.Integer.Numeral
import TagScript.Proofs.ListChange
import TagScript.Proofs.Binary64.Truncation
import TagScript.Proofs.Order
import TagScript.Proofs.Splitting
import TagScript.Proofs.FileHistory
import TagScript.Proofs.Outline.Lossless
import TagScript.Proofs.Markup.Hints
import TagScript.Proofs.SourceLines
