import ScriptTidy.Main
import ScriptTidy.Proofs.Text.Offset
import ScriptTidy.Proofs.Text.Solid
import ScriptTidy.Proofs.Edit.Reach
import ScriptTidy.Proofs.Edit.Widened
import ScriptTidy.Proofs.Edit.Merged
import ScriptTidy.Proofs.Edit.Prepared
import ScriptTidy.Proofs.Import.Pruned
import ScriptTidy.Proofs.Import.Recorded
import ScriptTidy.Proofs.Transform.Untouched
import ScriptTidy.Proofs.Import.Fenced
import ScriptTidy.Proofs.Import.HeaderPlace
import ScriptTidy.Proofs.Transform.Conflicts
import ScriptTidy.Proofs.Transform.HeaderFirst
import ScriptTidy.Proofs.Import.PrunedClause
import ScriptTidy.Proofs.Edit.Removed
import ScriptTidy.Proofs.Import.Bindings
import ScriptTidy.Proofs.Tree.Thinned
import ScriptTidy.Proofs.Import.KeptUses
import ScriptTidy.Proofs.Transform.Settled
import ScriptTidy.Proofs.Options.RoundTrip
import ScriptTidy.Proofs.Run.DryRun
import ScriptTidy.Proofs.Transform.WrapSettles
import ScriptTidy.Proofs.Import.CutPoints
import ScriptTidy.Proofs.Edit.Seams
import ScriptTidy.Proofs.Transform.Bodies
import ScriptTidy.Proofs.Transform.GuardText
import ScriptTidy.Proofs.Edit.Landed
import ScriptTidy.Proofs.Transform.WrapEdits
import ScriptTidy.Proofs.Transform.Literals
import ScriptTidy.Proofs.Transform.ConsoleGone
import ScriptTidy.Proofs.Transform.FirstLine
import ScriptTidy.Proofs.Edit.Joined
import ScriptTidy.Proofs.Transform.Neighbours
import ScriptTidy.Proofs.Import.ClauseWeight
import ScriptTidy.Proofs.Import.PruneWeight
import ScriptTidy.Proofs.Run.Shrinks
import ScriptTidy.Proofs.Edit.AnyOrder
import ScriptTidy.Proofs.Transform.Keywords
import ScriptTidy.Proofs.Transform.Extracted
import ScriptTidy.Proofs.Files.Collected
