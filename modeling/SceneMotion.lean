import SceneMotion.Expr.Shape
import SceneMotion.Player
import SceneMotion.Scene.Sample
import SceneMotion.Track.Direct
import SceneMotion.Proofs.Dependency.EdgeList
import SceneMotion.Proofs.Dependency.UpdateOrder
import SceneMotion.Proofs.Scene.Exec
import SceneMotion.Proofs.Scene.Sort
import SceneMotion.Proofs.Scene.Members
import SceneMotion.Proofs.Scene.Operation
import SceneMotion.Proofs.Scene.Coherent
import SceneMotion.Proofs.Double
import SceneMotion.Proofs.Double.Counting
import SceneMotion.Proofs.Scene.UpToDate
import SceneMotion.Proofs.Scene.Tidy
import SceneMotion.Proofs.Scene.Jump
import SceneMotion.Proofs.Track.Mentions
import SceneMotion.Proofs.Scene.Commit
import SceneMotion.Proofs.Scene.Coverage
import SceneMotion.Proofs.Dependency.Refinement
import SceneMotion.Proofs.Dependency.Linking
import SceneMotion.Proofs.Expr.Grammar
import SceneMotion.Proofs.Track.Meaning
import SceneMotion.Proofs.Scene.Replacement
import SceneMotion.Proofs.Scene.Entries
import SceneMotion.Proofs.Scene.Loading
import SceneMotion.Proofs.Scene.DeclarationOrder
import SceneMotion.Proofs.Scene.Lasting
import SceneMotion.Proofs.Scene.Replay
import SceneMotion.Proofs.Scene.Coupling
import SceneMotion.Proofs.Scene.Alike
import SceneMotion.Proofs.Scene.LazySorting
import SceneMotion.Proofs.Scene.Checking
import SceneMotion.Proofs.Scene.Residue
import SceneMotion.Proofs.Expr.Spelling
import SceneMotion.Proofs.Expr.Writing
import SceneMotion.Proofs.Player
import SceneMotion.Proofs.Scene.AllOrNone
import SceneMotion.Proofs.Scene.Refusal
import SceneMotion.Proofs.Scene.Roster
import SceneMotion.Proofs.Track.Recording
import SceneMotion.Proofs.Dependency.Circuit
import SceneMotion.Proofs.Dependency.Askers
import SceneMotion.Proofs.Dependency.Stability
import SceneMotion.Proofs.Scene.CycleReport
import SceneMotion.Proofs.Scene.Stability
import SceneMotion.Proofs.Fields
import SceneMotion.Proofs.Scene.Accounting
import SceneMotion.Proofs.Expr.Pieces
import SceneMotion.Proofs.Expr.FirstOffence
import SceneMotion.Proofs.Names
import SceneMotion.Proofs.Dependency.Descendants
import SceneMotion.Proofs.Expr.Layout
import SceneMotion.Proofs.Track.Faults
import SceneMotion.Proofs.Track.Ledger
import SceneMotion.Proofs.Expr.Sound
import SceneMotion.Proofs.Track.Sharing
import SceneMotion.Proofs.Track.Walk
import SceneMotion.Proofs.Entity.Stamps
import SceneMotion.Proofs.Scene.Pause
import SceneMotion.Proofs.Track.FieldOrder
import SceneMotion.Proofs.Spline
import SceneMotion.Proofs.Exact
import SceneMotion.Proofs.Spline.Interpolation
import SceneMotion.Proofs.Geometry
import SceneMotion.Proofs.Facing
import SceneMotion.Proofs.Scene.Sampling
import SceneMotion.Proofs.Dependency.Dangling
import SceneMotion.Proofs.Scene.Dangling
import SceneMotion.Proofs.Frame
import SceneMotion.Proofs.Track.Composition
import SceneMotion.Proofs.Scene.Following
