import MiniC.Run
import MiniC.Tree.Outline
import MiniC.Proofs.ControlFlow
import MiniC.Proofs.Ceilings
import MiniC.Proofs.Frames
import MiniC.Proofs.Programs
import MiniC.Proofs.Evaluators
import MiniC.Proofs.Expressions
import MiniC.Proofs.RoundTrip
import MiniC.Proofs.Isolation
import MiniC.Proofs.Stops
import MiniC.Proofs.Limits
import MiniC.Proofs.Width
import MiniC.Proofs.Positions
import MiniC.Proofs.Layout
import MiniC.Proofs.StepCeiling
import MiniC.Proofs.Prefixes
import MiniC.Proofs.Exact
import MiniC.Proofs.Kinds
import MiniC.Proofs.Modes
import MiniC.Proofs.Compound
import MiniC.Proofs.Formats
import MiniC.Proofs.Literals
import MiniC.Proofs.Locations
import MiniC.Proofs.Division
import MiniC.Proofs.Endings
import MiniC.Proofs.Progress
import MiniC.Proofs.Outlines
import MiniC.Proofs.Rounds
import MiniC.Proofs.Fields
import MiniC.Proofs.Scopes
import MiniC.Proofs.Walks
import MiniC.Proofs.Reports
