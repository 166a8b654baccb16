import SmallLisp.Main
import SmallLisp.Value.Agreement
import SmallLisp.Value.Listing
import SmallLisp.Proofs.Frames
import SmallLisp.Proofs.Confinement
import SmallLisp.Proofs.Machine
import SmallLisp.Proofs.Code
import SmallLisp.Proofs.Likeness
import SmallLisp.Proofs.NativeLikeness
import SmallLisp.Proofs.Separation
import SmallLisp.Proofs.FrozenModules
import SmallLisp.Proofs.Isolation
import SmallLisp.Proofs.Copies
import SmallLisp.Proofs.Reevaluation
import SmallLisp.Proofs.Sessions
import SmallLisp.Proofs.LoadStack
import SmallLisp.Proofs.PlainFaults
import SmallLisp.Proofs.PathFaults
import SmallLisp.Proofs.EvaluationFaults
import SmallLisp.Proofs.PastOutput
import SmallLisp.Proofs.JoinedTexts
import SmallLisp.Proofs.ConsoleInputs
import SmallLisp.Proofs.FailedLoads
import SmallLisp.Proofs.Grammar
import SmallLisp.Proofs.TokenBoundaries
import SmallLisp.Proofs.ReadingProgress
import SmallLisp.Proofs.ReadingLoops
import SmallLisp.Proofs.Completions
import SmallLisp.Proofs.NearestNumbers
import SmallLisp.Proofs.ReadBack
import SmallLisp.Proofs.NormalForms
import SmallLisp.Proofs.SuccessiveTexts
import SmallLisp.Proofs.ConsoleStates
import SmallLisp.Proofs.Bindings
import SmallLisp.Proofs.FailureTrails
import SmallLisp.Proofs.SoundHeaps
import SmallLisp.Proofs.Termination
import SmallLisp.Proofs.Tokenization
import SmallLisp.Proofs.Highlighting
import SmallLisp.Proofs.HeadResolution
import SmallLisp.Proofs.Operands
import SmallLisp.Proofs.Visibility
import SmallLisp.Proofs.Formatting
import SmallLisp.Proofs.NumberTokens
