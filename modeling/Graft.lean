import Graft.Campaign.Program
import Graft.Main
import Graft.Mutation.Workbench
import Graft.Proofs.Mutation.Context
import Graft.Proofs.Mutation.Depth
import Graft.Proofs.Mutation.Inhabited
import Graft.Proofs.Mutation.History
import Graft.Proofs.Mutation.Locality
import Graft.Proofs.Mutation.Safety
import Graft.Random.Script
import Graft.Settings.Loading
import Graft.Walk
import Graft.Grammar.Passes
import Graft.Proofs.Mutation.Accounting
import Graft.Mutation.Errand
import Graft.Mutation.Floor
import Graft.Proofs.Corpus
import Graft.Proofs.Mutation.Floor
import Graft.Proofs.Sharing.Foregone
import Graft.Proofs.Campaign.Outputs
import Graft.Proofs.Mutation.Unspliced
import Graft.Proofs.Campaign.Independence
import Graft.Proofs.Sharing.Course
import Graft.Proofs.Mutation.Errand
import Graft.Proofs.Mutation.Frame
import Graft.Proofs.Campaign.Steps
import Graft.Proofs.Campaign.Books
import Graft.Proofs.Mutation.Names
import Graft.Proofs.Campaign.Safety
import Graft.Proofs.Mutation.Renumbering
import Graft.Proofs.Mutation.Generation
import Graft.Proofs.Grammar.Completeness
import Graft.Proofs.Walk
import Graft.Proofs.Mutation.RepetitionEdit
import Graft.Proofs.Mutation.RepetitionCopy
import Graft.Proofs.Sample.Truncation
import Graft.Proofs.Mutation.Choice
import Graft.Proofs.Mutation.Splicing
import Graft.Proofs.Mutation.Refusal
import Graft.Proofs.Grammar.Verdict
import Graft.Proofs.Grammar.Alignment
import Graft.Proofs.Sample.Portability
import Graft.Proofs.Proportion
import Graft.Proofs.Mutation.Switches
import Graft.Proofs.Random.Drawing
import Graft.Proofs.Random.Boundary
import Graft.Proofs.Mutation.Drawing
import Graft.Proofs.Mutation.Settling
import Graft.Proofs.Mutation.Endless
import Graft.Proofs.Mutation.Never
import Graft.Proofs.Tree.Lens
import Graft.Proofs.Mutation.LeastDraw
import Graft.Proofs.Campaign.Discernment
