import Workflow.Describe
import Workflow.Main
import Workflow.Package
import Workflow.Proofs.Abstraction
import Workflow.Proofs.Clashes
import Workflow.Proofs.Contents
import Workflow.Proofs.DepthFirst
import Workflow.Proofs.Keeping
import Workflow.Proofs.Shapes
import Workflow.Proofs.Linking
import Workflow.Proofs.Permissions
import Workflow.Proofs.Extent
import Workflow.Proofs.Answers
import Workflow.Proofs.Rates
import Workflow.Proofs.Renaming
import Workflow.Proofs.Relabelling
import Workflow.Proofs.Locality
import Workflow.Proofs.Stepwise
import Workflow.Proofs.Texts
import Workflow.Proofs.Sequencing
import Workflow.Proofs.Defaults
import Workflow.Proofs.Paths
import Workflow.Proofs.Rejections
import Workflow.Proofs.Rules
import Workflow.Proofs.Legibility
