import Stencil.Command.Run
import Stencil.Files.Store
import Stencil.Main
import Stencil.Proofs.Format
import Stencil.Proofs.Invariant
import Stencil.Proofs.Position
import Stencil.Proofs.Frame
import Stencil.Proofs.Opacity
import Stencil.Proofs.Order
import Stencil.Proofs.Undo
import Stencil.Proofs.Companion
import Stencil.Proofs.Workflow
import Stencil.Proofs.Arguments
import Stencil.Proofs.Delimiting
import Stencil.Proofs.Correspondence
import Stencil.Proofs.Nesting
import Stencil.Proofs.FirstFault
import Stencil.Proofs.Canonical
import Stencil.Proofs.Progress
