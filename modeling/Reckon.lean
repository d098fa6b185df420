import Reckon.CaseTable
import Reckon.Main
import Reckon.Proofs.Joining
import Reckon.Proofs.Expressing
import Reckon.Proofs.Running
import Reckon.Proofs.Viability
import Reckon.Proofs.Respacing
import Reckon.Proofs.Shifting
import Reckon.Proofs.CodePoints
import Reckon.Proofs.Failing
import Reckon.Proofs.Connectives
import Reckon.Proofs.Integers
import Reckon.Proofs.Bracketing
import Reckon.Proofs.PostfixText
import Reckon.Proofs.Progress
import Reckon.Proofs.Flaws
import Reckon.Proofs.Status
import Reckon.Proofs.Decoding
import Reckon.Proofs.Limits
