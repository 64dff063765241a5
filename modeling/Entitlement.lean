import Entitlement.Main
import Entitlement.Proofs.Absence.Order
import Entitlement.Proofs.Calendar.Partition
import Entitlement.Proofs.Chain.BareGrant
import Entitlement.Proofs.Chain.Capacity
import Entitlement.Proofs.Chain.CutOff
import Entitlement.Proofs.Chain.Granting
import Entitlement.Proofs.Chain.Limits
import Entitlement.Proofs.Chain.Lossless
import Entitlement.Proofs.Chain.Redating
import Entitlement.Proofs.Chain.Reordering
import Entitlement.Proofs.Ledger.Saving
import Entitlement.Proofs.Period.Changes
import Entitlement.Proofs.Period.Conservation
import Entitlement.Proofs.Problem.Union
import Entitlement.Proofs.Recap.Rows
import Entitlement.Proofs.Replacing.Protected
import Entitlement.Proofs.Rule.Heads
import Entitlement.Proofs.Scan.Annotating
import Entitlement.Proofs.Scan.Bystanders
import Entitlement.Proofs.Scan.Exclusion
import Entitlement.Proofs.Scan.Failures
import Entitlement.Proofs.Scan.OwnDate
import Entitlement.Proofs.Scan.Reach
import Entitlement.Proofs.Scan.SameDay
import Entitlement.Proofs.Scan.Search
import Entitlement.Proofs.Scan.Sweep
import Entitlement.Proofs.Scan.Undoing
