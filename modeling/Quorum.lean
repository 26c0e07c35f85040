import Quorum.Controller
import Quorum.Main
import Quorum.RequestContext
import Quorum.WellFormed
import Quorum.Proofs.Authorization
import Quorum.Proofs.Validity
import Quorum.Proofs.Review
import Quorum.Proofs.EditRun
import Quorum.Proofs.Traffic
import Quorum.Proofs.VoteWrite
import Quorum.Proofs.Wire
import Quorum.Proofs.Justified
import Quorum.Proofs.AllLand
import Quorum.Proofs.Creation
import Quorum.Proofs.Unnoticed
import Quorum.Proofs.Finality
import Quorum.Proofs.Decisions
import Quorum.Proofs.Table
import Quorum.Proofs.Times
import Quorum.Proofs.Canonical
import Quorum.Proofs.Effect
import Quorum.Proofs.Eligibility
import Quorum.Proofs.Undecided
import Quorum.Proofs.Precedence
import Quorum.Proofs.Fingerprint
import Quorum.Proofs.Ties
import Quorum.Proofs.ChangeOrder
import Quorum.Proofs.Impartial
import Quorum.Proofs.Explained
import Quorum.Proofs.Succession
import Quorum.Proofs.Attended
import Quorum.Proofs.Recheck
import Quorum.Proofs.Rounds
import Quorum.Proofs.Quotation
import Quorum.Proofs.Roster
import Quorum.Proofs.Spelling
import Quorum.Proofs.Building
import Quorum.Proofs.Exactness
import Quorum.Proofs.Readiness
import Quorum.Proofs.ProblemOrder
import Quorum.Proofs.Origins
import Quorum.Proofs.Filling
import Quorum.Proofs.Differences
import Quorum.Proofs.DigestText
import Quorum.Proofs.Isolation
import Quorum.Proofs.Alone
