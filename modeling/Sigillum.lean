import Sigillum.GraphRecipients
import Sigillum.RefundRuns
import Sigillum.LimiterAgreement
import Sigillum.FailOpenRefunds
import Sigillum.Failover
import Sigillum.GracePeriod
import Sigillum.TenantLimiter
import Sigillum.FailureLimiter
import Sigillum.RetryAfter
import Sigillum.ChargeAccounting
import Sigillum.GuardedWrites
import Sigillum.GuardAgreement
import Sigillum.PolicyChoice
import Sigillum.BccFilter
import Sigillum.ContentSize
import Sigillum.WhiteLines
import Sigillum.ForcedWords
import Sigillum.Filenames
import Sigillum.TokenValidity
import Sigillum.TokenReview
import Sigillum.ValidityTransparency
import Sigillum.CredentialAdmission
import Sigillum.Argon2Strings
import Sigillum.SenderWarnings
import Sigillum.TokenEndpoint
import Sigillum.TokenSecretNames
import Sigillum.BodyBudget
import Sigillum.GuardVerification
import Sigillum.Transactions
