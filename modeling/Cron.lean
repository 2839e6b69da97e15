import Cron.Proofs.Enumeration
import Cron.Proofs.Horizon
import Cron.Proofs.RoundTrip
import Cron.Proofs.Acceptance
import Cron.Proofs.Invariant
import Cron.Proofs.AskingAgain
import Cron.Proofs.Satisfiable
import Cron.Proofs.SameItems
import Cron.Proofs.LastWrite
import Cron.Proofs.Refusal
import Cron.Proofs.Expression
import Cron.Proofs.ListedValues
import Cron.Proofs.DayChecks
import Cron.Proofs.Shortcuts
import Cron.Proofs.Leaves
import Cron.Proofs.Faults
import Cron.Proofs.TotalOrder
import Cron.Proofs.Numerals
import Cron.Proofs.Rounds
import Cron.Proofs.Diagnostics
