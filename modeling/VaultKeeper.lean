import VaultKeeper.Main
import VaultKeeper.Valuation
import VaultKeeper.Proofs.Moves
import VaultKeeper.Proofs.GroupShape
import VaultKeeper.Proofs.AmountAgreement
import VaultKeeper.Proofs.DepositCeiling
import VaultKeeper.Proofs.Reachable
import VaultKeeper.Proofs.BorrowPolicy
import VaultKeeper.Proofs.Totality
import VaultKeeper.Proofs.Continuation
import VaultKeeper.Proofs.Backing
import VaultKeeper.Proofs.RoundTrip
import VaultKeeper.Proofs.NetValue
import VaultKeeper.Proofs.Multicall
import VaultKeeper.Proofs.Allowance
import VaultKeeper.Proofs.Consistency
import VaultKeeper.Proofs.ExitValue
import VaultKeeper.Proofs.Ranking
import VaultKeeper.Proofs.Cycles
import VaultKeeper.Proofs.Submissions
import VaultKeeper.Proofs.VaultAssets
import VaultKeeper.Proofs.Restart
import VaultKeeper.Proofs.Calls
import VaultKeeper.Proofs.Duties
import VaultKeeper.Proofs.Refusals
import VaultKeeper.Proofs.Bootstrap
import VaultKeeper.Proofs.LoanToValue
import VaultKeeper.Proofs.ExitGuarantee
import VaultKeeper.Proofs.CycleReports
import VaultKeeper.Proofs.CurveWithdrawal
import VaultKeeper.Proofs.SelectionOrder
import VaultKeeper.Proofs.ContentIdentity
import VaultKeeper.Proofs.CrashRecovery
import VaultKeeper.Proofs.Percentages
import VaultKeeper.Proofs.RepeatedRequests
import VaultKeeper.Proofs.Updates
import VaultKeeper.Proofs.RewardSales
import VaultKeeper.Proofs.Scaling
import VaultKeeper.Proofs.LogOrder
import VaultKeeper.Proofs.StateFiles
import VaultKeeper.Proofs.LoopTicks
