import ArkheKernel.Budget
import ArkheKernel.ExactlyOnce
import ArkheKernel.Lockstep
import ArkheKernel.Noninterference
import ArkheKernel.LogDeterminacy
import ArkheKernel.ChainBinding
import ArkheKernel.Sinks
import ArkheKernel.Acceptance
import ArkheKernel.ReplaySafety
import ArkheKernel.Sequential
import ArkheKernel.Rollback
import ArkheKernel.Quotas
import ArkheKernel.SignalRouting
import ArkheKernel.Refcounts
import ArkheKernel.WriteAhead
import ArkheKernel.SchedulerRefinement
import ArkheKernel.Remeasurement
import ArkheKernel.HybridLog
import ArkheKernel.BudgetGate
import ArkheKernel.QuotaReduction
import ArkheKernel.LedgerCache
import ArkheKernel.StoredRecord
import ArkheKernel.Isolation
import ArkheKernel.StoreHistory
import ArkheKernel.View
import ArkheKernel.BoundedWait
import ArkheKernel.CodeChange
import ArkheKernel.GenuineLog
import ArkheKernel.LogForensics
import ArkheKernel.Provenance
import ArkheKernel.ChainSpec
import ArkheKernel.Accounting
import ArkheKernel.Upgrade
import ArkheKernel.Recovery
import ArkheKernel.ReplayOnce
import ArkheKernel.Reader
import ArkheKernel.Dice
import ArkheKernel.SnapshotFile
import ArkheKernel.WalFile
import ArkheKernel.MachineRange
