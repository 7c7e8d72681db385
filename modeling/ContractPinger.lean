import ContractPinger.ForStd.Except
import ContractPinger.ForStd.List
import ContractPinger.ForStd.Machine
import ContractPinger.ForStd.Potential
import ContractPinger.ForStd.Unwinding
import ContractPinger.ForStd.Transcript
import ContractPinger.ForStd.SlidingWindow
import ContractPinger.ForStd.Stamps
import ContractPinger.ForStd.TopK
import ContractPinger.ForStd.OrderStatistics
import ContractPinger.ForStd.Tally
import ContractPinger.ForStd.Payments
import ContractPinger.ForStd.Rounding
import ContractPinger.ForStd.Decimals
import ContractPinger.ForStd.Form
import ContractPinger.Model.Basic
import ContractPinger.Model.Env
import ContractPinger.Model.BidirectionalTx
import ContractPinger.Model.WorkerPool
import ContractPinger.Model.JobStore
import ContractPinger.Model.RateLimiter
import ContractPinger.Model.Run
import ContractPinger.Model.World
import ContractPinger.Model.Server
import ContractPinger.Model.Chain
import ContractPinger.Model.FundWorkers
import ContractPinger.Model.SendLoop
import ContractPinger.Model.EvmTransactions
import ContractPinger.Model.Stats
import ContractPinger.Model.PingRoute
import ContractPinger.Model.AdhocTopUp
import ContractPinger.Model.RepeatedSweeps
import ContractPinger.Model.RespondWatch
import ContractPinger.Model.LoadDriver
import ContractPinger.Model.EnvSchema
import ContractPinger.Model.AdhocWorkflow
import ContractPinger.Spec.WorkerPoolOps
import ContractPinger.Spec.WorkerPoolQueue
import ContractPinger.Spec.WaitReasons
import ContractPinger.Spec.LeaseLedger
import ContractPinger.Spec.JobStoreOps
import ContractPinger.Spec.Retention
import ContractPinger.Spec.LimiterRuns
import ContractPinger.Spec.WorldSteps
import ContractPinger.Spec.JobStages
import ContractPinger.Spec.JobLifecycle
import ContractPinger.Spec.LeaseSafety
import ContractPinger.Spec.Capacity
import ContractPinger.Spec.Grants
import ContractPinger.Spec.Addresses
import ContractPinger.Spec.ArrivalSlots
import ContractPinger.Spec.Admission
import ContractPinger.Spec.Marks
import ContractPinger.Spec.PoolSteps
import ContractPinger.Spec.ChainCounts
import ContractPinger.Spec.NonceSafety
import ContractPinger.Spec.Preflight
import ContractPinger.Spec.DerivationCheck
import ContractPinger.Spec.JobSteps
import ContractPinger.Spec.Promises
import ContractPinger.Spec.Cleanup
import ContractPinger.Spec.Shutdown
import ContractPinger.Spec.FailureRecords
import ContractPinger.Spec.ShutdownReasons
import ContractPinger.Spec.CrossCheck
import ContractPinger.Spec.SweptAddresses
import ContractPinger.Spec.SweepSpending
import ContractPinger.Spec.TopUps
import ContractPinger.Spec.PingNonces
import ContractPinger.Spec.Percentiles
import ContractPinger.Spec.StatsAgreement
import ContractPinger.Spec.DerivedOnce
import ContractPinger.Spec.ReportedLimits
import ContractPinger.Spec.PingValidation
import ContractPinger.Spec.FundingMarks
import ContractPinger.Spec.TopUpSizing
import ContractPinger.Spec.Overfunding
import ContractPinger.Spec.RespondBudget
import ContractPinger.Spec.Workload
import ContractPinger.Spec.Drain
import ContractPinger.Spec.Services
import ContractPinger.Spec.Isolation
import ContractPinger.Spec.HeldRecords
import ContractPinger.Spec.JobViews
import ContractPinger.Spec.LoadDriver
import ContractPinger.Spec.LoadReport
import ContractPinger.Spec.TripSteps
import ContractPinger.Spec.RoundTrips
import ContractPinger.Spec.RecordGrowth
import ContractPinger.Spec.Polling
import ContractPinger.Spec.RefusedJobs
import ContractPinger.Spec.AdhocRun
import ContractPinger.Spec.EnvSchema
import ContractPinger.Spec.AdhocWorkflow
