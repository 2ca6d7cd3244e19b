import Evenkeel.Properties.Reconciliation
import Evenkeel.Properties.Idempotency
import Evenkeel.Properties.Reporting
import Evenkeel.Properties.Release
import Evenkeel.Infrastructure.StaleRecords
import Evenkeel.Properties.StaleRecord
import Evenkeel.Effects.Machine
import Evenkeel.Infrastructure.MemoryLock
import Evenkeel.Properties.LeaseExclusion
import Evenkeel.Infrastructure.Transport
import Evenkeel.Infrastructure.JwksCache
import Evenkeel.Properties.SigningKeys
import Evenkeel.Infrastructure.RedisLock
import Evenkeel.Redis.SortedSet
import Evenkeel.Infrastructure.Bulkhead
import Evenkeel.Properties.BulkheadLeases
import Evenkeel.Infrastructure.RateLimiters
import Evenkeel.Properties.RateLimiting
import Evenkeel.Python.JsonText
import Evenkeel.Infrastructure.RedisIdempotency
import Evenkeel.Properties.IdempotencyStores
import Evenkeel.Infrastructure.IdempotencyHolders
import Evenkeel.Properties.Receipts
import Evenkeel.Infrastructure.RiskAssessment
import Evenkeel.Properties.ProviderResponses
import Evenkeel.Infrastructure.AssessedMovements
import Evenkeel.Infrastructure.Tenancy
import Evenkeel.Application.Sights
import Evenkeel.Infrastructure.BulkheadOutages
import Evenkeel.Properties.BulkheadOutage
import Evenkeel.Properties.FailClosed
import Evenkeel.Infrastructure.RetryDiscipline
import Evenkeel.Properties.OutboundBudget
import Evenkeel.Properties.MovementMetrics
import Evenkeel.Properties.Fingerprints
import Evenkeel.Properties.ZeroWait
import Evenkeel.Pagination.Keyset
import Evenkeel.Infrastructure.Pages
import Evenkeel.Properties.Pagination
import Evenkeel.Properties.AuditOrder
import Evenkeel.Presentation.Middleware
import Evenkeel.Infrastructure.PrometheusMetrics
import Evenkeel.Properties.MetricLabels
import Evenkeel.Infrastructure.Disclosures
import Evenkeel.Properties.TenantIsolation
import Evenkeel.Application.UnownedWallets
import Evenkeel.Infrastructure.Bystanders
import Evenkeel.Properties.ExistenceOracle
import Evenkeel.Infrastructure.OutboundTiming
import Evenkeel.Infrastructure.BulkheadCallers
import Evenkeel.Properties.BulkheadCap
import Evenkeel.Python.DecimalValue
import Evenkeel.Domain.MoneyValue
import Evenkeel.Properties.MoneyArithmetic
import Evenkeel.Domain.WalletObject
import Evenkeel.Properties.WalletLifecycle
import Evenkeel.Infrastructure.ResponseStreams
import Evenkeel.Properties.CappedReads
import Evenkeel.Accounting.FixedWindows
import Evenkeel.Infrastructure.LimiterWindows
import Evenkeel.Properties.LimitEnforcement
import Evenkeel.Setup.Configuration
import Evenkeel.Application.UnassessedMovements
import Evenkeel.Properties.FailOpenSwitch
import Evenkeel.Infrastructure.CursorText
import Evenkeel.Properties.CursorStrictness
import Evenkeel.Patterns.Backtracking
import Evenkeel.Logging.InlineSecrets
import Evenkeel.Logging.InlineMatches
import Evenkeel.Logging.InlineContext
import Evenkeel.Logging.Redaction
import Evenkeel.Logging.Records
import Evenkeel.Properties.InlineRedaction
import Evenkeel.Properties.StructuredRedaction
import Evenkeel.Accounting.Bank
import Evenkeel.Application.Discipline
import Evenkeel.Effects.Histories
import Evenkeel.Infrastructure.BankRefinement
import Evenkeel.Infrastructure.Deeds
import Evenkeel.Properties.Linearizability
import Evenkeel.Infrastructure.HeldLocks
import Evenkeel.Properties.LockDiscipline
import Evenkeel.Domain.CurrencyCodes
import Evenkeel.Domain.Refusals
import Evenkeel.Infrastructure.StoredRows
import Evenkeel.Logging.Allowlist
import Evenkeel.Presentation.Problem
import Evenkeel.Properties.StoredRows
import Evenkeel.Application.RefusedRequests
import Evenkeel.Infrastructure.ProperRuns
import Evenkeel.Presentation.Wallets
import Evenkeel.Presentation.Authentication
import Evenkeel.Properties.ErrorContract
import Evenkeel.Application.LateErrors
import Evenkeel.Presentation.Tools
