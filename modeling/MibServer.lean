import MibServer.Lib.Machine
import MibServer.Lib.Index
import MibServer.Lib.Program
import MibServer.Lib.Transaction
import MibServer.Lib.Sequential
import MibServer.Lib.Failure
import MibServer.Http
import MibServer.Prisma
import MibServer.Text
import MibServer.Lib.Grid
import MibServer.Lib.Delimited
import MibServer.Lib.Binary64
import MibServer.Lib.Decimal
import MibServer.Courses.ResourceLock
import MibServer.Courses.SlotKeys
import MibServer.Courses.ScheduleService
import MibServer.Courses.DoubleBooking
import MibServer.Lessons.Store
import MibServer.Lessons.Deduct
import MibServer.Lessons.Services
import MibServer.Lessons.Contract
import MibServer.Lessons.Conservation
import MibServer.Lessons.DeductAlone
import MibServer.Lessons.CheckInProgress
import MibServer.Lessons.AuditChain
import MibServer.Tenancy.Extension
import MibServer.Tenancy.Isolation
import MibServer.Idempotency.Key
import MibServer.Idempotency.Protocol
import MibServer.Idempotency.Exclusion
import MibServer.Idempotency.Ownership
import MibServer.Idempotency.Provenance
import MibServer.Idempotency.Arrivals
import MibServer.Idempotency.Handlers
import MibServer.Idempotency.Targets
import MibServer.Idempotency.Retention
import MibServer.Lessons.ConcurrentAdjusts
import MibServer.Lessons.AdjustRetries
import MibServer.Billing.Store
import MibServer.Billing.Signature
import MibServer.Billing.Service
import MibServer.Billing.Lifecycle
import MibServer.Money
import MibServer.Billing.Creation
import MibServer.Billing.ConcurrentPayment
import MibServer.Billing.PaidOnce
import MibServer.Billing.Webhook
import MibServer.Billing.Notification
import MibServer.Billing.Revenue
import MibServer.Billing.SignedPayload
import MibServer.Billing.HexSignature
import MibServer.Billing.KeyCollisions
import MibServer.Lib.History
import MibServer.Redis
import MibServer.Auth.JwtExpiry
import MibServer.Auth.Store
import MibServer.Auth.Service
import MibServer.Auth.Revocation
import MibServer.Auth.LoginGuard
import MibServer.Auth.Lockout
import MibServer.Auth.TokenLifetime
import MibServer.Auth.Logout
import MibServer.Lessons.Balance
import MibServer.Lessons.StaleChecks
import MibServer.Lessons.RepeatedScans
import MibServer.Lessons.CheckInRace
import MibServer.Courses.LockUpkeep
import MibServer.Courses.SlotConflicts
import MibServer.Courses.LockBackfill
import MibServer.Courses.ReferenceTenants
import MibServer.Tenancy.Stamping
import MibServer.Tenancy.RequestContext
import MibServer.Tenancy.Transparency
import MibServer.Locks.RedisLock
import MibServer.Locks.BusinessLocks
import MibServer.Lib.Json
import MibServer.Logging.Redact
import MibServer.Logging.AccessLog
import MibServer.Auth.ClientIp
import MibServer.Auth.CounterExpiry
import MibServer.Lib.NumberText
import MibServer.Lib.JsonString
import MibServer.Lib.JsonText
import MibServer.Values.RedisService
import MibServer.Values.VerificationCode
import MibServer.Auth.IpLimit
import MibServer.Lib.References
import MibServer.Lib.Noninterference
import MibServer.Tenancy.ChildRows
import MibServer.Tenancy.ChildIsolation
import MibServer.Tenancy.ChildRuns
import MibServer.Lib.TryLocks
import MibServer.Locks.Contention
import MibServer.Locks.Competing
import MibServer.Lib.Accounts
import MibServer.Lessons.Accounting
import MibServer.Access.Spread
import MibServer.Lib.RelyGuarantee
import MibServer.Rbac.Reseeding
