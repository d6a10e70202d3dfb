import CrediGuard.Lib.Runs
import CrediGuard.Lib.Unwinding
import CrediGuard.Lib.ReadCommitted
import CrediGuard.Lib.Restriction
import CrediGuard.Lib.Statement
import CrediGuard.Lib.Relational
import CrediGuard.Lib.Session
import CrediGuard.Lib.SortedSet
import CrediGuard.Lib.SlidingWindow
import CrediGuard.Lib.BatchQueue
import CrediGuard.Lib.Uuid
import CrediGuard.Lib.Decimal
import CrediGuard.Lib.DecimalText
import CrediGuard.Lib.DecimalRounding
import CrediGuard.Lib.Annuity
import CrediGuard.Lib.Calendar
import CrediGuard.Lib.Json
import CrediGuard.Lib.JsonRoundTrip
import CrediGuard.Lib.Latin1
import CrediGuard.Lib.EventStream
import CrediGuard.Lib.UrlPath
import CrediGuard.Lib.Template
import CrediGuard.Events
import CrediGuard.Dependencies
import CrediGuard.Loan.Domain
import CrediGuard.Loan.Lifecycle
import CrediGuard.Loan.MonthlyPayment
import CrediGuard.Loan.Persistence
import CrediGuard.Loan.ActiveQuery
import CrediGuard.Loan.CreateLoan
import CrediGuard.Loan.Outbox
import CrediGuard.Loan.Service
import CrediGuard.Loan.ActiveLoans
import CrediGuard.Loan.History
import CrediGuard.Loan.Disclosure
import CrediGuard.Loan.Retries
import CrediGuard.Loan.OutboxDelivery
import CrediGuard.Loan.OutboxDuplicates
import CrediGuard.Loan.OutboxMarks
import CrediGuard.Loan.OutboxLocks
import CrediGuard.Loan.OutboxOnce
import CrediGuard.Loan.OutboxOrder
import CrediGuard.Loan.OutboxDrain
import CrediGuard.Loan.OutboxPoll
import CrediGuard.Loan.Sessions
import CrediGuard.Loan.OneLoanPerKey
import CrediGuard.Loan.OutboxLinks
import CrediGuard.Loan.Partitioning
import CrediGuard.Loan.GetLoan
import CrediGuard.Loan.Amounts
import CrediGuard.Loan.Storable
import CrediGuard.Loan.Keyless
import CrediGuard.Loan.OutboxIds
import CrediGuard.Loan.Isolation
import CrediGuard.Notification.Mapper
import CrediGuard.Notification.Bridge
import CrediGuard.Notification.Relay
import CrediGuard.Applicants.Domain
import CrediGuard.Applicants.Security
import CrediGuard.Applicants.Persistence
import CrediGuard.Applicants.UseCases
import CrediGuard.Applicants.TokenRows
import CrediGuard.Applicants.Service
import CrediGuard.Applicants.Mints
import CrediGuard.Applicants.Rotation
import CrediGuard.Applicants.Freshness
import CrediGuard.Applicants.RotationFrame
import CrediGuard.Applicants.Reuse
import CrediGuard.Applicants.Lifetime
import CrediGuard.Applicants.Redemptions
import CrediGuard.Applicants.Accounts
import CrediGuard.Gateway.Sse
import CrediGuard.Gateway.SseResume
import CrediGuard.Gateway.SseFraming
import CrediGuard.Gateway.SseSnapshot
import CrediGuard.Gateway.SseFresh
import CrediGuard.Gateway.Routing
import CrediGuard.Gateway.Cookies
import CrediGuard.Gateway.Proxy
import CrediGuard.Gateway.Tokens
import CrediGuard.Gateway.Correlation
import CrediGuard.Gateway.Headers
import CrediGuard.Gateway.RateLimit
import CrediGuard.Gateway.RateLimitAdmission
import CrediGuard.Gateway.PathPolicy
import CrediGuard.Gateway.Dispatch
import CrediGuard.Gateway.Identity
import CrediGuard.Gateway.LoanEvents
import CrediGuard.Gateway.Isolation
import CrediGuard.Gateway.Throttle
import CrediGuard.Applicants.Profile
import CrediGuard.Gateway.SseSpelling
import CrediGuard.Pipeline
import CrediGuard.Platform.Announcements
import CrediGuard.Platform.System
import CrediGuard.Platform.Invariant
import CrediGuard.Platform.Authentic
import CrediGuard.Platform.ExactlyOnce
import CrediGuard.Platform.BrowserSessions
import CrediGuard.Platform.Ownership
