import BackupService.Lib.Program
import BackupService.Lib.Machine
import BackupService.Handlers
import BackupService.Grpc
import BackupService.System
import BackupService.Lib.Segments
import BackupService.RateLimit
import BackupService.Tenancy
import BackupService.Isolation
import BackupService.Statements
import BackupService.Sequential
import BackupService.Refinement
import BackupService.Callbacks
import BackupService.Provenance
import BackupService.Staleness
import BackupService.Coherence
import BackupService.Worker
import BackupService.Pipeline
import BackupService.Jobs
import BackupService.Custody
import BackupService.Quiescence
import BackupService.Drain
import BackupService.Amqp
import BackupService.Readers
import BackupService.ListPages
import BackupService.Degradation
import BackupService.Lifecycle
import BackupService.Redelivery
import BackupService.Lib.LastWrite
import BackupService.Writes
import BackupService.History
import BackupService.Extract
import BackupService.ClientErrors
import BackupService.Apollo
import BackupService.Migrations
import BackupService.ServerErrors
import BackupService.Sizes
import BackupService.WorkerProcess
import BackupService.Settings
import BackupService.RateLimitHeaders
import BackupService.Lib.Paging
import BackupService.Pagination
import BackupService.Snapshots
import BackupService.Acks
import BackupService.Lib.Path
import BackupService.Paths
import BackupService.Frequencies
import BackupService.Analyses
import BackupService.Transactions
import BackupService.Lib.Linearizability
import BackupService.Linearization
import BackupService.Auth
import BackupService.Gateway
import BackupService.Lib.Lock
import BackupService.Locks
import BackupService.Lib.JsonText
import BackupService.Wire
import BackupService.TextSystem
import BackupService.Walks
import BackupService.Lib.MessageBroker
import BackupService.Rabbitmq
import BackupService.Fleet
import BackupService.MainStages
import BackupService.Shutdown
