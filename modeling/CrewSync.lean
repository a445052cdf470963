import CrewSync.ActivityViews
import CrewSync.Acts
import CrewSync.Addresses
import CrewSync.Admin
import CrewSync.AdminScope
import CrewSync.Announcements
import CrewSync.AppServer
import CrewSync.Attachments
import CrewSync.Attempts
import CrewSync.AuditTrail
import CrewSync.Auth
import CrewSync.Bindings
import CrewSync.Bodies
import CrewSync.Broker
import CrewSync.Buckets
import CrewSync.BusUrl
import CrewSync.ChannelNames
import CrewSync.Channels
import CrewSync.CodexWake
import CrewSync.Contexts
import CrewSync.Conversations
import CrewSync.Credentials
import CrewSync.Cursors
import CrewSync.Custody
import CrewSync.DashboardGrant
import CrewSync.Deliveries
import CrewSync.Dependencies
import CrewSync.Error
import CrewSync.EventLog
import CrewSync.Fence
import CrewSync.Fetches
import CrewSync.FileUri
import CrewSync.Grants
import CrewSync.History
import CrewSync.Holders
import CrewSync.Inbox
import CrewSync.Incremental
import CrewSync.Invitations
import CrewSync.Keys
import CrewSync.Labels
import CrewSync.Limits
import CrewSync.Lines
import CrewSync.Listener
import CrewSync.Listing
import CrewSync.Locks
import CrewSync.LongWait
import CrewSync.LowerCase
import CrewSync.Messaging
import CrewSync.Migrate
import CrewSync.Moves
import CrewSync.Mvcc
import CrewSync.Notes
import CrewSync.Observations
import CrewSync.Outbox
import CrewSync.Owners
import CrewSync.Paging
import CrewSync.Pauses
import CrewSync.Posts
import CrewSync.Presence
import CrewSync.Projects
import CrewSync.Proxy
import CrewSync.Publication
import CrewSync.Questions
import CrewSync.Quotas
import CrewSync.RateLimit
import CrewSync.Reach
import CrewSync.ReadThrough
import CrewSync.Rebinding
import CrewSync.Receipts
import CrewSync.Recovery
import CrewSync.References
import CrewSync.Refusals
import CrewSync.Registers
import CrewSync.Release
import CrewSync.Removal
import CrewSync.Replicas
import CrewSync.Republication
import CrewSync.Rerouting
import CrewSync.Revival
import CrewSync.Revocation
import CrewSync.Room
import CrewSync.Routing
import CrewSync.RowLocks
import CrewSync.Rows
import CrewSync.Runs
import CrewSync.Schema
import CrewSync.Seats
import CrewSync.Send
import CrewSync.Sequence
import CrewSync.SessionStart
import CrewSync.Sessions
import CrewSync.Settlement
import CrewSync.Sizes
import CrewSync.Slices
import CrewSync.Spans
import CrewSync.Spool
import CrewSync.Subjects
import CrewSync.Summaries
import CrewSync.Sweeps
import CrewSync.TaskClaims
import CrewSync.TaskHistory
import CrewSync.TaskLists
import CrewSync.TaskPages
import CrewSync.TaskViews
import CrewSync.Tasks
import CrewSync.TeamRoute
import CrewSync.ThreadViews
import CrewSync.TokensFile
import CrewSync.Tombstones
import CrewSync.Transfers
import CrewSync.Trims
import CrewSync.Turns
import CrewSync.Unread
import CrewSync.Utf8
import CrewSync.Uuids
import CrewSync.Waiting
import CrewSync.Wakes
import CrewSync.Watch
import CrewSync.Webhooks
import CrewSync.Websocket
import CrewSync.Windows
import CrewSync.Worn
