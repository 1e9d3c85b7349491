import Concord.Access.Deletion
import Concord.Access.Endpoints
import Concord.Access.Escalation
import Concord.Access.FolderForest
import Concord.Access.FolderMoves
import Concord.Access.Folders
import Concord.Access.Invitations
import Concord.Access.JoinRequests
import Concord.Access.Operations
import Concord.Access.Ownership
import Concord.Access.Requests
import Concord.Access.Rules
import Concord.Access.Store
import Concord.Agent.BadCalls
import Concord.Agent.Conversation
import Concord.Agent.Fences
import Concord.Agent.Isolation
import Concord.Agent.Prompts
import Concord.Agent.Proposals
import Concord.Agent.Runner
import Concord.Agent.Tools
import Concord.Assistant.Lifecycle
import Concord.Assistant.Quota
import Concord.Assistant.Requests
import Concord.Auth.Attempts
import Concord.Auth.Guessing
import Concord.Auth.Login
import Concord.Base.Alone
import Concord.Base.Apportion
import Concord.Base.Counters
import Concord.Base.Dict
import Concord.Base.Double
import Concord.Base.FileTree
import Concord.Base.FixedWindow
import Concord.Base.Forest
import Concord.Base.Interleaving
import Concord.Base.Journal
import Concord.Base.Json
import Concord.Base.JsonRoundTrip
import Concord.Base.JsonText
import Concord.Base.JsonTexts
import Concord.Base.Keyed
import Concord.Base.Lines
import Concord.Base.Matches
import Concord.Base.Outline
import Concord.Base.Program
import Concord.Base.Relational
import Concord.Base.Splice
import Concord.Base.Streams
import Concord.Base.Subsequence
import Concord.Base.System
import Concord.Base.Trail
import Concord.Base.Utf8
import Concord.Debug.Agreement
import Concord.Debug.AnnouncementRules
import Concord.Debug.Announcements
import Concord.Debug.Breakpoints
import Concord.Debug.Client
import Concord.Debug.Control
import Concord.Debug.Framing
import Concord.Debug.Output
import Concord.Debug.Session
import Concord.Debug.SessionRows
import Concord.Debug.SingleSession
import Concord.Debug.Slot
import Concord.Debug.Stepping
import Concord.Execution.Api
import Concord.Execution.Beside
import Concord.Execution.Cancel
import Concord.Execution.Claimant
import Concord.Execution.Database
import Concord.Execution.Duty
import Concord.Execution.EventLog
import Concord.Execution.Footprint
import Concord.Execution.History
import Concord.Execution.Onward
import Concord.Execution.Operations
import Concord.Execution.Orphans
import Concord.Execution.Rounds
import Concord.Execution.Rules
import Concord.Execution.Service
import Concord.Execution.Settled
import Concord.Execution.Settlement
import Concord.Execution.State
import Concord.Execution.StatusLog
import Concord.Execution.Steady
import Concord.Execution.Sweep
import Concord.Execution.Undelivered
import Concord.Execution.Worker
import Concord.Frontend.CollabConvergence
import Concord.Frontend.CollabOpening
import Concord.Frontend.CollabSynced
import Concord.Frontend.Convergence
import Concord.Frontend.DebugPanel
import Concord.Frontend.DebugState
import Concord.Frontend.FileTree
import Concord.Frontend.LowerCase
import Concord.Frontend.Markdown
import Concord.Frontend.Proposals
import Concord.Frontend.QuickOpen
import Concord.Frontend.Runs
import Concord.Frontend.Utf16
import Concord.Models
import Concord.Queue.Ageing
import Concord.Queue.Claims
import Concord.Queue.Custody
import Concord.Queue.Delivery
import Concord.Queue.Ledger
import Concord.Queue.Origins
import Concord.Queue.Priority
import Concord.Queue.Programs
import Concord.Realtime.Attribution
import Concord.Realtime.Awareness
import Concord.Realtime.Changes
import Concord.Realtime.Checkpoints
import Concord.Realtime.Codec
import Concord.Realtime.Crdt
import Concord.Realtime.Current
import Concord.Realtime.Cursors
import Concord.Realtime.FilePresence
import Concord.Realtime.Keeping
import Concord.Realtime.Membership
import Concord.Realtime.Numbering
import Concord.Realtime.Outbound
import Concord.Realtime.Presence
import Concord.Realtime.Pruning
import Concord.Realtime.Relay
import Concord.Realtime.Restore
import Concord.Realtime.Rooms
import Concord.Realtime.Sessions
import Concord.Realtime.Shares
import Concord.Realtime.Snapshots
import Concord.Realtime.Source
import Concord.Realtime.Steps
import Concord.Realtime.Survival
import Concord.Realtime.TextEdit
import Concord.Realtime.Thinning
import Concord.Realtime.Wire
import Concord.Sandbox.Cancelled
import Concord.Sandbox.Runner
import Concord.Search.Positions
import Concord.Search.Preview
import Concord.Search.Project
import Concord.Search.Text
import Concord.Workspace.Confinement
import Concord.Workspace.Mount
import Concord.Workspace.Paths
