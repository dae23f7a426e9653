import Vesta.Lib.Machine
import Vesta.Lib.Program
import Vesta.Lib.Pool
import Vesta.Lib.Map
import Vesta.Lib.Changes
import Vesta.Lib.Text
import Vesta.Lib.Json
import Vesta.Lib.Rounding
import Vesta.Lib.Tally
import Vesta.Lib.Url.Percent
import Vesta.Lib.Url.Parse
import Vesta.Vestad.Docker.Names
import Vesta.Vestad.Docker.Snapshots
import Vesta.Vestad.Docker.Lifecycle
import Vesta.Vestad.Docker.Preserved
import Vesta.Vestad.Docker.Operations
import Vesta.Vestad.Docker.Completion
import Vesta.Vestad.Docker.Host
import Vesta.Vestad.Docker.Boots
import Vesta.Vestad.Docker.Survival
import Vesta.Vestad.Types
import Vesta.Vestad.Sync.Presence
import Vesta.Vestad.Sync.Protocol
import Vesta.Core.Chat.StreamModel
import Vesta.Core.Chat.Uniqueness
import Vesta.Core.Chat.Unsent
import Vesta.Core.Chat.History
import Vesta.Core.Chat.Session
import Vesta.Core.Chat.Replies
import Vesta.Core.Chat.Network
import Vesta.Core.Chat.Window
import Vesta.Core.Chat.Contiguity
import Vesta.Core.Replica.Reducer
import Vesta.Core.Transport.Socket
import Vesta.Core.Session.Refresh
import Vesta.Vestad.Sync.Roster
import Vesta.Vestad.Sync.Hub
import Vesta.Vestad.Sync.Session
import Vesta.Vestad.Sync.Convergence
import Vesta.Vestad.Observation
import Vesta.Vestad.AgentProxy.Credentials
import Vesta.Vestad.AgentProxy.Forwarding
import Vesta.Vestad.UserNotificationLog
import Vesta.Core.Notifications.Feed
import Vesta.Core.Notifications.Seen
import Vesta.Vestad.Mounts
import Vesta.Vestad.Operation
import Vesta.Vestad.Update
import Vesta.Vestad.DeviceRegistry
import Vesta.Vestad.PushTokens
import Vesta.Vestad.MobileApp
import Vesta.Vestad.PublishedOperations
import Vesta.Vestad.Auth.Refresh
import Vesta.Vestad.ServiceKeys
import Vesta.Vestad.AgentBundle
import Vesta.Vestad.Backup.Passphrase
import Vesta.Vestad.Backup.Artifacts
import Vesta.Vestad.Backup.Unmixed
import Vesta.Vestad.Settings.Store
import Vesta.Vestad.Settings.Saved
import Vesta.Vestad.Backup.Retention
import Vesta.Vestad.Backup.Maintenance
import Vesta.Agent.StateStore
import Vesta.Agent.Notification
import Vesta.Agent.Turn
import Vesta.Agent.Intake
import Vesta.Agent.InterruptPolicy
import Vesta.Agent.ExactlyOnce
import Vesta.Agent.EventBus
import Vesta.Agent.EventHistory
import Vesta.AppChat.SendGate
import Vesta.Core.Transport.ReconnectingSocket
import Vesta.Core.Chat.Delivery
import Vesta.AppChat.MessageIntake
import Vesta.Core.Notifications.Content
import Vesta.Core.Voice.PlayQueue
import Vesta.Core.Voice.EngineSession
import Vesta.AppChat.Sweep
import Vesta.AppChat.Upload.Store
import Vesta.AppChat.Upload.Transfer
import Vesta.Core.AgentRequest
import Vesta.Core.ReleaseVersion
import Vesta.VoiceEngine.Turns
import Vesta.VoiceEngine.Wake
import Vesta.VoiceEngine.Mic
import Vesta.VoiceEngine.WakeSession
import Vesta.VoiceEngine.Playback
import Vesta.Vestad.Reconcile
import Vesta.Vestad.MountChange
import Vesta.Reminders.Truthful
import Vesta.Agent.Provider
import Vesta.Lib.Dict
import Vesta.Lib.Erase
import Vesta.Agent.OpenRouterCache
import Vesta.Vestad.Rename.Handler
import Vesta.Vestad.Rename.Whole
import Vesta.Vestad.Rebuilding.Handlers
import Vesta.Vestad.Rebuilding.Exclusion
import Vesta.Vestad.VestaCloud.Outcome
import Vesta.Vestad.Backup.Retained
import Vesta.Vestad.Docker.Normalization
import Vesta.AppChat.Upload.Filename
import Vesta.Lib.Url.Strict
import Vesta.Vestad.ProxyUrl
import Vesta.Lib.Serde
import Vesta.Vestad.Settings.Schema
import Vesta.Vestad.Settings.Loaded
import Vesta.Core.Chat.ParseEvent
import Vesta.Vestad.MaintenanceWindow
import Vesta.Vestad.ServiceRegistry
import Vesta.Lib.FileTree
import Vesta.Lib.Shell
import Vesta.Vestad.FileApi.Commands
import Vesta.Vestad.FileApi.Handlers
import Vesta.Vestad.Version
import Vesta.Vestad.FileApi.Confinement
import Vesta.Moneypot.Pot
import Vesta.Moneypot.Balance
import Vesta.Reminders.Fuzz
import Vesta.Reminders.FuzzRuns
import Vesta.Lib.Cron
import Vesta.Reminders.DayOfWeek
import Vesta.Reminders.Weekdays
import Vesta.Tasks.Checkpoints
import Vesta.Tasks.Ladder
import Vesta.Tasks.Ticks
import Vesta.Core.Transport.SseStreams
import Vesta.Agent.Dream
import Vesta.Agent.SignIn
import Vesta.Agent.BootConfig
import Vesta.Redact.Patterns
import Vesta.Redact.Detect
import Vesta.Redact.Snippets
import Vesta.Agent.Transcript
import Vesta.Lib.Decimal
import Vesta.Tricount.Allocations
import Vesta.Lib.Quoted
import Vesta.EmailClient.ContentLines
import Vesta.EmailClient.Parameters
import Vesta.EmailClient.Folding
import Vesta.EmailClient.Calendar
import Vesta.Lib.Civil
import Vesta.EmailClient.Recurrence
import Vesta.EmailClient.FastForward
import Vesta.EmailClient.Expansion
