import Lotse.Runs
import Lotse.Tasks
import Lotse.Exclusion
import Lotse.Rows
import Lotse.Accounts
import Lotse.AccessMachine
import Lotse.AccessEffects
import Lotse.AccessRevocation
import Lotse.AccessCredentials
import Lotse.Samples
import Lotse.AlertEngine
import Lotse.AlertAgreement
import Lotse.PresenceMachine
import Lotse.PresenceOffline
import Lotse.GatewayMachine
import Lotse.GatewayAlerts
import Lotse.GatewayLinks
import Lotse.MetricTable
import Lotse.MetricRollup
import Lotse.MetricPrune
import Lotse.BucketMachine
import Lotse.BucketMeans
import Lotse.Comparators
import Lotse.VersionOrder
import Lotse.UpdateManifest
import Lotse.UpdateMachine
import Lotse.UpdateForward
import Lotse.Utf8
import Lotse.TailBuffer
import Lotse.RunOutput
import Lotse.RunViewers
import Lotse.RunStored
import Lotse.LoginLimiter
import Lotse.LimiterCounts
import Lotse.LimiterLockout
import Lotse.LimiterWindow
import Lotse.Tickets
import Lotse.WebAuthn
import Lotse.PasskeyMachine
import Lotse.PasskeyCeremonies
import Lotse.PasskeyCounters
import Lotse.UserTable
import Lotse.AdminMachine
import Lotse.AdminSafety
import Lotse.AgentHost
import Lotse.AgentMachine
import Lotse.AgentOptIn
import Lotse.RemoteMachine
import Lotse.RemoteActions
import Lotse.Paging
import Lotse.AuditLog
import Lotse.PresenceStatus
import Lotse.LiveMachine
import Lotse.LiveViewers
import Lotse.LiveIntervals
import Lotse.RuleMachine
import Lotse.RuleReload
import Lotse.RuleEdits
import Lotse.Notify
import Lotse.NotifySecrets
import Lotse.NotifyErrors
import Lotse.ScriptMachine
import Lotse.ScriptRuns
import Lotse.EnrollDeleted
import Lotse.EnrollMachine
import Lotse.NetAddr
import Lotse.ProxyAddress
import Lotse.Hysteresis
import Lotse.AlertHistory
import Lotse.AlertFailures
import Lotse.RuleDetach
import Lotse.AccountPatch
import Lotse.VersionCompare
import Lotse.SemverPrecedence
import Lotse.JsonStrings
import Lotse.JsonValues
import Lotse.Base64
import Lotse.ManifestSigning
import Lotse.FileBrowser
import Lotse.UpdateInstall
import Lotse.ShellQuoting
import Lotse.InstallCommands
import Lotse.FileTree
import Lotse.FileUpload
import Lotse.UploadSafety
import Lotse.TotpReplay
import Lotse.AuthenticatorData
import Lotse.PasskeyHandles
import Lotse.RollupStatement
import Lotse.BucketParts
import Lotse.ChartSeries
import Lotse.AuditPages
import Lotse.TrafficRates
import Lotse.TailWrites
import Lotse.FsProbe
import Lotse.RowOrder
import Lotse.ContainerStats
import Lotse.Links
import Lotse.TerminalMachine
import Lotse.TerminalAgent
import Lotse.TerminalHub
import Lotse.TerminalStream
import Lotse.AgentSessions
import Lotse.RunArchive
import Lotse.RunHistory
import Lotse.WakePackets
import Lotse.WakeRelays
import Lotse.Versioned
import Lotse.Migrations
import Lotse.ScriptChannel
import Lotse.ScriptDelivery
import Lotse.SessionHistory
import Lotse.AgentLog
import Lotse.UpdateOffer
import Lotse.UpdateChannel
import Lotse.AgentReports
