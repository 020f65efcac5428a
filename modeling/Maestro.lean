import Maestro.RunIsolation
import Maestro.ResponseOnce
import Maestro.Correlation
import Maestro.WaitingState
import Maestro.CrashRecovery
import Maestro.Permission
import Maestro.JsonRedaction
import Maestro.Subscription
import Maestro.EventPolling
import Maestro.SingleWriter
import Maestro.ConcurrentResume
import Maestro.StopReach
import Maestro.Framing
import Maestro.BoundedJsonLines
import Maestro.TerminalOutput
import Maestro.TerminalExit
import Maestro.TerminalLease
import Maestro.TerminalTransport
import Maestro.SecondLaunch
import Maestro.SingleInstance
import Maestro.SessionConfinement
import Maestro.FollowLoop
import Maestro.WriteBlocking
import Maestro.EventMonitor
import Maestro.RunFinalization
import Maestro.SaveCleanup
import Maestro.SaveRace
import Maestro.KeyAgreement
import Maestro.SegmentPruning
import Maestro.RetentionExecution
import Maestro.TuiMonitor
import Maestro.Ledger
import Maestro.TerminalTable
import Maestro.TerminalBounds
import Maestro.OwnSteps
import Maestro.TerminalInput
import Maestro.TerminalClose
import Maestro.SegmentStore
import Maestro.SegmentFiles
import Maestro.SegmentRows
import Maestro.Paths
import Maestro.WorkspaceRoots
import Maestro.ProjectTables
import Maestro.Registration
import Maestro.RootOrder
import Maestro.RawCapture
import Maestro.ProcessGroup
import Maestro.IdleWakeup
import Maestro.Entries
import Maestro.RequestMatching
import Maestro.Traces
import Maestro.RequestAnswers
import Maestro.WindowGrants
import Maestro.GrantConfinement
import Maestro.WindowIsolation
import Maestro.RootSets
import Maestro.RetentionSelection
import Maestro.CredentialScans
import Maestro.ScrollbackWriter
import Maestro.RunRecords
import Maestro.RunAtomicity
import Maestro.SegmentOutcome
import Maestro.SegmentAtomicity
import Maestro.CrashRuns
import Maestro.DailySnapshot
import Maestro.DailyRotation
import Maestro.RequestExpiry
import Maestro.AuditTrail
import Maestro.Splitting
import Maestro.GitOutput
import Maestro.RetainedOutput
import Maestro.DirectoryPages
import Maestro.TextSearch
import Maestro.SearchCancel
import Maestro.FrameCodec
import Maestro.Text
import Maestro.AdapterClaims
import Maestro.TokenFile
import Maestro.TrackerSets
import Maestro.WindowedList
import Maestro.RangeNormalization
import Maestro.PendingLookup
import Maestro.WindowResponses
import Maestro.WindowLayout
import Maestro.TransportReplay
import Maestro.RequestPath
import Maestro.DaemonClient
import Maestro.ShellTerminal
import Maestro.Handshake
import Maestro.WindowHistory
import Maestro.StorageUnlock
