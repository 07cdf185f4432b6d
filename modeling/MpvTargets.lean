import MpvTargets.AcceptedRequests
import MpvTargets.AllOrNothing
import MpvTargets.AnswerFile
import MpvTargets.BulkSelection
import MpvTargets.CandidateValidation
import MpvTargets.ChannelCatalog
import MpvTargets.ChannelRestart
import MpvTargets.ChannelSaving
import MpvTargets.CommandGrammar
import MpvTargets.ConfigPersistence
import MpvTargets.ConfigUpdates
import MpvTargets.Deployment
import MpvTargets.DirectoryCopy
import MpvTargets.DirectoryUpdates
import MpvTargets.DisabledStopped
import MpvTargets.Dispatch
import MpvTargets.EventStream
import MpvTargets.FailedStop
import MpvTargets.FilePaths
import MpvTargets.FileReplacement
import MpvTargets.Independence
import MpvTargets.IntentionalStop
import MpvTargets.IpcCommand
import MpvTargets.LatestReports
import MpvTargets.Library.CallLog
import MpvTargets.Library.Decimal
import MpvTargets.Library.FileTree
import MpvTargets.Library.Footprint
import MpvTargets.Library.Linearization
import MpvTargets.Library.TextCut
import MpvTargets.Library.Utf8
import MpvTargets.Lifecycle
import MpvTargets.LocalUrl
import MpvTargets.Locality
import MpvTargets.Messages
import MpvTargets.OperationProgress
import MpvTargets.PathConfinement
import MpvTargets.Recovery
import MpvTargets.RecoveryStart
import MpvTargets.RemoteLink
import MpvTargets.RemoteMirror
import MpvTargets.RemoteUpdates
import MpvTargets.RenameFlags
import MpvTargets.RequestCorrelation
import MpvTargets.SavedChannels
import MpvTargets.ServeConnection
import MpvTargets.SingleLaunch
import MpvTargets.SingleRecovery
import MpvTargets.SocketText
import MpvTargets.SoloRuns
import MpvTargets.StaleFields
import MpvTargets.TargetDirectories
