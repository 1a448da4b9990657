import Matinier.Artifacts.ApprovalSlots
import Matinier.Assistant.AtMostOnce
import Matinier.Assistant.ClaimAgreement
import Matinier.Assistant.ExecutionHistory
import Matinier.Assistant.FeedCompleteness
import Matinier.Assistant.GrantBudget
import Matinier.Assistant.HandoffAccepted
import Matinier.Assistant.Plugin.ApprovedWrite
import Matinier.Assistant.Plugin.OperationTracking
import Matinier.Assistant.Plugin.SingleUse
import Matinier.Assistant.ResultContract
import Matinier.Assistant.ResultPersistence
import Matinier.Assistant.SchedulerProgress
import Matinier.Assistant.StartupRecovery
import Matinier.Captions.CueFits
import Matinier.Captions.LatestWording
import Matinier.Captions.SessionSegments
import Matinier.Captions.TranslationAlignment
import Matinier.Captions.TranslationClock
import Matinier.Captions.ViewConvergence
import Matinier.CourseOrganizer.StateVersions
import Matinier.Media.Scan
import Matinier.Meeting.BatchText
import Matinier.Meeting.CitedRevisions
import Matinier.Meeting.FairQueue
import Matinier.Meeting.MergeAlgebra
import Matinier.Meeting.MergedContent
import Matinier.Meeting.ProjectorWorkers
import Matinier.MeetingAssistant.CurrentView
import Matinier.Packages.ZipExport
import Matinier.Plugins.AtLeastOnce
import Matinier.Plugins.CallBudget
import Matinier.Plugins.ContainersAccounted
import Matinier.Plugins.InstallAtomicity
import Matinier.Plugins.MediaQuery
import Matinier.Plugins.NetworkFetch
import Matinier.Plugins.PluginContainment
import Matinier.Plugins.RestartBudget
import Matinier.Plugins.RpcSettlement
import Matinier.Plugins.ScopeOrder
import Matinier.Plugins.UpdateAtomicity
import Matinier.Plugins.ViewAcceptance
import Matinier.Processing.RunnerSound
import Matinier.Sessions.Lifecycle
import Matinier.TaskSystem.ExecutedCandidates
import Matinier.TaskSystem.IssueKeys
import Matinier.TaskSystem.ResultOrder
import Matinier.Timeline.Normalization
