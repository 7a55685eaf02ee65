import Kitp.IdempotencyOnce
import Kitp.SinkPumpOnce
import Kitp.DispatchEach
import Kitp.UnbornRuns
import Kitp.CardMoveRuns
import Kitp.Tags
import Kitp.AttributeChain
import Kitp.TemplateCopy
import Kitp.CardMerge
import Kitp.TaskMove
import Kitp.CardTree
import Kitp.AttributeLog
import Kitp.AttributeEdges
import Kitp.FlowSet
import Kitp.FlowStates
import Kitp.ApprovalWrites
import Kitp.ApprovalRuns
import Kitp.ApprovalViews
import Kitp.ApprovalAgree
import Kitp.Agents
import Kitp.CardDelete
import Kitp.Lib.Lease
import Kitp.MailSender
import Kitp.MailSenderRuns
import Kitp.Cas
import Kitp.CasRuns
import Kitp.Relay
import Kitp.RelayRuns
import Kitp.Intake
import Kitp.IntakeRuns
import Kitp.TaskPurge
import Kitp.CardRefs
import Kitp.CardRefRuns
import Kitp.CommLists
import Kitp.CommThreads
import Kitp.CommFiling
import Kitp.ThreadLists
import Kitp.ThreadFiling
import Kitp.ThreadRuns
import Kitp.Lib.Unique
import Kitp.Transactions
import Kitp.ScreenNames
import Kitp.ScreenRuns
import Kitp.LinkSet
import Kitp.LinkUrls
import Kitp.Claims
import Kitp.IdpRoles
import Kitp.PersonEmails
import Kitp.SignIn
import Kitp.SignInCache
import Kitp.ImportJobs
import Kitp.Portals
import Kitp.Publications
import Kitp.MyScreens
import Kitp.PersonMerge
import Kitp.PrivateCards
import Kitp.PrivateCardOps
import Kitp.PrivateCardRuns
import Kitp.Lib.Versions
import Kitp.PersonEmailAdds
import Kitp.PersonEmailRuns
import Kitp.PersonEmailTurns
import Kitp.PersonPrimaries
import Kitp.TreeActions
import Kitp.TreeQueries
import Kitp.SignalFlush
import Kitp.SignalReads
import Kitp.SignalRuns
import Kitp.SignalBatches
import Kitp.AreaSwitchRuns
import Kitp.IdpKeyRuns
import Kitp.IdpKeyCrashes
import Kitp.IdpKeyAnswers
import Kitp.AdminBootstrap
import Kitp.AdminBootstrapRuns
import Kitp.PortalBuildRuns
import Kitp.PortalBuildFlips
import Kitp.PortalSites
import Kitp.Limiter
import Kitp.LimiterRuns
import Kitp.LimiterGrants
import Kitp.VirtualList
import Kitp.VirtualListRows
import Kitp.CalendarFeeds
import Kitp.CalendarFolds
import Kitp.CalendarReads
import Kitp.Lib.WebPaths
import Kitp.LoginRedirects
import Kitp.SessionEnds
import Kitp.SessionTouchRuns
import Kitp.SessionLives
import Kitp.KanbanBoard
import Kitp.KanbanColumns
import Kitp.KanbanDrops
import Kitp.Lib.NetIP
import Kitp.TrustedHops
import Kitp.Lib.BufReader
import Kitp.ProxyHeaders
import Kitp.ProxySniffs
import Kitp.Lib.AddrText
import Kitp.ProxyConns
import Kitp.Lib.RelativeRefs
import Kitp.SitePages
import Kitp.SiteTrees
import Kitp.SiteLinks
import Kitp.SiteBuilds
import Kitp.SiteRefs
import Kitp.ScopeWalks
import Kitp.TagArrays
import Kitp.CardMergeRefs
import Kitp.Lib.PercentText
import Kitp.Lib.UrlPaths
import Kitp.Router
import Kitp.Lib.Normalization
import Kitp.TextNorm
import Kitp.Lib.LinePatterns
import Kitp.QuotedReplies
import Kitp.ThemeTemplates
import Kitp.CsvCells
import Kitp.Lib.SqlTokens
import Kitp.NamedSlots
import Kitp.SlotCompile
import Kitp.Hcsv
import Kitp.HcsvHeadings
import Kitp.HcsvRows
import Kitp.HcsvTrees
import Kitp.IsoDates
import Kitp.IsoDateForms
import Kitp.IsoDatesAgree
import Kitp.Filters
import Kitp.FilterLens
