import Pdcm.Metrics.HealthAnnouncements
import Pdcm.Metrics.ProcessorRuns
import Pdcm.Data.CloseBarrier
import Pdcm.Data.EventOrder
import Pdcm.Core.Lifecycle
import Pdcm.Core.SessionQuotas
import Pdcm.Collection.FreshReads
import Pdcm.Collection.SentRequests
import Pdcm.Collection.SiblingIsolation
import Pdcm.Collection.SampleSharing
import Pdcm.Client.ResponseAcceptance
import Pdcm.Client.AnswerMatching
import Pdcm.Data.EventWindow
import Pdcm.Data.QueueArithmetic
import Pdcm.Data.QueryTruncation
import Pdcm.Data.QueryRaces
import Pdcm.Data.Independence
import Pdcm.Collection.BusyKeys
import Pdcm.Collection.SchedulerGrid
import Pdcm.Metrics.HealthRaces
import Pdcm.Metrics.HealthCommits
