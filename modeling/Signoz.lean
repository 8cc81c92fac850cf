import Signoz.Alertmanager.Batcher
import Signoz.Querier.CursorPaging
import Signoz.Querier.PartialPoints
import Signoz.ResourceFilter.ConditionExact
import Signoz.TraceOperator.RootCTE
import Signoz.Rules.CopyState
import Signoz.Rules.FailedChange
import Signoz.Rules.TasksMirror
import Signoz.Rules.RoutingFollows
import Signoz.AgentConf.ConfigVersions
import Signoz.Opamp.Agents
import Signoz.Tokenizer.SessionLife
import Signoz.Transition.Migrate
import Signoz.Sqlschema.DiffIndices
import Signoz.Transition.FilterMigration
import Signoz.Rules.Verdict
import Signoz.Rules.CumulativeWindow
import Signoz.Rules.ScheduleStorage
import Signoz.Rules.RestartHistory
import Signoz.Dashboard.FetchRuns
import Signoz.LogPipelines.PipelineProcessor
import Signoz.Querier.BucketPartition
import Signoz.Querier.ExactRanges
import Signoz.Querier.TimeShift
import Signoz.Alertmanager.TestAlert
import Signoz.Rules.MissingData
import Signoz.Alertmanager.LabelEnv
import Signoz.Alertmanager.RuleMatchers
import Signoz.Querier.ExecutionStats
import Signoz.Querier.RowGrouping
import Signoz.Querier.ScalarMerge
import Signoz.TraceOperator.Precedence
import Signoz.TraceOperator.CTERows
import Signoz.FilterQuery.ConditionErrors
import Signoz.Querier.IndexedFormula
import Signoz.Querier.StepInterval
import Signoz.TraceDetail.Flamegraph
import Signoz.TraceDetail.WaterfallOrder
import Signoz.Having.Reading
import Signoz.FilterQuery.FalseAlarms
import Signoz.TraceDetail.ServiceTime
import Signoz.Tokenizer.Rotation
import Signoz.Tokenizer.SessionLimit
import Signoz.LogPipelines.CollectorConfig
import Signoz.Opamp.PipelineBuilder
import Signoz.LogPipelines.NilGuardValues
import Signoz.LogPipelines.Preview
import Signoz.LogPipelines.TimeLayouts
import Signoz.QueryBuilder.SeriesLimit
import Signoz.Querier.PromqlCache
import Signoz.Having.ClosestMatch
import Signoz.Querier.UniqueSeriesKey
import Signoz.RawDataExport.Export
import Signoz.FilterQuery.VariableReads
