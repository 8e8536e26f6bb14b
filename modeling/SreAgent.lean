import SreAgent.Lifecycle.Reports
import SreAgent.Base.LengthPrefix
import SreAgent.Base.Text
import SreAgent.Alerts.Identity
import SreAgent.Base.JsonRoundTrip
import SreAgent.Outbox.Safety
import SreAgent.Outbox.Recovery
import SreAgent.Outbox.Audited
import SreAgent.Base.JsonBytes
import SreAgent.Base.IpAddress
import SreAgent.Base.ParentChain
import SreAgent.Base.Outcome
import SreAgent.Trace.Labels
import SreAgent.Trace.Stored
import SreAgent.Trace.Raises
import SreAgent.Trace.Total
import SreAgent.Base.IsoTime
import SreAgent.Base.Preorder
import SreAgent.Trace.Worker
import SreAgent.Trace.Selection
import SreAgent.Trace.Candidates
import SreAgent.Trace.Selected
import SreAgent.Trace.Agreement
import SreAgent.Base.Transaction
import SreAgent.Base.Sha256
import SreAgent.Ingestion.Normalizer
import SreAgent.Ingestion.Statements
import SreAgent.Ingestion.Execute
import SreAgent.Ingestion.Skeleton
import SreAgent.Ingestion.Turns
import SreAgent.Ingestion.Outboxed
import SreAgent.Ingestion.Replay
import SreAgent.Ingestion.Instances
import SreAgent.Ingestion.AlertFlags
import SreAgent.Base.JsonPart
import SreAgent.Ingestion.Documents
import SreAgent.Ingestion.Returns
import SreAgent.Ingestion.Accepted
import SreAgent.Ingestion.References
import SreAgent.Rca.Models
import SreAgent.Rca.Context
import SreAgent.Rca.Specialist
import SreAgent.Rca.SdkClient
import SreAgent.Base.Procedure
import SreAgent.Rca.Evidence
import SreAgent.Rca.EvidenceTools
import SreAgent.Lifecycle.Attempts
import SreAgent.Lifecycle.Fencing
import SreAgent.Lifecycle.SingleReport
import SreAgent.Lifecycle.RunStatus
import SreAgent.Trace.Truncation
import SreAgent.Trace.Ranking
import SreAgent.Base.Options
import SreAgent.Trace.Parsed
import SreAgent.Trace.Reordered
import SreAgent.Trace.Independent
import SreAgent.Trace.Torn
import SreAgent.Trace.Tokens
import SreAgent.Trace.Storable
import SreAgent.Trace.Response
import SreAgent.Base.Datetime
import SreAgent.Base.Base64
import SreAgent.Base.HexText
import SreAgent.Base.Keyset
import SreAgent.Operator.Cursor
import SreAgent.Operator.Reads
import SreAgent.Operator.Pages
import SreAgent.Operator.Resources
import SreAgent.Operator.Authorization
import SreAgent.Operator.Separation
import SreAgent.Rca.ToolSpecs
import SreAgent.Rca.Collecting
import SreAgent.Rca.ToolCalls
import SreAgent.Rca.Branches
import SreAgent.Base.Slots
import SreAgent.Rca.Analysis
import SreAgent.Rca.Discovery
import SreAgent.Base.Retries
import SreAgent.Rca.AnalysisWorkflow
import SreAgent.Rca.Partition
import SreAgent.Rca.Validator
import SreAgent.Base.Slices
import SreAgent.Rca.Chunks
import SreAgent.Base.Climb
import SreAgent.Trace.Walks
import SreAgent.Ingestion.Parsing
import SreAgent.Base.History
import SreAgent.Lifecycle.Bookkeeping
import SreAgent.Rca.Approvals
import SreAgent.Base.Dialogue
import SreAgent.Rca.Report
import SreAgent.Rca.ModelCalls
import SreAgent.Rca.Legacy
import SreAgent.Rca.LegacyReports
import SreAgent.Rca.Storing
import SreAgent.Rca.Redelivery
import SreAgent.Rca.AnalysisRun
import SreAgent.Rca.AnalysedReports
import SreAgent.Base.Least
import SreAgent.Ingestion.Rules
import SreAgent.Base.Shield
import SreAgent.Outbox.Settlement
import SreAgent.Base.Outline
import SreAgent.Trace.Rows
