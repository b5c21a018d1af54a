import Fuse.Connectors.S3
import Fuse.Connectors.MissingFields
import Fuse.Connectors.Iceberg
import Fuse.Connectors.Otel
import Fuse.Engine.PostgresText
import Fuse.Engine.Chaining
import Fuse.Engine.WhereFragment
import Fuse.Engine.DerivedTables
import Fuse.Engine.UnionTypes
import Fuse.Engine.PplPipeline
import Fuse.Engine.SemiJoin
import Fuse.Engine.QueryCacheBooks
import Fuse.Server.SourceScan
import Fuse.Server.Parallelism
import Fuse.Server.RecursiveCte
import Fuse.Server.FieldPolicies
import Fuse.Server.StreamSecurity
import Fuse.Server.Cursor
import Fuse.Server.PplStats
import Fuse.Server.JoinSides
import Fuse.Server.Transactions
import Fuse.Server.IncrementalRefresh
import Fuse.Server.CallHistories
import Fuse.Server.Parameters
import Fuse.Server.StatementSafety
import Fuse.Server.CallbackUrl
import Fuse.Server.WasmPlugin
import Fuse.Server.RequestSigning
import Fuse.Server.KeyRotation
import Fuse.Server.StreamFailures
import Fuse.Server.Watermarks
import Fuse.Connectors.PromQl
