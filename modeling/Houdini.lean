import Houdini.Runtime.Cache.ResolveProperties
import Houdini.Runtime.Cache.PagedLists
import Houdini.Runtime.Client.MutationRuns
import Houdini.Runtime.Client.Deduplication
import Houdini.Runtime.Client.OptimisticKeysReturned
import Houdini.Runtime.Client.OptimisticKeysSent
import Houdini.Runtime.CursorNavigation
import Houdini.Runtime.OffsetPagination
import Houdini.Runtime.InfinitePagination
import Houdini.Plugin.Documents.PrintRoundTrip
import Houdini.Router.SafeRelative
import Houdini.Runtime.Endpoint
import Houdini.React.RouterRuns
import Houdini.React.StreamedChunks
import Houdini.Router.SessionTokenRuns
import Houdini.Glob.WalkAgreement
import Houdini.React.HrefExactness
import Houdini.Vite.DebounceHmrOrder
import Houdini.Runtime.Client.PipelineRuns
import Houdini.Vite.HotReloadWalk
import Houdini.Runtime.Cache.LayerErasure
import Houdini.Codegen.OrchestratorRuns
import Houdini.Runtime.Cache.Placement
import Houdini.Runtime.Client.QueryStoreRuns
import Houdini.Runtime.Cache.FreshKeys
import Houdini.Runtime.Cache.UpsertProperties
import Houdini.Runtime.Cache.Staleness
import Houdini.Runtime.Cache.NullPropagation
import Houdini.Runtime.Cache.FieldAges
import Houdini.Runtime.Cache.ForcedStaleness
import Houdini.Runtime.Cache.StaleMarkRuns
import Houdini.Runtime.Client.MarshaledInputsRuns
import Houdini.Runtime.Cache.KeyMapRuns
import Houdini.Plugin.Documents.ComputedKeys
import Houdini.Router.RequestGate
import Houdini.Plugin.StdioRuns
import Houdini.Router.SessionCookieRoundTrip
import Houdini.Plugin.Artifacts.RecordedPaths
import Houdini.Runtime.MultipartVariables
import Houdini.Runtime.Cache.ListIndexes
import Houdini.Runtime.DeepEqualsGraphs
import Houdini.Vite.FragmentCycles
import Houdini.Plugin.Lists.ParentID
import Houdini.Plugin.ComponentFields.Spreads
import Houdini.Plugin.Documents.IncrementalExtraction
import Houdini.Plugin.Documents.RecordKeys
