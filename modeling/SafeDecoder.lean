import SafeDecoder.Answers.Accuracy
import SafeDecoder.Answers.LaterAnswers
import SafeDecoder.Answers.NewContractAbi
import SafeDecoder.Answers.ResolutionOrder
import SafeDecoder.Calls.CallTree
import SafeDecoder.Calls.Codec
import SafeDecoder.Calls.Containment
import SafeDecoder.Calls.Exceptions
import SafeDecoder.Calls.Growth
import SafeDecoder.Calls.NestedCalls
import SafeDecoder.Calls.ReferenceCodec
import SafeDecoder.Calls.Rendering
import SafeDecoder.Data.Digits
import SafeDecoder.Data.Externals
import SafeDecoder.Data.Json
import SafeDecoder.Data.PythonValue
import SafeDecoder.Data.ReferencePackages
import SafeDecoder.Data.ReferenceSizes
import SafeDecoder.Decoder.CallData
import SafeDecoder.Decoder.Endpoint
import SafeDecoder.Decoder.Reload
import SafeDecoder.Decoder.Requests
import SafeDecoder.Decoder.SelectorIndex
import SafeDecoder.Decoder.Service
import SafeDecoder.Index.CursorRaces
import SafeDecoder.Index.FailedReload
import SafeDecoder.Index.Relevance
import SafeDecoder.Index.RowOrder
import SafeDecoder.Index.SharedIndex
import SafeDecoder.Index.StoredAbis
import SafeDecoder.Index.WellKeyed
import SafeDecoder.Library.Dictionary
import SafeDecoder.Library.Effects
import SafeDecoder.Library.Evaluation
import SafeDecoder.Library.Interleaving
import SafeDecoder.Library.Lease
import SafeDecoder.Library.Logging
import SafeDecoder.Library.MemoTable
import SafeDecoder.Library.Outcomes
import SafeDecoder.Library.Paging
import SafeDecoder.Library.ProgramLogic
import SafeDecoder.Library.Programs
import SafeDecoder.Library.RankedStream
import SafeDecoder.Library.Settlement
import SafeDecoder.Library.Termination
import SafeDecoder.Library.TwoPhase
import SafeDecoder.Listing.ContractCache
import SafeDecoder.Listing.Expiry
import SafeDecoder.Listing.FieldKey
import SafeDecoder.Listing.Pagination
import SafeDecoder.Listing.PublicUrl
import SafeDecoder.Listing.Staleness
import SafeDecoder.Listing.Transparency
import SafeDecoder.Service.AdminAuth
import SafeDecoder.Storage.ContractMetadata
import SafeDecoder.Storage.Jsonb
import SafeDecoder.Storage.JsonbReading
import SafeDecoder.Storage.JsonbText
import SafeDecoder.Storage.Sessions
import SafeDecoder.Storage.Tables
import SafeDecoder.Worker.BundledRelevance
import SafeDecoder.Worker.ChainChecks
import SafeDecoder.Worker.Consumer
import SafeDecoder.Worker.CreationLock
import SafeDecoder.Worker.Deduplication
import SafeDecoder.Worker.Downloads
import SafeDecoder.Worker.EventTasks
import SafeDecoder.Worker.Events
import SafeDecoder.Worker.FetchRetries
import SafeDecoder.Worker.GetOrCreate
import SafeDecoder.Worker.LatestMetadata
import SafeDecoder.Worker.Marks
import SafeDecoder.Worker.Nights
import SafeDecoder.Worker.Processing
import SafeDecoder.Worker.Programs
import SafeDecoder.Worker.ProxyChase
import SafeDecoder.Worker.Redelivery
import SafeDecoder.Worker.Refusals
import SafeDecoder.Worker.Rules
import SafeDecoder.Worker.SafeContracts
import SafeDecoder.Worker.Sequential
import SafeDecoder.Worker.StartUp
import SafeDecoder.Worker.System
import SafeDecoder.Worker.World
