import DoClient.Lib.Run
import DoClient.Lib.Multimap
import DoClient.Lib.OrdMap
import DoClient.Lib.Loop
import DoClient.Lib.Pattern
import DoClient.Lib.History
import DoClient.Lib.Paragraphs
import DoClient.Lib.Numeral
import DoClient.Lib.Search
import DoClient.Lib.Fiber
import DoClient.Lib.Coupling
import DoClient.HResult
import DoClient.TaskQueue
import DoClient.Http
import DoClient.Download
import DoClient.Agent
import DoClient.Life
import DoClient.Content
import DoClient.Counters
import DoClient.Pausing
import DoClient.OneRequest
import DoClient.Ownership
import DoClient.Escapes
import DoClient.CurlRequests
import DoClient.Quiescence
import DoClient.NoneLost
import DoClient.FailedRequests
import DoClient.Effects
import DoClient.Watchdog
import DoClient.NoProgress
import DoClient.Fallback
import DoClient.SdkDownload
import DoClient.Bytes
import DoClient.Uri
import DoClient.HttpParser
import DoClient.HttpMessage
import DoClient.Connection
import DoClient.RestApi
import DoClient.SetProperty
import DoClient.SdkRequest
import DoClient.RestController
import DoClient.SdkClient
import DoClient.SdkResponse
import DoClient.Bans
import DoClient.RequestHistory
import DoClient.Callbacks
import DoClient.ResponseHeaders
import DoClient.RefusedResponses
import DoClient.Totals
import DoClient.ShortWrites
import DoClient.Ranges
import DoClient.AptMethod
import DoClient.Schedule
import DoClient.Guid
import DoClient.IoTConnection
import DoClient.Timeout
import DoClient.Chunks
import DoClient.WaitableCounter
import DoClient.Log
import DoClient.Attempts
import DoClient.Retries
import DoClient.Alternation
import DoClient.SwapUrl
import DoClient.Service
import DoClient.SideBySide
import DoClient.Gone
import DoClient.Alone
import DoClient.Lifetimes
import DoClient.ServiceRuns
import DoClient.Turns
