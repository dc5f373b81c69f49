import Rockets.Machine
import Rockets.LatestValues
import Rockets.WsReassembly
import Rockets.WsBroadcasts
import Rockets.WsResponses
import Rockets.WsConnectionRuns
import Rockets.Json
import Rockets.HttpRouting
import Rockets.HttpAllowedMethods
import Rockets.HttpRegistration
import Rockets.HttpLifeCycle
import Rockets.HttpConnectionTable
import Rockets.HttpFiltering
import Rockets.HttpClientCallbacks
import Rockets.HttpClientBodies
import Rockets.HttpContentLength
import Rockets.HttpQuery
import Rockets.HttpFutures
import Rockets.JsClientBatches
import Rockets.JsClientResponses
import Rockets.JsClientUrl
import Rockets.JsClientProgress
import Rockets.PyClientSubscribers
import Rockets.PyClientResults
import Rockets.PyClientBatches
import Rockets.ProgressAggregates
import Rockets.JsonRpcBindings
import Rockets.JsonRpcRoundTrip
import Rockets.JsonRpcRequesterHandles
import Rockets.JsonRpcRequesterFailures
import Rockets.JsonRpcHttpCommunicator
import Rockets.JsonRpcCancellableClients
import Rockets.JsonRpcCancellableTable
import Rockets.JsonRpcServer
import Rockets.PollDescriptors
import Rockets.Loops
import Rockets.JsonDecoder
import Rockets.JsonGrammar
import Rockets.JsonLexer
import Rockets.JsonStrings
import Rockets.JsonNumbers
import Rockets.JsonTokens
import Rockets.JsonParser
import Rockets.JsonDom
import Rockets.JsonDocuments
import Rockets.JsonCompleteness
import Rockets.JsonSerializer
import Rockets.JsonNumerals
import Rockets.JsonDump
import Rockets.JsonTexts
import Rockets.JsonRpcForeignBytes
import Rockets.JsonRpcWire
