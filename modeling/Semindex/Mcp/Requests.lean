import Semindex.Support.Json
import Semindex.Support.Decimal
import Semindex.Support.InputStream
import Mathlib.Data.List.Basic

/-! The requests of the MCP server in flight: the reader, and a worker and a deadline
timer for each tool call that was accepted, one step at a time in any order. What a
tool answers is its own, and the interrupts of its database with it. Writes succeed. -/
namespace Semindex.Mcp.Requests
open Semindex.Support

abbrev Members := List (Text × Json)

inductive RequestId where
  | number (value : Int)
  | text (value : Text)
  deriving DecidableEq

def RequestId.key : RequestId → Text
  | .number value => 'n' :: ':' :: signedDecimal value
  | .text value => 's' :: ':' :: value

inductive McpToolStatus where
  | success
  | invalidParams
  | unknownTool
  | databaseError
  | cancelled
  | deadlineExceeded
  deriving DecidableEq

structure McpToolResult where
  status : McpToolStatus
  data : Json
  message : Text

inductive Body where
  | result (value : Json)
  | error (code : Int) (message : Text)

/-- A response; `origin` is the accepted request whose worker has written it. -/
structure Written where
  id : Option RequestId
  body : Body
  origin : Option Nat

/-- What the server calls: the JSON library, the tools it lists, and whether it may index. -/
structure Services where
  parse : List Byte → Option Json
  integer : Text → Option Int
  print : Json → Text
  toolDefinitions : Json
  allowReindex : Bool

def maxResponseSize : Nat := 1024 * 1024
def parseError : Int := -32700
def invalidRequest : Int := -32600
def methodNotFound : Int := -32601
def invalidParams : Int := -32602
def internalError : Int := -32603
def serverNotInitialized : Int := -32002
def requestCancelled : Int := -32800
def deadlineExceeded : Int := -32001

/-- The flags of `McpRequestControl`; `late` once the clock has reached the deadline. -/
structure Control where
  cancelled : Bool
  timedOut : Bool
  completed : Bool
  late : Bool

def Control.new : Control := ⟨false,false,false,false⟩
def Control.stopped (control : Control) : Bool := control.cancelled || control.timedOut || control.late
def Control.cancel (control : Control) : Control := {control with cancelled := true}
def Control.complete (control : Control) : Control := {control with completed := true}

def cancelledResult : McpToolResult := ⟨.cancelled,.object [],"Request cancelled".toList⟩
def deadlineResult : McpToolResult := ⟨.deadlineExceeded,.object [],"Request deadline exceeded".toList⟩
def unknownResult : McpToolResult := ⟨.unknownTool,.object [],"Unknown tool".toList⟩
def databaseResult : McpToolResult := ⟨.databaseError,.object [],"Failed to open database".toList⟩

def stoppedResult (control : Control) : McpToolResult := if control.cancelled then cancelledResult else deadlineResult

/-- Where a worker stands in `runTool`, and inside `McpToolService::call` up to `running`. -/
inductive Phase where
  | spawned
  | parsing
  | calling (name : Text)
  | opening (name : Text)
  | bound (name : Text)
  | stopping
  | running
  | returned (result : McpToolResult)
  | completed (result : McpToolResult)
  | joined (result : McpToolResult)
  | responding (result : McpToolResult)
  | failing (code : Int) (message : Text)
  | closing
  | closed
  | answered
  | finished

inductive Timer where
  | unborn
  | waiting
  | expired
  | done
  deriving DecidableEq

structure Request where
  id : RequestId
  payload : List Byte
  control : Control
  phase : Phase
  timer : Timer

/-- What the tools decide: whether the database opens, and what the tool answers. -/
structure Choice where
  opens : Bool
  result : McpToolResult

section Worker
variable (services : Services)

def toolNames : List Text :=
  ["search_symbols".toList,"symbol_at".toList,"find_definitions".toList,"find_references".toList,
    "find_declared_types".toList,"find_function_signature".toList,"find_callers".toList,"find_callees".toList,
    "read_source_context".toList,"list_variants".toList,"index_status".toList]

def textContent (text : Text) : Json :=
  .array [.object [("type".toList,.string "text".toList),("text".toList,.string text)]]

def toolResult (result : McpToolResult) : Json :=
  if result.status ≠ .success then
    .object [("content".toList,textContent result.message),("isError".toList,.boolean true)]
  else if maxResponseSize < (utf8 (services.print result.data)).length then
    .object [("content".toList,textContent "Response size limit exceeded".toList),("isError".toList,.boolean true)]
  else .object [("content".toList,textContent (services.print result.data)),("structuredContent".toList,result.data),
    ("isError".toList,.boolean false)]

-- the tool that a queued call asks for
def parsedCall (payload : List Byte) : Phase :=
  match services.parse payload with
  | none => .failing internalError "Failed to parse queued request".toList
  | some message =>
    let params := match message with
      | .object members => Json.getObject members "params"
      | _ => none
    match params with
    | none => .failing invalidParams "Invalid tool call".toList
    | some params =>
      match Json.getString params "name" with
      | none => .failing invalidParams "Invalid tool call".toList
      | some name =>
        if (Json.get params "arguments").isSome ∧ (Json.getObject params "arguments").isNone then
          .failing invalidParams "Invalid tool call".toList
        else .calling name

-- a stop that was asked for before the tool returned wins over what it returned
def decided (control : Control) (result : McpToolResult) : McpToolResult :=
  if control.cancelled then cancelledResult else if control.timedOut then deadlineResult else result

def responseBody (result : McpToolResult) : Body :=
  match result.status with
  | .unknownTool => .error invalidParams "Unknown tool".toList
  | .cancelled => .error requestCancelled result.message
  | .deadlineExceeded => .error deadlineExceeded result.message
  | .databaseError => .error internalError result.message
  | _ => .result (toolResult services result)

local instance : LawfulBEq Text := inferInstance

/-- The next step of the worker, with what it writes; none where it waits for its timer. -/
def Request.step (choice : Choice) (r : Request) : Option (Request × Option Body) :=
  match r.phase with
  | .spawned => some ({r with phase := .parsing, timer := .waiting},none)
  | .parsing => some ({r with phase := parsedCall services r.payload},none)
  | .calling name =>
    if r.control.stopped then some ({r with phase := .stopping},none)
    else if name = "reindex_file".toList then
      if services.allowReindex then some ({r with phase := .running},none)
      else some ({r with phase := .returned unknownResult},none)
    else some ({r with phase := .opening name},none)
  | .opening name =>
    if choice.opens then some ({r with phase := .bound name},none)
    else some ({r with phase := .returned databaseResult},none)
  | .bound name =>
    if r.control.stopped then some ({r with phase := .stopping},none)
    else if name ∈ toolNames then some ({r with phase := .running},none)
    else some ({r with phase := .returned unknownResult},none)
  | .stopping => some ({r with phase := .returned (stoppedResult r.control)},none)
  | .running => some ({r with phase := .returned choice.result},none)
  | .returned result => some ({r with phase := .completed result, control := r.control.complete},none)
  | .completed result => if r.timer = .done then some ({r with phase := .joined result},none) else none
  | .joined result => some ({r with phase := .responding (decided r.control result)},none)
  | .responding result => some ({r with phase := .answered},some (responseBody services result))
  | .failing code message => some ({r with phase := .closing},some (.error code message))
  | .closing => some ({r with phase := .closed, control := r.control.complete},none)
  | .closed => if r.timer = .done then some ({r with phase := .answered},none) else none
  -- `finish` follows, which takes the request out of the map
  | .answered => none
  | .finished => none

/-- `waitForDeadline`: it waits for the completion or the deadline, whichever it sees first. -/
def Request.time (r : Request) : Option Request :=
  match r.timer with
  | .unborn => none
  | .waiting =>
    if r.control.completed then some {r with timer := .done}
    else if r.control.late then some {r with timer := .expired, control := {r.control with timedOut := true}}
    else none
  | .expired => some {r with timer := .done}
  | .done => none

end Worker

inductive State where
  | uninitialized
  | awaitingInitialized
  | running
  deriving DecidableEq

/-- Where `run` stands; `cancelling` with the requests it has yet to cancel. -/
inductive Reader where
  | reading
  | stopped
  | cancelling (rest : List Nat)
  | waiting
  | returned (status : Int)
  deriving DecidableEq

structure Server where
  state : State
  transportFailed : Bool
  reader : Reader
  requests : List (Text × Nat)
  accepted : List Request
  written : List Written

def Server.new : Server := ⟨.uninitialized,false,.reading,[],[],[]⟩

def Server.modify (s : Server) (n : Nat) (f : Request → Request) : Server := {s with accepted := s.accepted.modify n f}

def Server.cancel (s : Server) (n : Nat) : Server := s.modify n (fun r => {r with control := r.control.cancel})

def Server.write (s : Server) (id : Option RequestId) (body : Body) : Server :=
  {s with written := s.written ++ [⟨id,body,none⟩]}

def Server.error (s : Server) (id : Option RequestId) (code : Int) (message : String) : Server :=
  s.write id (.error code message.toList)

def Server.find (s : Server) (key : Text) : Option Nat := (s.requests.find? (fun entry => entry.1 = key)).map Prod.snd

inductive Method where
  | cancelled
  | initializeServer
  | ping
  | initialized
  | toolsList
  | toolsCall
  | unknown
  deriving DecidableEq

def methodNames : List (String × Method) :=
  [("notifications/cancelled",.cancelled),("initialize",.initializeServer),("ping",.ping),
    ("notifications/initialized",.initialized),("tools/list",.toolsList),("tools/call",.toolsCall)]

def Method.ofText (name : Text) : Method :=
  ((methodNames.find? (fun entry => entry.1.toList = name)).map Prod.snd).getD .unknown

structure Message where
  id : Option RequestId
  method : Method
  params : Option Members

section Dispatch
variable (services : Services)

def requestId (id : Option Json) : Option RequestId :=
  match id with
  | some (.number spelling) => (services.integer spelling).map .number
  | some (.string text) => some (.text text)
  | _ => none

def Message.read (members : Members) : Option Message :=
  if Json.getString members "jsonrpc" = some "2.0".toList ∧
      ((Json.get members "id").isNone ∨ (requestId services (Json.get members "id")).isSome) then
    (Json.getString members "method").map (fun method =>
      ⟨requestId services (Json.get members "id"),.ofText method,Json.getObject members "params"⟩)
  else none

def protocolVersion : String := "2025-11-25"

def initializeResult (negotiated : Text) : Json :=
  .object [("protocolVersion".toList,.string negotiated),
    ("capabilities".toList,.object [("tools".toList,.object [("listChanged".toList,.boolean false)])]),
    ("serverInfo".toList,.object [("name".toList,.string "semindex".toList),
      ("title".toList,.string "semindex semantic index".toList),("version".toList,.string "0".toList)]),
    ("instructions".toList,.string (if services.allowReindex
      then "Use bounded tools to inspect the index and reindex individual workspace files.".toList
      else "Use bounded read-only tools to inspect the configured semantic index.".toList))]

def greet (s : Server) (id : RequestId) (params : Option Members) : Server :=
  match params with
  | none => s.error (some id) invalidRequest "Invalid initialize request"
  | some params =>
    if s.state ≠ .uninitialized then s.error (some id) invalidRequest "Invalid initialize request"
    else
      match Json.getString params "protocolVersion" with
      | none => s.error (some id) invalidParams "Missing protocol version"
      | some version =>
        if (Json.getObject params "capabilities").isNone ∨ (Json.getObject params "clientInfo").isNone then
          s.error (some id) invalidParams "Missing protocol version"
        else
          let negotiated := if version = protocolVersion.toList then version else protocolVersion.toList
          {s with state := .awaitingInitialized}.write (some id) (.result (initializeResult services negotiated))

def listTools (s : Server) (id : RequestId) (params : Option Members) : Server :=
  if ((params.bind (fun params => Json.get params "cursor"))).isSome then
    s.error (some id) invalidParams "Tool list cursor is not supported"
  else s.write (some id) (.result (.object [("tools".toList,services.toolDefinitions)]))

def callTool (s : Server) (id : RequestId) (params : Option Members) (payload : List Byte) : Server :=
  if (params.bind (fun params => Json.getString params "name")).isNone then
    s.error (some id) invalidParams "Invalid tool call"
  else if (s.find id.key).isSome then s.error (some id) invalidRequest "Duplicate request ID"
  else {s with requests := s.requests ++ [(id.key,s.accepted.length)],
               accepted := s.accepted ++ [⟨id,payload,.new,.spawned,.unborn⟩]}

def cancelRequest (s : Server) (params : Option Members) : Server :=
  match params.bind (fun params => requestId services (Json.get params "requestId")) with
  | none => s
  | some id =>
    match s.find id.key with
    | none => s
    | some n => s.cancel n

-- `id ? error(id, code, message) : true`
def refuse (s : Server) (id : Option RequestId) (code : Int) (message : String) : Server :=
  match id with
  | some id => s.error (some id) code message
  | none => s

def serveRunning (s : Server) (m : Message) (payload : List Byte) : Server :=
  match m.method,m.id with
  | .toolsList,some id => listTools services s id m.params
  | .toolsList,none => s
  | .toolsCall,some id => callTool s id m.params payload
  | .toolsCall,none => s
  | _,id => refuse s id methodNotFound "Method not found"

def serve (s : Server) (m : Message) (payload : List Byte) : Server :=
  match m.method with
  | .cancelled =>
    match m.id with
    | some id => s.error (some id) invalidRequest "Invalid Request"
    | none => cancelRequest services s m.params
  | .initializeServer =>
    match m.id with
    | some id => greet services s id m.params
    | none => s.error none invalidRequest "Invalid Request"
  | .ping =>
    match m.id with
    | some id => s.write (some id) (.result (.object []))
    | none => s
  | method =>
    match s.state with
    | .uninitialized => refuse s m.id serverNotInitialized "Server not initialized"
    | .awaitingInitialized =>
      if method = .initialized then
        match m.id with
        | some id => s.error (some id) invalidRequest "Invalid Request"
        | none => {s with state := .running}
      else refuse s m.id serverNotInitialized "Server not initialized"
    | .running =>
      if method = .initialized then refuse s m.id invalidRequest "Invalid Request"
      else serveRunning services s m payload

-- the message of a payload, where it is one the dispatch takes
def messageOf (payload : List Byte) : Option Message :=
  match services.parse payload with
  | some (.object members) => Message.read services members
  | _ => none

def handle (s : Server) (payload : List Byte) : Server :=
  match services.parse payload with
  | none => s.error none parseError "Parse error"
  | some _ =>
    match messageOf services payload with
    | none => s.error none invalidRequest "Invalid Request"
    | some m => serve services s m payload

end Dispatch

inductive ReadResult where
  | message (payload : List Byte)
  | endOfFile
  | error

inductive Event where
  | read (result : ReadResult)
  | stop
  | clock (n : Nat)
  | worker (n : Nat) (choice : Choice)
  | timer (n : Nat)

def Reader.locked : Reader → Bool
  | .cancelling _ => true
  | _ => false

section Steps
variable (services : Services)

/-- After the loop: a failed transport cancels what is in flight, and `waitWorkers` waits for the rest. -/
def Server.stop (s : Server) : Option Server :=
  match s.reader with
  | .reading => none
  | .stopped =>
    if s.transportFailed then some {s with reader := .cancelling (s.requests.map Prod.snd)}
    else some {s with reader := .waiting}
  | .cancelling [] => some {s with reader := .waiting}
  | .cancelling (n::rest) => some {s.cancel n with reader := .cancelling rest}
  | .waiting => if s.requests = [] then some {s with reader := .returned (if s.transportFailed then 1 else 0)} else none
  | .returned _ => none

def Server.work (s : Server) (n : Nat) (choice : Choice) : Option Server :=
  match s.accepted[n]? with
  | none => none
  | some r =>
    match r.phase with
    | .answered =>
      if s.reader.locked then none
      else some {s.modify n (fun r => {r with phase := .finished}) with
        requests := s.requests.filter (fun entry => entry.1 ≠ r.id.key)}
    | _ => (r.step services choice).map (fun next =>
      {s.modify n (fun _ => next.1) with written := s.written ++ next.2.toList.map (fun body => ⟨some r.id,body,some n⟩)})

def Server.step (s : Server) : Event → Option Server
  | .read result =>
    if s.reader ≠ .reading then none
    else match result with
      | .message payload => some (handle services s payload)
      | .endOfFile => some {s with reader := .stopped}
      | .error => some {s with reader := .stopped, transportFailed := true}
  | .stop => s.stop
  | .clock n => some (s.modify n (fun r => {r with control := {r.control with late := true}}))
  | .worker n choice => s.work services n choice
  | .timer n => (s.accepted[n]?.bind Request.time).map (fun r => s.modify n (fun _ => r))

/-- The steps of any of the threads, in any order. -/
def Server.run (s : Server) (events : List Event) : Option Server := events.foldlM (Server.step services) s

end Steps
end Semindex.Mcp.Requests
