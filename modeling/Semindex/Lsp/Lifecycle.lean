import Semindex.Lsp.Transport
import Semindex.Database.Reader
import Semindex.Support.Hex

/-! The loop of the language server and the dispatch of its messages. The handlers
take their parameters apart and ask the index; what the index answers, and how it
is updated, is the services' own. Writes succeed. -/
namespace Semindex.Lsp
open Semindex.Support Semindex.Database

abbrev Members := List (Text × Json)

structure LspTextPosition where
  uri : Text
  line : Nat
  character : Nat

/-- The function a call hierarchy item names. -/
structure FunctionIdentity where
  variant : Text
  symbol : Text
  usrId : Nat

/-- What a handler asks the index. -/
inductive IndexQuery where
  | definition (position : LspTextPosition)
  | references (position : LspTextPosition) (includeDeclaration : Bool)
  | documentHighlight (position : LspTextPosition)
  | hover (position : LspTextPosition)
  | prepare (position : LspTextPosition)
  | calls (identity : FunctionIdentity) (direction : CallDirection)

/-- What the dispatch calls; `answer` is none where the database query fails. -/
structure Services (σ : Type) where
  parse : List Byte → Option Json
  integer : Text → Option Int
  filePath : Text → Option Text
  setRootUri : σ → Text → Option σ
  answer : σ → IndexQuery → Option Json
  update : σ → Text → Text → σ × Json

inductive Method where
  | exit
  | initializeServer
  | initialized
  | didOpen
  | definition
  | documentHighlight
  | references
  | hover
  | prepareCallHierarchy
  | incomingCalls
  | outgoingCalls
  | didSave
  | shutdown
  | unknown
  deriving DecidableEq

def methodNames : List (String × Method) :=
  [("exit",.exit),("initialize",.initializeServer),("initialized",.initialized),("textDocument/didOpen",.didOpen),
    ("textDocument/definition",.definition),("textDocument/documentHighlight",.documentHighlight),
    ("textDocument/references",.references),("textDocument/hover",.hover),
    ("textDocument/prepareCallHierarchy",.prepareCallHierarchy),("callHierarchy/incomingCalls",.incomingCalls),
    ("callHierarchy/outgoingCalls",.outgoingCalls),("textDocument/didSave",.didSave),("shutdown",.shutdown)]

def Method.ofText (name : Text) : Method :=
  ((methodNames.find? (fun entry => entry.1.toList = name)).map Prod.snd).getD .unknown

inductive State where
  | uninitialized
  | running
  | shutdown
  deriving DecidableEq

structure Server (σ : Type) where
  state : State
  exiting : Bool
  exitStatus : Int
  index : σ

inductive Output where
  | reply (id : Json) (result : Json)
  | error (id : Json) (code : Int) (message : String)
  | publishDiagnostics (uri : Text) (diagnostics : Json)

/-- What the server does for a message, in order. -/
inductive Effect where
  | query (q : IndexQuery)
  | update (file : Text)
  | write (output : Output)

def parseError : Int := -32700
def invalidRequest : Int := -32600
def methodNotFound : Int := -32601
def invalidParams : Int := -32602
def internalError : Int := -32603
def serverNotInitialized : Int := -32002

def error (id : Option Json) (code : Int) (message : String) : List Effect := [.write (.error (id.getD .null) code message)]

def capabilities : Json :=
  .object [("capabilities".toList,.object [("callHierarchyProvider".toList,.boolean true),
      ("definitionProvider".toList,.boolean true),("documentHighlightProvider".toList,.boolean true),
      ("hoverProvider".toList,.boolean true),("positionEncoding".toList,.string "utf-16".toList),
      ("referencesProvider".toList,.boolean true),
      ("textDocumentSync".toList,.object [("change".toList,.number "0".toList),("openClose".toList,.boolean true),
        ("save".toList,.boolean true)])]),
    ("serverInfo".toList,.object [("name".toList,.string "semindex".toList)])]

section Handlers
variable {σ : Type} (services : Services σ)

def getInteger (members : Members) (name : String) : Option Int :=
  match Json.get members name with
  | some (.number spelling) => services.integer spelling
  | _ => none

def parseTextPosition (params : Option Members) : Option LspTextPosition := do
  let params ← params
  let document ← Json.getObject params "textDocument"
  let position ← Json.getObject params "position"
  let uri ← Json.getString document "uri"
  let line ← getInteger services position "line"
  let character ← getInteger services position "character"
  if line < 0 ∨ character < 0 ∨ 2^32 - 1 ≤ line ∨ 2^32 - 1 < character then none
  else some ⟨uri,line.toNat,character.toNat⟩

def parseIdentity (variant : Text) (params : Option Members) : Option FunctionIdentity := do
  let item ← Json.getObject (← params) "item"
  let data ← Json.getObject item "data"
  let parsedVariant ← Json.getString data "variant"
  let symbol ← Json.getString data "symbol"
  let id ← Json.getString data "id"
  if parsedVariant = [] ∨ symbol = [] ∨ id = [] ∨ 16 < id.length ∨ (variant ≠ [] ∧ parsedVariant ≠ variant) then none
  else (Hex.hexValue id).map (fun usrId => ⟨parsedVariant,symbol,usrId⟩)

def includeDeclaration (params : Option Members) : Bool :=
  ((params.bind (fun params => Json.getObject params "context")).bind
    (fun context => Json.getBoolean context "includeDeclaration")).getD false

/-- The answer to a request, by what its parameters ask. -/
def respond (index : σ) (id : Json) (asked : Option IndexQuery) : List Effect :=
  match asked with
  | none => error (some id) invalidParams "Invalid params"
  | some q => .query q::match services.answer index q with
    | some result => [.write (.reply id result)]
    | none => error (some id) internalError "Database query failed"

def setWorkspaceRoot (index : σ) (params : Option Members) : σ :=
  match params with
  | none => index
  | some params =>
    match (Json.getString params "rootUri").bind (services.setRootUri index) with
    | some moved => moved
    | none =>
      match Json.getArray params "workspaceFolders" with
      | none => index
      | some folders => (folders.findSome? (fun folder =>
          match folder with
          | .object members => (Json.getString members "uri").bind (services.setRootUri index)
          | _ => none)).getD index

def didSave (server : Server σ) (params : Option Members) : Server σ × List Effect :=
  match ((params.bind (fun params => Json.getObject params "textDocument")).bind
      (fun document => Json.getString document "uri")) with
  | none => (server,[])
  | some uri =>
    match services.filePath uri with
    | none => (server,[])
    | some file =>
      let (index,diagnostics) := services.update server.index file uri
      ({server with index},[.update file,.write (.publishDiagnostics uri diagnostics)])

end Handlers

/-- A message of version 2.0 with a method. -/
structure Message where
  id : Option Json
  method : Method
  params : Option Members

def Message.read (members : Members) : Option Message :=
  if Json.getString members "jsonrpc" = some "2.0".toList then
    (Json.getString members "method").map (fun method =>
      ⟨Json.get members "id",.ofText method,Json.getObject members "params"⟩)
  else none

section Dispatch
variable {σ : Type} (services : Services σ) (variant : Text)

-- `id ? error(id, code, message) : true`
def refuse (id : Option Json) (code : Int) (message : String) : List Effect :=
  match id with
  | some id => error (some id) code message
  | none => []

-- a method that is a request: a notification of it is ignored
def request (index : σ) (id : Option Json) (asked : Option IndexQuery) : List Effect :=
  match id with
  | some id => respond services index id asked
  | none => []

-- a method that is a notification, with a document
def notification (server : Server σ) (m : Message) : Server σ × List Effect :=
  match m.id with
  | some id => (server,error (some id) invalidRequest "Invalid Request")
  | none => didSave services server m.params

def serveRunning (server : Server σ) (m : Message) : Server σ × List Effect :=
  let position := parseTextPosition services m.params
  match m.method with
  | .initialized => (server,refuse m.id invalidRequest "Invalid Request")
  | .didOpen => notification services server m
  | .definition => (server,request services server.index m.id (position.map .definition))
  | .documentHighlight => (server,request services server.index m.id (position.map .documentHighlight))
  | .references => (server,request services server.index m.id
      (position.map (fun position => .references position (includeDeclaration m.params))))
  | .hover => (server,request services server.index m.id (position.map .hover))
  | .prepareCallHierarchy => (server,request services server.index m.id (position.map .prepare))
  | .incomingCalls => (server,request services server.index m.id
      ((parseIdentity variant m.params).map (fun identity => .calls identity .callers)))
  | .outgoingCalls => (server,request services server.index m.id
      ((parseIdentity variant m.params).map (fun identity => .calls identity .callees)))
  | .didSave => notification services server m
  | .shutdown =>
    match m.id with
    | none => (server,[])
    | some id => ({server with state := .shutdown},[.write (.reply id .null)])
  | _ => (server,refuse m.id methodNotFound "Method not found")

def serve (server : Server σ) (m : Message) : Server σ × List Effect :=
  match m.method with
  | .exit =>
    match m.id with
    | some id => (server,error (some id) invalidRequest "Invalid Request")
    | none => ({server with exitStatus := if server.state = .shutdown then 0 else 1, exiting := true},[])
  | .initializeServer =>
    match m.id, server.state with
    | some id,.uninitialized =>
      ({server with index := setWorkspaceRoot services server.index m.params, state := .running},
        [.write (.reply id capabilities)])
    | id,_ => (server,error id invalidRequest "Invalid Request")
  | _ =>
    match server.state with
    | .uninitialized => (server,refuse m.id serverNotInitialized "Server not initialized")
    | .shutdown => (server,refuse m.id invalidRequest "Invalid Request")
    | .running => serveRunning services variant server m

def dispatch (server : Server σ) (members : Members) : Server σ × List Effect :=
  match Message.read members with
  | none => (server,error (Json.get members "id") invalidRequest "Invalid Request")
  | some m => serve services variant server m

-- a payload that was read: its message, where it has one, and what was done for it
structure Entry where
  payload : List Byte
  message : Option Message
  effects : List Effect

def handle (server : Server σ) (payload : List Byte) : Server σ × Entry :=
  match services.parse payload with
  | none => (server,⟨payload,none,error none parseError "Parse error"⟩)
  | some (.object members) =>
    let (server,effects) := dispatch services variant server members
    (server,⟨payload,Message.read members,effects⟩)
  | some _ => (server,⟨payload,none,error none invalidRequest "Invalid Request"⟩)

structure Log where
  entries : List Entry
  exited : Bool
  status : Int

/-- The loop, over what the transport reads. -/
def run (server : Server σ) : List ReadResult → Log
  | [] => ⟨[],false,0⟩
  | .endOfFile::_ => ⟨[],false,0⟩
  | .error _::_ => ⟨[],false,1⟩
  | .message payload::reads =>
    let (server,entry) := handle services variant server payload
    if server.exiting then ⟨[entry],true,server.exitStatus⟩
    else
      let log := run server reads
      {log with entries := entry::log.entries}

end Dispatch

section Property

def Effect.written : Effect → Option Output
  | .write output => some output
  | _ => none

def Output.answered : Output → Option Json
  | .reply id _ => some id
  | .error id _ _ => some id
  | .publishDiagnostics _ _ => none

def outputs (effects : List Effect) : List Output := effects.filterMap Effect.written

/-- The ids of the responses, in order. -/
def responses (effects : List Effect) : List Json := (outputs effects).filterMap Output.answered

/-- A request of the method that was answered with a result. -/
def Succeeded (e : Entry) (method : Method) : Prop :=
  (∃ m, e.message = some m ∧ m.method = method) ∧ ∃ id result, .reply id result ∈ outputs e.effects

variable {σ : Type}

-- the message of a payload, where it is one of version 2.0 with a method
def messageOf (services : Services σ) (payload : List Byte) : Option Message :=
  match services.parse payload with
  | some (.object members) => Message.read members
  | _ => none

def Message.exits (m : Message) : Bool := m.method = .exit && m.id.isNone

/-- The payloads that are processed: the last is an exit notification, or nothing more is read. -/
def processed (services : Services σ) : List ReadResult → List (List Byte)
  | .message payload::reads =>
    payload::(if (messageOf services payload).any Message.exits then [] else processed services reads)
  | _ => []

structure Lifecycle (services : Services σ) (reads : List ReadResult) (log : Log) : Prop where
  served : log.entries.map (fun e => (e.payload,e.message)) =
    (processed services reads).map (fun payload => (payload,messageOf services payload))
  answered : ∀ e ∈ log.entries, ∀ m id, e.message = some m → m.id = some id → responses e.effects = [id]
  silent : ∀ e ∈ log.entries, ∀ m, e.message = some m → m.id = none → outputs e.effects = [] ∨
    ((m.method = .didOpen ∨ m.method = .didSave) ∧ ∃ uri diagnostics, outputs e.effects = [.publishDiagnostics uri diagnostics])
  refused : ∀ before e after, log.entries = before ++ e::after → ∀ m id, e.message = some m → m.id = some id →
    ((m.method ≠ .initializeServer ∧ ¬ ∃ b ∈ before, Succeeded b .initializeServer) ∨ ∃ b ∈ before, Succeeded b .shutdown) →
    ∃ code text, e.effects = [.write (.error id code text)]
  once : ∀ before e after, log.entries = before ++ e::after → Succeeded e .initializeServer →
    ¬ ∃ b ∈ before, Succeeded b .initializeServer
  status : log.exited = true → (log.status = 0 ↔ ∃ e ∈ log.entries, Succeeded e .shutdown)

end Property

section Serve
variable {σ : Type} {services : Services σ} {variant : Text} {server : Server σ} {m : Message} {id : Json}

theorem responses_respond (index : σ) (asked : Option IndexQuery) :
    responses (respond services index id asked) = [id] := by
  cases asked with
  | none => rfl
  | some q =>
    simp only [respond]
    cases services.answer index q with
    | none => rfl
    | some result => rfl

theorem responses_running (request : m.id = some id) :
    responses (serveRunning services variant server m).2 = [id] := by
  obtain ⟨_,method,params⟩ := m
  obtain rfl : _ = some id := request
  cases method with
  | definition | documentHighlight | references | hover | prepareCallHierarchy | incomingCalls | outgoingCalls =>
    exact responses_respond ..
  | exit | initializeServer | initialized | didOpen | didSave | shutdown | unknown => rfl

/-- A request gets one response, with its id. -/
theorem responses_serve (request : m.id = some id) : responses (serve services variant server m).2 = [id] := by
  obtain ⟨_,method,params⟩ := m
  obtain rfl : _ = some id := request
  unfold serve
  cases state : server.state with
  | running =>
    cases method with
    | exit | initializeServer => rfl
    | _ => exact responses_running rfl
  | uninitialized | shutdown => cases method <;> rfl

theorem outputs_didSave (params : Option Members) : outputs (didSave services server params).2 = [] ∨
    ∃ uri diagnostics, outputs (didSave services server params).2 = [.publishDiagnostics uri diagnostics] := by
  unfold didSave
  split
  · exact .inl rfl
  · split
    · exact .inl rfl
    · exact .inr ⟨_,_,rfl⟩

/-- A notification other than `initialize` gets no response. -/
theorem outputs_serve (notified : m.id = none) (other : m.method ≠ .initializeServer) :
    outputs (serve services variant server m).2 = [] ∨ ((m.method = .didOpen ∨ m.method = .didSave) ∧
      ∃ uri diagnostics, outputs (serve services variant server m).2 = [.publishDiagnostics uri diagnostics]) := by
  obtain ⟨_,method,params⟩ := m
  obtain rfl : _ = none := notified
  unfold serve
  cases state : server.state with
  | running =>
    cases method with
    | initializeServer => exact absurd rfl other
    | didOpen => exact (outputs_didSave params).imp_right (fun one => ⟨.inl rfl,one⟩)
    | didSave => exact (outputs_didSave params).imp_right (fun one => ⟨.inr rfl,one⟩)
    | _ => exact .inl rfl
  | uninitialized | shutdown =>
    cases method with
    | initializeServer => exact absurd rfl other
    | _ => exact .inl rfl

theorem serve_unasked (notified : m.id = none) (greets : m.method = .initializeServer) :
    outputs (serve services variant server m).2 = [.error .null invalidRequest "Invalid Request"] := by
  obtain ⟨_,method,params⟩ := m
  obtain rfl : _ = none := notified
  obtain rfl : method = _ := greets
  rfl

/-- Before an initialization and after a shutdown, requests are only refused. -/
theorem serve_refused (request : m.id = some id)
    (guarded : (m.method ≠ .initializeServer ∧ server.state = .uninitialized) ∨ server.state = .shutdown) :
    ∃ code text, (serve services variant server m).2 = [.write (.error id code text)] := by
  obtain ⟨_,method,params⟩ := m
  obtain rfl : _ = some id := request
  unfold serve
  rcases guarded with ⟨other,state⟩ | state
  · cases method with
    | initializeServer => exact absurd rfl other
    | _ => simp only [state]; exact ⟨_,_,rfl⟩
  · cases method <;> simp only [state] <;> exact ⟨_,_,rfl⟩

theorem didSave_state (params : Option Members) : (didSave services server params).1.state = server.state ∧
    (didSave services server params).1.exiting = server.exiting := by
  unfold didSave
  split
  · exact ⟨rfl,rfl⟩
  · split
    · exact ⟨rfl,rfl⟩
    · exact ⟨rfl,rfl⟩

/-- The three ways a message moves the server, or none of them. -/
theorem serve_state : (serve services variant server m).1.state =
    (if m.method = .initializeServer ∧ m.id.isSome ∧ server.state = .uninitialized then .running
     else if m.method = .shutdown ∧ m.id.isSome ∧ server.state = .running then .shutdown else server.state) := by
  obtain ⟨id,method,params⟩ := m
  unfold serve
  cases state : server.state with
  | running =>
    cases method <;> cases id <;> simp [state,serveRunning,notification,didSave_state]
  | uninitialized =>
    cases method <;> cases id <;> simp [state]
  | shutdown =>
    cases method <;> cases id <;> simp [state]

theorem serve_exiting : (serve services variant server m).1.exiting = (server.exiting || m.exits) := by
  obtain ⟨id,method,params⟩ := m
  unfold serve Message.exits
  cases state : server.state with
  | running =>
    cases method <;> cases id <;> simp [serveRunning,notification,didSave_state]
  | uninitialized | shutdown =>
    cases method <;> cases id <;> simp

theorem serve_status (exits : m.exits = true) :
    (serve services variant server m).1.exitStatus = if server.state = .shutdown then 0 else 1 := by
  obtain ⟨id,method,params⟩ := m
  obtain ⟨rfl,unasked⟩ : method = .exit ∧ id = none := by simpa [Message.exits] using exits
  subst unasked
  rfl

def Replied (effects : List Effect) : Prop := ∃ id result, .reply id result ∈ outputs effects

theorem not_replied_error (id : Option Json) (code : Int) (text : String) : ¬ Replied (error id code text) := by
  intro ⟨_,_,member⟩
  simp [error,outputs,Effect.written] at member

theorem not_replied_refuse (id : Option Json) (code : Int) (text : String) : ¬ Replied (refuse id code text) := by
  cases id with
  | none => simp [Replied,refuse,outputs]
  | some id => exact not_replied_error _ _ _

theorem serve_initialized (greets : m.method = .initializeServer) :
    Replied (serve services variant server m).2 ↔ m.id.isSome ∧ server.state = .uninitialized := by
  obtain ⟨id,method,params⟩ := m
  obtain rfl : method = _ := greets
  unfold serve
  cases state : server.state with
  | uninitialized =>
    cases id with
    | none => simpa using not_replied_error _ _ _
    | some id => simp [Replied,outputs,Effect.written]
  | running | shutdown => cases id <;> simpa using not_replied_error _ _ _

theorem serve_shutdown (stops : m.method = .shutdown) :
    Replied (serve services variant server m).2 ↔ m.id.isSome ∧ server.state = .running := by
  obtain ⟨id,method,params⟩ := m
  obtain rfl : method = _ := stops
  unfold serve
  cases state : server.state with
  | running =>
    cases id with
    | none => simp [serveRunning,Replied,outputs]
    | some id => simp [serveRunning,Replied,outputs,Effect.written]
  | uninitialized | shutdown => cases id <;> simpa using not_replied_refuse _ _ _

end Serve

section Handle
variable {σ : Type} {services : Services σ} {variant : Text} {server : Server σ} {payload : List Byte} {m : Message}

theorem handle_message (found : messageOf services payload = some m) : handle services variant server payload =
    ((serve services variant server m).1,⟨payload,some m,(serve services variant server m).2⟩) := by
  unfold messageOf at found
  unfold handle
  split at found
  · rename_i members parsed
    rw [parsed]
    simp only [dispatch,found]
  · cases found

theorem handle_other (none : messageOf services payload = none) :
    (handle services variant server payload).1 = server ∧ (handle services variant server payload).2.message = .none := by
  unfold messageOf at none
  unfold handle
  split at none
  · rename_i members parsed
    rw [parsed]
    simp only [dispatch,none,and_self]
  · cases parsed : services.parse payload with
    | none => exact ⟨rfl,rfl⟩
    | some value =>
      cases value with
      | object members =>
        rename_i other
        exact absurd parsed (other members)
      | _ => exact ⟨rfl,rfl⟩

theorem handle_entry : (handle services variant server payload).2.payload = payload ∧
    (handle services variant server payload).2.message = messageOf services payload := by
  cases found : messageOf services payload with
  | none =>
    refine ⟨?_,(handle_other found).2⟩
    unfold handle
    split <;> rfl
  | some m => rw [handle_message found]; exact ⟨rfl,rfl⟩

theorem handle_exiting : (handle services variant server payload).1.exiting =
    (server.exiting || (messageOf services payload).any Message.exits) := by
  cases found : messageOf services payload with
  | none => rw [(handle_other found).1]; simp
  | some m => rw [handle_message found]; exact serve_exiting

theorem succeeded_handle (method : Method) : Succeeded (handle services variant server payload).2 method ↔
    ∃ m, messageOf services payload = some m ∧ m.method = method ∧ Replied (serve services variant server m).2 := by
  constructor
  · intro ⟨⟨m,found,same⟩,replied⟩
    rw [handle_entry.2] at found
    refine ⟨m,found,same,?_⟩
    rw [handle_message found] at replied
    exact replied
  · intro ⟨m,found,same,replied⟩
    rw [handle_message found]
    exact ⟨⟨m,rfl,same⟩,replied⟩

/-- A payload initializes the server, shuts it down, or leaves its state as it is. -/
theorem handle_moves :
    (server.state = .uninitialized ∧ (handle services variant server payload).1.state = .running ∧
      Succeeded (handle services variant server payload).2 .initializeServer ∧
      ¬ Succeeded (handle services variant server payload).2 .shutdown) ∨
    (server.state = .running ∧ (handle services variant server payload).1.state = .shutdown ∧
      ¬ Succeeded (handle services variant server payload).2 .initializeServer ∧
      Succeeded (handle services variant server payload).2 .shutdown) ∨
    ((handle services variant server payload).1.state = server.state ∧
      ¬ Succeeded (handle services variant server payload).2 .initializeServer ∧
      ¬ Succeeded (handle services variant server payload).2 .shutdown) := by
  rw [succeeded_handle,succeeded_handle]
  cases found : messageOf services payload with
  | none => exact .inr (.inr ⟨by rw [(handle_other found).1],by simp,by simp⟩)
  | some m =>
    rw [handle_message found,serve_state]
    by_cases greets : m.method = .initializeServer ∧ m.id.isSome ∧ server.state = .uninitialized
    · refine .inl ⟨greets.2.2,if_pos greets,⟨m,rfl,greets.1,(serve_initialized greets.1).mpr greets.2⟩,?_⟩
      intro ⟨_,same,stops,_⟩
      obtain rfl := Option.some.inj same
      rw [greets.1] at stops
      cases stops
    · have unmet : ¬ ∃ found, some m = some found ∧ found.method = .initializeServer ∧
          Replied (serve services variant server found).2 := by
        intro ⟨_,same,method,replied⟩
        obtain rfl := Option.some.inj same
        exact greets ⟨method,(serve_initialized method).mp replied⟩
      rw [if_neg greets]
      by_cases stops : m.method = .shutdown ∧ m.id.isSome ∧ server.state = .running
      · exact .inr (.inl ⟨stops.2.2,if_pos stops,unmet,m,rfl,stops.1,(serve_shutdown stops.1).mpr stops.2⟩)
      · refine .inr (.inr ⟨if_neg stops,unmet,?_⟩)
        intro ⟨_,same,method,replied⟩
        obtain rfl := Option.some.inj same
        exact stops ⟨method,(serve_shutdown method).mp replied⟩

end Handle

section Run
variable {σ : Type} {services : Services σ} {variant : Text} {server : Server σ} {payload : List Byte} {m : Message}
  {history : List Entry} {reads : List ReadResult}

/-- The state of a server is what its history has made of it. -/
structure Standing (history : List Entry) (server : Server σ) : Prop where
  exiting : server.exiting = false
  uninitialized : server.state = .uninitialized ↔ ¬ ∃ e ∈ history, Succeeded e .initializeServer
  shutdown : server.state = .shutdown ↔ ∃ e ∈ history, Succeeded e .shutdown

theorem exists_snoc {p : Entry → Prop} {e : Entry} : (∃ b ∈ history ++ [e], p b) ↔ (∃ b ∈ history, p b) ∨ p e := by
  simp [or_and_right,exists_or]

theorem Standing.shutdown_handle (standing : Standing history server) :
    (handle services variant server payload).1.state = .shutdown ↔
      ∃ e ∈ history ++ [(handle services variant server payload).2], Succeeded e .shutdown := by
  rw [exists_snoc,← standing.shutdown]
  rcases @handle_moves _ services variant server payload with
    ⟨state,moved,_,unmet⟩ | ⟨state,moved,_,met⟩ | ⟨same,_,unmet⟩
  · simp [moved,state,unmet]
  · simp [moved,met]
  · simp [same,unmet]

theorem Standing.handle (standing : Standing history server)
    (stays : (handle services variant server payload).1.exiting = false) :
    Standing (history ++ [(handle services variant server payload).2]) (handle services variant server payload).1 := by
  refine ⟨stays,?_,standing.shutdown_handle⟩
  rw [exists_snoc,not_or,← standing.uninitialized]
  rcases @handle_moves _ services variant server payload with
    ⟨state,moved,met,_⟩ | ⟨state,moved,unmet,_⟩ | ⟨same,unmet,_⟩
  · simp [moved,met]
  · simp [moved,state]
  · simp [same,unmet]

theorem run_message : run services variant server (.message payload::reads) =
    if (handle services variant server payload).1.exiting then
      ⟨[(handle services variant server payload).2],true,(handle services variant server payload).1.exitStatus⟩
    else {run services variant (handle services variant server payload).1 reads with
      entries := (handle services variant server payload).2::(run services variant (handle services variant server payload).1 reads).entries} :=
  rfl

/-- Every entry of the log is what a server standing so does for its payload. -/
theorem run_entry (standing : Standing history server) {before after : List Entry} {e : Entry}
    (cut : (run services variant server reads).entries = before ++ e::after) :
    ∃ (at' : Server σ) (payload : List Byte), Standing (history ++ before) at' ∧
      e = (handle services variant at' payload).2 := by
  induction reads generalizing server history before with
  | nil => simp [run] at cut
  | cons read reads ih =>
    cases read with
    | endOfFile => simp [run] at cut
    | error report => simp [run] at cut
    | message payload =>
      rw [run_message] at cut
      split at cut
      · obtain ⟨rfl,same,_⟩ : before = [] ∧ (handle services variant server payload).2 = e ∧ after = [] := by
          cases before with
          | nil => simpa using cut
          | cons b before => simp at cut
        exact ⟨server,payload,by simpa using standing,same.symm⟩
      · rename_i stays
        cases before with
        | nil =>
          obtain ⟨same,_⟩ := List.cons.inj cut
          exact ⟨server,payload,by simpa using standing,same.symm⟩
        | cons b before =>
          obtain ⟨same,rest⟩ := List.cons.inj cut
          have next := ih (standing.handle (Bool.eq_false_iff.mpr stays)) rest
          rw [same,List.append_assoc] at next
          exact next

theorem run_served : (server.exiting = false) → (run services variant server reads).entries.map (fun e => (e.payload,e.message)) =
    (processed services reads).map (fun payload => (payload,messageOf services payload)) := by
  intro open'
  induction reads generalizing server with
  | nil => rfl
  | cons read reads ih =>
    cases read with
    | endOfFile => rfl
    | error report => rfl
    | message payload =>
      have entry := @handle_entry _ services variant server payload
      have exits := @handle_exiting _ services variant server payload
      rw [open',Bool.false_or] at exits
      rw [run_message,processed,← exits]
      split
      · simp [entry]
      · rename_i stays
        simp only [List.map_cons,entry.1,entry.2]
        rw [ih (Bool.eq_false_iff.mpr stays)]

theorem run_status (standing : Standing history server) (exited : (run services variant server reads).exited = true) :
    (run services variant server reads).status = 0 ↔
      ∃ e ∈ history ++ (run services variant server reads).entries, Succeeded e .shutdown := by
  induction reads generalizing server history with
  | nil => simp [run] at exited
  | cons read reads ih =>
    cases read with
    | endOfFile => simp [run] at exited
    | error report => simp [run] at exited
    | message payload =>
      rw [run_message] at exited ⊢
      by_cases ends : (handle services variant server payload).1.exiting = true
      · rw [if_pos ends]
        have exits := @handle_exiting _ services variant server payload
        rw [standing.exiting,Bool.false_or,ends] at exits
        obtain ⟨m,found,leaves⟩ := (Option.any_eq_true ..).mp exits.symm
        rw [← standing.shutdown_handle]
        have status : (handle services variant server payload).1.exitStatus = if server.state = .shutdown then 0 else 1 := by
          rw [handle_message found]
          exact serve_status leaves
        have kept : (handle services variant server payload).1.state = server.state := by
          have method : m.method = .exit := by
            simp only [Message.exits,Bool.and_eq_true,decide_eq_true_eq] at leaves
            exact leaves.1
          rw [handle_message found,serve_state,if_neg (by simp [method]),if_neg (by simp [method])]
        rw [kept]
        dsimp only
        rw [status]
        split
        · rename_i stopped
          exact iff_of_true rfl stopped
        · rename_i other
          exact iff_of_false (by decide) other
      · rw [if_neg ends] at exited ⊢
        have rest := ih (standing.handle (Bool.eq_false_iff.mpr ends)) exited
        rwa [List.append_assoc] at rest

def Server.new (index : σ) : Server σ := ⟨.uninitialized,false,0,index⟩

theorem standing_new (index : σ) : Standing [] (Server.new index) := by
  refine ⟨rfl,?_,?_⟩
  · simp [Server.new]
  · simp [Server.new]

/-- The lifecycle is kept just where no processed message is an `initialize` without an id. -/
theorem lifecycle_iff (services : Services σ) (variant : Text) (index : σ) (reads : List ReadResult) :
    Lifecycle services reads (run services variant (.new index) reads) ↔
      ∀ payload ∈ processed services reads, ∀ m, messageOf services payload = some m →
        m.method = .initializeServer → m.id.isSome := by
  have standing := standing_new index
  have served := @run_served _ services variant (Server.new index) reads rfl
  have entry : ∀ before e after, (run services variant (.new index) reads).entries = before ++ e::after →
      ∃ (server : Server σ) (payload : List Byte), Standing before server ∧ e = (handle services variant server payload).2 := by
    intro before e after cut
    exact run_entry standing cut
  have message : ∀ e ∈ (run services variant (.new index) reads).entries, ∀ m, e.message = some m →
      ∃ server : Server σ, e.effects = (serve services variant server m).2 := by
    intro e member m found
    obtain ⟨before,after,cut⟩ := List.append_of_mem member
    obtain ⟨server,payload,_,rfl⟩ := entry before e after cut
    rw [handle_entry.2] at found
    exact ⟨server,by rw [handle_message found]⟩
  constructor
  · intro lifecycle payload member m found greets
    by_contra unasked
    rw [Option.isSome_iff_ne_none,not_not] at unasked
    have listed : (payload,messageOf services payload) ∈
        (run services variant (.new index) reads).entries.map (fun e => (e.payload,e.message)) := by
      rw [served]
      exact List.mem_map.mpr ⟨payload,member,rfl⟩
    obtain ⟨e,inside,same⟩ := List.mem_map.mp listed
    have isMessage : e.message = some m := (Prod.mk.inj same).2.trans found
    obtain ⟨server,effects⟩ := message e inside m isMessage
    have wrote := @serve_unasked _ services variant server m unasked greets
    rw [← effects] at wrote
    rcases lifecycle.silent e inside m isMessage unasked with none | ⟨_,uri,diagnostics,one⟩
    · rw [none] at wrote
      cases wrote
    · rw [one] at wrote
      cases wrote
  · intro asked
    refine ⟨served,?_,?_,?_,?_,run_status standing⟩
    · intro e inside m id isMessage request
      obtain ⟨server,effects⟩ := message e inside m isMessage
      rw [effects]
      exact responses_serve request
    · intro e inside m isMessage unasked
      obtain ⟨server,effects⟩ := message e inside m isMessage
      rw [effects]
      apply outputs_serve unasked
      intro greets
      have listed : (e.payload,e.message) ∈
          (processed services reads).map (fun payload => (payload,messageOf services payload)) := by
        rw [← served]
        exact List.mem_map.mpr ⟨e,inside,rfl⟩
      obtain ⟨payload,member,same⟩ := List.mem_map.mp listed
      have hasId := asked payload member m ((Prod.mk.inj same).2.trans isMessage) greets
      rw [unasked] at hasId
      cases hasId
    · intro before e after cut m id isMessage request guarded
      obtain ⟨server,payload,stands,rfl⟩ := entry before e after cut
      rw [handle_entry.2] at isMessage
      rw [handle_message isMessage]
      apply serve_refused request
      rcases guarded with ⟨other,none⟩ | stopped
      · exact .inl ⟨other,stands.uninitialized.mpr none⟩
      · exact .inr (stands.shutdown.mpr stopped)
    · intro before e after cut greeted
      obtain ⟨server,payload,stands,rfl⟩ := entry before e after cut
      obtain ⟨m,found,greets,replied⟩ := (succeeded_handle _).mp greeted
      exact stands.uninitialized.mp ((serve_initialized greets).mp replied).2

/-- The bytes of an `initialize` notification. -/
def unaskedGreeting : List Byte := utf8 "\x7b\"jsonrpc\":\"2.0\",\"method\":\"initialize\"\x7d".toList

def greetedServices : Services Unit where
  parse := fun bytes => if bytes = unaskedGreeting then
    some (.object [("jsonrpc".toList,.string "2.0".toList),("method".toList,.string "initialize".toList)]) else none
  integer := fun _ => none
  filePath := fun _ => none
  setRootUri := fun _ _ => none
  answer := fun _ _ => none
  update := fun index _ _ => (index,.array [])

/-- The notification is answered with an error, although it has no id. -/
theorem unasked_greeting_answered : ¬ Lifecycle greetedServices [.message unaskedGreeting]
    (run greetedServices [] (.new ()) [.message unaskedGreeting]) := by
  intro lifecycle
  have found : messageOf greetedServices unaskedGreeting = some ⟨none,.initializeServer,none⟩ := by
    have parsed : greetedServices.parse unaskedGreeting = some (.object [("jsonrpc".toList,.string "2.0".toList),
      ("method".toList,.string "initialize".toList)]) := by
      simp only [greetedServices,if_true]
    rw [messageOf,parsed]
    rfl
  have handled := @handle_message _ greetedServices [] (Server.new ()) unaskedGreeting _ found
  have entries : (run greetedServices [] (.new ()) [.message unaskedGreeting]).entries =
      [(handle greetedServices [] (Server.new ()) unaskedGreeting).2] := by
    rw [run_message]
    split <;> rfl
  have silent := lifecycle.silent (handle greetedServices [] (Server.new ()) unaskedGreeting).2
    (by rw [entries]; exact List.mem_singleton.mpr rfl) _ (by rw [handled]) rfl
  rw [handled,serve_unasked rfl rfl] at silent
  simp at silent

end Run
end Semindex.Lsp
