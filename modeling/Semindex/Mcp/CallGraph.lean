import Semindex.Database.Rows
import Semindex.Support.Hex

/-! `callRecords` of the MCP server for a depth above one: the breadth-first
traversal behind `find_callers` and `find_callees`, with the checks of its
arguments. A `std::set` of identities is the list of its members. -/
namespace Semindex.Mcp
open Semindex.IndexDb Semindex.Database

inductive McpToolStatus where
  | success | invalidParams | databaseError
  deriving DecidableEq

-- a member of the arguments, as `getInteger` sees it
inductive Argument where
  | missing | integer (value : Int) | other
  deriving DecidableEq

section Arguments

def DEFAULT_LIMIT : Nat := 50
def MAX_LIMIT : Nat := 200
def MAX_GRAPH_DEPTH : Nat := 16
def DEFAULT_GRAPH_NODES : Nat := 50
def MAX_GRAPH_NODES : Nat := 200

def Argument.parse (default largest : Nat) : Argument → Option Nat
  | .missing => some default
  | .other => none
  | .integer value => if value < 1 ∨ (largest : Int) < value then none else some value.toNat

def parseLimit (limit : Argument) : Option Nat := limit.parse DEFAULT_LIMIT MAX_LIMIT

def parseGraphBounds (depth nodeLimit : Argument) : Option (Nat × Nat) := do
  let depth ← depth.parse 1 MAX_GRAPH_DEPTH
  let nodeLimit ← nodeLimit.parse DEFAULT_GRAPH_NODES MAX_GRAPH_NODES
  return (depth,nodeLimit)

def parseId (value : Text) : Option Id :=
  if value = [] ∨ 16 < value.length then none
  else (Hex.hexValue value).map (BitVec.ofNat 64)

-- `some none` is a member that is not a string
def selectedVariant (variant : Option (Option Text)) (configured : Text) : Option Text :=
  match variant with
  | none => some configured
  | some none => none
  | some (some value) => if configured ≠ [] ∧ value ≠ configured then none else some value

structure CallArguments where
  symbol : Option Text
  usrId : Option Text
  variant : Option (Option Text)
  limit : Argument
  depth : Argument
  nodeLimit : Argument
  cursor : Bool

/-- A request that passed the checks. -/
structure GraphRequest where
  root : Identity
  limit : Nat
  depth : Nat
  nodeLimit : Nat
  named : root.Named
  function : root.kind = SymbolKind.function.code
  limited : 1 ≤ limit ∧ limit ≤ MAX_LIMIT
  deep : 1 ≤ depth ∧ depth ≤ MAX_GRAPH_DEPTH
  nodes : 1 ≤ nodeLimit ∧ nodeLimit ≤ MAX_GRAPH_NODES

theorem parse_bounds {default largest n : Nat} {argument : Argument} (inside : 1 ≤ default ∧ default ≤ largest)
    (parsed : argument.parse default largest = some n) : 1 ≤ n ∧ n ≤ largest := by
  cases argument with
  | missing => exact Option.some.inj parsed ▸ inside
  | other => cases parsed
  | integer value =>
    rw [Argument.parse] at parsed
    split at parsed
    · cases parsed
    · have same := Option.some.inj parsed
      omega

theorem graphBounds_parsed {depth nodeLimit : Argument} {d n : Nat}
    (parsed : parseGraphBounds depth nodeLimit = some (d,n)) :
    depth.parse 1 MAX_GRAPH_DEPTH = some d ∧
      nodeLimit.parse DEFAULT_GRAPH_NODES MAX_GRAPH_NODES = some n := by
  simp only [parseGraphBounds,Option.bind_eq_bind,Option.bind_eq_some_iff,Option.pure_def,Option.some.injEq,
    Prod.mk.injEq] at parsed
  obtain ⟨d',first,n',second,same,equal⟩ := parsed
  exact ⟨same ▸ first,equal ▸ second⟩

def graphRequest (arguments : CallArguments) (configured : Text) : Option GraphRequest :=
  match arguments.symbol,arguments.usrId.bind parseId,selectedVariant arguments.variant configured with
  | some symbol,some id,some variant =>
    match limit : parseLimit arguments.limit,bounds : parseGraphBounds arguments.depth arguments.nodeLimit with
    | some limited,some (depth,nodeLimit) =>
      if 1 < depth ∧ arguments.cursor then none
      else if named : (Identity.mk variant symbol id SymbolKind.function.code).Named then
        some ⟨⟨variant,symbol,id,SymbolKind.function.code⟩,limited,depth,nodeLimit,named,rfl,
          parse_bounds (by decide) limit,parse_bounds (by decide) (graphBounds_parsed bounds).1,
          parse_bounds (by decide) (graphBounds_parsed bounds).2⟩
      else none
    | _,_ => none
  | _,_,_ => none

end Arguments

structure GraphFunction where
  identity : Identity
  depth : Nat
  ancestors : List Identity
  deriving DecidableEq

structure GraphRecord where
  record : DbRecord
  depth : Nat
  deriving DecidableEq

def collectGraphRecord (limit : Nat) : Callback (List DbRecord) DbRecord := fun records record =>
  (records ++ [record],if limit ≤ records.length + 1 then 1 else 0)

structure GraphResult where
  records : List GraphRecord
  truncated : Bool
  nodeLimitHit : Bool
  cyclesDetected : Bool
  deriving DecidableEq

def graphResult (records : List GraphRecord) (limit : Nat) (nodeLimitHit cyclesDetected : Bool) : GraphResult where
  records := records.take limit
  truncated := limit < records.length || nodeLimitHit
  nodeLimitHit := nodeLimitHit
  cyclesDetected := cyclesDetected

structure Traversal where
  pending : List GraphFunction
  visited : List Identity
  records : List GraphRecord
  nodeLimitHit : Bool
  cyclesDetected : Bool
  deriving DecidableEq

def nextIdentity (direction : CallDirection) (record : DbRecord) : Identity :=
  match direction with
  | .callers => ⟨record.variant,record.context,record.contextUsrId,SymbolKind.function.code⟩
  | .callees => ⟨record.variant,record.symbol,record.usrId,SymbolKind.function.code⟩

section Traverse
variable (db : Db) (direction : CallDirection) (request : GraphRequest)

def visitRecord (function : GraphFunction) (state : Traversal) (record : DbRecord) : Traversal :=
  let next := nextIdentity direction record
  let records := state.records ++ [⟨record,function.depth+1⟩]
  if next ∈ function.ancestors then { state with cyclesDetected := true, records := records }
  else if next ∈ state.visited then { state with records := records }
  else if request.nodeLimit ≤ state.visited.length then { state with nodeLimitHit := true }
  else
    { state with
      visited := state.visited ++ [next]
      pending := state.pending ++ [⟨next,function.depth+1,next::function.ancestors⟩]
      records := records }

def visitRecords (function : GraphFunction) : Traversal → List DbRecord → Traversal
  | state,[] => state
  | state,record::rest =>
    let state := visitRecord direction request function state record
    if request.limit < state.records.length then state else visitRecords function state rest

def graphQuery (identity : Identity) : CallOptions where
  function := identity.symbol
  variant := some identity.variant
  usrId := identity.usrId
  direction := direction

-- one turn of the outer loop, for a queue with a front
def visitFunction (function : GraphFunction) (state : Traversal) : McpToolStatus × Traversal :=
  if request.depth ≤ function.depth then (.success,state)
  else
    let remaining := request.limit + 1 - state.records.length
    let (records,ret) := semindexDbQueryCalls db (graphQuery direction function.identity)
      (collectGraphRecord remaining) []
    if ret < 0 then (.databaseError,state) else (.success,visitRecords direction request function state records)

-- `none` is running out of fuel
def traverse : Nat → Traversal → Option (McpToolStatus × Traversal)
  | fuel,state =>
    match state.pending with
    | [] => some (.success,state)
    | function::pending =>
      if request.limit < state.records.length then some (.success,state)
      else
        match fuel with
        | 0 => none
        | fuel+1 =>
          match visitFunction db direction request function { state with pending := pending } with
          | (.success,state) => traverse fuel state
          | failed => some failed

def GraphRequest.start : Traversal where
  pending := [⟨request.root,0,[request.root]⟩]
  visited := [request.root]
  records := []
  nodeLimitHit := false
  cyclesDetected := false

-- every turn takes a function off the queue, and at most `nodeLimit` are put on it
def callRecords : Option (McpToolStatus × Traversal) := traverse db direction request request.nodeLimit request.start

def Traversal.result (state : Traversal) : GraphResult :=
  graphResult state.records request.limit state.nodeLimitHit state.cyclesDetected

end Traverse
end Semindex.Mcp
