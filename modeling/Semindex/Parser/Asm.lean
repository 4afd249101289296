import Semindex.Parser.Preprocessor
import Semindex.Relational.Table

/-! `SemindexAsmIndexer`, which the preprocessor shows every token of an assembly
source. Tokens are counted in their order; there is none at the end of a line, and
the last is the end of the file. -/
namespace Semindex.Parser.Asm
open Semindex.Relational

inductive TokenKind where
  | identifier | rawIdentifier | period | colon | comma | other
  deriving DecidableEq

-- the texts of a kind
def lexes : TokenKind → Text → Bool
  | .identifier,text => text ≠ []
  | .rawIdentifier,text => text ≠ []
  | .period,text => text = [ '.']
  | .colon,text => text = [ ':']
  | .comma,text => text = [ ',']
  | .other,_ => true

structure Token where
  kind : TokenKind
  text : Text
  location : SourceLocation
  lexed : lexes kind text
  deriving DecidableEq

-- `tok::eof`
def endOfFile (location : SourceLocation) : Token := ⟨.other,[],location,rfl⟩

def isIdentifier (token : Token) : Bool := token.kind = .identifier || token.kind = .rawIdentifier

def functionWord : Text := "function".toList

def isFunctionMarker (token : Token) : Bool :=
  token.text = functionWord || token.text = "@function".toList || token.text = "%function".toList ||
    token.text = "#function".toList || token.text = "STT_FUNC".toList

def isMarkerPrefix (token : Token) : Bool := token.text = [ '@'] || token.text = [ '%'] || token.text = [ '#']

def isDirectCallMnemonic (text : Text) : Bool :=
  text = "call".toList || text = "callq".toList || text = "bl".toList || text = "jbsr".toList || text = "bsr".toList

def jal : Text := "jal".toList
def brasl : Text := "brasl".toList

def typeWord : Text := "type".toList
def entWord : Text := "ent".toList
def endWord : Text := "end".toList

structure Call where
  target : Text
  location : SourceLocation
  order : Nat
  deriving DecidableEq

section Calls

inductive CallState where
  | none | direct | jalFirst | jalAfterFirst | skipToComma
  deriving DecidableEq

/-- What `observeCall` reads and writes. -/
structure CallObserver where
  state : CallState := .none
  jalTarget : Text := []
  jalLocation : SourceLocation := 0
  jalOrder : Nat := 0
  calls : List Call := []
  deriving DecidableEq

namespace CallObserver
variable (o : CallObserver) (order : Nat) (token : Token)

def addPendingCall (target : Text) (location : SourceLocation) (order : Nat) : CallObserver :=
  {o with calls := o.calls ++ [⟨target,location,order⟩]}

def observeCall : CallObserver :=
  match o.state with
  | .direct =>
    {(if isIdentifier token then o.addPendingCall token.text token.location order else o) with state := .none}
  | .skipToComma => if token.kind = .comma then {o with state := .direct} else o
  | .jalFirst =>
    if isIdentifier token then
      {o with jalTarget := token.text, jalLocation := token.location, jalOrder := order, state := .jalAfterFirst}
    else {o with state := .none}
  | .jalAfterFirst =>
    if token.kind = .comma then {o with state := .direct}
    else {o.addPendingCall o.jalTarget o.jalLocation o.jalOrder with state := .none}
  | .none =>
    if !isIdentifier token then o
    else if isDirectCallMnemonic token.text then {o with state := .direct}
    else if token.text = jal then {o with state := .jalFirst}
    else if token.text = brasl then {o with state := .skipToComma}
    else o

end CallObserver
end Calls

structure Marker where
  location : SourceLocation
  order : Nat
  deriving DecidableEq

/-- A function with the orders of its first and last token. -/
structure Function where
  name : Text
  first : Nat
  last : Nat
  deriving DecidableEq

inductive TypeState where
  | none | dot | directive | entName | endName | name | comma | marker
  deriving DecidableEq

-- `std::numeric_limits<size_t>::max()`
def maxOrder : Nat := 2^64-1

-- `unordered_map::emplace`, which keeps what is there
def emplace (table : Table Text Marker) (name : Text) (marker : Marker) : Table Text Marker :=
  if (table.lookup name).isSome then table else table.insert name marker

section Functions

/-- What is known of the functions; `items` is what has been added to the index. -/
structure FunctionTable where
  functionTypes : Table Text Marker := ∅
  labels : Table Text Marker := ∅
  emitted : List Text := []
  functions : List Function := []
  items : List Emission := []

namespace FunctionTable
variable (indexer : Indexer) (known : FunctionTable)

def tryAddFunction (name : Text) : FunctionTable :=
  match known.functionTypes.lookup name,known.labels.lookup name with
  | some type,some label =>
    if name ∈ known.emitted then known
    else {known with
      emitted := known.emitted ++ [name]
      items := known.items ++ [indexer.assemblyFunction name label.location]
      functions := known.functions ++ [⟨name,label.order,if label.order < type.order then type.order else 0⟩]}
  | _,_ => known

def addFunctionType (name : Text) (location : SourceLocation) (order : Nat) : FunctionTable :=
  tryAddFunction indexer {known with functionTypes := emplace known.functionTypes name ⟨location,order⟩} name

def addLabel (name : Text) (location : SourceLocation) (order : Nat) : FunctionTable :=
  tryAddFunction indexer {known with labels := emplace known.labels name ⟨location,order⟩} name

def endFunction (name : Text) (order : Nat) : FunctionTable :=
  {known with functions := known.functions.map (fun function =>
    if function.name = name then {function with last := order} else function)}

end FunctionTable
end Functions

structure SemindexAsmIndexer where
  typeState : TypeState := .none
  typeName : Text := []
  typeLocation : SourceLocation := 0
  previousIdentifier : Text := []
  previousLocation : SourceLocation := 0
  previousOrder : Nat := 0
  tokenOrder : Nat := 0
  callObserver : CallObserver := {}
  functionTable : FunctionTable := {}

namespace SemindexAsmIndexer
variable (indexer : Indexer) (asm : SemindexAsmIndexer)

def addFunctionType (name : Text) (location : SourceLocation) : SemindexAsmIndexer :=
  {asm with functionTable := asm.functionTable.addFunctionType indexer name location asm.tokenOrder}

def resetType (token : Token) : SemindexAsmIndexer :=
  {asm with typeState := if token.kind = .period then .dot else .none, typeName := [], typeLocation := 0}

def observeType (token : Token) : SemindexAsmIndexer :=
  match asm.typeState with
  | .none => asm
  | .dot =>
    if !isIdentifier token then asm.resetType token
    else if token.text = typeWord then {asm with typeState := .directive}
    else if token.text = entWord then {asm with typeState := .entName}
    else if token.text = endWord then {asm with typeState := .endName}
    else asm.resetType token
  | .entName =>
    {(if isIdentifier token then asm.addFunctionType indexer token.text token.location else asm) with typeState := .none}
  | .endName =>
    {asm with
      functionTable := if isIdentifier token then asm.functionTable.endFunction token.text asm.tokenOrder else asm.functionTable
      typeState := .none}
  | .directive =>
    if isIdentifier token then {asm with typeName := token.text, typeLocation := token.location, typeState := .name}
    else asm.resetType token
  | .name => if token.kind = .comma then {asm with typeState := .comma} else asm.resetType token
  | .comma =>
    if isFunctionMarker token then {asm.addFunctionType indexer asm.typeName asm.typeLocation with typeState := .none}
    else if isMarkerPrefix token then {asm with typeState := .marker}
    else asm.resetType token
  | .marker =>
    {(if isFunctionMarker token && token.text = functionWord then
        asm.addFunctionType indexer asm.typeName asm.typeLocation
      else asm) with typeState := .none}

def observe (token : Token) : SemindexAsmIndexer :=
  let asm := {asm with callObserver := asm.callObserver.observeCall asm.tokenOrder token}
  let asm :=
    if asm.typeState ≠ .none then asm.observeType indexer token
    else if token.kind = .period then {asm with typeState := .dot}
    else asm
  let asm :=
    if token.kind = .colon && asm.previousIdentifier ≠ [] then
      {asm with functionTable :=
        asm.functionTable.addLabel indexer asm.previousIdentifier asm.previousLocation asm.previousOrder}
    else asm
  let asm :=
    if isIdentifier token then
      {asm with
        previousIdentifier := token.text
        previousLocation := token.location
        previousOrder := asm.tokenOrder}
    else {asm with previousIdentifier := [], previousLocation := 0}
  {asm with tokenOrder := asm.tokenOrder + 1}

end SemindexAsmIndexer

section Finish
variable (indexer : Indexer)

def sortFunctions (functions : List Function) : List Function :=
  functions.mergeSort (fun left right => left.first ≤ right.first)

-- where a function ends before it begins, it ends where the next one begins
def repairEnds : List Function → List Function
  | [] => []
  | function::rest =>
    (if function.last < function.first then
      {function with last := match rest with
        | next::_ => next.first
        | [] => maxOrder}
    else function)::repairEnds rest

def containingFunction (call : Call) : List Function → Option Function → Option Function
  | [],result => result
  | function::rest,result =>
    if call.order < function.first then result
    else containingFunction call rest (if call.order ≤ function.last then some function else result)

def SemindexAsmIndexer.finish (asm : SemindexAsmIndexer) : SemindexAsmIndexer :=
  let functions := repairEnds (sortFunctions asm.functionTable.functions)
  {asm with functionTable := {asm.functionTable with
    functions
    items := asm.functionTable.items ++ asm.callObserver.calls.filterMap (fun call =>
      (containingFunction call functions none).map (fun function =>
        indexer.assemblyCall call.target function.name call.location))}}

/-- The indexer behind the tokens that it is shown. -/
def observeAll (tokens : List Token) : SemindexAsmIndexer :=
  tokens.foldl (SemindexAsmIndexer.observe indexer) {}

end Finish

section Events
variable (indexer : Indexer) (asm : SemindexAsmIndexer)

/-- What a token tells of functions: a marker, an end or a label. -/
inductive Event where
  | type (name : Text) (location : SourceLocation) (order : Nat)
  | close (name : Text) (order : Nat)
  | label (name : Text) (location : SourceLocation) (order : Nat)
  deriving DecidableEq

def FunctionTable.apply (known : FunctionTable) : Event → FunctionTable
  | .type name location order => known.addFunctionType indexer name location order
  | .close name order => known.endFunction name order
  | .label name location order => known.addLabel indexer name location order

namespace SemindexAsmIndexer

def typeEvent (token : Token) : Option Event :=
  match asm.typeState with
  | .entName => if isIdentifier token then some (.type token.text token.location asm.tokenOrder) else none
  | .endName => if isIdentifier token then some (.close token.text asm.tokenOrder) else none
  | .comma => if isFunctionMarker token then some (.type asm.typeName asm.typeLocation asm.tokenOrder) else none
  | .marker =>
    if isFunctionMarker token && token.text = functionWord then some (.type asm.typeName asm.typeLocation asm.tokenOrder)
    else none
  | _ => none

def labelEvent (token : Token) : Option Event :=
  if token.kind = .colon && asm.previousIdentifier ≠ [] then
    some (.label asm.previousIdentifier asm.previousLocation asm.previousOrder)
  else none

def events (token : Token) : List Event := (asm.typeEvent token).toList ++ (asm.labelEvent token).toList

end SemindexAsmIndexer

/-- What a token changes: each part of the indexer by itself. -/
structure Observes (asm : SemindexAsmIndexer) (token : Token) (next : SemindexAsmIndexer) : Prop where
  calls : next.callObserver = asm.callObserver.observeCall asm.tokenOrder token
  order : next.tokenOrder = asm.tokenOrder + 1
  functionTable : next.functionTable = (asm.events token).foldl (FunctionTable.apply indexer) asm.functionTable
  previous : next.previousIdentifier = (if isIdentifier token then token.text else []) ∧
    (isIdentifier token = true → next.previousLocation = token.location ∧ next.previousOrder = asm.tokenOrder)

theorem observeType_parts (token : Token) : (asm.observeType indexer token).callObserver = asm.callObserver ∧
    (asm.observeType indexer token).tokenOrder = asm.tokenOrder ∧
    (asm.observeType indexer token).previousIdentifier = asm.previousIdentifier ∧
    (asm.observeType indexer token).previousLocation = asm.previousLocation ∧
    (asm.observeType indexer token).previousOrder = asm.previousOrder ∧
    (asm.observeType indexer token).functionTable = (asm.typeEvent token).toList.foldl (FunctionTable.apply indexer) asm.functionTable := by
  unfold SemindexAsmIndexer.observeType SemindexAsmIndexer.typeEvent SemindexAsmIndexer.resetType
    SemindexAsmIndexer.addFunctionType
  cases asm.typeState with
  | none => exact ⟨rfl,rfl,rfl,rfl,rfl,rfl⟩
  | dot =>
    dsimp only
    split_ifs <;> exact ⟨rfl,rfl,rfl,rfl,rfl,rfl⟩
  | directive =>
    dsimp only
    split_ifs <;> exact ⟨rfl,rfl,rfl,rfl,rfl,rfl⟩
  | entName =>
    dsimp only
    split_ifs <;> exact ⟨rfl,rfl,rfl,rfl,rfl,rfl⟩
  | endName =>
    dsimp only
    split_ifs <;> exact ⟨rfl,rfl,rfl,rfl,rfl,rfl⟩
  | name =>
    dsimp only
    split_ifs <;> exact ⟨rfl,rfl,rfl,rfl,rfl,rfl⟩
  | comma =>
    dsimp only
    split_ifs <;> exact ⟨rfl,rfl,rfl,rfl,rfl,rfl⟩
  | marker =>
    dsimp only
    split_ifs <;> exact ⟨rfl,rfl,rfl,rfl,rfl,rfl⟩

theorem observe_parts (token : Token) : Observes indexer asm token (asm.observe indexer token) := by
  have silent (idle : asm.typeState = .none) : asm.typeEvent token = none := by
    simp [SemindexAsmIndexer.typeEvent,idle]
  unfold SemindexAsmIndexer.observe
  extract_lets first second third fourth
  have parts : second.callObserver = first.callObserver ∧ second.tokenOrder = first.tokenOrder ∧
      second.previousIdentifier = first.previousIdentifier ∧ second.previousLocation = first.previousLocation ∧
      second.previousOrder = first.previousOrder ∧
      second.functionTable = (asm.typeEvent token).toList.foldl (FunctionTable.apply indexer) asm.functionTable := by
    unfold second
    split_ifs with active
    · exact observeType_parts indexer first token
    · rw [silent (not_not.mp active)]
      exact ⟨rfl,rfl,rfl,rfl,rfl,rfl⟩
    · rw [silent (not_not.mp active)]
      exact ⟨rfl,rfl,rfl,rfl,rfl,rfl⟩
  obtain ⟨calls,order,identifier,location,place,table⟩ := parts
  have labelled : third.functionTable = (asm.events token).foldl (FunctionTable.apply indexer) asm.functionTable ∧
      third.callObserver = second.callObserver ∧ third.tokenOrder = second.tokenOrder := by
    unfold third SemindexAsmIndexer.events SemindexAsmIndexer.labelEvent
    rw [List.foldl_append,← table,identifier,location,place]
    split_ifs
    · exact ⟨rfl,rfl,rfl⟩
    · exact ⟨rfl,rfl,rfl⟩
  obtain ⟨known,heard,counted⟩ := labelled
  have kept : fourth.functionTable = third.functionTable ∧ fourth.callObserver = third.callObserver ∧
      fourth.tokenOrder = third.tokenOrder ∧ fourth.previousIdentifier = (if isIdentifier token then token.text else []) ∧
      (isIdentifier token = true → fourth.previousLocation = token.location ∧ fourth.previousOrder = third.tokenOrder) := by
    unfold fourth
    split_ifs with named
    · exact ⟨rfl,rfl,rfl,rfl,fun _ => ⟨rfl,rfl⟩⟩
    · exact ⟨rfl,rfl,rfl,rfl,fun other => absurd other named⟩
  obtain ⟨whole,spoken,number,text,previous⟩ := kept
  refine ⟨spoken.trans (heard.trans calls),congrArg (· + 1) (number.trans (counted.trans order)),whole.trans known,text,?_⟩
  intro named
  exact ⟨(previous named).1,(previous named).2.trans (counted.trans order)⟩

end Events

end Semindex.Parser.Asm
