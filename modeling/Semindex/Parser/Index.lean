import Semindex.Text
import Mathlib.Data.BitVec

/-! The in-memory index of one translation unit, as `rebuildRecords` leaves it. -/
namespace Semindex

inductive SymbolKind where
  | var | field | struct | union | enum | enumConstant | typedef | function | macroName | file
  | classType | lambda | template
  deriving DecidableEq

def SymbolKind.code : SymbolKind → Nat
  | .var => 0 | .field => 1 | .struct => 2 | .union => 3 | .enum => 4 | .enumConstant => 5
  | .typedef => 6 | .function => 7 | .macroName => 8 | .file => 9 | .classType => 10 | .lambda => 11
  | .template => 12

inductive UseKind where
  | read | write | addr | call
  deriving DecidableEq

def UseKind.code : UseKind → Nat
  | .read => 0 | .write => 1 | .addr => 2 | .call => 3

-- the 64-bit hash of a USR, 0 for the empty one
abbrev Id := BitVec 64

-- `rebuildRecords`
def usrHash (hash : Text → Id) (usr : Text) : Id := if usr = [] then 0 else hash usr

structure Parameter where
  name : Text
  type : Text
  canonicalType : Text
  typeKind : SymbolKind
  typeSymbol : Text
  typeUsrId : Id
  deriving DecidableEq

structure FunctionSignature where
  name : Text
  owner : Text
  usr : Text
  usrId : Id
  returnType : Text
  canonicalReturnType : Text
  parameters : List Parameter
  file : Text
  fileIndex : Nat
  variadic : Bool
  deriving DecidableEq

structure Symbol where
  kind : SymbolKind
  name : Text
  owner : Text
  type : Text
  canonicalType : Text
  typeKind : SymbolKind
  typeSymbol : Text
  typeUsrId : Id
  usr : Text
  usrId : Id
  context : Text
  file : Text
  fileIndex : Nat
  line : Nat
  column : Nat
  isLocal : Bool
  definition : Bool
  properties : BitVec 64
  deriving DecidableEq

structure Use where
  kind : UseKind
  symbolKind : SymbolKind
  mode : Nat
  name : Text
  owner : Text
  usr : Text
  context : Text
  contextUsr : Text
  usrId : Id
  contextUsrId : Id
  file : Text
  fileIndex : Nat
  line : Nat
  column : Nat
  isLocal : Bool
  deriving DecidableEq

inductive Item where
  | symbol (symbol : Symbol)
  | use (use : Use)
  | signature (signature : FunctionSignature)
  deriving DecidableEq

def Item.fileIndex : Item → Nat
  | .symbol s => s.fileIndex
  | .use u => u.fileIndex
  | .signature g => g.fileIndex

-- the local filter of `stage_records`; signatures are never local
def Item.passes (includeLocal : Bool) : Item → Bool
  | .symbol s => !(s.isLocal && !includeLocal)
  | .use u => !(u.isLocal && !includeLocal)
  | .signature _ => true

/-- The records of one translation unit. Every location the frontend records names an interned
file, so every file index is in range. -/
structure Index where
  files : List Text
  symbols : List Symbol
  uses : List Use
  functionSignatures : List FunctionSignature
  symbols_located : ∀ s ∈ symbols, s.fileIndex < files.length
  uses_located : ∀ u ∈ uses, u.fileIndex < files.length
  signatures_located : ∀ g ∈ functionSignatures, g.fileIndex < files.length

def Index.items (index : Index) : List Item :=
  index.symbols.map .symbol ++ index.uses.map .use ++ index.functionSignatures.map .signature

theorem Index.items_located (index : Index) (item : Item) (member : item ∈ index.items) :
    item.fileIndex < index.files.length := by
  simp only [items,List.mem_append,List.mem_map] at member
  rcases member with (⟨s,inside,rfl⟩ | ⟨u,inside,rfl⟩) | ⟨g,inside,rfl⟩
  · exact index.symbols_located s inside
  · exact index.uses_located u inside
  · exact index.signatures_located g inside

end Semindex
