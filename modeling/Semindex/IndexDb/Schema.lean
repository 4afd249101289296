import Semindex.Relational.Table
import Semindex.Parser.Fingerprint

/-! The tables of `init_schema` and of `create_staging`. A row is its primary key
without the file, the file, and the columns outside the key; the shared tables
name the file by `file_id`, the staging tables by its stored path. -/
namespace Semindex.IndexDb
open Semindex.Relational

structure RecordKey where
  symbol : Text
  record : Nat
  action : Nat
  kind : Nat
  mode : Nat
  line : Nat
  column : Nat
  deriving DecidableEq

structure RecordValue where
  context : Text
  usrId : Option Id
  contextUsrId : Option Id
  isLocal : Bool
  deriving DecidableEq

structure SymbolTypeKey where
  symbol : Text
  kind : Nat
  usrId : Id
  declaredType : Text
  canonicalType : Text
  typeSymbol : Text
  typeKind : Int
  typeUsrId : Id
  deriving DecidableEq

structure FunctionTypeKey where
  symbol : Text
  usrId : Id
  position : Int
  declaredType : Text
  canonicalType : Text
  typeSymbol : Text
  typeKind : Int
  typeUsrId : Id
  deriving DecidableEq

structure FunctionTypeValue where
  name : Text
  variadic : Bool
  deriving DecidableEq

structure PropertyKey where
  symbol : Text
  kind : Nat
  usrId : Id
  deriving DecidableEq

structure Properties where
  mask : BitVec 64
  deriving DecidableEq

instance : Conflict RecordValue := Conflict.ignore RecordValue
instance : Conflict FunctionTypeValue := Conflict.ignore FunctionTypeValue

-- `DO UPDATE SET properties = properties | excluded.properties`
instance : Conflict Properties where
  resolve a b := ⟨a.mask ||| b.mask⟩
  resolve_assoc a b c := by simp [BitVec.or_assoc]
  resolve_self a := by simp
  resolve_absorb a b := by
    rw [BitVec.or_comm (a.mask ||| b.mask),← BitVec.or_assoc,BitVec.or_self]

structure FileRow where
  id : Nat
  mtimeNs : Int
  size : Int
  deriving DecidableEq

structure VariantRow where
  gitCommit : Option Text
  repositoryRoot : Option Text
  deriving DecidableEq

structure Db where
  files : Table (Text × Text) FileRow
  records : Table (Nat × RecordKey) RecordValue
  symbolTypes : Table (Nat × SymbolTypeKey) Unit
  functionTypes : Table (Nat × FunctionTypeKey) FunctionTypeValue
  symbolProperties : Table (Nat × PropertyKey) Properties
  fileFingerprints : Table (Nat × Fingerprint) Unit
  variants : Table Text VariantRow

def Db.empty : Db := ⟨∅,∅,∅,∅,∅,∅,∅⟩

structure StagingFile where
  mtimeNs : Int
  size : Int
  isMain : Bool
  ordinal : Option Nat
  fingerprint : Option Fingerprint
  cached : Bool
  deriving DecidableEq

structure Staging where
  files : Table Text StagingFile
  records : Table (Text × RecordKey) RecordValue
  symbolTypes : Table (Text × SymbolTypeKey) Unit
  functionTypes : Table (Text × FunctionTypeKey) FunctionTypeValue
  symbolProperties : Table (Text × PropertyKey) Properties

def Staging.empty : Staging := ⟨∅,∅,∅,∅,∅⟩

end Semindex.IndexDb
