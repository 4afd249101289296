import Semindex.Parser.Index
import Semindex.Support.Fork
import Mathlib.Data.List.Count

/-! `rebuildFingerprints`: one hash of the items of each file without its local
items, and one of all of them, with the number of items each covers. BLAKE3 is
a parameter; a hasher is the list of the bytes it was given. -/
namespace Semindex
open Semindex.Fork

abbrev Fingerprint := BitVec 256

structure FileFingerprint where
  file : Text
  data : Fingerprint
  recordCount : Nat

structure FileFingerprintState where
  hash : List UInt8
  hashAll : List UInt8
  records : Nat
  recordsAll : Nat
  hasLocal : Bool

def FileFingerprintState.initial : FileFingerprintState := ⟨[],[],0,0,false⟩

def hashInteger (value : BitVec 64) : List UInt8 :=
  (List.range 8).map (fun i => UInt8.ofBitVec ((value >>> (8*i)).setWidth 8))

def hashNat (value : Nat) : List UInt8 := hashInteger (BitVec.ofNat 64 value)

def hashString (value : Text) : List UInt8 := hashNat (byteLength value) ++ utf8 value

def hashBool (value : Bool) : List UInt8 := hashNat value.toNat

-- the type kind is hashed only next to a type identity, otherwise as -1
def hashTypeKind (kind : SymbolKind) (usrId : Id) : List UInt8 :=
  hashInteger (if usrId = 0 then -1 else BitVec.ofNat 64 kind.code)

def hashSymbol (s : Symbol) : List UInt8 :=
  hashNat 0 ++ hashBool s.definition ++ hashNat s.kind.code ++ hashNat 0 ++ hashString s.owner ++
  hashString s.name ++ hashNat s.line ++ hashNat s.column ++ hashString s.context ++
  hashInteger s.usrId ++ hashInteger 0 ++ hashBool s.isLocal ++ hashString s.type ++
  hashString s.canonicalType ++ hashString s.typeSymbol ++ hashTypeKind s.typeKind s.typeUsrId ++
  hashInteger s.typeUsrId ++ hashInteger s.properties

def hashUse (u : Use) : List UInt8 :=
  hashNat 1 ++ hashNat u.kind.code ++ hashNat u.symbolKind.code ++ hashNat u.mode ++
  hashString u.owner ++ hashString u.name ++ hashNat u.line ++ hashNat u.column ++
  hashString u.context ++ hashInteger u.usrId ++ hashInteger u.contextUsrId ++ hashBool u.isLocal ++
  hashString [] ++ hashString [] ++ hashString [] ++ hashInteger (-1) ++ hashInteger 0 ++ hashInteger 0

def hashParameter (position : Nat) (p : Parameter) : List UInt8 :=
  hashNat position ++ hashString p.name ++ hashString p.type ++ hashString p.canonicalType ++
  hashString p.typeSymbol ++ hashTypeKind p.typeKind p.typeUsrId ++ hashInteger p.typeUsrId

def hashFunctionSignature (g : FunctionSignature) : List UInt8 :=
  hashNat 2 ++ hashString g.name ++ hashInteger g.usrId ++ hashString g.returnType ++
  hashString g.canonicalReturnType ++ hashBool g.variadic ++ hashNat g.parameters.length ++
  (g.parameters.zipIdx.flatMap (fun (p,position) => hashParameter position p))

def updateFingerprints (state : FileFingerprintState) (isLocal : Bool) (record : List UInt8) :
    FileFingerprintState :=
  if isLocal then
    let state := if state.hasLocal then state else
      {state with hashAll := state.hash, recordsAll := state.records, hasLocal := true}
    {state with hashAll := state.hashAll ++ record, recordsAll := state.recordsAll + 1}
  else
    let state := {state with hash := state.hash ++ record, records := state.records + 1}
    if state.hasLocal then
      {state with hashAll := state.hashAll ++ record, recordsAll := state.recordsAll + 1}
    else state

def updateFunctionSignatureFingerprint (state : FileFingerprintState) (g : FunctionSignature) :
    FileFingerprintState :=
  let state := {state with hash := state.hash ++ hashFunctionSignature g, records := state.records + 1}
  if state.hasLocal then
    {state with hashAll := state.hashAll ++ hashFunctionSignature g, recordsAll := state.recordsAll + 1}
  else state

def updateSymbol (states : List FileFingerprintState) (s : Symbol) : List FileFingerprintState :=
  if states.length ≤ s.fileIndex then states
  else states.modify s.fileIndex (fun state => updateFingerprints state s.isLocal (hashSymbol s))

def updateUse (states : List FileFingerprintState) (u : Use) : List FileFingerprintState :=
  if states.length ≤ u.fileIndex then states
  else states.modify u.fileIndex (fun state => updateFingerprints state u.isLocal (hashUse u))

def updateSignature (states : List FileFingerprintState) (g : FunctionSignature) :
    List FileFingerprintState :=
  if states.length ≤ g.fileIndex then states
  else states.modify g.fileIndex (fun state => updateFunctionSignatureFingerprint state g)

def fingerprintStates (index : Index) : List FileFingerprintState :=
  let states := List.replicate index.files.length .initial
  let states := index.symbols.foldl updateSymbol states
  let states := index.uses.foldl updateUse states
  index.functionSignatures.foldl updateSignature states

def FileFingerprintState.count (state : FileFingerprintState) (includeLocal : Bool) : Nat :=
  if includeLocal && state.hasLocal then state.recordsAll else state.records

def FileFingerprintState.stream (state : FileFingerprintState) (includeLocal : Bool) : List UInt8 :=
  if includeLocal && state.hasLocal then state.hashAll else state.hash

/-- The fingerprints of one of the two local settings, in the order of the file list. -/
def rebuildFingerprints (blake3 : List UInt8 → Fingerprint) (index : Index) (includeLocal : Bool) :
    List FileFingerprint :=
  List.zipWith (fun file state =>
    ⟨file,blake3 (state.stream includeLocal),state.count includeLocal⟩) index.files (fingerprintStates index)

def updateItem (states : List FileFingerprintState) : Item → List FileFingerprintState
  | .symbol s => updateSymbol states s
  | .use u => updateUse states u
  | .signature g => updateSignature states g

theorem fingerprintStates_items (index : Index) :
    fingerprintStates index =
      index.items.foldl updateItem (List.replicate index.files.length .initial) := by
  simp only [fingerprintStates,Index.items,List.foldl_append,List.foldl_map]
  rfl

def hashItem : Item → List UInt8
  | .symbol s => hashSymbol s
  | .use u => hashUse u
  | .signature g => hashFunctionSignature g

-- the items of the i-th file that the local setting leaves
def Index.fileItems (index : Index) (i : Nat) (includeLocal : Bool) : List Item :=
  index.items.filter (fun item => item.fileIndex = i && item.passes includeLocal)

section Specification

/-- One hash of the items it is given, and their number. -/
structure PlainHash where
  hash : List UInt8
  records : Nat

def PlainHash.add (state : PlainHash) (item : Item) : PlainHash := ⟨state.hash ++ hashItem item,state.records + 1⟩

def plainHash (items : List Item) : PlainHash := items.foldl PlainHash.add ⟨[],0⟩

def PlainHash.fingerprint (blake3 : List UInt8 → Fingerprint) (file : Text) (state : PlainHash) : FileFingerprint :=
  ⟨file,blake3 state.hash,state.records⟩

def Item.isLocal : Item → Bool
  | .symbol s => s.isLocal
  | .use u => u.isLocal
  | .signature _ => false

end Specification

section Feeding

-- the update of an item, for the state of its file
def feed (state : FileFingerprintState) : Item → FileFingerprintState
  | .symbol s => updateFingerprints state s.isLocal (hashSymbol s)
  | .use u => updateFingerprints state u.isLocal (hashUse u)
  | .signature g => updateFunctionSignatureFingerprint state g

def FileFingerprintState.forked (state : FileFingerprintState) : Forked PlainHash :=
  ⟨⟨state.hash,state.records⟩,⟨state.hashAll,state.recordsAll⟩,state.hasLocal⟩

theorem updateFingerprints_forked (state : FileFingerprintState) {item : Item} {isLocal : Bool} (mark : item.isLocal = isLocal) :
    (updateFingerprints state isLocal (hashItem item)).forked = state.forked.next PlainHash.add Item.isLocal item := by
  cases isLocal <;> cases forked : state.hasLocal <;>
    simp [updateFingerprints,FileFingerprintState.forked,Forked.next,Forked.whole,PlainHash.add,mark,forked]

/-- Every update path is a step of the forked fold. -/
theorem feed_forked (state : FileFingerprintState) (item : Item) :
    (feed state item).forked = state.forked.next PlainHash.add Item.isLocal item := by
  cases item with
  | symbol s => exact @updateFingerprints_forked state (.symbol s) _ rfl
  | use u => exact @updateFingerprints_forked state (.use u) _ rfl
  | signature g =>
    cases forked : state.hasLocal <;>
      simp [feed,updateFunctionSignatureFingerprint,FileFingerprintState.forked,Forked.next,PlainHash.add,Item.isLocal,hashItem,forked]

theorem feeds_independent (items : List Item) :
    Independent PlainHash.add Item.isLocal ⟨[],0⟩ items (items.foldl feed .initial).forked := by
  have run := @List.foldl_hom _ _ _ FileFingerprintState.forked feed (Forked.next PlainHash.add Item.isLocal) items .initial
    (fun state item => (feed_forked state item).symm)
  rw [← run]
  exact independent_run items

theorem updateItem_dispatch (states : List FileFingerprintState) (item : Item) :
    updateItem states item = dispatch Item.fileIndex feed states item := by
  cases item <;> rfl

theorem fingerprintStates_feed (index : Index) (i : Nat) :
    (fingerprintStates index)[i]? =
      index.files[i]?.map (fun _ => (index.items.filter (fun item => item.fileIndex = i)).foldl feed .initial) := by
  have steps : updateItem = dispatch Item.fileIndex feed := by
    ext states item : 2
    exact updateItem_dispatch states item
  rw [fingerprintStates_items,steps,dispatch_run,List.getElem?_replicate]
  split
  · rename_i inside
    rw [List.getElem?_eq_getElem inside]
    rfl
  · rename_i beyond
    rw [List.getElem?_eq_none (by omega)]
    rfl

end Feeding

section Counting
variable {items : List Item} {includeLocal : Bool}

theorem plainHash_add (items : List Item) (state : PlainHash) :
    items.foldl PlainHash.add state = ⟨state.hash ++ items.flatMap hashItem,state.records + items.length⟩ := by
  induction items generalizing state with
  | nil => simp
  | cons item items ih =>
    rw [List.foldl_cons,ih]
    simp [PlainHash.add]
    omega

theorem plainHash_eq (items : List Item) : plainHash items = ⟨items.flatMap hashItem,items.length⟩ := by
  rw [plainHash,plainHash_add]
  simp

theorem passes_local (item : Item) : item.passes includeLocal = (includeLocal || !item.isLocal) := by
  cases item <;> cases includeLocal <;> simp [Item.passes,Item.isLocal]

theorem forked_whole (state : FileFingerprintState) :
    (⟨state.stream true,state.count true⟩ : PlainHash) = state.forked.whole := by
  cases copied : state.hasLocal <;>
    simp [FileFingerprintState.stream,FileFingerprintState.count,Forked.whole,FileFingerprintState.forked,copied]

/-- The state of a file, read under a local setting, is the hash of what the setting leaves. -/
theorem state_fingerprint (items : List Item) (includeLocal : Bool) :
    (⟨(items.foldl feed .initial).stream includeLocal,(items.foldl feed .initial).count includeLocal⟩ : PlainHash) =
      plainHash (items.filter (Item.passes includeLocal)) := by
  obtain ⟨unmarked,whole,_⟩ := feeds_independent items
  cases includeLocal with
  | false =>
    have left : Item.passes false = fun item => !item.isLocal := by
      ext item : 1
      exact passes_local item
    rw [left]
    exact unmarked
  | true =>
    have left : Item.passes true = fun _ => true := by
      ext item : 1
      exact passes_local item
    rw [left,List.filter_true]
    exact (forked_whole _).trans whole

theorem fileItems_fingerprint (index : Index) (i : Nat) (includeLocal : Bool) :
    (⟨((index.items.filter (fun item => item.fileIndex = i)).foldl feed .initial).stream includeLocal,
      ((index.items.filter (fun item => item.fileIndex = i)).foldl feed .initial).count includeLocal⟩ : PlainHash) =
      plainHash (index.fileItems i includeLocal) := by
  have left : (index.items.filter (fun item => item.fileIndex = i)).filter (Item.passes includeLocal) = index.fileItems i includeLocal := by
    rw [List.filter_filter,Index.fileItems]
    exact List.filter_congr (fun item _ => Bool.and_comm _ _)
  rw [state_fingerprint,left]

/-- The two settings of all files: each fingerprint is the hash of the items of its file that
the setting leaves, and counts them. -/
theorem rebuildFingerprints_plain (blake3 : List UInt8 → Fingerprint) (index : Index) (includeLocal : Bool) :
    rebuildFingerprints blake3 index includeLocal =
      index.files.zipIdx.map (fun (file,i) => (plainHash (index.fileItems i includeLocal)).fingerprint blake3 file) := by
  refine List.ext_getElem? (fun i => ?_)
  simp only [rebuildFingerprints,List.getElem?_zipWith,fingerprintStates_feed,List.getElem?_map,List.getElem?_zipIdx]
  cases index.files[i]? with
  | none => rfl
  | some file =>
    simp [PlainHash.fingerprint,← fileItems_fingerprint]

end Counting

theorem rebuildFingerprints_length (blake3 : List UInt8 → Fingerprint) (index : Index) (includeLocal : Bool) :
    (rebuildFingerprints blake3 index includeLocal).length = index.files.length := by
  simp [rebuildFingerprints_plain]

/-- `record_count` is the number of the file's items that pass the local filter. -/
theorem rebuildFingerprints_count (blake3 : List UInt8 → Fingerprint) (index : Index) (includeLocal : Bool)
    (i : Nat) (fingerprint : FileFingerprint)
    (found : (rebuildFingerprints blake3 index includeLocal)[i]? = some fingerprint) :
    fingerprint.recordCount =
      index.items.countP (fun item => item.fileIndex = i && item.passes includeLocal) := by
  rw [rebuildFingerprints_plain,List.getElem?_map,List.getElem?_zipIdx,Option.map_map] at found
  obtain ⟨file,_,same⟩ := Option.map_eq_some_iff.mp found
  rw [← same,List.countP_eq_length_filter]
  simp [PlainHash.fingerprint,plainHash_eq,Index.fileItems]

theorem rebuildFingerprints_file (blake3 : List UInt8 → Fingerprint) (index : Index) (includeLocal : Bool)
    (i : Nat) (fingerprint : FileFingerprint)
    (found : (rebuildFingerprints blake3 index includeLocal)[i]? = some fingerprint) :
    index.files[i]? = some fingerprint.file := by
  simp only [rebuildFingerprints,List.getElem?_zipWith] at found
  split at found
  · rename_i file state atFile _
    cases Option.some.inj found
    exact atFile
  · contradiction

end Semindex
