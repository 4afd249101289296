import Semindex.IndexDb.Staging
import Semindex.Parser.Stream

/-! The fingerprint of a file covers every column that is staged for it. Only the
owner of a signature is not hashed; it is that of the function's own symbol. -/
namespace Semindex.IndexDb
open Semindex.Relational Semindex.Codec

section Produced
variable (xxh3 : Text → Id)

def Item.Hashed : Item → Prop
  | .symbol s => s.usrId = usrHash xxh3 s.usr
  | .use u => u.usrId = usrHash xxh3 u.usr ∧ u.contextUsrId = usrHash xxh3 u.contextUsr
  | .signature g => g.usrId = usrHash xxh3 g.usr

/-- The symbol `VisitFunctionDecl` adds next to a signature. -/
structure Declares (s : Symbol) (g : FunctionSignature) : Prop where
  kind : s.kind = .function
  isLocal : s.isLocal = false
  file : s.fileIndex = g.fileIndex
  name : s.name = g.name
  owner : s.owner = g.owner
  usr : s.usr = g.usr

/-- An index the indexer produces. -/
structure Produced (index : Index) : Prop where
  fits : ∀ item ∈ index.items, item.Fits
  hashed : ∀ item ∈ index.items, Item.Hashed xxh3 item
  declared : ∀ g ∈ index.functionSignatures, ∃ s ∈ index.symbols, Declares s g
  determined : ∀ s ∈ index.symbols, ∀ t ∈ index.symbols, s.kind = .function → t.kind = .function →
    s.usr = t.usr → s.usr ≠ [] → s.owner = t.owner ∧ s.name = t.name

def Item.usrs : Item → List Text
  | .symbol s => [s.usr]
  | .use u => [u.usr,u.contextUsr]
  | .signature g => [g.usr]

/-- No two USRs have one hash, and none has the hash 0. -/
structure Collisionless (usrs : List Text) : Prop where
  injective : ∀ a ∈ usrs, ∀ b ∈ usrs, xxh3 a = xxh3 b → a = b
  nonzero : ∀ a ∈ usrs, a ≠ [] → xxh3 a ≠ 0

end Produced

section Rows
variable {xxh3 : Text → Id} {pathsA pathsB : StoredPaths} {i j : Nat} {path : Text} {usrs : List Text}

theorem usrHash_empty (free : Collisionless xxh3 usrs) {usr : Text} (member : usr ∈ usrs) :
    usrHash xxh3 usr = 0 ↔ usr = [] := by
  unfold usrHash
  split
  · rename_i empty
    simp [empty]
  · rename_i present
    exact iff_of_false (free.nonzero usr member present) present

theorem usr_of_hash (free : Collisionless xxh3 usrs) {a b : Text} (memberA : a ∈ usrs) (memberB : b ∈ usrs)
    (same : usrHash xxh3 a = usrHash xxh3 b) : a = b := by
  by_cases empty : a = []
  · have zero := (usrHash_empty free memberA).mpr empty
    rw [empty,(usrHash_empty free memberB).mp (same ▸ zero)]
  · by_cases other : b = []
    · have zero := (usrHash_empty free memberB).mpr other
      exact absurd ((usrHash_empty free memberA).mp (same ▸ zero)) empty
    · rw [usrHash,usrHash,if_neg empty,if_neg other] at same
      exact free.injective a memberA b memberB same

theorem typeKindColumn_agrees {kindA kindB : SymbolKind} {idA idB : Id} (sameId : idA = idB)
    (agree : idA ≠ 0 → idB ≠ 0 → kindA = kindB) : typeKindColumn kindA idB = typeKindColumn kindB idB := by
  subst sameId
  unfold typeKindColumn
  split
  · rfl
  · rename_i present
    rw [agree present present]

theorem optionalId_agrees {usrA usrB : Text} {idA idB : Id} (sameId : idA = idB)
    (empty : usrA = [] ↔ usrB = []) : optionalId usrA idA = optionalId usrB idB := by
  simp only [optionalId,empty,sameId]

/-- Two items that stage the same rows in all four tables. -/
structure SameRows (pathsA pathsB : StoredPaths) (a b : Item) : Prop where
  records : recordRows pathsA a = recordRows pathsB b
  symbolTypes : symbolTypeRows pathsA a = symbolTypeRows pathsB b
  functionTypes : functionTypeRows pathsA a = functionTypeRows pathsB b
  properties : propertyRows pathsA a = propertyRows pathsB b

theorem symbol_sameRows {s t : Symbol} (agree : s.Agrees t) (empty : s.usr = [] ↔ t.usr = [])
    (path : recordPath pathsA s.fileIndex s.file = recordPath pathsB t.fileIndex t.file) :
    SameRows pathsA pathsB (.symbol s) (.symbol t) := by
  have kind := typeKindColumn_agrees agree.typeUsrId agree.typeKind
  constructor
  · simp only [recordRows,symbolRecord,path,agree.owner,agree.name,agree.definition,agree.kind,agree.line,agree.column,
      agree.context,agree.isLocal,optionalId_agrees agree.usrId empty]
  · simp only [symbolTypeRows,symbolTypeRow,path,agree.owner,agree.name,agree.kind,agree.usrId,agree.type,
      agree.canonicalType,agree.typeSymbol,agree.typeUsrId,kind,ne_eq,empty]
  · rfl
  · simp only [propertyRows,symbolPropertiesRow,path,agree.owner,agree.name,agree.kind,agree.usrId,agree.properties,
      ne_eq,empty]

theorem use_sameRows {u v : Use} (agree : u.Agrees v) (empty : u.usr = [] ↔ v.usr = [])
    (contextEmpty : u.contextUsr = [] ↔ v.contextUsr = [])
    (path : recordPath pathsA u.fileIndex u.file = recordPath pathsB v.fileIndex v.file) :
    SameRows pathsA pathsB (.use u) (.use v) := by
  constructor
  · simp only [recordRows,useRecord,path,agree.owner,agree.name,agree.kind,agree.symbolKind,agree.mode,agree.line,
      agree.column,agree.context,agree.isLocal,optionalId_agrees agree.usrId empty,
      optionalId_agrees agree.contextUsrId contextEmpty]
  · rfl
  · rfl
  · rfl

theorem parameterRow_agrees {g h : FunctionSignature} (agree : g.Agrees h) (owner : g.owner = h.owner)
    (path : recordPath pathsA g.fileIndex g.file = recordPath pathsB h.fileIndex h.file) {p q : Parameter}
    (parameter : p.Agrees q) (position : Nat) :
    parameterRow pathsA g p position = parameterRow pathsB h q position := by
  simp only [parameterRow,path,owner,agree.name,agree.usrId,parameter.name,parameter.type,parameter.canonicalType,
    parameter.typeSymbol,parameter.typeUsrId,typeKindColumn_agrees parameter.typeUsrId parameter.typeKind]

theorem signature_sameRows {g h : FunctionSignature} (agree : g.Agrees h) (owner : g.owner = h.owner)
    (empty : g.usr = [] ↔ h.usr = [])
    (path : recordPath pathsA g.fileIndex g.file = recordPath pathsB h.fileIndex h.file) :
    SameRows pathsA pathsB (.signature g) (.signature h) := by
  have returned : returnTypeRow pathsA g = returnTypeRow pathsB h := by
    simp only [returnTypeRow,path,owner,agree.name,agree.usrId,agree.returnType,agree.canonicalReturnType,agree.variadic]
  have parameters : g.parameters.zipIdx.map (fun entry => parameterRow pathsA g entry.1 entry.2) =
      h.parameters.zipIdx.map (fun entry => parameterRow pathsB h entry.1 entry.2) := by
    apply List.ext_getElem?
    intro n
    simp only [List.getElem?_map,List.getElem?_zipIdx,Option.map_map]
    have length := agree.parameters.length_eq
    by_cases inside : n < g.parameters.length
    · rw [List.getElem?_eq_getElem inside,List.getElem?_eq_getElem (length ▸ inside)]
      have paired := agree.parameters.get inside (length ▸ inside)
      simp only [Option.map_some,Function.comp_apply,Nat.zero_add,Option.some.injEq]
      exact parameterRow_agrees agree owner path paired n
    · rw [List.getElem?_eq_none (by omega),List.getElem?_eq_none (by omega)]
      rfl
  constructor
  · rfl
  · rfl
  · simp only [functionTypeRows,empty,returned,parameters]
  · rfl

end Rows

section Covered
variable {xxh3 : Text → Id} {A B : Index} {pathsA pathsB : StoredPaths} {i j : Nat} {path : Text} {includeLocal : Bool}

-- the index with the items of one file only
def Index.ofFile (index : Index) (i : Nat) : Index where
  files := index.files
  symbols := index.symbols.filter (fun s => s.fileIndex = i)
  uses := index.uses.filter (fun u => u.fileIndex = i)
  functionSignatures := index.functionSignatures.filter (fun g => g.fileIndex = i)
  symbols_located s member := index.symbols_located s (List.mem_of_mem_filter member)
  uses_located u member := index.uses_located u (List.mem_of_mem_filter member)
  signatures_located g member := index.signatures_located g (List.mem_of_mem_filter member)

def Index.usrs (index : Index) : List Text := index.items.flatMap Item.usrs

theorem symbol_mem {index : Index} {s : Symbol} : .symbol s ∈ index.items ↔ s ∈ index.symbols := by
  simp [Index.items]

theorem signature_mem {index : Index} {g : FunctionSignature} : .signature g ∈ index.items ↔ g ∈ index.functionSignatures := by
  simp [Index.items]

theorem usr_mem {index : Index} {item : Item} (member : item ∈ index.items) {usr : Text} (named : usr ∈ Item.usrs item) :
    usr ∈ Index.usrs index :=
  List.mem_flatMap.mpr ⟨item,member,named⟩

theorem hash_equal_iff (free : Collisionless xxh3 (Index.usrs A ++ Index.usrs B)) {usrA usrB : Text}
    (inA : usrA ∈ Index.usrs A) (inB : usrB ∈ Index.usrs B) :
    usrHash xxh3 usrA = usrHash xxh3 usrB ↔ usrA = usrB := by
  constructor
  · exact usr_of_hash free (List.mem_append_left _ inA) (List.mem_append_right _ inB)
  · intro same
    rw [same]

theorem usr_agrees (free : Collisionless xxh3 (Index.usrs A ++ Index.usrs B)) {usrA usrB : Text}
    (inA : usrA ∈ Index.usrs A) (inB : usrB ∈ Index.usrs B) {idA idB : Id} (hashA : idA = usrHash xxh3 usrA)
    (hashB : idB = usrHash xxh3 usrB) (same : idA = idB) : usrA = usrB := by
  rw [hashA,hashB] at same
  exact (hash_equal_iff free inA inB).mp same

/-- The owner of a signature is that of the symbol with its USR, which is hashed. -/
theorem signature_owner (producedA : Produced xxh3 A) (producedB : Produced xxh3 B)
    (free : Collisionless xxh3 (Index.usrs A ++ Index.usrs B))
    (read : List.Forall₂ (fun a b => a ∈ A.fileItems i includeLocal ∧ b ∈ B.fileItems j includeLocal ∧ a.Agrees b)
      (A.fileItems i includeLocal) (B.fileItems j includeLocal))
    {g h : FunctionSignature} (inA : g ∈ A.functionSignatures) (inB : h ∈ B.functionSignatures)
    (inside : g.fileIndex = i) (present : g.usr ≠ []) (agree : g.usrId = h.usrId) : g.owner = h.owner := by
  obtain ⟨s,memberS,declaresS⟩ := producedA.declared g inA
  obtain ⟨u,memberU,declaresU⟩ := producedB.declared h inB
  have listed : .symbol s ∈ A.fileItems i includeLocal := by
    have here : s.fileIndex = i := declaresS.file.trans inside
    simp [Index.fileItems,Index.items,memberS,Item.fileIndex,Item.passes,here,declaresS.isLocal]
  obtain ⟨b,memberB,_,inFile,agrees⟩ := forall₂_mem read listed
  cases b with
  | use v => exact agrees.elim
  | signature v => exact agrees.elim
  | symbol t =>
    have memberT : t ∈ B.symbols := symbol_mem.mp (List.mem_of_mem_filter inFile)
    have usrT : s.usr = t.usr :=
      usr_agrees free (usr_mem (symbol_mem.mpr memberS) (by simp [Item.usrs]))
        (usr_mem (symbol_mem.mpr memberT) (by simp [Item.usrs])) (producedA.hashed _ (symbol_mem.mpr memberS))
        (producedB.hashed _ (symbol_mem.mpr memberT)) agrees.usrId
    have usrH : g.usr = h.usr :=
      usr_agrees free (usr_mem (signature_mem.mpr inA) (by simp [Item.usrs]))
        (usr_mem (signature_mem.mpr inB) (by simp [Item.usrs])) (producedA.hashed _ (signature_mem.mpr inA))
        (producedB.hashed _ (signature_mem.mpr inB)) agree
    have shared : t.usr = u.usr := by rw [← usrT,declaresS.usr,usrH,declaresU.usr]
    have kindT : t.kind = .function := by rw [← agrees.kind,declaresS.kind]
    have presentT : t.usr ≠ [] := by rwa [← usrT,declaresS.usr]
    have owners := producedB.determined t memberT u memberU kindT declaresU.kind shared presentT
    calc g.owner = s.owner := declaresS.owner.symm
      _ = t.owner := agrees.owner
      _ = u.owner := owners.1
      _ = h.owner := declaresU.owner

theorem items_sameRows (producedA : Produced xxh3 A) (producedB : Produced xxh3 B)
    (free : Collisionless xxh3 (Index.usrs A ++ Index.usrs B)) (storedA : pathsA.files[i]? = some path)
    (storedB : pathsB.files[j]? = some path)
    (read : List.Forall₂ (fun a b => a ∈ A.fileItems i includeLocal ∧ b ∈ B.fileItems j includeLocal ∧ a.Agrees b)
      (A.fileItems i includeLocal) (B.fileItems j includeLocal))
    (a b : Item) (paired : a ∈ A.fileItems i includeLocal ∧ b ∈ B.fileItems j includeLocal ∧ a.Agrees b) :
    SameRows pathsA pathsB a b := by
  obtain ⟨inFileA,inFileB,agrees⟩ := paired
  have inA := List.mem_of_mem_filter inFileA
  have inB := List.mem_of_mem_filter inFileB
  have atA : a.fileIndex = i := by
    have selected := List.of_mem_filter inFileA
    simp only [Bool.and_eq_true,decide_eq_true_eq] at selected
    exact selected.1
  have atB : b.fileIndex = j := by
    have selected := List.of_mem_filter inFileB
    simp only [Bool.and_eq_true,decide_eq_true_eq] at selected
    exact selected.1
  have path : ∀ fileA fileB, recordPath pathsA a.fileIndex fileA = recordPath pathsB b.fileIndex fileB := by
    intro fileA fileB
    rw [recordPath,recordPath,atA,atB,storedA,storedB]
    rfl
  have hashedA := producedA.hashed a inA
  have hashedB := producedB.hashed b inB
  cases a with
  | symbol s =>
    cases b with
    | use v => exact agrees.elim
    | signature h => exact agrees.elim
    | symbol t =>
      have usr := usr_agrees free (usr_mem inA (by simp [Item.usrs])) (usr_mem inB (by simp [Item.usrs])) hashedA hashedB
        agrees.usrId
      exact symbol_sameRows agrees (by rw [usr]) (path s.file t.file)
  | use u =>
    cases b with
    | symbol t => exact agrees.elim
    | signature h => exact agrees.elim
    | use v =>
      have usr := usr_agrees free (usr_mem inA (by simp [Item.usrs])) (usr_mem inB (by simp [Item.usrs])) hashedA.1
        hashedB.1 agrees.usrId
      have contextUsr := usr_agrees free (usr_mem inA (by simp [Item.usrs])) (usr_mem inB (by simp [Item.usrs]))
        hashedA.2 hashedB.2 agrees.contextUsrId
      exact use_sameRows agrees (by rw [usr]) (by rw [contextUsr]) (path u.file v.file)
  | signature g =>
    cases b with
    | symbol t => exact agrees.elim
    | use v => exact agrees.elim
    | signature h =>
      have usr := usr_agrees free (usr_mem inA (by simp [Item.usrs])) (usr_mem inB (by simp [Item.usrs])) hashedA hashedB
        agrees.usrId
      by_cases anonymous : g.usr = []
      · have other : h.usr = [] := usr ▸ anonymous
        exact ⟨rfl,rfl,by simp [functionTypeRows,anonymous,other],rfl⟩
      · have owner := signature_owner producedA producedB free read (signature_mem.mp inA) (signature_mem.mp inB) atA
          anonymous agrees.usrId
        exact signature_sameRows agrees owner (by rw [usr]) (path g.file h.file)

theorem ofFile_items (index : Index) (i : Nat) :
    (Index.ofFile index i).items = index.items.filter (fun item => item.fileIndex = i) := by
  rw [Index.items,Index.items,List.filter_append,List.filter_append,List.filter_map,List.filter_map,List.filter_map]
  rfl

theorem ofFile_kept (index : Index) : (Index.ofFile index i).items.filter (kept includeLocal []) =
    index.fileItems i includeLocal := by
  rw [ofFile_items,List.filter_filter,Index.fileItems]
  apply List.filter_congr
  intro item _
  simp [kept,isCached,Bool.and_comm]

/-- A stream has one reading, and files with equal streams have the same rows staged. -/
theorem fingerprint_covers_rows (producedA : Produced xxh3 A) (producedB : Produced xxh3 B)
    (free : Collisionless xxh3 (Index.usrs A ++ Index.usrs B)) (storedA : pathsA.files[i]? = some path)
    (storedB : pathsB.files[j]? = some path)
    (equal : streamAt (fingerprintStates A) includeLocal i = streamAt (fingerprintStates B) includeLocal j) :
    List.Forall₂ Item.Agrees (A.fileItems i includeLocal) (B.fileItems j includeLocal) ∧
    ∀ st, stageRecords pathsA includeLocal [] (Index.ofFile A i) st =
      stageRecords pathsB includeLocal [] (Index.ofFile B j) st := by
  have read := items_of_stream producedA.fits producedB.fits equal
  have same := items_sameRows producedA producedB free storedA storedB read
  refine ⟨List.Forall₂.imp (fun a b paired => paired.2.2) read,fun st => ?_⟩
  rw [stageRecords_rows,stageRecords_rows,ofFile_kept,ofFile_kept,
    flatMap_of_paired read (fun a b paired => (same a b paired).records),
    flatMap_of_paired read (fun a b paired => (same a b paired).symbolTypes),
    flatMap_of_paired read (fun a b paired => (same a b paired).functionTypes),
    flatMap_of_paired read (fun a b paired => (same a b paired).properties)]

def textHash (usr : Text) : Id := BitVec.ofNat 64 (usr.foldl (fun hash c => 31*hash + c.toNat) 17)

def memberUsr : Text := "c:@N@app@S@Codec@F@read#L#".toList

-- the declaration of a member function in the file at the given position
def memberSymbol (fileIndex : Nat) : Symbol :=
  { kind := .function, name := "read".toList, owner := "app::Codec".toList, type := "int (long)".toList,
    canonicalType := "int (long)".toList, typeKind := .var, typeSymbol := [], typeUsrId := 0,
    usr := memberUsr, usrId := textHash memberUsr, context := [], file := [], fileIndex := fileIndex,
    line := 4, column := 6, isLocal := false, definition := false, properties := 0 }

def memberSignature (fileIndex : Nat) : FunctionSignature :=
  { name := "read".toList, owner := "app::Codec".toList, usr := memberUsr, usrId := textHash memberUsr,
    returnType := "int".toList, canonicalReturnType := "int".toList,
    parameters := [⟨"size".toList,"long".toList,"long".toList,.var,[],0⟩], file := [], fileIndex := fileIndex,
    variadic := false }

def memberIndex (files : List Text) (fileIndex : Nat) (inside : fileIndex < files.length) : Index where
  files := files
  symbols := [memberSymbol fileIndex]
  uses := []
  functionSignatures := [memberSignature fileIndex]
  symbols_located := by simpa [memberSymbol] using inside
  uses_located := by simp
  signatures_located := by simpa [memberSignature] using inside

theorem memberIndex_produced (files : List Text) (fileIndex : Nat) (inside : fileIndex < files.length) :
    Produced textHash (memberIndex files fileIndex inside) where
  fits item member := by
    obtain rfl | rfl : item = .symbol (memberSymbol fileIndex) ∨ item = .signature (memberSignature fileIndex) := by
      simpa [memberIndex,Index.items] using member
    · constructor <;> simp only [memberSymbol,Text.Fits] <;> decide
    · have name : Text.Fits "read".toList := by unfold Text.Fits; decide
      have returned : Text.Fits "int".toList := by unfold Text.Fits; decide
      refine ⟨name,returned,returned,by simp [memberSignature],?_⟩
      intro p parameter
      obtain rfl : p = ⟨"size".toList,"long".toList,"long".toList,.var,[],0⟩ := by simpa [memberSignature] using parameter
      constructor <;> unfold Text.Fits <;> decide
  hashed item member := by
    obtain rfl | rfl : item = .symbol (memberSymbol fileIndex) ∨ item = .signature (memberSignature fileIndex) := by
      simpa [memberIndex,Index.items] using member
    · rfl
    · rfl
  declared g member := by
    obtain rfl : g = memberSignature fileIndex := by simpa [memberIndex] using member
    exact ⟨memberSymbol fileIndex,by simp [memberIndex],rfl,rfl,rfl,rfl,rfl,rfl⟩
  determined s memberS t memberT _ _ _ _ := by
    obtain rfl : s = memberSymbol fileIndex := by simpa [memberIndex] using memberS
    obtain rfl : t = memberSymbol fileIndex := by simpa [memberIndex] using memberT
    exact ⟨rfl,rfl⟩

/-- One header, the first file of one unit and the second of another. -/
theorem fingerprint_covers_member :
    stageRecords ⟨none,["codec.h".toList]⟩ true [] (Index.ofFile (memberIndex ["codec.h".toList] 0 (by decide)) 0)
        Staging.empty =
      stageRecords ⟨none,["a.cc".toList,"codec.h".toList]⟩ true []
        (Index.ofFile (memberIndex ["a.cc".toList,"codec.h".toList] 1 (by decide)) 1) Staging.empty := by
  have usrs : ∀ usr ∈ Index.usrs (memberIndex ["codec.h".toList] 0 (by decide)) ++
      Index.usrs (memberIndex ["a.cc".toList,"codec.h".toList] 1 (by decide)), usr = memberUsr := by
    simp [Index.usrs,Index.items,memberIndex,Item.usrs,memberSymbol,memberSignature]
  have free : Collisionless textHash (Index.usrs (memberIndex ["codec.h".toList] 0 (by decide)) ++
      Index.usrs (memberIndex ["a.cc".toList,"codec.h".toList] 1 (by decide))) := by
    constructor
    · intro a memberA b memberB _
      rw [usrs a memberA,usrs b memberB]
    · intro a memberA _
      rw [usrs a memberA]
      decide
  exact (fingerprint_covers_rows (memberIndex_produced _ _ _) (memberIndex_produced _ _ _) free rfl rfl
    (by decide +kernel)).2 Staging.empty

end Covered
end Semindex.IndexDb
