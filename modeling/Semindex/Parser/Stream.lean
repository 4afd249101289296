import Semindex.Codec.Prefix
import Semindex.Parser.Fingerprint
import Semindex.Support.Utf8

/-! The byte stream of a file. It is the encodings of the file's items one after
another, and it has one reading: every field of an item but the owner of a
signature and the kind of an absent type can be read off it. -/
namespace Semindex
open Semindex.Codec

section Scalars

theorem hashInteger_length (value : BitVec 64) : (hashInteger value).length = 8 := by
  simp [hashInteger]

theorem hashInteger_injective {a b : BitVec 64} (equal : hashInteger a = hashInteger b) : a = b := by
  apply BitVec.eq_of_getLsbD_eq
  intro j bound
  have byte : (a >>> (8*(j/8))).setWidth 8 = (b >>> (8*(j/8))).setWidth 8 := by
    have same := congrArg (fun bytes => bytes[j/8]?) equal
    have inside : j/8 < 8 := by omega
    simpa [hashInteger,inside] using same
  have bit := congrArg (fun v => v.getLsbD (j%8)) byte
  have place : 8*(j/8) + j%8 = j := by omega
  have small : j%8 < 8 := by omega
  simpa [small,place] using bit

theorem hashInteger_splits (a b : BitVec 64) : Splits (hashInteger a) (hashInteger b) (a = b) :=
  (splits_of_length (by simp [hashInteger_length])).weaken hashInteger_injective

theorem hashNat_splits {a b : Nat} (fitsA : a < 2^64) (fitsB : b < 2^64) :
    Splits (hashNat a) (hashNat b) (a = b) := by
  refine (hashInteger_splits _ _).weaken (fun same => ?_)
  have values := congrArg BitVec.toNat same
  rwa [BitVec.toNat_ofNat,BitVec.toNat_ofNat,Nat.mod_eq_of_lt fitsA,Nat.mod_eq_of_lt fitsB] at values

theorem hashBool_splits (a b : Bool) : Splits (hashBool a) (hashBool b) (a = b) := by
  have bound : ∀ c : Bool, c.toNat < 2^64 := by decide
  exact (hashNat_splits (bound a) (bound b)).weaken (fun same => by revert same; cases a <;> cases b <;> decide)

theorem hashString_splits {a b : Text} (fitsA : byteLength a < 2^64) (fitsB : byteLength b < 2^64) :
    Splits (hashString a) (hashString b) (a = b) := by
  have text : byteLength a = byteLength b → Splits (utf8 a) (utf8 b) (a = b) :=
    fun length => (splits_of_length length).weaken utf8_injective
  exact ((hashNat_splits fitsA fitsB).append text).weaken And.right

theorem symbolCode_injective {a b : SymbolKind} (same : a.code = b.code) : a = b := by
  revert same
  cases a <;> cases b <;> decide

theorem useCode_injective {a b : UseKind} (same : a.code = b.code) : a = b := by
  revert same
  cases a <;> cases b <;> decide

theorem symbolCode_small (kind : SymbolKind) : kind.code < 13 := by
  cases kind <;> decide

theorem useCode_small (kind : UseKind) : kind.code < 4 := by
  cases kind <;> decide

theorem symbolKind_splits (a b : SymbolKind) : Splits (hashNat a.code) (hashNat b.code) (a = b) := by
  have smallA := symbolCode_small a
  have smallB := symbolCode_small b
  exact (hashNat_splits (by omega) (by omega)).weaken symbolCode_injective

theorem useKind_splits (a b : UseKind) : Splits (hashNat a.code) (hashNat b.code) (a = b) := by
  have smallA := useCode_small a
  have smallB := useCode_small b
  exact (hashNat_splits (by omega) (by omega)).weaken useCode_injective

-- without a type identity the kind is not hashed
theorem typeKind_splits (a b : SymbolKind) (idA idB : Id) : Splits (hashTypeKind a idA) (hashTypeKind b idB)
    (idA ≠ 0 → idB ≠ 0 → a = b) := by
  refine (hashInteger_splits _ _).weaken (fun same presentA presentB => ?_)
  rw [if_neg presentA,if_neg presentB] at same
  have values := congrArg BitVec.toNat same
  have smallA := symbolCode_small a
  have smallB := symbolCode_small b
  rw [BitVec.toNat_ofNat,BitVec.toNat_ofNat,Nat.mod_eq_of_lt (by omega),Nat.mod_eq_of_lt (by omega)] at values
  exact symbolCode_injective values

end Scalars

section Items

/-- A length the code can hold. -/
def Text.Fits (text : Text) : Prop := byteLength text < 2^64

-- `unsigned` numbers and `size_t` lengths
structure Symbol.Fits (s : Symbol) : Prop where
  owner : Text.Fits s.owner
  name : Text.Fits s.name
  line : s.line < 2^64
  column : s.column < 2^64
  context : Text.Fits s.context
  type : Text.Fits s.type
  canonicalType : Text.Fits s.canonicalType
  typeSymbol : Text.Fits s.typeSymbol

structure Use.Fits (u : Use) : Prop where
  mode : u.mode < 2^64
  owner : Text.Fits u.owner
  name : Text.Fits u.name
  line : u.line < 2^64
  column : u.column < 2^64
  context : Text.Fits u.context

structure Parameter.Fits (p : Parameter) : Prop where
  name : Text.Fits p.name
  type : Text.Fits p.type
  canonicalType : Text.Fits p.canonicalType
  typeSymbol : Text.Fits p.typeSymbol

structure FunctionSignature.Fits (g : FunctionSignature) : Prop where
  name : Text.Fits g.name
  returnType : Text.Fits g.returnType
  canonicalReturnType : Text.Fits g.canonicalReturnType
  count : g.parameters.length < 2^64
  parameters : ∀ p ∈ g.parameters, p.Fits

def Item.Fits : Item → Prop
  | .symbol s => s.Fits
  | .use u => u.Fits
  | .signature g => g.Fits

structure Symbol.Agrees (s t : Symbol) : Prop where
  definition : s.definition = t.definition
  kind : s.kind = t.kind
  owner : s.owner = t.owner
  name : s.name = t.name
  line : s.line = t.line
  column : s.column = t.column
  context : s.context = t.context
  usrId : s.usrId = t.usrId
  isLocal : s.isLocal = t.isLocal
  type : s.type = t.type
  canonicalType : s.canonicalType = t.canonicalType
  typeSymbol : s.typeSymbol = t.typeSymbol
  typeKind : s.typeUsrId ≠ 0 → t.typeUsrId ≠ 0 → s.typeKind = t.typeKind
  typeUsrId : s.typeUsrId = t.typeUsrId
  properties : s.properties = t.properties

structure Use.Agrees (u v : Use) : Prop where
  kind : u.kind = v.kind
  symbolKind : u.symbolKind = v.symbolKind
  mode : u.mode = v.mode
  owner : u.owner = v.owner
  name : u.name = v.name
  line : u.line = v.line
  column : u.column = v.column
  context : u.context = v.context
  usrId : u.usrId = v.usrId
  contextUsrId : u.contextUsrId = v.contextUsrId
  isLocal : u.isLocal = v.isLocal

structure Parameter.Agrees (p q : Parameter) : Prop where
  name : p.name = q.name
  type : p.type = q.type
  canonicalType : p.canonicalType = q.canonicalType
  typeSymbol : p.typeSymbol = q.typeSymbol
  typeKind : p.typeUsrId ≠ 0 → q.typeUsrId ≠ 0 → p.typeKind = q.typeKind
  typeUsrId : p.typeUsrId = q.typeUsrId

structure FunctionSignature.Agrees (g h : FunctionSignature) : Prop where
  name : g.name = h.name
  usrId : g.usrId = h.usrId
  returnType : g.returnType = h.returnType
  canonicalReturnType : g.canonicalReturnType = h.canonicalReturnType
  variadic : g.variadic = h.variadic
  parameters : List.Forall₂ Parameter.Agrees g.parameters h.parameters

/-- The items agree in every field their encodings determine. -/
def Item.Agrees : Item → Item → Prop
  | .symbol s,.symbol t => s.Agrees t
  | .use u,.use v => u.Agrees v
  | .signature g,.signature h => g.Agrees h
  | _,_ => False

theorem hashSymbol_splits {s t : Symbol} (fitsS : s.Fits) (fitsT : t.Fits) :
    Splits (hashSymbol s) (hashSymbol t) (s.Agrees t) := by
  have tag : Splits (hashNat 0) (hashNat 0) (0 = 0) := hashNat_splits (by decide) (by decide)
  have action := tag.append (fun _ => hashBool_splits s.definition t.definition)
  have kind := action.append (fun _ => symbolKind_splits s.kind t.kind)
  have mode := kind.append (fun _ => tag)
  have owner := mode.append (fun _ => hashString_splits fitsS.owner fitsT.owner)
  have name := owner.append (fun _ => hashString_splits fitsS.name fitsT.name)
  have line := name.append (fun _ => hashNat_splits fitsS.line fitsT.line)
  have column := line.append (fun _ => hashNat_splits fitsS.column fitsT.column)
  have context := column.append (fun _ => hashString_splits fitsS.context fitsT.context)
  have usrId := context.append (fun _ => hashInteger_splits s.usrId t.usrId)
  have contextUsrId := usrId.append (fun _ => hashInteger_splits 0 0)
  have isLocal := contextUsrId.append (fun _ => hashBool_splits s.isLocal t.isLocal)
  have type := isLocal.append (fun _ => hashString_splits fitsS.type fitsT.type)
  have canonicalType := type.append (fun _ => hashString_splits fitsS.canonicalType fitsT.canonicalType)
  have typeSymbol := canonicalType.append (fun _ => hashString_splits fitsS.typeSymbol fitsT.typeSymbol)
  have typeKind := typeSymbol.append (fun _ => typeKind_splits s.typeKind t.typeKind s.typeUsrId t.typeUsrId)
  have typeUsrId := typeKind.append (fun _ => hashInteger_splits s.typeUsrId t.typeUsrId)
  have properties := typeUsrId.append (fun _ => hashInteger_splits s.properties t.properties)
  refine properties.weaken (fun all => ?_)
  simp only [and_assoc] at all
  obtain ⟨_,definition,kind,_,owner,name,line,column,context,usrId,_,isLocal,type,canonicalType,typeSymbol,typeKind,
    typeUsrId,properties⟩ := all
  exact ⟨definition,kind,owner,name,line,column,context,usrId,isLocal,type,canonicalType,typeSymbol,typeKind,typeUsrId,
    properties⟩

theorem hashUse_splits {u v : Use} (fitsU : u.Fits) (fitsV : v.Fits) :
    Splits (hashUse u) (hashUse v) (u.Agrees v) := by
  have empty : Splits (hashString []) (hashString []) (([] : Text) = []) := hashString_splits (by decide) (by decide)
  have tag : Splits (hashNat 1) (hashNat 1) (1 = 1) := hashNat_splits (by decide) (by decide)
  have action := tag.append (fun _ => useKind_splits u.kind v.kind)
  have kind := action.append (fun _ => symbolKind_splits u.symbolKind v.symbolKind)
  have mode := kind.append (fun _ => hashNat_splits fitsU.mode fitsV.mode)
  have owner := mode.append (fun _ => hashString_splits fitsU.owner fitsV.owner)
  have name := owner.append (fun _ => hashString_splits fitsU.name fitsV.name)
  have line := name.append (fun _ => hashNat_splits fitsU.line fitsV.line)
  have column := line.append (fun _ => hashNat_splits fitsU.column fitsV.column)
  have context := column.append (fun _ => hashString_splits fitsU.context fitsV.context)
  have usrId := context.append (fun _ => hashInteger_splits u.usrId v.usrId)
  have contextUsrId := usrId.append (fun _ => hashInteger_splits u.contextUsrId v.contextUsrId)
  have isLocal := contextUsrId.append (fun _ => hashBool_splits u.isLocal v.isLocal)
  have types := ((isLocal.append (fun _ => empty)).append (fun _ => empty)).append (fun _ => empty)
  have rest := ((types.append (fun _ => hashInteger_splits (-1) (-1))).append
    (fun _ => hashInteger_splits 0 0)).append (fun _ => hashInteger_splits 0 0)
  refine rest.weaken (fun all => ?_)
  simp only [and_assoc] at all
  obtain ⟨_,kind,symbolKind,mode,owner,name,line,column,context,usrId,contextUsrId,isLocal,_⟩ := all
  exact ⟨kind,symbolKind,mode,owner,name,line,column,context,usrId,contextUsrId,isLocal⟩

theorem hashParameter_splits {p q : Parameter} {i j : Nat} (fitsI : i < 2^64) (fitsJ : j < 2^64) (fitsP : p.Fits)
    (fitsQ : q.Fits) : Splits (hashParameter i p) (hashParameter j q) (p.Agrees q) := by
  have position := hashNat_splits fitsI fitsJ
  have name := position.append (fun _ => hashString_splits fitsP.name fitsQ.name)
  have type := name.append (fun _ => hashString_splits fitsP.type fitsQ.type)
  have canonicalType := type.append (fun _ => hashString_splits fitsP.canonicalType fitsQ.canonicalType)
  have typeSymbol := canonicalType.append (fun _ => hashString_splits fitsP.typeSymbol fitsQ.typeSymbol)
  have typeKind := typeSymbol.append (fun _ => typeKind_splits p.typeKind q.typeKind p.typeUsrId q.typeUsrId)
  have typeUsrId := typeKind.append (fun _ => hashInteger_splits p.typeUsrId q.typeUsrId)
  refine typeUsrId.weaken (fun all => ?_)
  obtain ⟨⟨⟨⟨⟨⟨_,name⟩,type⟩,canonicalType⟩,typeSymbol⟩,typeKind⟩,typeUsrId⟩ := all
  exact ⟨name,type,canonicalType,typeSymbol,typeKind,typeUsrId⟩

theorem hashParameters_splits {first second : List Parameter} (length : first.length = second.length)
    (bound : first.length < 2^64) (fitsFirst : ∀ p ∈ first, p.Fits) (fitsSecond : ∀ p ∈ second, p.Fits) :
    Splits (first.zipIdx.flatMap (fun (p,position) => hashParameter position p))
      (second.zipIdx.flatMap (fun (p,position) => hashParameter position p))
      (List.Forall₂ Parameter.Agrees first second) := by
  have each : ∀ a ∈ first.zipIdx, ∀ b ∈ second.zipIdx,
      Splits (hashParameter a.2 a.1) (hashParameter b.2 b.1) (a.1.Agrees b.1) := by
    intro ⟨p,i⟩ memberP ⟨q,j⟩ memberQ
    have atP := List.mem_zipIdx' memberP
    have atQ := List.mem_zipIdx' memberQ
    exact hashParameter_splits (by omega) (by omega) (fitsFirst p (atP.2 ▸ List.getElem_mem _))
      (fitsSecond q (atQ.2 ▸ List.getElem_mem _))
  refine (splits_counted (by simpa using length) each).weaken (fun paired => ?_)
  have mapped : List.Forall₂ Parameter.Agrees (first.zipIdx.map Prod.fst) (second.zipIdx.map Prod.fst) := by
    rwa [List.forall₂_map_left_iff,List.forall₂_map_right_iff]
  rwa [List.zipIdx_map_fst,List.zipIdx_map_fst] at mapped

theorem hashFunctionSignature_splits {g h : FunctionSignature} (fitsG : g.Fits) (fitsH : h.Fits) :
    Splits (hashFunctionSignature g) (hashFunctionSignature h) (g.Agrees h) := by
  have tag : Splits (hashNat 2) (hashNat 2) (2 = 2) := hashNat_splits (by decide) (by decide)
  have name := tag.append (fun _ => hashString_splits fitsG.name fitsH.name)
  have usrId := name.append (fun _ => hashInteger_splits g.usrId h.usrId)
  have returnType := usrId.append (fun _ => hashString_splits fitsG.returnType fitsH.returnType)
  have canonicalReturnType := returnType.append
    (fun _ => hashString_splits fitsG.canonicalReturnType fitsH.canonicalReturnType)
  have variadic := canonicalReturnType.append (fun _ => hashBool_splits g.variadic h.variadic)
  have count := variadic.append (fun _ => hashNat_splits fitsG.count fitsH.count)
  have parameters := count.append
    (fun all => hashParameters_splits all.2 fitsG.count fitsG.parameters fitsH.parameters)
  refine parameters.weaken (fun all => ?_)
  obtain ⟨⟨⟨⟨⟨⟨⟨_,name⟩,usrId⟩,returnType⟩,canonicalReturnType⟩,variadic⟩,_⟩,parameters⟩ := all
  exact ⟨name,usrId,returnType,canonicalReturnType,variadic,parameters⟩

-- the leading integer tells symbols, uses and signatures apart
def Item.tag : Item → Nat
  | .symbol _ => 0
  | .use _ => 1
  | .signature _ => 2

theorem hashItem_tag (item : Item) : hashNat item.tag <+: hashItem item := by
  cases item with
  | symbol s =>
    unfold hashItem hashSymbol
    iterate 17 apply List.prefix_append_of_prefix
    exact List.prefix_rfl
  | use u =>
    unfold hashItem hashUse
    iterate 17 apply List.prefix_append_of_prefix
    exact List.prefix_rfl
  | signature g =>
    unfold hashItem hashFunctionSignature
    iterate 7 apply List.prefix_append_of_prefix
    exact List.prefix_rfl

theorem hashItem_present (item : Item) : hashItem item ≠ [] := by
  intro empty
  have length := (hashItem_tag item).length_le
  rw [empty,hashNat,hashInteger_length,List.length_nil] at length
  omega

theorem tag_small (item : Item) : item.tag < 2^64 := by
  have few : item.tag < 3 := by cases item <;> simp [Item.tag]
  omega

theorem hashItem_apart {a b : Item} (apart : a.tag ≠ b.tag) (same : Prop) :
    Splits (hashItem a) (hashItem b) same := by
  intro s t equal
  obtain ⟨restA,shapeA⟩ := hashItem_tag a
  obtain ⟨restB,shapeB⟩ := hashItem_tag b
  rw [← shapeA,← shapeB,List.append_assoc,List.append_assoc] at equal
  exact absurd (hashNat_splits (tag_small a) (tag_small b) _ _ equal).1 apart

theorem hashItem_splits {a b : Item} (fitsA : a.Fits) (fitsB : b.Fits) :
    Splits (hashItem a) (hashItem b) (a.Agrees b) := by
  cases a with
  | symbol s =>
    cases b with
    | symbol t => exact hashSymbol_splits fitsA fitsB
    | use u => exact hashItem_apart (by simp [Item.tag]) _
    | signature g => exact hashItem_apart (by simp [Item.tag]) _
  | use u =>
    cases b with
    | symbol t => exact hashItem_apart (by simp [Item.tag]) _
    | use v => exact hashUse_splits fitsA fitsB
    | signature g => exact hashItem_apart (by simp [Item.tag]) _
  | signature g =>
    cases b with
    | symbol t => exact hashItem_apart (by simp [Item.tag]) _
    | use u => exact hashItem_apart (by simp [Item.tag]) _
    | signature h => exact hashFunctionSignature_splits fitsA fitsB

end Items

section Stream

def streamAt (states : List FileFingerprintState) (includeLocal : Bool) (i : Nat) : List UInt8 :=
  (states[i]?.map (fun state => state.stream includeLocal)).getD []

/-- The bytes hashed for a file are the encodings of its items in order. -/
theorem stream_items (index : Index) (includeLocal : Bool) (i : Nat) :
    streamAt (fingerprintStates index) includeLocal i = (index.fileItems i includeLocal).flatMap hashItem := by
  rw [streamAt,fingerprintStates_feed]
  cases found : index.files[i]? with
  | some file =>
    have state := fileItems_fingerprint index i includeLocal
    rw [plainHash_eq] at state
    exact (PlainHash.mk.inj state).1
  | none =>
    have beyond := List.getElem?_eq_none_iff.mp found
    have none : index.fileItems i includeLocal = [] := by
      refine List.filter_eq_nil_iff.mpr (fun item member here => ?_)
      have inside := index.items_located item member
      have same := of_decide_eq_true (Bool.and_eq_true_iff.mp here).1
      omega
    rw [none]
    rfl

/-- Equal streams are read as the same items, up to what the encodings leave out. -/
theorem items_of_stream {A B : Index} {i j : Nat} {includeLocal : Bool}
    (fitsA : ∀ item ∈ A.items, item.Fits) (fitsB : ∀ item ∈ B.items, item.Fits)
    (equal : streamAt (fingerprintStates A) includeLocal i = streamAt (fingerprintStates B) includeLocal j) :
    List.Forall₂ (fun a b => a ∈ A.fileItems i includeLocal ∧ b ∈ B.fileItems j includeLocal ∧ a.Agrees b)
      (A.fileItems i includeLocal) (B.fileItems j includeLocal) := by
  rw [stream_items,stream_items] at equal
  apply forall₂_of_stream _ hashItem_present equal
  intro a memberA b memberB
  have splits := hashItem_splits (fitsA a (List.mem_of_mem_filter memberA)) (fitsB b (List.mem_of_mem_filter memberB))
  exact splits.weaken (fun agree => ⟨memberA,memberB,agree⟩)

end Stream

end Semindex
