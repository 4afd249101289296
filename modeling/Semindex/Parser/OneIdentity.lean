import Semindex.Parser.DeclIdentity

/-! One identity for each declaration. The items of a declaration that are stored
in one form have one identity, and the queries that start from a use of it return
all of them. -/
namespace Semindex.Parser
open Semindex.Relational Semindex.Graph Semindex.IndexDb Semindex.Database Semindex.Lsp

section Returned
variable (db : Db) (cursor : DbRecord) (filter : RecordFilter) (row : RecordRow)

def nameOptions : QueryOptions :=
  { symbol := some cursor.symbol, variant := some cursor.variant, record := filter, kind := some cursor.kind }

/-- The queries by the identity and by the name of the cursor both return the row. -/
structure Returned : Prop where
  byIdentity : ∃ records, collected (semindexDbQueryIdentity db {identity := identityOf cursor, record := filter}) =
    some records ∧ dbRecord row ∈ records
  byName : ∃ records, collected (semindexDbQuery db (nameOptions cursor filter)) = some records ∧
    dbRecord row ∈ records

variable {db cursor filter row}

theorem nameOptions_whole : Whole (nameOptions cursor filter) cursor.symbol cursor.variant := ⟨rfl,rfl,rfl,rfl,rfl⟩

theorem mem_answer {opts : QueryOptions} {symbol variant : Text} (whole : Whole opts symbol variant) :
    (∃ records, collected (semindexDbQuery db opts) = some records ∧ dbRecord row ∈ records) ↔
      ∃ found ∈ joinedRecords db, (glob symbol found.key.symbol = true ∧ glob variant found.variant = true ∧
        opts.selectsOther found = true) ∧ dbRecord found = dbRecord row := by
  have one (found : RecordRow) : opts.selects found = true ↔ glob symbol found.key.symbol = true ∧
      glob variant found.variant = true ∧ opts.selectsOther found = true := by
    have selected := @selected_iff opts none _ _ whole found
    simpa [queries] using selected
  have answered := @answered_by_query db opts none _ _ whole (dbRecord row)
  simp only [queries,List.mem_singleton,exists_eq_left,one] at answered
  rw [collected_whole whole,← answered]
  simp [queries]

theorem nameOptions_selectsOther {found : RecordRow} : (nameOptions cursor filter).selectsOther found = true ↔
    filter.admits found.key = true ∧ found.key.kind = cursor.kind := by
  simp [QueryOptions.selectsOther,nameOptions]

theorem identity_selectsOther {identity : Identity} {found : RecordRow} :
    (IdentityQuery.options {identity, record := filter}).selectsOther found = true ↔
      filter.admits found.key = true ∧ found.key.kind = identity.kind ∧ found.value.usrId = some identity.usrId := by
  simp [QueryOptions.selectsOther,IdentityQuery.options,and_assoc]

/-- A stored row is returned just where the identity is one, the strings match and the kinds and ids agree. -/
theorem returned_iff (member : row ∈ joinedRecords db) (admitted : filter.admits row.key = true) :
    Returned db cursor filter row ↔ ((identityOf cursor).Named ∧ cursor.kind ≤ SymbolKind.template.code) ∧
      glob cursor.symbol row.key.symbol = true ∧ glob cursor.variant row.variant = true ∧
        row.key.kind = cursor.kind ∧ row.value.usrId = some cursor.usrId := by
  constructor
  · intro returned
    obtain ⟨records,found,inside⟩ := returned.byIdentity
    rw [collected_identity] at found
    split at found
    · rename_i accepted
      obtain ⟨other,_,⟨bySymbol,byVariant,rest⟩,same⟩ := (mem_answer identity_whole).mp ⟨records,found,inside⟩
      obtain ⟨_,kind,usrId⟩ := identity_selectsOther.mp rest
      have symbols : other.key.symbol = row.key.symbol := congrArg DbRecord.symbol same
      have variants : other.variant = row.variant := congrArg DbRecord.variant same
      have kinds : other.key.kind = row.key.kind := congrArg DbRecord.kind same
      have ids : other.value.usrId.getD 0 = row.value.usrId.getD 0 := congrArg DbRecord.usrId same
      rw [symbols] at bySymbol
      rw [variants] at byVariant
      rw [kinds] at kind
      rw [usrId,Option.getD_some] at ids
      refine ⟨accepted,bySymbol,byVariant,kind,?_⟩
      -- a missing id reads as 0, which is no identity
      cases stored : row.value.usrId with
      | none =>
        rw [stored] at ids
        exact (accepted.1.2.2 ids).elim
      | some id =>
        rw [stored] at ids
        exact congrArg some ids.symm
    · cases found
  · intro ⟨accepted,bySymbol,byVariant,kind,usrId⟩
    refine ⟨?_,?_⟩
    · have answer := @collected_identity db {identity := identityOf cursor, record := filter}
      dsimp only at answer
      rw [if_pos (by exact accepted)] at answer
      rw [answer]
      refine (mem_answer identity_whole).mpr ⟨row,member,⟨bySymbol,byVariant,?_⟩,rfl⟩
      exact identity_selectsOther.mpr ⟨admitted,kind,usrId⟩
    · exact (mem_answer nameOptions_whole).mpr
        ⟨row,member,⟨bySymbol,byVariant,nameOptions_selectsOther.mpr ⟨admitted,kind⟩⟩,rfl⟩

end Returned

section Identity
variable (v : Visitor) (unit : Forest Part) (variant : Text) (stored : Text → Text)

-- a symbol or a use of the declaration that the index keeps
structure Visitor.ItemOf (d : DeclId) (e : Emission) (identity : ItemIdentity) : Prop where
  offered : e ∈ v.traverseDecl unit
  inside : e.inScope = true
  entity : v.ast.entity e.reference = some d
  item : e.item.identity = some identity

/-- All items of a declaration have one identity, and from each stored use of it both queries get to all of its
stored rows. -/
structure Visitor.OneIdentity : Prop where
  same : ∀ {d e e' identity identity'}, v.ItemOf unit d e identity → v.ItemOf unit d e' identity' →
    identity = identity'
  returned : ∀ {d e e' identity identity' u}, v.ItemOf unit d e identity → e.item = .use u →
    v.ItemOf unit d e' identity' → ∀ db row row' filter, row ∈ joinedRecords db → row' ∈ joinedRecords db →
      e.item.row variant stored v.hash = some row → e'.item.row variant stored v.hash = some row' →
        filter.admits row'.key = true → Returned db (dbRecord row) filter row'

/-- The identity that a query accepts, and that matches itself as a pattern. -/
def Queryable (hash : Text → Id) (variant : Text) (identity : ItemIdentity) : Prop :=
  variant ≠ [] ∧ glob variant variant = true ∧ identity.symbol ≠ [] ∧ glob identity.symbol identity.symbol = true ∧
    usrHash hash identity.usr ≠ 0

instance (hash : Text → Id) (variant : Text) (identity : ItemIdentity) : Decidable (Queryable hash variant identity) :=
  inferInstanceAs (Decidable (_ ∧ _ ∧ _ ∧ _ ∧ _))

def Ast.formIdentity (ast : Ast) : Form → ItemIdentity
  | .own (.entity c) => ast.ownIdentity c
  | .named name (.entity c) =>
    let own := ast.ownIdentity c
    if own.kind = .field then ⟨qualifiedName (':'::name) (ast.getName c),.field,own.usr⟩ else ⟨':'::name,own.kind,own.usr⟩
  | .closure (.entity c) => ⟨"__lambda".toList,.lambda,(ast.ownIdentity c).usr⟩
  | .own (.bare identity) => identity
  | .named _ (.bare identity) => identity
  | .closure (.bare identity) => identity

/-- The items of a declaration are stored in one form, whose identity the queries accept where it has uses. -/
structure Visitor.OneForm : Prop where
  one : ∀ {d e e' identity identity' form form'}, v.ItemOf unit d e identity → v.ItemOf unit d e' identity' →
    v.StoredAs unit e form → v.StoredAs unit e' form' → form = form'
  queryable : ∀ {d e identity u form}, v.ItemOf unit d e identity → e.item = .use u → v.StoredAs unit e form →
    Queryable v.hash variant (v.ast.formIdentity form)

variable {v unit variant stored}

theorem formIdentity_own (promises : v.ast.Promises) (t : DeclId) :
    v.ast.formIdentity (.own (v.ast.key t)) = v.ast.ownIdentity t := by
  unfold Ast.key
  split
  · rfl
  · exact (promises.redeclared t).1

theorem formIdentity_named (promises : v.ast.Promises) {d : DeclId} {name : Text}
    (known : v.ast.getName d ≠ [] ∨ v.ast.isRecord d = true) : v.ast.formIdentity (.named name (v.ast.key d)) =
      if (v.ast.ownIdentity d).kind = .field then
        ⟨qualifiedName (':'::name) (v.ast.getName d),.field,(v.ast.ownIdentity d).usr⟩
      else ⟨':'::name,(v.ast.ownIdentity d).kind,(v.ast.ownIdentity d).usr⟩ := by
  rw [key_identified promises known,← (promises.redeclared d).1,← (promises.redeclared d).2]
  rfl

theorem formIdentity_closure (promises : v.ast.Promises) {d : DeclId} (isRecord : v.ast.isRecord d = true) :
    v.ast.formIdentity (.closure (v.ast.key d)) = ⟨"__lambda".toList,.lambda,(v.ast.ownIdentity d).usr⟩ := by
  rw [key_identified promises (.inr isRecord),← (promises.redeclared d).1]
  rfl

theorem carries_identity {entity : Option DeclId} {form : Form} {identity : ItemIdentity} (promises : v.ast.Promises)
    (carries : v.ast.Carries entity form identity) : identity = v.ast.formIdentity form := by
  cases carries with
  | own known => exact (formIdentity_own promises _).symm
  | record plain isRecord known =>
    rw [formIdentity_named promises (.inr isRecord),isRecord_own isRecord,ownIdentity_usr,
      if_neg (recordKind_type _).2.1]
  | field plain isField named known =>
    rw [formIdentity_named promises (.inl named),ownIdentity_usr,if_pos (isField_kind isField).2.2]
  | closure isRecord known => rw [formIdentity_closure promises isRecord,ownIdentity_usr]

-- the columns of an item that its identity decides
theorem row_identity {item : SemindexItem} {identity : ItemIdentity} {row : RecordRow} {hash : Text → Id}
    (known : item.identity = some identity) (same : item.row variant stored hash = some row) :
    row.variant = variant ∧ row.key.symbol = identity.symbol ∧ row.key.kind = identity.kind.code ∧
      row.value.usrId = optionalId identity.usr (usrHash hash identity.usr) := by
  cases item with
  | symbol s =>
    obtain rfl := Option.some.inj known
    obtain rfl := Option.some.inj same
    exact ⟨rfl,rfl,rfl,rfl⟩
  | use u =>
    obtain rfl := Option.some.inj known
    obtain rfl := Option.some.inj same
    exact ⟨rfl,rfl,rfl,rfl⟩
  | signature g => cases known

theorem optionalId_some {hash : Text → Id} {usr : Text} : ∀ id, id ≠ 0 →
    (optionalId usr (usrHash hash usr) = some id ↔ usrHash hash usr = id) := by
  intro id present
  unfold optionalId
  split
  · rename_i empty
    simp only [usrHash,empty,if_true]
    exact ⟨fun absurd => (Option.some_ne_none _ absurd.symm).elim,fun same => (present same.symm).elim⟩
  · exact Option.some_inj

/-- The queries from a use return a row of the same identity just where they accept it. -/
theorem returned_queryable {e e' : Emission} {identity : ItemIdentity} {hash : Text → Id} {db : Db} {row row' : RecordRow}
    {filter : RecordFilter} (member : row' ∈ joinedRecords db) (admitted : filter.admits row'.key = true)
    (item : e.item.identity = some identity) (item' : e'.item.identity = some identity)
    (columns : e.item.row variant stored hash = some row) (columns' : e'.item.row variant stored hash = some row') :
    Returned db (dbRecord row) filter row' ↔ Queryable hash variant identity := by
  obtain ⟨variants,symbols,kinds,ids⟩ := row_identity item columns
  obtain ⟨variants',symbols',kinds',ids'⟩ := row_identity item' columns'
  rw [returned_iff member admitted,variants',symbols',kinds',ids']
  have usr : (dbRecord row).usrId = usrHash hash identity.usr := by
    change row.value.usrId.getD 0 = _
    rw [ids]
    unfold optionalId usrHash
    split <;> rfl
  have named : (identityOf (dbRecord row)).Named ↔ variant ≠ [] ∧ identity.symbol ≠ [] ∧ usrHash hash identity.usr ≠ 0 := by
    unfold Identity.Named identityOf
    rw [usr,← variants,← symbols]
    rfl
  rw [named,usr]
  have code : (dbRecord row).kind = identity.kind.code := kinds
  have symbol : (dbRecord row).symbol = identity.symbol := symbols
  have own : (dbRecord row).variant = variant := variants
  rw [code,symbol,own]
  constructor
  · intro ⟨⟨⟨hasVariant,hasSymbol,hasUsr⟩,_⟩,bySymbol,byVariant,_,_⟩
    exact ⟨hasVariant,byVariant,hasSymbol,bySymbol,hasUsr⟩
  · intro ⟨hasVariant,byVariant,hasSymbol,bySymbol,hasUsr⟩
    exact ⟨⟨⟨hasVariant,hasSymbol,hasUsr⟩,code_le_template identity.kind⟩,bySymbol,byVariant,rfl,
      (optionalId_some _ hasUsr).mpr rfl⟩

/-- The items of every declaration have one identity and are found from its uses just where they are stored in one
form and the queries accept it. -/
theorem one_identity_iff (promises : v.ast.Promises) (typed : v.Typed unit) (details : v.details = true) :
    v.OneIdentity unit variant stored ↔ v.OneForm unit variant := by
  constructor
  · intro shared
    refine ⟨?_,?_⟩
    · intro d e e' identity identity' form form' ofE ofE' asForm asForm'
      exact (identity_form_iff promises typed details asForm asForm' (ofE.entity.trans ofE'.entity.symm) ofE.item
        ofE'.item).mp (shared.same ofE ofE')
    · intro d e identity u form ofE use asForm
      have carries := storedAs_carries promises typed details asForm ofE.item
      rw [← carries_identity promises carries]
      obtain ⟨row,columns⟩ : ∃ row, e.item.row variant stored v.hash = some row := by
        rw [use]
        exact ⟨_,rfl⟩
      have member : row ∈ joinedRecords (Db.holding row) := List.mem_singleton.mpr rfl
      exact (returned_queryable member rfl ofE.item ofE.item columns columns).mp
        (shared.returned ofE use ofE (Db.holding row) row row .all member member columns columns rfl)
  · intro forms
    have same {d e e' identity identity'} (ofE : v.ItemOf unit d e identity) (ofE' : v.ItemOf unit d e' identity') :
        identity = identity' := by
      obtain ⟨form,asForm⟩ := storedAs_exists ofE.offered
      obtain ⟨form',asForm'⟩ := storedAs_exists ofE'.offered
      exact (identity_form_iff promises typed details asForm asForm' (ofE.entity.trans ofE'.entity.symm) ofE.item
        ofE'.item).mpr (forms.one ofE ofE' asForm asForm')
    refine ⟨same,?_⟩
    intro d e e' identity identity' u ofE use ofE' db row row' filter _ member columns columns' admitted
    obtain ⟨form,asForm⟩ := storedAs_exists ofE.offered
    have accepted := forms.queryable ofE use asForm
    rw [← carries_identity promises (storedAs_carries promises typed details asForm ofE.item)] at accepted
    have item' : e'.item.identity = some identity := (same ofE ofE') ▸ ofE'.item
    exact (returned_queryable member admitted ofE.item item' columns columns').mpr accepted

end Identity

section Settled
variable {v : Visitor} {unit : Forest Part} {e : Emission}

theorem offered_member {current : CurrentFunction} {seen : Seen} {slot : Slot} {around : List Part} {node : Node}
    {field : DeclId} {base : MemberBase} (details : v.details = true)
    (mentions : v.Mentions current seen slot around node e) (reference : e.reference = .member field base) :
    ∃ arrow loc isFunctionType, node = .member field arrow base loc isFunctionType := by
  have call {callee : DeclId} {loc : SourceLocation} (member : e ∈ v.addFunctionCall current callee loc) : False := by
    rw [Visitor.addFunctionCall] at member
    split at member
    · cases member
    · dsimp only at member
      split at member
      · rw [List.mem_singleton.mp member] at reference
        cases reference
      · rw [List.mem_singleton.mp member] at reference
        cases reference
  have type {seen : Seen} {d : DeclId} {kind : SymbolKind} {loc : SourceLocation} {type : Text}
      (member : e ∈ (v.addTypeUse current seen d kind loc type).1) : False := by
    rw [(typeUse_identity details member).1] at reference
    cases reference
  cases mentions with
  | @member field' arrow base' loc isFunctionType named =>
    obtain ⟨rfl,rfl⟩ := Reference.member.inj reference
    exact ⟨arrow,loc,isFunctionType,rfl⟩
  | aliasUse aliased member =>
    rw [Visitor.addAliasUse] at member
    split at member
    · cases member
    · split at member
      · cases member
      · rw [List.mem_singleton.mp member] at reference
        cases reference
  | cleanup isVar member =>
    rw [Visitor.addCleanupCall] at member
    split at member
    · cases member
    · exact (call member).elim
  | variableWrite isVar kept initialized => cases reference
  | reference kind recorded classified => cases reference
  | designated listed isField named => cases reference
  | promoted listed isField initialized member =>
    obtain ⟨indirect,_,rfl⟩ := List.mem_map.mp member
    cases reference
  | call member => exact (call member).elim
  | construct member => exact (call member).elim
  | newType member => exact (type member).elim
  | deleteType member => exact (type member).elim
  | typedefUse member => exact (type member).elim
  | recordUse named member => exact (type member).elim
  | enumUse named member => exact (type member).elim

theorem declares_reference {current : CurrentFunction} {seen : Seen} {node : Node} {field : DeclId} {base : MemberBase}
    (declares : v.Declares current seen node e) : e.reference ≠ .member field base := by
  intro reference
  cases declares with
  | record names member =>
    rw [Visitor.addAnonymousRecordSymbols] at member
    rcases List.mem_cons.mp member with rfl | inside
    · cases reference
    · split at inside
      · cases inside
      · obtain ⟨f,_,rfl⟩ := List.mem_map.mp inside
        cases reference
  | enum isEnum member =>
    rw [Visitor.visitEnumDecl] at member
    split at member
    · cases member
    · rw [List.mem_singleton.mp member] at reference
      cases reference
  | variableSymbol | field | typedef | recordSymbol | indirect | enumConstant | function | signature => cases reference

/-- What is stored for itself: no record is named after a variable or a typedef, no lambda is called, there are no
instantiations, and the fields of anonymous records are the promoted ones. -/
structure Visitor.Settled (v : Visitor) (unit : Forest Part) : Prop where
  unnamed : ∀ {current d r}, ¬ v.NamesRecord current d r
  direct : ∀ callee, v.lambdaCallee callee = none
  primary : ∀ d, v.ast.isSpecialization (v.ast.declContext d) = false
  pattern : ∀ d, v.ast.pattern d = d
  promoted : ∀ {before after part around field arrow base loc isFunctionType},
    unit.visits [] = before ++ (part,around)::after → part.node = .member field arrow base loc isFunctionType →
      v.ast.denoted (.member field base) = some (v.taken before (.member field base))

theorem Visitor.Settled.stored (settled : v.Settled unit) (details : v.details = true) {form : Form} {d : DeclId}
    (stored : v.StoredAs unit e form) (entity : v.ast.entity e.reference = some d) :
    ∃ t, form = .own (v.ast.key t) ∧ (v.ast.decl t).canonical = d := by
  cases stored with
  | named reached node names => exact (settled.unnamed names).elim
  | closure reached node names => exact (settled.unnamed names).elim
  | @lambdaCall part around callee closure loc _ visited call lambda =>
    rw [settled.direct callee] at lambda
    cases lambda
  | @own before after part around _ order offered unnamed direct =>
    refine ⟨_,rfl,?_⟩
    have denoted : v.ast.denoted e.reference = some (v.taken before e.reference) := by
      cases reference : e.reference with
      | decl t =>
        change some t = some (v.ast.namesake t)
        rw [namesake_primary (settled.primary t)]
      | member field base =>
        have node : ∃ arrow loc isFunctionType, part.node = .member field arrow base loc isFunctionType := by
          rcases visit_offers offered with declares | mentions
          · exact (declares_reference declares reference).elim
          · exact offered_member details mentions reference
        obtain ⟨arrow,loc,isFunctionType,node⟩ := node
        exact settled.promoted order node
      | named name =>
        rw [reference] at entity
        cases entity
    rw [Ast.entity,denoted,Option.map_some,settled.pattern] at entity
    exact Option.some.inj entity

theorem key_canonical (promises : v.ast.Promises) {d e : DeclId} (same : (v.ast.decl d).canonical = (v.ast.decl e).canonical) :
    v.ast.key d = v.ast.key e := by
  have own := (promises.identity_eq same).1
  have usr : (v.ast.decl d).usr = (v.ast.decl e).usr := by
    rw [← ownIdentity_usr,own,ownIdentity_usr]
  unfold Ast.key
  rw [usr,own,same]

/-- A unit of which every declaration is stored for itself has one form for each. -/
theorem Visitor.Settled.one (settled : v.Settled unit) (promises : v.ast.Promises) (details : v.details = true)
    {d : DeclId} {e e' : Emission} {identity identity' : ItemIdentity} {form form' : Form}
    (ofE : v.ItemOf unit d e identity) (ofE' : v.ItemOf unit d e' identity') (stored : v.StoredAs unit e form)
    (stored' : v.StoredAs unit e' form') : form = form' := by
  obtain ⟨t,rfl,same⟩ := settled.stored details stored ofE.entity
  obtain ⟨t',rfl,same'⟩ := settled.stored details stored' ofE'.entity
  rw [key_canonical promises (same.trans same'.symm)]

end Settled

section Samples

-- `struct { int x; } v; int *p = &v.x;`
def namedDecls : List Decl := [
  { declClass := .other, name := [], canonical := 0, location := 0 },
  { declClass := .record ⟨false,true,8,[2],none⟩, name := [], usr := "c:@Sa@v".toList, contexts := [0], canonical := 1,
    location := 1 },
  { declClass := .field ⟨intType,none⟩, name := "x".toList, usr := "c:@Sa@v@FI@x".toList, contexts := [1,0],
    canonical := 2, location := 14 },
  { declClass := .var ⟨⟨⟨"struct (unnamed)".toList,false,none⟩,⟨"struct (unnamed)".toList,false,none⟩,some 1,false⟩,none,
      false,false,none⟩, name := "v".toList, usr := "c:@v".toList, contexts := [0], canonical := 3, location := 19,
    linkage := .external },
  { declClass := .var ⟨intType,none,false,true,none⟩, name := "p".toList, usr := "c:@p".toList, contexts := [0],
    canonical := 4, location := 27, linkage := .external }]

def named : Visitor where
  ast := Ast.ofDecls namedDecls (SourceManager.ofText "a.c".toList "struct { int x; } v; int *p = &v.x;".toList) (by decide)
  scope := .project
  details := true
  includeLocal := true
  hash := textHash

def namedUnit : Forest Part :=
  .node ⟨.other,.decl 1⟩ (.node ⟨.other,.decl 2⟩ .nil .nil) (.node ⟨.other,.decl 3⟩ .nil (.node ⟨.other,.decl 4⟩
    (.node ⟨.other,.addressOf⟩ (.node ⟨.other,.member 2 false (.value (some 1)) 34 false⟩
      (.node ⟨.base,.declRef 3 32 false⟩ .nil .nil) .nil) .nil) .nil))

/-- The field has its symbol under the name of the variable, and the use of it has not. -/
theorem named_field_apart : (∃ e s, named.ItemOf namedUnit 2 e ⟨":v.x".toList,.field,"c:@Sa@v@FI@x".toList⟩ ∧
      e.item = .symbol s) ∧
    (∃ e u, named.ItemOf namedUnit 2 e ⟨"x".toList,.field,"c:@Sa@v@FI@x".toList⟩ ∧ e.item = .use u) ∧
    ¬ named.OneIdentity namedUnit "general".toList id := by
  have symbol : ∃ e s, named.ItemOf namedUnit 2 e ⟨":v.x".toList,.field,"c:@Sa@v@FI@x".toList⟩ ∧
      e.item = .symbol s := ⟨_,_,⟨List.mem_of_getElem? (i := 1) rfl,rfl,rfl,rfl⟩,rfl⟩
  have use : ∃ e u, named.ItemOf namedUnit 2 e ⟨"x".toList,.field,"c:@Sa@v@FI@x".toList⟩ ∧ e.item = .use u :=
    ⟨_,_,⟨List.mem_of_getElem? (i := 5) rfl,rfl,rfl,rfl⟩,rfl⟩
  refine ⟨symbol,use,?_⟩
  intro shared
  obtain ⟨_,_,first,_⟩ := symbol
  obtain ⟨_,_,second,_⟩ := use
  exact absurd (shared.same first second) (by decide)

-- `struct S { union { int a; }; } s; int *p = &s.a;`
def promotedDecls : List Decl := [
  Decl.none,
  { declClass := .record ⟨true,true,18,[2],none⟩, name := [], usr := "c:@S@S@Ua".toList, contexts := [5,0],
    canonical := 1, location := 12 },
  { declClass := .field ⟨intType,none⟩, name := "a".toList, usr := "c:@S@S@Ua@FI@a".toList, contexts := [1,5,0],
    canonical := 2, location := 24 },
  { declClass := .field ⟨⟨⟨"union (unnamed)".toList,false,none⟩,⟨"union (unnamed)".toList,false,none⟩,some 1,false⟩,none⟩,
    name := [], usr := [], contexts := [5,0], canonical := 3, location := 12 },
  { declClass := .indirectField ⟨[3,2],2,intType⟩, name := "a".toList, usr := "c:@S@S@a".toList, contexts := [5,0],
    canonical := 4, location := 24 },
  { declClass := .record ⟨false,true,10,[1,3,4],none⟩, name := "S".toList, usr := "c:@S@S".toList, contexts := [0],
    canonical := 5, location := 8 },
  { declClass := .var ⟨⟨⟨"struct S".toList,false,none⟩,⟨"struct S".toList,false,none⟩,some 5,false⟩,none,false,false,none⟩,
    name := "s".toList, usr := "c:@s".toList, contexts := [0], canonical := 6, location := 32, linkage := .external },
  { declClass := .var ⟨intType,none,false,true,none⟩, name := "p".toList, usr := "c:@p".toList, contexts := [0],
    canonical := 7, location := 40, linkage := .external }]

def promoted : Visitor where
  ast := Ast.ofDecls promotedDecls (SourceManager.ofText "a.c".toList
    "struct S { union { int a; }; } s; int *p = &s.a;".toList) (by decide)
  scope := .project
  details := true
  includeLocal := true
  hash := textHash

def promotedUnit : Forest Part :=
  .node ⟨.other,.decl 5⟩ (.node ⟨.other,.decl 1⟩ (.node ⟨.other,.decl 2⟩ .nil .nil) (.node ⟨.other,.decl 3⟩ .nil
    (.node ⟨.other,.decl 4⟩ .nil .nil))) (.node ⟨.other,.decl 6⟩ .nil (.node ⟨.other,.decl 7⟩
      (.node ⟨.other,.addressOf⟩ (.node ⟨.other,.member 2 false (.member 3 (some 1) (.value (some 5))) 47 false⟩
        (.node ⟨.base,.member 3 false (.value (some 5)) 47 false⟩ (.node ⟨.base,.declRef 6 45 false⟩ .nil .nil) .nil)
          .nil) .nil) .nil))

theorem decl_congr {ast : Ast} {d e : DeclId} (same : ast.decl d = ast.decl e) :
    ast.ownIdentity d = ast.ownIdentity e ∧ ast.getName d = ast.getName e ∧ ast.isRecord d = ast.isRecord e ∧
      ast.isFunction d = ast.isFunction e ∧ ast.pattern d = (ast.decl e).instantiatedFrom.getD d := by
  simp only [Ast.ownIdentity,Ast.qualifiedRecordName,Ast.qualifiedEnumName,Ast.qualifiedTypeName,Ast.namespacePrefix,
    Ast.recordKindForDecl,Ast.getName,Ast.getOwnerName,Ast.hasRecordOwner,Ast.declContext,Ast.symbolKindForDecl,
    Ast.isRecord,Ast.record?,Ast.isFunction,Ast.function?,Ast.pattern,same]
  trivial

-- beyond the list all declarations are the first one
theorem promoted_listed (d : DeclId) : ∃ k < 8, promoted.ast.decl d = promoted.ast.decl k ∧ (k = d ∨ k = 0) := by
  by_cases inside : d < 8
  · exact ⟨d,inside,rfl,.inl rfl⟩
  · refine ⟨0,by decide,?_,.inr rfl⟩
    have absent : promotedDecls[d]? = none := List.getElem?_eq_none (Nat.le_of_not_lt inside)
    change promotedDecls[d]?.getD .none = Decl.none
    rw [absent,Option.getD_none]

theorem promoted_promises : promoted.ast.Promises where
  redeclared d := by
    obtain ⟨k,inside,same,_⟩ := promoted_listed d
    obtain ⟨own,name,_⟩ := decl_congr same
    rw [own,name,same]
    exact (by decide : ∀ k < 8, promoted.ast.ownIdentity (promoted.ast.decl k).canonical = promoted.ast.ownIdentity k ∧
      promoted.ast.getName (promoted.ast.decl k).canonical = promoted.ast.getName k) k inside
  distinct d e usr known one := by
    obtain ⟨k,inside,same,_⟩ := promoted_listed d
    obtain ⟨l,inside',same',_⟩ := promoted_listed e
    rw [same,same'] at usr
    rw [same] at known
    rw [same,same']
    exact (by decide : ∀ k < 8, ∀ l < 8, (promoted.ast.decl k).usr = (promoted.ast.decl l).usr →
      (promoted.ast.decl k).usr ≠ [] → (promoted.ast.decl k).canonical = (promoted.ast.decl l).canonical) k inside l
        inside' usr known
  identified d known := by
    obtain ⟨k,inside,same,_⟩ := promoted_listed d
    obtain ⟨_,name,isRecord,_⟩ := decl_congr same
    rw [name,isRecord] at known
    rw [same]
    exact (by decide : ∀ k < 8, promoted.ast.getName k ≠ [] ∨ promoted.ast.isRecord k = true →
      (promoted.ast.decl k).usr ≠ []) k inside known
  plain d colon := by
    obtain ⟨k,inside,same,_⟩ := promoted_listed d
    obtain ⟨_,name,_,function,_⟩ := decl_congr same
    rw [name] at colon
    rw [function]
    exact (by decide : ∀ k < 8, ':' ∈ promoted.ast.getName k → promoted.ast.isFunction k = true) k inside colon

theorem promoted_nodes {part : Part} {around : List Part} (visited : (part,around) ∈ promotedUnit.visits []) :
    (∃ d, part.node = .decl d) ∨ part.node = .addressOf ∨
      part.node = .member 2 false (.member 3 (some 1) (.value (some 5))) 47 false ∨
        part.node = .member 3 false (.value (some 5)) 47 false ∨ part.node = .declRef 6 45 false := by
  simp only [promotedUnit,Forest.visits,List.mem_cons,List.not_mem_nil,or_false,Prod.mk.injEq,List.cons_append,
    List.nil_append] at visited
  rcases visited with ⟨rfl,_⟩ | ⟨rfl,_⟩ | ⟨rfl,_⟩ | ⟨rfl,_⟩ | ⟨rfl,_⟩ | ⟨rfl,_⟩ | ⟨rfl,_⟩ | ⟨rfl,_⟩ | ⟨rfl,_⟩ | ⟨rfl,_⟩ |
    ⟨rfl,_⟩
  all_goals first | exact .inl ⟨_,rfl⟩ | simp

-- no variable has a cleanup or an anonymous record, and there are no typedefs
def promotedPlain (d : DeclId) : Bool :=
  match (promoted.ast.decl d).declClass with
  | .var var => var.cleanup.isNone && (promoted.variableRecord var).isNone
  | .typedef _ => false
  | _ => true

theorem promoted_plain (d : DeclId) : promotedPlain d = true := by
  obtain ⟨k,inside,same,_⟩ := promoted_listed d
  unfold promotedPlain
  rw [same]
  exact (by decide : ∀ k < 8, promotedPlain k = true) k inside

theorem promoted_var {d : DeclId} {var : VarDecl} (isVar : (promoted.ast.decl d).declClass = .var var) :
    var.cleanup = none ∧ promoted.variableRecord var = none := by
  have plain := promoted_plain d
  unfold promotedPlain at plain
  rw [isVar] at plain
  simpa using plain

theorem promoted_unnamed {current : CurrentFunction} {d r : DeclId} : ¬ promoted.NamesRecord current d r := by
  intro names
  cases names with
  | ofVariable isVar recorded named =>
    rw [(promoted_var isVar).2] at named
    cases named
  | ofTypedef isTypedef recorded named =>
    have plain := promoted_plain d
    unfold promotedPlain at plain
    rw [isTypedef] at plain
    cases plain

theorem promoted_typed : promoted.Typed promotedUnit := by
  have others {part : Part} {around : List Part} (visited : (part,around) ∈ promotedUnit.visits []) {node : Node}
      (same : part.node = node) : (∃ d, node = .decl d) ∨ node = .addressOf ∨
        node = .member 2 false (.member 3 (some 1) (.value (some 5))) 47 false ∨
          node = .member 3 false (.value (some 5)) 47 false ∨ node = .declRef 6 45 false := same ▸ promoted_nodes visited
  refine ⟨?_,?_,?_,?_,?_,?_,?_,?_⟩
  · intro part around d loc isFunctionType visited node
    rcases others visited node with ⟨_,same⟩ | same | same | same | same <;> cases same
    rfl
  · intro part around d arrow base loc isFunctionType visited node
    rcases others visited node with ⟨_,same⟩ | same | same | same | same <;> cases same
    · rfl
    · rfl
  · intro part around callee loc visited call
    generalize same : part.node = node at call
    cases call with
    | call => rcases others visited same with ⟨_,same⟩ | same | same | same | same <;> cases same
    | construct => rcases others visited same with ⟨_,same⟩ | same | same | same | same <;> cases same
    | cleanup isVar attached =>
      rw [(promoted_var isVar).1] at attached
      cases attached
  · intro part around d loc visited node
    rcases others visited node with ⟨_,same⟩ | same | same | same | same <;> cases same
  · intro part around d isDefinition loc visited node
    rcases others visited node with ⟨_,same⟩ | same | same | same | same <;> cases same
  · intro part around d loc visited node
    rcases node with node | node <;>
      (rcases others visited node with ⟨_,same⟩ | same | same | same | same <;> cases same)
  · intro part around d isDefinition loc visited node
    rcases others visited node with ⟨_,same⟩ | same | same | same | same <;> cases same
  · intro current d r names
    exact (promoted_unnamed names).elim

theorem promoted_settled : promoted.Settled promotedUnit where
  unnamed := promoted_unnamed
  direct callee := by
    have plain (r : DeclId) : promoted.ast.isLambdaClosure r = false := by
      obtain ⟨k,inside,same,_⟩ := promoted_listed r
      unfold Ast.isLambdaClosure Ast.cxx? Ast.record?
      rw [same]
      exact (by decide : ∀ k < 8, promoted.ast.isLambdaClosure k = false) k inside
    unfold Visitor.lambdaCallee Ast.lambdaClosureFor
    split
    · exact Option.filter_eq_none_iff.mpr (fun r _ => by simp [plain r])
    · rfl
  primary d := by
    obtain ⟨k,inside,same,_⟩ := promoted_listed d
    unfold Ast.declContext
    rw [same]
    exact (by decide : ∀ k < 8, promoted.ast.isSpecialization (promoted.ast.declContext k) = false) k inside
  pattern d := by
    obtain ⟨k,inside,same,_⟩ := promoted_listed d
    rw [(decl_congr same).2.2.2.2]
    have plain := (by decide : ∀ k < 8, (promoted.ast.decl k).instantiatedFrom = none) k inside
    rw [plain,Option.getD_none]
  promoted := by
    intro before after part around field arrow base loc isFunctionType order node
    have found : (promotedUnit.visits [])[before.length]? = some (part,around) := by
      rw [order,List.getElem?_append_right (Nat.le_refl _),Nat.sub_self]
      rfl
    have taken : before = (promotedUnit.visits []).take before.length := by
      rw [order,List.take_left]
    generalize before.length = k at found taken
    subst taken
    match k with
    | 0 | 1 | 2 | 3 | 4 | 5 | 6 | 7 | 10 =>
      cases found
      cases node
    | 8 | 9 =>
      cases found
      cases node
      rfl
    | k+11 => cases found

def SemindexItem.isUse : SemindexItem → Bool
  | .use _ => true
  | _ => false

/-- The promoted field, the record around it and the variables have one identity each. -/
theorem promoted_one_identity : promoted.OneIdentity promotedUnit "general".toList id := by
  refine (one_identity_iff promoted_promises promoted_typed rfl).mpr ⟨?_,?_⟩
  · intro d e e' identity identity' form form' ofE ofE' stored stored'
    exact promoted_settled.one promoted_promises rfl ofE ofE' stored stored'
  · intro d e identity u form ofE use stored
    rw [← carries_identity promoted_promises (storedAs_carries promoted_promises promoted_typed rfl stored ofE.item)]
    have uses : ((promoted.traverseDecl promotedUnit).filter (fun e => e.item.isUse)).all (fun e =>
        e.item.identity.all (fun identity => decide (Queryable textHash "general".toList identity))) = true := by decide
    have accepted := List.all_eq_true.mp uses e (List.mem_filter.mpr ⟨ofE.offered,by rw [use]; rfl⟩)
    rw [ofE.item] at accepted
    exact of_decide_eq_true accepted

end Samples
end Semindex.Parser
