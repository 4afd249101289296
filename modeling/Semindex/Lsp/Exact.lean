import Semindex.Lsp.Server
import Semindex.Database.Pagination
import Semindex.IndexDb.Storable

/-! Exact values as patterns. The identity query and the queries of the language
server hand stored strings to `semindex_db_query`, which takes a string with one
of `*?[]` for a pattern; they are exact on every database just where the strings
have no `*`, `?` or `[`. -/
namespace Semindex.Lsp
open Semindex.Relational Semindex.IndexDb Semindex.Database

-- `=` is what GLOB does with a pattern that does not need it
theorem matchesPattern_glob (pattern value : Text) : matchesPattern pattern value = glob pattern value := by
  unfold matchesPattern
  by_cases special : patternUsesGlob pattern = true
  · rw [if_pos special]
  · rw [if_neg special,Bool.eq_iff_iff,decide_eq_true_eq]
    have plain : Plain pattern := by
      intro c member
      have ordinary : "*?[]".toList.contains c = false := by
        simpa using (List.any_eq_false.mp (Bool.eq_false_of_not_eq_true special)) c member
      refine ⟨?_,?_,?_⟩ <;> intro here <;> simp [here] at ordinary
    exact (glob_plain plain value).symm

section Answers
variable (db : Db) (opts : QueryOptions) (paths : Option (List Text))

/-- The queries made with the options: one, or one for each path of a document. -/
def queries : List QueryOptions :=
  match paths with
  | none => [opts]
  | some paths => paths.map (fun path => {opts with path := some path})

-- the row has the strings of the query themselves
def equals (opts : QueryOptions) (row : RecordRow) : Bool := opts.selectsBy (fun pattern value => value = pattern) row

def owns (row : RecordRow) : Bool := equals opts row && paths.all (fun paths => paths.contains row.path)

/-- Together the queries answer with the stored records of the symbol and of the document, and no others. -/
def Answers : Prop :=
  ((queries opts paths).flatMap (fun query => (query.select db).map dbRecord)).Perm
    (((joinedRecords db).filter (owns opts paths)).map dbRecord)

structure Whole (opts : QueryOptions) (symbol variant : Text) : Prop where
  symbol : opts.symbol = some symbol
  variant : opts.variant = some variant
  path : opts.path = none
  limit : opts.limit = 0
  after : opts.after = none

variable {db opts paths} {symbol variant : Text}

theorem select_perm (whole : Whole opts symbol variant) {query : QueryOptions} (member : query ∈ queries opts paths) :
    (query.select db).Perm ((joinedRecords db).filter query.selects) := by
  have unlimited : query.limit = 0 ∧ query.after = none := by
    cases paths with
    | none =>
      obtain rfl := List.mem_singleton.mp member
      exact ⟨whole.limit,whole.after⟩
    | some paths =>
      obtain ⟨path,_,rfl⟩ := List.mem_map.mp member
      exact ⟨whole.limit,whole.after⟩
  simp only [QueryOptions.select,limited,unlimited.1,unlimited.2,if_true,Option.all_none,Bool.and_true]
  exact orderBy_perm _

theorem answered_by_query (whole : Whole opts symbol variant) {record : DbRecord} :
    record ∈ (queries opts paths).flatMap (fun query => (query.select db).map dbRecord) ↔
      ∃ query ∈ queries opts paths, ∃ row ∈ joinedRecords db, query.selects row = true ∧ dbRecord row = record := by
  rw [List.mem_flatMap]
  refine exists_congr (fun query => and_congr_right (fun member => ?_))
  simp only [List.mem_map,(select_perm whole member).mem_iff,List.mem_filter,and_assoc]

theorem selected_iff (whole : Whole opts symbol variant) {row : RecordRow} :
    (∃ query ∈ queries opts paths, query.selects row = true) ↔
      glob symbol row.key.symbol = true ∧ glob variant row.variant = true ∧ opts.selectsOther row = true ∧
        ∀ names ∈ paths, ∃ path ∈ names, glob path row.path = true := by
  have one : ∀ path : Option Text, QueryOptions.selects {opts with path} row = true ↔
      glob symbol row.key.symbol = true ∧ glob variant row.variant = true ∧ opts.selectsOther row = true ∧
        ∀ name ∈ path, glob name row.path = true := by
    intro path
    simp only [QueryOptions.selects,QueryOptions.selectsBy,whole.symbol,whole.variant,matchesPattern_glob,
      Option.all_some,Bool.and_eq_true,Option.all_eq_true]
    constructor
    · intro ⟨⟨⟨bySymbol,byPath⟩,byVariant⟩,other⟩
      exact ⟨bySymbol,byVariant,other,byPath⟩
    · intro ⟨bySymbol,byVariant,other,byPath⟩
      exact ⟨⟨⟨bySymbol,byPath⟩,byVariant⟩,other⟩
  cases paths with
  | none =>
    have alone : opts.selects row = true ↔ _ := one opts.path
    simp only [queries,List.mem_singleton,exists_eq_left]
    rw [alone,whole.path]
    simp
  | some names =>
    simp only [queries,List.mem_map,exists_exists_and_eq_and,one,Option.mem_some_iff,forall_eq']
    constructor
    · intro ⟨path,member,bySymbol,byVariant,other,byPath⟩
      exact ⟨bySymbol,byVariant,other,path,member,byPath⟩
    · intro ⟨bySymbol,byVariant,other,path,member,byPath⟩
      exact ⟨path,member,bySymbol,byVariant,other,byPath⟩

theorem owns_iff (whole : Whole opts symbol variant) {row : RecordRow} : owns opts paths row = true ↔
    row.key.symbol = symbol ∧ row.variant = variant ∧ opts.selectsOther row = true ∧
      ∀ names ∈ paths, row.path ∈ names := by
  simp only [owns,equals,QueryOptions.selectsBy,whole.symbol,whole.variant,whole.path,Option.all_some,
    Option.all_none,Bool.and_true,Bool.and_eq_true,decide_eq_true_eq,Option.all_eq_true,List.contains_eq_mem,and_assoc,
    Option.mem_def]

/-- The records of a database are pairwise different. -/
theorem dbRecord_nodup {blake3 : List UInt8 → Fingerprint} {jobs : Job → Prop} (reached : Reachable blake3 jobs db) :
    ((joinedRecords db).map dbRecord).Nodup := by
  have distinct := @recordOrder_distinct db {}
  have all : (joinedRecords db).filter (QueryOptions.selects {}) = joinedRecords db :=
    List.filter_eq_self.mpr (fun _ _ => rfl)
  rw [all] at distinct
  rw [List.Nodup,List.pairwise_map]
  refine List.Pairwise.imp_of_mem ?_ distinct
  intro a b memberA memberB apart same
  apply apart
  rw [← place_cursorOf (stored_codes reached memberA).1,← place_cursorOf (stored_codes reached memberB).1,same]

end Answers

section Notes
variable (blake3 : List UInt8 → Fingerprint)

def noteRow (note : Note) : RecordRow := ⟨note.variant,note.path,note.key,note.value⟩

theorem noteRow_stored (note : Note) : ∃ db, storeAll blake3 [note.job] = some db ∧ noteRow note ∈ joinedRecords db := by
  obtain ⟨db,history,_,rows⟩ := notes_stored blake3 [note]
  refine ⟨db,history,mem_joinedRecords.mpr ?_⟩
  change (db.content note.file).records note.key = some note.value
  rw [rows,List.map_singleton,gather_singleton]
  simp [Note.row]

/-- Some database the writer reaches has the use moved to any two places. -/
theorem moved_stored (note : Note) (first second : Text × Text × Text) :
    ∃ db, Reachable blake3 (fun _ => True) db ∧
      noteRow (note.moved first.1 first.2.1 first.2.2) ∈ joinedRecords db ∧
      noteRow (note.moved second.1 second.2.1 second.2.2) ∈ joinedRecords db := by
  obtain ⟨db,reached,stored⟩ := notes_reachable blake3
    [note.moved first.1 first.2.1 first.2.2,note.moved second.1 second.2.1 second.2.2] (by
      intro a memberA b memberB _
      have same : ∀ c ∈ [note.moved first.1 first.2.1 first.2.2,note.moved second.1 second.2.1 second.2.2],
          c.value = note.value := by
        intro c member
        rcases List.mem_cons.mp member with rfl | member
        · rfl
        · obtain rfl := List.mem_singleton.mp member
          rfl
      rw [same a memberA,same b memberB])
  exact ⟨db,reached,mem_joinedRecords.mpr (stored _ (by simp)),mem_joinedRecords.mpr (stored _ (by simp))⟩

/-- On every database with a record of the symbol and of the document the answers are exact. -/
def Exact (opts : QueryOptions) (paths : Option (List Text)) : Prop :=
  ∀ db, Reachable blake3 (fun _ => True) db → (∃ row ∈ joinedRecords db, owns opts paths row = true) →
    Answers db opts paths

variable {blake3} {opts : QueryOptions} {paths : Option (List Text)} {symbol variant : Text} {note : Note}

theorem moved_owned (whole : Whole opts symbol variant) (other : opts.selectsOther (noteRow note) = true)
    {path : Text} (inside : ∀ names ∈ paths, path ∈ names) :
    owns opts paths (noteRow (note.moved variant path symbol)) = true :=
  (owns_iff whole).mpr ⟨rfl,rfl,other,inside⟩

-- a record of the document is among the answers
theorem exact_self (exact : Exact blake3 opts paths) (whole : Whole opts symbol variant)
    (other : opts.selectsOther (noteRow note) = true) {path : Text} (inside : ∀ names ∈ paths, path ∈ names) :
    glob symbol symbol = true ∧ glob variant variant = true ∧
      ∀ names ∈ paths, ∃ name ∈ names, glob name path = true := by
  obtain ⟨db,reached,member,_⟩ := moved_stored blake3 note (variant,path,symbol) (variant,path,symbol)
  have owned := @moved_owned _ paths _ _ _ whole other _ inside
  have listed := (exact db reached ⟨_,member,owned⟩).mem_iff.mpr
    (List.mem_map.mpr ⟨_,List.mem_filter.mpr ⟨member,owned⟩,rfl⟩)
  obtain ⟨query,asked,row,_,selected,same⟩ := (answered_by_query whole).mp listed
  obtain ⟨bySymbol,byVariant,_,byPath⟩ := (selected_iff whole).mp ⟨query,asked,selected⟩
  have symbolSame : row.key.symbol = symbol := congrArg DbRecord.symbol same
  have variantSame : row.variant = variant := congrArg DbRecord.variant same
  have pathSame : row.path = path := congrArg DbRecord.path same
  rw [symbolSame] at bySymbol
  rw [variantSame] at byVariant
  rw [pathSame] at byPath
  exact ⟨bySymbol,byVariant,byPath⟩

-- a record that matches is among the answers, so it is one of the symbol and of the document
theorem exact_moved (exact : Exact blake3 opts paths) (whole : Whole opts symbol variant)
    (other : opts.selectsOther (noteRow note) = true) {path : Text} (inside : ∀ names ∈ paths, path ∈ names)
    {v p s : Text} (bySymbol : glob symbol s = true) (byVariant : glob variant v = true)
    (byPath : ∀ names ∈ paths, ∃ name ∈ names, glob name p = true) :
    s = symbol ∧ v = variant ∧ ∀ names ∈ paths, p ∈ names := by
  obtain ⟨db,reached,member,copy⟩ := moved_stored blake3 note (variant,path,symbol) (v,p,s)
  have owned := @moved_owned _ paths _ _ _ whole other _ inside
  obtain ⟨query,asked,selected⟩ := (@selected_iff _ paths _ _ whole (noteRow (note.moved v p s))).mpr
    ⟨bySymbol,byVariant,other,byPath⟩
  have answered := (answered_by_query whole).mpr ⟨query,asked,_,copy,selected,rfl⟩
  obtain ⟨row,filtered,same⟩ := List.mem_map.mp ((exact db reached ⟨_,member,owned⟩).mem_iff.mp answered)
  obtain ⟨hasSymbol,hasVariant,_,hasPath⟩ := (owns_iff whole).mp (List.mem_filter.mp filtered).2
  have symbolSame : row.key.symbol = s := congrArg DbRecord.symbol same
  have variantSame : row.variant = v := congrArg DbRecord.variant same
  have pathSame : row.path = p := congrArg DbRecord.path same
  rw [symbolSame] at hasSymbol
  rw [variantSame] at hasVariant
  rw [pathSame] at hasPath
  exact ⟨hasSymbol,hasVariant,hasPath⟩

-- no record is among the answers twice
theorem exact_once {names : List Text} (exact : Exact blake3 opts (some names)) (whole : Whole opts symbol variant)
    (other : opts.selectsOther (noteRow note) = true) {path p q : Text} (inside : path ∈ names)
    (memberP : p ∈ names) (memberQ : q ∈ names) (matchedP : glob p path = true) (matchedQ : glob q path = true) :
    p = q := by
  by_contra different
  obtain ⟨bySymbol,byVariant,_⟩ := @exact_self _ _ _ _ _ _ exact whole other path (by simpa using inside)
  obtain ⟨db,reached,member,_⟩ := moved_stored blake3 note (variant,path,symbol) (variant,path,symbol)
  have owned := @moved_owned _ (some names) _ _ _ whole other path (by simpa using inside)
  have distinct : (((joinedRecords db).filter (owns opts (some names))).map dbRecord).Nodup :=
    (dbRecord_nodup reached).sublist (List.filter_sublist.map dbRecord)
  have answers := (exact db reached ⟨_,member,owned⟩).nodup_iff.mpr distinct
  change ((names.map (fun name => {opts with path := some name})).flatMap
    (fun query => (query.select db).map dbRecord)).Nodup at answers
  rw [List.flatMap_map] at answers
  have symmetric : Std.Symm (fun a b : Text => List.Disjoint
      ((QueryOptions.select {opts with path := some a} db).map dbRecord)
      ((QueryOptions.select {opts with path := some b} db).map dbRecord)) := ⟨fun _ _ => List.Disjoint.symm⟩
  have disjoint : names.Pairwise (fun a b : Text => List.Disjoint
      ((QueryOptions.select {opts with path := some a} db).map dbRecord)
      ((QueryOptions.select {opts with path := some b} db).map dbRecord)) :=
    (List.nodup_flatMap.mp answers).2
  have apart := disjoint.forall memberP memberQ different
  have listed : ∀ name ∈ names, glob name path = true →
      dbRecord (noteRow (note.moved variant path symbol)) ∈
        (QueryOptions.select {opts with path := some name} db).map dbRecord := by
    intro name asked matched
    have selected := (@selected_iff _ (some [name]) _ _ whole (noteRow (note.moved variant path symbol))).mpr
      ⟨bySymbol,byVariant,other,by
        intro asked given
        cases given
        exact ⟨name,by simp,matched⟩⟩
    obtain ⟨query,only,selected⟩ := selected
    obtain rfl := List.mem_singleton.mp only
    exact List.mem_map.mpr ⟨_,(@select_perm _ _ (some [name]) _ _ whole _ only).mem_iff.mpr
      (List.mem_filter.mpr ⟨member,selected⟩),rfl⟩
  exact apart (listed p memberP matchedP) (listed q memberQ matchedQ)

theorem exact_plain (exact : Exact blake3 opts paths) (whole : Whole opts symbol variant)
    (other : opts.selectsOther (noteRow note) = true) {path : Text} (inside : ∀ names ∈ paths, path ∈ names) :
    Plain symbol ∧ Plain variant ∧ ∀ names ∈ paths, ∀ name ∈ names, Plain name := by
  obtain ⟨bySymbol,byVariant,byPath⟩ := exact_self exact whole other inside
  have alone : ∀ {pattern : Text}, glob pattern pattern = true → (∀ t, glob pattern t = true → t = pattern) →
      Plain pattern := by
    intro pattern self only
    exact @plain_of_partition [pattern] (by simpa using self) (by simpa using only) (by simp) pattern (by simp)
  refine ⟨alone bySymbol ?_,alone byVariant ?_,?_⟩
  · intro t matched
    exact (exact_moved exact whole other inside matched byVariant byPath).1
  · intro t matched
    exact (exact_moved exact whole other inside bySymbol matched byPath).2.1
  · intro names given
    obtain rfl : paths = some names := given
    refine plain_of_partition ?_ ?_ ?_
    · intro t member
      exact (@exact_self _ _ _ _ _ _ exact whole other t (by simpa using member)).2.2 names rfl
    · intro p member t matched
      exact (exact_moved exact whole other inside bySymbol byVariant (by simpa using ⟨p,member,matched⟩)).2.2 names rfl
    · intro p memberP q memberQ t matchedP matchedQ
      have named := (exact_moved exact whole other inside bySymbol byVariant
        (by simpa using ⟨p,memberP,matchedP⟩)).2.2 names rfl
      exact exact_once exact whole other named memberP memberQ matchedP matchedQ

end Notes

section Plain
variable {db : Db} {opts : QueryOptions} {symbol variant : Text}

private theorem filter_or_perm {α : Type} (rows : List α) (a b : α → Bool)
    (disjoint : ∀ row ∈ rows, a row = true → b row = false) :
    (rows.filter (fun row => a row || b row)).Perm (rows.filter a ++ rows.filter b) := by
  have parts := (List.filter_append_perm a (rows.filter (fun row => a row || b row))).symm
  rw [List.filter_filter,List.filter_filter] at parts
  have first : rows.filter (fun row => a row && (a row || b row)) = rows.filter a := by
    congr 1
    funext row
    cases a row <;> rfl
  have second : rows.filter (fun row => !a row && (a row || b row)) = rows.filter b := by
    apply List.filter_congr
    intro row member
    cases chosen : a row with
    | false => rfl
    | true => simp [disjoint row member chosen]
  rwa [first,second] at parts

private theorem filter_names_perm (rows : List RecordRow) (e : RecordRow → Bool) {names : List Text}
    (distinct : names.Nodup) : (names.flatMap (fun name => rows.filter (fun row => e row && row.path = name))).Perm
      (rows.filter (fun row => e row && names.contains row.path)) := by
  induction names with
  | nil => simp
  | cons name names ih =>
    obtain ⟨fresh,distinct⟩ := List.nodup_cons.mp distinct
    have split : (fun row : RecordRow => e row && (name::names).contains row.path) =
        fun row => (e row && row.path = name) || (e row && names.contains row.path) := by
      funext row
      rw [List.contains_cons,Bool.and_or_distrib_left,beq_eq_decide]
    rw [List.flatMap_cons,split]
    refine (List.Perm.append_left _ (ih distinct)).trans (filter_or_perm _ _ _ ?_).symm
    intro row _ here
    simp only [Bool.and_eq_true,decide_eq_true_eq] at here
    simp [here.2,fresh]

theorem selects_owns {paths : Option (List Text)} (whole : Whole opts symbol variant) (plainSymbol : Plain symbol)
    (plainVariant : Plain variant) (plainPaths : ∀ names ∈ paths, ∀ name ∈ names, Plain name) {row : RecordRow} :
    (∃ query ∈ queries opts paths, query.selects row = true) ↔ owns opts paths row = true := by
  rw [selected_iff whole,owns_iff whole,glob_plain plainSymbol,glob_plain plainVariant]
  refine and_congr_right (fun _ => and_congr_right (fun _ => and_congr_right (fun _ => ?_)))
  refine forall₂_congr (fun names given => ?_)
  constructor
  · intro ⟨name,member,matched⟩
    rwa [(glob_plain (plainPaths names given name member) row.path).mp matched]
  · intro member
    exact ⟨row.path,member,(glob_plain (plainPaths names given _ member) row.path).mpr rfl⟩

theorem answers_of_plain {paths : Option (List Text)} (whole : Whole opts symbol variant)
    (distinct : ∀ names ∈ paths, names.Nodup) (plainSymbol : Plain symbol) (plainVariant : Plain variant)
    (plainPaths : ∀ names ∈ paths, ∀ name ∈ names, Plain name) : Answers db opts paths := by
  unfold Answers
  cases paths with
  | none =>
    have same : opts.selects = owns opts none := by
      funext row
      have both := @selects_owns _ _ _ none whole plainSymbol plainVariant plainPaths row
      rw [Bool.eq_iff_iff,← both]
      simp [queries]
    rw [queries,List.flatMap_singleton,← same]
    exact (@select_perm _ _ none _ _ whole _ (by simp [queries])).map dbRecord
  | some names =>
    have same : ∀ name ∈ names, QueryOptions.selects {opts with path := some name} =
        fun row => equals opts row && row.path = name := by
      intro name member
      funext row
      have both := @selects_owns _ _ _ (some [name]) whole plainSymbol plainVariant (by simpa using plainPaths names rfl name member) row
      have owned : owns opts (some [name]) row = (equals opts row && row.path = name) := by simp [owns]
      rw [Bool.eq_iff_iff,← owned,← both]
      simp [queries]
    rw [queries,List.flatMap_map,← List.map_flatMap]
    refine List.Perm.map dbRecord (List.Perm.trans ?_
      (filter_names_perm (joinedRecords db) (equals opts) (distinct names rfl)))
    refine List.Perm.flatMap_left names (fun name member => ?_)
    have selected := @select_perm db _ (some names) _ _ whole {opts with path := some name} (List.mem_map.mpr ⟨name,member,rfl⟩)
    rwa [same name member] at selected

end Plain

section Queries
variable (db : Db)

/-- The query answers with the stored records that satisfy `p`, and no others. -/
def Returns (answer : Option (List DbRecord)) (p : RecordRow → Bool) : Prop :=
  ∃ records, answer = some records ∧ records.Perm (((joinedRecords db).filter p).map dbRecord)

def identityOf (record : DbRecord) : Identity := ⟨record.variant,record.symbol,record.usrId,record.kind⟩

-- the same variant, symbol, kind and usr_id
def hasIdentity (identity : Identity) (filter : RecordFilter) (row : RecordRow) : Bool :=
  row.variant = identity.variant && row.key.symbol = identity.symbol && row.key.kind = identity.kind &&
    row.value.usrId = some identity.usrId && filter.admits row.key

-- the same variant and symbol, where a local symbol is one of its context
def hasSymbol (cursor : DbRecord) (row : RecordRow) : Bool :=
  row.variant = cursor.variant && row.key.symbol = cursor.symbol && row.value.isLocal = cursor.isLocal &&
    (!cursor.isLocal || row.value.context = cursor.context)

def IdentityExact (identity : Identity) (filter : RecordFilter) : Prop :=
  Returns db (collected (semindexDbQueryIdentity db {identity, record := filter})) (hasIdentity identity filter)

def SymbolExact (paths : List Text) (cursor : DbRecord) (filter : RecordFilter) : Prop :=
  Returns db (collected (querySymbol db paths cursor filter)) (fun row =>
    hasSymbol cursor row && row.key.kind = cursor.kind && filter.admits row.key &&
      (!cursor.isLocal || paths.contains row.path))

def HighlightExact (paths : List Text) (cursor : DbRecord) : Prop :=
  Returns db (collected (documentHighlight db paths cursor)) (fun row =>
    hasSymbol cursor row && paths.contains row.path)

variable {db} {opts : QueryOptions} {symbol variant : Text} {paths : List Text} {cursor : DbRecord}
  {filter : RecordFilter} {identity : Identity}

theorem hasIdentity_owns :
    hasIdentity identity filter = owns (IdentityQuery.options {identity, record := filter}) none := by
  funext row
  simp only [hasIdentity,owns,equals,IdentityQuery.options,QueryOptions.selectsBy,QueryOptions.selectsOther,
    Option.all_some,Option.all_none,Bool.true_and,Bool.and_true]
  grind

theorem highlight_owns :
    (fun row => hasSymbol cursor row && paths.contains row.path) = owns (highlightOptions cursor) (some paths) := by
  funext row
  cases isLocal : cursor.isLocal <;>
    simp only [hasSymbol,owns,equals,highlightOptions,QueryOptions.selectsBy,QueryOptions.selectsOther,isLocal,
      Option.all_some,Option.all_none,Bool.and_true,RecordFilter.admits] <;>
    grind

theorem symbol_owns : (fun row => hasSymbol cursor row && row.key.kind = cursor.kind && filter.admits row.key &&
      (!cursor.isLocal || paths.contains row.path)) =
    owns (querySymbolOptions cursor filter) (if cursor.isLocal then some paths else none) := by
  funext row
  cases isLocal : cursor.isLocal <;>
    simp only [hasSymbol,owns,equals,querySymbolOptions,QueryOptions.selectsBy,QueryOptions.selectsOther,isLocal,
      Option.all_some,Option.all_none,Bool.and_true] <;>
    grind

theorem collected_whole (whole : Whole opts symbol variant) : collected (semindexDbQuery db opts) =
    some ((queries opts none).flatMap (fun query => (query.select db).map dbRecord)) := by
  rw [collected_query]
  simp [whole.limit,whole.after,queries]

theorem collected_paths (whole : Whole opts symbol variant) :
    collected (fun callback data => queryPaths db opts callback paths data) =
      some ((queries opts (some paths)).flatMap (fun query => (query.select db).map dbRecord)) := by
  simp [collected,queryPaths_collect opts whole.limit whole.after,queries,List.flatMap_map]

theorem returns_query (whole : Whole opts symbol variant) :
    Returns db (collected (semindexDbQuery db opts)) (owns opts none) ↔ Answers db opts none := by
  simp [Returns,Answers,collected_whole whole]

theorem returns_paths (whole : Whole opts symbol variant) :
    Returns db (collected (fun callback data => queryPaths db opts callback paths data)) (owns opts (some paths)) ↔
      Answers db opts (some paths) := by
  simp [Returns,Answers,collected_paths whole]

theorem identity_whole : Whole (IdentityQuery.options {identity, record := filter}) identity.symbol identity.variant :=
  ⟨rfl,rfl,rfl,rfl,rfl⟩

theorem highlight_whole : Whole (highlightOptions cursor) cursor.symbol cursor.variant := ⟨rfl,rfl,rfl,rfl,rfl⟩

theorem symbol_whole : Whole (querySymbolOptions cursor filter) cursor.symbol cursor.variant := ⟨rfl,rfl,rfl,rfl,rfl⟩

theorem identity_exact_iff : IdentityExact db identity filter ↔
    (identity.Named ∧ identity.kind ≤ SymbolKind.template.code) ∧
      Answers db (IdentityQuery.options {identity, record := filter}) none := by
  unfold IdentityExact
  rw [collected_identity,hasIdentity_owns]
  split
  · rename_i accepted
    rw [returns_query identity_whole,and_iff_right accepted]
  · rename_i refused
    simp [Returns,refused]

theorem highlight_exact_iff : HighlightExact db paths cursor ↔ Answers db (highlightOptions cursor) (some paths) := by
  unfold HighlightExact documentHighlight
  rw [highlight_owns,returns_paths highlight_whole]

theorem symbol_exact_iff : SymbolExact db paths cursor filter ↔
    Answers db (querySymbolOptions cursor filter) (if cursor.isLocal then some paths else none) := by
  unfold SymbolExact querySymbol
  rw [symbol_owns]
  cases cursor.isLocal with
  | false => exact returns_query symbol_whole
  | true => exact returns_paths symbol_whole

end Queries

section Finds
variable (db : Db) (paths : List Text) (cursor : DbRecord) (filter : RecordFilter) (row : RecordRow)

/-- The query of the language server that starts from the cursor gives the record. -/
def Finds : Prop := ∃ records, collected (querySymbol db paths cursor filter) = some records ∧ dbRecord row ∈ records

variable {db paths cursor filter row}

theorem collected_symbol : collected (querySymbol db paths cursor filter) =
    some ((queries (querySymbolOptions cursor filter) (if cursor.isLocal then some paths else none)).flatMap
      (fun query => (query.select db).map dbRecord)) := by
  unfold querySymbol
  cases cursor.isLocal with
  | false => exact collected_whole symbol_whole
  | true => exact collected_paths symbol_whole

theorem symbol_selectsOther : (querySymbolOptions cursor filter).selectsOther row = true ↔
    (cursor.isLocal = true → row.value.context = cursor.context) ∧ filter.admits row.key = true ∧
      row.key.kind = cursor.kind ∧ row.value.isLocal = cursor.isLocal := by
  cases isLocal : cursor.isLocal <;>
    simp [QueryOptions.selectsOther,querySymbolOptions,isLocal,and_assoc]

/-- A stored record is found just where the strings of the cursor match, the kinds and the flags agree and,
for a local one, the context is the same. -/
theorem finds_iff (member : row ∈ joinedRecords db) (admitted : filter.admits row.key = true) :
    Finds db paths cursor filter row ↔
      glob cursor.symbol row.key.symbol = true ∧ glob cursor.variant row.variant = true ∧
        row.key.kind = cursor.kind ∧ row.value.isLocal = cursor.isLocal ∧
          (cursor.isLocal = true → row.value.context = cursor.context ∧ ∃ path ∈ paths, glob path row.path = true) := by
  have answer : Finds db paths cursor filter row ↔ dbRecord row ∈
      (queries (querySymbolOptions cursor filter) (if cursor.isLocal then some paths else none)).flatMap
        (fun query => (query.select db).map dbRecord) := by
    rw [Finds,collected_symbol]
    simp
  rw [answer,answered_by_query symbol_whole]
  constructor
  · intro ⟨query,asked,found,_,selected,same⟩
    obtain ⟨bySymbol,byVariant,other,byPath⟩ := (selected_iff symbol_whole).mp ⟨query,asked,selected⟩
    obtain ⟨context,_,kind,isLocal⟩ := symbol_selectsOther.mp other
    have symbols : found.key.symbol = row.key.symbol := congrArg DbRecord.symbol same
    have variants : found.variant = row.variant := congrArg DbRecord.variant same
    have pathsSame : found.path = row.path := congrArg DbRecord.path same
    have contexts : found.value.context = row.value.context := congrArg DbRecord.context same
    have kinds : found.key.kind = row.key.kind := congrArg DbRecord.kind same
    have flags : found.value.isLocal = row.value.isLocal := congrArg DbRecord.isLocal same
    rw [symbols] at bySymbol
    rw [variants] at byVariant
    rw [pathsSame] at byPath
    rw [contexts] at context
    rw [kinds] at kind
    rw [flags] at isLocal
    refine ⟨bySymbol,byVariant,kind,isLocal,fun islocal => ⟨context islocal,?_⟩⟩
    exact byPath paths (by rw [if_pos islocal]; rfl)
  · intro ⟨bySymbol,byVariant,kind,isLocal,ofLocal⟩
    have other := symbol_selectsOther.mpr ⟨fun islocal => (ofLocal islocal).1,admitted,kind,isLocal⟩
    obtain ⟨query,asked,selected⟩ := (@selected_iff _ (if cursor.isLocal then some paths else none) _ _
      symbol_whole row).mpr ⟨bySymbol,byVariant,other,by
        intro names given
        split at given
        · rename_i islocal
          obtain rfl := Option.some.inj given
          exact (ofLocal islocal).2
        · cases given⟩
    exact ⟨query,asked,row,member,selected,rfl⟩

end Finds

section Everywhere
variable (blake3 : List UInt8 → Fingerprint)

/-- On every database the query by the identity of a stored record has exactly the records with it. -/
def IdentityQueriesExact (variant symbol : Text) (kind : SymbolKind) (usrId : Id) : Prop :=
  ∀ db, Reachable blake3 (fun _ => True) db → ∀ row ∈ joinedRecords db, row.variant = variant →
    row.key.symbol = symbol → row.key.kind = kind.code → row.value.usrId = some usrId →
      ∀ filter, IdentityExact db (identityOf (dbRecord row)) filter

/-- On every database the language server finds exactly the records of a stored record's symbol, in the
document that the database knows under `paths`. -/
def LspQueriesExact (variant symbol : Text) (paths : List Text) : Prop :=
  ∀ db, Reachable blake3 (fun _ => True) db → ∀ row ∈ joinedRecords db, row.variant = variant →
    row.key.symbol = symbol → row.path ∈ paths →
      (∀ filter, SymbolExact db paths (dbRecord row) filter) ∧ HighlightExact db paths (dbRecord row)

-- a use of the symbol in the file
def symbolNote (variant path symbol : Text) (kind : SymbolKind) (usrId : Id) : Note where
  variant := variant
  path := path
  use :=
    { kind := .read, symbolKind := kind, mode := 1, name := symbol, owner := [], usr := "u".toList,
      context := [], contextUsr := [], usrId := usrId, contextUsrId := 0, file := [], fileIndex := 0, line := 1,
      column := 1, isLocal := false }

variable {blake3} {variant symbol : Text} {kind : SymbolKind} {usrId : Id} {paths : List Text}

theorem identity_queries_exact_iff : IdentityQueriesExact blake3 variant symbol kind usrId ↔
    Plain variant ∧ Plain symbol ∧ variant ≠ [] ∧ symbol ≠ [] ∧ usrId ≠ 0 := by
  constructor
  · intro exact
    have answered : ∀ db, Reachable blake3 (fun _ => True) db →
        (∃ row ∈ joinedRecords db,
          owns (IdentityQuery.options {identity := ⟨variant,symbol,usrId,kind.code⟩}) none row = true) →
        Identity.Named ⟨variant,symbol,usrId,kind.code⟩ ∧
          Answers db (IdentityQuery.options {identity := ⟨variant,symbol,usrId,kind.code⟩}) none := by
      intro db reached facts
      obtain ⟨row,member,owned⟩ := facts
      rw [← hasIdentity_owns] at owned
      simp only [hasIdentity,Bool.and_eq_true,decide_eq_true_eq] at owned
      obtain ⟨⟨⟨⟨atVariant,atSymbol⟩,atKind⟩,atUsr⟩,_⟩ := owned
      have identity : identityOf (dbRecord row) = ⟨variant,symbol,usrId,kind.code⟩ := by
        simp [identityOf,dbRecord,atVariant,atSymbol,atKind,atUsr]
      have returned := exact db reached row member atVariant atSymbol atKind atUsr .all
      rw [identity,identity_exact_iff] at returned
      exact ⟨returned.1.1,returned.2⟩
    have other : QueryOptions.selectsOther (IdentityQuery.options {identity := ⟨variant,symbol,usrId,kind.code⟩})
        (noteRow (symbolNote variant [] symbol kind usrId)) = true := by
      simp [QueryOptions.selectsOther,IdentityQuery.options,RecordFilter.admits,noteRow,symbolNote,Note.key,Note.value,
        optionalId]
    have plain := @exact_plain blake3 _ _ _ _ _ (fun db reached present => (answered db reached present).2) identity_whole other [] (by simp)
    obtain ⟨db,reached,member,_⟩ := moved_stored blake3 (symbolNote variant [] symbol kind usrId)
      (variant,[],symbol) (variant,[],symbol)
    have named := (answered db reached ⟨_,member,moved_owned identity_whole other (by simp)⟩).1
    exact ⟨plain.2.1,plain.1,named⟩
  · intro facts db reached row member atVariant atSymbol atKind atUsr filter
    obtain ⟨plainVariant,plainSymbol,named⟩ := facts
    have identity : identityOf (dbRecord row) = ⟨variant,symbol,usrId,kind.code⟩ := by
      simp [identityOf,dbRecord,atVariant,atSymbol,atKind,atUsr]
    rw [identity,identity_exact_iff]
    exact ⟨⟨named,code_le_template kind⟩,answers_of_plain identity_whole (by simp) plainSymbol plainVariant (by simp)⟩

theorem lsp_queries_exact_iff (distinct : paths.Nodup) (known : paths ≠ []) :
    LspQueriesExact blake3 variant symbol paths ↔
      Plain variant ∧ Plain symbol ∧ ∀ path ∈ paths, Plain path := by
  constructor
  · intro exact
    obtain ⟨path,inside⟩ := List.exists_mem_of_ne_nil paths known
    have answered : Exact blake3 (highlightOptions (dbRecord (noteRow (symbolNote variant path symbol .var 1))))
        (some paths) := by
      intro db reached facts
      obtain ⟨row,member,owned⟩ := facts
      rw [← highlight_owns] at owned
      simp only [hasSymbol,Bool.and_eq_true,decide_eq_true_eq,List.contains_eq_mem] at owned
      obtain ⟨⟨⟨⟨atVariant,atSymbol⟩,shared⟩,_⟩,atPath⟩ := owned
      have same : highlightOptions (dbRecord row) =
          highlightOptions (dbRecord (noteRow (symbolNote variant path symbol .var 1))) := by
        have ofRow : (dbRecord row).symbol = symbol ∧ (dbRecord row).variant = variant ∧
            (dbRecord row).isLocal = false := ⟨atSymbol,atVariant,shared⟩
        unfold highlightOptions
        rw [ofRow.1,ofRow.2.1,ofRow.2.2]
        rfl
      rw [← same]
      exact highlight_exact_iff.mp (exact db reached row member atVariant atSymbol atPath).2
    have plain := @exact_plain _ _ _ _ _ (symbolNote variant path symbol .var 1) answered highlight_whole (by simp [QueryOptions.selectsOther,highlightOptions,RecordFilter.admits,noteRow,symbolNote,dbRecord,Note.value]) path (by simpa using inside)
    exact ⟨plain.2.1,plain.1,plain.2.2 paths rfl⟩
  · intro facts db reached row member atVariant atSymbol atPath
    obtain ⟨plainVariant,plainSymbol,plainPaths⟩ := facts
    subst atVariant atSymbol
    constructor
    · intro filter
      rw [symbol_exact_iff]
      cases (dbRecord row).isLocal with
      | false => exact answers_of_plain symbol_whole (by simp) plainSymbol plainVariant (by simp)
      | true =>
        exact answers_of_plain symbol_whole (by simpa using distinct) plainSymbol plainVariant (by simpa using plainPaths)
    · rw [highlight_exact_iff]
      exact answers_of_plain highlight_whole (by simpa using distinct) plainSymbol plainVariant (by simpa using plainPaths)

/-- Queries by stored values are exact on every database just where the values are plain as patterns, and
the identity is one the query accepts. -/
theorem exact_queries_iff (distinct : paths.Nodup) (known : paths ≠ []) :
    (IdentityQueriesExact blake3 variant symbol kind usrId ↔
      Plain variant ∧ Plain symbol ∧ variant ≠ [] ∧ symbol ≠ [] ∧ usrId ≠ 0) ∧
    (LspQueriesExact blake3 variant symbol paths ↔
      Plain variant ∧ Plain symbol ∧ ∀ path ∈ paths, Plain path) :=
  ⟨identity_queries_exact_iff,lsp_queries_exact_iff distinct known⟩

theorem exact_queries_plus : IdentityQueriesExact foldHash "v".toList "operator+".toList .function 5 ∧
    LspQueriesExact foldHash "v".toList "operator+".toList ["/r/a.cc".toList,"a.cc".toList] := by
  have both := @exact_queries_iff foldHash "v".toList "operator+".toList .function 5 ["/r/a.cc".toList,"a.cc".toList]
    (by decide) (by decide)
  exact ⟨both.1.mpr (by decide +kernel),both.2.mpr (by decide +kernel)⟩

/-- The brackets of `operator[]` are a set that never closes, so its own record is not found. -/
theorem subscript_operator_not_found : ∃ db row,
    storeAll foldHash [(symbolNote "v".toList "a.cc".toList "operator[]".toList .function 5).job] = some db ∧
    row ∈ joinedRecords db ∧ row.value.usrId = some 5 ∧ ¬ IdentityExact db (identityOf (dbRecord row)) .all := by
  have missed : (storeAll foldHash [(symbolNote "v".toList "a.cc".toList "operator[]".toList .function 5).job]).map
      (fun db => (decide (joinedRecords db = [noteRow (symbolNote "v".toList "a.cc".toList "operator[]".toList
        .function 5)]),collected (semindexDbQueryIdentity db
          {identity := ⟨"v".toList,"operator[]".toList,5,SymbolKind.function.code⟩}))) = some (true,some []) := by
    decide +kernel
  obtain ⟨db,stored,shape⟩ := Option.map_eq_some_iff.mp missed
  obtain ⟨rows,answer⟩ := Prod.mk.inj shape
  have only := of_decide_eq_true rows
  refine ⟨db,_,stored,by rw [only]; exact List.mem_singleton.mpr rfl,rfl,?_⟩
  intro ⟨records,found,perm⟩
  have identity : identityOf (dbRecord (noteRow (symbolNote "v".toList "a.cc".toList "operator[]".toList
      .function 5))) = ⟨"v".toList,"operator[]".toList,5,SymbolKind.function.code⟩ := rfl
  rw [identity] at found perm
  cases Option.some.inj (answer.symm.trans found)
  rw [only] at perm
  have length := perm.length_eq
  revert length
  decide

end Everywhere
end Semindex.Lsp
