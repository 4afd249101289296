import Semindex.Database.Pagination
import Semindex.IndexDb.Covered
import Semindex.Mcp.SymbolTools

/-! A client that follows the cursors of the paged tools, with a limit of its own for
each page. It gets all that the tool's query selects, in order and once, as long as
the rows that end a page can be continued from. -/
namespace Semindex.Mcp.Tools
open Semindex.Relational Semindex.IndexDb Semindex.Database Semindex.Json
open Semindex.Mcp.Requests (Members Control McpToolResult stoppedResult)
open Semindex.Mcp.Cursors hiding RecordRow FunctionTypeRow

section Client

/-- The arguments of a client for one page. -/
def asked (members : Members) (limit : Nat) (cursor : Option Text) : Members :=
  members.filter (fun member => member.1 ≠ "limit".toList && member.1 ≠ "cursor".toList) ++
    ("limit".toList,number limit) :: (cursor.map (fun value => ("cursor".toList,Json.string value))).toList

-- the items of a page and the cursor of the next one; `none` for any error
def shown (name : String) (result : McpToolResult) : Option (List Json × Option Text) :=
  match result.status,result.data with
  | .success,.object data => (getArray data name).map (fun items => (items,getString data "nextCursor"))
  | _,_ => none

variable {lib : JsonLibrary} {members : Members} {limit : Nat} {cursor : Option Text} {name : String}

theorem get_append (first second : Members) (name : String) :
    Json.get (first ++ second) name = (Json.get second name).or (Json.get first name) := by
  unfold Json.get
  rw [List.reverse_append,List.find?_append]
  cases second.reverse.find? (fun member => member.1 = name.toList) <;> rfl

theorem get_other {label : Text} (other : label ≠ name.toList) (value : Json) (rest : Members) :
    Json.get ((label,value)::rest) name = Json.get rest name := by
  have alone : Json.get [(label,value)] name = none := by
    unfold Json.get
    rw [List.reverse_singleton,List.find?_cons_of_neg (by simpa using other)]
    rfl
  rw [← List.singleton_append,get_append,alone,Option.or_none]

theorem get_first {rest : Members} (absent : Json.get rest name = none) (value : Json) :
    Json.get ((name.toList,value)::rest) name = some value := by
  have alone : Json.get [(name.toList,value)] name = some value := by
    unfold Json.get
    rw [List.reverse_singleton,List.find?_cons_of_pos (by simp)]
    rfl
  rw [← List.singleton_append,get_append,alone,absent,Option.none_or]

theorem get_asked (other : name.toList ≠ "limit".toList ∧ name.toList ≠ "cursor".toList) :
    Json.get (asked members limit cursor) name = Json.get members name := by
  have added : Json.get (("limit".toList,number limit) ::
      (cursor.map (fun value => ("cursor".toList,Json.string value))).toList) name = none := by
    rw [get_other (Ne.symm other.1)]
    cases cursor with
    | none => rfl
    | some value => exact get_other (Ne.symm other.2) _ _
  rw [asked,get_append,added,Option.none_or]
  unfold Json.get
  rw [← List.filter_reverse,List.find?_filter]
  congr 2
  funext member
  by_cases same : member.1 = name.toList
  · have kept : member.1 ≠ "limit".toList ∧ member.1 ≠ "cursor".toList := by rwa [same]
    rw [decide_eq_true kept.1,decide_eq_true kept.2,decide_eq_true same]
    simp
  · rw [decide_eq_false same]
    simp

theorem get_limit : Json.get (asked members limit cursor) "limit" = some (number limit) := by
  rw [asked,get_append]
  cases cursor <;> rfl

theorem get_cursor : Json.get (asked members limit cursor) "cursor" = cursor.map Json.string := by
  rw [asked,get_append]
  cases cursor with
  | some value => rfl
  | none =>
    have left : Json.get (members.filter (fun member => member.1 ≠ "limit".toList && member.1 ≠ "cursor".toList)) "cursor" = none := by
      unfold Json.get
      rw [Option.map_eq_none_iff,List.find?_eq_none]
      intro member listed
      have kept := (List.mem_filter.mp (List.mem_reverse.mp listed)).2
      simp only [Bool.and_eq_true,decide_eq_true_eq] at kept ⊢
      exact kept.2
    rw [left]
    rfl

theorem limit_asked (limited : 1 ≤ limit ∧ limit ≤ MAX_LIMIT) :
    parseLimit (integerArgument lib (asked members limit cursor) "limit") = some limit := by
  have most : MAX_LIMIT = 200 := rfl
  have value : getInteger lib (asked members limit cursor) "limit" = some (limit : Int) := by
    rw [getInteger,get_limit]
    exact lib.integer_decimal _ (by omega) (by omega)
  rw [integerArgument,value,parseLimit,Argument.parse,if_neg (by omega)]
  rfl

-- the position to continue from, of a cursor that a page has shown
def continued {γ : Type} (parse : Text → Option γ) (cursor : Option Text) : Except String (Option γ) :=
  match cursor with
  | none => .ok none
  | some value =>
    match parse value with
    | some place => .ok (some place)
    | none => .error "Invalid cursor"

theorem after_asked {γ : Type} (parse : Text → Option γ) :
    afterArgument (asked members limit cursor) parse = continued parse cursor := by
  rw [afterArgument,cursorArgument,get_cursor]
  cases cursor <;> rfl

theorem getString_asked (other : name.toList ≠ "limit".toList ∧ name.toList ≠ "cursor".toList) :
    getString (asked members limit cursor) name = getString members name := by
  rw [getString,get_asked other,getString]

theorem getBoolean_asked (other : name.toList ≠ "limit".toList ∧ name.toList ≠ "cursor".toList) :
    getBoolean (asked members limit cursor) name = getBoolean members name := by
  rw [getBoolean,get_asked other,getBoolean]

theorem variant_asked : variantArgument (asked members limit cursor) = variantArgument members := by
  rw [variantArgument,get_asked (by decide),variantArgument]

theorem kind_asked : kindArgument (asked members limit cursor) = kindArgument members := by
  rw [kindArgument,get_asked (by decide),kindArgument]

theorem shown_object (items : List Json) (truncated : Bool) (next : Members) (absent : Json.get next name = none)
    (named : name.toList ≠ "truncated".toList ∧ name.toList ≠ "nextCursor".toList) :
    shown name ⟨.success,.object ((name.toList,.array items)::("truncated".toList,.boolean truncated)::next),[]⟩ =
      some (items,getString next "nextCursor") := by
  have listed := get_first ((get_other (Ne.symm named.1) (.boolean truncated) next).trans absent) (.array items)
  have cursor := (get_other named.2 (.array items) (("truncated".toList,.boolean truncated)::next)).trans
    (get_other (by decide : "truncated".toList ≠ "nextCursor".toList) (.boolean truncated) next)
  unfold shown
  dsimp only
  rw [getArray,listed,getString,cursor,getString]
  rfl

theorem shown_pageResult {ρ : Type} (form : ρ → Json) (key : ρ → Text) (rest : List ρ)
    (named : name.toList ≠ "truncated".toList ∧ name.toList ≠ "nextCursor".toList) :
    shown name ⟨.success,pageResult name form key (rest.take (limit+1)) limit,[]⟩ = some (shownPage form key rest limit) := by
  have more : limit < (rest.take (limit+1)).length ↔ limit < rest.length := by
    rw [List.length_take]
    omega
  have same : (rest.take (limit+1)).take limit = rest.take limit := by
    rw [List.take_take,Nat.min_eq_left (Nat.le_succ limit)]
  have absent (last : Option ρ) :
      Json.get (last.map (fun last => ("nextCursor".toList,Json.string (key last)))).toList name = none := by
    cases last with
    | none => rfl
    | some last =>
      exact get_other (Ne.symm named.2) _ _
  have next (last : Option ρ) :
      getString (last.map (fun last => ("nextCursor".toList,Json.string (key last)))).toList "nextCursor" = last.map key := by
    cases last <;> rfl
  unfold pageResult shownPage pageOf
  dsimp only
  rw [same]
  simp only [more,decide_eq_true_eq]
  by_cases full : limit < rest.length
  · rw [if_pos full,if_pos full,← next]
    exact shown_object _ _ _ (absent _) named
  · rw [if_neg full,if_neg full]
    exact shown_object _ _ _ rfl named

end Client

section Keyset
variable {α γ κ ω : Type} [LinearOrder ω] {members : Members} {limits : Nat → Nat} {name : String}
  {check : Members → Except String (Nat × κ)} {rest : Nat × κ → McpToolResult}
  {parse : Text → Option γ} {whole : List α} {order : α → ω} {form : α → Json}
  {key : α → Text} {accepts : α → Prop} [DecidablePred accepts]

/-- A tool whose query answers with the rows after a position turns the pages of its rows. -/
theorem keyset_turns (read : α → Prop) [DecidablePred read] (cursor : α → γ) (place : γ → ω)
    (valid : γ → Bool) (resume : Option γ → Nat → κ) (positive : ∀ n, 1 ≤ limits n) (sorted : whole.Pairwise (fun a b => order a < order b))
    (asks : ∀ n cursor, check (asked members (limits n) cursor) =
      (continued parse cursor).map (fun after => (limits n,resume after (limits n+1))))
    (shows : ∀ n after, shown name (rest (limits n,resume after (limits n+1))) = if after.all valid then
      some (shownPage form key (whole.filter (fun row => after.all (fun c => place c < order row))) (limits n)) else none)
    (reads : ∀ row ∈ whole, parse (key row) = if read row then some (cursor row) else none)
    (placed : ∀ row ∈ whole, place (cursor row) = order row)
    (accepted : ∀ row, accepts row ↔ read row ∧ valid (cursor row) = true) :
    Turns form key (fun cursor limit => shown name (checked (some (asked members limit cursor)) check rest)) limits whole
      accepts := by
  constructor
  · exact positive
  · intro n
    rw [checked,asks]
    exact (shows n none).trans (by simp)
  · intro n m row here
    have member := List.mem_of_getElem? here
    rw [checked,asks,continued,reads row member]
    by_cases known : read row
    · have behind : whole.filter (fun other => (some (cursor row)).all (fun c => place c < order other)) =
          whole.drop (m+1) := by
        rw [← filter_after sorted here]
        simp only [Option.all_some,placed row member]
      rw [if_pos known]
      dsimp only [Except.map]
      rw [shows,behind,Option.all_some]
      simp only [accepted,known,true_and]
    · rw [if_neg known,if_neg (fun both => known ((accepted row).mp both).1)]
      rfl

end Keyset

section Queries
variable {lib : JsonLibrary} {configured : Text} {members : Members} {limit n m : Nat} {cursor : Option Text}

def RecordQuery.resume : RecordQuery → Option Cursor → Nat → RecordQuery
  | .symbols query,after,limit => .symbols {query with after, limit}
  | .identity query,after,limit => .identity {query with after, limit}

def RecordQuery.options : RecordQuery → QueryOptions
  | .symbols query => query
  | .identity query => query.options

/-- The tools that answer with records by a cursor of their key. -/
inductive RecordTool where
  | search | definitions | references

def RecordTool.query (lib : JsonLibrary) (configured : Text) : RecordTool → Members → Except String (Nat × RecordQuery)
  | .search,members => searchQuery lib configured members
  | .definitions,members => relatedQuery lib configured members .definition
  | .references,members => relatedQuery lib configured members .reference

def RecordTool.call (lib : JsonLibrary) (db : Db) (configured : Text) (control : Control) :
    RecordTool → Option Members → McpToolResult
  | .search => searchSymbols lib db configured control
  | .definitions => relatedRecords lib db configured control .definition
  | .references => relatedRecords lib db configured control .reference

theorem RecordTool.call_checked (tool : RecordTool) (db : Db) (control : Control) (arguments : Option Members) :
    tool.call lib db configured control arguments =
      checked arguments (tool.query lib configured) (answerRecords lib db control) := by
  cases tool <;> rfl

theorem searchQuery_asked {query : RecordQuery} (limitedFirst : 1 ≤ n ∧ n ≤ MAX_LIMIT) (limited : 1 ≤ limit ∧ limit ≤ MAX_LIMIT)
    (first : searchQuery lib configured (asked members n none) = .ok (m,query)) :
    searchQuery lib configured (asked members limit cursor) =
      (continued (recordAfter lib) cursor).map (fun after => (limit,query.resume after (limit+1))) := by
  unfold searchQuery at first ⊢
  rw [getString_asked (by decide),variant_asked,limit_asked limitedFirst,after_asked,kind_asked] at first
  rw [getString_asked (by decide),variant_asked,limit_asked limited,after_asked,kind_asked]
  cases known : getString members "pattern" with
  | none => simp [known] at first
  | some pattern =>
    cases chosen : selectedVariant (variantArgument members) configured with
    | none => simp [chosen] at first
    | some selected =>
      simp only [known,chosen] at first ⊢
      by_cases empty : pattern = []
      · rw [if_pos empty] at first
        cases first
      rw [if_neg empty] at first ⊢
      cases kind : kindArgument members with
      | error message => simp [kind,continued,bind,Except.bind] at first
      | ok kind =>
        simp only [kind,continued,bind,Except.bind,pure,Except.pure,Except.ok.injEq,Prod.mk.injEq] at first
        obtain ⟨_,rfl⟩ := first
        cases continued (recordAfter lib) cursor <;> rfl

theorem relatedQuery_asked {filter : RecordFilter} {query : RecordQuery} (limitedFirst : 1 ≤ n ∧ n ≤ MAX_LIMIT)
    (limited : 1 ≤ limit ∧ limit ≤ MAX_LIMIT) (first : relatedQuery lib configured (asked members n none) filter = .ok (m,query)) :
    relatedQuery lib configured (asked members limit cursor) filter =
      (continued (recordAfter lib) cursor).map (fun after => (limit,query.resume after (limit+1))) := by
  unfold relatedQuery at first ⊢
  have others : ∀ name ∈ ["symbol","usrId","kind","context"], ∀ n cursor,
      getString (asked members n cursor) name = getString members name := by
    intro name listed n cursor
    refine getString_asked ?_
    revert listed name
    decide
  rw [others "symbol" (by decide),others "usrId" (by decide),others "kind" (by decide),others "context" (by decide),
    getBoolean_asked (by decide),variant_asked,limit_asked limitedFirst,after_asked] at first
  rw [others "symbol" (by decide),others "usrId" (by decide),others "kind" (by decide),others "context" (by decide),
    getBoolean_asked (by decide),variant_asked,limit_asked limited,after_asked]
  cases symbol : getString members "symbol" with
  | none => simp [symbol] at first
  | some symbol =>
    cases selected : selectedVariant (variantArgument members) configured with
    | none => simp [selected] at first
    | some selected =>
      simp only [symbol,selected] at first ⊢
      split_ifs at first ⊢
      simp only [continued,bind,Except.bind] at first
      cases usr : getString members "usrId" with
      | none =>
        simp only [usr,pure,Except.pure,Except.ok.injEq,Prod.mk.injEq] at first
        obtain ⟨_,rfl⟩ := first
        cases continued (recordAfter lib) cursor <;> rfl
      | some value =>
        simp only [usr] at first
        split at first
        · rename_i id kind parsed known
          split_ifs at first
          rename_i nonzero
          simp only [pure,Except.pure,Except.ok.injEq,Prod.mk.injEq] at first
          obtain ⟨_,rfl⟩ := first
          cases continued (recordAfter lib) cursor with
          | error message => rfl
          | ok after =>
            simp only [bind,Except.bind,parsed,known]
            rw [if_neg nonzero]
            rfl
        · cases first

theorem RecordTool.query_asked {tool : RecordTool} {query : RecordQuery} (limitedFirst : 1 ≤ n ∧ n ≤ MAX_LIMIT)
    (limited : 1 ≤ limit ∧ limit ≤ MAX_LIMIT) (first : tool.query lib configured (asked members n none) = .ok (m,query)) :
    tool.query lib configured (asked members limit cursor) =
      (continued (recordAfter lib) cursor).map (fun after => (limit,query.resume after (limit+1))) := by
  cases tool with
  | search => exact searchQuery_asked limitedFirst limited first
  | definitions => exact relatedQuery_asked limitedFirst limited first
  | references => exact relatedQuery_asked limitedFirst limited first

end Queries
section Records
variable {lib : JsonLibrary} {db : Db} {control : Control} {limit : Nat}

theorem shownPage_map {α β γ κ : Type} (form : β → γ) (key : β → κ) (f : α → β) (rest : List α) (limit : Nat) :
    shownPage form key (rest.map f) limit = shownPage (form ∘ f) (key ∘ f) rest limit := by
  simp only [shownPage,pageOf,List.length_map,← List.map_take,List.map_map,List.getLast?_map,Option.map_map]

theorem emit_collectRecord (going : control.stopped = false) (rows : List RecordRow) (records : List DbRecord)
    (room : records.length ≤ limit) :
    (emitRecords (collectRecord control limit) 0 rows ⟨records,false⟩).1 =
        ⟨records ++ (rows.map dbRecord).take (limit + 1 - records.length),false⟩ ∧
      0 ≤ (emitRecords (collectRecord control limit) 0 rows ⟨records,false⟩).2 := by
  induction rows generalizing records with
  | nil => simp [emitRecords]
  | cons row rows ih =>
    have left : limit + 1 - records.length = (limit - records.length) + 1 := by omega
    simp only [emitRecords,collectRecord,going,ne_eq,not_true_eq_false,decide_false,Bool.false_and,
      Bool.false_eq_true,if_false,List.map_cons]
    by_cases full : limit < (records ++ [dbRecord row]).length
    · have last : limit - records.length = 0 := by
        rw [List.length_append,List.length_singleton] at full
        omega
      rw [if_pos full,left,last]
      simp
    · have more := ih (records ++ [dbRecord row]) (by omega)
      have rest : limit + 1 - (records ++ [dbRecord row]).length = limit - records.length := by simp
      rw [rest,List.append_assoc] at more
      rw [if_neg full,left]
      simpa using more

/-- What the reader asks of an identity; a query of names is taken as it is. -/
def RecordQuery.Known : RecordQuery → Prop
  | .symbols _ => True
  | .identity query => query.identity.Named ∧ query.identity.kind ≤ SymbolKind.template.code

theorem run_known {σ : Type} {query : RecordQuery} (known : query.Known) (callback : Callback σ DbRecord) (data : σ) :
    query.run db callback data = semindexDbQuery db query.options callback data := by
  cases query with
  | symbols query => rfl
  | identity query =>
    obtain ⟨⟨variant,symbol,usrId⟩,kind⟩ := known
    unfold RecordQuery.run semindexDbQueryIdentity
    dsimp only
    rw [if_neg (by simp [variant,symbol]; exact usrId),if_neg (by omega)]
    rfl

theorem run_unknown {σ : Type} {query : RecordQuery} (unknown : ¬ query.Known) (callback : Callback σ DbRecord) (data : σ) :
    query.run db callback data = (data,-1) := by
  cases query with
  | symbols query => exact absurd trivial unknown
  | identity query =>
    unfold RecordQuery.run semindexDbQueryIdentity
    dsimp only
    split_ifs with unnamed kind
    · rfl
    · rfl
    · simp only [Bool.or_eq_true,decide_eq_true_eq,not_or] at unnamed
      exact absurd ⟨⟨unnamed.1.1,unnamed.1.2,unnamed.2⟩,by omega⟩ unknown

/-- The rows that a query selects, without its limit and its cursor. -/
def RecordQuery.rows (query : RecordQuery) (db : Db) : List RecordRow :=
  orderBy recordOrder ((joinedRecords db).filter query.options.selects)

theorem resume_options (query : RecordQuery) (after : Option Cursor) (limit : Nat) :
    (query.resume after limit).options = {query.options with after, limit} ∧
      ((query.resume after limit).Known ↔ query.Known) := by
  cases query <;> exact ⟨rfl,Iff.rfl⟩

theorem shown_failed {ρ : Type} (data : Collector ρ) (result : List ρ → Json) (name : String) :
    shown name (answer control (data,-1) result) = none := by
  unfold answer
  split_ifs
  · unfold stoppedResult
    split_ifs <;> rfl
  · rfl
  · rename_i positive
    exact absurd (show (-1 : Int) < 0 by decide) positive

/-- The page of a tool, by where it continues from. -/
theorem shown_answerRecords (going : control.stopped = false) (limited : limit ≤ MAX_LIMIT) {query : RecordQuery}
    (known : query.Known) (after : Option Cursor) :
    shown "records" (answerRecords lib db control (limit,query.resume after (limit+1))) =
      if after.all validCursor then some (shownPage (recordObject ∘ dbRecord) (recordKey lib ∘ dbRecord)
        ((query.rows db).filter (fun row => after.all (fun cursor => cursor.place < recordOrder row))) limit)
      else none := by
  obtain ⟨options,same⟩ := resume_options query after (limit+1)
  have fits : ¬ LLONG_MAX < limit+1 := by
    have most : MAX_LIMIT = 200 := rfl
    have least : 200 < LLONG_MAX := by decide
    omega
  have selected : QueryOptions.select {query.options with after := after, limit := limit+1} db =
      ((query.rows db).filter (fun row => after.all (fun cursor => cursor.place < recordOrder row))).take (limit+1) := by
    rw [QueryOptions.select,RecordQuery.rows,← orderBy_filter (recordOrder_distinct _),List.filter_filter,
      Relational.limited,if_neg (Nat.succ_ne_zero limit)]
    simp only [Bool.and_comm]
    rfl
  unfold answerRecords
  dsimp only
  rw [run_known (same.mpr known),options,semindexDbQuery]
  dsimp only
  rw [if_neg fits]
  by_cases accepted : after.all validCursor = true
  · have valid : after.any (fun cursor => !validCursor cursor) = false := by
      cases after with
      | none => rfl
      | some cursor => simpa using accepted
    rw [if_pos accepted,valid,if_neg Bool.false_ne_true,selected]
    obtain ⟨records,done⟩ := @emit_collectRecord control limit going
      (((query.rows db).filter (fun row => after.all (fun cursor => cursor.place < recordOrder row))).take (limit+1)) []
      (Nat.zero_le _)
    generalize emitRecords _ 0 _ _ = result at records done
    obtain ⟨collector,ret⟩ := result
    dsimp only at records done
    subst records
    unfold answer
    dsimp only
    rw [going,Bool.or_false,if_neg Bool.false_ne_true,if_neg (by omega),List.nil_append,List.map_take,List.length_nil,
      Nat.sub_zero,List.take_take,Nat.min_self,recordsResult,shown_pageResult _ _ _ (by decide),shownPage_map]
  · have invalid : after.any (fun cursor => !validCursor cursor) = true := by
      cases after with
      | none => exact absurd rfl accepted
      | some cursor => simpa using accepted
    rw [if_neg accepted,if_pos invalid,shown_failed]

-- a text that a C string holds
def Terminated (text : Text) : Prop := Char.ofNat 0 ∉ text

/-- What the columns of a record hold is what a result has room for. -/
structure RecordFits (row : RecordRow) : Prop where
  variant : Terminated row.variant
  path : Terminated row.path
  symbol : Terminated row.key.symbol
  action : row.key.action < 2^32
  mode : row.key.mode < 2^32
  line : row.key.line < 2^32
  column : row.key.column < 2^32

theorem fromBytes_utf8 {text : Text} (terminated : Terminated text) : fromBytes (utf8 text) = text := by
  rw [fromBytes,decode_utf8,Option.getD_some,cString,List.takeWhile_eq_self_iff]
  intro c member
  exact decide_eq_true (fun same => terminated (same ▸ member))

theorem recordTypeOf_code (record : RecordType) : recordTypeOf (RecordType.code record) = record := by
  cases record <;> rfl

theorem cursorFrom_placeOf {cursor : Cursor} (variant : Terminated cursor.variant) (path : Terminated cursor.path)
    (symbol : Terminated cursor.symbol) : cursorFrom (placeOf cursor) = cursor := by
  unfold cursorFrom placeOf
  dsimp only
  rw [fromBytes_utf8 variant,fromBytes_utf8 path,fromBytes_utf8 symbol,recordTypeOf_code]
  rfl

/-- A cursor is taken back as the key of its record, where the record has a line and a column. -/
theorem recordAfter_key {row : RecordRow} (fits : RecordFits row) (kind : row.key.kind ≤ SymbolKind.template.code) :
    recordAfter lib (recordKey lib (dbRecord row)) =
      if row.key.line ≠ 0 ∧ row.key.column ≠ 0 then some (cursorOf (dbRecord row)) else none := by
  by_cases placed : row.key.line ≠ 0 ∧ row.key.column ≠ 0
  · have known : InRange (cursorOf (dbRecord row)) :=
      ⟨fits.action,kind,fits.mode,⟨Nat.pos_of_ne_zero placed.1,fits.line⟩,⟨Nat.pos_of_ne_zero placed.2,fits.column⟩⟩
    rw [if_pos placed,recordAfter,recordKey,known.parsed,Option.map_some,
      cursorFrom_placeOf fits.variant fits.path fits.symbol]
  · rw [if_neg placed,recordAfter,recordKey,Option.map_eq_none_iff]
    by_contra parsed
    obtain ⟨place,parsed⟩ := Option.ne_none_iff_exists'.mp parsed
    obtain ⟨members,encodes,components⟩ := parseCursor_iff.mp parsed
    have read : ∃ others, Encodes lib (Cursors.recordCursor lib (placeOf (cursorOf (dbRecord row)))) others ∧
        ∀ name, Json.get others name = Json.get (recordMembers lib (placeOf (cursorOf (dbRecord row)))) name :=
      encodes_encodeCursor recordNames_plain.1 recordNames_plain.2 (recordMembers_leaves _)
    obtain ⟨others,own,same⟩ := read
    have one : members = others := Option.some.inj ((decodeCursor_iff.mpr encodes).symm.trans (decodeCursor_iff.mpr own))
    subst one
    have held {i : Nat} {name : String} {value : Json}
        (here : (recordMembers lib (placeOf (cursorOf (dbRecord row))))[i]? = some (name.toList,value)) :
        Json.get members name = some value := (same name).trans (get_member recordNames_plain.1 here)
    have wide : (2 : Int)^32 ≤ 2^63 := by decide
    have number {i : Nat} {name : String} {n : Nat} {low high value : Int} (small : n < 2^32)
        (here : (recordMembers lib (placeOf (cursorOf (dbRecord row))))[i]? = some (name.toList,number n))
        (component : HasInteger lib members name low high value) : low ≤ n := by
      obtain ⟨read,least,_⟩ := component
      rw [getInteger,held here] at read
      dsimp only [Cursors.number] at read
      rw [lib.integer_decimal n (by omega) (by omega)] at read
      exact Option.some.inj read ▸ least
    have line := number fits.line (i := 2) rfl components.line
    have column := number fits.column (i := 3) rfl components.column
    exact placed ⟨by omega,by omega⟩

end Records

section Paging
variable {lib : JsonLibrary} {db : Db} {control : Control} {configured : Text} {members : Members} {limits : Nat → Nat}
  {tool : RecordTool} {blake3 : List UInt8 → Fingerprint} {jobs : Job → Prop} {query : RecordQuery}

/-- The page that a client is shown behind a cursor. -/
def RecordTool.page (lib : JsonLibrary) (db : Db) (configured : Text) (control : Control) (tool : RecordTool) (members : Members)
    (cursor : Option Text) (limit : Nat) : Option (List Json × Option Text) :=
  shown "records" (tool.call lib db configured control (some (asked members limit cursor)))

theorem page_turns (reached : Reachable blake3 jobs db) (fits : ∀ row ∈ joinedRecords db, RecordFits row)
    (going : control.stopped = false) (limited : ∀ n, 1 ≤ limits n ∧ limits n ≤ MAX_LIMIT) (known : query.Known)
    (asks : ∀ n cursor, tool.query lib configured (asked members (limits n) cursor) =
      (continued (recordAfter lib) cursor).map (fun after => (limits n,query.resume after (limits n+1)))) :
    Turns (recordObject ∘ dbRecord) (recordKey lib ∘ dbRecord) (tool.page lib db configured control members) limits
      (query.rows db) Resumable := by
  have stored : ∀ row ∈ query.rows db, row ∈ joinedRecords db :=
    fun row member => (List.mem_filter.mp (mem_orderBy.mp member)).1
  have same : tool.page lib db configured control members = fun cursor limit =>
      shown "records" (checked (some (asked members limit cursor)) (tool.query lib configured) (answerRecords lib db control)) := by
    funext cursor limit
    rw [RecordTool.page,RecordTool.call_checked]
  rw [same]
  refine keyset_turns (fun row => row.key.line ≠ 0 ∧ row.key.column ≠ 0) (cursorOf ∘ dbRecord) Cursor.place validCursor
    query.resume (fun n => (limited n).1) (orderBy_pairwise (recordOrder_distinct _)) asks (fun n after => shown_answerRecords going (limited n).2 known after) (fun row member => ?_) (fun row member => ?_)
    (fun row => ?_)
  · obtain ⟨_,kind,same⟩ := stored_codes reached (stored row member)
    exact recordAfter_key (fits row (stored row member)) (same ▸ code_le_template kind)
  · exact place_cursorOf (stored_codes reached (stored row member)).1
  · dsimp only [Function.comp_apply]
    rw [validCursor_iff]
    exact ⟨fun resumable => ⟨⟨resumable.line,resumable.column⟩,resumable⟩,And.right⟩

/-- Where a first page is answered, the pages that its cursors lead to are all the records that the query selects, in
order and once, just where each record that ends a page with more behind it can be continued from. -/
theorem record_pages_iff (reached : Reachable blake3 jobs db) (fits : ∀ row ∈ joinedRecords db, RecordFits row)
    (limited : ∀ n, 1 ≤ limits n ∧ limits n ≤ MAX_LIMIT)
    (answered : (tool.page lib db configured control members none (limits 0)).isSome) :
    ∃ n query, tool.query lib configured (asked members (limits 0) none) = .ok (n,query) ∧
      ((∃ calls, follow (tool.page lib db configured control members) limits calls 0 none =
          some ((query.rows db).map (recordObject ∘ dbRecord))) ↔
        ∀ n row, turning limits (query.rows db) n = some row → passed limits n < (query.rows db).length → Resumable row) := by
  have called := answered
  rw [RecordTool.page,RecordTool.call_checked,checked] at called
  cases first : tool.query lib configured (asked members (limits 0) none) with
  | error message =>
    rw [first] at called
    cases called
  | ok parsed =>
    obtain ⟨n,query⟩ := parsed
    refine ⟨n,query,rfl,?_⟩
    rw [first] at called
    dsimp only at called
    have going : control.stopped = false := by
      by_contra stopped
      have stops : control.stopped = true := by simpa using stopped
      rw [answerRecords,answer,stops,Bool.or_true,if_pos rfl,stoppedResult] at called
      split_ifs at called <;> cases called
    have known : query.Known := by
      by_contra unknown
      rw [answerRecords,run_unknown unknown,shown_failed] at called
      cases called
    refine (page_turns reached fits going limited known (fun n cursor => ?_)).follow_iff
    exact RecordTool.query_asked (limited 0) (limited n) first

instance (text : Text) : Decidable (Terminated text) := inferInstanceAs (Decidable (¬ _))

instance (row : RecordRow) : Decidable (RecordFits row) :=
  decidable_of_iff (Terminated row.variant ∧ Terminated row.path ∧ Terminated row.key.symbol ∧ row.key.action < 2^32 ∧
      row.key.mode < 2^32 ∧ row.key.line < 2^32 ∧ row.key.column < 2^32)
    ⟨fun ⟨variant,path,symbol,action,mode,line,column⟩ => ⟨variant,path,symbol,action,mode,line,column⟩,
      fun ⟨variant,path,symbol,action,mode,line,column⟩ => ⟨variant,path,symbol,action,mode,line,column⟩⟩

-- the uses of `foo`, one a page
theorem record_pages_placed : ∃ db, storeAll foldHash [placedJob "h.h" [(1,1),(1,5),(2,1)]] = some db ∧
    ∃ n query, RecordTool.search.query plainLibrary [] (asked [("pattern".toList,.string "foo".toList)] 1 none) = .ok (n,query) ∧
      ∃ calls, follow (RecordTool.search.page plainLibrary db [] Requests.Control.new [("pattern".toList,.string "foo".toList)])
        (fun _ => 1) calls 0 none = some ((query.rows db).map (recordObject ∘ dbRecord)) := by
  have checked : (storeAll foldHash [placedJob "h.h" [(1,1),(1,5),(2,1)]]).map (fun db =>
      decide (∀ row ∈ joinedRecords db, RecordFits row ∧ Resumable row) &&
        (RecordTool.search.page plainLibrary db [] Requests.Control.new [("pattern".toList,.string "foo".toList)] none 1).isSome) =
      some true := by decide +kernel
  obtain ⟨db,stored,both⟩ := Option.map_eq_some_iff.mp checked
  obtain ⟨rows,answered⟩ := (Bool.and_eq_true _ _).mp both
  have placed := of_decide_eq_true rows
  have reached : Reachable foldHash (fun _ => True) db := reachable_storeAll _ (fun _ _ => trivial) stored
  obtain ⟨n,query,asks,pages⟩ := record_pages_iff reached (fun row member => (placed row member).1)
    (fun _ => ⟨Nat.le_refl 1,by decide⟩) answered
  refine ⟨db,stored,n,query,asks,pages.mpr ?_⟩
  intro m row turned _
  unfold turning at turned
  split at turned
  · cases turned
  · exact (placed row (List.mem_filter.mp (mem_orderBy.mp (List.mem_of_getElem? turned))).1).2

end Paging
section Types
variable {lib : JsonLibrary} {db : Db} {control : Control} {configured : Text} {members : Members} {limit n m : Nat}
  {cursor : Option Text} {blake3 : List UInt8 → Fingerprint} {jobs : Job → Prop}

theorem emit_collectType {ρ : Type} (going : control.stopped = false) (limit count : Nat) (rows records : List ρ) :
    emitCounted (collectType control) limit count rows ⟨records,false⟩ =
      (⟨records ++ if limit = 0 then rows else rows.take (limit-count),false⟩,0) := by
  induction rows generalizing count records with
  | nil => simp [emitCounted]
  | cons row rows ih =>
    rw [emitCounted]
    by_cases unlimited : limit = 0
    · subst unlimited
      simp [collectType,going,ih]
    · by_cases room : count < limit
      · have one : limit - count = (limit - (count+1)) + 1 := by omega
        simp [unlimited,room,collectType,going,ih,one]
      · have full : limit - count = 0 := by omega
        simp [unlimited,room,full]

theorem shown_types {ρ : Type} {form : ρ → Json} {key : ρ → Text} (going : control.stopped = false) (rows : List ρ) :
    shown "types" (answer control (emitCounted (collectType control) (limit+1) 0 rows ⟨[],false⟩)
      (fun records => pageResult "types" form key records limit)) = some (shownPage form key rows limit) := by
  rw [emit_collectType going,answer]
  dsimp only
  rw [going,Bool.or_false,if_neg Bool.false_ne_true,if_neg (by decide),if_neg (Nat.succ_ne_zero limit),Nat.sub_zero,
    List.nil_append,shown_pageResult _ _ _ (by decide)]

theorem declaredTypesQuery_asked {query : SymbolTypeQuery} (limitedFirst : 1 ≤ n ∧ n ≤ MAX_LIMIT)
    (limited : 1 ≤ limit ∧ limit ≤ MAX_LIMIT)
    (first : declaredTypesQuery lib configured (asked members n none) = .ok (m,query)) :
    declaredTypesQuery lib configured (asked members limit cursor) =
      (continued (typeAfter lib) cursor).map (fun after => (limit,{query with after := after, limit := limit+1})) := by
  unfold declaredTypesQuery at first ⊢
  rw [@getString_asked _ _ _ "symbol" (by decide),@getString_asked _ _ _ "usrId" (by decide),
    @getString_asked _ _ _ "kind" (by decide),variant_asked,limit_asked limitedFirst,after_asked] at first
  rw [@getString_asked _ _ _ "symbol" (by decide),@getString_asked _ _ _ "usrId" (by decide),
    @getString_asked _ _ _ "kind" (by decide),variant_asked,limit_asked limited,after_asked]
  split at first
  · dsimp only at first ⊢
    split_ifs at first ⊢
    split at first
    · split_ifs at first with zero
      rw [if_neg zero]
      simp only [continued,bind,Except.bind,pure,Except.pure,Except.ok.injEq,Prod.mk.injEq] at first
      obtain ⟨_,rfl⟩ := first
      cases continued (typeAfter lib) cursor <;> rfl
    · cases first
  · cases first

theorem functionSignatureQuery_asked {query : FunctionTypeQuery} (limitedFirst : 1 ≤ n ∧ n ≤ MAX_LIMIT)
    (limited : 1 ≤ limit ∧ limit ≤ MAX_LIMIT)
    (first : functionSignatureQuery lib configured (asked members n none) = .ok (m,query)) :
    functionSignatureQuery lib configured (asked members limit cursor) =
      (continued (functionTypeAfter lib) cursor).map (fun after => (limit,{query with after := after, limit := limit+1})) := by
  unfold functionSignatureQuery at first ⊢
  rw [@getString_asked _ _ _ "symbol" (by decide),@getString_asked _ _ _ "usrId" (by decide),variant_asked,
    limit_asked limitedFirst,after_asked] at first
  rw [@getString_asked _ _ _ "symbol" (by decide),@getString_asked _ _ _ "usrId" (by decide),variant_asked,
    limit_asked limited,after_asked]
  split at first
  · dsimp only at first ⊢
    split_ifs at first ⊢
    split at first
    · split_ifs at first with zero
      rw [if_neg zero]
      simp only [continued,bind,Except.bind,pure,Except.pure,Except.ok.injEq,Prod.mk.injEq] at first
      obtain ⟨_,rfl⟩ := first
      cases continued (functionTypeAfter lib) cursor <;> rfl
    · cases first
  · cases first

structure SymbolTypeFits (row : SymbolTypeRow) : Prop where
  declaredType : Terminated row.key.declaredType
  canonicalType : Terminated row.key.canonicalType
  typeSymbol : Terminated row.key.typeSymbol
  path : Terminated row.path

structure FunctionTypeFits (row : FunctionTypeRow) : Prop where
  declaredType : Terminated row.key.declaredType
  canonicalType : Terminated row.key.canonicalType
  typeSymbol : Terminated row.key.typeSymbol
  path : Terminated row.path
  position : row.key.position ≤ INT_MAX

theorem typeAfter_key {row : SymbolTypeRow} (fits : SymbolTypeFits row)
    (known : -1 ≤ row.key.typeKind ∧ row.key.typeKind ≤ SymbolKind.template.code) :
    typeAfter lib (typeKey lib (dbSymbolType row)) = some (symbolTypeCursorOf (dbSymbolType row)) := by
  have placed : (PageRow.symbolType ⟨typePlace (symbolTypeCursorOf (dbSymbolType row)),known⟩).Placed :=
    ⟨⟨_,rfl⟩,⟨_,rfl⟩,⟨_,rfl⟩,⟨_,rfl⟩⟩
  have restored := (@restored_type lib _).mpr placed
  unfold Restored at restored
  change (parseTypeCursor lib (typeKey lib (dbSymbolType row))).map typeCursorFrom = _
  rw [typeKey,restored,Option.map_some]
  change some (typeCursorFrom (typePlace (symbolTypeCursorOf (dbSymbolType row)))) = _
  unfold typeCursorFrom typePlace symbolTypeCursorOf dbSymbolType
  dsimp only
  rw [fromBytes_utf8 fits.declaredType,fromBytes_utf8 fits.canonicalType,fromBytes_utf8 fits.typeSymbol,fromBytes_utf8 fits.path]

theorem functionTypeAfter_key {row : FunctionTypeRow} (fits : FunctionTypeFits row)
    (known : -1 ≤ row.key.position ∧ -1 ≤ row.key.typeKind ∧ row.key.typeKind ≤ SymbolKind.template.code) :
    functionTypeAfter lib (functionTypeKey lib (dbFunctionType row)) = some (functionTypeCursorOf (dbFunctionType row)) := by
  have placed : (PageRow.functionType
      ⟨functionTypePlace (functionTypeCursorOf (dbFunctionType row)),known.2,known.1,fits.position⟩).Placed :=
    ⟨⟨_,rfl⟩,⟨_,rfl⟩,⟨_,rfl⟩,⟨_,rfl⟩⟩
  have restored := (@restored_functionType lib _).mpr placed
  unfold Restored at restored
  change (parseFunctionTypeCursor lib (functionTypeKey lib (dbFunctionType row))).map functionTypeCursorFrom = _
  rw [functionTypeKey,restored,Option.map_some]
  change some (functionTypeCursorFrom (functionTypePlace (functionTypeCursorOf (dbFunctionType row)))) = _
  unfold functionTypeCursorFrom functionTypePlace functionTypeCursorOf dbFunctionType
  dsimp only
  rw [fromBytes_utf8 fits.declaredType,fromBytes_utf8 fits.canonicalType,fromBytes_utf8 fits.typeSymbol,fromBytes_utf8 fits.path]

def typeRows (query : SymbolTypeQuery) (db : Db) : List SymbolTypeRow :=
  orderBy symbolTypeOrder ((joinedSymbolTypes db).filter query.identity.selectsTypes)

def functionTypeRows (query : FunctionTypeQuery) (db : Db) : List FunctionTypeRow :=
  orderBy functionTypeOrder ((joinedFunctionTypes db).filter query.identity.selectsSignatures)

/-- The page of types that a client is shown behind a cursor. -/
def typePage (tool : Option Members → McpToolResult) (members : Members) (cursor : Option Text) (limit : Nat) :
    Option (List Json × Option Text) :=
  shown "types" (tool (some (asked members limit cursor)))

-- a page is only answered where the request goes on and its query is one
theorem answered_going {ρ κ : Type} {check : Members → Except String κ} {run : κ → Collector ρ × Int}
    {result : κ → List ρ → Json} {arguments : Members} {name : String}
    (answered : (shown name (checked (some arguments) check (fun query => answer control (run query) (result query)))).isSome) :
    control.stopped = false ∧ ∃ query, check arguments = .ok query ∧ 0 ≤ (run query).2 := by
  rw [checked] at answered
  cases first : check arguments with
  | error message =>
    rw [first] at answered
    cases answered
  | ok query =>
    rw [first] at answered
    dsimp only at answered
    unfold answer at answered
    split_ifs at answered with stopped failed
    · unfold stoppedResult at answered
      split_ifs at answered <;> cases answered
    · cases answered
    · simp only [Bool.or_eq_true,not_or,Bool.not_eq_true] at stopped
      exact ⟨stopped.2,query,rfl,by omega⟩

theorem declaredTypes_turns {limits : Nat → Nat} {query : SymbolTypeQuery} (reached : Reachable blake3 jobs db)
    (fits : ∀ row ∈ joinedSymbolTypes db, SymbolTypeFits row) (going : control.stopped = false)
    (limited : ∀ n, 1 ≤ limits n ∧ limits n ≤ MAX_LIMIT)
    (known : query.identity.Named ∧ query.identity.kind ≤ SymbolKind.template.code)
    (first : declaredTypesQuery lib configured (asked members (limits 0) none) = .ok (m,query)) :
    Turns (symbolTypeObject ∘ dbSymbolType) (typeKey lib ∘ dbSymbolType)
      (typePage (declaredTypes lib db configured control) members) limits (typeRows query db) (fun _ => True) := by
  obtain ⟨⟨variant,symbol,usrId⟩,kind⟩ := known
  have shows : ∀ n (after : Option SymbolTypeCursor), shown "types" (answer control
      (semindexDbQuerySymbolTypes db {query with after := after, limit := limits n+1} (collectSymbolType control) ⟨[],false⟩)
      (fun records => symbolTypesResult lib records (limits n))) = if after.all (fun _ => true) then
        some (shownPage (symbolTypeObject ∘ dbSymbolType) (typeKey lib ∘ dbSymbolType)
          ((typeRows query db).filter (fun row => after.all (fun c => c.place < symbolTypeOrder row))) (limits n)) else none := by
    intro n after
    rw [semindexDbQuerySymbolTypes]
    dsimp only
    rw [if_neg variant,if_neg (by simp [symbol]; exact usrId),if_neg (by omega),if_pos (by cases after <;> rfl)]
    refine (shown_types going _).trans ?_
    rw [shownPage_map,SymbolTypeQuery.select,typeRows,← orderBy_filter (symbolTypeOrder_distinct _),List.filter_filter]
    simp only [Bool.and_comm]
  refine keyset_turns (fun _ => True) (symbolTypeCursorOf ∘ dbSymbolType) SymbolTypeCursor.place (fun _ => true)
    (fun after limit => {query with after := after, limit := limit}) (fun n => (limited n).1) (orderBy_pairwise (symbolTypeOrder_distinct query.identity))
    (fun n cursor => declaredTypesQuery_asked (limited 0) (limited n) first) shows (fun row member => ?_)
    (fun _ _ => rfl) (fun _ => by simp)
  have stored := (List.mem_filter.mp (mem_orderBy.mp member)).1
  exact typeAfter_key (fits row stored) (stored_symbolType reached stored)

theorem functionSignature_turns {limits : Nat → Nat} {query : FunctionTypeQuery} (reached : Reachable blake3 jobs db)
    (fits : ∀ row ∈ joinedFunctionTypes db, FunctionTypeFits row) (going : control.stopped = false)
    (limited : ∀ n, 1 ≤ limits n ∧ limits n ≤ MAX_LIMIT)
    (known : query.identity.Named ∧ query.identity.kind = SymbolKind.function.code)
    (first : functionSignatureQuery lib configured (asked members (limits 0) none) = .ok (m,query)) :
    Turns (functionTypeObject ∘ dbFunctionType) (functionTypeKey lib ∘ dbFunctionType)
      (typePage (functionSignature lib db configured control) members) limits (functionTypeRows query db) (fun _ => True) := by
  obtain ⟨⟨variant,symbol,usrId⟩,kind⟩ := known
  have shows : ∀ n (after : Option FunctionTypeCursor), shown "types" (answer control
      (semindexDbQueryFunctionTypes db {query with after := after, limit := limits n+1} (collectFunctionType control) ⟨[],false⟩)
      (fun records => functionTypesResult lib records (limits n))) = if after.all (fun _ => true) then
        some (shownPage (functionTypeObject ∘ dbFunctionType) (functionTypeKey lib ∘ dbFunctionType)
          ((functionTypeRows query db).filter (fun row => after.all (fun c => c.place < functionTypeOrder row))) (limits n))
        else none := by
    intro n after
    rw [semindexDbQueryFunctionTypes]
    dsimp only
    rw [if_neg (by simp [variant,symbol]),if_neg (by simp [kind]; exact usrId),if_pos (by cases after <;> rfl)]
    refine (shown_types going _).trans ?_
    rw [shownPage_map,FunctionTypeQuery.select,functionTypeRows,← orderBy_filter (functionTypeOrder_distinct _),
      List.filter_filter]
    simp only [Bool.and_comm]
  refine keyset_turns (fun _ => True) (functionTypeCursorOf ∘ dbFunctionType) FunctionTypeCursor.place (fun _ => true)
    (fun after limit => {query with after := after, limit := limit}) (fun n => (limited n).1) (orderBy_pairwise (functionTypeOrder_distinct query.identity))
    (fun n cursor => functionSignatureQuery_asked (limited 0) (limited n) first) shows (fun row member => ?_)
    (fun _ _ => rfl) (fun _ => by simp)
  have stored := (List.mem_filter.mp (mem_orderBy.mp member)).1
  exact functionTypeAfter_key (fits row stored) (stored_functionType reached stored)

/-- The types of a symbol and the signature of a function are always paged through to the end. -/
theorem type_pages_complete {limits : Nat → Nat} (reached : Reachable blake3 jobs db)
    (fits : (∀ row ∈ joinedSymbolTypes db, SymbolTypeFits row) ∧ ∀ row ∈ joinedFunctionTypes db, FunctionTypeFits row)
    (limited : ∀ n, 1 ≤ limits n ∧ limits n ≤ MAX_LIMIT) :
    ((typePage (declaredTypes lib db configured control) members none (limits 0)).isSome →
      ∃ n query, declaredTypesQuery lib configured (asked members (limits 0) none) = .ok (n,query) ∧
        ∃ calls, follow (typePage (declaredTypes lib db configured control) members) limits calls 0 none =
          some ((typeRows query db).map (symbolTypeObject ∘ dbSymbolType))) ∧
    ((typePage (functionSignature lib db configured control) members none (limits 0)).isSome →
      ∃ n query, functionSignatureQuery lib configured (asked members (limits 0) none) = .ok (n,query) ∧
        ∃ calls, follow (typePage (functionSignature lib db configured control) members) limits calls 0 none =
          some ((functionTypeRows query db).map (functionTypeObject ∘ dbFunctionType))) := by
  have failed : ¬ (0 : Int) ≤ -1 := by decide
  constructor
  · intro answered
    obtain ⟨going,⟨n,query⟩,first,ran⟩ := answered_going answered
    refine ⟨n,query,first,?_⟩
    have known : query.identity.Named ∧ query.identity.kind ≤ SymbolKind.template.code := by
      unfold semindexDbQuerySymbolTypes at ran
      dsimp only at ran
      split_ifs at ran with variant symbol kind
      · exact absurd ran failed
      · exact absurd ran failed
      · exact absurd ran failed
      · simp only [Bool.or_eq_true,decide_eq_true_eq,not_or] at symbol
        exact ⟨⟨variant,symbol.1,symbol.2⟩,by omega⟩
    exact (declaredTypes_turns reached fits.1 going limited known first).follow_iff.mpr (fun _ _ _ _ => trivial)
  · intro answered
    obtain ⟨going,⟨n,query⟩,first,ran⟩ := answered_going answered
    refine ⟨n,query,first,?_⟩
    have known : query.identity.Named ∧ query.identity.kind = SymbolKind.function.code := by
      unfold semindexDbQueryFunctionTypes at ran
      dsimp only at ran
      split_ifs at ran with named usr
      · exact absurd ran failed
      · exact absurd ran failed
      · simp only [Bool.or_eq_true,decide_eq_true_eq,not_or] at named usr
        exact ⟨⟨named.1,named.2,usr.1⟩,not_not.mp usr.2⟩
    exact (functionSignature_turns reached fits.2 going limited known first).follow_iff.mpr (fun _ _ _ _ => trivial)

instance (row : SymbolTypeRow) : Decidable (SymbolTypeFits row) :=
  decidable_of_iff (Terminated row.key.declaredType ∧ Terminated row.key.canonicalType ∧ Terminated row.key.typeSymbol ∧
      Terminated row.path)
    ⟨fun ⟨declared,canonical,symbol,path⟩ => ⟨declared,canonical,symbol,path⟩,
      fun ⟨declared,canonical,symbol,path⟩ => ⟨declared,canonical,symbol,path⟩⟩

instance (row : FunctionTypeRow) : Decidable (FunctionTypeFits row) :=
  decidable_of_iff (Terminated row.key.declaredType ∧ Terminated row.key.canonicalType ∧ Terminated row.key.typeSymbol ∧
      Terminated row.path ∧ row.key.position ≤ INT_MAX)
    ⟨fun ⟨declared,canonical,symbol,path,position⟩ => ⟨declared,canonical,symbol,path,position⟩,
      fun ⟨declared,canonical,symbol,path,position⟩ => ⟨declared,canonical,symbol,path,position⟩⟩

def memberArguments : Members := [
  ("symbol".toList,.string "app::Codec::read".toList),
  ("usrId".toList,.string (idString (textHash memberUsr))),
  ("kind".toList,.string "function".toList),
  ("variant".toList,.string "v".toList)]

-- a member function with a parameter, one type a page
theorem type_pages_member : ∃ db,
    storeAll foldHash [sampleJob (tableFs []) "a.c" (memberIndex ["codec.h".toList] 0 (by decide))] = some db ∧
    (∃ n query, declaredTypesQuery plainLibrary [] (asked memberArguments 1 none) = .ok (n,query) ∧
      ∃ calls, follow (typePage (declaredTypes plainLibrary db [] Control.new) memberArguments) (fun _ => 1) calls 0 none =
        some ((typeRows query db).map (symbolTypeObject ∘ dbSymbolType))) ∧
    ∃ n query, functionSignatureQuery plainLibrary [] (asked memberArguments 1 none) = .ok (n,query) ∧
      ∃ calls, follow (typePage (functionSignature plainLibrary db [] Control.new) memberArguments) (fun _ => 1) calls 0 none =
        some ((functionTypeRows query db).map (functionTypeObject ∘ dbFunctionType)) := by
  have checked : (storeAll foldHash [sampleJob (tableFs []) "a.c" (memberIndex ["codec.h".toList] 0 (by decide))]).map (fun db =>
      decide (∀ row ∈ joinedSymbolTypes db, SymbolTypeFits row) && decide (∀ row ∈ joinedFunctionTypes db, FunctionTypeFits row) &&
        (typePage (declaredTypes plainLibrary db [] Control.new) memberArguments none 1).isSome &&
          (typePage (functionSignature plainLibrary db [] Control.new) memberArguments none 1).isSome) = some true := by
    decide +kernel
  obtain ⟨db,stored,all⟩ := Option.map_eq_some_iff.mp checked
  simp only [Bool.and_eq_true,decide_eq_true_eq] at all
  obtain ⟨⟨⟨types,signatures⟩,declared⟩,signed⟩ := all
  have reached : Reachable foldHash (fun _ => True) db := reachable_storeAll _ (fun _ _ => trivial) stored
  obtain ⟨both,each⟩ := @type_pages_complete plainLibrary db Control.new [] memberArguments _ _ (fun _ => 1) reached
    ⟨types,signatures⟩ (fun _ => ⟨Nat.le_refl 1,by decide⟩)
  exact ⟨db,stored,both declared,each signed⟩

end Types
end Semindex.Mcp.Tools
