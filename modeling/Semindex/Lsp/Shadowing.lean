import Semindex.Lsp.Overlay

/-! Which answers show a record that the database holds for a file of the overlay.
Each query of an answer is a step over two layers; the answers are what the steps
leave, and the overlay replaces the database exactly where every step is covered. -/
namespace Semindex.Lsp
open Semindex.Relational Semindex.IndexDb Semindex.Database Semindex.Source Semindex.Layers

section Emit
variable {σ : Type} {callback : Callback σ DbRecord} {overlay : LspOverlay}

namespace LspOverlay
variable (overlay)

def views (path : Text) (variant : Option Text) : List DbRecord :=
  ((overlay.entry path).getD []).map (fun stored => stored.view (overlayKey path) (variant.getD []))

def matching (path : Text) (variant : Option Text) (options : QueryOptions) : List DbRecord :=
  (overlay.views path variant).filter (fun record => matchesOptions record options)

def covering (path : Text) (variant : Option Text) (line column : Nat) : List DbRecord :=
  (overlay.views path variant).filter (fun record => record.line = line && coversPosition column record)

end LspOverlay

theorem emitEntry_steady (steady : ∀ data record, (callback data record).2 = 0) (path variant : Text)
    (options : Option QueryOptions) (line column : Nat) (records : List OverlayRecord) (data : σ) :
    LspOverlay.emitEntry path variant options line column callback records data =
      (((records.map (fun stored => stored.view path variant)).filter (fun record =>
        options.all (matchesOptions record) && (line = 0 || record.line = line && coversPosition column record))).foldl
          (fun data record => (callback data record).1) data,0) := by
  induction records generalizing data with
  | nil => rfl
  | cons stored records ih =>
    rw [LspOverlay.emitEntry,LspOverlay.emitRecord,List.map_cons,List.filter_cons]
    dsimp only
    generalize stored.view path variant = record
    have rejected : options.any (fun options => !matchesOptions record options) = !options.all (matchesOptions record) := by
      cases options <;> simp
    have outside : (line ≠ 0 && (record.line ≠ line || !coversPosition column record)) =
        !(line = 0 || record.line = line && coversPosition column record) := by
      rw [Bool.not_or,Bool.not_and,decide_not,decide_not]
    rw [rejected,outside]
    cases options.all (matchesOptions record) with
    | false => simpa using ih data
    | true =>
      cases (line = 0 || record.line = line && coversPosition column record : Bool) with
      | false => simpa using ih data
      | true => simpa [steady] using ih (callback data record).1

theorem overlay_query_steady (steady : ∀ data record, (callback data record).2 = 0) (path : Text)
    (variant : Option Text) (options : QueryOptions) (data : σ) : overlay.query path variant options callback data =
      ((overlay.matching path variant options).foldl (fun data record => (callback data record).1) data,0) := by
  unfold LspOverlay.query LspOverlay.matching LspOverlay.views
  cases overlay.entry path with
  | none => rfl
  | some records => simp [emitEntry_steady steady]

theorem overlay_findAt_steady (steady : ∀ data record, (callback data record).2 = 0) (path : Text)
    (variant : Option Text) {line column : Nat} (onLine : line ≠ 0) (onColumn : column ≠ 0) (data : σ) :
    overlay.findAt path variant line column callback data =
      ((overlay.covering path variant line column).foldl (fun data record => (callback data record).1) data,0) := by
  unfold LspOverlay.findAt LspOverlay.covering LspOverlay.views
  cases overlay.entry path with
  | none => rfl
  | some records => simp [emitEntry_steady steady,onLine,onColumn]

theorem matching_nil {path : Text} (absent : overlay.contains path = false) (variant : Option Text)
    (options : QueryOptions) : overlay.matching path variant options = [] := by
  unfold LspOverlay.contains at absent
  unfold LspOverlay.matching LspOverlay.views
  rw [Option.isSome_eq_false_iff.mp absent |> Option.isNone_iff_eq_none.mp]
  rfl

theorem covering_nil {path : Text} (absent : overlay.contains path = false) (variant : Option Text)
    (line column : Nat) : overlay.covering path variant line column = [] := by
  unfold LspOverlay.contains at absent
  unfold LspOverlay.covering LspOverlay.views
  rw [Option.isSome_eq_false_iff.mp absent |> Option.isNone_iff_eq_none.mp]
  rfl

theorem matching_path {path : Text} {variant : Option Text} {options : QueryOptions} {record : DbRecord}
    (found : record ∈ overlay.matching path variant options) :
    overlay.contains path = true ∧ record.path = overlayKey path := by
  constructor
  · by_contra absent
    rw [matching_nil (Bool.eq_false_iff.mpr absent)] at found
    cases found
  · obtain ⟨stored,_,rfl⟩ := List.mem_map.mp (List.mem_filter.mp found).1
    rfl

end Emit

section Collectors
variable (sources : LspSourceMapper) (layer : Layer)

theorem collectLocation_fold (records : List DbRecord) (collector : LocationCollector) :
    records.foldl (fun collector record => (collectLocation sources layer collector record).1) collector =
      let shown := records.filter (fun record => collector.excludedUri ≠ some (sources.uri record.path))
      { collector with
        locations := (shown.map (fun record => ⟨layer,record⟩)).foldl (putFirst place) collector.locations
        records := collector.records + shown.length } := by
  induction records generalizing collector with
  | nil => rfl
  | cons record records ih =>
    rw [List.foldl_cons,ih,collectLocation]
    by_cases excluded : collector.excludedUri = some (sources.uri record.path)
    · simp [excluded]
    · simp [excluded,putFirst,Nat.add_assoc,Nat.add_comm]

theorem collectHighlight_fold (records : List DbRecord) (collector : HighlightCollector) :
    records.foldl (fun collector record => (collectHighlight sources layer collector record).1) collector =
      let shown := records.filter (fun record => collector.excludedUri ≠ some (sources.uri record.path))
      { collector with
        highlights := (shown.map (fun record => ⟨layer,record⟩)).foldl (put place highlightKind)
          collector.highlights } := by
  induction records generalizing collector with
  | nil => rfl
  | cons record records ih =>
    rw [List.foldl_cons,ih,collectHighlight]
    by_cases excluded : collector.excludedUri = some (sources.uri record.path)
    · simp [excluded]
    · by_cases known : place record ∈ collector.highlights.map (fun known => place known.first.item)
      · simp only [excluded,known,if_true,if_false]
        simp [put,known,excluded]
        rfl
      · simp only [excluded,known,if_false]
        simp [put,known,excluded]

theorem collectRecord_fold (records : List DbRecord) (known : List (Layered DbRecord)) :
    records.foldl (fun known record => (collectRecord layer known record).1) known =
      (records.map (fun record => ⟨layer,record⟩)).foldl (putFirst recordKey) known := by
  induction records generalizing known with
  | nil => rfl
  | cons record records ih =>
    rw [List.foldl_cons,ih,List.map_cons,List.foldl_cons]
    by_cases held : recordKey record ∈ known.map (fun known => recordKey known.item)
    · simp [collectRecord,putFirst,held]
    · simp [collectRecord,putFirst,held]

end Collectors

section Queries
variable (server : LspServer)

def LspServer.symbolRows (cursor : DbRecord) (filter : RecordFilter) : List DbRecord :=
  if cursor.isLocal then pathRows server.database (querySymbolOptions cursor filter)
    (server.sources.databasePaths (server.sources.uri cursor.path))
  else ((querySymbolOptions cursor filter).select server.database).map dbRecord

/-- What the layers answer to `querySymbol`. -/
def LspServer.symbolAsk (cursor : DbRecord) (filter : RecordFilter) : Ask DbRecord where
  upper := server.overlay.matching cursor.path (some cursor.variant) (querySymbolOptions cursor filter)
  lower := server.symbolRows cursor filter
  hides record := server.sources.uri record.path = server.sources.uri cursor.path

def LspServer.highlightAsk (position : TextPosition) (cursor : DbRecord) : Ask DbRecord where
  upper := server.overlay.matching cursor.path (some cursor.variant) {highlightOptions cursor with path := some cursor.path}
  lower := pathRows server.database {highlightOptions cursor with path := some cursor.path}
    (position.filePath.elim [] server.sources.databasePaths)
  hides record := server.sources.uri record.path = server.sources.uri cursor.path

-- the overlay had a record; for a highlight, one at a new place
def foundAny {κ : Type} (_ : List κ) (ask : Ask DbRecord) : Bool := !ask.upper.isEmpty

local instance : LawfulBEq (Text × Nat × Nat) := inferInstance

def foundNew (seen : List (Text × Nat × Nat)) (ask : Ask DbRecord) : Bool :=
  ask.upper.any (fun record => place record ∉ seen)

def LspServer.definitionAsks (cursor : DbRecord) : List (Ask DbRecord) :=
  let ask := server.symbolAsk cursor .definition
  if ask.upper = [] ∧ ask.lower = [] then [ask,server.symbolAsk cursor .declaration] else [ask]

theorem map_filter_hidden (ask : Ask DbRecord) (answered : Bool) (excluded : Option Text)
    (same : ∀ record, excluded = some (server.sources.uri record.path) ↔ (answered && ask.hides record) = true) :
    (ask.lower.filter (fun record => excluded ≠ some (server.sources.uri record.path))).map
      (fun record => (⟨.lower,record⟩ : Layered DbRecord)) = ask.lowers answered := by
  unfold Ask.lowers
  congr 2
  funext record
  cases hidden : (answered && ask.hides record) with
  | false => simp [same,hidden]
  | true => simp [same,hidden]

theorem querySymbol_eq (cursor : DbRecord) (filter : RecordFilter) (collector : LocationCollector)
    (seen : List (Text × Nat × Nat)) : server.querySymbol cursor filter collector =
      let ask := server.symbolAsk cursor filter
      let offered := ask.uppers ++ ask.lowers (foundAny seen ask)
      (⟨offered.foldl (putFirst place) collector.locations,none,collector.records + offered.length⟩,0) := by
  have overlaid (collector : LocationCollector) : (if server.overlay.contains cursor.path then
      server.overlay.query cursor.path (some cursor.variant) (querySymbolOptions cursor filter)
        (collectLocation server.sources .upper) collector else (collector,0)) =
      ((server.symbolAsk cursor filter).upper.foldl
        (fun collector record => (collectLocation server.sources .upper collector record).1) collector,0) := by
    split
    · exact overlay_query_steady (by intro data record; unfold collectLocation; split <;> rfl) _ _ _ _
    · rename_i absent
      rw [LspServer.symbolAsk,matching_nil (Bool.eq_false_iff.mpr absent)]
      rfl
  have stored (collector : LocationCollector) : (if cursor.isLocal then
      queryPaths server.database (querySymbolOptions cursor filter) (collectLocation server.sources .lower)
        (server.sources.databasePaths (server.sources.uri cursor.path)) collector
      else semindexDbQuery server.database (querySymbolOptions cursor filter)
        (collectLocation server.sources .lower) collector) =
      ((server.symbolAsk cursor filter).lower.foldl
        (fun collector record => (collectLocation server.sources .lower collector record).1) collector,0) := by
    unfold LspServer.symbolAsk LspServer.symbolRows
    split
    · exact queryPaths_steady (by intro data record; unfold collectLocation; split <;> rfl) _ rfl rfl _ _
    · exact query_steady (by intro data record; unfold collectLocation; split <;> rfl) _ rfl rfl _
  unfold LspServer.querySymbol
  dsimp only
  rw [overlaid,collectLocation_fold]
  dsimp only
  rw [stored,collectLocation_fold]
  have whole : (server.symbolAsk cursor filter).upper.filter
      (fun record => (none : Option Text) ≠ some (server.sources.uri record.path)) =
        (server.symbolAsk cursor filter).upper := by simp
  have grown : collector.records + (server.symbolAsk cursor filter).upper.length ≠ collector.records ↔
      foundAny seen (server.symbolAsk cursor filter) = true := by
    simp [foundAny]
  rw [whole]
  by_cases found : foundAny seen (server.symbolAsk cursor filter) = true
  · rw [if_pos (grown.mpr found),found]
    dsimp only
    rw [← map_filter_hidden server (server.symbolAsk cursor filter) true (some (server.sources.uri cursor.path))
      (by simp [LspServer.symbolAsk,eq_comm])]
    simp [Ask.uppers,Nat.add_assoc]
  · rw [if_neg (fun more => found (grown.mp more)),Bool.eq_false_iff.mpr found]
    dsimp only
    rw [← map_filter_hidden server (server.symbolAsk cursor filter) false none (by simp)]
    simp [Ask.uppers,Nat.add_assoc]

-- what a step adds to the collected items
def offered (key : List (Text × Nat × Nat) → Ask DbRecord → Bool) (seen : List (Layered DbRecord)) (ask : Ask DbRecord) :
    List (Layered DbRecord) :=
  ask.uppers ++ ask.lowers (key (seen.map (fun known => place known.item)) ask)

variable {server} {seen : List (Layered DbRecord)}

theorem offered_nil (ask : Ask DbRecord) : offered foundAny seen ask = [] ↔ ask.upper = [] ∧ ask.lower = [] := by
  unfold offered Ask.uppers Ask.lowers foundAny
  cases ask.upper with
  | nil => simp
  | cons record records => simp

theorem querySymbol_step {collector : LocationCollector} (kept : collector.locations = firsts place seen)
    (cursor : DbRecord) (filter : RecordFilter) : server.querySymbol cursor filter collector =
      (⟨firsts place (seen ++ offered foundAny seen (server.symbolAsk cursor filter)),none,
        collector.records + (offered foundAny seen (server.symbolAsk cursor filter)).length⟩,0) := by
  rw [querySymbol_eq server cursor filter collector (seen.map (fun known => place known.item)),kept]
  unfold firsts
  rw [List.foldl_append]
  rfl

theorem definitionOf_eq (cursors : List DbRecord) {collector : LocationCollector}
    (kept : collector.locations = firsts place seen) : ∃ found, server.definitionOf cursors collector = some found ∧
      found.locations = firsts place (offersAfter place foundAny seen (cursors.flatMap server.definitionAsks)) := by
  induction cursors generalizing seen collector with
  | nil => exact ⟨collector,rfl,kept⟩
  | cons cursor cursors ih =>
    have unchanged : collector.records + (offered foundAny seen (server.symbolAsk cursor .definition)).length =
        collector.records ↔ offered foundAny seen (server.symbolAsk cursor .definition) = [] := by
      simp
    rw [LspServer.definitionOf,querySymbol_step kept,List.flatMap_cons,LspServer.definitionAsks]
    dsimp only
    rw [if_neg (by decide)]
    by_cases none : offered foundAny seen (server.symbolAsk cursor .definition) = []
    · rw [if_pos (unchanged.mpr none),if_pos ((offered_nil _).mp none),querySymbol_step rfl]
      dsimp only
      rw [if_neg (by decide)]
      exact ih rfl
    · rw [if_neg (fun same => none (unchanged.mp same)),if_neg (fun empty => none ((offered_nil _).mpr empty))]
      exact ih rfl

theorem querySymbols_eq (filter : RecordFilter) (cursors : List DbRecord) {collector : LocationCollector}
    (kept : collector.locations = firsts place seen) : ∃ found,
      server.querySymbols filter cursors collector = some found ∧ found.locations =
        firsts place (offersAfter place foundAny seen (cursors.map (fun cursor => server.symbolAsk cursor filter))) := by
  induction cursors generalizing seen collector with
  | nil => exact ⟨collector,rfl,kept⟩
  | cons cursor cursors ih =>
    rw [LspServer.querySymbols,querySymbol_step kept]
    dsimp only
    rw [if_neg (by decide)]
    exact ih rfl

theorem highlightsOf_eq (position : TextPosition) (cursors : List DbRecord) {collector : HighlightCollector}
    (kept : collector.highlights = slots place highlightKind seen) : ∃ found,
      server.highlightsOf position cursors collector = some found ∧ found.highlights =
        slots place highlightKind (offersAfter place foundNew seen (cursors.map (server.highlightAsk position))) := by
  induction cursors generalizing seen collector with
  | nil => exact ⟨collector,rfl,kept⟩
  | cons cursor cursors ih =>
    have steady (layer : Layer) : ∀ data record, (collectHighlight server.sources layer data record).2 = 0 := by
      intro data record
      unfold collectHighlight
      split
      · rfl
      · split <;> rfl
    have overlaid (collector : HighlightCollector) : (if server.overlay.contains cursor.path then
        server.overlay.query cursor.path (some cursor.variant) {highlightOptions cursor with path := some cursor.path}
          (collectHighlight server.sources .upper) collector else (collector,0)) =
        ((server.highlightAsk position cursor).upper.foldl
          (fun collector record => (collectHighlight server.sources .upper collector record).1) collector,0) := by
      split
      · exact overlay_query_steady (steady .upper) _ _ _ _
      · rename_i absent
        rw [LspServer.highlightAsk,matching_nil (Bool.eq_false_iff.mpr absent)]
        rfl
    have stored (collector : HighlightCollector) : queryPaths server.database
        {highlightOptions cursor with path := some cursor.path} (collectHighlight server.sources .lower)
          (position.filePath.elim [] server.sources.databasePaths) collector =
        ((server.highlightAsk position cursor).lower.foldl
          (fun collector record => (collectHighlight server.sources .lower collector record).1) collector,0) :=
      queryPaths_steady (steady .lower) _ rfl rfl _ _
    have whole : (server.highlightAsk position cursor).upper.filter
        (fun record => (none : Option Text) ≠ some (server.sources.uri record.path)) =
          (server.highlightAsk position cursor).upper := by simp
    have gathered : ((server.highlightAsk position cursor).upper.map (fun record => (⟨.upper,record⟩ : Layered DbRecord))).foldl
        (put place highlightKind) collector.highlights =
          slots place highlightKind (seen ++ (server.highlightAsk position cursor).uppers) := by
      rw [kept,slots,slots,List.foldl_append]
      rfl
    have grown : (slots place highlightKind (seen ++ (server.highlightAsk position cursor).uppers)).length ≠
        collector.highlights.length ↔
          foundNew (seen.map (fun known => place known.item)) (server.highlightAsk position cursor) = true := by
      rw [kept,Ne,slots_length_iff]
      simp [foundNew,Ask.uppers]
    rw [LspServer.highlightsOf]
    dsimp only
    rw [overlaid,collectHighlight_fold]
    dsimp only
    rw [if_neg (by decide),stored]
    simp only [whole,gathered]
    by_cases found : foundNew (seen.map (fun known => place known.item)) (server.highlightAsk position cursor) = true
    · have shown := map_filter_hidden server (server.highlightAsk position cursor) true
        (some (server.sources.uri cursor.path)) (by simp [LspServer.highlightAsk,eq_comm])
      rw [if_pos (grown.mpr found),collectHighlight_fold]
      dsimp only
      rw [if_neg (by decide),shown,← found,slots,← List.foldl_append,List.append_assoc]
      exact ih rfl
    · have shown := map_filter_hidden server (server.highlightAsk position cursor) false none (by simp)
      rw [if_neg (fun more => found (grown.mp more)),collectHighlight_fold]
      dsimp only
      rw [if_neg (by decide),shown,← Bool.eq_false_iff.mpr found,slots,← List.foldl_append,List.append_assoc]
      exact ih rfl

end Queries

section Positions
variable {server : LspServer} {query : PositionQuery}

def PositionQuery.variantName (query : PositionQuery) : Option Text :=
  if query.variant = [] then none else some query.variant

variable (server query) in
def LspServer.overlaidAt (path : Text) : List DbRecord :=
  server.overlay.covering path (PositionQuery.variantName query) query.line query.column

variable (server query) in
def LspServer.storedAt (path : Text) : List DbRecord :=
  ((selectAt server.database path (PositionQuery.variantName query) query.line query.column).map dbRecord).filter
    (coversPosition query.column)

theorem text_cons {name : Text} (named : name ≠ []) (names : List Text) : Pathname.text ⟨false,name::names⟩ ≠ [] := by
  cases name with
  | nil => exact absurd rfl named
  | cons c name => cases names <;> simp [Pathname.text,List.intercalate]

theorem inside_text {path base : Pathname} (below : inside (path.lexicallyRelative base) = true) :
    (path.lexicallyRelative base).text ≠ [] := by
  have outside : inside ⟨false,[]⟩ = false := rfl
  unfold Pathname.lexicallyRelative at below ⊢
  split at below
  · rw [outside] at below
    cases below
  · rename_i rooted
    rw [if_neg rooted]
    split at below
    · exact @text_cons Pathname.dot (by decide) []
    · rename_i left right other parts
      split at below
      · rename_i itself
        rw [if_pos itself]
        exact @text_cons Pathname.dot (by decide) []
      · rename_i moved
        split at below
        · rw [outside] at below
          cases below
        · rename_i climbed
          rw [if_neg moved,if_neg climbed]
          cases steps : (Pathname.climbs right).toNat with
          | zero =>
            cases left with
            | nil => exact absurd ⟨by omega,.inl rfl⟩ moved
            | cons name names =>
              refine text_cons ?_ names
              intro empty
              exact moved ⟨by omega,.inr (by rw [empty]; rfl)⟩
          | succ n =>
            rw [steps,List.replicate_succ] at below
            simp [inside,Pathname.isEmpty] at below

theorem mem_databasePaths {resolver : SourceResolver} {cwd path candidate : Text}
    (listed : candidate ∈ Source.databasePaths resolver cwd path) : (normalize path).rooted = true ∧
      (candidate = (normalize path).text ∨ ∃ base, inside ((normalize path).lexicallyRelative base) = true ∧
        candidate = ((normalize path).lexicallyRelative base).text) := by
  unfold Source.databasePaths at listed
  dsimp only at listed
  cases rooted : (normalize path).rooted with
  | false => simp [rooted] at listed
  | true =>
    refine ⟨rfl,?_⟩
    rw [rooted,if_neg (by decide)] at listed
    have spelled : candidate = (normalize path).text ∨
        (inside ((normalize path).lexicallyRelative resolver.root) = true ∧
          candidate = ((normalize path).lexicallyRelative resolver.root).text) ∨
        (inside ((normalize path).lexicallyRelative (Pathname.ofText cwd)) = true ∧
          candidate = ((normalize path).lexicallyRelative (Pathname.ofText cwd)).text) := by
      generalize (normalize path).lexicallyRelative resolver.root = relative at listed ⊢
      generalize (normalize path).lexicallyRelative (Pathname.ofText cwd) = cwdRelative at listed ⊢
      grind
    rcases spelled with same | ⟨below,same⟩ | ⟨below,same⟩
    · exact .inl same
    · exact .inr ⟨_,below,same⟩
    · exact .inr ⟨_,below,same⟩

theorem candidate_nonempty {resolver : SourceResolver} {cwd path candidate : Text}
    (listed : candidate ∈ Source.databasePaths resolver cwd path) : candidate ≠ [] := by
  obtain ⟨rooted,rfl | ⟨base,below,rfl⟩⟩ := mem_databasePaths listed
  · simp [Pathname.text,rooted]
  · exact inside_text below

/-- A lookup shows records of the overlay only exactly where, at each path under which the database has a record,
the overlay has one under that path or an earlier one. -/
theorem lookAt_upper (onLine : query.line ≠ 0) (onColumn : query.column ≠ 0) {paths : List Text}
    (known : ∀ path ∈ paths, path ≠ []) : ∃ records, server.lookAt query paths [] = some records ∧
      ((∀ result ∈ records, result.layer = .upper) ↔ ∀ before path after, paths = before ++ path::after →
        server.storedAt query path ≠ [] → ∃ earlier ∈ before ++ [path], server.overlaidAt query earlier ≠ []) ∧
      ∀ result ∈ records, result.layer = .lower → result.item.path ∈ paths := by
  induction paths with
  | nil => exact ⟨[],rfl,by simp,by simp⟩
  | cons path paths ih =>
    have steady (layer : Layer) : ∀ data record, (collectRecord layer data record).2 = 0 := fun _ _ => rfl
    have overlaid : (if server.overlay.contains path then
        server.overlay.findAt path (PositionQuery.variantName query) query.line query.column (collectRecord .upper) []
          else ([],0)) =
        (firsts recordKey ((server.overlaidAt query path).map (fun record => ⟨.upper,record⟩)),0) := by
      split
      · rw [overlay_findAt_steady (steady .upper) _ _ onLine onColumn,collectRecord_fold]
        rfl
      · rename_i absent
        rw [LspServer.overlaidAt,covering_nil (Bool.eq_false_iff.mpr absent)]
        rfl
    have stored : semindexDbFindAt server.database path (PositionQuery.variantName query) query.line query.column
        (collectRecord .lower) [] =
        (firsts recordKey ((server.storedAt query path).map (fun record => ⟨.lower,record⟩)),0) := by
      rw [semindexDbFindAt,if_neg (by simp [known path (by simp),onLine,onColumn]),
        emitRecords_steady (steady .lower),collectRecord_fold]
      simp only [onColumn,decide_false,Bool.false_or]
      rfl
    obtain ⟨later,found,upper,placed⟩ := ih (fun path member => known path (List.mem_cons_of_mem _ member))
    rw [LspServer.lookAt]
    dsimp only
    rw [show (if query.variant = [] then none else some query.variant) = PositionQuery.variantName query from rfl,
      overlaid]
    dsimp only
    rw [if_neg (Int.lt_irrefl 0)]
    by_cases answer : server.overlaidAt query path = []
    · have none : firsts recordKey ((server.overlaidAt query path).map
          (fun record => (⟨.upper,record⟩ : Layered DbRecord))) = [] := by simp [answer,firsts]
      have silent : (server.overlay.contains path && decide (([] : List (Layered DbRecord)) ≠ [])) = false := by simp
      rw [none,silent,if_neg Bool.false_ne_true,stored]
      dsimp only
      rw [if_neg (Int.lt_irrefl 0)]
      by_cases rows : server.storedAt query path = []
      · have skipped : firsts recordKey ((server.storedAt query path).map
            (fun record => (⟨.lower,record⟩ : Layered DbRecord))) = [] := by simp [rows,firsts]
        rw [if_neg (fun some => some skipped),skipped]
        refine ⟨later,found,upper.trans ?_,fun result member lower => List.mem_cons_of_mem _ (placed result member lower)⟩
        constructor
        · intro all before other after split some
          cases before with
          | nil =>
            rw [← (List.cons.inj split).1] at some
            exact absurd rows some
          | cons first before =>
            obtain ⟨earlier,member,hit⟩ := all before other after (List.cons.inj split).2 some
            exact ⟨earlier,List.mem_cons_of_mem _ member,hit⟩
        · intro all before other after split some
          obtain ⟨earlier,member,hit⟩ := all (path::before) other after (by rw [split]; rfl) some
          rcases List.mem_cons.mp member with rfl | inside
          · exact absurd answer hit
          · exact ⟨earlier,inside,hit⟩
      · have some : firsts recordKey ((server.storedAt query path).map
            (fun record => (⟨.lower,record⟩ : Layered DbRecord))) ≠ [] := by simp [firsts_nil_iff,rows]
        rw [if_pos some]
        refine ⟨_,rfl,?_,?_⟩
        · constructor
          · intro all
            obtain ⟨result,kept⟩ := List.exists_mem_of_ne_nil _ some
            obtain ⟨record,_,same⟩ := List.mem_map.mp (firsts_mem kept)
            have upper := all result kept
            rw [← same] at upper
            cases upper
          · intro all
            obtain ⟨earlier,member,hit⟩ := all [] path paths rfl rows
            rw [List.mem_singleton.mp member] at hit
            exact absurd answer hit
        · intro result kept _
          obtain ⟨record,member,same⟩ := List.mem_map.mp (firsts_mem kept)
          obtain ⟨row,selected,equal⟩ := List.mem_map.mp (List.mem_filter.mp member).1
          rw [← same,← equal]
          exact List.mem_cons.mpr (.inl (mem_selectAt.mp selected).2.1)
    · have contained : server.overlay.contains path = true := by
        by_contra absent
        exact answer (covering_nil (Bool.eq_false_iff.mpr absent) _ _ _)
      have some : firsts recordKey ((server.overlaidAt query path).map
          (fun record => (⟨.upper,record⟩ : Layered DbRecord))) ≠ [] := by simp [firsts_nil_iff,answer]
      rw [contained,if_pos (by simp [some])]
      have upper : ∀ result ∈ firsts recordKey ((server.overlaidAt query path).map
          (fun record => (⟨.upper,record⟩ : Layered DbRecord))), result.layer = .upper := by
        intro result kept
        obtain ⟨record,_,same⟩ := List.mem_map.mp (firsts_mem kept)
        rw [← same]
      refine ⟨_,rfl,⟨?_,fun _ => upper⟩,?_⟩
      · intro _ before other after split _
        cases before with
        | nil =>
          rw [← (List.cons.inj split).1]
          exact ⟨path,by simp,answer⟩
        | cons first before =>
          rw [← (List.cons.inj split).1]
          exact ⟨path,by simp,answer⟩
      · intro result kept lower
        rw [upper result kept] at lower
        cases lower

end Positions

section Property
variable (server : LspServer)

inductive Request where
  | recordsAt (query : PositionQuery)
  | definition (position : TextPosition)
  | references (position : TextPosition) (includeDeclaration : Bool)
  | documentHighlight (position : TextPosition)

/-- The records an answer is made of; those of a highlight are that of its range and that of its kind. -/
def LspServer.results : Request → List (Layered DbRecord)
  | .recordsAt query => (server.recordsAt query).getD []
  | .definition position => (server.definition position).getD []
  | .references position includeDeclaration => (server.references position includeDeclaration).getD []
  | .documentHighlight position =>
    ((server.documentHighlight position).getD []).flatMap (fun highlight => [highlight.first,highlight.best])

def LspServer.spellings (file : Text) : List Text := overlayKey file::server.sources.databasePaths file

-- a lookup is about the file of its position, the answers about all files
def Request.Concerns (request : Request) (file : Text) : Prop :=
  match request with
  | .recordsAt query => query.path = file
  | _ => True

/-- No answer shows a record that the database holds for a file of the overlay. -/
def LspServer.Replaces (request : Request) : Prop :=
  ∀ file, server.overlay.contains file = true → request.Concerns file →
    ∀ result ∈ server.results request, result.layer = .lower → result.item.path ∉ server.spellings file

def LspServer.Stale (record : DbRecord) : Prop :=
  ∃ file, server.overlay.contains file = true ∧ record.path ∈ server.spellings file

def LspServer.cursors (position : TextPosition) : List DbRecord :=
  ((server.symbolsAt position).getD []).map Layered.item

def LspServer.referenceAsks (includeDeclaration : Bool) (cursors : List DbRecord) : List (Ask DbRecord) :=
  cursors.map (fun cursor => server.symbolAsk cursor .reference) ++
    if includeDeclaration then cursors.map (fun cursor => server.symbolAsk cursor .symbol) else []

/-- The overlay has a record at the position wherever the database does, under the same spelling or an earlier one;
for the answers, each stored record of a file of the overlay that a query selects is hidden or overridden. -/
def LspServer.Shadows : Request → Prop
  | .recordsAt query => query.path ≠ [] → query.line ≠ 0 → query.column ≠ 0 →
    server.overlay.contains query.path = true → ∀ before path after,
      server.sources.databasePaths query.path = before ++ path::after → server.storedAt query path ≠ [] →
        ∃ earlier ∈ before ++ [path], server.overlaidAt query earlier ≠ []
  | .definition position => Covered place (fun _ => 0) foundAny server.Stale
    ((server.cursors position).flatMap server.definitionAsks)
  | .references position includeDeclaration => Covered place (fun _ => 0) foundAny server.Stale
    (server.referenceAsks includeDeclaration (server.cursors position))
  | .documentHighlight position => Covered place highlightKind foundNew server.Stale
    ((server.cursors position).map (server.highlightAsk position))

section Exact
variable {server : LspServer}

theorem stale_place (x y : DbRecord) (same : place x = place y) (stale : server.Stale x) : server.Stale y := by
  obtain ⟨file,contained,spelled⟩ := stale
  rw [(Prod.mk.inj same).1] at spelled
  exact ⟨file,contained,spelled⟩

theorem stale_matching {path : Text} {variant : Option Text} {options : QueryOptions} {record : DbRecord}
    (found : record ∈ server.overlay.matching path variant options) : server.Stale record := by
  obtain ⟨contained,spelled⟩ := matching_path found
  exact ⟨path,contained,by rw [spelled]; exact List.mem_cons_self⟩

theorem foundNew_judged (seen earlier : List (Text × Nat × Nat)) (ask : Ask DbRecord)
    (same : ∀ record ∈ ask.upper, place record ∈ seen ↔ place record ∈ earlier) :
    foundNew seen ask = foundNew earlier ask := by
  unfold foundNew
  rw [Bool.eq_iff_iff]
  simp only [List.any_eq_true,decide_eq_true_eq]
  exact exists_congr (fun record => and_congr_right (fun member => not_congr (same record member)))

theorem clean_locations (offered : List (Layered DbRecord)) : Clean server.Stale (slots place (fun _ => 0) offered) ↔
    ∀ result ∈ firsts place offered, result.layer = .lower → ¬ server.Stale result.item := by
  rw [slots_unranked]
  simp [Clean]

theorem not_stale_iff {results : List (Layered DbRecord)} :
    (∀ file, server.overlay.contains file = true → True → ∀ result ∈ results, result.layer = .lower →
      result.item.path ∉ server.spellings file) ↔ ∀ result ∈ results, result.layer = .lower → ¬ server.Stale result.item := by
  constructor
  · intro all result member lower ⟨file,contained,spelled⟩
    exact all file contained trivial result member lower spelled
  · intro all file contained _ result member lower spelled
    exact all result member lower ⟨file,contained,spelled⟩

theorem covered_nil {rank : DbRecord → Nat} {answered : List (Text × Nat × Nat) → Ask DbRecord → Bool} :
    Covered place rank answered server.Stale [] := by
  intro before ask after split
  simp at split

theorem located_iff {asks : List (Ask DbRecord)} (uppers : ∀ ask ∈ asks, ∀ record ∈ ask.upper, server.Stale record) :
    (∀ result ∈ firsts place (offersAfter place foundAny [] asks), result.layer = .lower → ¬ server.Stale result.item) ↔
      Covered place (fun _ => 0) foundAny server.Stale asks := by
  rw [← clean_locations]
  exact clean_iff_covered stale_place uppers (fun _ _ _ _ => rfl)

theorem definition_uppers (cursors : List DbRecord) :
    ∀ ask ∈ cursors.flatMap server.definitionAsks, ∀ record ∈ ask.upper, server.Stale record := by
  intro ask listed record member
  obtain ⟨cursor,_,own⟩ := List.mem_flatMap.mp listed
  have asked : ask = server.symbolAsk cursor .definition ∨ ask = server.symbolAsk cursor .declaration := by
    unfold LspServer.definitionAsks at own
    dsimp only at own
    split at own
    · simpa using own
    · exact .inl (List.mem_singleton.mp own)
  rcases asked with rfl | rfl
  · exact stale_matching member
  · exact stale_matching member

theorem reference_uppers (includeDeclaration : Bool) (cursors : List DbRecord) :
    ∀ ask ∈ server.referenceAsks includeDeclaration cursors, ∀ record ∈ ask.upper, server.Stale record := by
  intro ask listed record member
  rcases List.mem_append.mp listed with uses | symbols
  · obtain ⟨cursor,_,rfl⟩ := List.mem_map.mp uses
    exact stale_matching member
  · split at symbols
    · obtain ⟨cursor,_,rfl⟩ := List.mem_map.mp symbols
      exact stale_matching member
    · cases symbols

theorem records_replaced (query : PositionQuery) : server.Replaces (.recordsAt query) ↔ server.Shadows (.recordsAt query) := by
  unfold LspServer.Replaces LspServer.Shadows LspServer.results LspServer.recordsAt
  dsimp only
  by_cases refused : (query.path = [] || query.line = 0 || query.column = 0) = true
  · rw [if_pos refused]
    simp only [Bool.or_eq_true,decide_eq_true_eq] at refused
    constructor
    · intro _ path line column
      rcases refused with (none | none) | none
      · exact absurd none path
      · exact absurd none line
      · exact absurd none column
    · intro _ _ _ _ result member
      cases member
  · rw [if_neg refused]
    simp only [Bool.or_eq_true,decide_eq_true_eq,not_or] at refused
    obtain ⟨⟨path,line⟩,column⟩ := refused
    obtain ⟨records,found,upper,placed⟩ := @lookAt_upper server query line column
      (server.sources.databasePaths query.path) (fun _ => candidate_nonempty)
    rw [found,Option.getD_some]
    constructor
    · intro all _ _ _ contained
      apply upper.mp
      intro result member
      cases layer : result.layer with
      | upper => rfl
      | lower => exact absurd (List.mem_cons_of_mem _ (placed result member layer)) (all query.path contained rfl result member layer)
    · intro all file contained same result member lower
      obtain rfl : query.path = file := same
      rw [upper.mpr (all path line column contained) result member] at lower
      cases lower

/-- The overlay replaces the database in an answer exactly where it shadows every stored record. -/
theorem overlay_replaces_iff (request : Request) : server.Replaces request ↔ server.Shadows request := by
  cases request with
  | recordsAt query => exact records_replaced query
  | definition position =>
    refine not_stale_iff.trans ?_
    unfold LspServer.results LspServer.Shadows LspServer.definition LspServer.cursors
    dsimp only
    cases server.symbolsAt position with
    | none => exact iff_of_true (by simp) covered_nil
    | some cursors =>
      obtain ⟨collector,found,locations⟩ := @definitionOf_eq server [] (cursors.map Layered.item) ⟨[],none,0⟩ rfl
      simp only [Option.bind_eq_bind,Option.bind_some,Option.getD_some,found,locations]
      exact located_iff (definition_uppers _)
  | references position includeDeclaration =>
    refine not_stale_iff.trans ?_
    unfold LspServer.results LspServer.Shadows LspServer.references LspServer.cursors
    dsimp only
    cases server.symbolsAt position with
    | none => exact iff_of_true (by simp) (by cases includeDeclaration <;> exact covered_nil)
    | some cursors =>
      obtain ⟨collector,found,locations⟩ := @querySymbols_eq server [] .reference (cursors.map Layered.item) ⟨[],none,0⟩ rfl
      cases includeDeclaration with
      | false =>
        simp only [Option.bind_eq_bind,Option.bind_some,Option.getD_some,found,Bool.false_eq_true,if_false,locations]
        have uppers := @reference_uppers server false (cursors.map Layered.item)
        simp only [LspServer.referenceAsks,Bool.false_eq_true,if_false,List.append_nil] at uppers ⊢
        exact located_iff uppers
      | true =>
        obtain ⟨whole,declared,both⟩ := @querySymbols_eq server _ .symbol (cursors.map Layered.item) collector locations
        simp only [Option.bind_eq_bind,Option.bind_some,Option.getD_some,found,if_true,declared,both]
        rw [← offersAfter_append]
        exact located_iff (reference_uppers true _)
  | documentHighlight position =>
    refine not_stale_iff.trans ?_
    unfold LspServer.results LspServer.Shadows LspServer.documentHighlight LspServer.cursors
    dsimp only
    cases server.symbolsAt position with
    | none => exact iff_of_true (by simp) covered_nil
    | some cursors =>
      obtain ⟨collector,found,highlights⟩ := @highlightsOf_eq server [] position (cursors.map Layered.item) ⟨[],none⟩ rfl
      simp only [Option.bind_eq_bind,Option.bind_some,Option.getD_some,found,highlights]
      have uppers : ∀ ask ∈ (cursors.map Layered.item).map (server.highlightAsk position), ∀ record ∈ ask.upper,
          server.Stale record := by
        intro ask listed record member
        obtain ⟨cursor,_,rfl⟩ := List.mem_map.mp listed
        exact stale_matching member
      refine Iff.trans ?_ (clean_iff_covered stale_place uppers foundNew_judged)
      constructor
      · intro all slot kept x which
        refine all x (List.mem_flatMap.mpr ⟨slot,kept,?_⟩)
        simpa using which
      · intro clean result member
        obtain ⟨slot,kept,which⟩ := List.mem_flatMap.mp member
        exact clean slot kept result (by simpa using which)

/-- A function that the file had when it was indexed, and the overlay of the file as it is now, without one. -/
def editedRow : RecordRow where
  variant := "v".toList
  path := "/p/a.c".toList
  key := ⟨"f".toList,0,1,SymbolKind.function.code,0,1,1⟩
  value := ⟨[],none,none,false⟩

def editedServer : LspServer where
  database := Db.holding editedRow
  overlay := ⟨AList.singleton "/p/a.c".toList []⟩
  sources := ⟨⟨⟨true,["p".toList]⟩⟩,"/p".toList,fun _ => []⟩
  variant := "v".toList

/-- A position where the overlay has no record is answered from the stored records of the file. -/
theorem overlay_empty_position : ¬ editedServer.Replaces (.recordsAt ⟨"/p/a.c".toList,"v".toList,1,1⟩) := by
  intro replaced
  have shadows := (records_replaced _).mp replaced
  have paths : editedServer.sources.databasePaths "/p/a.c".toList = ["/p/a.c".toList,"a.c".toList] := by decide
  have rows : editedServer.storedAt ⟨"/p/a.c".toList,"v".toList,1,1⟩ "/p/a.c".toList ≠ [] := by
    have stored : editedRow ∈ joinedRecords editedServer.database := by
      rw [editedServer,joinedRecords_holding]
      exact List.mem_singleton.mpr rfl
    have named : Option.all (fun variant => decide (editedRow.variant = variant)) (some "v".toList) = true := by decide
    have selected : editedRow ∈ selectAt editedServer.database "/p/a.c".toList (some "v".toList) 1 1 :=
      mem_selectAt.mpr ⟨stored,rfl,named,rfl,Nat.le_refl 1⟩
    exact List.ne_nil_of_mem (List.mem_filter.mpr ⟨List.mem_map_of_mem selected,by decide⟩)
  obtain ⟨earlier,listed,hit⟩ := shadows (by decide) (by decide) (by decide) (by decide) [] _ _ paths rows
  rw [List.mem_singleton.mp listed] at hit
  exact hit rfl

end Exact
end Property

end Semindex.Lsp
