import Semindex.Parser.Visits
import Semindex.Parser.Preprocessor
import Semindex.Parser.Records
import Semindex.Database.Leaf

/-! Stored columns against byte columns. The items of a record that is named after
a variable or a typedef carry a display column, all others the column of the
frontend. -/
namespace Semindex.Parser
open Semindex.Graph Semindex.IndexDb Semindex.Database

section Display

/-- Each tab stands where it takes one column. -/
def TabsFit (bytes : List UInt8) : Prop := ∀ i : Nat, bytes[i]? = some 9 → i % 8 = 7

def displayStep (column : Nat) (byte : UInt8) : Nat :=
  if byte = 9 then ((column - 1) / 8 + 1) * 8 + 1 else column + 1

theorem displayStep_bounds (column : Nat) (byte : UInt8) (positive : 0 < column) :
    column + 1 ≤ displayStep column byte ∧
      (displayStep column byte = column + 1 ↔ (byte = 9 → column % 8 = 0)) := by
  unfold displayStep
  split
  · rename_i tab
    simp only [tab,true_imp_iff]
    omega
  · rename_i other
    simp [other]

theorem foldl_displayStep (bytes : List UInt8) (column : Nat) (positive : 0 < column) :
    column + bytes.length ≤ bytes.foldl displayStep column ∧
      (bytes.foldl displayStep column = column + bytes.length ↔
        ∀ i : Nat, bytes[i]? = some 9 → (column + i) % 8 = 0) := by
  induction bytes generalizing column with
  | nil => simp
  | cons byte bytes ih =>
    obtain ⟨forward,one⟩ := displayStep_bounds column byte positive
    obtain ⟨least,rest⟩ := ih (displayStep column byte) (by omega)
    rw [List.foldl_cons,List.length_cons]
    refine ⟨by omega,?_⟩
    constructor
    · intro same i tab
      have next : displayStep column byte = column + 1 := by omega
      cases i with
      | zero => exact one.mp next (by simpa using tab)
      | succ i =>
        have later := rest.mp (by omega) i (by simpa using tab)
        rw [next] at later
        rwa [show column + (i+1) = column + 1 + i by omega]
    · intro fits
      have next : displayStep column byte = column + 1 := one.mpr (fun tab => by simpa [tab] using fits 0)
      rw [rest.mpr ?_,next]
      · omega
      · intro i tab
        rw [next,show column + 1 + i = column + (i+1) by omega]
        exact fits (i+1) (by simpa using tab)

/-- The display column is the byte column just where the tabs fit. -/
theorem displayColumn_iff (bytes : List UInt8) : displayColumn bytes = bytes.length + 1 ↔ TabsFit bytes := by
  have whole := (foldl_displayStep bytes 1 (by decide)).2
  change bytes.foldl displayStep 1 = _ ↔ _
  rw [Nat.add_comm,whole]
  refine forall_congr' (fun i => imp_congr_right (fun _ => ?_))
  omega

theorem lineBefore_line {above line behind : List UInt8} (start : above = [] ∨ above.getLast? = some 10)
    (whole : 10 ∉ line) : lineBefore (above ++ line ++ behind) (above ++ line).length = line := by
  have plain : ∀ byte ∈ line.reverse, (decide (byte ≠ 10)) = true := by
    intro byte member
    have inside : byte ∈ line := by simpa using member
    exact decide_eq_true (fun newline => whole (newline ▸ inside))
  rw [lineBefore,List.take_left,List.reverse_append,List.takeWhile_append_of_pos plain]
  have stopped : above.reverse.takeWhile (fun byte => decide (byte ≠ 10)) = [] := by
    rcases start with rfl | ends
    · rfl
    · obtain ⟨front,rfl⟩ := List.getLast?_eq_some_iff.mp ends
      simp
  rw [stopped,List.append_nil,List.reverse_reverse]

end Display

section Tokens

def SemindexItem.loc : SemindexItem → SemindexSourceLocation
  | .symbol s => s.loc
  | .use u => u.loc
  | .signature g => g.loc

/-- The token is written at this place of the file, by no macro and under no `#line`. -/
structure SourceManager.Written (sm : SourceManager) (token : SourceLocation) (file : Text) (number : Nat)
    (above line behind : List UInt8) : Prop where
  spelling : sm.spelling token = token
  presumed : sm.presumed token = some ⟨file,number,line.length + 1⟩
  data : sm.characterData token = some (above ++ line ++ behind,(above ++ line).length)
  start : above = [] ∨ above.getLast? = some 10
  whole : 10 ∉ line
  numbered : number ≠ 0

variable {sm : SourceManager} {token : SourceLocation} {file : Text} {number : Nat} {above line behind : List UInt8}

theorem location_written (written : sm.Written token file number above line behind) :
    sm.location token = ⟨file,number,line.length + 1⟩ := by
  rw [SourceManager.location,written.presumed]

theorem displayLocation_written (written : sm.Written token file number above line behind) :
    sm.displayLocation token = ⟨file,number,displayColumn line⟩ := by
  rw [SourceManager.displayLocation,location_written written,SourceManager.displayColumnForLoc,written.spelling,
    written.data]
  dsimp only
  rw [lineBefore_line written.start written.whole]

variable {v : Visitor} {current : CurrentFunction} {seen : Seen} {slot : Slot} {around : List Part} {e : Emission}

theorem functionCall_located {d : DeclId} {loc : SourceLocation} (member : e ∈ v.addFunctionCall current d loc) :
    e.item.loc = v.ast.sm.location e.token := by
  rw [Visitor.addFunctionCall] at member
  split at member
  · cases member
  · dsimp only at member
    split at member <;> rw [List.mem_singleton.mp member] <;> rfl

theorem aliasUse_located {d : DeclId} (member : e ∈ v.addAliasUse d) : e.item.loc = v.ast.sm.location e.token := by
  rw [Visitor.addAliasUse] at member
  split at member
  · cases member
  · split at member
    · cases member
    · rw [List.mem_singleton.mp member]
      rfl

theorem typeUse_located {d : DeclId} {kind : SymbolKind} {loc : SourceLocation} {type : Text}
    (member : e ∈ (v.addTypeUse current seen d kind loc type).1) : e.item.loc = v.ast.sm.location e.token := by
  rw [Visitor.addTypeUse] at member
  split_ifs at member
  · cases member
  · cases member
  · cases member
  · cases member
  · rw [List.mem_singleton.mp member]
    rfl

theorem anonymousRecord_located {r : DeclId} {name : Text} (member : e ∈ v.addAnonymousRecordSymbols current r name) :
    e.item.loc = v.ast.sm.displayLocation e.token := by
  rw [Visitor.addAnonymousRecordSymbols] at member
  rcases List.mem_cons.mp member with rfl | found
  · rfl
  · split at found
    · cases found
    · obtain ⟨field,_,rfl⟩ := List.mem_map.mp found
      rfl

/-- An item stands at the location of its token, or at the display location of a record that is named here. -/
theorem offers_located {node : Node} (offered : v.Offers current seen slot around node e) :
    (∃ d r, node = .decl d ∧ v.NamesRecord current d r ∧
      e ∈ v.addAnonymousRecordSymbols current r (v.ast.anonymousRecordName d)) ∨
    e.item.loc = v.ast.sm.location e.token := by
  rcases offered with declares | mentions
  · cases declares with
    | record named member => exact .inl ⟨_,_,rfl,named,member⟩
    | enum isEnum member =>
      rw [Visitor.visitEnumDecl] at member
      split at member
      · cases member
      · rw [List.mem_singleton.mp member]
        exact .inr rfl
    | _ => exact .inr rfl
  cases mentions with
  | aliasUse aliased member => exact .inr (aliasUse_located member)
  | cleanup isVar member =>
    rw [Visitor.addCleanupCall] at member
    split at member
    · cases member
    · exact .inr (functionCall_located member)
  | promoted listed isField initialized member =>
    obtain ⟨indirect,_,rfl⟩ := List.mem_map.mp member
    exact .inr rfl
  | call member => exact .inr (functionCall_located member)
  | construct member => exact .inr (functionCall_located member)
  | newType member => exact .inr (typeUse_located member)
  | deleteType member => exact .inr (typeUse_located member)
  | typedefUse member => exact .inr (typeUse_located member)
  | recordUse named member => exact .inr (typeUse_located member)
  | enumUse named member => exact .inr (typeUse_located member)
  | _ => exact .inr rfl

end Tokens

section Preprocessed
variable {indexer : Indexer} {e : Emission}

theorem macroUse_located {name : Option Text} {loc : SourceLocation} {uses : MacroUses}
    (member : e ∈ (indexer.addMacroUse name loc uses).1) : e.item.loc = indexer.sm.location e.token := by
  cases name with
  | none => cases member
  | some name =>
    rw [Indexer.addMacroUse] at member
    split at member
    · cases member
    · rw [List.mem_singleton.mp member]
      rfl

theorem replacementUses_located {tokens : List MacroToken} {uses : MacroUses}
    (member : e ∈ (indexer.addReplacementUses tokens uses).1) : e.item.loc = indexer.sm.location e.token := by
  induction tokens generalizing uses with
  | nil => cases member
  | cons token tokens ih =>
    rw [Indexer.addReplacementUses] at member
    rcases List.mem_append.mp member with first | rest
    · split at first
      · cases first
      · exact macroUse_located first
    · exact ih rest

theorem preprocess_located {event : PPEvent} {uses : MacroUses} (member : e ∈ (indexer.preprocess event uses).1) :
    e.item.loc = indexer.sm.location e.token := by
  cases event with
  | macroDefined name loc tokens =>
    cases name with
    | none => cases member
    | some name =>
      rcases List.mem_cons.mp member with rfl | rest
      · rfl
      · exact replacementUses_located rest
  | macroExpands name loc => exact macroUse_located member
  | macroTested name loc => exact macroUse_located member
  | inclusionDirective fileName isAngled file loc =>
    rw [List.mem_singleton.mp member]
    rfl

end Preprocessed

section Items
variable (v : Visitor) (unit : Forest Part) (indexer : Indexer) (events : List PPEvent)

/-- The item is of an anonymous record that is named after a variable or a typedef: the record itself, a
lambda, or a field. -/
def Visitor.Displayed (e : Emission) : Prop := ∃ part around seen d r, v.Reaches unit part around seen ∧
  part.node = .decl d ∧ v.NamesRecord (v.current (part::around)) d r ∧
    e ∈ v.addAnonymousRecordSymbols (v.current (part::around)) r (v.ast.anonymousRecordName d)

/-- Every item of a source: those of the syntax tree, of the preprocessor and of an assembly source. -/
inductive Indexed : Emission → Prop
  | visited {e : Emission} (offered : e ∈ v.traverseDecl unit) : Indexed e
  | preprocessed {e : Emission} (offered : e ∈ indexer.preprocessed events) : Indexed e
  | assemblyFunction (name : Text) (loc : SourceLocation) : Indexed (indexer.assemblyFunction name loc)
  | assemblyCall (target function : Text) (loc : SourceLocation) : Indexed (indexer.assemblyCall target function loc)

/-- The stored column is the byte column, and a query at the token finds the record. -/
structure FoundAtToken (key : RecordKey) (value : RecordValue) (number column : Nat) : Prop where
  placed : key.column = column
  found : ∀ db row, row ∈ joinedRecords db → row.key = key → row.value = value → row.path ≠ [] →
    ∃ records, collected (semindexDbFindAt db row.path (some row.variant) number column) = some records ∧
      dbRecord row ∈ records

variable {v unit indexer events} {e : Emission}

theorem traverseDecl_located (offered : e ∈ v.traverseDecl unit) :
    (v.Displayed unit e ∧ e.item.loc = v.ast.sm.displayLocation e.token) ∨
      e.item.loc = v.ast.sm.location e.token := by
  obtain ⟨part,around,seen,reached,member⟩ := mem_traverseDecl.mp offered
  rcases offers_located (visit_offers member) with ⟨d,r,same,named,found⟩ | located
  · exact .inl ⟨⟨part,around,seen,d,r,reached,same,named,found⟩,anonymousRecord_located found⟩
  · exact .inr located

theorem displayed_located (displayed : v.Displayed unit e) : e.item.loc = v.ast.sm.displayLocation e.token := by
  obtain ⟨_,_,_,_,_,_,_,_,member⟩ := displayed
  exact anonymousRecord_located member

theorem indexed_located (one : indexer.sm = v.ast.sm) (offered : Indexed v unit indexer events e) :
    (v.Displayed unit e ∧ e.item.loc = v.ast.sm.displayLocation e.token) ∨
      e.item.loc = v.ast.sm.location e.token := by
  cases offered with
  | visited offered => exact traverseDecl_located offered
  | preprocessed offered =>
    obtain ⟨_,event,_,_,member⟩ := (Forest.mem_collect _).mp offered
    exact .inr (one ▸ preprocess_located member)
  | assemblyFunction name loc => exact .inr (one ▸ rfl)
  | assemblyCall target function loc => exact .inr (one ▸ rfl)

theorem columns_loc {hash : Text → Id} {item : SemindexItem} {key : RecordKey} {value : RecordValue}
    (stored : item.columns hash = some (key,value)) : key.line = item.loc.line ∧ key.column = item.loc.column := by
  cases item with
  | symbol s =>
    obtain ⟨rfl,rfl⟩ := Prod.mk.inj (Option.some.inj stored)
    exact ⟨rfl,rfl⟩
  | use u =>
    obtain ⟨rfl,rfl⟩ := Prod.mk.inj (Option.some.inj stored)
    exact ⟨rfl,rfl⟩
  | signature g => cases stored

variable {hash : Text → Id} {key : RecordKey} {value : RecordValue} {file : Text} {number : Nat}
  {above line behind : List UInt8}

/-- The record of an item is stored and found at its byte column just where the tabs before a record named
after a variable or a typedef fit, and where the stored symbol has a leaf to find. -/
theorem byte_columns_iff (one : indexer.sm = v.ast.sm) (offered : Indexed v unit indexer events e)
    (written : v.ast.sm.Written e.token file number above line behind)
    (stored : e.item.columns hash = some (key,value)) :
    FoundAtToken key value number (line.length + 1) ↔
      (v.Displayed unit e → TabsFit line) ∧ qualifiedLeaf key.symbol ≠ [] := by
  obtain ⟨lines,columns⟩ := columns_loc stored
  have numbered : key.line = number := by
    rcases indexed_located one offered with ⟨_,located⟩ | located
    · rw [lines,located,displayLocation_written written]
    · rw [lines,located,location_written written]
  have placed : key.column = line.length + 1 ↔ (v.Displayed unit e → TabsFit line) := by
    constructor
    · intro same displayed
      rw [columns,displayed_located displayed,displayLocation_written written] at same
      exact (displayColumn_iff line).mp same
    · intro fits
      rcases indexed_located one offered with ⟨displayed,located⟩ | located
      · rw [columns,located,displayLocation_written written]
        exact (displayColumn_iff line).mpr (fits displayed)
      · rw [columns,located,location_written written]
  constructor
  · intro exact
    refine ⟨placed.mp exact.placed,fun empty => ?_⟩
    have found := exact.found (Db.holding ⟨[],['/'],key,value⟩) ⟨[],['/'],key,value⟩
      (by rw [joinedRecords_holding]; exact List.mem_cons_self) rfl rfl (by simp)
    rw [← numbered] at found
    obtain ⟨_,_,_,_,covered⟩ := (@found_iff _ (⟨[],['/'],key,value⟩ : RecordRow)
      (by rw [joinedRecords_holding]; exact List.mem_cons_self) (line.length + 1)).mp found
    rw [empty,exact.placed] at covered
    simp [byteLength,utf8] at covered
  · intro facts
    obtain ⟨fits,leaf⟩ := facts
    refine ⟨placed.mpr fits,?_⟩
    intro db row member sameKey sameValue path
    have positive := byteLength_pos leaf
    subst sameKey
    rw [← numbered]
    refine (found_iff member _).mpr ⟨path,numbered ▸ written.numbered,by omega,?_,?_⟩
    · rw [placed.mpr fits]
    · rw [placed.mpr fits]
      omega

end Items

section Samples

-- a structure without a name, its field and its variable behind a tab
def tabbedText : Text := "\tstruct { int x; } v;".toList

def tabbedAst : Ast := Ast.ofDecls [
  { declClass := .other, name := [], canonical := 0, location := 0 },
  { declClass := .record ⟨false,true,9,[2],none⟩, name := [], usr := "c:@Sa".toList, contexts := [0], canonical := 1,
    location := 2 },
  { declClass := .field ⟨intType,none⟩, name := "x".toList, usr := "c:@Sa@FI@x".toList, contexts := [1,0],
    canonical := 2, location := 15 },
  { declClass := .var ⟨{intType with record := some 1},none,false,false,none⟩, name := "v".toList,
    usr := "c:@v".toList, contexts := [0], canonical := 3, location := 20, linkage := .external }]
  (SourceManager.ofText "a.c".toList tabbedText) (by decide)

def tabbedUnit : Forest Part :=
  .node ⟨.other,.decl 1⟩ (.node ⟨.other,.decl 2⟩ .nil .nil) (.node ⟨.other,.decl 3⟩ .nil .nil)

def tabbed : Visitor := ⟨tabbedAst,.project,true,true,textHash⟩

def tabbedIndexer : Indexer := ⟨tabbedAst.sm,.project,true,[]⟩

theorem byte_columns_variable : ∃ e key value, e ∈ tabbed.traverseDecl tabbedUnit ∧
    e.item.columns textHash = some (key,value) ∧ key.symbol = "v".toList ∧ FoundAtToken key value 1 20 := by
  have offered : tabbed.variableSymbol .none 3 ⟨{intType with record := some 1},none,false,false,none⟩ ∈
      tabbed.traverseDecl tabbedUnit := List.mem_of_getElem? (i := 2) rfl
  have written : tabbedAst.sm.Written 20 "a.c".toList 1 [] (utf8 "\tstruct { int x; } ".toList) (utf8 "v;".toList) :=
    ⟨rfl,rfl,rfl,.inl rfl,by decide,by decide⟩
  refine ⟨_,_,_,offered,rfl,rfl,?_⟩
  refine (@byte_columns_iff tabbed tabbedUnit tabbedIndexer [] _ textHash _ _ _ _ _ _ _ rfl (.visited offered) written
    rfl).mpr ⟨fun displayed => ?_,by decide⟩
  have column := congrArg SemindexSourceLocation.column (displayed_located displayed)
  exact absurd column (by decide)

/-- The structure is stored at column 16, where its tab ends, and not at its ninth byte. -/
theorem display_column_stored : ∃ e key value, e ∈ tabbed.traverseDecl tabbedUnit ∧
    tabbedAst.sm.Written e.token "a.c".toList 1 [] (utf8 "\tstruct ".toList) (utf8 "{ int x; } v;".toList) ∧
    e.item.columns textHash = some (key,value) ∧ key.symbol = ":v".toList ∧ key.column = 16 ∧
    ¬ FoundAtToken key value 1 9 := by
  refine ⟨_,_,_,List.mem_of_getElem? (i := 0) rfl,⟨rfl,rfl,rfl,.inl rfl,by decide,by decide⟩,rfl,rfl,rfl,?_⟩
  exact fun exact => absurd exact.placed (by decide)

end Samples
end Semindex.Parser
