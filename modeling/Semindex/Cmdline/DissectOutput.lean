import Semindex.Cmdline.Dissect
import Semindex.CommandDb.Export
import Semindex.IndexDb.Output
import Semindex.Support.Collapse
import Semindex.Support.Decimal

/-! `output_dissect`: the symbols and the uses of an index in one sequence, by their
order, where a use that repeats the one before it is not printed again. -/
namespace Semindex.Cmdline
open Semindex.Collapse
open Semindex.CommandDb (fputs)

/-- A symbol and a use as the parser returns them; the order is that of the translation unit. -/
structure OrderedSymbol extends Symbol where
  order : Nat

structure OrderedUse extends Use where
  type : Text
  order : Nat

/-- The symbols and the uses are numbered together. -/
structure DissectIndex where
  symbols : List OrderedSymbol
  uses : List OrderedUse
  symbols_ordered : symbols.Pairwise (fun a b => a.order < b.order)
  uses_ordered : uses.Pairwise (fun a b => a.order < b.order)
  distinct : ∀ s ∈ symbols, ∀ u ∈ uses, s.order ≠ u.order

section Lines

-- `%4u`
def rightAligned (width : Nat) (text : List UInt8) : List UInt8 := List.replicate (width - text.length) 32 ++ text

-- `%-16s`
def leftAligned (width : Nat) (text : List UInt8) : List UInt8 := text ++ List.replicate (width - text.length) 32

-- `"%4u:%-3u %-16s %s %c %c "`, and the name with the type, if there is one
def dissectLine (line column : Nat) (context action : Text) (isLocal : Bool) (kind : SymbolKind) (name : List UInt8) (type : Text) :
    List UInt8 :=
  rightAligned 4 (decimalBytes line) ++ (fputs ":" ++ (leftAligned 3 (decimalBytes column) ++ (fputs " " ++ (leftAligned 16 (utf8 context) ++
    (fputs " " ++ (utf8 action ++ (fputs " " ++ (utf8 [if isLocal then '.' else ' '] ++ (fputs " " ++
      (utf8 [IndexDb.Output.outputSymbolKindChar kind.code] ++ (fputs " " ++
        if type ≠ [] then leftAligned 32 name ++ (fputs " " ++ (utf8 type ++ fputs "\n")) else name ++ fputs "\n")))))))))))

def printDissectSymbol (sym : OrderedSymbol) : List UInt8 :=
  dissectLine sym.line sym.column sym.context (if sym.definition then "def".toList else "decl".toList) sym.isLocal sym.kind
    (symbolNameForDissect sym.owner sym.name 256) sym.type

def printDissectUse (use : OrderedUse) : List UInt8 :=
  dissectLine use.line use.column use.context (IndexDb.Output.outputModeString use.mode) use.isLocal use.symbolKind
    (symbolNameForDissect use.owner use.name 256) use.type

def sameDissectUse (a b : OrderedUse) : Bool :=
  a.line = b.line && a.column = b.column && a.isLocal = b.isLocal && a.mode = b.mode && a.symbolKind = b.symbolKind &&
    a.context = b.context && a.owner = b.owner && a.name = b.name && a.type = b.type

end Lines

section Loop

/-- What the loop keeps: the file of the last heading, and the last use that was printed. -/
structure DissectState where
  currentFile : Option Text := none
  prevUse : Option OrderedUse := none
  prevWasUse : Bool := false

def fileHeading (state : DissectState) (file : Text) : List UInt8 :=
  if state.currentFile = some file then [] else fputs "\nFILE: " ++ (utf8 file ++ fputs "\n\n")

def symbolStep (state : DissectState) (sym : OrderedSymbol) : DissectState × List UInt8 :=
  ({state with currentFile := some sym.file, prevWasUse := false},fileHeading state sym.file ++ printDissectSymbol sym)

def useStep (state : DissectState) (use : OrderedUse) : DissectState × List UInt8 :=
  if state.prevWasUse && state.prevUse.any (fun prev => state.currentFile.getD [] = use.file && sameDissectUse use prev) then (state,[])
  else (⟨some use.file,some use,true⟩,fileHeading state use.file ++ printDissectUse use)

def outputLoop (state : DissectState) : List OrderedSymbol → List OrderedUse → List UInt8
  | [],[] => []
  | sym::symbols,[] => (symbolStep state sym).2 ++ outputLoop (symbolStep state sym).1 symbols []
  | [],use::uses => (useStep state use).2 ++ outputLoop (useStep state use).1 [] uses
  | sym::symbols,use::uses =>
    if sym.order ≤ use.order then (symbolStep state sym).2 ++ outputLoop (symbolStep state sym).1 symbols (use::uses)
    else (useStep state use).2 ++ outputLoop (useStep state use).1 (sym::symbols) uses
termination_by symbols uses => symbols.length + uses.length

def outputDissect (index : DissectIndex) : List UInt8 := outputLoop {} index.symbols index.uses

end Loop

section Document

inductive Entry where
  | symbol (sym : OrderedSymbol)
  | use (use : OrderedUse)

def Entry.order : Entry → Nat
  | .symbol sym => sym.order
  | .use used => used.order

def Entry.file : Entry → Text
  | .symbol sym => sym.file
  | .use used => used.file

-- the line of an entry, where names are written in this way
def Entry.line (naming : Text → Text → List UInt8) : Entry → List UInt8
  | .symbol sym => dissectLine sym.line sym.column sym.context (if sym.definition then "def".toList else "decl".toList)
      sym.isLocal sym.kind (naming sym.owner sym.name) sym.type
  | .use used => dissectLine used.line used.column used.context (IndexDb.Output.outputModeString used.mode) used.isLocal
      used.symbolKind (naming used.owner used.name) used.type

/-- Each entry under a heading for its file, which is written where the file is another one than before. -/
def document (naming : Text → Text → List UInt8) : Option Text → List Entry → List UInt8
  | _,[] => []
  | file,entry::entries =>
    (if file = some entry.file then [] else fputs "\nFILE: " ++ (utf8 entry.file ++ fputs "\n\n")) ++
      (entry.line naming ++ document naming (some entry.file) entries)

def completeName (owner name : Text) : List UInt8 := utf8 (documentedName owner name)

/-- The fields of a use that are printed, with its file. -/
def OrderedUse.printed (use : OrderedUse) :=
  (use.file,use.line,use.column,use.isLocal,use.mode,use.symbolKind,use.context,use.owner,use.name,use.type)

/-- What is printed of an index: every symbol, and every use but those that are like the use right before. -/
structure Merged (index : DissectIndex) (printed : List Entry) : Prop where
  sorted : printed.Pairwise (fun a b => a.order < b.order)
  symbols : ∀ sym, .symbol sym ∈ printed ↔ sym ∈ index.symbols
  uses : ∀ use, .use use ∈ printed ↔ use ∈ index.uses ∧
    ∀ near, Before Entry.order printed (.use near) (.use use) → near.printed ≠ use.printed

/-- The output is that of a merge, with complete names. -/
def Faithful (index : DissectIndex) : Prop :=
  ∃ printed, Merged index printed ∧ outputDissect index = document completeName none printed

end Document
section Merge
variable {index : DissectIndex} {printed : List Entry}

def repeats : Entry → Entry → Bool
  | .use near,.use use => near.file = use.file && sameDissectUse use near
  | _,_ => false

def earlier (a b : Entry) : Bool := a.order ≤ b.order

def DissectIndex.entries (index : DissectIndex) : List Entry :=
  List.merge (index.symbols.map .symbol) (index.uses.map .use) earlier

theorem repeats_iff (near use : OrderedUse) : repeats (.use near) (.use use) = true ↔ near.printed = use.printed := by
  unfold repeats sameDissectUse OrderedUse.printed
  simp only [Bool.and_eq_true,decide_eq_true_eq,Prod.mk.injEq]
  tauto

theorem mem_entries (entry : Entry) : entry ∈ index.entries ↔
    entry ∈ index.symbols.map .symbol ∨ entry ∈ index.uses.map .use := List.mem_merge

theorem symbol_mem_entries (sym : OrderedSymbol) : .symbol sym ∈ index.entries ↔ sym ∈ index.symbols := by
  simp [mem_entries]

theorem use_mem_entries (use : OrderedUse) : .use use ∈ index.entries ↔ use ∈ index.uses := by
  simp [mem_entries]

theorem entries_sorted (index : DissectIndex) : index.entries.Pairwise (fun a b => a.order < b.order) := by
  have symbols : (index.symbols.map Entry.symbol).Pairwise (fun a b => a.order < b.order) := by
    rw [List.pairwise_map]
    exact index.symbols_ordered
  have uses : (index.uses.map Entry.use).Pairwise (fun a b => a.order < b.order) := by
    rw [List.pairwise_map]
    exact index.uses_ordered
  have weak : index.entries.Pairwise (fun a b => earlier a b = true) := by
    refine List.pairwise_merge ?_ ?_ _ _ (symbols.imp fun less => decide_eq_true less.le) (uses.imp fun less => decide_eq_true less.le)
    · intro a b c first second
      exact decide_eq_true ((of_decide_eq_true first).trans (of_decide_eq_true second))
    · intro a b
      rcases Nat.le_total a.order b.order with less | less
      · exact Bool.or_eq_true_iff.mpr (.inl (decide_eq_true less))
      · exact Bool.or_eq_true_iff.mpr (.inr (decide_eq_true less))
  have apart : index.entries.Pairwise (fun a b => a.order ≠ b.order) := by
    have whole : (index.symbols.map Entry.symbol ++ index.uses.map Entry.use).Pairwise (fun a b => a.order ≠ b.order) := by
      refine List.pairwise_append.mpr ⟨symbols.imp Nat.ne_of_lt,uses.imp Nat.ne_of_lt,fun a left b right => ?_⟩
      obtain ⟨sym,listed,same⟩ := List.mem_map.mp left
      obtain ⟨use,held,other⟩ := List.mem_map.mp right
      rw [← same,← other]
      exact index.distinct sym listed use held
    exact (List.Perm.pairwise_iff Ne.symm (List.merge_perm_append _)).mpr whole
  exact weak.imp₂ (fun a b less other => (of_decide_eq_true less).lt_of_ne other) apart

/-- The merge of an index is the one sequence in order without repeated uses. -/
theorem merged_iff : Merged index printed ↔ printed = kept repeats none index.entries := by
  rw [← collapsed_iff (entries_sorted index) (fun l held => by cases held)]
  have symbol (near : Entry) (sym : OrderedSymbol) : repeats near (.symbol sym) = false := by cases near <;> rfl
  have use (used : OrderedUse) : (∀ near, Before Entry.order printed near (.use used) → repeats near (.use used) = false) ↔
      ∀ near, Before Entry.order printed (.use near) (.use used) → near.printed ≠ used.printed := by
    constructor
    · intro free near before same
      exact absurd ((repeats_iff near used).mpr same) (Bool.eq_false_iff.mp (free (.use near) before))
    · intro free near before
      cases near with
      | symbol sym => rfl
      | use near => exact Bool.eq_false_iff.mpr (fun again => free near before ((repeats_iff near used).mp again))
  constructor
  · intro merged
    refine ⟨merged.sorted,fun entry => ?_⟩
    cases entry with
    | symbol sym =>
      rw [merged.symbols,symbol_mem_entries]
      exact (and_iff_left (fun near _ => symbol near sym)).symm
    | use used =>
      rw [merged.uses,use_mem_entries]
      exact and_congr_right (fun _ => (use used).symm)
  · intro collapsed
    refine ⟨collapsed.sorted,fun sym => ?_,fun used => ?_⟩
    · rw [collapsed.taken,symbol_mem_entries]
      exact and_iff_left (fun near _ => symbol near sym)
    · rw [collapsed.taken,use_mem_entries]
      exact and_congr_right (fun _ => use used)

end Merge

section Emitted
variable {state : DissectState} {last : Option Entry}

def step (state : DissectState) : Entry → DissectState × List UInt8
  | .symbol sym => symbolStep state sym
  | .use used => useStep state used

def emit : DissectState → List Entry → List UInt8
  | _,[] => []
  | state,entry::entries => (step state entry).2 ++ emit (step state entry).1 entries

theorem outputLoop_emit (state : DissectState) (symbols : List OrderedSymbol) (uses : List OrderedUse) :
    outputLoop state symbols uses = emit state (List.merge (symbols.map .symbol) (uses.map .use) earlier) := by
  fun_induction outputLoop state symbols uses with
  | case1 state => simp [emit]
  | case2 state sym symbols ih =>
    rw [ih]
    simp [emit,step]
  | case3 state use uses ih =>
    rw [ih]
    simp [emit,step]
  | case4 state sym symbols use uses first ih =>
    rw [ih,List.map_cons,List.map_cons,List.cons_merge_cons_pos _ _ _ (decide_eq_true first)]
    rfl
  | case5 state sym symbols use uses later ih =>
    rw [ih,List.map_cons,List.map_cons,List.cons_merge_cons_neg]
    · rfl
    · exact fun first => later (of_decide_eq_true first)

/-- The loop knows the entry that was printed last. -/
structure Knows (state : DissectState) (last : Option Entry) : Prop where
  file : state.currentFile = last.map Entry.file
  use : (state.prevWasUse = true ∧ ∃ used, state.prevUse = some used ∧ last = some (.use used)) ∨
    (state.prevWasUse = false ∧ ∀ used, last ≠ some (.use used))

theorem emit_document (knows : Knows state last) (entries : List Entry) :
    emit state entries = document dissectName (last.map Entry.file) (kept repeats last entries) := by
  induction entries generalizing state last with
  | nil => rfl
  | cons entry entries ih =>
    rw [emit,kept]
    cases entry with
    | symbol sym =>
      have fresh : last.any (repeats · (.symbol sym)) = false := by
        rcases last with _ | near
        · rfl
        · cases near <;> rfl
      have knows' : Knows (symbolStep state sym).1 (some (.symbol sym)) := ⟨rfl,.inr ⟨rfl,fun used same => by cases same⟩⟩
      rw [if_neg (Bool.eq_false_iff.mp fresh),document]
      have more := ih knows'
      dsimp only [step,symbolStep] at more ⊢
      rw [more,fileHeading,knows.file,List.append_assoc]
      rfl
    | use used =>
      have same : (state.prevWasUse && state.prevUse.any (fun prev => state.currentFile.getD [] = used.file && sameDissectUse used prev)) =
          last.any (repeats · (.use used)) := by
        rcases knows.use with ⟨was,prev,held,here⟩ | ⟨was,other⟩
        · rw [was,held,knows.file,here]
          rfl
        · rw [was]
          rcases last with _ | near
          · rfl
          · cases near with
            | symbol sym => rfl
            | use near => exact absurd rfl (other near)
      dsimp only [step,useStep]
      rw [same]
      split
      · exact ih knows
      · rw [document,ih ⟨rfl,.inl ⟨rfl,used,rfl,rfl⟩⟩]
        dsimp only
        rw [fileHeading,knows.file,List.append_assoc]
        rfl

theorem outputDissect_document (index : DissectIndex) :
    outputDissect index = document dissectName none (kept repeats none index.entries) := by
  rw [outputDissect,outputLoop_emit]
  have knows : Knows {} none := ⟨rfl,.inr ⟨rfl,fun used same => by cases same⟩⟩
  exact emit_document knows index.entries

end Emitted

section Complete
variable {index : DissectIndex} {entry : Entry} {entries : List Entry}

/-- The name is printed as a whole: it has no owner, or the buffer holds it. -/
def Fits (owner name : Text) : Prop := owner = [] ∨ byteLength owner + 1 + byteLength name ≤ 255

def Entry.Fits : Entry → Prop
  | .symbol sym => Cmdline.Fits sym.owner sym.name
  | .use used => Cmdline.Fits used.owner used.name

theorem dissectName_complete {owner name : Text} (fits : Fits owner name) : dissectName owner name = completeName owner name := by
  by_cases owned : owner = []
  · subst owned
    rfl
  · exact (dissect_name_iff owned).mpr (fits.resolve_left owned)

theorem dissectName_shorter {owner name : Text} (long : ¬ Fits owner name) :
    (dissectName owner name).length = 255 ∧ 255 < (completeName owner name).length := by
  obtain ⟨owned,long⟩ := not_or.mp long
  have size : (completeName owner name).length = byteLength owner + 1 + byteLength name := by
    unfold completeName documentedName
    rw [if_neg owned]
    simp only [utf8,List.flatMap_append,List.length_append]
    rfl
  have cut : dissectName owner name = (completeName owner name).take 255 := by
    unfold dissectName symbolNameForDissect completeName documentedName
    rw [if_pos owned,if_neg owned]
  rw [cut,List.length_take,size]
  omega

/-- A line grows with the name, once that has filled its column. -/
theorem dissectLine_shorter (line column : Nat) (context action type : Text) (isLocal : Bool) (kind : SymbolKind)
    {first second : List UInt8} (filled : 32 ≤ first.length) (shorter : first.length < second.length) :
    (dissectLine line column context action isLocal kind first type).length <
      (dissectLine line column context action isLocal kind second type).length := by
  have whole (name : List UInt8) (enough : 32 ≤ name.length) : leftAligned 32 name = name := by
    rw [leftAligned,Nat.sub_eq_zero_of_le enough]
    simp
  unfold dissectLine
  rw [whole first filled,whole second (by omega)]
  by_cases typed : type ≠ []
  · simp only [if_pos typed,List.length_append]
    omega
  · simp only [if_neg typed,List.length_append]
    omega

theorem Entry.line_complete (fits : entry.Fits) : entry.line dissectName = entry.line completeName := by
  cases entry with
  | symbol sym => rw [line,line,dissectName_complete fits]
  | use used => rw [line,line,dissectName_complete fits]

theorem Entry.line_shorter (long : ¬ entry.Fits) : (entry.line dissectName).length < (entry.line completeName).length := by
  cases entry with
  | symbol sym =>
    obtain ⟨cut,more⟩ := dissectName_shorter long
    exact dissectLine_shorter _ _ _ _ _ _ _ (by omega) (by omega)
  | use used =>
    obtain ⟨cut,more⟩ := dissectName_shorter long
    exact dissectLine_shorter _ _ _ _ _ _ _ (by omega) (by omega)

theorem document_complete (fits : ∀ entry ∈ entries, entry.Fits) (file : Option Text) :
    document dissectName file entries = document completeName file entries := by
  induction entries generalizing file with
  | nil => rfl
  | cons entry entries ih =>
    rw [document,document,Entry.line_complete (fits entry List.mem_cons_self),
      ih (fun other inside => fits other (List.mem_cons_of_mem _ inside))]

/-- Cut names are missed in the length of the output. -/
theorem document_length (file : Option Text) (entries : List Entry) :
    (document dissectName file entries).length ≤ (document completeName file entries).length ∧
      ((document dissectName file entries).length = (document completeName file entries).length → ∀ entry ∈ entries, entry.Fits) := by
  induction entries generalizing file with
  | nil => exact ⟨le_rfl,fun _ entry inside => by cases inside⟩
  | cons entry entries ih =>
    obtain ⟨less,fits⟩ := ih (some entry.file)
    simp only [document,List.length_append]
    by_cases fit : entry.Fits
    · rw [Entry.line_complete fit]
      refine ⟨by omega,fun same other inside => ?_⟩
      rcases List.mem_cons.mp inside with here | later
      · rw [here]
        exact fit
      · exact fits (by omega) other later
    · have shorter := Entry.line_shorter fit
      exact ⟨by omega,fun same => by omega⟩

theorem Faithful.fits (faithful : Faithful index) : (∀ sym ∈ index.symbols, Fits sym.owner sym.name) ∧
    ∀ used ∈ index.uses, Fits used.owner used.name := by
  obtain ⟨printed,merged,same⟩ := faithful
  have kept := merged_iff.mp merged
  rw [outputDissect_document,← kept] at same
  have fits := (document_length none printed).2 (congrArg List.length same)
  refine ⟨fun sym listed => fits _ ((merged.symbols sym).mpr listed),fun used listed => ?_⟩
  by_cases here : .use used ∈ printed
  · exact fits _ here
  · -- it repeats a use that is printed, with the same name
    have again : ∃ near, Before Entry.order printed (.use near) (.use used) ∧ near.printed = used.printed := by
      by_contra none
      exact here ((merged.uses used).mpr ⟨listed,fun near before alike => none ⟨near,before,alike⟩⟩)
    obtain ⟨near,before,alike⟩ := again
    have fit : Fits near.owner near.name := fits _ before.here
    simp only [OrderedUse.printed,Prod.mk.injEq] at alike
    obtain ⟨_,_,_,_,_,_,_,owner,name,_⟩ := alike
    rw [owner,name] at fit
    exact fit

/-- The output is a faithful merge exactly where every name fits into the buffer. -/
theorem dissect_faithful_iff (index : DissectIndex) : Faithful index ↔
    (∀ sym ∈ index.symbols, Fits sym.owner sym.name) ∧ ∀ used ∈ index.uses, Fits used.owner used.name := by
  constructor
  · exact Faithful.fits
  · intro fits
    obtain ⟨symbols,uses⟩ := fits
    have merged : Merged index (kept repeats none index.entries) := merged_iff.mpr rfl
    refine ⟨_,merged,?_⟩
    rw [outputDissect_document]
    refine document_complete (fun entry inside => ?_) none
    cases entry with
    | symbol sym => exact symbols sym ((merged.symbols sym).mp inside)
    | use used => exact uses used ((merged.uses used).mp inside).1

def longName : DissectIndex where
  symbols := [{
    kind := .field
    name := List.replicate 254 'x'
    owner := ['S']
    type := "int".toList
    canonicalType := "int".toList
    typeKind := .var
    typeSymbol := []
    typeUsrId := 0
    usr := []
    usrId := 0
    context := []
    file := "a.c".toList
    fileIndex := 0
    line := 1
    column := 12
    isLocal := false
    definition := true
    properties := 0
    order := 0 }]
  uses := []
  symbols_ordered := List.pairwise_singleton _ _
  uses_ordered := .nil
  distinct := by
    intro s _ u inside
    cases inside

/-- The name of a field is cut where it has 256 bytes with its owner. -/
theorem long_name_cut : ¬ Faithful longName := by
  intro faithful
  have fits : Fits ['S'] (List.replicate 254 'x') := faithful.fits.1 _ List.mem_cons_self
  have size (n : Nat) : byteLength (List.replicate n 'x') = n := by
    induction n with
    | zero => rfl
    | succ n ih => exact congrArg (· + 1) ih
  unfold Fits at fits
  rw [size] at fits
  exact absurd fits (by decide)

end Complete
end Semindex.Cmdline
