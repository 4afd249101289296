import Semindex.Parser.Visitor
import Semindex.Support.Path

/-! The items that do not come from the syntax tree: macros and include targets,
and the functions and calls of an assembly source. -/
namespace Semindex.Parser

structure Indexer where
  sm : SourceManager
  scope : Scope
  details : Bool
  commandDirectory : Text

-- a token of a replacement list; only identifiers have a name
structure MacroToken where
  name : Option Text
  isParameter : Bool
  isMacro : Bool
  loc : SourceLocation

inductive PPEvent where
  | macroDefined (name : Option Text) (loc : SourceLocation) (tokens : List MacroToken)
  | macroExpands (name : Option Text) (loc : SourceLocation)
  -- `defined`, `#ifdef`, `#elifdef`, `#ifndef`, `#elifndef`
  | macroTested (name : Option Text) (loc : SourceLocation)
  -- `file` is the file that was found
  | inclusionDirective (fileName : Text) (isAngled : Bool) (file : Option Text) (loc : SourceLocation)

section Items
variable (indexer : Indexer)

def Indexer.commandPath (path : Text) : Text :=
  let base := Pathname.ofText indexer.commandDirectory
  let resolved := Pathname.ofText path
  if base.isEmpty then resolved.lexicallyNormal.text
  else
    let resolved := (if resolved.rooted then resolved else base.append resolved).lexicallyNormal
    let relative := resolved.lexicallyRelative base.lexicallyNormal
    if relative.isEmpty then resolved.text else relative.text

def Indexer.macroSymbol (name : Text) (loc : SourceLocation) : Emission :=
  ⟨.named name,loc,.symbol
    { kind := .macroName, name, owner := [], type := [], usr := if indexer.details then "macro:".toList ++ name else [],
      context := [], loc := indexer.sm.location loc, isLocal := false, definition := true },
    indexer.sm.inScope indexer.scope loc⟩

-- a use of a macro or of a file
def Indexer.textUse (kind : SymbolKind) (usr name : Text) (spelling : SourceLocation) : Emission :=
  ⟨.named name,spelling,.use
    { kind := .read, symbolKind := kind, mode := modeReadValue, name, owner := [], type := [],
      usr := if indexer.details then usr ++ name else [], context := [], loc := indexer.sm.location spelling,
      isLocal := false },indexer.sm.inScope indexer.scope spelling⟩

abbrev MacroUses := List (SourceLocation × Text)

def Indexer.addMacroUse (name : Option Text) (loc : SourceLocation) (uses : MacroUses) : List Emission × MacroUses :=
  match name with
  | none => ([],uses)
  | some name =>
    let spelling := indexer.sm.spelling loc
    if uses.contains (spelling,name) then ([],uses)
    else ([indexer.textUse .macroName "macro:".toList name spelling],(spelling,name)::uses)

def Indexer.addReplacementUses : List MacroToken → MacroUses → List Emission × MacroUses
  | [],uses => ([],uses)
  | token::tokens,uses =>
    let first := if token.isParameter || !token.isMacro then ([],uses)
      else indexer.addMacroUse token.name token.loc uses
    let rest := addReplacementUses tokens first.2
    (first.1 ++ rest.1,rest.2)

def Indexer.includeTarget (fileName : Text) (isAngled : Bool) (file : Option Text) : Text :=
  if isAngled then "<".toList ++ fileName ++ ">".toList
  else match file with
    | none => fileName
    | some name => indexer.commandPath name

def Indexer.preprocess (event : PPEvent) (uses : MacroUses) : List Emission × MacroUses :=
  match event with
  | .macroDefined none _ _ => ([],uses)
  | .macroDefined (some name) loc tokens =>
    let rest := indexer.addReplacementUses tokens uses
    (indexer.macroSymbol name loc::rest.1,rest.2)
  | .macroExpands name loc => indexer.addMacroUse name (indexer.sm.spelling loc) uses
  | .macroTested name loc => indexer.addMacroUse name loc uses
  | .inclusionDirective fileName isAngled file loc =>
    ([indexer.textUse .file "file:".toList (indexer.includeTarget fileName isAngled file) (indexer.sm.spelling loc)],
      uses)

def Indexer.preprocessed (events : List PPEvent) : List Emission := (Graph.Forest.collect indexer.preprocess events []).1

-- the items of `tryAddFunction` and `addCall`
def Indexer.assemblyFunction (name : Text) (loc : SourceLocation) : Emission :=
  let spelling := indexer.sm.spelling loc
  ⟨.named name,spelling,.symbol
    { kind := .function, name, owner := [], type := [], usr := [], context := [],
      loc := indexer.sm.location spelling, isLocal := false, definition := true },
    indexer.sm.inScope indexer.scope spelling⟩

def Indexer.assemblyCall (target function : Text) (loc : SourceLocation) : Emission :=
  let spelling := indexer.sm.spelling loc
  ⟨.named target,spelling,.use
    { kind := .call, symbolKind := .function, mode := modeReadPointer, name := target, owner := [], type := [],
      usr := [], context := function, loc := indexer.sm.location spelling, isLocal := false },
    indexer.sm.inScope indexer.scope spelling⟩

end Items
end Semindex.Parser
