import Semindex.IndexDb.Output
import Semindex.Support.InputStream
import Semindex.Support.Utf8

/-! The source lines of `index_db_output` as requests arrive, with the buffer and
the signed length that `getline` leaves behind. -/
namespace Semindex.IndexDb.OutputSource
open Semindex.Delimited Semindex.Support

/-- The members of `index_db_output` that the source lines are read with. -/
structure SourceReader where
  root : Option Text
  path : Option Text := none
  source : Option (Cursor UInt8) := none
  text : List UInt8 := []
  length : Int := 0
  line : Nat := 0

structure Request where
  root : Option Text
  path : Text
  line : Nat
  positive : 1 ≤ line

/-- What is written to the output; in `overrun` a negative length is given to `fwrite`. -/
inductive Printed where
  | text (bytes : List UInt8)
  | failed
  | overrun
  deriving DecidableEq

def indexDbOutputCreate (rootHint : Option Text) : SourceReader := {root := rootHint}

section Print
variable (files : Text → Option (List UInt8)) (reader : SourceReader)

-- the open file, or none where it cannot be opened
def openSource (root : Option Text) (path : Text) : SourceReader × Option (Cursor UInt8) :=
  let sourcePath := Source.openSource root reader.root path
  match reader.source.filter (fun _ => reader.path = some sourcePath) with
  | some file => (reader,some file)
  | none =>
    let file := (files sourcePath).map start
    ({reader with path := some sourcePath, source := file, line := 0, length := 0},file)

-- `while (search->line < line)`, so many times
def advance : Nat → SourceReader → Cursor UInt8 → SourceReader × Bool
  | 0,reader,file => ({reader with source := some file},true)
  | n+1,reader,file =>
    match getdelim newline file with
    | none => ({reader with source := some file, length := -1},false)
    | some (file,text) => advance n {reader with text, length := text.length, line := reader.line + 1} file

def trimmed (text : List UInt8) (length : Int) : Int :=
  if 0 < length ∧ text[(length-1).toNat]? = some newline then length - 1 else length

def fwrite (text : List UInt8) (length : Int) : Printed :=
  if length < 0 then .overrun else .text (text.take length.toNat)

def printSourceLine (request : Request) : SourceReader × Printed :=
  match openSource files reader request.root request.path with
  | (reader,none) => (reader,.failed)
  | (reader,some file) =>
    let (reader,file) := if request.line < reader.line then ({reader with line := 0},start file.content) else (reader,file)
    match advance (request.line - reader.line) reader file with
    | (reader,false) => (reader,.failed)
    | (reader,true) =>
      let reader := {reader with length := trimmed reader.text reader.length}
      (reader,fwrite reader.text reader.length)

def answers : SourceReader → List Request → List Printed
  | _,[] => []
  | reader,request::requests =>
    let (next,printed) := printSourceLine files reader request
    printed::answers next requests

end Print

section Expected
variable (files : Text → Option (List UInt8)) (hint : Option Text)

def linesOf (content : List UInt8) : List (List UInt8) := pieces newline content

def Request.source (request : Request) : Text := Source.openSource request.root hint request.path

/-- The line of the file without its newline, or nothing. -/
def expected (request : Request) : Printed :=
  match (files (request.source hint)).bind (fun content => (linesOf content)[request.line-1]?) with
  | some line => .text line
  | none => .failed

/-- A line beyond the end of a file is asked for, and right after it the last line of that file. -/
def Misread (request next : Request) : Prop :=
  next.source hint = request.source hint ∧ ∃ content, files (request.source hint) = some content ∧
    (linesOf content).length < request.line ∧ next.line = (linesOf content).length

end Expected

section Lines
variable {text line : List UInt8} {length : Int}

theorem fwrite_trimmed (fresh : newline ∉ line) (same : unended newline text = line) :
    0 ≤ trimmed text text.length ∧ text.take (trimmed text text.length).toNat = line := by
  unfold unended at same
  by_cases last : text.getLast? = some newline
  · rw [if_pos last] at same
    obtain ⟨front,whole⟩ := List.getLast?_eq_some_iff.mp last
    have cut : trimmed text text.length = (front.length : Int) := by
      unfold trimmed
      rw [whole,List.length_append,List.length_singleton,if_pos ⟨by omega,by simp⟩]
      omega
    rw [cut,Int.toNat_natCast,← same,whole]
    simp
  · rw [if_neg last] at same
    have whole : trimmed text text.length = (text.length : Int) := by
      refine if_neg (fun ended => fresh ?_)
      rw [← same]
      exact List.mem_of_getElem? ended.2
    rw [whole,Int.toNat_natCast,← same]
    simp

-- a line that was printed before is the same again
theorem trimmed_again (fresh : newline ∉ line) (same : text.take length.toNat = line) :
    trimmed text length = length := by
  refine if_neg (fun ended => fresh ?_)
  obtain ⟨positive,last⟩ := ended
  rw [← same]
  refine List.mem_of_getElem? (i := (length-1).toNat) ?_
  rw [List.getElem?_take,if_pos (by omega)]
  exact last

end Lines

section State
variable {files : Text → Option (List UInt8)} {hint : Option Text} {reader middle : SourceReader} {request : Request}
  {content : List UInt8} {file : Cursor UInt8} {k : Nat}

/-- The file is read up to the line. -/
structure Open (content : List UInt8) (reader : SourceReader) (file : Cursor UInt8) : Prop where
  whole : file.content = content
  place : file.At newline reader.line
  inside : reader.line ≤ (linesOf content).length

/-- The buffer has the line, as far as the length says. -/
structure Held (content : List UInt8) (reader : SourceReader) (length : Int) : Prop where
  known : 0 ≤ length
  line : ∀ m, reader.line = m + 1 → (linesOf content)[m]? = some (reader.text.take length.toNat)

-- what a request for this line leaves behind: the line, or the end of the file
def Left (content : List UInt8) (line : Nat) (reader : SourceReader) : Prop :=
  if (linesOf content).length < line then reader.line = (linesOf content).length ∧ reader.length = -1
  else reader.line = line ∧ Held content reader reader.length

/-- The state behind a request. -/
structure After (files : Text → Option (List UInt8)) (hint : Option Text) (request : Request) (reader : SourceReader) : Prop where
  root : reader.root = hint
  path : reader.path = some (request.source hint)
  missing : files (request.source hint) = none → reader.source = none
  source : ∀ content, files (request.source hint) = some content → ∃ file, reader.source = some file ∧
    Open content reader file ∧ Left content request.line reader

theorem line_fresh {m : Nat} {line : List UInt8} (there : (linesOf content)[m]? = some line) : newline ∉ line :=
  pieces_fresh _ _ (List.mem_of_getElem? there)

theorem Held.trim {length : Int} (held : Held content reader length) (read : reader.line ≠ 0) :
    trimmed reader.text length = length := by
  obtain ⟨m,same⟩ := Nat.exists_eq_succ_of_ne_zero read
  exact trimmed_again (line_fresh (held.line m same)) rfl

/-- The next line is read, if there is one. -/
theorem Open.read (opened : Open content reader file) (more : reader.line < (linesOf content).length) : ∃ next text,
    getdelim newline file = some (next,text) ∧
      Open content {reader with text, length := text.length, line := reader.line + 1} next ∧
      Held content {reader with text, length := text.length, line := reader.line + 1} (trimmed text text.length) := by
  obtain ⟨piece,there⟩ : ∃ piece, (linesOf content)[reader.line]? = some piece := ⟨_,List.getElem?_eq_getElem more⟩
  obtain ⟨next,text,read,line,same,place⟩ := opened.place.getdelim_piece (opened.whole.symm ▸ there)
  obtain ⟨known,front⟩ := fwrite_trimmed (line_fresh there) line
  refine ⟨next,text,read,⟨same.trans opened.whole,place,more⟩,⟨known,fun m number => ?_⟩⟩
  cases number
  rw [front]
  exact there

theorem advance_reaches (opened : Open content reader file) (enough : reader.line + k ≤ (linesOf content).length)
    (ready : 0 < k ∨ Held content reader (trimmed reader.text reader.length)) :
    ∃ final last, advance k reader file = (final,true) ∧ final.source = some last ∧ Open content final last ∧
      Held content final (trimmed final.text final.length) ∧
      (final.line,final.root,final.path) = (reader.line + k,reader.root,reader.path) := by
  induction k generalizing reader file with
  | zero =>
    obtain ⟨known,line⟩ := ready.resolve_left (by omega)
    exact ⟨_,file,rfl,rfl,⟨opened.whole,opened.place,opened.inside⟩,⟨known,line⟩,rfl⟩
  | succ k ih =>
    obtain ⟨next,text,read,onward,held⟩ := opened.read (by omega)
    obtain ⟨final,last,done,source,whole,line,same⟩ := ih onward (by dsimp only; omega) (.inr held)
    refine ⟨final,last,?_,source,whole,line,?_⟩
    · rw [advance,read]
      exact done
    · rw [same,Nat.add_right_comm]
      rfl

theorem advance_ends (opened : Open content reader file) (short : (linesOf content).length < reader.line + k) :
    ∃ final last, advance k reader file = (final,false) ∧ final.source = some last ∧ Open content final last ∧
      (final.line,final.length,final.root,final.path) = ((linesOf content).length,-1,reader.root,reader.path) := by
  induction k generalizing reader file with
  | zero => exact absurd opened.inside (by omega)
  | succ k ih =>
    by_cases more : reader.line < (linesOf content).length
    · obtain ⟨next,text,read,onward,_⟩ := opened.read more
      obtain ⟨final,last,done,source,whole,same⟩ := ih onward (by dsimp only; omega)
      refine ⟨final,last,?_,source,whole,same⟩
      rw [advance,read]
      exact done
    · have here : reader.line = (linesOf content).length := Nat.le_antisymm opened.inside (by omega)
      have ended : getdelim newline file = none := opened.place.getdelim_end (by rw [opened.whole]; exact here.ge)
      refine ⟨{reader with source := some file, length := -1},file,by rw [advance,ended],rfl,⟨opened.whole,opened.place,opened.inside⟩,?_⟩
      rw [← here]

-- the file from its start, for a line that is behind
def seek (line : Nat) (reader : SourceReader) (file : Cursor UInt8) : SourceReader × Cursor UInt8 :=
  if line < reader.line then ({reader with line := 0},start file.content) else (reader,file)

theorem seek_open (opened : Open content reader file) (line : Nat) (positive : 1 ≤ line) : ∃ there front,
    seek line reader file = (there,front) ∧ Open content there front ∧ there.line ≤ line ∧
      (there.line = line → there = reader) ∧ (there.root,there.path) = (reader.root,reader.path) := by
  unfold seek
  by_cases back : line < reader.line
  · rw [if_pos back]
    exact ⟨_,_,rfl,⟨opened.whole,start_at _,Nat.zero_le _⟩,Nat.zero_le _,fun same => absurd same (by dsimp only; omega),rfl⟩
  · rw [if_neg back]
    exact ⟨_,_,rfl,opened,by omega,fun _ => rfl,rfl⟩

theorem printSourceLine_opened (opened : openSource files reader request.root request.path = (middle,some file)) :
    printSourceLine files reader request =
      match advance (request.line - (seek request.line middle file).1.line) (seek request.line middle file).1
        (seek request.line middle file).2 with
      | (final,false) => (final,.failed)
      | (final,true) => ({final with length := trimmed final.text final.length},fwrite final.text (trimmed final.text final.length)) := by
  unfold printSourceLine
  rw [opened]
  rfl

theorem expected_line {line : List UInt8} (found : files (request.source hint) = some content)
    (there : (linesOf content)[request.line-1]? = some line) : expected files hint request = .text line := by
  unfold expected
  rw [found,Option.bind_some,there]

theorem expected_end (found : files (request.source hint) = some content) (short : (linesOf content).length < request.line) :
    expected files hint request = .failed := by
  unfold expected
  rw [found,Option.bind_some,List.getElem?_eq_none (by omega)]

theorem fwrite_held {length : Int} {line : List UInt8} (held : Held content reader length) {m : Nat} (place : reader.line = m + 1)
    (there : (linesOf content)[m]? = some line) : fwrite reader.text length = .text line := by
  have same := there.symm.trans (held.line m place)
  rw [Option.some.inj same]
  exact if_neg (Int.not_lt.mpr held.known)

/-- An open file gives the line that is expected, unless its length was lost at that line. -/
theorem print_open (opened : openSource files reader request.root request.path = (middle,some file)) (read : Open content middle file)
    (found : files (request.source hint) = some content) (root : middle.root = hint)
    (path : middle.path = some (request.source hint)) (kept : middle.line = request.line → Held content middle middle.length) :
    ∃ next, printSourceLine files reader request = (next,expected files hint request) ∧ After files hint request next := by
  obtain ⟨there,front,sought,onward,behind,same,places⟩ := seek_open read request.line request.positive
  obtain ⟨root',path'⟩ := Prod.mk.inj places
  rw [printSourceLine_opened opened,sought]
  dsimp only
  by_cases short : (linesOf content).length < request.line
  · obtain ⟨final,last,done,source,reached,state⟩ := advance_ends onward (k := request.line - there.line) (by omega)
    obtain ⟨line,state⟩ := Prod.mk.inj state
    obtain ⟨length,state⟩ := Prod.mk.inj state
    obtain ⟨root'',path''⟩ := Prod.mk.inj state
    rw [done,expected_end found short]
    refine ⟨final,rfl,⟨root''.trans (root'.trans root),path''.trans (path'.trans path),fun none => ?_,fun other known => ?_⟩⟩
    · rw [found] at none
      cases none
    rw [found] at known
    cases known
    refine ⟨last,source,reached,?_⟩
    unfold Left
    rw [if_pos short]
    exact ⟨line,length⟩
  · have ready : 0 < request.line - there.line ∨ Held content there (trimmed there.text there.length) := by
      by_cases here : there.line = request.line
      · cases same here
        have held := kept here
        have positive := request.positive
        rw [held.trim (by omega)]
        exact .inr held
      · exact .inl (by omega)
    obtain ⟨final,last,done,source,reached,held,state⟩ := advance_reaches onward (by omega) ready
    obtain ⟨line,state⟩ := Prod.mk.inj state
    obtain ⟨root'',path''⟩ := Prod.mk.inj state
    have here : final.line = request.line := by omega
    have positive := request.positive
    obtain ⟨text,exists'⟩ : ∃ text, (linesOf content)[request.line-1]? = some text := ⟨_,List.getElem?_eq_getElem (by omega)⟩
    rw [done,expected_line found exists']
    dsimp only
    rw [fwrite_held held (by omega) exists']
    refine ⟨_,rfl,⟨root''.trans (root'.trans root),path''.trans (path'.trans path),fun none => ?_,fun other known => ?_⟩⟩
    · rw [found] at none
      cases none
    rw [found] at known
    cases known
    refine ⟨last,source,⟨reached.whole,reached.place,reached.inside⟩,?_⟩
    unfold Left
    rw [if_neg short]
    exact ⟨here,⟨held.known,held.line⟩⟩

theorem print_fresh (request : Request) (root : reader.root = hint)
    (fresh : reader.source.filter (fun _ => reader.path = some (request.source hint)) = none) :
    ∃ next, printSourceLine files reader request = (next,expected files hint request) ∧ After files hint request next := by
  have opened : openSource files reader request.root request.path =
      ({reader with path := some (request.source hint), source := (files (request.source hint)).map start, line := 0, length := 0},
        (files (request.source hint)).map start) := by
    unfold openSource
    rw [root]
    dsimp only
    rw [show Source.openSource request.root hint request.path = request.source hint from rfl,fresh]
  cases found : files (request.source hint) with
  | none =>
    refine ⟨{reader with path := some (request.source hint), source := none, line := 0, length := 0},?_,root,rfl,fun _ => rfl,
      fun content held => ?_⟩
    · unfold printSourceLine expected
      rw [opened,found]
      rfl
    · rw [found] at held
      cases held
  | some content =>
    rw [found] at opened
    refine print_open opened ⟨rfl,start_at content,Nat.zero_le _⟩ found root rfl (fun here => ?_)
    have positive := request.positive
    exact absurd here (by dsimp only; omega)

/-- The length is lost only behind a line beyond the end, and missed only at the last line. -/
theorem After.print {last : Request} (after : After files hint last reader) (request : Request) :
    (Misread files hint last request ∧ ∃ next, printSourceLine files reader request = (next,.overrun)) ∨
      (¬ Misread files hint last request ∧ ∃ next, printSourceLine files reader request = (next,expected files hint request) ∧
        After files hint request next) := by
  have path := after.path
  by_cases same : request.source hint = last.source hint
  · cases found : files (last.source hint) with
    | none =>
      refine .inr ⟨fun misread => ?_,print_fresh request after.root (by rw [after.missing found]; rfl)⟩
      obtain ⟨_,content,there,_⟩ := misread
      rw [found] at there
      cases there
    | some content =>
      obtain ⟨file,source,opened,left⟩ := after.source content found
      have held : openSource files reader request.root request.path = (reader,some file) := by
        unfold openSource
        rw [after.root]
        dsimp only
        rw [show Source.openSource request.root hint request.path = request.source hint from rfl,source,path,same]
        simp only [Option.filter_some,decide_true,if_true]
      unfold Left at left
      split at left
      · rename_i beyond
        obtain ⟨line,length⟩ := left
        by_cases here : request.line = (linesOf content).length
        · refine .inl ⟨⟨same,content,found,beyond,here⟩,{reader with source := some file, length := trimmed reader.text (-1)},?_⟩
          rw [printSourceLine_opened held]
          unfold seek
          rw [if_neg (by omega),here,← line,Nat.sub_self,advance]
          dsimp only
          rw [length]
          rfl
        · refine .inr ⟨fun misread => ?_,
            print_open held opened (same ▸ found) after.root (same ▸ path) (fun place => absurd place (by omega))⟩
          obtain ⟨_,other,there,_,place⟩ := misread
          rw [found] at there
          cases there
          exact here place
      · rename_i inside
        obtain ⟨_,kept⟩ := left
        refine .inr ⟨fun misread => ?_,print_open held opened (same ▸ found) after.root (same ▸ path) (fun _ => kept)⟩
        obtain ⟨_,other,there,beyond,_⟩ := misread
        rw [found] at there
        cases there
        exact inside beyond
  · refine .inr ⟨fun misread => same misread.1,print_fresh request after.root ?_⟩
    refine Option.filter_eq_none_iff.mpr (fun file _ => ?_)
    rw [path]
    simpa using Ne.symm same

end State

section Runs
variable {files : Text → Option (List UInt8)} {hint : Option Text} {reader : SourceReader}

theorem After.answers_iff {last : Request} (after : After files hint last reader) (requests : List Request) :
    answers files reader requests = requests.map (expected files hint) ↔
      List.IsChain (fun request next => ¬ Misread files hint request next) (last::requests) := by
  induction requests generalizing last reader with
  | nil => exact iff_of_true rfl (.singleton last)
  | cons request requests ih =>
    rw [List.isChain_cons_cons,List.map_cons,answers]
    rcases after.print request with ⟨misread,next,printed⟩ | ⟨right,next,printed,onward⟩
    · rw [printed]
      refine iff_of_false (fun same => ?_) (fun chain => chain.1 misread)
      obtain ⟨wrong,_⟩ := List.cons.inj same
      unfold expected at wrong
      split at wrong <;> cases wrong
    · rw [printed]
      dsimp only
      rw [List.cons.injEq,eq_self_iff_true,true_and,ih onward]
      exact (and_iff_right right).symm

/-- Every request prints the line it asks for, or nothing where there is none, exactly where no request for a line beyond
the end of a file is followed by one for its last line. -/
theorem source_lines_iff (files : Text → Option (List UInt8)) (hint : Option Text) (requests : List Request) :
    answers files (indexDbOutputCreate hint) requests = requests.map (expected files hint) ↔
      List.IsChain (fun request next => ¬ Misread files hint request next) requests := by
  cases requests with
  | nil => exact iff_of_true rfl .nil
  | cons request requests =>
    obtain ⟨next,printed,after⟩ := @print_fresh files hint (indexDbOutputCreate hint) request rfl rfl
    rw [List.map_cons,answers,printed]
    dsimp only
    rw [List.cons.injEq,eq_self_iff_true,true_and]
    exact after.answers_iff requests

theorem lines_utf8 (content : Text) : linesOf (utf8 content) = (Output.linesOf content).map utf8 := by
  have plain : ∀ part : Text, '\n' ∉ part → newline ∉ utf8 part := by
    intro part fresh member
    obtain ⟨before,after,same⟩ := List.append_of_mem member
    obtain ⟨first,second,split,_⟩ := utf8_cut (by decide) same
    exact fresh (split ▸ List.mem_append_right first List.mem_cons_self)
  unfold linesOf Output.linesOf
  induction content using cut_induction '\n' with
  | nil => rfl
  | last part fresh present =>
    have some : utf8 part ≠ [] := by
      intro empty
      have decoded := decode_utf8 part
      rw [empty] at decoded
      exact present (Option.some.inj (decoded.symm.trans (decode_utf8 [])))
    rw [pieces_last fresh present,pieces_last (plain part fresh) some]
    rfl
  | cut part rest fresh ih =>
    have behind : utf8 ('\n'::rest) = newline::utf8 rest := rfl
    rw [pieces_cut fresh,utf8_append,behind,pieces_cut (plain part fresh),ih]
    rfl

/-- A record whose source is readable asks for its text. -/
theorem expected_readable {texts : Text → Option Text} {record : Output.OutputRecord} {text : Text}
    (readable : Output.Readable texts hint record text) : ∃ request : Request, request.root = record.root ∧
      request.path = record.file ∧ (request.line : Int) = record.line ∧
      expected (fun path => (texts path).map utf8) hint request = .text (utf8 text) := by
  obtain ⟨content,m,found,place,line⟩ := readable
  refine ⟨⟨record.root,record.file,m+1,Nat.succ_pos m⟩,rfl,rfl,by rw [place]; rfl,@expected_line _ hint _ (utf8 content) _ ?_ ?_⟩
  · dsimp only [Request.source]
    rw [found]
    rfl
  · rw [lines_utf8,List.getElem?_map,Nat.add_sub_cancel,line]
    rfl

def oneLine : Text → Option (List UInt8) := fun _ => some [97,newline]

def backwards : List Request := [⟨none,"a.c".toList,2,by decide⟩,⟨none,"a.c".toList,1,by decide⟩]

/-- The only line of a file is not printed behind a request for the second. -/
theorem length_is_lost : answers oneLine (indexDbOutputCreate none) backwards = [.failed,.overrun] ∧
    answers oneLine (indexDbOutputCreate none) backwards ≠ backwards.map (expected oneLine none) := by decide

end Runs
end Semindex.IndexDb.OutputSource
