import Semindex.Text

/-! `compile_format` of the search output. The format is a C string that is read
by position, and a text token keeps where it begins in it and how long it is. -/
namespace Semindex.IndexDb.Output

inductive SearchField where
  | file | variant | variantFile | line | column | context | symbol | record | mode | kind | kindChar | source
  deriving DecidableEq

-- `search_fields`
def searchFields : List (Text × SearchField) := [
  ("file".toList,.file),
  ("variant".toList,.variant),
  ("variant_file".toList,.variantFile),
  ("line".toList,.line),
  ("column".toList,.column),
  ("context".toList,.context),
  ("symbol".toList,.symbol),
  ("record".toList,.record),
  ("mode".toList,.mode),
  ("kind".toList,.kind),
  ("kind_char".toList,.kindChar),
  ("source".toList,.source)]

def findField (name : Text) : Option SearchField := (searchFields.find? (fun entry => entry.1 = name)).map Prod.snd

inductive SearchToken where
  | text (start length : Nat)
  | character (character : Char)
  | field (field : SearchField)
  deriving DecidableEq

def nul : Char := Char.ofNat 0

/-- A string up to its NUL. -/
structure CString where
  text : Text
  terminated : nul ∉ text

section Reading
variable (format : CString)

-- `none` is a read behind the NUL
def CString.at (i : Nat) : Option Char := if i < format.text.length then format.text[i]? else if i = format.text.length then some nul else none

def CString.slice (first last : Nat) : Text := (format.text.drop first).take (last - first)

def CString.strchr (start : Nat) (c : Char) : Option Nat := ((format.text.drop start).findIdx? (· = c)).map (start + ·)

theorem CString.at_inside {i : Nat} {c : Char} (read : format.at i = some c) (other : c ≠ nul) :
    i < format.text.length ∧ format.text[i]? = some c := by
  unfold CString.at at read
  split at read
  · exact ⟨by assumption,read⟩
  · split at read
    · exact absurd (Option.some.inj read).symm other
    · cases read

end Reading

inductive FormatError where
  | expected
  | unterminated
  | unknown (name : Text)
  deriving DecidableEq

def FormatError.message : FormatError → Text
  | .expected => "semindex: expected named format specification after '%'\n".toList
  | .unterminated => "semindex: unterminated format specification\n".toList
  | .unknown name => "semindex: unknown format field: ".toList ++ name ++ [ '\n']

/-- What `compile_format` returns, and the tokens it has stored by then. -/
inductive Compiled where
  | compiled (tokens : List SearchToken)
  | failed (error : FormatError) (tokens : List SearchToken)
  -- a read behind the NUL
  | overrun (tokens : List SearchToken)
  deriving DecidableEq

def Compiled.tokens : Compiled → List SearchToken
  | .compiled tokens => tokens
  | .failed _ tokens => tokens
  | .overrun tokens => tokens

section Compile
variable (format : CString)

def addTextToken (tokens : List SearchToken) (text p : Nat) : List SearchToken :=
  if p - text = 0 then tokens else tokens ++ [.text text (p - text)]

-- `parse_field` at a percent sign: the end of the specification, and its field
def parseField (p : Nat) : Except FormatError (Nat × SearchField) :=
  if format.at (p+1) ≠ some '\x7b' then .error .expected
  else match format.strchr (p+2) '\x7d' with
    | none => .error .unterminated
    | some last => match findField (format.slice (p+2) last) with
      | none => .error (.unknown (format.slice (p+2) last))
      | some field => .ok (last,field)

def unescape (c : Char) : Char :=
  if c = 't' then '\t' else if c = 'r' then '\r' else if c = 'n' then '\n' else c

theorem parseField_end {p last : Nat} {field : SearchField} (parsed : parseField format p = .ok (last,field)) : p + 2 ≤ last := by
  unfold parseField at parsed
  split at parsed
  · cases parsed
  · split at parsed
    · cases parsed
    · rename_i found
      obtain ⟨_,_,rfl⟩ := Option.map_eq_some_iff.mp found
      split at parsed
      · cases parsed
      · cases parsed
        omega

/-- The loop at `p`, where the characters from `text` on are not stored yet. -/
def compileFrom (p text : Nat) (tokens : List SearchToken) : Compiled :=
  match _read : format.at p with
  | none => .overrun tokens
  | some c =>
    if _ended : c = nul then .compiled (addTextToken tokens text p)
    else if c ≠ '\\' ∧ c ≠ '%' then compileFrom (p+1) text tokens
    else
      let stored := addTextToken tokens text p
      match format.at (p+1) with
      | none => .overrun stored
      | some next =>
        if c = '\\' then
          if next = nul then .compiled (addTextToken stored (p+1) (p+1))
          else compileFrom (p+2) (p+2) (stored ++ [.character (unescape next)])
        else if next = '%' then compileFrom (p+2) (p+2) (stored ++ [.character '%'])
        else match parsed : parseField format p with
          | .error error => .failed error stored
          | .ok (last,field) => compileFrom (last+1) (last+1) (stored ++ [.field field])
termination_by format.text.length - p
decreasing_by
  all_goals
    have inside := (format.at_inside _read _ended).1
    try have behind := parseField_end format parsed
    omega

def compileFormat : Compiled := compileFrom format 0 0 []

end Compile

section Grammar

def SearchField.name : SearchField → Text
  | .file => "file".toList
  | .variant => "variant".toList
  | .variantFile => "variant_file".toList
  | .line => "line".toList
  | .column => "column".toList
  | .context => "context".toList
  | .symbol => "symbol".toList
  | .record => "record".toList
  | .mode => "mode".toList
  | .kind => "kind".toList
  | .kindChar => "kind_char".toList
  | .source => "source".toList

/-- A part of a format. -/
inductive Part where
  | ordinary (c : Char) (plain : c ≠ '\\' ∧ c ≠ '%')
  | escape (c : Char)
  | percent
  | field (field : SearchField)

def Part.spelling : Part → Text
  | .ordinary c _ => [c]
  | .escape c => [ '\\',c]
  | .percent => [ '%', '%']
  | .field which => '%' :: '\x7b' :: (which.name ++ [ '\x7d'])

/-- What a part stands for where the fields have these values. -/
def Part.meaning (value : SearchField → Text) : Part → Text
  | .ordinary c _ => [c]
  | .escape 't' => [ '\t']
  | .escape 'r' => [ '\r']
  | .escape 'n' => [ '\n']
  | .escape c => [c]
  | .percent => [ '%']
  | .field which => value which

theorem meaning_escape (value : SearchField → Text) (c : Char) : Part.meaning value (.escape c) = [unescape c] := by
  unfold unescape
  split_ifs with tab return' newline
  · rw [tab]
    rfl
  · rw [return']
    rfl
  · rw [newline]
    rfl
  · unfold Part.meaning
    split <;> simp_all

-- the parts, and perhaps a backslash that nothing follows
def spelled (parts : List Part) (lone : Bool) : Text := parts.flatMap Part.spelling ++ if lone then [ '\\'] else []

def SearchToken.output (format : CString) (value : SearchField → Text) : SearchToken → Text
  | .text start length => (format.text.drop start).take length
  | .character c => [c]
  | .field which => value which

theorem name_found (field : SearchField) : findField field.name = some field ∧ '\x7d' ∉ field.name := by
  cases field <;> decide

theorem findField_name {name : Text} {field : SearchField} (found : findField name = some field) : name = field.name := by
  obtain ⟨entry,listed,same⟩ := Option.map_eq_some_iff.mp found
  have named := of_decide_eq_true (List.find?_some (p := fun entry : Text × SearchField => decide (entry.1 = name)) listed)
  have member := List.mem_of_find?_eq_some listed
  have table : ∀ entry ∈ searchFields, entry.1 = entry.2.name := by decide
  rw [← named,table entry member,same]

end Grammar

section Scanner
variable {format : CString} {p text : Nat} {c : Char} {rest : Text} {tokens : List SearchToken} {value : SearchField → Text}

theorem at_drop (here : format.text.drop p = c::rest) : p < format.text.length ∧ format.at p = some c ∧ c ≠ nul ∧
    format.text.drop (p+1) = rest := by
  have inside : p < format.text.length := by
    by_contra outside
    rw [List.drop_eq_nil_of_le (Nat.not_lt.mp outside)] at here
    cases here
  have found : format.text[p]? = some c := by
    rw [← List.head?_drop,here]
    rfl
  refine ⟨inside,(if_pos inside).trans found,fun same => format.terminated (same ▸ List.mem_of_getElem? found),?_⟩
  rw [← List.tail_drop,here]
  rfl

theorem drop_at (read : format.at p = some c) (other : c ≠ nul) : ∃ rest, format.text.drop p = c::rest := by
  obtain ⟨inside,found⟩ := format.at_inside read other
  refine ⟨format.text.drop (p+1),?_⟩
  rw [List.drop_eq_getElem_cons inside]
  rw [List.getElem?_eq_getElem inside] at found
  rw [Option.some.inj found]

theorem at_end (here : p = format.text.length) : format.at p = some nul := by
  unfold CString.at
  rw [if_neg (by omega),if_pos here]

theorem slice_next (here : format.text.drop p = c::rest) (before : text ≤ p) :
    format.slice text (p+1) = format.slice text p ++ [c] := by
  have found : format.text[p]? = some c := by
    rw [← List.head?_drop,here]
    rfl
  have step : p + 1 - text = (p - text) + 1 := by omega
  have place : text + (p - text) = p := by omega
  rw [CString.slice,step,List.take_add_one,List.getElem?_drop,place,found]
  rfl

theorem slice_empty : format.slice p p = [] := by
  simp [CString.slice]

theorem addTextToken_output : (addTextToken tokens text p).flatMap (SearchToken.output format value) =
    tokens.flatMap (SearchToken.output format value) ++ format.slice text p := by
  unfold addTextToken CString.slice
  split
  · rename_i none
    rw [none]
    simp
  · simp [SearchToken.output]

theorem addTextToken_length (tokens : List SearchToken) (text p : Nat) :
    (addTextToken tokens text p).length ≤ tokens.length + (p - text) := by
  unfold addTextToken
  split
  · omega
  · rw [List.length_append,List.length_singleton]
    omega

theorem compile_end (done : p = format.text.length) :
    compileFrom format p text tokens = .compiled (addTextToken tokens text p) := by
  rw [compileFrom]
  split
  · rename_i read
    rw [at_end done] at read
    cases read
  · rename_i c read
    rw [at_end done] at read
    rw [dif_pos (Option.some.inj read).symm]

theorem compile_ordinary (here : format.text.drop p = c::rest) (plain : c ≠ '\\' ∧ c ≠ '%') :
    compileFrom format p text tokens = compileFrom format (p+1) text tokens := by
  obtain ⟨_,found,other,_⟩ := at_drop here
  rw [compileFrom]
  split
  · rename_i read
    rw [found] at read
    cases read
  · rename_i first read
    rw [found] at read
    cases read
    rw [dif_neg other,if_pos plain]

/-- Behind a backslash or a percent sign. -/
theorem compile_special {next : Char} (found : format.at p = some c) (other : c ≠ nul) (special : ¬(c ≠ '\\' ∧ c ≠ '%'))
    (follows : format.at (p+1) = some next) : compileFrom format p text tokens =
      if c = '\\' then
        if next = nul then .compiled (addTextToken (addTextToken tokens text p) (p+1) (p+1))
        else compileFrom format (p+2) (p+2) (addTextToken tokens text p ++ [.character (unescape next)])
      else if next = '%' then compileFrom format (p+2) (p+2) (addTextToken tokens text p ++ [.character '%'])
      else match parseField format p with
        | .error error => .failed error (addTextToken tokens text p)
        | .ok (last,field) => compileFrom format (last+1) (last+1) (addTextToken tokens text p ++ [.field field]) := by
  rw [compileFrom]
  split
  · rename_i read
    rw [found] at read
    cases read
  · rename_i first read
    rw [found] at read
    cases read
    rw [dif_neg other,if_neg special,follows]
    dsimp only
    split_ifs
    · rfl
    · rfl
    · rfl
    · split
      · rename_i error parsed
        rw [parsed]
      · rename_i last field parsed
        rw [parsed]

theorem at_next (inside : p < format.text.length) : ∃ next, format.at (p+1) = some next := by
  rcases Nat.lt_or_ge (p+1) format.text.length with further | done
  · exact ⟨_,(if_pos further).trans (List.getElem?_eq_getElem further)⟩
  · exact ⟨nul,at_end (by omega)⟩

theorem findIdx_split {chars : Text} {k : Nat} : chars.findIdx? (· = c) = some k ↔
    ∃ before after, chars = before ++ c::after ∧ c ∉ before ∧ k = before.length := by
  induction chars generalizing k with
  | nil => simp
  | cons first chars ih =>
    rw [List.findIdx?_cons]
    by_cases same : first = c
    · subst same
      rw [if_pos (decide_eq_true rfl)]
      constructor
      · intro zero
        exact ⟨[],chars,rfl,List.not_mem_nil,(Option.some.inj zero).symm⟩
      · intro ⟨before,after,split,fresh,length⟩
        cases before with
        | nil => rw [length,List.length_nil]
        | cons head before =>
          obtain ⟨rfl,_⟩ := List.cons.inj split
          exact absurd List.mem_cons_self fresh
    · rw [if_neg (by simpa using same),Option.map_eq_some_iff]
      constructor
      · intro ⟨n,found,next⟩
        obtain ⟨before,after,rfl,fresh,rfl⟩ := ih.mp found
        exact ⟨first::before,after,rfl,by simp [fresh,Ne.symm same],next.symm⟩
      · intro ⟨before,after,split,fresh,length⟩
        cases before with
        | nil =>
          obtain ⟨rfl,_⟩ := List.cons.inj split
          exact absurd rfl same
        | cons head before =>
          obtain ⟨rfl,rfl⟩ := List.cons.inj split
          exact ⟨before.length,ih.mpr ⟨before,after,rfl,fun inside => fresh (List.mem_cons_of_mem _ inside),rfl⟩,length.symm⟩

-- the specification of a field, and where it ends
theorem parseField_iff {last : Nat} {field : SearchField} (here : format.text.drop p = '%'::rest) :
    parseField format p = .ok (last,field) ↔ ∃ after, rest = '\x7b'::(field.name ++ '\x7d'::after) ∧
      format.text.drop (last+1) = after ∧ last = p + 2 + field.name.length := by
  have next := (at_drop here).2.2.2
  unfold parseField
  constructor
  · intro parsed
    split at parsed
    · cases parsed
    · rename_i brace
      obtain ⟨chars,open'⟩ := drop_at (not_not.mp brace) (by decide)
      have behind := (at_drop open').2.2.2
      split at parsed
      · cases parsed
      · rename_i found
        obtain ⟨k,position,place⟩ := Option.map_eq_some_iff.mp found
        rw [behind] at position
        obtain ⟨before,after,split',_,length⟩ := findIdx_split.mp position
        split at parsed
        · cases parsed
        · rename_i known
          cases parsed
          rw [← place,length,CString.slice,behind,split',Nat.add_sub_cancel_left,List.take_left] at known
          have named := findField_name known
          refine ⟨after,?_,?_,by rw [← place,length,named]⟩
          · rw [← next,open',split',named]
          · rw [← place,length,Nat.add_assoc,← List.drop_drop,behind,split',← List.drop_drop,List.drop_left]
            rfl
  · intro ⟨after,spelled,behind,length⟩
    rw [spelled] at next
    obtain ⟨_,brace,_,name⟩ := at_drop next
    obtain ⟨known,fresh⟩ := name_found field
    have found : format.strchr (p+2) '\x7d' = some last := by
      unfold CString.strchr
      rw [name,findIdx_split.mpr ⟨field.name,after,rfl,fresh,rfl⟩,length]
      rfl
    have slice : format.slice (p+2) last = field.name := by
      rw [CString.slice,name,length,Nat.add_sub_cancel_left,List.take_left]
    rw [if_neg (not_not.mpr brace),found]
    dsimp only
    rw [slice,known]

/-- What is spelled compiles, and stands for what its parts stand for. -/
theorem compileFrom_spelled (parts : List Part) (lone : Bool) (here : format.text.drop p = spelled parts lone) (before : text ≤ p)
    (inside : p ≤ format.text.length) : ∃ stored, compileFrom format p text tokens = .compiled stored ∧ ∀ value,
      stored.flatMap (SearchToken.output format value) = tokens.flatMap (SearchToken.output format value) ++
        format.slice text p ++ parts.flatMap (Part.meaning value) := by
  induction parts generalizing p text tokens with
  | nil =>
    cases lone with
    | false =>
      have done : p = format.text.length := Nat.le_antisymm inside (List.drop_eq_nil_iff.mp here)
      refine ⟨_,compile_end done,fun value => ?_⟩
      rw [addTextToken_output]
      simp
    | true =>
      obtain ⟨within,found,other,behind⟩ := at_drop here
      have done : p + 1 = format.text.length := Nat.le_antisymm within (List.drop_eq_nil_iff.mp behind)
      refine ⟨addTextToken tokens text p,?_,fun value => ?_⟩
      · rw [compile_special found other (by simp) (at_end done),if_pos rfl,if_pos rfl]
        simp [addTextToken]
      · rw [addTextToken_output]
        simp
  | cons part parts ih =>
    -- the parts behind this one, from where it ends
    have onward {last : Nat} {stored : List SearchToken} {meaning : (SearchField → Text) → Text}
        (behind : format.text.drop last = spelled parts lone) (within : last ≤ format.text.length)
        (same : ∀ value, stored.flatMap (SearchToken.output format value) =
          tokens.flatMap (SearchToken.output format value) ++ format.slice text p ++ meaning value) :
        ∃ more, compileFrom format last last stored = .compiled more ∧ ∀ value,
          more.flatMap (SearchToken.output format value) = tokens.flatMap (SearchToken.output format value) ++
            format.slice text p ++ (meaning value ++ parts.flatMap (Part.meaning value)) := by
      obtain ⟨more,compiled,output⟩ := @ih last last stored behind (Nat.le_refl _) within
      refine ⟨more,compiled,fun value => ?_⟩
      rw [output,same,slice_empty]
      simp
    cases part with
    | ordinary c plain =>
      obtain ⟨within,_,_,behind⟩ := at_drop here
      obtain ⟨more,compiled,output⟩ := @ih (p+1) text tokens behind (Nat.le_succ_of_le before) within
      refine ⟨more,(compile_ordinary here plain).trans compiled,fun value => ?_⟩
      rw [output,slice_next here before]
      simp [Part.meaning]
    | escape c =>
      obtain ⟨_,found,other,next⟩ := at_drop here
      obtain ⟨within,follows,present,behind⟩ := at_drop next
      rw [compile_special found other (by simp) follows,if_pos rfl,if_neg present]
      refine onward behind within (fun value => ?_)
      rw [List.flatMap_append,addTextToken_output,meaning_escape]
      rfl
    | percent =>
      obtain ⟨_,found,other,next⟩ := at_drop here
      obtain ⟨within,follows,_,behind⟩ := at_drop next
      rw [compile_special found other (by simp) follows,if_neg (by decide),if_pos rfl]
      refine onward behind within (fun value => ?_)
      rw [List.flatMap_append,addTextToken_output]
      rfl
    | field which =>
      obtain ⟨_,found,other,next⟩ := at_drop here
      obtain ⟨_,follows,_,_⟩ := at_drop next
      have rest' : format.text.drop p = '%' :: '\x7b' :: (which.name ++ '\x7d'::spelled parts lone) := by
        rw [here]
        simp [spelled,Part.spelling]
      have name := (at_drop (at_drop rest').2.2.2).2.2.2
      have ends : format.text.drop (p + 2 + which.name.length) = '\x7d'::spelled parts lone := by
        rw [← List.drop_drop,name,List.drop_left]
      obtain ⟨within,_,_,behind⟩ := at_drop ends
      rw [compile_special found other (by simp) follows,if_neg (by decide),if_neg (by decide),
        (parseField_iff rest').mpr ⟨_,rfl,behind,rfl⟩]
      refine onward behind within (fun value => ?_)
      rw [List.flatMap_append,addTextToken_output]
      simp [SearchToken.output,Part.meaning]

/-- What the loop does from `p` on: it reads nothing behind the NUL, stores no more tokens than there are characters,
and what it accepts is spelled by some parts. -/
structure Scans (format : CString) (p : Nat) (result : Compiled) : Prop where
  within : ∀ stored, result ≠ .overrun stored
  bounded : result.tokens.length ≤ format.text.length
  accepted : ∀ stored, result = .compiled stored → ∃ parts lone, format.text.drop p = spelled parts lone

theorem Scans.of_part {q : Nat} {result : Compiled} (scans : Scans format q result) (part : Part)
    (here : format.text.drop p = part.spelling ++ format.text.drop q) : Scans format p result := by
  refine ⟨scans.within,scans.bounded,fun stored same => ?_⟩
  obtain ⟨parts,lone,behind⟩ := scans.accepted stored same
  refine ⟨part::parts,lone,?_⟩
  rw [here,behind,spelled,spelled,List.flatMap_cons,List.append_assoc]

theorem compileFrom_scans (inside : p ≤ format.text.length) (before : text ≤ p) (stored : tokens.length ≤ text) :
    Scans format p (compileFrom format p text tokens) := by
  obtain ⟨left,remains⟩ : ∃ left, left = format.text.length - p := ⟨_,rfl⟩
  induction left using Nat.strong_induction_on generalizing p text tokens with
  | _ left ih =>
    -- the loop further on, where one more token is stored
    have onward {q : Nat} {token : SearchToken} (further : p < q) (within : q ≤ format.text.length) :
        Scans format q (compileFrom format q q (addTextToken tokens text p ++ [token])) := by
      have length := addTextToken_length tokens text p
      refine ih (format.text.length - q) (by omega) within (Nat.le_refl q) ?_ rfl
      rw [List.length_append,List.length_singleton]
      omega
    have length := addTextToken_length tokens text p
    cases here : format.text.drop p with
    | nil =>
      have done : p = format.text.length := Nat.le_antisymm inside (List.drop_eq_nil_iff.mp here)
      rw [compile_end done]
      refine ⟨fun _ same => (by cases same),?_,fun _ _ => ⟨[],false,here⟩⟩
      rw [Compiled.tokens]
      omega
    | cons c rest =>
      obtain ⟨within,found,other,behind⟩ := at_drop here
      by_cases plain : c ≠ '\\' ∧ c ≠ '%'
      · rw [compile_ordinary here plain]
        have scans := ih (format.text.length - (p+1)) (by omega) within (Nat.le_succ_of_le before) stored rfl
        exact scans.of_part (.ordinary c plain) (by rw [here,behind]; rfl)
      · obtain ⟨next,follows⟩ := at_next within
        rw [compile_special found other plain follows]
        by_cases backslash : c = '\\'
        · rw [if_pos backslash]
          by_cases ended : next = nul
          · rw [if_pos ended]
            have nothing : addTextToken (addTextToken tokens text p) (p+1) (p+1) = addTextToken tokens text p :=
              if_pos (Nat.sub_self _)
            rw [nothing]
            refine ⟨fun _ same => (by cases same),?_,fun _ _ => ⟨[],true,?_⟩⟩
            · rw [Compiled.tokens]
              omega
            · have done : rest = [] := by
                cases rest with
                | nil => rfl
                | cons more rest =>
                  obtain ⟨_,read,present,_⟩ := at_drop behind
                  rw [follows] at read
                  exact absurd ((Option.some.inj read).symm.trans ended) present
              rw [here,done,backslash]
              rfl
          · obtain ⟨further,spelled'⟩ := drop_at follows ended
            obtain ⟨inside',_,_,after⟩ := at_drop spelled'
            rw [if_neg ended]
            exact (onward (by omega) inside').of_part (.escape next) (by rw [here,← behind,spelled',after,backslash]; rfl)
        · have percent : c = '%' := by
            by_contra neither
            exact plain ⟨backslash,neither⟩
          rw [if_neg backslash]
          by_cases double : next = '%'
          · have present : next ≠ nul := by
              rw [double]
              decide
            obtain ⟨further,spelled'⟩ := drop_at follows present
            obtain ⟨inside',_,_,after⟩ := at_drop spelled'
            rw [if_pos double]
            exact (onward (by omega) inside').of_part .percent (by rw [here,← behind,spelled',after,percent,double]; rfl)
          · rw [if_neg double]
            cases parsed : parseField format p with
            | error error =>
              refine ⟨fun _ same => (by cases same),?_,fun _ same => by cases same⟩
              dsimp only [Compiled.tokens]
              omega
            | ok found =>
              obtain ⟨last,field⟩ := found
              have here' := here
              rw [percent] at here'
              obtain ⟨after,shape,next',place⟩ := (parseField_iff here').mp parsed
              have name := (at_drop (behind.trans shape)).2.2.2
              have ends : format.text.drop last = '\x7d'::after := by
                rw [place,← List.drop_drop,name,List.drop_left]
              have inside' := (at_drop ends).1
              refine (onward (by omega) inside').of_part (.field field) ?_
              rw [here',shape,next']
              simp [Part.spelling]

/-- The compiler of the format: what it accepts, what that stands for, and that it stays within its bounds. -/
theorem compileFormat_grammar (format : CString) :
    (∀ stored, compileFormat format ≠ .overrun stored) ∧ (compileFormat format).tokens.length ≤ format.text.length ∧
      ((∃ stored, compileFormat format = .compiled stored) ↔ ∃ parts lone, format.text = spelled parts lone) ∧
      ∀ stored, compileFormat format = .compiled stored → ∀ parts lone, format.text = spelled parts lone → ∀ value,
        stored.flatMap (SearchToken.output format value) = parts.flatMap (Part.meaning value) := by
  have scans : Scans format 0 (compileFormat format) := compileFrom_scans (Nat.zero_le _) (Nat.le_refl _) (Nat.le_refl _)
  have compiles (parts : List Part) (lone : Bool) (same : format.text = spelled parts lone) :=
    @compileFrom_spelled format 0 0 [] parts lone same (Nat.le_refl _) (Nat.zero_le _)
  refine ⟨scans.within,scans.bounded,⟨?_,?_⟩,?_⟩
  · intro ⟨stored,compiled⟩
    exact scans.accepted stored compiled
  · intro ⟨parts,lone,same⟩
    obtain ⟨stored,compiled,_⟩ := compiles parts lone same
    exact ⟨stored,compiled⟩
  · intro stored compiled parts lone same value
    obtain ⟨other,again,output⟩ := compiles parts lone same
    have equal : other = stored := Compiled.compiled.inj (again.symm.trans compiled)
    rw [← equal,output,slice_empty]
    rfl

end Scanner
end Semindex.IndexDb.Output
