import Semindex.Text
import Mathlib.Data.List.Basic

/-! `std::filesystem::path` on POSIX, and the canonical names of files. A path is
whether it is rooted and its names; a separator at the end is an empty last name. -/
namespace Semindex

structure Pathname where
  rooted : Bool
  names : List Text
  deriving DecidableEq

namespace Pathname

def dot : Text := ['.']
def dotdot : Text := ['.','.']

def ofText (text : Text) : Pathname :=
  let parts := text.splitOn '/'
  let names := parts.filter (fun name => name ≠ [])
  ⟨text.head? = some '/',if names ≠ [] ∧ parts.getLast? = some [] then names ++ [[]] else names⟩

def text (path : Pathname) : Text :=
  (if path.rooted then ['/'] else []) ++ ['/'].intercalate path.names

def isEmpty (path : Pathname) : Bool := !path.rooted && path.names = []

-- `operator/`; an empty name gives way to what is appended
def append (path other : Pathname) : Pathname :=
  if other.rooted then other
  else if path.names.getLast? = some [] then ⟨path.rooted,path.names.dropLast ++ (if other.names = [] then [[]] else other.names)⟩
  else if path.names = [] then ⟨path.rooted,other.names⟩
  else ⟨path.rooted,path.names ++ (if other.names = [] then [[]] else other.names)⟩

-- the names kept so far, last one first, and whether a separator follows them
def normalStep (rooted : Bool) (state : List Text × Bool) (name : Text) : List Text × Bool :=
  if name = dotdot then
    match state.1 with
    | [] => if rooted then ([],true) else ([dotdot],false)
    | last::rest => if last = dotdot then (dotdot::last::rest,false) else (rest,true)
  else if name = dot ∨ name = [] then (state.1,true)
  else (name::state.1,false)

def lexicallyNormal (path : Pathname) : Pathname :=
  if path.isEmpty then path
  else
    match path.names.foldl (normalStep path.rooted) ([],false) with
    | ([],_) => if path.rooted then ⟨true,[]⟩ else ⟨false,[dot]⟩
    | (last::rest,separated) =>
      ⟨path.rooted,(last::rest).reverse ++ if separated ∧ last ≠ dotdot then [[]] else []⟩

def mismatch : List Text → List Text → List Text × List Text
  | a::as,b::bs => if a = b then mismatch as bs else (a::as,b::bs)
  | as,bs => (as,bs)

def climbs (names : List Text) : Int :=
  (names.countP (fun name => name ≠ [] ∧ name ≠ dot ∧ name ≠ dotdot) : Int) - names.countP (fun name => name = dotdot)

def lexicallyRelative (path base : Pathname) : Pathname :=
  if path.rooted ≠ base.rooted then ⟨false,[]⟩
  else
    match mismatch path.names base.names with
    | ([],[]) => ⟨false,[dot]⟩
    | (left,right) =>
      if climbs right = 0 ∧ (left = [] ∨ left.head? = some []) then ⟨false,[dot]⟩
      else if climbs right < 0 then ⟨false,[]⟩
      else ⟨false,List.replicate (climbs right).toNat dotdot ++ left⟩

end Pathname

/-- A name as `realpath` has it. -/
structure Proper (name : Text) : Prop where
  nonempty : name ≠ []
  plain : '/' ∉ name
  notDot : name ≠ Pathname.dot
  notDotdot : name ≠ Pathname.dotdot

/-- The canonical name of a file: rooted, without dots and needless separators. -/
structure Canonical where
  names : List Text
  proper : ∀ name ∈ names, Proper name
  deriving DecidableEq

namespace Canonical

def root : Canonical := ⟨[],by simp⟩

def path (file : Canonical) : Pathname := ⟨true,file.names⟩

def text (file : Canonical) : Text := '/' :: ['/'].intercalate file.names

section Text
variable {file other : Canonical}

theorem names_injective (same : file.names = other.names) : file = other := by
  cases file
  cases other
  cases same
  rfl

theorem path_text : file.path.text = file.text := rfl

theorem splitOn_text : file.text.splitOn '/' = [] :: (if file.names = [] then [[]] else file.names) := by
  have split := List.splitOn_append_cons_self (a := '/') [] (['/'].intercalate file.names)
  rw [List.nil_append,List.splitOn_nil] at split
  rw [text,split]
  by_cases empty : file.names = []
  · simp [empty]
  · rw [if_neg empty,List.splitOn_intercalate '/' (fun name member => (file.proper name member).plain) empty]
    rfl

theorem text_injective (same : file.text = other.text) : file = other := by
  apply names_injective
  have split := congrArg (List.splitOn '/') same
  rw [splitOn_text,splitOn_text] at split
  have names := (List.cons.inj split).2
  split_ifs at names with empty none none
  · rw [empty,none]
  · exact absurd rfl (other.proper [] (names ▸ List.mem_cons_self)).nonempty
  · exact absurd rfl (file.proper [] (names ▸ List.mem_cons_self)).nonempty
  · exact names

theorem ofText_text : Pathname.ofText file.text = file.path := by
  have filtered : file.names.filter (fun name => name ≠ []) = file.names := by
    rw [List.filter_eq_self]
    intro name member
    simpa using (file.proper name member).nonempty
  unfold Pathname.ofText path
  rw [splitOn_text]
  by_cases empty : file.names = []
  · simp [empty,text]
  · have last : ([] :: file.names).getLast? ≠ some [] := by
      rw [List.getLast?_cons_of_ne_nil empty]
      intro same
      exact (file.proper [] (List.mem_of_getLast? same)).nonempty rfl
    simp only [if_neg empty,List.filter_cons,ne_eq,not_true_eq_false,decide_false,Bool.false_eq_true,if_false]
    simp only [ne_eq] at filtered
    rw [filtered,if_neg (fun both => last both.2)]
    simp [text]

end Text

section Normal

theorem normalStep_proper {rooted : Bool} {state : List Text × Bool} {name : Text} (proper : Proper name) :
    Pathname.normalStep rooted state name = (name::state.1,false) := by
  simp [Pathname.normalStep,proper.notDotdot,proper.notDot,proper.nonempty]

theorem normal_proper {rooted : Bool} (names : List Text) (proper : ∀ name ∈ names, Proper name)
    (state : List Text × Bool) : names.foldl (Pathname.normalStep rooted) state =
      (names.reverse ++ state.1,if names = [] then state.2 else false) := by
  induction names generalizing state with
  | nil => rfl
  | cons name names ih =>
    rw [List.foldl_cons,normalStep_proper (proper name List.mem_cons_self),
      ih (fun other member => proper other (List.mem_cons_of_mem _ member))]
    simp

theorem path_normal (file : Canonical) : file.path.lexicallyNormal = file.path := by
  unfold Pathname.lexicallyNormal path
  rw [if_neg (by simp [Pathname.isEmpty])]
  dsimp only
  rw [normal_proper file.names file.proper,List.append_nil]
  cases reversed : file.names.reverse with
  | nil => simp [List.reverse_eq_nil_iff.mp reversed]
  | cons last rest =>
    have names : file.names = (last::rest).reverse := by rw [← reversed,List.reverse_reverse]
    simp [names]

end Normal

section Below
variable {file directory : Canonical}

theorem intercalate_append {first second : List Text} (left : first ≠ []) (right : second ≠ []) :
    ['/'].intercalate (first ++ second) = ['/'].intercalate first ++ '/' :: ['/'].intercalate second := by
  induction first with
  | nil => contradiction
  | cons name first ih =>
    by_cases last : first = []
    · subst last
      rw [List.singleton_append,List.intercalate_cons_of_ne_nil right,List.intercalate_singleton]
      simp
    · rw [List.cons_append,List.intercalate_cons_of_ne_nil (by simp [last]),ih last,
        List.intercalate_cons_of_ne_nil last]
      simp

theorem text_below {rest : List Text} (below : file.names = directory.names ++ rest) (known : directory ≠ root) :
    file.text = directory.text ++ if rest = [] then [] else '/' :: ['/'].intercalate rest := by
  have names : directory.names ≠ [] := fun empty => known (names_injective empty)
  unfold text
  rw [below]
  by_cases same : rest = []
  · simp [same]
  · rw [intercalate_append names same,if_neg same,List.cons_append]

/-- A canonical name that starts with a directory's and a separator is the name of a file below it. -/
theorem below_of_text {more : Text} (starts : file.text = directory.text ++ '/' :: more) (known : directory ≠ root) :
    ∃ rest, file.names = directory.names ++ rest ∧ rest ≠ [] := by
  have names : directory.names ≠ [] := fun empty => known (names_injective empty)
  have split := congrArg (List.splitOn '/') starts
  rw [List.splitOn_append_cons_self,splitOn_text,splitOn_text,if_neg names,List.cons_append] at split
  have rest := (List.cons.inj split).2
  refine ⟨more.splitOn '/',?_,List.splitOn_ne_nil _ _⟩
  split_ifs at rest with empty
  · have short := congrArg List.length rest
    have positive := List.length_pos_iff.mpr names
    have some := List.length_pos_iff.mpr (List.splitOn_ne_nil '/' more)
    simp only [List.length_singleton,List.length_append] at short
    omega
  · exact rest

theorem below_proper {rest : List Text} (below : file.names = directory.names ++ rest) : ∀ name ∈ rest, Proper name :=
  fun name member => file.proper name (below ▸ List.mem_append_right _ member)

private theorem mismatch_append (names left right : List Text) :
    Pathname.mismatch (names ++ left) (names ++ right) = Pathname.mismatch left right := by
  induction names with
  | nil => rfl
  | cons name names ih => simp [Pathname.mismatch,ih]

theorem mismatch_spec (first second : List Text) : ∃ common,
    first = common ++ (Pathname.mismatch first second).1 ∧ second = common ++ (Pathname.mismatch first second).2 := by
  induction first generalizing second with
  | nil => exact ⟨[],rfl,by simp [Pathname.mismatch]⟩
  | cons name first ih =>
    cases second with
    | nil => exact ⟨[],by simp [Pathname.mismatch],by simp [Pathname.mismatch]⟩
    | cons other second =>
      rw [Pathname.mismatch]
      split
      · rename_i same
        obtain ⟨common,left,right⟩ := ih second
        refine ⟨name::common,?_,?_⟩
        · rw [List.cons_append,← left]
        · rw [List.cons_append,← right,same]
      · exact ⟨[],rfl,rfl⟩

theorem climbs_proper {names : List Text} (proper : ∀ name ∈ names, Proper name) :
    Pathname.climbs names = names.length := by
  have ordinary : names.countP (fun name => name ≠ [] ∧ name ≠ Pathname.dot ∧ name ≠ Pathname.dotdot) =
      names.length := by
    rw [List.countP_eq_length]
    intro name member
    have good := proper name member
    simp [good.nonempty,good.notDot,good.notDotdot]
  have up : names.countP (fun name => name = Pathname.dotdot) = 0 := by
    rw [List.countP_eq_zero]
    intro name member
    simpa using (proper name member).notDotdot
  unfold Pathname.climbs
  rw [ordinary,up]
  simp

theorem relative_below {rest : List Text} (below : file.names = directory.names ++ rest) :
    file.path.lexicallyRelative directory.path = ⟨false,if rest = [] then [Pathname.dot] else rest⟩ := by
  have proper := below_proper below
  have cut := mismatch_append directory.names rest []
  rw [List.append_nil] at cut
  unfold Pathname.lexicallyRelative path
  dsimp only
  rw [below,cut]
  cases rest with
  | nil => simp [Pathname.mismatch]
  | cons name rest =>
    have good := (proper name List.mem_cons_self).nonempty
    simp [Pathname.mismatch,Pathname.climbs,good]

theorem relative_outside (outside : ¬ directory.names <+: file.names) :
    (file.path.lexicallyRelative directory.path).names.head? = some Pathname.dotdot := by
  obtain ⟨common,left,right⟩ := mismatch_spec file.names directory.names
  unfold Pathname.lexicallyRelative path
  dsimp only
  rw [if_neg (by simp)]
  generalize Pathname.mismatch file.names directory.names = cut at left right
  obtain ⟨above,under⟩ := cut
  dsimp only at left right
  have climbed : under ≠ [] := by
    intro none
    apply outside
    rw [left,right,none,List.append_nil]
    exact List.prefix_append _ _
  have count : Pathname.climbs under = under.length :=
    climbs_proper (fun name member => directory.proper name (right ▸ List.mem_append_right _ member))
  obtain ⟨first,others,rfl⟩ := List.exists_cons_of_ne_nil climbed
  have up : ¬ ((others.length : Int) + 1 = 0) := by omega
  have high : ¬ ((others.length : Int) + 1 < 0) := by omega
  cases above <;> simp [count,List.replicate_succ,up,high]

end Below

section Form

theorem mem_splitOn {text part : Text} (member : part ∈ text.splitOn '/') : ∀ c ∈ part, c ∈ text ∧ c ≠ '/' := by
  induction text generalizing part with
  | nil =>
    rw [List.splitOn_nil,List.mem_singleton] at member
    simp [member]
  | cons c text ih =>
    rw [List.splitOn,List.splitOnP_cons_eq_if_modifyHead] at member
    split at member
    · rcases List.mem_cons.mp member with rfl | later
      · simp
      · intro d inside
        exact ⟨List.mem_cons_of_mem _ (ih later d inside).1,(ih later d inside).2⟩
    · rename_i other
      have present := List.splitOnP_ne_nil (· == '/') text
      obtain ⟨head,rest,split⟩ := List.exists_cons_of_ne_nil present
      rw [split,List.modifyHead_cons] at member
      have known (part : Text) (listed : part ∈ head::rest) : ∀ d ∈ part, d ∈ text ∧ d ≠ '/' := by
        rw [← split] at listed
        exact ih listed
      rcases List.mem_cons.mp member with rfl | later
      · intro d inside
        rcases List.mem_cons.mp inside with rfl | deeper
        · exact ⟨List.mem_cons_self,by simpa using other⟩
        · have facts := known head List.mem_cons_self d deeper
          exact ⟨List.mem_cons_of_mem _ facts.1,facts.2⟩
      · intro d inside
        have facts := known part (List.mem_cons_of_mem _ later) d inside
        exact ⟨List.mem_cons_of_mem _ facts.1,facts.2⟩

theorem mem_ofText {text name : Text} (member : name ∈ (Pathname.ofText text).names) : ∀ c ∈ name, c ∈ text ∧ c ≠ '/' := by
  unfold Pathname.ofText at member
  dsimp only at member
  have listed (inside : name ∈ (text.splitOn '/').filter (fun name => name ≠ [])) : ∀ c ∈ name, c ∈ text ∧ c ≠ '/' :=
    mem_splitOn (List.mem_filter.mp inside).1
  split at member
  · rcases List.mem_append.mp member with inside | last
    · exact listed inside
    · rw [List.mem_singleton.mp last]
      simp
  · exact listed member

/-- A rooted name in normal form: no dots, and perhaps a separator at its end. -/
def form (file : Canonical) (separated : Bool) : Pathname :=
  ⟨true,file.names ++ if separated ∧ file.names ≠ [] then [[]] else []⟩

theorem normalStep_kept {state : List Text × Bool} {name : Text} (plain : '/' ∉ name)
    (proper : ∀ kept ∈ state.1, Proper kept) :
    (∀ kept ∈ (Pathname.normalStep true state name).1, Proper kept) ∧
      (Pathname.normalStep true state name).1 ⊆ name::state.1 := by
  unfold Pathname.normalStep
  split
  · rename_i climbs
    split
    · simp
    · rename_i last rest same
      have apart : last ≠ Pathname.dotdot := (proper last (by simp [same])).notDotdot
      rw [if_neg apart]
      exact ⟨fun kept member => proper kept (by simp [same,member]),fun kept member => by simp [same,member]⟩
  · rename_i ordinary
    split
    · exact ⟨proper,List.subset_cons_self _ _⟩
    · rename_i named
      refine ⟨?_,List.Subset.refl _⟩
      intro kept member
      rcases List.mem_cons.mp member with rfl | earlier
      · exact ⟨fun none => named (.inr none),plain,fun dot => named (.inl dot),ordinary⟩
      · exact proper kept earlier

theorem normal_kept (names : List Text) (plain : ∀ name ∈ names, '/' ∉ name) (state : List Text × Bool)
    (proper : ∀ kept ∈ state.1, Proper kept) :
    (∀ kept ∈ (names.foldl (Pathname.normalStep true) state).1, Proper kept) ∧
      (names.foldl (Pathname.normalStep true) state).1 ⊆ names ++ state.1 := by
  induction names generalizing state with
  | nil => exact ⟨proper,by simp⟩
  | cons name names ih =>
    rw [List.forall_mem_cons] at plain
    obtain ⟨kept,inside⟩ := normalStep_kept plain.1 proper
    obtain ⟨all,within⟩ := ih plain.2 (Pathname.normalStep true state name) kept
    refine ⟨all,fun other member => ?_⟩
    rcases List.mem_append.mp (within member) with later | earlier
    · simp [later]
    · have origin := inside earlier
      simp only [List.mem_cons] at origin
      rcases origin with rfl | before
      · simp
      · simp [before]

theorem normal_form {path : Pathname} (rooted : path.rooted = true) (plain : ∀ name ∈ path.names, '/' ∉ name) :
    ∃ file separated, path.lexicallyNormal = form file separated ∧ file.names ⊆ path.names := by
  obtain ⟨proper,within⟩ := normal_kept path.names plain ([],false) (by simp)
  unfold Pathname.lexicallyNormal
  rw [if_neg (by simp [Pathname.isEmpty,rooted]),rooted]
  split
  · exact ⟨root,false,rfl,by simp [root]⟩
  · rename_i last rest separated result
    rw [result] at proper within
    refine ⟨⟨(last::rest).reverse,fun name member => proper name (List.mem_reverse.mp member)⟩,separated,?_,?_⟩
    · simp [form,(proper last List.mem_cons_self).notDotdot]
    · intro name member
      simpa using within (List.mem_reverse.mp member)

variable {file : Canonical} {separated : Bool}

theorem form_text : (form file separated).text = if separated ∧ file.names ≠ [] then file.text ++ ['/'] else file.text := by
  unfold form Pathname.text text
  by_cases ends : separated ∧ file.names ≠ []
  · rw [if_pos ends,if_pos ends]
    simp only [if_true,List.singleton_append]
    rw [intercalate_append ends.2 (by simp)]
    simp
  · rw [if_neg ends,if_neg ends]
    simp

theorem form_path (unclosed : ¬ (separated ∧ file.names ≠ [])) : form file separated = file.path := by
  unfold form path
  rw [if_neg unclosed,List.append_nil]

theorem ofText_form : Pathname.ofText (form file separated).text = form file separated := by
  by_cases ends : separated ∧ file.names ≠ []
  · have filtered : file.names.filter (fun name => name ≠ []) = file.names := by
      rw [List.filter_eq_self]
      intro name member
      simpa using (file.proper name member).nonempty
    have parts : (([] :: file.names) ++ [[]]).filter (fun name => name ≠ []) = file.names := by
      rw [List.filter_append,List.filter_cons,if_neg (by simp),filtered]
      simp
    have last : (([] :: file.names) ++ [[]]).getLast? = some [] := List.getLast?_concat
    rw [form_text,if_pos ends,Pathname.ofText,List.splitOn_append_cons_self,splitOn_text,if_neg ends.2,List.splitOn_nil]
    rw [parts,last,if_pos ⟨ends.2,rfl⟩]
    simp [ends.1,ends.2,form,text]
  · rw [form_path ends]
    exact ofText_text

theorem form_normal : (form file separated).lexicallyNormal = form file separated := by
  by_cases ends : separated ∧ file.names ≠ []
  · unfold Pathname.lexicallyNormal form
    rw [if_neg (by simp [Pathname.isEmpty]),if_pos ends]
    dsimp only
    rw [List.foldl_append,normal_proper file.names file.proper,List.append_nil,if_neg ends.2]
    have step (state : List Text) : [[]].foldl (Pathname.normalStep true) (state,false) = (state,true) := by
      simp [Pathname.normalStep,Pathname.dot,Pathname.dotdot]
    rw [step]
    cases reversed : file.names.reverse with
    | nil => exact absurd (List.reverse_eq_nil_iff.mp reversed) ends.2
    | cons last rest =>
      have names : file.names = (last::rest).reverse := by rw [← reversed,List.reverse_reverse]
      have apart : last ≠ Pathname.dotdot := (file.proper last (by simp [names])).notDotdot
      simp [names,apart]
  · rw [form_path ends]
    exact path_normal file

/-- What is in normal form is spelled without loss, and is its own normal form. -/
theorem normal_text {path : Pathname} (rooted : path.rooted = true) (plain : ∀ name ∈ path.names, '/' ∉ name) :
    (Pathname.ofText path.lexicallyNormal.text).lexicallyNormal = path.lexicallyNormal := by
  obtain ⟨file,separated,same,_⟩ := normal_form rooted plain
  rw [same,ofText_form,form_normal]

end Form
end Canonical
end Semindex
