import Semindex.Source.Encoding

/-! Where the databases are that no option names: below the nearest directory with a
`.git` at or above a name, and below the current directory where there is none. -/
namespace Semindex
open Semindex.Source

namespace Canonical

def child (directory : Canonical) (name : Text) (proper : Proper name) : Canonical :=
  ⟨directory.names ++ [name],by
    intro other member
    rcases List.mem_append.mp member with above | own
    · exact directory.proper other above
    · rw [List.mem_singleton.mp own]
      exact proper⟩

def parent (file : Canonical) : Canonical :=
  ⟨file.names.dropLast,fun name member => file.proper name (List.mem_of_mem_dropLast member)⟩

section Names
variable {file directory : Canonical} {name : Text}

theorem child_text (proper : Proper name) : (directory.child name proper).text =
    (if directory = root then [] else directory.text) ++ '/'::name := by
  split
  · rename_i top
    subst top
    simp [child,root,text]
  · rename_i known
    rw [text_below rfl known,if_neg (List.cons_ne_nil _ _),List.intercalate_singleton]

/-- Every file but the root is the child of a directory. -/
theorem child_cases (file : Canonical) : file = root ∨ ∃ name proper, file = file.parent.child name proper := by
  rcases List.eq_nil_or_concat file.names with none | ⟨front,last,names⟩
  · exact .inl (names_injective none)
  · rw [List.concat_eq_append] at names
    have proper : Proper last := file.proper last (names ▸ List.mem_append_right _ List.mem_cons_self)
    refine .inr ⟨last,proper,names_injective ?_⟩
    change file.names = file.names.dropLast ++ [last]
    rw [names,List.dropLast_concat]

end Names
end Canonical

section Climb
variable {fs : FileSystem} {start directory : Canonical}

theorem lastSlash_plain {text : Text} (plain : '/' ∉ text) : lastSlash text = none := by
  induction text with
  | nil => rfl
  | cons c rest ih =>
    rw [List.mem_cons,not_or] at plain
    rw [lastSlash,ih plain.2]
    exact if_neg (Ne.symm plain.1)

theorem lastSlash_append (front : Text) {text : Text} (plain : '/' ∉ text) :
    lastSlash (front ++ '/'::text) = some front.length := by
  induction front with
  | nil =>
    rw [List.nil_append,lastSlash,lastSlash_plain plain]
    rfl
  | cons c rest ih => rw [List.cons_append,lastSlash,ih,List.length_cons]

theorem parent_text (file : Canonical) : parentDirectory file.text = some file.parent.text := by
  rcases file.child_cases with top | ⟨name,proper,same⟩
  · rw [top]
    rfl
  · unfold parentDirectory
    rw [same,Canonical.child_text proper,lastSlash_append _ proper.plain,← same,Option.map_some]
    by_cases top : file.parent = Canonical.root
    · rw [if_pos top,top]
      rfl
    · have long : file.parent.text.length ≠ 0 := by simp [Canonical.text]
      rw [if_neg top,if_neg long,List.take_left]

theorem git_proper : Proper ".git".toList := ⟨by decide,by decide,by decide,by decide⟩

/-- The directory has a `.git`, of whatever kind. -/
def Marked (fs : FileSystem) (directory : Canonical) : Prop := (fs.lstat (directory.child _ git_proper).text).isSome

/-- The first marked directory on the way up. -/
structure Nearest (fs : FileSystem) (start directory : Canonical) : Prop where
  above : directory.names <+: start.names
  marked : Marked fs directory
  first : ∀ between : Canonical, directory.names <+: between.names → between.names <+: start.names →
    Marked fs between → between = directory

theorem nearest_unique {other : Canonical} (one : Nearest fs start directory) (two : Nearest fs start other) :
    directory = other := by
  rcases List.prefix_or_prefix_of_prefix one.above two.above with below | below
  · exact (one.first other below two.above two.marked).symm
  · exact two.first directory below one.above one.marked

theorem climb_nearest (fuel : Nat) (enough : start.text.length < fuel) :
    (∃ directory, climb fs fuel start.text = some directory.text ∧ Nearest fs start directory) ∨
      (climb fs fuel start.text = none ∧ ∀ above : Canonical, above.names <+: start.names → ¬ Marked fs above) := by
  induction fuel generalizing start with
  | zero => omega
  | succ fuel ih =>
    have spelled : start.text ++ (if start.text = ['/'] then [] else ['/']) ++ ".git".toList =
        (start.child _ git_proper).text := by
      rw [Canonical.child_text]
      by_cases top : start = Canonical.root
      · subst top
        rfl
      · have other : start.text ≠ ['/'] := fun same => top (Canonical.text_injective same)
        rw [if_neg other,if_neg top,List.append_assoc]
        rfl
    rw [climb,spelled]
    by_cases marked : (fs.lstat (start.child _ git_proper).text).isSome = true
    · rw [if_pos marked]
      refine .inl ⟨start,rfl,⟨List.prefix_rfl,marked,?_⟩⟩
      intro between below above _
      exact Canonical.names_injective (above.eq_of_length_le below.length_le)
    · rw [if_neg marked]
      rcases start.child_cases with top | ⟨name,proper,same⟩
      · subst top
        refine .inr ⟨if_pos rfl,?_⟩
        intro above below
        have same : above = Canonical.root := Canonical.names_injective (List.prefix_nil.mp below)
        rw [same]
        exact marked
      · have names : start.names = start.parent.names ++ [name] := congrArg Canonical.names same
        have other : start.text ≠ ['/'] := by
          intro slash
          have top : start = Canonical.root := Canonical.text_injective slash
          rw [top] at names
          simp [Canonical.root] at names
        have shorter : start.parent.text.length < fuel := by
          have text := congrArg (fun file => file.text.length) same
          rw [Canonical.child_text] at text
          have here := List.length_pos_iff.mpr proper.nonempty
          split at text
          · rename_i top
            rw [top]
            simp only [List.nil_append,List.length_cons] at text
            simp only [Canonical.root,Canonical.text,List.intercalate_nil,List.length_cons,List.length_nil]
            omega
          · rw [List.length_append,List.length_cons] at text
            omega
        rw [if_neg other,parent_text,Option.bind_some]
        have upper (above : Canonical) (below : above.names <+: start.names) (found : Marked fs above) :
            above.names <+: start.parent.names := by
          rw [names,List.prefix_concat_iff] at below
          rcases below with own | higher
          · rw [← names] at own
            rw [Canonical.names_injective own] at found
            exact absurd found marked
          · exact higher
        rcases ih shorter with ⟨directory,climbed,nearest⟩ | ⟨climbed,none⟩
        · refine .inl ⟨directory,climbed,?_,nearest.marked,?_⟩
          · rw [names]
            exact nearest.above.trans (List.prefix_append _ _)
          · intro between below above found
            exact nearest.first between below (upper between above found) found
        · exact .inr ⟨climbed,fun above below found => none above (upper above below found) found⟩

end Climb

section Root
variable {fs : FileSystem} {input : Text} {file directory : Canonical}

-- the directory of a file, and a directory itself
def startOf (fs : FileSystem) (file : Canonical) : Canonical :=
  if (fs.stat file.text).any Stat.isDir then file else file.parent

/-- The repository root is the nearest marked directory. -/
theorem repositoryRoot_nearest (lawful : fs.Lawful) (known : fs.realpath input = some file.text) :
    (∃ directory, repositoryRoot fs (some input) = some directory.text ∧ Nearest fs (startOf fs file) directory) ∨
      (repositoryRoot fs (some input) = none ∧
        ∀ above : Canonical, above.names <+: (startOf fs file).names → ¬ Marked fs above) := by
  obtain ⟨st,statted⟩ := Option.isSome_iff_exists.mp (lawful.found _ _ known)
  have climbs : repositoryRoot fs (some input) = climb fs ((startOf fs file).text.length + 1) (startOf fs file).text := by
    unfold repositoryRoot startOf
    dsimp only [Option.bind_eq_bind,Option.bind_some]
    rw [known,Option.bind_some,statted,Option.bind_some,Option.any_some]
    split
    · rfl
    · rw [parent_text]
      rfl
  rw [climbs]
  exact climb_nearest _ (Nat.lt_succ_self _)

theorem repositoryRoot_iff (lawful : fs.Lawful) (known : fs.realpath input = some file.text) (root : Text) :
    repositoryRoot fs (some input) = some root ↔ ∃ directory, root = directory.text ∧ Nearest fs (startOf fs file) directory := by
  rcases repositoryRoot_nearest lawful known with ⟨directory,found,nearest⟩ | ⟨none,unmarked⟩
  · rw [found]
    constructor
    · intro same
      exact ⟨directory,(Option.some.inj same).symm,nearest⟩
    · rintro ⟨other,rfl,near⟩
      rw [nearest_unique nearest near]
  · rw [none]
    constructor
    · intro found
      cases found
    · rintro ⟨other,_,near⟩
      exact absurd near.marked (unmarked other near.above)

end Root

section Defaults

def stateDirectory : Text := ".semindex".toList
def symbolDatabase : Text := "semindex.db".toList
def commandDatabase : Text := "commands.db".toList

def semindexDefaultDatabasePath (fs : FileSystem) (path : Option Text) (name : Text) : Option Text :=
  if name = [] then none
  else some ((repositoryRoot fs (some (path.getD ['.']))).getD ['.'] ++ '/'::stateDirectory ++ '/'::name)

def commandDbDefaultPath (indexDatabase : Text) : Text :=
  match lastSlash indexDatabase with
  | none => commandDatabase
  | some slash => indexDatabase.take (slash+1) ++ commandDatabase

-- `std::filesystem::absolute(path).lexically_normal()` in this current directory
def absoluteNormal (cwd : Canonical) (path : Text) : Text := (resolveAgainst cwd.path path).text

theorem state_proper : Proper stateDirectory := ⟨by decide,by decide,by decide,by decide⟩
theorem symbol_proper : Proper symbolDatabase := ⟨by decide,by decide,by decide,by decide⟩
theorem command_proper : Proper commandDatabase := ⟨by decide,by decide,by decide,by decide⟩

/-- The databases of a directory. -/
def Canonical.symbols (home : Canonical) : Canonical :=
  (home.child stateDirectory state_proper).child symbolDatabase symbol_proper

def Canonical.commands (home : Canonical) : Canonical :=
  (home.child stateDirectory state_proper).child commandDatabase command_proper

/-- The directory that a name belongs to, seen from this current directory. -/
structure Home (fs : FileSystem) (cwd : Canonical) (input : Text) (home : Canonical) : Prop where
  rooted : ∀ file : Canonical, fs.realpath input = some file.text → Nearest fs (startOf fs file) home ∨
    home = cwd ∧ ∀ above : Canonical, above.names <+: (startOf fs file).names → ¬ Marked fs above
  lost : fs.realpath input = none → home = cwd

section Paths
variable {fs : FileSystem} {cwd home : Canonical} {input name : Text}

theorem home_unique {other : Canonical} (lawful : fs.Lawful) (one : Home fs cwd input home) (two : Home fs cwd input other) :
    home = other := by
  cases found : fs.realpath input with
  | none => rw [one.lost found,two.lost found]
  | some path =>
    obtain ⟨file,rfl⟩ := lawful.canonical _ _ found
    rcases one.rooted file found with near | ⟨here,unmarked⟩
    · rcases two.rooted file found with other | ⟨_,unmarked⟩
      · exact nearest_unique near other
      · exact absurd near.marked (unmarked _ near.above)
    · rcases two.rooted file found with near | ⟨there,_⟩
      · exact absurd near.marked (unmarked _ near.above)
      · rw [here,there]

theorem ofText_slashes (file : Canonical) : Pathname.ofText ('/'::file.text) = file.path := by
  have split := List.splitOn_append_cons_self (a := '/') [] file.text
  rw [List.nil_append,List.splitOn_nil,List.singleton_append] at split
  have single := @Canonical.ofText_text file
  unfold Pathname.ofText at single ⊢
  have last : ([]::file.text.splitOn '/').getLast? = (file.text.splitOn '/').getLast? :=
    List.getLast?_cons_of_ne_nil (List.splitOn_ne_nil _ _)
  dsimp only at single ⊢
  have kept : ([]::file.text.splitOn '/').filter (fun name => name ≠ []) = (file.text.splitOn '/').filter (fun name => name ≠ []) :=
    List.filter_cons_of_neg (by simp)
  rw [split,last,kept]
  exact single

theorem normal_dotted {rest : List Text} (proper : ∀ name ∈ rest, Proper name) (present : rest ≠ []) :
    Pathname.lexicallyNormal ⟨true,cwd.names ++ Pathname.dot::rest⟩ = ⟨true,cwd.names ++ rest⟩ := by
  have step (state : List Text × Bool) : Pathname.normalStep true state Pathname.dot = (state.1,true) := by
    simp [Pathname.normalStep,show Pathname.dot ≠ Pathname.dotdot by decide]
  unfold Pathname.lexicallyNormal
  rw [if_neg (by simp [Pathname.isEmpty])]
  dsimp only
  rw [List.foldl_append,Canonical.normal_proper cwd.names cwd.proper,List.foldl_cons,step,
    Canonical.normal_proper rest proper,if_neg present,List.append_nil,← List.reverse_append]
  cases reversed : (cwd.names ++ rest).reverse with
  | nil => simp [present] at reversed
  | cons last others =>
    have names : cwd.names ++ rest = (last::others).reverse := by rw [← reversed,List.reverse_reverse]
    simp [names]

-- the name of a database in the state directory of a root, and of the current directory
theorem database_rooted (proper : Proper name) : absoluteNormal cwd (home.text ++ '/'::stateDirectory ++ '/'::name) =
    ((home.child stateDirectory state_proper).child name proper).text := by
  have below : home.child stateDirectory state_proper ≠ Canonical.root := by
    intro same
    have names := congrArg Canonical.names same
    simp [Canonical.child,Canonical.root] at names
  unfold absoluteNormal
  by_cases top : home = Canonical.root
  · have slashes : home.text ++ '/'::stateDirectory ++ '/'::name =
        '/'::((home.child stateDirectory state_proper).child name proper).text := by
      rw [Canonical.child_text,if_neg below,Canonical.child_text,if_pos top,top]
      rfl
    unfold resolveAgainst Source.normalize
    rw [slashes,ofText_slashes,Canonical.path_normal]
    rfl
  · have plain : home.text ++ '/'::stateDirectory ++ '/'::name =
        ((home.child stateDirectory state_proper).child name proper).text := by
      rw [Canonical.child_text,if_neg below,Canonical.child_text,if_neg top]
    rw [plain]
    exact congrArg Pathname.text (@resolve_outside cwd _)

theorem database_here (proper : Proper name) : absoluteNormal cwd (['.'] ++ '/'::stateDirectory ++ '/'::name) =
    ((cwd.child stateDirectory state_proper).child name proper).text := by
  have named : ['.'] ++ '/'::stateDirectory ++ '/'::name = ['/'].intercalate [Pathname.dot,stateDirectory,name] := by
    simp [Pathname.dot,List.intercalate_cons_of_ne_nil]
  have plain : ∀ part ∈ [Pathname.dot,stateDirectory,name], part ≠ [] ∧ '/' ∉ part := by
    simp only [List.forall_mem_cons]
    exact ⟨by decide,by decide,⟨proper.nonempty,proper.plain⟩,by simp⟩
  have below : ∀ part ∈ [stateDirectory,name], Proper part := by
    simp only [List.forall_mem_cons]
    exact ⟨state_proper,proper,by simp⟩
  unfold absoluteNormal resolveAgainst
  rw [named,ofText_names (by simp) plain,if_neg (by simp),append_names _ (by simp),normal_dotted below (by simp)]
  simp [Canonical.text,Canonical.child,Pathname.text]

theorem home_exists (lawful : fs.Lawful) (cwd : Canonical) (input : Text) : ∃ home, Home fs cwd input home := by
  cases found : fs.realpath input with
  | none =>
    refine ⟨cwd,⟨?_,fun _ => rfl⟩⟩
    intro file known
    cases found.symm.trans known
  | some path =>
    obtain ⟨file,rfl⟩ := lawful.canonical _ _ found
    have own (other : Canonical) (known : fs.realpath input = some other.text) : other = file :=
      Canonical.text_injective (Option.some.inj (known.symm.trans found))
    rcases repositoryRoot_nearest lawful found with ⟨directory,_,nearest⟩ | ⟨_,unmarked⟩
    · refine ⟨directory,⟨?_,?_⟩⟩
      · intro other known
        rw [own other known]
        exact .inl nearest
      · intro lost
        cases found.symm.trans lost
    · refine ⟨cwd,⟨?_,fun _ => rfl⟩⟩
      intro other known
      rw [own other known]
      exact .inr ⟨rfl,unmarked⟩

/-- Every name belongs to one directory. -/
theorem home_defined (lawful : fs.Lawful) (cwd : Canonical) (input : Text) : ∃! home, Home fs cwd input home := by
  obtain ⟨home,belongs⟩ := home_exists lawful cwd input
  exact ⟨home,belongs,fun other another => home_unique lawful another belongs⟩

theorem home_of_root (lawful : fs.Lawful) (found : repositoryRoot fs (some input) = some home.text) :
    Home fs cwd input home where
  rooted := by
    intro file known
    obtain ⟨directory,same,near⟩ := (repositoryRoot_iff lawful known _).mp found
    rw [Canonical.text_injective same]
    exact .inl near
  lost := by
    intro lost
    unfold repositoryRoot at found
    dsimp only [Option.bind_eq_bind,Option.bind_some] at found
    rw [lost] at found
    cases found

/-- The default databases are those of the home of the name. -/
theorem default_databases (lawful : fs.Lawful) {path : Option Text} (belongs : Home fs cwd (path.getD ['.']) home) :
    ∃ symbols, semindexDefaultDatabasePath fs path symbolDatabase = some symbols ∧
      absoluteNormal cwd symbols = home.symbols.text ∧
      absoluteNormal cwd (commandDbDefaultPath symbols) = home.commands.text := by
  have beside (root : Text) : commandDbDefaultPath (root ++ '/'::stateDirectory ++ '/'::symbolDatabase) =
      root ++ '/'::stateDirectory ++ '/'::commandDatabase := by
    have shape (name : Text) : root ++ '/'::stateDirectory ++ '/'::name = (root ++ '/'::stateDirectory ++ ['/']) ++ name := by
      simp
    have count : (root ++ '/'::stateDirectory).length + 1 = (root ++ '/'::stateDirectory ++ ['/']).length := by
      simp [Nat.add_assoc]
    unfold commandDbDefaultPath
    rw [lastSlash_append _ symbol_proper.plain]
    dsimp only
    rw [count,shape symbolDatabase,List.take_left,shape commandDatabase]
  refine ⟨_,if_neg symbol_proper.nonempty,?_⟩
  rw [beside]
  have here (same : home = cwd) (none : repositoryRoot fs (some (path.getD ['.'])) = none) :
      absoluteNormal cwd ((repositoryRoot fs (some (path.getD ['.']))).getD ['.'] ++ '/'::stateDirectory ++ '/'::symbolDatabase) =
          home.symbols.text ∧
        absoluteNormal cwd ((repositoryRoot fs (some (path.getD ['.']))).getD ['.'] ++ '/'::stateDirectory ++ '/'::commandDatabase) =
          home.commands.text := by
    rw [none,same]
    exact ⟨database_here symbol_proper,database_here command_proper⟩
  cases found : fs.realpath (path.getD ['.']) with
  | none =>
    refine here (belongs.lost found) ?_
    unfold repositoryRoot
    dsimp only [Option.bind_eq_bind,Option.bind_some]
    rw [found]
    rfl
  | some canonical =>
    obtain ⟨file,rfl⟩ := lawful.canonical _ _ found
    rcases belongs.rooted file found with near | ⟨same,unmarked⟩
    · rw [(repositoryRoot_iff lawful found _).mpr ⟨home,rfl,near⟩]
      exact ⟨database_rooted symbol_proper,database_rooted command_proper⟩
    · refine here same ?_
      rcases repositoryRoot_nearest lawful found with ⟨directory,_,nearest⟩ | ⟨none,_⟩
      · exact absurd nearest.marked (unmarked _ nearest.above)
      · exact none

end Paths
end Defaults
end Semindex
