import Semindex.Source.Resolver

/-! Stored paths as an encoding of files: `semindex_repository_path` against the
canonical file, and the way back through the resolver and the search output. -/
namespace Semindex

/-- What `realpath` and `stat` promise. -/
structure FileSystem.Lawful (fs : FileSystem) : Prop where
  canonical : ∀ name path, fs.realpath name = some path → ∃ file : Canonical, path = file.text
  fixed : ∀ name path, fs.realpath name = some path → fs.realpath path = some path
  root : fs.realpath Canonical.root.text = some Canonical.root.text
  statted : ∀ name, fs.stat name = (fs.realpath name).bind fs.stat
  found : ∀ name path, fs.realpath name = some path → (fs.stat path).isSome
  directory : ∀ path st, fs.realpath path = some path → fs.stat path = some st → st.isDir →
    fs.realpath (path ++ ['/']) = some path ∧ fs.realpath (path ++ ['/','.']) = some path

section Stored
variable {fs : FileSystem} {root file other : Canonical} {name : Text}

/-- The stored path of a file in the repository at `root`. -/
def Canonical.stored (root file : Canonical) : Text :=
  if root.names <+: file.names then (file.path.lexicallyRelative root.path).text else file.text

theorem stored_below {rest : List Text} (below : file.names = root.names ++ rest) :
    root.stored file = ['/'].intercalate (if rest = [] then [Pathname.dot] else rest) := by
  have inside : root.names <+: file.names := below ▸ List.prefix_append _ _
  rw [Canonical.stored,if_pos inside,Canonical.relative_below below,Pathname.text]
  rfl

theorem stored_outside (outside : ¬ root.names <+: file.names) : root.stored file = file.text := if_neg outside

theorem repositoryPath_unknown (absent : fs.realpath name = none) (root : Option Text) :
    repositoryPath fs root name = name := by
  cases root <;> simp [repositoryPath,absent]

theorem repositoryPath_root {resolved : Text} (known : fs.realpath name = some resolved) :
    repositoryPath fs (some Canonical.root.text) name =
      if resolved = Canonical.root.text then ['.']
      else if ['/'].isPrefixOf resolved then resolved.drop 2 else resolved := by
  have slash : Canonical.root.text = ['/'] := rfl
  rw [slash]
  unfold repositoryPath
  rw [known]
  match resolved with
  | [] => simp
  | c::rest =>
    by_cases same : c = '/'
    · subst same
      cases rest <;> simp [List.isPrefixOf]
    · have other : '/' ≠ c := Ne.symm same
      simp [List.isPrefixOf,same,other]

/-- In a repository other than the whole file system the writer stores the encoding. -/
theorem repositoryPath_stored (known : fs.realpath name = some file.text) (proper : root ≠ Canonical.root) :
    repositoryPath fs (some root.text) name = root.stored file := by
  have notSlash : root.text ≠ ['/'] := fun same => proper (Canonical.text_injective same)
  unfold repositoryPath
  rw [known]
  dsimp only
  by_cases inside : root.names <+: file.names
  · obtain ⟨rest,below⟩ := inside
    have spelled := Canonical.text_below below.symm proper
    rw [stored_below below.symm]
    by_cases same : rest = []
    · rw [if_pos same,List.append_nil] at spelled
      simp [spelled,same,Pathname.dot]
    · rw [if_neg same] at spelled
      simp [spelled,same]
  · rw [stored_outside inside]
    by_cases starts : root.text <+: file.text
    · obtain ⟨tail,spelled⟩ := starts
      have boundary : ¬ (tail = [] ∨ tail.head? = some '/') := by
        intro ends
        rcases ends with empty | slash
        · rw [empty,List.append_nil] at spelled
          exact inside (Canonical.text_injective spelled ▸ List.prefix_refl _)
        · obtain ⟨more,rfl⟩ : ∃ more, tail = '/' :: more := by
            cases tail with
            | nil => cases slash
            | cons c more => exact ⟨more,by simpa using slash⟩
          obtain ⟨rest,below,_⟩ := Canonical.below_of_text spelled.symm proper
          exact inside (below ▸ List.prefix_append _ _)
      cases tail with
      | nil => exact absurd (.inl rfl) boundary
      | cons c more =>
        have other : c ≠ '/' := fun same => boundary (.inr (by simp [same]))
        rw [← spelled]
        simp [notSlash,other]
    · have apart : root.text.isPrefixOf file.text = false := by
        rw [Bool.eq_false_iff]
        intro starts'
        exact starts (List.isPrefixOf_iff_prefix.mp starts')
      simp [apart]

theorem stored_head (below : root.names <+: file.names) : (root.stored file).head? ≠ some '/' := by
  obtain ⟨rest,same⟩ := below
  rw [stored_below same.symm]
  have proper := Canonical.below_proper same.symm
  cases rest with
  | nil => simp [Pathname.dot]
  | cons first others =>
    have good := proper first List.mem_cons_self
    cases first with
    | nil => exact absurd rfl good.nonempty
    | cons c cs =>
      have plain : c ≠ '/' := fun same => good.plain (same ▸ List.mem_cons_self)
      simpa using plain

/-- What is left below a directory is spelled in one way. -/
theorem rest_injective {rest more : List Text} (proper : ∀ name ∈ rest, Proper name)
    (other : ∀ name ∈ more, Proper name)
    (same : ['/'].intercalate (if rest = [] then [Pathname.dot] else rest) =
      ['/'].intercalate (if more = [] then [Pathname.dot] else more)) : rest = more := by
  have plain {names : List Text} (good : ∀ name ∈ names, Proper name) :
      ∀ name ∈ (if names = [] then [Pathname.dot] else names), '/' ∉ name := by
    intro name member
    split at member
    · obtain rfl := List.mem_singleton.mp member
      decide
    · exact (good name member).plain
  have present (names : List Text) : (if names = [] then [Pathname.dot] else names) ≠ [] := by
    split
    · exact List.cons_ne_nil _ _
    · assumption
  have split := congrArg (List.splitOn '/') same
  rw [List.splitOn_intercalate '/' (plain proper) (present rest),
    List.splitOn_intercalate '/' (plain other) (present more)] at split
  split_ifs at split with none empty empty
  · rw [none,empty]
  · exact absurd rfl (other _ (split ▸ List.mem_singleton_self _)).notDot
  · exact absurd rfl (proper _ (split ▸ List.mem_singleton_self _)).notDot
  · exact split

theorem stored_injective (same : root.stored file = root.stored other) : file = other := by
  by_cases left : root.names <+: file.names <;> by_cases right : root.names <+: other.names
  · obtain ⟨rest,below⟩ := left
    obtain ⟨more,under⟩ := right
    rw [stored_below below.symm,stored_below under.symm] at same
    have rests := rest_injective (Canonical.below_proper below.symm) (Canonical.below_proper under.symm) same
    exact Canonical.names_injective (by rw [← below,← under,rests])
  · have head := stored_head left
    rw [same,stored_outside right] at head
    exact absurd rfl head
  · have head := stored_head right
    rw [← same,stored_outside left] at head
    exact absurd rfl head
  · rw [stored_outside left,stored_outside right] at same
    exact Canonical.text_injective same

end Stored

section Back
open Source
variable {root file : Canonical}

theorem ofText_names {names : List Text} (present : names ≠ []) (plain : ∀ name ∈ names, name ≠ [] ∧ '/' ∉ name) :
    Pathname.ofText (['/'].intercalate names) = ⟨false,names⟩ := by
  have filtered : names.filter (fun name => name ≠ []) = names := by
    rw [List.filter_eq_self]
    intro name member
    simpa using (plain name member).1
  have last : names.getLast? ≠ some [] := fun same => (plain [] (List.mem_of_getLast? same)).1 rfl
  have head : (['/'].intercalate names).head? ≠ some '/' := by
    cases names with
    | nil => contradiction
    | cons first others =>
      obtain ⟨nonempty,noSlash⟩ := plain first List.mem_cons_self
      cases first with
      | nil => contradiction
      | cons c cs =>
        have other : c ≠ '/' := fun same => noSlash (same ▸ List.mem_cons_self)
        simpa using other
  unfold Pathname.ofText
  rw [List.splitOn_intercalate '/' (fun name member => (plain name member).2) present]
  dsimp only
  rw [filtered,if_neg (fun both => last both.2)]
  simp [head]

theorem append_names (names : List Text) (present : names ≠ []) :
    root.path.append ⟨false,names⟩ = ⟨true,root.names ++ names⟩ := by
  have last : root.names.getLast? ≠ some [] := fun same =>
    (root.proper [] (List.mem_of_getLast? same)).nonempty rfl
  unfold Pathname.append Canonical.path
  dsimp only
  rw [if_neg (by simp),if_neg last,if_neg present]
  split
  · rename_i empty
    simp [empty]
  · rfl

theorem resolve_outside : resolve ⟨root.path⟩ file.text = file.path := by
  unfold resolve resolveAgainst
  rw [Canonical.ofText_text,Source.normalize,Canonical.ofText_text,Canonical.path_normal]
  rfl

theorem resolve_below {rest : List Text} (below : file.names = root.names ++ rest) (present : rest ≠ []) :
    resolve ⟨root.path⟩ (['/'].intercalate rest) = file.path := by
  have proper := Canonical.below_proper below
  unfold resolve resolveAgainst
  rw [ofText_names present (fun name member => ⟨(proper name member).nonempty,(proper name member).plain⟩),
    append_names rest present,← below]
  exact Canonical.path_normal file

-- the directory itself comes back with a separator behind it
theorem resolve_dot : resolve ⟨root.path⟩ Pathname.dot =
    ⟨true,root.names ++ if root.names = [] then [] else [[]]⟩ := by
  have dotted : Pathname.ofText Pathname.dot = ⟨false,[Pathname.dot]⟩ := by decide
  unfold resolve resolveAgainst
  dsimp only
  rw [dotted,if_neg (by simp),append_names _ (List.cons_ne_nil _ _)]
  unfold Pathname.lexicallyNormal
  rw [if_neg (by simp [Pathname.isEmpty])]
  dsimp only
  rw [List.foldl_append,Canonical.normal_proper root.names root.proper,List.append_nil]
  have step (state : List Text × Bool) : [Pathname.dot].foldl (Pathname.normalStep true) state = (state.1,true) := by
    simp [Pathname.normalStep,show Pathname.dot ≠ Pathname.dotdot by decide]
  rw [step]
  dsimp only
  cases reversed : root.names.reverse with
  | nil => simp [List.reverse_eq_nil_iff.mp reversed]
  | cons last others =>
    have names : root.names = (last::others).reverse := by rw [← reversed,List.reverse_reverse]
    have plain : last ≠ Pathname.dotdot := (root.proper last (by rw [names]; simp)).notDotdot
    simp [names,plain]

end Back

section Faithful
open Source
variable {fs : FileSystem} {root : Canonical} {a b : Text} {fileA fileB : Text}

-- the two ways a stored path is spelled again
theorem spelled_again (file : Canonical) (proper : root ≠ Canonical.root) (hint : Option Text) :
    (file ≠ root → (resolve ⟨root.path⟩ (root.stored file)).text = file.text ∧
      openSource (some root.text) hint (root.stored file) = file.text) ∧
    (file = root → (resolve ⟨root.path⟩ (root.stored file)).text = root.text ++ ['/'] ∧
      openSource (some root.text) hint (root.stored file) = root.text ++ ['/','.']) := by
  have names : root.names ≠ [] := fun empty => proper (Canonical.names_injective empty)
  by_cases inside : root.names <+: file.names
  · have relative := stored_head inside
    have opened : openSource (some root.text) hint (root.stored file) = root.text ++ '/' :: root.stored file := by
      simp [openSource,relative]
    rw [opened]
    obtain ⟨rest,below⟩ := inside
    have spelled := Canonical.text_below below.symm proper
    rw [stored_below below.symm]
    by_cases whole : rest = []
    · have same : file = root := Canonical.names_injective (by rw [← below,whole,List.append_nil])
      refine ⟨fun other => absurd same other,fun _ => ?_⟩
      rw [if_pos whole,List.intercalate_singleton,resolve_dot,if_neg names]
      refine ⟨?_,rfl⟩
      simp [Pathname.text,Canonical.text,Canonical.intercalate_append names (List.cons_ne_nil _ _)]
    · have apart : file ≠ root := by
        intro same
        exact whole (List.append_right_eq_self.mp (below.trans (congrArg Canonical.names same)))
      refine ⟨fun _ => ?_,fun same => absurd same apart⟩
      rw [if_neg whole,resolve_below below.symm whole,spelled,if_neg whole]
      exact ⟨spelled.trans (by rw [if_neg whole]),rfl⟩
  · have apart : file ≠ root := fun same => inside (same ▸ List.prefix_refl _)
    refine ⟨fun _ => ?_,fun same => absurd same apart⟩
    rw [stored_outside inside,resolve_outside]
    exact ⟨rfl,by simp [openSource,Canonical.text]⟩

/-- Below a root other than the whole file system the stored path encodes the file, and both readers find it. -/
theorem repository_paths_faithful (lawful : fs.Lawful) (proper : root ≠ Canonical.root)
    (here : fs.realpath root.text = some root.text) (directory : ∃ st, fs.stat root.text = some st ∧ st.isDir)
    (foundA : fs.realpath a = some fileA) (foundB : fs.realpath b = some fileB) (hint : Option Text) :
    (repositoryPath fs (some root.text) a = repositoryPath fs (some root.text) b ↔ fileA = fileB) ∧
    fs.realpath (resolve ⟨root.path⟩ (repositoryPath fs (some root.text) a)).text = some fileA ∧
    fs.realpath (openSource (some root.text) hint (repositoryPath fs (some root.text) a)) = some fileA ∧
    repositoryPath fs none a = a ∧ openSource none none a = a := by
  obtain ⟨first,rfl⟩ := lawful.canonical a fileA foundA
  obtain ⟨second,rfl⟩ := lawful.canonical b fileB foundB
  rw [repositoryPath_stored foundA proper,repositoryPath_stored foundB proper]
  refine ⟨⟨fun same => congrArg Canonical.text (stored_injective same),fun same => ?_⟩,?_,?_,rfl,?_⟩
  · rw [Canonical.text_injective same]
  · by_cases whole : first = root
    · obtain ⟨st,statted,isDir⟩ := directory
      rw [((spelled_again first proper hint).2 whole).1,whole]
      exact (lawful.directory _ st here statted isDir).1
    · rw [((spelled_again first proper hint).1 whole).1]
      exact lawful.fixed a _ foundA
  · by_cases whole : first = root
    · obtain ⟨st,statted,isDir⟩ := directory
      rw [((spelled_again first proper hint).2 whole).2,whole]
      exact (lawful.directory _ st here statted isDir).2
    · rw [((spelled_again first proper hint).1 whole).2]
      exact lawful.fixed a _ foundA
  · simp [openSource]

end Faithful

section Samples
open Source IndexDb
variable {entries : List (Text × Text × Stat)}

private theorem listed_of_lookup {name : Text} {value : Text × Stat} (found : entries.lookup name = some value) :
    (name,value) ∈ entries := by
  induction entries with
  | nil => cases found
  | cons entry entries ih =>
    rw [List.lookup_cons] at found
    split at found
    · rename_i same
      cases Option.some.inj found
      exact List.mem_cons.mpr (.inl (Prod.ext (beq_iff_eq.mp same) rfl))
    · exact List.mem_cons_of_mem _ (ih found)

/-- A table of names that lists the canonical ones too, and the spellings of its directories. -/
theorem tableFs_lawful (canonical : ∀ e ∈ entries, ∃ file : Canonical, e.2.1 = file.text)
    (fixed : ∀ e ∈ entries, entries.lookup e.2.1 = some e.2)
    (root : (entries.lookup ['/']).map Prod.fst = some ['/'])
    (directory : ∀ e ∈ entries, e.2.2.isDir → (entries.lookup (e.2.1 ++ ['/'])).map Prod.fst = some e.2.1 ∧
      (entries.lookup (e.2.1 ++ ['/','.'])).map Prod.fst = some e.2.1) : (tableFs entries).Lawful := by
  have known {name path : Text} (found : (tableFs entries).realpath name = some path) :
      ∃ st, (name,path,st) ∈ entries ∧ entries.lookup name = some (path,st) := by
    obtain ⟨⟨_,st⟩,listed,rfl⟩ := Option.map_eq_some_iff.mp found
    exact ⟨st,listed_of_lookup listed,listed⟩
  constructor
  · intro name path found
    obtain ⟨st,listed,_⟩ := known found
    exact canonical _ listed
  · intro name path found
    obtain ⟨st,listed,_⟩ := known found
    exact congrArg (Option.map Prod.fst) (fixed _ listed)
  · exact root
  · intro name
    cases found : entries.lookup name with
    | none => simp [tableFs,found]
    | some value =>
      have again := fixed _ (listed_of_lookup found)
      simp [tableFs,found,again]
  · intro name path found
    obtain ⟨st,listed,_⟩ := known found
    simp [tableFs,fixed _ listed]
  · intro path st found statted isDir
    obtain ⟨own,listed,seen⟩ := known found
    have same : own = st := by simpa [tableFs,seen] using statted
    exact directory _ listed (same ▸ isDir)

def sampleHeader : Canonical := ⟨["r".toList,"h.h".toList],by
  intro name member
  rcases List.mem_cons.mp member with rfl | member
  · exact ⟨by decide,by decide,by decide,by decide⟩
  · obtain rfl := List.mem_singleton.mp member
    exact ⟨by decide,by decide,by decide,by decide⟩⟩

def sampleRoot : Canonical := ⟨["r".toList],fun name member => sampleHeader.proper name (List.mem_of_mem_take (i := 1) member)⟩

-- the header below `/r`, as a process in `/r` can spell it
def spelledFs : FileSystem := tableFs (
  ["h.h","./h.h","/r/h.h"].map (fun name => (name.toList,"/r/h.h".toList,⟨1,3,10,5,false⟩)) ++
  ["/r","/r/","/r/."].map (fun name => (name.toList,"/r".toList,⟨1,2,10,5,true⟩)) ++
  ["/","//","//."].map (fun name => (name.toList,"/".toList,⟨1,1,10,5,true⟩)))

theorem spelledFs_lawful : spelledFs.Lawful := by
  refine tableFs_lawful ?_ (by decide) (by decide) (by decide)
  intro e member
  rcases List.mem_append.mp member with member | member
  · rcases List.mem_append.mp member with member | member
    · obtain ⟨_,_,rfl⟩ := List.mem_map.mp member
      exact ⟨sampleHeader,show "/r/h.h".toList = sampleHeader.text by decide⟩
    · obtain ⟨_,_,rfl⟩ := List.mem_map.mp member
      exact ⟨sampleRoot,show "/r".toList = sampleRoot.text by decide⟩
  · obtain ⟨_,_,rfl⟩ := List.mem_map.mp member
    exact ⟨Canonical.root,rfl⟩

theorem repository_paths_faithful_header :
    repositoryPath spelledFs (some "/r".toList) "h.h".toList =
      repositoryPath spelledFs (some "/r".toList) "./h.h".toList ∧
    spelledFs.realpath (openSource (some "/r".toList) none
      (repositoryPath spelledFs (some "/r".toList) "h.h".toList)) = some "/r/h.h".toList := by
  have faithful := @repository_paths_faithful spelledFs sampleRoot "h.h".toList "./h.h".toList "/r/h.h".toList
    "/r/h.h".toList spelledFs_lawful (fun same => absurd (congrArg Canonical.names same) (by decide)) (by decide)
    ⟨⟨1,2,10,5,true⟩,by decide,by decide⟩ (by decide) (by decide) none
  exact ⟨faithful.1.mpr rfl,faithful.2.2.1⟩

/-- Without a root two spellings of one file are stored as two files. -/
theorem spellings_without_root : spelledFs.Lawful ∧
    spelledFs.realpath "h.h".toList = spelledFs.realpath "./h.h".toList ∧
    repositoryPath spelledFs none "h.h".toList ≠ repositoryPath spelledFs none "./h.h".toList :=
  ⟨spelledFs_lawful,by decide,by decide⟩

end Samples
end Semindex
