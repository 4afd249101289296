import Mathlib.Data.List.Basic

/-! Short and long options of a command line, as `getopt_long` reads them up to the
first operand. A long name may be cut short where what is left names one option;
an option takes its argument from its own element or else from the next one. -/
namespace Semindex.Getopt

structure LongOption (α ω : Type) where
  name : List α
  takesArgument : Bool
  value : ω

structure Options (α ω : Type) where
  dash : α
  equals : α
  short : List (α × Bool × ω)
  long : List (LongOption α ω)

-- an option, with its argument if it takes one
abbrev Given (α ω : Type) := ω × Option (List α)

inductive Element (α ω : Type) where
  | separator
  | operand
  | whole (given : List (Given α ω))
  | wanting (given : List (Given α ω)) (value : ω)
  | unknown (given : List (Given α ω))

/-- The options in their order, and the number of elements before the operands; `none` where an option is unknown or
lacks its argument. -/
structure Scan (α ω : Type) where
  given : List (Given α ω)
  stop : Option Nat

section Read
variable {α ω : Type} [DecidableEq α] [DecidableEq ω] (o : Options α ω)

def Options.separator : List α := [o.dash,o.dash]

def Options.find (name : List α) : Option (LongOption α ω) :=
  match o.long.find? (fun option => option.name = name) with
  | some exact => some exact
  | none =>
    match o.long.filter (fun option => name.isPrefixOf option.name) with
    | [] => none
    | first::others =>
      -- an abbreviation of several options that do the same stands for the first
      if others.all (fun option => option.takesArgument = first.takesArgument && option.value = first.value) then some first
      else none

def Options.longElement (text : List α) : Element α ω :=
  let name := text.takeWhile (· ≠ o.equals)
  let argument := if o.equals ∈ text then some (text.drop (name.length + 1)) else none
  match o.find name with
  | none => .unknown []
  | some option =>
    match option.takesArgument,argument with
    | false,some _ => .unknown []
    | true,none => .wanting [] option.value
    | _,argument => .whole [(option.value,argument)]

def Options.shortElement (given : List (Given α ω)) : List α → Element α ω
  | [] => .whole given
  | letter::rest =>
    match o.short.lookup letter with
    | none => .unknown given
    | some (false,value) => Options.shortElement (given ++ [(value,none)]) rest
    | some (true,value) => if rest = [] then .wanting given value else .whole (given ++ [(value,some rest)])

def Options.element (word : List α) : Element α ω :=
  if word = o.separator then .separator
  else if word = [o.dash] ∨ word.head? ≠ some o.dash then .operand
  else if o.separator.isPrefixOf word then o.longElement (word.drop 2)
  else o.shortElement [] (word.drop 1)

def Scan.after (given : List (Given α ω)) (count : Nat) (scan : Scan α ω) : Scan α ω :=
  ⟨given ++ scan.given,scan.stop.map (· + count)⟩

def Options.scan : List (List α) → Scan α ω
  | [] => ⟨[],some 0⟩
  | word::rest =>
    match o.element word with
    | .separator => ⟨[],some 1⟩
    | .operand => ⟨[],some 0⟩
    | .unknown given => ⟨given,none⟩
    | .whole given => (Options.scan rest).after given 1
    | .wanting given value =>
      match rest with
      | [] => ⟨given,none⟩
      | argument::rest => (Options.scan rest).after (given ++ [(value,some argument)]) 2

/-- Elements that are whole options, and what they give. -/
inductive Options.Reads : List (List α) → List (Given α ω) → Prop where
  | none : Options.Reads [] []
  | whole (word : List α) (rest : List (List α)) (given others : List (Given α ω)) (reads : o.element word = .whole given)
      (more : Options.Reads rest others) : Options.Reads (word::rest) (given ++ others)
  | wanting (word argument : List α) (rest : List (List α)) (given others : List (Given α ω)) (value : ω)
      (reads : o.element word = .wanting given value) (more : Options.Reads rest others) :
      Options.Reads (word::argument::rest) (given ++ (value,some argument)::others)

/-- What the options are followed by: a separator, or at once the operands. -/
inductive Options.Follows (count : Nat) : List (List α) → Nat → Prop where
  | separated (operands : List (List α)) : Options.Follows count (o.separator::operands) (count + 1)
  | direct (operand : List α) (operands : List (List α)) (reads : o.element operand = .operand) :
      Options.Follows count (operand::operands) count
  | ended : Options.Follows count [] count

end Read

section Spec
variable {α ω : Type} [DecidableEq α] [DecidableEq ω] {o : Options α ω} {words rest : List (List α)}
  {given : List (Given α ω)} {stop : Nat}

theorem element_separator : o.element o.separator = .separator := if_pos rfl

omit [DecidableEq ω] in
theorem shortElement_plain (given : List (Given α ω)) (letters : List α) :
    o.shortElement given letters ≠ .separator ∧ o.shortElement given letters ≠ .operand := by
  induction letters generalizing given with
  | nil => simp [Options.shortElement]
  | cons letter rest ih =>
    rw [Options.shortElement]
    split
    · simp
    · exact ih _
    · split <;> simp

theorem longElement_plain (text : List α) : o.longElement text ≠ .separator ∧ o.longElement text ≠ .operand := by
  unfold Options.longElement
  dsimp only
  split
  · simp
  · split <;> simp

-- only the separator itself ends the options without being an operand
theorem element_separates {word : List α} (reads : o.element word = .separator) : word = o.separator := by
  unfold Options.element at reads
  split_ifs at reads with same
  · exact same
  · exact absurd reads (longElement_plain _).1
  · exact absurd reads (shortElement_plain _ _).1

/-- Whole options in front are read before what follows them. -/
theorem scan_reads (reads : o.Reads words given) : o.scan (words ++ rest) = (o.scan rest).after given words.length := by
  induction reads with
  | none => simp [Scan.after]
  | whole word words given others reads _ ih =>
    rw [List.cons_append,Options.scan,reads]
    dsimp only
    rw [ih]
    simp [Scan.after,Function.comp_def,Nat.add_assoc]
  | wanting word argument words given others value reads _ ih =>
    rw [List.cons_append,List.cons_append,Options.scan,reads]
    dsimp only
    rw [ih]
    simp [Scan.after,Function.comp_def,Nat.add_assoc]

theorem scan_follows (reads : o.Reads words given) (follows : o.Follows words.length rest stop) :
    o.scan (words ++ rest) = ⟨given,some stop⟩ := by
  rw [scan_reads reads]
  cases follows with
  | separated operands =>
    rw [Options.scan,element_separator]
    simp [Scan.after,Nat.add_comm]
  | direct operand operands direct =>
    rw [Options.scan,direct]
    simp [Scan.after]
  | ended => simp [Options.scan,Scan.after]

omit [DecidableEq α] [DecidableEq ω] in
private theorem after_stop {scan : Scan α ω} {front : List (Given α ω)} {count : Nat}
    (ends : scan.after front count = ⟨given,some stop⟩) :
    ∃ others before, scan = ⟨others,some before⟩ ∧ given = front ++ others ∧ stop = before + count := by
  obtain ⟨others,_ | before⟩ := scan
  · cases ends
  · cases ends
    exact ⟨others,before,rfl,rfl,rfl⟩

private theorem follows_add {count more : Nat} (follows : o.Follows count rest stop) :
    o.Follows (count + more) rest (stop + more) := by
  cases follows with
  | separated operands =>
    rw [Nat.add_right_comm]
    exact .separated operands
  | direct operand operands reads => exact .direct operand operands reads
  | ended => exact .ended

/-- A scan that stops has read whole options, up to a separator or to what is no option. -/
theorem scan_stop (ends : o.scan words = ⟨given,some stop⟩) : ∃ front rest, words = front ++ rest ∧ o.Reads front given ∧
    o.Follows front.length rest stop := by
  fun_induction Options.scan o words generalizing given stop with
  | case1 =>
    cases ends
    exact ⟨[],[],rfl,.none,.ended⟩
  | case2 word rest reads =>
    cases ends
    rw [element_separates reads]
    exact ⟨[],_,rfl,.none,.separated rest⟩
  | case3 word rest reads =>
    cases ends
    exact ⟨[],_,rfl,.none,.direct word rest reads⟩
  | case4 => cases ends
  | case5 word rest here reads ih =>
    obtain ⟨others,before,scanned,rfl,rfl⟩ := after_stop ends
    obtain ⟨front,behind,rfl,read,follows⟩ := ih scanned
    exact ⟨word::front,behind,rfl,.whole word front here others reads read,follows_add follows⟩
  | case6 => cases ends
  | case7 word here value reads argument rest ih =>
    obtain ⟨others,before,scanned,rfl,rfl⟩ := after_stop ends
    obtain ⟨front,behind,rfl,read,follows⟩ := ih scanned
    have later : o.Follows (front.length + 2) behind (before + 2) := follows_add follows
    refine ⟨word::argument::front,behind,rfl,?_,later⟩
    rw [List.append_assoc]
    exact .wanting word argument front here others value reads read

end Spec
end Semindex.Getopt
