import Mathlib.Algebra.Order.BigOperators.Group.List
import Mathlib.Algebra.Order.Group.Nat
import Mathlib.Data.List.Infix

/-! The GLOB operator of SQLite: `*` for any text, `?` for any character, `[..]`
for a set with ranges, inverted by `^`. A `]` right after the opening is a
member of the set, and a set that is not closed matches nothing. A pattern
matches itself and nothing else just where it has no `*`, `?` or `[`. -/
namespace Semindex.Relational

inductive Token where
  | lit (c : Char)
  | one
  | many
  | set (invert : Bool) (ranges : List (Char × Char))
  | never
  deriving DecidableEq

def Token.accepts : Token → Char → Bool
  | .lit c,d => c = d
  | .one,_ => true
  | .many,_ => false
  | .set invert ranges,d => (ranges.any (fun (low,high) => low ≤ d && d ≤ high)) ^^ invert
  | .never,_ => false

/-- Where a scan of the pattern stands; `dash` follows a `-` that may turn `prior` into a range. -/
inductive Scan where
  | outside
  | opened
  | inverted
  | inside (invert : Bool) (ranges : List (Char × Char)) (prior : Option Char)
  | dash (invert : Bool) (ranges : List (Char × Char)) (prior : Char)
  deriving DecidableEq

def Scan.member (invert : Bool) (c : Char) : Scan :=
  if c = ']' then .inside invert [(c,c)] none else .inside invert [(c,c)] (some c)

def Scan.next : Scan → Char → Scan × Option Token
  | .outside,c =>
    if c = '*' then (.outside,some .many)
    else if c = '?' then (.outside,some .one)
    else if c = '[' then (.opened,none)
    else (.outside,some (.lit c))
  | .opened,c => (if c = '^' then .inverted else .member false c,none)
  | .inverted,c => (.member true c,none)
  | .inside invert ranges prior,c =>
    if c = ']' then (.outside,some (.set invert ranges))
    else match prior with
      | some p =>
        if c = '-' then (.dash invert ranges p,none) else (.inside invert ((c,c)::ranges) (some c),none)
      | none => (.inside invert ((c,c)::ranges) (some c),none)
  | .dash invert ranges p,c =>
    if c = ']' then (.outside,some (.set invert (('-','-')::ranges)))
    else (.inside invert ((p,c)::ranges) none,none)

def tokens : Scan → List Char → List Token
  | scan,[] => if scan = .outside then [] else [.never]
  | scan,c::pattern => (scan.next c).2.toList ++ tokens (scan.next c).1 pattern

def accepted : List Token → List Char → Bool
  | [],s => s.isEmpty
  | .many::ts,s => s.tails.any (accepted ts)
  | _::_,[] => false
  | t::ts,c::s => t.accepts c && accepted ts s

/-- `s GLOB pattern` -/
def glob (pattern s : List Char) : Bool := accepted (tokens .outside pattern) s

-- no character of the pattern is special
def Plain (pattern : List Char) : Prop := ∀ c ∈ pattern, c ≠ '*' ∧ c ≠ '?' ∧ c ≠ '['

instance (pattern : List Char) : Decidable (Plain pattern) :=
  List.decidableBAll (fun c => c ≠ '*' ∧ c ≠ '?' ∧ c ≠ '[') pattern

theorem accepted_many {ts : List Token} {s : List Char} :
    accepted (.many::ts) s = true ↔ ∃ rest, rest <:+ s ∧ accepted ts rest = true := by
  simp only [accepted,List.any_eq_true,List.mem_tails]

theorem accepted_cons {t : Token} (single : t ≠ .many) {ts : List Token} {s : List Char} :
    accepted (t::ts) s = true ↔ ∃ c rest, s = c::rest ∧ t.accepts c = true ∧ accepted ts rest = true := by
  cases t with
  | many => contradiction
  | lit _ | one | set _ _ | never => cases s <;> simp [accepted]

theorem accepted_possible {ts : List Token} {s : List Char} (found : accepted ts s = true) : .never ∉ ts := by
  induction ts generalizing s with
  | nil => simp
  | cons t ts ih =>
    by_cases many : t = .many
    · subst many
      obtain ⟨rest,_,tail⟩ := accepted_many.mp found
      simp [ih tail]
    · obtain ⟨c,rest,_,accepts,tail⟩ := (accepted_cons many).mp found
      have possible : t ≠ .never := by
        intro never
        subst never
        simp [Token.accepts] at accepts
      simp [ih tail,Ne.symm possible]

-- without `*` each token stands for one character
theorem accepted_length {ts : List Token} (noMany : .many ∉ ts) {s : List Char} (found : accepted ts s = true) :
    s.length = ts.length := by
  induction ts generalizing s with
  | nil => simpa [accepted] using found
  | cons t ts ih =>
    simp only [List.mem_cons,not_or] at noMany
    obtain ⟨c,rest,rfl,_,tail⟩ := (accepted_cons (Ne.symm noMany.1)).mp found
    simp [ih noMany.2 tail]

theorem accepted_longer {ts : List Token} (many : .many ∈ ts) {s : List Char} (found : accepted ts s = true) :
    ∃ longer, accepted ts longer = true ∧ longer.length = s.length + 1 := by
  induction ts generalizing s with
  | nil => simp at many
  | cons t ts ih =>
    by_cases here : t = .many
    · subst here
      obtain ⟨rest,suffix,tail⟩ := accepted_many.mp found
      exact ⟨'x'::s,accepted_many.mpr ⟨rest,suffix.trans (List.suffix_cons 'x' s),tail⟩,by simp⟩
    · obtain ⟨c,rest,rfl,accepts,tail⟩ := (accepted_cons here).mp found
      have later : Token.many ∈ ts := (List.mem_cons.mp many).resolve_left (fun same => here same.symm)
      obtain ⟨longer,matched,length⟩ := ih later tail
      exact ⟨c::longer,(accepted_cons here).mpr ⟨c,longer,rfl,accepts,matched⟩,by simp [length]⟩

theorem accepted_unbounded {ts : List Token} (many : .many ∈ ts) {s : List Char} (found : accepted ts s = true)
    (n : Nat) : ∃ longer, accepted ts longer = true ∧ longer.length = s.length + n := by
  induction n with
  | zero => exact ⟨s,found,by simp⟩
  | succ n ih =>
    obtain ⟨longer,matched,length⟩ := ih
    obtain ⟨next,matchedNext,lengthNext⟩ := accepted_longer many matched
    exact ⟨next,matchedNext,by omega⟩

theorem tokens_length {scan : Scan} {pattern : List Char} (closed : .never ∉ tokens scan pattern) :
    (tokens scan pattern).length ≤ pattern.length := by
  induction pattern generalizing scan with
  | nil =>
    by_cases outside : scan = .outside
    · simp [tokens,outside]
    · simp [tokens,outside] at closed
  | cons c pattern ih =>
    have rest := @ih (scan.next c).1 (fun member => closed (by simp [tokens,member]))
    have emitted : (scan.next c).2.toList.length ≤ 1 := by cases (scan.next c).2 <;> simp
    simp only [tokens,List.length_append,List.length_cons]
    omega

def wildcard (c : Char) : Token := if c = '?' then .one else .lit c

/-- A pattern with as many tokens as characters has no set. -/
theorem tokens_wildcards {pattern : List Char} (noMany : .many ∉ tokens .outside pattern)
    (closed : .never ∉ tokens .outside pattern) (length : (tokens .outside pattern).length = pattern.length) :
    tokens .outside pattern = pattern.map wildcard ∧ ∀ c ∈ pattern, c ≠ '*' ∧ c ≠ '[' := by
  induction pattern with
  | nil => simp [tokens]
  | cons c pattern ih =>
    have star : c ≠ '*' := by
      intro here
      simp [tokens,Scan.next,here] at noMany
    have bracket : c ≠ '[' := by
      intro here
      subst here
      have shorter := @tokens_length .opened pattern (by simpa [tokens,Scan.next] using closed)
      simp only [tokens,Scan.next,Char.reduceEq,if_false,if_true,Option.toList,List.nil_append,
        List.length_cons] at length
      omega
    have first : tokens .outside (c::pattern) = wildcard c::tokens .outside pattern := by
      unfold wildcard
      by_cases question : c = '?' <;> simp [tokens,Scan.next,star,bracket,question]
    rw [first] at noMany closed length ⊢
    simp only [List.mem_cons,not_or,List.length_cons,Nat.add_right_cancel_iff] at noMany closed length
    obtain ⟨rest,ordinary⟩ := ih noMany.2 closed.2 length
    refine ⟨by rw [rest,List.map_cons],?_⟩
    intro d member
    rcases List.mem_cons.mp member with rfl | inside
    · exact ⟨star,bracket⟩
    · exact ordinary d inside

theorem tokens_plain {pattern : List Char} (plain : Plain pattern) :
    tokens .outside pattern = pattern.map .lit := by
  induction pattern with
  | nil => rfl
  | cons c pattern ih =>
    obtain ⟨star,question,bracket⟩ := plain c (by simp)
    rw [tokens,List.map_cons,← ih (fun d member => plain d (by simp [member]))]
    simp [Scan.next,star,question,bracket]

theorem accepted_lits (text s : List Char) : accepted (text.map .lit) s = true ↔ s = text := by
  induction text generalizing s with
  | nil => simp [accepted]
  | cons c text ih =>
    rw [List.map_cons,accepted_cons (by simp)]
    simp only [Token.accepts,decide_eq_true_eq,ih]
    constructor
    · intro ⟨d,rest,shape,same,tail⟩
      rw [shape,same,tail]
    · intro shape
      exact ⟨c,text,shape,rfl,rfl⟩

theorem glob_plain {pattern : List Char} (plain : Plain pattern) (s : List Char) :
    glob pattern s = true ↔ s = pattern := by
  rw [glob,tokens_plain plain,accepted_lits]

theorem accepted_wildcards (pattern : List Char) :
    accepted (pattern.map wildcard) (pattern.map (fun c => if c = '?' then 'a' else c)) = true := by
  induction pattern with
  | nil => rfl
  | cons c pattern ih =>
    unfold wildcard at ih ⊢
    by_cases question : c = '?' <;> simp [question,accepted,Token.accepts,ih]

/-- Patterns that match each of themselves, nothing else, and nothing twice are all plain. -/
theorem plain_of_partition {patterns : List (List Char)} (covers : ∀ t ∈ patterns, ∃ p ∈ patterns, glob p t = true)
    (within : ∀ p ∈ patterns, ∀ t, glob p t = true → t ∈ patterns)
    (apart : ∀ p ∈ patterns, ∀ q ∈ patterns, ∀ t, glob p t = true → glob q t = true → p = q) :
    ∀ p ∈ patterns, Plain p := by
  have bounded : ∃ n, ∀ p ∈ patterns, p.length ≤ n :=
    ⟨(patterns.map List.length).sum,fun p member =>
      List.single_le_sum (fun _ _ => Nat.zero_le _) _ (List.mem_map.mpr ⟨p,member,rfl⟩)⟩
  obtain ⟨n,bound⟩ := bounded
  -- what matches a pattern that is not plain is longer, or matches without bound, or matches a plain one
  have longer : ∀ p ∈ patterns, ¬ Plain p → ∃ q ∈ patterns, ¬ Plain q ∧ p.length < q.length := by
    intro p member special
    obtain ⟨q,listed,matched⟩ := covers p member
    have specialQ : ¬ Plain q := by
      intro plain
      rw [(glob_plain plain p).mp matched] at special
      exact special plain
    refine ⟨q,listed,specialQ,?_⟩
    have closed := accepted_possible matched
    by_cases many : Token.many ∈ tokens .outside q
    · obtain ⟨t,found,length⟩ := accepted_unbounded many matched (n+1)
      have short := bound t (within q listed t found)
      omega
    · by_contra short
      have length := accepted_length many matched
      have fits := tokens_length closed
      obtain ⟨wildcards,ordinary⟩ := tokens_wildcards many closed (by omega)
      have matchedT : glob q (q.map (fun c => if c = '?' then 'a' else c)) = true := by
        rw [glob,wildcards]
        exact accepted_wildcards q
      have plainT : Plain (q.map (fun c => if c = '?' then 'a' else c)) := by
        intro c inside
        obtain ⟨d,at_d,rfl⟩ := List.mem_map.mp inside
        by_cases question : d = '?'
        · simp [question]
        · simp [question,ordinary d at_d]
      have listedT := within q listed _ matchedT
      rw [apart q listed _ listedT _ matchedT ((glob_plain plainT _).mpr rfl)] at specialQ
      exact specialQ plainT
  intro p member
  by_contra special
  have unbounded : ∀ k, ∃ q ∈ patterns, ¬ Plain q ∧ k ≤ q.length := by
    intro k
    induction k with
    | zero => exact ⟨p,member,special,Nat.zero_le _⟩
    | succ k ih =>
      obtain ⟨q,listed,specialQ,length⟩ := ih
      obtain ⟨r,listedR,specialR,more⟩ := longer q listed specialQ
      exact ⟨r,listedR,specialR,by omega⟩
  obtain ⟨q,listed,_,length⟩ := unbounded (n+1)
  have short := bound q listed
  omega

example : glob "operator[]".toList "operator[]".toList = false := by decide +kernel
example : glob "a[^0-9]*]".toList "ab-]".toList = true := by decide +kernel

end Semindex.Relational
