import Signpost.Proofs.Query.Translation

/-!
# The grammar of conditions

The text of a condition is a sequence of words and marks, and these are read by the usual rules:
comparisons bind tighter than AND, AND tighter than OR, operators of the same strength from left to
right, with parentheses around any phrase and a prefixed `!` before anything but an operator.

The rules say which phrases a text may be read as.  That there is at most one follows from a reader
that goes over the text once, from left to right: whatever the rules allow is what it finds.

## Main definitions

* `Query.Token`, `Query.scan`: the words and marks of a text.
* `Query.Phrase`: what a text is read as.
* `Query.Reads`: the rules.
* `Query.Reading`: a text may be read as a phrase.
* `Query.Reader.step`: the reader.

## Main results

* `Query.run_of_reads`: the reader finds what the rules allow.
* `Query.Reads.unique`: a text is read as one phrase at most.
-/

namespace Signpost.Query

/-! ## Words and marks -/

/-- A word, or a mark between words. -/
inductive Token where
  | word (text : String)
  | mark (c : Char)
  /-- The mark `!=`. -/
  | unequal
deriving DecidableEq

/-- Whether a character may stand in a word. -/
def isWordChar (c : Char) : Bool := isNameChar c || c == '$'

/-- The token of a word that has ended, unless there was none. -/
def ended (word : List Char) : List Token :=
  if word.isEmpty then [] else [.word (String.ofList word)]

/-- The tokens of a text that goes on from a word.  Words are as long as they can be, and so is the
mark `!=`; blanks end words and are not tokens. -/
def scan (word : List Char) : List Char → List Token
  | [] => ended word
  | '!' :: '=' :: rest => ended word ++ .unequal :: scan [] rest
  | c :: rest =>
    if isWordChar c then scan (word ++ [c]) rest
    else if c = ' ' then ended word ++ scan [] rest
    else ended word ++ .mark c :: scan [] rest

/-- The tokens of a text. -/
def tokens (text : String) : List Token := scan [] text.toList

/-- The name of the parameter that a word mentions. -/
def parameter? (word : String) : Option String :=
  match word.toList with
  | '$' :: name => some (String.ofList name)
  | _ => none

/-- The names of the parameters that a sequence of tokens mentions, from left to right. -/
def mentions (ts : List Token) : List String :=
  ts.filterMap fun t => match t with
    | .word w => parameter? w
    | _ => none

/-! ## Phrases -/

/-- An operator between two phrases. -/
inductive Operator where
  | equal
  | unequal
  | and
  | or
deriving DecidableEq

namespace Operator

/-- How an operator is written. -/
def token : Operator → Token
  | .equal => .mark '='
  | .unequal => .unequal
  | .and => .word "AND"
  | .or => .word "OR"

/-- How loosely an operator binds. -/
def level : Operator → Nat
  | .equal | .unequal => 1
  | .and => 2
  | .or => 3

theorem level_pos (op : Operator) : 0 < op.level := by cases op <;> decide

theorem level_le (op : Operator) : op.level ≤ 3 := by cases op <;> decide

end Operator

/-- What a text is read as. -/
inductive Phrase where
  | constant (b : Bool)
  | column (path : List Step)
  | parameter (name : String)
  | nothing
  | null
  | negation (p : Phrase)
  | compound (left : Phrase) (op : Operator) (right : Phrase)

/-- A column is read from the name of the document, members after dots and items in brackets. -/
inductive ReadsColumn : List Token → List Step → Prop
  | document : ReadsColumn [.word "payload"] []
  | member {ts : List Token} {path : List Step} {name : String} :
    ReadsColumn ts path → IsIdentifier name →
      ReadsColumn (ts ++ [.mark '.', .word name]) (path ++ [.member name])
  | item {ts : List Token} {path : List Step} {digits : String} :
    ReadsColumn ts path → IsIndex digits →
      ReadsColumn (ts ++ [.mark '[', .word digits, .mark ']']) (path ++ [.item digits])

/-- The tokens may be read as the phrase, with no operator outside parentheses that binds more
loosely than the level. -/
inductive Reads : Nat → List Token → Phrase → Prop
  | yes : Reads 0 [.word "true"] (.constant true)
  | no : Reads 0 [.word "false"] (.constant false)
  | nothing : Reads 0 [.word "NONE"] .nothing
  | null : Reads 0 [.word "NULL"] .null
  | parameter {name : String} : name ≠ "" → (∀ c ∈ name.toList, isNameChar c = true) →
      Reads 0 [.word ("$" ++ name)] (.parameter name)
  | column {ts : List Token} {path : List Step} : ReadsColumn ts path → Reads 0 ts (.column path)
  | group {ts : List Token} {p : Phrase} : Reads 3 ts p → Reads 0 (.mark '(' :: ts ++ [.mark ')']) p
  | negation {ts : List Token} {p : Phrase} : Reads 0 ts p → Reads 0 (.mark '!' :: ts) (.negation p)
  /-- Operators of one level are read from left to right. -/
  | compound {ts us : List Token} {p q : Phrase} {op : Operator} :
    Reads op.level ts p → Reads (op.level - 1) us q →
      Reads op.level (ts ++ op.token :: us) (.compound p op q)
  | looser {ts : List Token} {p : Phrase} {k m : Nat} : Reads k ts p → k ≤ m → Reads m ts p

/-- A text may be read as a phrase. -/
def Reading (text : String) (p : Phrase) : Prop := Reads 3 (tokens text) p

/-! ## A reader -/

/-- What waits for the phrase that comes next. -/
inductive Pending where
  | negation
  | operand (left : Phrase) (op : Operator)

/-- Applies what waits for a phrase and binds at least as tightly as a level. -/
def settle (k : Nat) : List Pending → Phrase → List Pending × Phrase
  | [], p => ([], p)
  | .negation :: rest, p => settle k rest (.negation p)
  | .operand left op :: rest, p =>
    if op.level ≤ k then settle k rest (.compound left op p) else (.operand left op :: rest, p)

/-- Where a reader is. -/
inductive Stage where
  /-- Before a phrase. -/
  | before
  /-- After a phrase. -/
  | after (p : Phrase)
  /-- Before the name of a member. -/
  | dotted (path : List Step)
  /-- Before the digits of an item. -/
  | bracketed (path : List Step)
  /-- After the digits of an item. -/
  | numbered (path : List Step) (digits : String)

/-- A reader: what waits inside the innermost parentheses, and outside of them. -/
structure Reader where
  outer : List (List Pending)
  pending : List Pending
  stage : Stage

/-- The phrase of a single word. -/
def phrase? (word : String) : Option Phrase :=
  match parameter? word with
  | some name => some (.parameter name)
  | none =>
    match word with
    | "true" => some (.constant true)
    | "false" => some (.constant false)
    | "NONE" => some .nothing
    | "NULL" => some .null
    | "payload" => some (.column [])
    | _ => none

/-- The operator of a token. -/
def operator? : Token → Option Operator
  | .mark '=' => some .equal
  | .unequal => some .unequal
  | .word "AND" => some .and
  | .word "OR" => some .or
  | _ => none

namespace Reader

/-- Goes on after a phrase. -/
def goOn (r : Reader) (p : Phrase) : Token → Option Reader
  | .mark ')' =>
    match r.outer with
    | pending :: outer => some ⟨outer, pending, .after (settle 3 r.pending p).2⟩
    | [] => none
  | .mark '.' =>
    match p with
    | .column path => some { r with stage := .dotted path }
    | _ => none
  | .mark '[' =>
    match p with
    | .column path => some { r with stage := .bracketed path }
    | _ => none
  | t => (operator? t).map fun op =>
    let (pending, left) := settle op.level r.pending p
    { r with pending := .operand left op :: pending, stage := .before }

/-- Reads a token. -/
def step (r : Reader) (t : Token) : Option Reader :=
  match r.stage, t with
  | .before, .mark '(' => some ⟨r.pending :: r.outer, [], .before⟩
  | .before, .mark '!' => some { r with pending := .negation :: r.pending }
  | .before, .word w => (phrase? w).map fun p => { r with stage := .after p }
  | .after p, t => r.goOn p t
  | .dotted path, .word name => some { r with stage := .after (.column (path ++ [.member name])) }
  | .bracketed path, .word digits => some { r with stage := .numbered path digits }
  | .numbered path digits, .mark ']' =>
    some { r with stage := .after (.column (path ++ [.item digits])) }
  | _, _ => none

/-- Reads tokens. -/
def run (r : Reader) (ts : List Token) : Option Reader := ts.foldlM step r

variable {r : Reader}

theorem run_append (ts us : List Token) : r.run (ts ++ us) = (r.run ts).bind (·.run us) :=
  List.foldlM_append

theorem run_cons (t : Token) (ts : List Token) : r.run (t :: ts) = (r.step t).bind (·.run ts) :=
  rfl

end Reader

/-! ## The reader finds what the rules allow -/

variable {outer : List (List Pending)} {pending : List Pending} {ts : List Token}

theorem step_operator (p : Phrase) (op : Operator) :
    (Reader.mk outer pending (.after p)).step op.token =
      some ⟨outer, .operand (settle op.level pending p).2 op :: (settle op.level pending p).1,
        .before⟩ := by
  cases op <;> rfl

theorem parameter?_append (name : String) : parameter? ("$" ++ name) = some name := by
  unfold parameter?
  rw [String.toList_append]
  simp

theorem step_parameter (name : String) :
    (Reader.mk outer pending .before).step (.word ("$" ++ name)) =
      some ⟨outer, pending, .after (.parameter name)⟩ := by
  show (phrase? ("$" ++ name)).map _ = _
  unfold phrase?
  rw [parameter?_append]
  rfl

theorem run_of_readsColumn {path : List Step} (h : ReadsColumn ts path) :
    (Reader.mk outer pending .before).run ts = some ⟨outer, pending, .after (.column path)⟩ := by
  induction h with
  | document => rfl
  | member _ _ ih | item _ _ ih =>
    rw [Reader.run_append, ih]
    rfl

/-- Nothing that waits binds as tightly as an operator of the level or a tighter one. -/
def Looser (k : Nat) (pending : List Pending) : Prop :=
  ∀ m, 0 < m → m ≤ k → ∀ p, settle m pending p = (pending, p)

theorem looser_nil (k : Nat) : Looser k [] := fun _ _ _ _ => rfl

theorem looser_operand {k : Nat} {left : Phrase} {op : Operator} (h : k < op.level) :
    Looser k (.operand left op :: pending) := by
  intro m _ hm p
  rw [settle, if_neg (by omega)]

/-- **The reader finds what the rules allow**: it comes out of a phrase with the phrase, as far as
looser operators are concerned, and with what was waiting before. -/
theorem run_of_reads {k : Nat} {p : Phrase} (h : Reads k ts p) (outer : List (List Pending))
    {pending : List Pending} (hlooser : Looser k pending) :
    ∃ pending' p', (Reader.mk outer pending .before).run ts = some ⟨outer, pending', .after p'⟩ ∧
      ∀ m, k ≤ m → settle m pending' p' = settle m pending p := by
  induction h generalizing outer pending with
  | yes | no | nothing | null => exact ⟨pending, _, rfl, fun _ _ => rfl⟩
  | @parameter name =>
    refine ⟨pending, .parameter name, ?_, fun _ _ => rfl⟩
    rw [Reader.run_cons, step_parameter]
    rfl
  | column hcolumn => exact ⟨pending, _, run_of_readsColumn hcolumn, fun _ _ => rfl⟩
  | @group ts p _ ih =>
    -- nothing waits inside the parentheses, so the phrase is all there is when they close
    obtain ⟨pending', p', hrun, hsettle⟩ := ih (pending :: outer) (looser_nil 3)
    refine ⟨pending, p, ?_, fun _ _ => rfl⟩
    have hclosed : (settle 3 pending' p').2 = p := by rw [hsettle 3 (Nat.le_refl 3)]; rfl
    have hopened : (Reader.mk outer pending .before).step (.mark '(') =
      some ⟨pending :: outer, [], .before⟩ := rfl
    rw [List.cons_append, Reader.run_cons, hopened, Option.bind_some, Reader.run_append, hrun,
      ← hclosed]
    rfl
  | @negation ts p _ ih =>
    -- a level of no operator: whatever waits is looser
    have hlooser' : Looser 0 (.negation :: pending) := fun m hm hm' => by omega
    obtain ⟨pending', p', hrun, hsettle⟩ := ih outer hlooser'
    exact ⟨pending', p', hrun, hsettle⟩
  | @compound ts us p q op _ _ ihleft ihright =>
    obtain ⟨pending', p', hrun, hsettle⟩ := ihleft outer hlooser
    -- the operator finds its left side settled
    have hleft : settle op.level pending' p' = (pending, p) := by
      rw [hsettle _ (Nat.le_refl _), hlooser _ op.level_pos (Nat.le_refl _)]
    have hlooser' : Looser (op.level - 1) (.operand p op :: pending) :=
      looser_operand (Nat.sub_lt op.level_pos Nat.one_pos)
    obtain ⟨pending'', q', hrun', hsettle'⟩ := ihright outer hlooser'
    refine ⟨pending'', q', ?_, fun m hm => ?_⟩
    · rw [Reader.run_append, hrun, Option.bind_some, Reader.run_cons, step_operator, hleft]
      exact hrun'
    · rw [hsettle' m (Nat.le_trans (Nat.sub_le _ _) hm), settle, if_pos hm]
  | looser _ hle ih =>
    obtain ⟨pending', p', hrun, hsettle⟩ :=
      ih outer fun m hm hm' => hlooser m hm (Nat.le_trans hm' hle)
    exact ⟨pending', p', hrun, fun m hm => hsettle m (Nat.le_trans hle hm)⟩

/-- **A text is read as one phrase at most**. -/
theorem Reads.unique {k m : Nat} {p q : Phrase} (hp : Reads k ts p) (hq : Reads m ts q) :
    p = q := by
  obtain ⟨pending, p', hrun, hsettle⟩ := run_of_reads hp [] (looser_nil k)
  obtain ⟨pending', q', hrun', hsettle'⟩ := run_of_reads hq [] (looser_nil m)
  cases hrun.symm.trans hrun'
  have heq := (hsettle (max k m) (Nat.le_max_left _ _)).symm.trans
    (hsettle' (max k m) (Nat.le_max_right _ _))
  exact (Prod.mk.inj heq).2

end Signpost.Query
