import Signpost.Filter.Expr

/-!
# Query conditions

A store that keeps definitions as documents is asked with a condition on the column `payload`.
Values enter a condition only through numbered parameters, never as text.

A document column has a value or nothing at all (`none` here), and the two differ from each other
and from null.  A member of an object is its value or nothing; a member of an array is the array of
its items' members; an item of an array is its value or nothing.

## Main definitions

* `Query.Condition`, `Condition.render`: a condition and its text.
* `Query.Condition.holds`: whether a document satisfies it.
* `Query.ofExpr?`: the condition of a filter expression, if each of its field paths can be written.
-/

namespace Signpost.Query

/-- One step of a column path. -/
inductive Step where
  /-- A member, by an identifier. -/
  | member (name : String)
  /-- An item, by the digits of its position. -/
  | item (digits : String)
deriving DecidableEq

/-- What a column is compared with. -/
inductive Operand where
  | parameter (n : Nat)
  /-- The value of a column that has none. -/
  | nothing
  | null
deriving DecidableEq

/-- A condition on the column `payload`. -/
inductive Condition where
  | constant (b : Bool)
  | equal (path : List Step) (operand : Operand)
  | unequal (path : List Step) (operand : Operand)
  | conjunction (conditions : List Condition)
  | disjunction (conditions : List Condition)
  | negation (condition : Condition)
deriving Inhabited

/-! ## Paths -/

/-- Whether a character may stand in an identifier. -/
def isNameChar (c : Char) : Bool := c.isAlphanum || c == '_'

/-- The step of one segment of a field path: an item for ASCII digits, a member for an ASCII
identifier, and otherwise none. -/
def Step.ofSegment? (segment : String) : Option Step :=
  let cs := segment.toList
  match cs with
  | [] => none
  | c :: _ =>
    if cs.all Char.isDigit then some (.item segment)
    else if cs.all isNameChar && !c.isDigit then some (.member segment)
    else none

/-- The column path of a field path. -/
def path? (field : String) : Option (List Step) := (Path.segments field).mapM Step.ofSegment?

/-- The text of a step. -/
def Step.render : Step → String
  | .member name => "." ++ name
  | .item digits => "[" ++ digits ++ "]"

/-- The text of a column path. -/
def renderPath (path : List Step) : String :=
  path.foldl (fun text step => text ++ step.render) "payload"

/-- The text of a field path as a column path. -/
def columnText? (field : String) : Option String := (path? field).map renderPath

/-! ## Text -/

/-- The name of a parameter. -/
def parameterName (n : Nat) : String := "p" ++ toString n

/-- The text of an operand. -/
def Operand.render : Operand → String
  | .parameter n => "$" ++ parameterName n
  | .nothing => "NONE"
  | .null => "NULL"

/-- Texts joined by a separator, in parentheses; a fixed text if there are none. -/
def group (separator empty : String) (parts : List String) : String :=
  match parts with
  | [] => empty
  | parts => "(" ++ String.intercalate separator parts ++ ")"

mutual

/-- The text of a condition. -/
def Condition.render : Condition → String
  | .constant true => "true"
  | .constant false => "false"
  | .equal path operand => renderPath path ++ " = " ++ operand.render
  | .unequal path operand => renderPath path ++ " != " ++ operand.render
  | .conjunction conditions => group " AND " "true" (renderAll conditions)
  | .disjunction conditions => group " OR " "false" (renderAll conditions)
  | .negation condition => "!(" ++ condition.render ++ ")"

/-- The texts of several conditions. -/
def renderAll : List Condition → List String
  | [] => []
  | c :: rest => c.render :: renderAll rest

end

/-! ## Meaning -/

/-- What a column path leads to: a JSON value, nothing, or an array in which some items may be
nothing. -/
inductive Column where
  | nothing
  | value (v : Json)
  | array (items : List Column)

mutual

/-- The member of a value that the query language selects. -/
def memberOf (name : String) : Json → Column
  | .object members =>
    match Json.lookup name members with
    | some v => .value v
    | none => .nothing
  | .array items => .array (membersOf name items)
  | _ => .nothing

/-- The members of the items of an array. -/
def membersOf (name : String) : List Json → List Column
  | [] => []
  | v :: rest => memberOf name v :: membersOf name rest

end

mutual

/-- The member of a column. -/
def Column.member (name : String) : Column → Column
  | .nothing => .nothing
  | .value v => memberOf name v
  | .array items => .array (Column.members name items)

/-- The members of several columns. -/
def Column.members (name : String) : List Column → List Column
  | [] => []
  | c :: rest => c.member name :: Column.members name rest

end

/-- The item of a column. -/
def Column.item (position : Nat) : Column → Column
  | .value (.array items) => match items[position]? with
    | some v => .value v
    | none => .nothing
  | .array items => items[position]?.getD .nothing
  | _ => .nothing

/-- One step into a column. -/
def Column.step (c : Column) : Step → Column
  | .member name => c.member name
  | .item digits => c.item (Path.digitsValue digits.toList)

/-- What a column path leads to in a document. -/
def column (doc : Json) (path : List Step) : Column := path.foldl Column.step (.value doc)

mutual

/-- Whether a column has a JSON value, numbers compared by value. -/
def Column.equals : Column → Json → Bool
  | .nothing, _ => false
  | .value v, w => v.agrees w
  | .array items, .array vs => Column.equalItems items vs
  | .array _, _ => false

/-- Whether columns have the values of a list, one by one. -/
def Column.equalItems : List Column → List Json → Bool
  | [], [] => true
  | c :: cs, v :: vs => c.equals v && Column.equalItems cs vs
  | _, _ => false

end

/-- Whether a column equals an operand; parameters have values. -/
def Operand.equals (values : List Json) (c : Column) : Operand → Bool
  | .parameter n => match values[n]? with
    | some v => c.equals v
    | none => false
  | .nothing => match c with
    | .nothing => true
    | _ => false
  | .null => match c with
    | .value .null => true
    | _ => false

mutual

/-- Whether a document satisfies a condition. -/
def Condition.holds (values : List Json) (doc : Json) : Condition → Bool
  | .constant b => b
  | .equal path operand => operand.equals values (column doc path)
  | .unequal path operand => !operand.equals values (column doc path)
  | .conjunction conditions => allHold values doc conditions
  | .disjunction conditions => anyHolds values doc conditions
  | .negation condition => !condition.holds values doc

/-- Whether a document satisfies every condition. -/
def allHold (values : List Json) (doc : Json) : List Condition → Bool
  | [] => true
  | c :: rest => c.holds values doc && allHold values doc rest

/-- Whether a document satisfies some condition. -/
def anyHolds (values : List Json) (doc : Json) : List Condition → Bool
  | [] => false
  | c :: rest => c.holds values doc || anyHolds values doc rest

end

/-! ## Conditions of filter expressions -/

open Signpost.Filter (Expr)

mutual

/-- The condition of an expression, whose parameters are numbered on from the values bound so far,
and the values with its own added; none if a field path cannot be written. -/
def translate (bound : List Json) : Expr → Option (Condition × List Json)
  | .all => some (.constant true, bound)
  | .eq field value => do
    let path ← path? field
    return (.equal path (.parameter bound.length), bound ++ [value])
  | .ne field value => do
    let path ← path? field
    return (.unequal path (.parameter bound.length), bound ++ [value])
  | .exists field => do
    let path ← path? field
    -- a column that has nothing differs from null, so both are excluded
    return (.conjunction [.unequal path .nothing, .unequal path .null], bound)
  | .and exprs => do
    let (conditions, bound) ← translateAll bound exprs
    return (.conjunction conditions, bound)
  | .or exprs => do
    let (conditions, bound) ← translateAll bound exprs
    return (.disjunction conditions, bound)
  | .not expr => do
    let (condition, bound) ← translate bound expr
    return (.negation condition, bound)

/-- The conditions of several expressions, from left to right. -/
def translateAll (bound : List Json) : List Expr → Option (List Condition × List Json)
  | [] => some ([], bound)
  | e :: rest => do
    let (condition, bound) ← translate bound e
    let (conditions, bound) ← translateAll bound rest
    return (condition :: conditions, bound)

end

/-- A condition with the values of its parameters. -/
structure Bound where
  condition : Condition
  values : List Json

/-- The condition of a filter expression. -/
def ofExpr? (e : Expr) : Option Bound := (translate [] e).map fun r => ⟨r.1, r.2⟩

/-- The parameters of a condition by name. -/
def Bound.parameters (b : Bound) : List (String × Json) :=
  b.values.mapIdx fun n v => (parameterName n, v)

/-- The JSON form of a condition: its text, and the names and values of its parameters. -/
def Bound.toJson (b : Bound) : Json :=
  .object [("condition", .string b.condition.render),
    ("binds", .array (b.parameters.map fun p => .array [.string p.1, p.2]))]

/-- Whether a document satisfies a condition with its parameters. -/
def Bound.holds (b : Bound) (doc : Json) : Bool := b.condition.holds b.values doc

end Signpost.Query
