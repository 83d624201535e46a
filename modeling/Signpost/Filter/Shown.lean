import Signpost.Filter.Expr
import Signpost.Json.Printer
import Signpost.Text.Quoted

/-!
# Expressions for reading

Expressions and the values in them are shown to a reader with the name of each alternative spelled
out and texts quoted.

## Main definitions

* `Json.shown`, `Filter.Expr.shown`
-/

namespace Signpost

/-- A list of texts with a comma and a blank between them. -/
def commaSeparated (parts : List String) : String := String.intercalate ", " parts

namespace Json

mutual

/-- A value for reading. -/
def shown : Json → String
  | .null => "Null"
  | .bool b => "Bool(" ++ toString b ++ ")"
  | .number n => "Number(" ++ String.ofList n.render ++ ")"
  | .string s => "String(" ++ Text.quoted s ++ ")"
  | .array items => "Array [" ++ commaSeparated (shownItems items) ++ "]"
  | .object members => "Object \x7b" ++ commaSeparated (shownMembers members) ++ "\x7d"

/-- Items for reading. -/
def shownItems : List Json → List String
  | [] => []
  | v :: rest => shown v :: shownItems rest

/-- Members for reading. -/
def shownMembers : List (String × Json) → List String
  | [] => []
  | (key, v) :: rest => (Text.quoted key ++ ": " ++ shown v) :: shownMembers rest

end

end Json

namespace Filter.Expr

mutual

/-- An expression for reading. -/
def shown : Expr → String
  | .all => "All"
  | .eq field value =>
    "Eq \x7b field: " ++ Text.quoted field ++ ", value: " ++ value.shown ++ " \x7d"
  | .ne field value =>
    "Ne \x7b field: " ++ Text.quoted field ++ ", value: " ++ value.shown ++ " \x7d"
  | .exists field => "Exists \x7b field: " ++ Text.quoted field ++ " \x7d"
  | .and exprs => "And([" ++ commaSeparated (shownAll exprs) ++ "])"
  | .or exprs => "Or([" ++ commaSeparated (shownAll exprs) ++ "])"
  | .not expr => "Not(" ++ shown expr ++ ")"

/-- Expressions for reading. -/
def shownAll : List Expr → List String
  | [] => []
  | e :: rest => shown e :: shownAll rest

end

end Filter.Expr

end Signpost
