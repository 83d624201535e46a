import Signpost.Filter.Shown

/-!
# Filters

A filter selects values of a type.  Either it is an expression on their JSON form, which a store can
evaluate on its own side, or it exists only as code.

## Main definitions

* `Filter`, `Filter.selects`, `Filter.expr?`, `Filter.shown`
-/

namespace Signpost

/-- A filter on values of a type. -/
inductive Filter (α : Type) where
  | expr (e : Filter.Expr)
  | code (predicate : α → Bool)

namespace Filter

/-- The filter that selects everything. -/
def all {α : Type} : Filter α := .expr .all

/-- Whether a value is selected, its JSON form being given by a function. -/
def selects {α : Type} (toJson : α → Json) : Filter α → α → Bool
  | .expr e, a => e.accepts (toJson a)
  | .code predicate, a => predicate a

/-- The expression of a filter that has one. -/
def expr? {α : Type} : Filter α → Option Expr
  | .expr e => some e
  | .code _ => none

/-- A filter for reading. -/
def shown {α : Type} : Filter α → String
  | .expr e => "Filter \x7b expr: Some(" ++ e.shown ++ "), .. \x7d"
  | .code _ => "Filter \x7b expr: None, .. \x7d"

end Filter

end Signpost
