/-!
# Definition kinds

Definitions come in four kinds, which are always listed in one order.

## Main definitions

* `Kind`, `Kind.all`, `Kind.name`, `Kind.ofName?`
-/

namespace Signpost

/-- A kind of definition. -/
inductive Kind where
  | workflow
  | signal
  | trigger
  | boardTemplate
deriving DecidableEq, Repr, Inhabited

namespace Kind

/-- The kinds in their order. -/
def all : List Kind := [.workflow, .signal, .trigger, .boardTemplate]

theorem mem_all (k : Kind) : k ∈ all := by cases k <;> decide

/-- The name of a kind, in paths and in stored rows. -/
def name : Kind → String
  | .workflow => "workflow"
  | .signal => "signal"
  | .trigger => "trigger"
  | .boardTemplate => "board_template"

/-- The kind of a name. -/
def ofName? (name : String) : Option Kind := all.find? fun k => k.name == name

@[simp] theorem ofName?_name (k : Kind) : ofName? k.name = some k := by cases k <;> rfl

/-- The position of a kind in the list of all. -/
def position (k : Kind) : Nat := all.idxOf k

/-- What is said of a name that no kind has. -/
def unknownMessage (name : String) : String := "unknown definition kind '" ++ name ++ "'"

end Kind

end Signpost
