import Signpost.Definition.Payload
import Signpost.Text.Blank

/-!
# Redirection rules

A redirection rule replaces a requested capability by another one, or keeps it and selects the
implementation registered under a class prefix.  A rule may be restricted to some of the calls by a
condition.  Two rules conflict when they apply to the same calls and disagree on the target.

## Main definitions

* `Redirection.Rule`, `Redirection.Target`, `Redirection.RouteCondition`, `Redirection.CallSite`
* `Rule.validate`: the first defect of a rule.
* `Rule.conflictsWith`, `Rule.appliesTo`
* `Redirection.Error` and its wording
-/

namespace Signpost.Redirection

open Json (Decoder)

/-- What a capability is replaced with. -/
inductive Target where
  /-- Another capability. -/
  | otherCapability (name : String)
  /-- The implementation of the same capability under a class prefix. -/
  | classPrefix (text : String)
deriving DecidableEq

/-- The text of a target. -/
def Target.text : Target → String
  | .otherCapability name => "capability:" ++ name
  | .classPrefix text => "class:" ++ text

/-- What is known of a call. -/
structure CallSite where
  /-- The key of the addressed actor. -/
  key : Option String
  /-- The class prefix that the caller asked for. -/
  classPrefix : Option String
deriving DecidableEq

/-- What restricts a rule to some calls. -/
inductive RouteCondition where
  /-- The key of the addressed actor starts with a text. -/
  | keyPrefix (text : String)
  /-- The caller asked for exactly this class prefix. -/
  | classPrefixEquals (text : String)
deriving DecidableEq

namespace RouteCondition

/-- Whether a call satisfies the condition. -/
def holds (c : RouteCondition) (site : CallSite) : Bool :=
  match c with
  | .keyPrefix text =>
    match site.key with
    | some key => text.toList.isPrefixOf key.toList
    | none => false
  | .classPrefixEquals text => site.classPrefix == some text

/-- The text in the condition. -/
def value : RouteCondition → String
  | .keyPrefix text => text
  | .classPrefixEquals text => text

end RouteCondition

/-- A redirection rule. -/
structure Rule where
  id : Uuid
  displayName : String
  source : String
  target : Target
  condition : Option RouteCondition
deriving DecidableEq

/-- What is wrong with a rule on its own. -/
inductive Defect where
  | emptySource
  | emptyTarget
  | redirectsToItself
  | emptyClassPrefix
  | emptyCondition
deriving DecidableEq

/-- The wording of a defect. -/
def Defect.message : Defect → String
  | .emptySource => "source capability is empty"
  | .emptyTarget => "target capability is empty"
  | .redirectsToItself => "rule redirects a capability to itself"
  | .emptyClassPrefix => "target class prefix is empty"
  | .emptyCondition => "condition value is empty"

/-- Why a change of the redirection table is refused. -/
inductive Error where
  /-- The rule is malformed on its own. -/
  | validation (rule : Uuid) (defect : Defect)
  /-- The rule overlaps another rule on its capability. -/
  | conflict (incoming existing : Uuid) (capability : String)
deriving DecidableEq

/-- The name of the kind of an error. -/
def Error.kind : Error → String
  | .validation _ _ => "validation"
  | .conflict _ _ _ => "conflict"

/-- The wording of an error. -/
def Error.message : Error → String
  | .validation rule defect =>
    "invalid redirection rule " ++ rule.toString ++ ": " ++ defect.message
  | .conflict incoming existing capability =>
    "redirection rule " ++ incoming.toString ++ " conflicts with rule " ++ existing.toString ++
      " on capability " ++ capability

namespace Rule

/-- A rule without a condition, named for its source and target. -/
def of (id : Uuid) (source : String) (target : Target) : Rule :=
  ⟨id, source ++ " -> " ++ target.text, source, target, none⟩

/-- The first defect of a rule, in the order source, target, condition. -/
def defect? (r : Rule) : Option Defect :=
  if Text.isBlank r.source then some .emptySource
  else
    let ofTarget : Option Defect := match r.target with
      | .otherCapability name =>
        if Text.isBlank name then some .emptyTarget
        else if name = r.source then some .redirectsToItself
        else none
      | .classPrefix text => if Text.isBlank text then some .emptyClassPrefix else none
    ofTarget.or <| match r.condition with
      -- a condition may be blank, for keys may begin with a blank, but not empty
      | some c => if c.value = "" then some .emptyCondition else none
      | none => none

/-- Refuses a rule that has a defect. -/
def validate (r : Rule) : Except Error Unit :=
  match r.defect? with
  | some defect => .error (.validation r.id defect)
  | none => .ok ()

/-- Same source, condition and target; identifiers and names do not matter. -/
def isEquivalent (r s : Rule) : Bool :=
  decide (r.source = s.source ∧ r.condition = s.condition ∧ r.target = s.target)

/-- The rules apply to the same calls but disagree on the target. -/
def conflictsWith (r s : Rule) : Bool :=
  !r.isEquivalent s && decide (r.source = s.source ∧ r.condition = s.condition)

/-- Whether a rule applies to a call of its source. -/
def appliesTo (r : Rule) (site : CallSite) : Bool :=
  match r.condition with
  | some c => c.holds site
  | none => true

/-- Conflicting rules have one source and one condition and different targets. -/
theorem conflictsWith_iff (r s : Rule) :
    r.conflictsWith s = true ↔
      r.source = s.source ∧ r.condition = s.condition ∧ r.target ≠ s.target := by
  simp only [conflictsWith, isEquivalent]
  grind

end Rule

/-! ## JSON form -/

/-- The JSON form of a target. -/
def Target.toJson : Target → Json
  | .otherCapability name => .object [("other_capability", .string name)]
  | .classPrefix text => .object [("class_prefix", .string text)]

/-- Decodes a target. -/
def Target.decode : Decoder Target :=
  Decoder.tagged fun
    | "other_capability" => some (.holding fun d => .otherCapability <$> Decoder.string d)
    | "class_prefix" => some (.holding fun d => .classPrefix <$> Decoder.string d)
    | _ => none

/-- The JSON form of a condition. -/
def RouteCondition.toJson : RouteCondition → Json
  | .keyPrefix text => .object [("key_prefix", .string text)]
  | .classPrefixEquals text => .object [("class_prefix_equals", .string text)]

/-- Decodes a condition. -/
def RouteCondition.decode : Decoder RouteCondition :=
  Decoder.tagged fun
    | "key_prefix" => some (.holding fun d => .keyPrefix <$> Decoder.string d)
    | "class_prefix_equals" => some (.holding fun d => .classPrefixEquals <$> Decoder.string d)
    | _ => none

/-- The JSON form of a rule; the condition is left out when there is none. -/
def Rule.toJson (r : Rule) : Json :=
  .object ([("id", r.id.toJson), ("display_name", .string r.displayName),
    ("source", .string r.source), ("target", r.target.toJson)] ++
    match r.condition with
    | some c => [("condition", c.toJson)]
    | none => [])

/-- Decodes a rule, whose name and condition may be missing. -/
def Rule.decode : Decoder Rule := fun d =>
  (fun r => ⟨r.1, r.2.1, r.2.2.1, r.2.2.2.1, r.2.2.2.2.1⟩) <$> Decoder.record
    (.required "id" Uuid.decode <| .defaulted "display_name" .string "" <|
      .required "source" .string <| .required "target" Target.decode <|
      .defaulted "condition" (Decoder.nullable RouteCondition.decode) none .nil) d

/-- Decodes a call site. -/
def CallSite.decode : Decoder CallSite := fun d =>
  (fun r => ⟨r.1, r.2.1⟩) <$> Decoder.record
    (.optional "key" .string <| .optional "class_prefix" .string .nil) d

end Signpost.Redirection
