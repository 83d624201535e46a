/-!
# Placeholders

A text may name values of the environment: a dollar sign and an opening brace begin a placeholder,
whose name runs to the next closing brace or to the end of the text.  A known name is replaced by
its value, which is not looked at again.  An unknown name stays, with its braces; one that the text
does not close is closed.

## Main definitions

* `Placeholder.expand`
-/

namespace Signpost.Placeholder

/-- A name up to the brace that closes it, and the text after that brace. -/
def splitName : List Char → List Char × List Char
  | [] => ([], [])
  | c :: rest =>
    if c = '}' then ([], rest)
    else
      let (name, after) := splitName rest
      (c :: name, after)

/-- The text after a name is no longer than the text with it. -/
theorem splitName_length (cs : List Char) : (splitName cs).2.length ≤ cs.length := by
  induction cs with
  | nil => simp [splitName]
  | cons c rest ih =>
    by_cases h : c = '}'
    · simp [splitName, h]
    · simp only [splitName, h, if_false, List.length_cons]; omega

/-- What a placeholder is replaced with. -/
def replacement (lookup : String → Option String) (name : List Char) : List Char :=
  match lookup (String.ofList name) with
  | some value => value.toList
  | none => '$' :: '{' :: name ++ ['}']

/-- A text with its placeholders replaced, from left to right, as characters. -/
def expandChars (lookup : String → Option String) : List Char → List Char
  | [] => []
  | '$' :: '{' :: rest =>
    have := splitName_length rest
    replacement lookup (splitName rest).1 ++ expandChars lookup (splitName rest).2
  | c :: rest => c :: expandChars lookup rest
termination_by cs => cs.length
decreasing_by all_goals simp only [List.length_cons] at *; omega

/-- A text with its placeholders replaced. -/
def expand (lookup : String → Option String) (text : String) : String :=
  String.ofList (expandChars lookup text.toList)

end Signpost.Placeholder
