/-!
# Failures with their contexts

A failure is what went wrong, with the contexts in which it went wrong around it, the outermost one
first.

## Main definitions

* `Failure`, `Failure.within`, `Failure.chain`
-/

namespace Signpost

/-- What went wrong, and the contexts around it. -/
structure Failure where
  /-- The outermost context, or the root if there is no context. -/
  outermost : String
  /-- The contexts within the outermost one, down to the root. -/
  inner : List String
deriving DecidableEq, Inhabited

namespace Failure

/-- A failure without contexts. -/
def root (text : String) : Failure := ⟨text, []⟩

/-- A failure with one more context around it. -/
def within (f : Failure) (context : String) : Failure := ⟨context, f.outermost :: f.inner⟩

/-- The failure of a list of contexts that ends with the root, which is empty if the list is. -/
def ofList : List String → Failure
  | [] => root ""
  | outermost :: inner => ⟨outermost, inner⟩

/-- All contexts and the root in one line. -/
def chain (f : Failure) : String := String.intercalate ": " (f.outermost :: f.inner)

@[simp] theorem chain_root (text : String) : (root text).chain = text := by simp [chain, root]

@[simp] theorem chain_within (f : Failure) (context : String) :
    (f.within context).chain = context ++ ": " ++ f.chain := by
  simp [chain, within]

end Failure

end Signpost
