import Signpost.Failure
import Signpost.Text.Duration

/-!
# Calls in time

A call takes a time, perhaps for ever, and then fails or gives a result.  Its caller may limit the
time, and may be told to give up at some moment.  Times are whole milliseconds, counted from the
start of the caller's own work.

## Main definitions

* `Course`: how a call goes when nobody interferes.
* `Cancel`: when a caller is told to give up.
* `guard`: how a call goes under a limit and a cancellation.
-/

namespace Signpost

/-- How a call goes when nobody interferes. -/
structure Course (α : Type) where
  /-- How long it takes; none is for ever. -/
  delay : Option Nat
  result : Except Failure α

/-- A call that has its result at once. -/
def Course.prompt {α : Type} (result : Except Failure α) : Course α := ⟨some 0, result⟩

/-- When a caller is told to give up. -/
inductive Cancel where
  | never
  /-- Before it begins. -/
  | already
  | after (ms : Nat)
deriving DecidableEq, Inhabited

/-- Whether a caller has been told to give up before a moment.  Whatever ends at the very moment
still ends by itself. -/
def Cancel.before (c : Cancel) (moment : Nat) : Bool :=
  match c with
  | .never => false
  | .already => true
  | .after ms => decide (ms < moment)

/-- The moment at which a caller gives up a call that began at `start`. -/
def Cancel.moment (c : Cancel) (start : Nat) : Option Nat :=
  match c with
  | .never => none
  | .already => some start
  | .after ms => some (max ms start)

/-- When a caller who may have given up a call is told to give up the next one. -/
def Cancel.afterGivingUp (c : Cancel) (gaveUp : Bool) : Cancel := if gaveUp then .already else c

/-- Why a call gives nothing to its caller. -/
inductive CallError where
  | cancelled
  | timedOut (limit : Nat)
  | failed (failure : Failure)
deriving DecidableEq

/-- A call error as a failure. -/
def CallError.toFailure : CallError → Failure
  | .cancelled => .root "call cancelled by caller"
  | .timedOut limit => .root ("call timed out after " ++ Text.duration limit)
  | .failed failure => failure

/-- A value and the moment at which it is there; without a moment it never is. -/
structure Timed (α : Type) where
  value : α
  ends : Option Nat

/-- How a call goes under a limit alone: its outcome and how long it takes. -/
def Course.within {α : Type} (course : Course α) (limit : Option Nat) :
    Except CallError α × Option Nat :=
  let own := (course.result.mapError .failed, course.delay)
  match limit with
  | none => own
  | some l =>
    match course.delay with
    | some d => if d ≤ l then own else (.error (.timedOut l), some l)
    | none => (.error (.timedOut l), some l)

/-- How a call that begins at `start` goes under a limit and a cancellation. -/
def guard {α : Type} (limit : Option Nat) (cancel : Cancel) (start : Nat) (course : Course α) :
    Timed (Except CallError α) :=
  let (outcome, lasts) := course.within limit
  match lasts with
  | some d =>
    if cancel.before (start + d) then ⟨.error .cancelled, cancel.moment start⟩
    else ⟨outcome, some (start + d)⟩
  | none => ⟨.error .cancelled, cancel.moment start⟩

end Signpost
