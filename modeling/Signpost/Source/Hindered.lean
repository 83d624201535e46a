import Signpost.Source.Basic

/-!
# Hindered sources

A hindered source answers late, never, or not at all: whatever it is asked first takes a time,
perhaps for ever, and may then fail instead of being answered by the source within.

## Main definitions

* `Hindrance`, `Hindered`
-/

namespace Signpost

/-- What stands between a source and its callers. -/
structure Hindrance where
  /-- The time that every call takes first; none is for ever. -/
  delay : Option Nat
  /-- What every call then fails with, while it is there. -/
  failure : Option Failure
deriving DecidableEq

/-- A source behind a hindrance. -/
structure Hindered (σ : Type) where
  hindrance : Hindrance
  inner : σ

namespace Hindered

variable {σ α : Type}

/-- A course after a time; one of the two that is for ever makes it for ever. -/
def delayed {β : Type} (delay : Option Nat) (course : Course β) : Course β :=
  ⟨match delay, course.delay with
    | some d, some d' => some (d + d')
    | _, _ => none,
    course.result⟩

/-- A call of the source within, as far as the hindrance lets it through. -/
def call {β : Type} (h : Hindered σ) (ask : σ → Reply σ β) : Reply (Hindered σ) β :=
  match h.hindrance.failure with
  | some f => ⟨⟨h.hindrance.delay, .error f⟩, h⟩
  | none =>
    let reply := ask h.inner
    ⟨delayed h.hindrance.delay reply.course, { h with inner := reply.after }⟩

instance [Source σ α] : Source (Hindered σ) α where
  name h := Source.name h.inner
  find id h := h.call (Source.find id)
  findMany ids h := h.call (Source.findMany ids)
  select f h := h.call (Source.select f)
  selectFirst f h := h.call (Source.selectFirst f)
  all h := h.call Source.all
  refresh h := h.call Source.refresh
  changes h := Source.changes h.inner

end Hindered

end Signpost
