import Signpost.Dict
import Signpost.Store.Basic

/-!
# Tables of records

A table keeps records by identifier, whatever their tags and definitions are, and may be out of
order, in which case it answers every question with its failure.

## Main definitions

* `RecordTable`, `RecordTable.put`, `RecordTable.store`
-/

namespace Signpost

/-- Records by identifier. -/
structure RecordTable (α : Type) where
  records : Dict Uuid (Record α)
  /-- What every question is answered with while it is there. -/
  failure : Option Failure

namespace RecordTable

variable {α : Type}

/-- The table without records. -/
def empty : RecordTable α := ⟨.empty, none⟩

instance : Inhabited (RecordTable α) := ⟨empty⟩

/-- Puts a record under its identifier. -/
def putRecord (t : RecordTable α) (r : Record α) : RecordTable α :=
  { t with records := t.records.put r.id r }

/-- Removes the record with an identifier; says whether it was there. -/
def delete (t : RecordTable α) (id : Uuid) : RecordTable α × Bool :=
  ({ t with records := t.records.erase id }, t.records.contains id)

/-- The records ordered by identifier. -/
def all (t : RecordTable α) : List (Record α) :=
  t.records.values.mergeSort fun r s => r.id.le s.id

/-- An answer, unless the table is out of order. -/
def answer {β : Type} (t : RecordTable α) (b : β) : Except Failure β :=
  match t.failure with
  | some f => .error f
  | none => .ok b

theorem answer_eq_ok {β : Type} {t : RecordTable α} {b b' : β} (h : t.answer b = .ok b') :
    b = b' := by
  unfold answer at h
  split at h <;> cases h
  rfl

variable [Definition α]

/-- Puts a definition. -/
def put (t : RecordTable α) (a : α) : RecordTable α := t.putRecord (.of a)

/-- What the table answers. -/
def store (t : RecordTable α) : Store α where
  get id := t.answer (t.records.get? id)
  getMany ids := t.answer (ids.filterMap t.records.get?)
  query f := t.answer (t.all.filter fun r => Definition.matches f r.payload)
  headers := t.answer (t.all.map Record.header)

end RecordTable

end Signpost
