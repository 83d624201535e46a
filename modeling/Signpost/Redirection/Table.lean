import Signpost.Redirection.Rule
import Signpost.Dict

/-!
# Rule tables

A rule table holds rules by identifier, and for every source the identifiers of its rules in the
order in which they came.  A rule enters only if no rule of its source conflicts with it.

## Main definitions

* `RuleTable`, `RuleTable.push`, `RuleTable.pushAll`, `RuleTable.remove`
* `RuleTable.all`: the rules ordered by identifier.
* `RuleTable.rulesFor`: the rules of a source in their order.

## Main results

* `RuleTable.push_cases`: a rule is passed over, put in, or refused.
* `RuleTable.idsFor_insert`, `RuleTable.idsFor_without`: what becomes of the lists.
-/

namespace Signpost.Redirection

/-- Rules by identifier, and identifiers by source. -/
structure RuleTable where
  rules : Dict Uuid Rule
  bySource : Dict String (List Uuid)

namespace RuleTable

/-- The table without rules. -/
def empty : RuleTable := ⟨.empty, .empty⟩

/-- The identifiers of the rules of a source. -/
def idsFor (t : RuleTable) (source : String) : List Uuid := (t.bySource.get? source).getD []

/-- The rules of a source, in the order in which they came. -/
def rulesFor (t : RuleTable) (source : String) : List Rule :=
  (t.idsFor source).filterMap t.rules.get?

/-- The rules ordered by identifier. -/
def all (t : RuleTable) : List Rule :=
  t.rules.values.mergeSort fun r s => r.id.le s.id

/-- The table with one more rule, which comes last among those of its source. -/
def insert (t : RuleTable) (rule : Rule) : RuleTable where
  rules := t.rules.put rule.id rule
  bySource := t.bySource.put rule.source (t.idsFor rule.source ++ [rule.id])

/-- Puts one rule in.  A rule whose identifier is there is passed over, and one that conflicts with
an earlier rule of its source is refused. -/
def push (t : RuleTable) (rule : Rule) : Except Error (RuleTable × Bool) :=
  if t.rules.contains rule.id then .ok (t, false)
  else
    match (t.rulesFor rule.source).find? fun existing => existing.conflictsWith rule with
    | some existing => .error (.conflict rule.id existing.id rule.source)
    | none => .ok (t.insert rule, true)

/-- Puts rules in one after another until one is refused; says whether any of them was new.  What
went in before the refused rule stays in. -/
def pushAll (t : RuleTable) : List Rule → Except Error Bool × RuleTable
  | [] => (.ok false, t)
  | rule :: rest =>
    match t.push rule with
    | .error e => (.error e, t)
    | .ok (t, changed) =>
      let (verdict, t) := t.pushAll rest
      (verdict.map (changed || ·), t)

/-- The table without a rule of a source.  A source without rules leaves no list behind. -/
def without (t : RuleTable) (id : Uuid) (source : String) : RuleTable where
  rules := t.rules.erase id
  bySource :=
    let ids := (t.idsFor source).filter fun other => decide (other ≠ id)
    match t.bySource.get? source with
    | none => t.bySource
    | some _ => if ids.isEmpty then t.bySource.erase source else t.bySource.put source ids

/-- Takes one rule out; says whether it was there. -/
def remove (t : RuleTable) (id : Uuid) : RuleTable × Bool :=
  match t.rules.get? id with
  | none => (t, false)
  | some rule => (t.without id rule.source, true)

/-- Takes rules out one after another; says whether any of them was there. -/
def removeAll (t : RuleTable) : List Uuid → RuleTable × Bool
  | [] => (t, false)
  | id :: rest =>
    let (t, changed) := t.remove id
    let (t, changed') := t.removeAll rest
    (t, changed || changed')

/-! ## Look-ups -/

@[simp] theorem get?_empty (id : Uuid) : empty.rules.get? id = none := rfl

@[simp] theorem idsFor_empty (source : String) : empty.idsFor source = [] := rfl

theorem contains_iff (t : RuleTable) (id : Uuid) :
    t.rules.contains id = true ↔ ∃ rule, t.rules.get? id = some rule := by
  rw [Dict.contains, Option.isSome_iff_exists]

theorem contains_eq_false_iff (t : RuleTable) (id : Uuid) :
    t.rules.contains id = false ↔ t.rules.get? id = none := by
  rw [Dict.contains, Option.isSome_eq_false_iff, Option.isNone_iff_eq_none]

theorem get?_insert (t : RuleTable) (rule : Rule) (id : Uuid) :
    (t.insert rule).rules.get? id = if id = rule.id then some rule else t.rules.get? id :=
  Dict.get?_put t.rules rule.id id rule

theorem idsFor_insert (t : RuleTable) (rule : Rule) (source : String) :
    (t.insert rule).idsFor source =
      if source = rule.source then t.idsFor source ++ [rule.id] else t.idsFor source := by
  simp only [idsFor, insert, Dict.get?_put]
  grind

theorem bySource_insert (t : RuleTable) (rule : Rule) (source : String) :
    (t.insert rule).bySource.get? source =
      if source = rule.source then some (t.idsFor source ++ [rule.id])
      else t.bySource.get? source := by
  simp only [insert, Dict.get?_put]
  grind

theorem get?_without (t : RuleTable) (id other : Uuid) (source : String) :
    (t.without id source).rules.get? other = if other = id then none else t.rules.get? other :=
  Dict.get?_erase t.rules id other

theorem bySource_without (t : RuleTable) (id : Uuid) (source s : String) :
    (t.without id source).bySource.get? s =
      if s = source then
        (t.bySource.get? s).bind fun ids =>
          let ids := ids.filter fun other => decide (other ≠ id)
          if ids.isEmpty then none else some ids
      else t.bySource.get? s := by
  cases h : t.bySource.get? source with
  | none => simp only [without, h]; split <;> simp_all
  | some ids =>
    have hids : t.idsFor source = ids := by simp [idsFor, h]
    simp only [without, h, hids]
    split
    -- the list was of this rule alone
    · next hempty =>
      rw [Dict.get?_erase]
      split
      · next hs => simp only [hs, h, Option.bind_some, hempty, if_true]
      · rfl
    · next hrest =>
      rw [Dict.get?_put]
      split
      · next hs => simp only [hs, h, Option.bind_some, hrest, if_false, Bool.false_eq_true]
      · rfl

theorem idsFor_without (t : RuleTable) (id : Uuid) (source s : String) :
    (t.without id source).idsFor s =
      if s = source then (t.idsFor s).filter fun other => decide (other ≠ id)
      else t.idsFor s := by
  rw [idsFor, bySource_without]
  split
  · cases h : t.bySource.get? s with
    | none => simp [idsFor, h]
    | some ids =>
      simp only [idsFor, h, Option.bind_some, Option.getD_some]
      split
      · next hempty => rw [List.isEmpty_iff.mp hempty, Option.getD_none]
      · rfl
  · rfl

/-! ## What a call does -/

/-- A rule is passed over, put in, or refused because of a rule of its source. -/
theorem push_cases (t : RuleTable) (rule : Rule) :
    ((∃ known, t.rules.get? rule.id = some known) ∧ t.push rule = .ok (t, false)) ∨
    (t.rules.get? rule.id = none ∧
      (∀ existing ∈ t.rulesFor rule.source, existing.conflictsWith rule = false) ∧
      t.push rule = .ok (t.insert rule, true)) ∨
    (t.rules.get? rule.id = none ∧
      ∃ existing ∈ t.rulesFor rule.source, existing.conflictsWith rule = true ∧
        t.push rule = .error (.conflict rule.id existing.id rule.source)) := by
  by_cases hknown : t.rules.contains rule.id = true
  · exact .inl ⟨(t.contains_iff rule.id).mp hknown, by simp [push, hknown]⟩
  · have hnew : t.rules.get? rule.id = none :=
      (t.contains_eq_false_iff rule.id).mp (by simpa using hknown)
    cases hfind : (t.rulesFor rule.source).find? fun existing => existing.conflictsWith rule with
    | none =>
      refine .inr (.inl ⟨hnew, fun existing hmem => ?_, by simp [push, hknown, hfind]⟩)
      simpa using List.find?_eq_none.mp hfind existing hmem
    | some existing =>
      have hconflict : existing.conflictsWith rule = true := by
        simpa using List.find?_some hfind
      exact .inr (.inr ⟨hnew, existing, List.mem_of_find?_eq_some hfind, hconflict,
        by simp [push, hknown, hfind]⟩)

/-- What the pushes of a list keep, if each of its rules does. -/
theorem pushAll_induction {P : RuleTable → Prop} {rules : List Rule}
    (hpush : ∀ t rule t' changed, P t → rule ∈ rules → t.push rule = .ok (t', changed) → P t')
    {t : RuleTable} (h : P t) : P (t.pushAll rules).2 := by
  induction rules generalizing t with
  | nil => exact h
  | cons rule rest ih =>
    rw [pushAll]
    cases hp : t.push rule with
    | error e => exact h
    | ok pushed =>
      exact ih (fun t r t' changed ht hr => hpush t r t' changed ht (List.mem_cons_of_mem _ hr))
        (hpush t rule _ _ h List.mem_cons_self hp)

/-- A rule is taken out if it is there. -/
theorem remove_cases (t : RuleTable) (id : Uuid) :
    (t.rules.get? id = none ∧ t.remove id = (t, false)) ∨
    ∃ rule, t.rules.get? id = some rule ∧ t.remove id = (t.without id rule.source, true) := by
  cases h : t.rules.get? id with
  | none => exact .inl ⟨rfl, by simp [remove, h]⟩
  | some rule => exact .inr ⟨rule, rfl, by simp [remove, h]⟩

/-- What the removals of a list keep, if each of them does. -/
theorem removeAll_induction {P : RuleTable → Prop} (hremove : ∀ t id, P t → P (t.remove id).1)
    (ids : List Uuid) {t : RuleTable} (h : P t) : P (t.removeAll ids).1 := by
  induction ids generalizing t with
  | nil => exact h
  | cons id rest ih => exact ih (hremove t id h)

end RuleTable

end Signpost.Redirection
