import Signpost.Query.Condition

/-!
# What a condition is made from

A condition takes two things from its expression: the column paths, by which alone it is decided
whether there is a condition at all, and the number of the next parameter.  The values that are
compared with do not go into it; they are bound from left to right, and only their count does.

## Main definitions

* `Query.IsIdentifier`, `Query.IsIndex`: what a segment of a field path has to be.
* `Filter.Expr.values`: the values of an expression, from left to right.
* `Filter.Expr.blank`: an expression without its values.
* `Query.conditionFrom`: the condition of an expression, without its values.

## Main results

* `Query.ofExpr?_eq_none_iff`: when an expression has no condition.
* `Query.translate_eq`: conditions are made without the values.
* `Query.conditionFrom_blank`: expressions that differ in values only have the same condition.
-/

namespace Signpost

/-! ## Values -/

namespace Filter.Expr

mutual

/-- The values that an expression compares with, from left to right. -/
def values : Expr → List Json
  | .all | .exists _ => []
  | .eq _ value | .ne _ value => [value]
  | .and exprs | .or exprs => valuesOfAll exprs
  | .not e => values e

/-- The values that several expressions compare with, from left to right. -/
def valuesOfAll : List Expr → List Json
  | [] => []
  | e :: rest => values e ++ valuesOfAll rest

end

mutual

/-- The expression with null in the place of each of its values. -/
def blank : Expr → Expr
  | .all => .all
  | .eq field _ => .eq field .null
  | .ne field _ => .ne field .null
  | .exists field => .exists field
  | .and exprs => .and (blankAll exprs)
  | .or exprs => .or (blankAll exprs)
  | .not e => .not (blank e)

/-- Several expressions with null in the place of each of their values. -/
def blankAll : List Expr → List Expr
  | [] => []
  | e :: rest => blank e :: blankAll rest

end

mutual

theorem length_values_blank : ∀ e : Expr, e.blank.values.length = e.values.length
  | .all | .eq _ _ | .ne _ _ | .exists _ => rfl
  | .and es | .or es => length_valuesOfAll_blankAll es
  | .not e => length_values_blank e

theorem length_valuesOfAll_blankAll : ∀ es : List Expr,
    (valuesOfAll (blankAll es)).length = (valuesOfAll es).length
  | [] => rfl
  | e :: rest => by
    simp only [blankAll, valuesOfAll, List.length_append, length_values_blank e,
      length_valuesOfAll_blankAll rest]

end

end Filter.Expr

namespace Query

open Signpost.Filter (Expr)

/-! ## Segments -/

/-- A segment is made of ASCII digits. -/
def IsIndex (segment : String) : Prop :=
  segment.toList ≠ [] ∧ ∀ c ∈ segment.toList, c.isDigit = true

/-- A segment is made of ASCII letters, ASCII digits and underscores, with no digit in front. -/
def IsIdentifier (segment : String) : Prop :=
  ∃ first rest, segment.toList = first :: rest ∧ (first.isAlpha = true ∨ first = '_') ∧
    ∀ c ∈ rest, c.isAlphanum = true ∨ c = '_'

/-- A segment that can be written in a column path. -/
def Writable (segment : String) : Prop := IsIndex segment ∨ IsIdentifier segment

/-- The first character of an identifier is any of its characters but a digit. -/
theorem starts_identifier_iff (c : Char) :
    c.isAlpha = true ∨ c = '_' ↔ isNameChar c = true ∧ c.isDigit = false := by
  have hapart : c.isAlpha = true ∨ c = '_' → c.isDigit = false := by
    rintro (halpha | rfl)
    · delta Char.isAlpha Char.isUpper Char.isLower at halpha
      delta Char.isDigit
      grind
    · decide
  rw [isNameChar, Char.isAlphanum, Bool.or_eq_true, Bool.or_eq_true, beq_iff_eq]
  constructor
  · intro h
    exact ⟨h.imp_left .inl, hapart h⟩
  · rintro ⟨(halpha | hdigit) | hunderscore, hno⟩
    · exact .inl halpha
    · rw [hno] at hdigit
      cases hdigit
    · exact .inr hunderscore

theorem isIdentifier_iff {segment : String} {first : Char} {rest : List Char}
    (h : segment.toList = first :: rest) :
    IsIdentifier segment ↔ ((first :: rest).all isNameChar && !first.isDigit) = true := by
  have hrest : rest.all isNameChar = true ↔ ∀ c ∈ rest, c.isAlphanum = true ∨ c = '_' := by
    simp only [List.all_eq_true, isNameChar, Bool.or_eq_true, beq_iff_eq]
  rw [List.all_cons, Bool.and_eq_true, Bool.and_eq_true, Bool.not_eq_true', hrest, and_right_comm,
    ← starts_identifier_iff]
  constructor
  · rintro ⟨c, cs, heq, hstart⟩
    cases h.symm.trans heq
    exact hstart
  · exact fun hstart => ⟨first, rest, h, hstart⟩

/-- A segment is written as an item if it is an index, and as a member if it is an identifier. -/
theorem ofSegment?_eq_some_iff {segment : String} {s : Step} :
    Step.ofSegment? segment = some s ↔
      s = .item segment ∧ IsIndex segment ∨ s = .member segment ∧ IsIdentifier segment := by
  cases hsegment : segment.toList with
  | nil => simp [Step.ofSegment?, IsIndex, IsIdentifier, hsegment]
  | cons first rest =>
    rw [isIdentifier_iff hsegment, IsIndex, Step.ofSegment?, hsegment, ← List.all_eq_true]
    simp only [ne_eq, List.cons_ne_nil, not_false_eq_true, true_and]
    -- an identifier does not start with a digit
    have hapart : (first :: rest).all Char.isDigit = true →
        ((first :: rest).all isNameChar && !first.isDigit) = false := by
      intro hdigits
      rw [List.all_eq_true.mp hdigits first List.mem_cons_self, Bool.not_true, Bool.and_false]
    generalize (first :: rest).all Char.isDigit = index at hapart ⊢
    generalize ((first :: rest).all isNameChar && !first.isDigit) = identifier at hapart ⊢
    cases index <;> cases identifier <;> simp_all [eq_comm]

theorem ofSegment?_eq_none_iff {segment : String} :
    Step.ofSegment? segment = none ↔ ¬ Writable segment := by
  rw [Option.eq_none_iff_forall_ne_some]
  constructor
  · rintro h (hindex | hident)
    · exact h _ (ofSegment?_eq_some_iff.mpr (.inl ⟨rfl, hindex⟩))
    · exact h _ (ofSegment?_eq_some_iff.mpr (.inr ⟨rfl, hident⟩))
  · intro h s hs
    rcases ofSegment?_eq_some_iff.mp hs with ⟨-, hindex⟩ | ⟨-, hident⟩
    · exact h (.inl hindex)
    · exact h (.inr hident)

/-! ## Paths -/

/-- The segment that a step is made from. -/
def Step.segment : Step → String
  | .member name => name
  | .item digits => digits

/-- A step that some segment is written as. -/
def Step.Written : Step → Prop
  | .member name => IsIdentifier name
  | .item digits => IsIndex digits

/-- A field path has no column path exactly if it has a segment that cannot be written. -/
theorem path?_eq_none_iff {field : String} :
    path? field = none ↔ ∃ segment ∈ Path.segments field, ¬ Writable segment := by
  unfold path?
  induction Path.segments field with
  | nil => simp
  | cons segment rest ih =>
    rw [List.mapM_cons]
    simp only [List.mem_cons, or_and_right, exists_or, exists_eq_left]
    rw [← ih, ← ofSegment?_eq_none_iff]
    cases Step.ofSegment? segment <;> cases rest.mapM Step.ofSegment? <;> simp

theorem segments_of_path? {field : String} {path : List Step} (h : path? field = some path) :
    path.map Step.segment = Path.segments field ∧ ∀ s ∈ path, s.Written := by
  unfold path? at h
  generalize Path.segments field = segments at h ⊢
  induction segments generalizing path with
  | nil =>
    cases h
    exact ⟨rfl, nofun⟩
  | cons segment rest ih =>
    rw [List.mapM_cons] at h
    obtain ⟨s, hs, hrest⟩ := Option.bind_eq_some_iff.mp h
    obtain ⟨steps, hsteps, heq⟩ := Option.bind_eq_some_iff.mp hrest
    cases heq
    obtain ⟨hsegments, hwritten⟩ := ih hsteps
    rw [List.map_cons, hsegments, List.forall_mem_cons]
    rcases ofSegment?_eq_some_iff.mp hs with ⟨rfl, hindex⟩ | ⟨rfl, hident⟩
    · exact ⟨rfl, hindex, hwritten⟩
    · exact ⟨rfl, hident, hwritten⟩

/-! ## Conditions without values -/

mutual

/-- The condition of an expression whose parameters are numbered on from a number. -/
def conditionFrom (n : Nat) : Expr → Option Condition
  | .all => some (.constant true)
  | .eq field _ => (path? field).map fun path => .equal path (.parameter n)
  | .ne field _ => (path? field).map fun path => .unequal path (.parameter n)
  | .exists field => (path? field).map fun path =>
      .conjunction [.unequal path .nothing, .unequal path .null]
  | .and exprs => (conditionsFrom n exprs).map .conjunction
  | .or exprs => (conditionsFrom n exprs).map .disjunction
  | .not e => (conditionFrom n e).map .negation

/-- The conditions of several expressions whose parameters are numbered on from a number. -/
def conditionsFrom (n : Nat) : List Expr → Option (List Condition)
  | [] => some []
  | e :: rest => do
    let c ← conditionFrom n e
    let cs ← conditionsFrom (n + e.values.length) rest
    return c :: cs

end

theorem conditionsFrom_cons {n : Nat} {e : Expr} {rest : List Expr} {cs : List Condition}
    (h : conditionsFrom n (e :: rest) = some cs) :
    ∃ c cs', conditionFrom n e = some c ∧ conditionsFrom (n + e.values.length) rest = some cs' ∧
      cs = c :: cs' := by
  obtain ⟨c, hc, hothers⟩ := Option.bind_eq_some_iff.mp h
  obtain ⟨cs', hcs', heq⟩ := Option.bind_eq_some_iff.mp hothers
  exact ⟨c, cs', hc, hcs', (Option.some.inj heq).symm⟩

mutual

/-- A condition is made without the values, which are bound beside it. -/
theorem translate_eq : ∀ (e : Expr) (bound : List Json),
    translate bound e =
      (conditionFrom bound.length e).map fun c => (c, bound ++ e.values)
  | .all, bound => by simp [translate, conditionFrom, Expr.values]
  | .eq field value, bound | .ne field value, bound => by
    rw [translate, conditionFrom]
    cases path? field <;> rfl
  | .exists field, bound => by
    rw [translate, conditionFrom]
    cases path? field with
    | none => rfl
    | some path => simp [Expr.values]
  | .and es, bound | .or es, bound => by
    rw [translate, conditionFrom, translateAll_eq es bound, Expr.values]
    cases conditionsFrom bound.length es <;> rfl
  | .not e, bound => by
    rw [translate, conditionFrom, translate_eq e bound, Expr.values]
    cases conditionFrom bound.length e <;> rfl

theorem translateAll_eq : ∀ (es : List Expr) (bound : List Json),
    translateAll bound es =
      (conditionsFrom bound.length es).map fun cs => (cs, bound ++ Expr.valuesOfAll es)
  | [], bound => by simp [translateAll, conditionsFrom, Expr.valuesOfAll]
  | e :: rest, bound => by
    rw [translateAll, conditionsFrom, translate_eq e bound]
    cases conditionFrom bound.length e with
    | none => rfl
    | some c =>
      -- the parameters of the rest are numbered on from those of the first
      simp only [Option.map_some, Option.bind_eq_bind, Option.bind_some]
      rw [translateAll_eq rest, List.length_append]
      cases conditionsFrom (bound.length + e.values.length) rest with
      | none => rfl
      | some cs => simp [Expr.valuesOfAll]

end

theorem ofExpr?_eq (e : Expr) : ofExpr? e = (conditionFrom 0 e).map fun c => ⟨c, e.values⟩ := by
  rw [ofExpr?, translate_eq, Option.map_map]
  rfl

theorem ofExpr?_eq_some_iff {e : Expr} {b : Bound} :
    ofExpr? e = some b ↔ conditionFrom 0 e = some b.condition ∧ b.values = e.values := by
  rw [ofExpr?_eq, Option.map_eq_some_iff]
  constructor
  · rintro ⟨c, hc, rfl⟩
    exact ⟨hc, rfl⟩
  · rintro ⟨hc, hvalues⟩
    exact ⟨b.condition, hc, by rw [← hvalues]⟩

/-! ## When there is a condition -/

mutual

theorem conditionFrom_eq_none_iff : ∀ (e : Expr) (n : Nat),
    conditionFrom n e = none ↔ ∃ field ∈ e.fields, path? field = none
  | .all, n => by simp [conditionFrom, Expr.fields]
  | .eq field _, n | .ne field _, n | .exists field, n => by simp [conditionFrom, Expr.fields]
  | .and es, n | .or es, n => by
    rw [conditionFrom, Option.map_eq_none_iff, Expr.fields, conditionsFrom_eq_none_iff es n]
  | .not e, n => by
    rw [conditionFrom, Option.map_eq_none_iff, Expr.fields, conditionFrom_eq_none_iff e n]

theorem conditionsFrom_eq_none_iff : ∀ (es : List Expr) (n : Nat),
    conditionsFrom n es = none ↔ ∃ field ∈ Expr.fieldsOfAll es, path? field = none
  | [], n => by simp [conditionsFrom, Expr.fieldsOfAll]
  | e :: rest, n => by
    simp only [Expr.fieldsOfAll, List.mem_append, or_and_right, exists_or]
    rw [← conditionFrom_eq_none_iff e n,
      ← conditionsFrom_eq_none_iff rest (n + e.values.length), conditionsFrom]
    cases conditionFrom n e <;>
      cases conditionsFrom (n + e.values.length) rest <;> simp

end

/-- **There is no condition exactly if some field path cannot be written**. -/
theorem ofExpr?_eq_none_iff (e : Expr) :
    ofExpr? e = none ↔
      ∃ field ∈ e.fields, ∃ segment ∈ Path.segments field, ¬ Writable segment := by
  simp only [ofExpr?_eq, Option.map_eq_none_iff, conditionFrom_eq_none_iff, path?_eq_none_iff]

/-! ## Without values -/

mutual

/-- The values make no difference to a condition. -/
theorem conditionFrom_blank : ∀ (e : Expr) (n : Nat),
    conditionFrom n e.blank = conditionFrom n e
  | .all, _ | .eq _ _, _ | .ne _ _, _ | .exists _, _ => rfl
  | .and es, n | .or es, n => by
    rw [Expr.blank, conditionFrom, conditionFrom, conditionsFrom_blankAll es n]
  | .not e, n => by
    rw [Expr.blank, conditionFrom, conditionFrom, conditionFrom_blank e n]

theorem conditionsFrom_blankAll : ∀ (es : List Expr) (n : Nat),
    conditionsFrom n (Expr.blankAll es) = conditionsFrom n es
  | [], _ => rfl
  | e :: rest, n => by
    rw [Expr.blankAll, conditionsFrom, conditionsFrom, conditionFrom_blank e n,
      Expr.length_values_blank, conditionsFrom_blankAll rest]

end

/-- Expressions that differ in values only have the same condition, or none of them has one. -/
theorem condition_eq_of_blank_eq {e e' : Expr} (h : e'.blank = e.blank) :
    (ofExpr? e').map Bound.condition = (ofExpr? e).map Bound.condition := by
  have hcondition : conditionFrom 0 e' = conditionFrom 0 e := by
    rw [← conditionFrom_blank e', h, conditionFrom_blank]
  rw [ofExpr?_eq, ofExpr?_eq, Option.map_map, Option.map_map, hcondition]
  rfl

end Query

end Signpost
