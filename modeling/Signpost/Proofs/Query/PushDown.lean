import Mathlib.Data.List.Forall2
import Signpost.Proofs.Definition.Form
import Signpost.Query.Condition

/-!
# Expressions as conditions

A filter expression and the condition that it is pushed down as need not say the same of a
document.  The two read a field path differently where it goes into an array by a name: the
expression finds nothing there, the condition an array.  A path is straight in a document if it does
not do so, as any path that leads somewhere, and along straight paths the two are the same.  So an
expression that is accepted has a condition that holds, unless it is accepted because a comparison
fails: what counts is that those comparisons are made along straight paths.

## Main definitions

* `Path.Straight`: a path enters arrays by positions only.
* `Filter.Expr.denied`: the fields of comparisons that have to fail.
* `Query.Reflects`: a condition against the expression that it is made from.

## Main results

* `Query.column_eq_of_straight`: what a column path leads to along a straight path.
* `Query.reflects_translate`: the condition of every expression reflects it.
* `Query.holds_of_accepts`
-/

namespace Signpost

/-! ## Straight paths -/

namespace Path

variable {v w : Json} {segment : String} {segments : List String}

/-- A path enters arrays by positions only. -/
def Straight : Json → List String → Prop
  | _, [] => True
  | v, segment :: rest =>
    (∀ items, v = .array items → (position? segment).isSome = true) ∧
      ∀ w, step v segment = some w → Straight w rest

/-- A path that leads somewhere is straight. -/
theorem straight_of_foldlM (h : segments.foldlM step v = some w) : Straight v segments := by
  induction segments generalizing v with
  | nil => trivial
  | cons segment rest ih =>
    obtain ⟨next, hnext, hrest⟩ := Option.bind_eq_some_iff.mp h
    refine ⟨fun items hitems => ?_, fun w' hw' => ?_⟩
    · subst hitems
      obtain ⟨i, hi, -⟩ := Option.bind_eq_some_iff.mp hnext
      rw [hi]
      rfl
    · cases hnext.symm.trans hw'
      exact ih hrest

theorem straight_of_find? {field : String} (h : find? v field = some w) :
    Straight v (Path.segments field) :=
  straight_of_foldlM h

/-- A segment of digits has their value for its position, if that is not too large. -/
theorem position?_of_isDigits {i : Nat} (hdigits : Text.isDigits segment = true)
    (h : position? segment = some i) : i = digitsValue segment.toList := by
  unfold position? at h
  unfold Text.isDigits at hdigits
  split at h
  · next ds hplus =>
    rw [hplus] at hdigits
    simp at hdigits
  · dsimp only at h
    split at h
    · cases h
    · split at h
      · exact (Option.some.inj h).symm
      · cases h

/-- A step leads to a part of a value, whose names are words where the value's are. -/
theorem worded_of_step (hworded : v.Worded) (h : step v segment = some w) : w.Worded := by
  cases hworded with
  | null | bool | number | string => cases h
  | array each =>
    obtain ⟨i, -, hitem⟩ := Option.bind_eq_some_iff.mp h
    exact each w (List.mem_of_getElem? hitem)
  | object names each => exact each w (List.mem_map_of_mem (Json.mem_of_lookup h))

end Path

namespace Query

open Signpost.Filter (Expr)

variable {doc v : Json} {segment field : String} {path : List Step} {s : Step}

/-! ## Columns along straight paths -/

/-- The column of a value that may be missing. -/
def Column.ofOption : Option Json → Column
  | some v => .value v
  | none => .nothing

theorem foldl_step_nothing (path : List Step) : path.foldl Column.step .nothing = .nothing := by
  induction path with
  | nil => rfl
  | cons s rest ih => cases s <;> exact ih

/-- A segment is written as an item if it is made of digits, and else as a member, for which it is
no position. -/
theorem ofSegment?_cases (h : Step.ofSegment? segment = some s) :
    (Text.isDigits segment = true ∧ s = .item segment) ∨
      (s = .member segment ∧ Path.position? segment = none) := by
  unfold Step.ofSegment? at h
  dsimp only at h
  split at h
  · cases h
  · next c cs hcs =>
    split at h
    · next hdigits => exact .inl ⟨hdigits, (Option.some.inj h).symm⟩
    · split at h
      · next hname =>
        refine .inr ⟨(Option.some.inj h).symm, ?_⟩
        obtain ⟨hchars, hfirst⟩ := Bool.and_eq_true_iff.mp hname
        rw [hcs, List.all_cons, Bool.and_eq_true_iff] at hchars
        unfold Path.position?
        rw [hcs]
        split
        · next hplus =>
          cases hplus
          exact absurd hchars.1 (by decide)
        · simp only [List.all_cons]
          simp_all
      · cases h

/-- One step along a straight path. -/
theorem step_value (hworded : v.Worded) (hsegment : Step.ofSegment? segment = some s)
    (harray : ∀ items, v = .array items → (Path.position? segment).isSome = true) :
    Column.step (.value v) s = .ofOption (Path.step v segment) := by
  rcases ofSegment?_cases hsegment with ⟨hdigits, rfl⟩ | ⟨rfl, hposition⟩
  · cases hworded with
    | null | bool | number | string => rfl
    | array each =>
      obtain ⟨i, hi⟩ := Option.isSome_iff_exists.mp (harray _ rfl)
      have hvalue := Path.position?_of_isDigits hdigits hi
      simp only [Column.step, Column.item, Path.step, hi, Option.bind_some, ← hvalue]
      rfl
    -- an object has no item, and no member of such a name
    | @object members names each =>
      have hnone : Json.lookup segment members = none := by
        refine Option.eq_none_iff_forall_ne_some.mpr fun w hw => ?_
        have hmem := List.mem_map_of_mem (f := Prod.fst) (Json.mem_of_lookup hw)
        have hword := List.any_eq_false.mp names _ hmem
        exact hword hdigits
      simp only [Column.step, Column.item, Path.step, hnone]
      rfl
  · cases hworded with
    | null | bool | number | string => rfl
    -- this is where the two differ: a straight path does not ask an array for a member
    | array each =>
      have hsome := harray _ rfl
      rw [hposition] at hsome
      cases hsome
    | @object members names each =>
      show memberOf segment (.object members) = _
      rw [memberOf, Path.step]
      cases Json.lookup segment members <;> rfl

/-- **A column path leads to what a straight path leads to**. -/
theorem column_eq_of_straight {segments : List String} (hworded : doc.Worded)
    (hpath : segments.mapM Step.ofSegment? = some path) (hstraight : Path.Straight doc segments) :
    path.foldl Column.step (.value doc) = .ofOption (segments.foldlM Path.step doc) := by
  induction segments generalizing doc path with
  | nil =>
    cases hpath
    rfl
  | cons segment rest ih =>
    rw [List.mapM_cons] at hpath
    obtain ⟨s, hs, hrest⟩ := Option.bind_eq_some_iff.mp hpath
    obtain ⟨steps, hsteps, heq⟩ := Option.bind_eq_some_iff.mp hrest
    cases heq
    obtain ⟨harray, hnext⟩ := hstraight
    rw [List.foldl_cons, step_value hworded hs harray, List.foldlM_cons]
    cases hstep : Path.step doc segment with
    | none => exact foldl_step_nothing steps
    | some w => exact ih (Path.worded_of_step hworded hstep) hsteps (hnext w hstep)

theorem column_eq (hworded : doc.Worded) (hpath : path? field = some path)
    (hstraight : Path.Straight doc (Path.segments field)) :
    column doc path = .ofOption (Path.find? doc field) :=
  column_eq_of_straight hworded hpath hstraight

/-! ## Comparisons -/

variable {values : List Json} {value : Json} {n : Nat}

/-- Along a straight path a condition compares as an expression does. -/
theorem equals_parameter (hworded : doc.Worded) (hpath : path? field = some path)
    (hvalue : values[n]? = some value)
    (hstraight : Path.Straight doc (Path.segments field)) :
    (Operand.parameter n).equals values (column doc path) = Expr.holdsValue doc field value := by
  rw [column_eq hworded hpath hstraight, Operand.equals, hvalue, Expr.holdsValue]
  cases Path.find? doc field <;> rfl

theorem allHold_exists (hworded : doc.Worded) (hpath : path? field = some path)
    (hstraight : Path.Straight doc (Path.segments field)) :
    allHold values doc [.unequal path .nothing, .unequal path .null] =
      Expr.holdsSome doc field := by
  simp only [allHold, Condition.holds, Bool.and_true]
  rw [column_eq hworded hpath hstraight, Expr.holdsSome]
  cases Path.find? doc field with
  | none => rfl
  | some v => cases v <;> rfl

theorem straight_of_holdsValue (h : Expr.holdsValue doc field value = true) :
    Path.Straight doc (Path.segments field) := by
  unfold Expr.holdsValue at h
  split at h
  · next hfind => exact Path.straight_of_find? hfind
  · cases h

theorem straight_of_holdsSome (h : Expr.holdsSome doc field = true) :
    Path.Straight doc (Path.segments field) := by
  unfold Expr.holdsSome at h
  split at h
  · cases h
  · next hfind => exact Path.straight_of_find? hfind
  · cases h

end Query

/-! ## Expressions -/

namespace Filter.Expr

mutual

/-- The fields of the comparisons that have to fail for an expression to be accepted, or, if it is
negated, for it not to be. -/
def denied (negated : Bool) : Expr → List String
  | .all => []
  | .eq field _ | .exists field => if negated then [field] else []
  | .ne field _ => if negated then [] else [field]
  | .and exprs | .or exprs => deniedByAll negated exprs
  | .not e => denied (!negated) e

/-- The fields of the comparisons that have to fail in several expressions. -/
def deniedByAll (negated : Bool) : List Expr → List String
  | [] => []
  | e :: rest => denied negated e ++ deniedByAll negated rest

end

end Filter.Expr

namespace Query

open Signpost.Filter (Expr)

variable {doc : Json} {values : List Json} {e : Expr} {c : Condition} {es : List Expr}
  {cs : List Condition}

/-- A condition reflects the expression that it is made from: it says the same of a document, each
way as far as the paths of comparisons that have to fail are straight. -/
structure Reflects (values : List Json) (doc : Json) (e : Expr) (c : Condition) : Prop where
  complete : (∀ field ∈ e.denied false, Path.Straight doc (Path.segments field)) →
    e.accepts doc = true → c.holds values doc = true
  sound : (∀ field ∈ e.denied true, Path.Straight doc (Path.segments field)) →
    c.holds values doc = true → e.accepts doc = true

namespace Reflects

/-- A comparison with a parameter, which has the value. -/
theorem comparison {field : String} {value : Json} {path : List Step} {n : Nat}
    (hworded : doc.Worded) (hpath : path? field = some path) (hvalue : values[n]? = some value) :
    Reflects values doc (.eq field value) (.equal path (.parameter n)) where
  -- a path that leads to the value is straight by itself
  complete _ haccepts :=
    (equals_parameter hworded hpath hvalue (straight_of_holdsValue haccepts)).trans haccepts
  sound hstraight hholds :=
    (equals_parameter hworded hpath hvalue
      (hstraight field (List.mem_singleton_self field))).symm.trans hholds

theorem existence {field : String} {path : List Step} (hworded : doc.Worded)
    (hpath : path? field = some path) :
    Reflects values doc (.exists field)
      (.conjunction [.unequal path .nothing, .unequal path .null]) where
  complete _ haccepts :=
    (allHold_exists hworded hpath (straight_of_holdsSome haccepts)).trans haccepts
  sound hstraight hholds :=
    (allHold_exists hworded hpath
      (hstraight field (List.mem_singleton_self field))).symm.trans hholds

theorem negation (h : Reflects values doc e c) : Reflects values doc (.not e) (.negation c) where
  complete hstraight haccepts := by
    rw [Expr.denied] at hstraight
    rw [Expr.accepts] at haccepts
    rw [Condition.holds, Bool.not_eq_true', ← Bool.not_eq_true]
    intro hholds
    rw [h.sound hstraight hholds] at haccepts
    cases haccepts
  sound hstraight hholds := by
    rw [Expr.denied] at hstraight
    rw [Condition.holds] at hholds
    rw [Expr.accepts, Bool.not_eq_true', ← Bool.not_eq_true]
    intro haccepts
    rw [h.complete hstraight haccepts] at hholds
    cases hholds

/-- Conjunctions reflect each other where their parts do. -/
theorem conjunction (h : List.Forall₂ (Reflects values doc) es cs) :
    Reflects values doc (.and es) (.conjunction cs) := by
  -- induction over the parts, both ways at once
  have hparts : ((∀ field ∈ Expr.deniedByAll false es, Path.Straight doc (Path.segments field)) →
        Expr.allAccept doc es = true → allHold values doc cs = true) ∧
      ((∀ field ∈ Expr.deniedByAll true es, Path.Straight doc (Path.segments field)) →
        allHold values doc cs = true → Expr.allAccept doc es = true) := by
    induction h with
    | nil => exact ⟨fun _ _ => rfl, fun _ _ => rfl⟩
    | cons hfirst _ ih =>
      simp only [Expr.deniedByAll, Expr.allAccept, allHold, List.forall_mem_append,
        Bool.and_eq_true]
      exact ⟨fun hstraight hall => ⟨hfirst.complete hstraight.1 hall.1, ih.1 hstraight.2 hall.2⟩,
        fun hstraight hall => ⟨hfirst.sound hstraight.1 hall.1, ih.2 hstraight.2 hall.2⟩⟩
  exact ⟨hparts.1, hparts.2⟩

/-- Disjunctions reflect each other where their parts do. -/
theorem disjunction (h : List.Forall₂ (Reflects values doc) es cs) :
    Reflects values doc (.or es) (.disjunction cs) := by
  have hparts : ((∀ field ∈ Expr.deniedByAll false es, Path.Straight doc (Path.segments field)) →
        Expr.anyAccepts doc es = true → anyHolds values doc cs = true) ∧
      ((∀ field ∈ Expr.deniedByAll true es, Path.Straight doc (Path.segments field)) →
        anyHolds values doc cs = true → Expr.anyAccepts doc es = true) := by
    induction h with
    | nil => exact ⟨nofun, nofun⟩
    | cons hfirst _ ih =>
      simp only [Expr.deniedByAll, Expr.anyAccepts, anyHolds, List.forall_mem_append,
        Bool.or_eq_true]
      exact ⟨fun hstraight => Or.imp (hfirst.complete hstraight.1) (ih.1 hstraight.2),
        fun hstraight => Or.imp (hfirst.sound hstraight.1) (ih.2 hstraight.2)⟩
  exact ⟨hparts.1, hparts.2⟩

end Reflects

/-! ## Conditions of expressions -/

mutual

/-- The values of an expression come after those that are bound already. -/
theorem translate_extends : ∀ {e : Expr} {c : Condition} {bound bound' : List Json},
    translate bound e = some (c, bound') → bound <+: bound'
  | .all, c, bound, bound', h => by
    cases h
    exact List.prefix_rfl
  | .eq field value, c, bound, bound', h | .ne field value, c, bound, bound', h => by
    obtain ⟨path, -, heq⟩ := Option.bind_eq_some_iff.mp h
    cases heq
    exact List.prefix_append _ _
  | .exists field, c, bound, bound', h => by
    obtain ⟨path, -, heq⟩ := Option.bind_eq_some_iff.mp h
    cases heq
    exact List.prefix_rfl
  | .and es, c, bound, bound', h | .or es, c, bound, bound', h => by
    obtain ⟨⟨cs, bound''⟩, hall, heq⟩ := Option.bind_eq_some_iff.mp h
    cases heq
    exact translateAll_extends hall
  | .not e, c, bound, bound', h => by
    obtain ⟨⟨c', bound''⟩, hinner, heq⟩ := Option.bind_eq_some_iff.mp h
    cases heq
    exact translate_extends hinner

theorem translateAll_extends : ∀ {es : List Expr} {cs : List Condition}
    {bound bound' : List Json}, translateAll bound es = some (cs, bound') → bound <+: bound'
  | [], cs, bound, bound', h => by
    cases h
    exact List.prefix_rfl
  | e :: rest, cs, bound, bound', h => by
    obtain ⟨⟨c, middle⟩, hfirst, hothers⟩ := Option.bind_eq_some_iff.mp h
    obtain ⟨⟨cs', bound''⟩, hrest, heq⟩ := Option.bind_eq_some_iff.mp hothers
    cases heq
    exact (translate_extends hfirst).trans (translateAll_extends hrest)

end

/-- A value that has been bound stays the value of its parameter. -/
theorem getElem?_of_extends {bound : List Json} {value : Json} (h : bound ++ [value] <+: values) :
    values[bound.length]? = some value := by
  obtain ⟨more, rfl⟩ := h
  simp

mutual

/-- **The condition of an expression reflects it**, as long as its parameters have their values. -/
theorem reflects_translate (hworded : doc.Worded) : ∀ {e : Expr} {c : Condition}
    {bound bound' : List Json}, translate bound e = some (c, bound') → bound' <+: values →
      Reflects values doc e c
  | .all, c, bound, bound', h, _ => by
    cases h
    exact ⟨fun _ _ => rfl, fun _ _ => rfl⟩
  | .eq field value, c, bound, bound', h, hvalues => by
    obtain ⟨path, hpath, heq⟩ := Option.bind_eq_some_iff.mp h
    cases heq
    exact .comparison hworded hpath (getElem?_of_extends hvalues)
  -- an inequality is the negation of a comparison on both sides
  | .ne field value, c, bound, bound', h, hvalues => by
    obtain ⟨path, hpath, heq⟩ := Option.bind_eq_some_iff.mp h
    cases heq
    have hnegated := (Reflects.comparison hworded hpath (getElem?_of_extends hvalues)).negation
    exact ⟨hnegated.complete, hnegated.sound⟩
  | .exists field, c, bound, bound', h, _ => by
    obtain ⟨path, hpath, heq⟩ := Option.bind_eq_some_iff.mp h
    cases heq
    exact .existence hworded hpath
  | .and es, c, bound, bound', h, hvalues => by
    obtain ⟨⟨cs, bound''⟩, hall, heq⟩ := Option.bind_eq_some_iff.mp h
    cases heq
    exact .conjunction (reflects_translateAll hworded hall hvalues)
  | .or es, c, bound, bound', h, hvalues => by
    obtain ⟨⟨cs, bound''⟩, hall, heq⟩ := Option.bind_eq_some_iff.mp h
    cases heq
    exact .disjunction (reflects_translateAll hworded hall hvalues)
  | .not e, c, bound, bound', h, hvalues => by
    obtain ⟨⟨c', bound''⟩, hinner, heq⟩ := Option.bind_eq_some_iff.mp h
    cases heq
    exact (reflects_translate hworded hinner hvalues).negation

theorem reflects_translateAll (hworded : doc.Worded) : ∀ {es : List Expr} {cs : List Condition}
    {bound bound' : List Json}, translateAll bound es = some (cs, bound') → bound' <+: values →
      List.Forall₂ (Reflects values doc) es cs
  | [], cs, bound, bound', h, _ => by
    cases h
    exact .nil
  | e :: rest, cs, bound, bound', h, hvalues => by
    obtain ⟨⟨c, middle⟩, hfirst, hothers⟩ := Option.bind_eq_some_iff.mp h
    obtain ⟨⟨cs', bound''⟩, hrest, heq⟩ := Option.bind_eq_some_iff.mp hothers
    cases heq
    exact .cons (reflects_translate hworded hfirst ((translateAll_extends hrest).trans hvalues))
      (reflects_translateAll hworded hrest hvalues)

end

variable {b : Bound}

/-- A document that an expression accepts satisfies its condition, as long as the paths of the
comparisons that have to fail are straight. -/
theorem holds_of_accepts (hworded : doc.Worded) (h : ofExpr? e = some b)
    (hstraight : ∀ field ∈ e.denied false, Path.Straight doc (Path.segments field))
    (haccepts : e.accepts doc = true) : b.holds doc = true := by
  obtain ⟨⟨c, values⟩, htranslate, rfl⟩ := Option.map_eq_some_iff.mp h
  exact (reflects_translate hworded htranslate List.prefix_rfl).complete hstraight haccepts

end Query

end Signpost
