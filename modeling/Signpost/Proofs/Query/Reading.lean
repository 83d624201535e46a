import Mathlib.Data.List.Nodup
import Signpost.Proofs.Query.Spelling

/-!
# What a condition says

A store gets the text of a condition and the values of its parameters, and nothing else of the
expression.  It has to find the expression's meaning in them: whatever the field names and the
values are, the text is read in one way, and read so it is true of the documents that the expression
accepts.

## Main definitions

* `Query.Phrase.truth?`: whether a phrase is true of a document.
* `Query.Conveys`: a text and parameters say what an expression says.

## Main results

* `Query.mentions_tokens`: a condition mentions each of its parameters once.
* `Query.truth_phrase`: a condition that is read back says what its expression says.
* `Query.text_conveys_expr`: the condition of every expression conveys it.
-/

namespace Signpost.Query

open Signpost.Filter (Expr)

/-! ## Conditions of expressions can be written -/

mutual

theorem written_conditionFrom : ∀ {e : Expr} {n : Nat} {c : Condition},
    conditionFrom n e = some c → c.Written
  | .all, n, c, h => by
    cases h
    exact .constant true
  | .eq field _, n, c, h => by
    obtain ⟨path, hpath, rfl⟩ := Option.map_eq_some_iff.mp h
    exact .equal _ (segments_of_path? hpath).2
  | .ne field _, n, c, h => by
    obtain ⟨path, hpath, rfl⟩ := Option.map_eq_some_iff.mp h
    exact .unequal _ (segments_of_path? hpath).2
  | .exists field, n, c, h => by
    obtain ⟨path, hpath, rfl⟩ := Option.map_eq_some_iff.mp h
    have hwritten := (segments_of_path? hpath).2
    refine .conjunction fun c hc => ?_
    rcases List.mem_pair.mp hc with rfl | rfl
    · exact .unequal _ hwritten
    · exact .unequal _ hwritten
  | .and es, n, c, h => by
    obtain ⟨cs, hcs, rfl⟩ := Option.map_eq_some_iff.mp h
    exact .conjunction (written_conditionsFrom hcs)
  | .or es, n, c, h => by
    obtain ⟨cs, hcs, rfl⟩ := Option.map_eq_some_iff.mp h
    exact .disjunction (written_conditionsFrom hcs)
  | .not e, n, c, h => by
    obtain ⟨c', hc', rfl⟩ := Option.map_eq_some_iff.mp h
    exact .negation (written_conditionFrom hc')

theorem written_conditionsFrom : ∀ {es : List Expr} {n : Nat} {cs : List Condition},
    conditionsFrom n es = some cs → ∀ c ∈ cs, c.Written
  | [], n, cs, h => by
    cases h
    exact nofun
  | e :: rest, n, cs, h => by
    obtain ⟨c, cs', hc, hcs', rfl⟩ := conditionsFrom_cons h
    exact List.forall_mem_cons.mpr ⟨written_conditionFrom hc, written_conditionsFrom hcs'⟩

end

/-! ## Parameters -/

theorem mentions_append (ts us : List Token) : mentions (ts ++ us) = mentions ts ++ mentions us :=
  List.filterMap_append

theorem mentions_cons (t : Token) (ts : List Token) :
    mentions (t :: ts) = mentions [t] ++ mentions ts :=
  mentions_append [t] ts

theorem mentions_operator (op : Operator) : mentions [op.token] = [] := by cases op <;> rfl

theorem mentions_mark (c : Char) : mentions [.mark c] = [] := rfl

theorem mentions_word {word : String} (h : ∀ c ∈ word.toList, isNameChar c = true) :
    mentions [.word word] = [] := by
  have hnone : parameter? word = none := by
    unfold parameter?
    split
    · next heq =>
      rw [heq] at h
      exact absurd (h '$' List.mem_cons_self) (by decide)
    · rfl
  simp [mentions, hnone]

theorem mentions_step {step : Step} (h : step.Written) : mentions step.tokens = [] := by
  have hword : mentions [.word step.segment] = [] := mentions_word h.isNameChar
  cases step with
  | member name => exact hword
  | item digits =>
    show mentions ([.mark '['] ++ [.word digits] ++ [.mark ']']) = []
    rw [mentions_append, mentions_append, mentions_mark, mentions_mark]
    exact (List.append_nil _).trans hword

theorem mentions_columnTokens {path : List Step} (h : ∀ step ∈ path, step.Written) :
    mentions (columnTokens path) = [] := by
  have hsteps : mentions (path.flatMap Step.tokens) = [] := by
    induction path with
    | nil => rfl
    | cons step rest ih =>
      obtain ⟨hstep, hrest⟩ := List.forall_mem_cons.mp h
      rw [List.flatMap_cons, mentions_append, mentions_step hstep, ih hrest, List.append_nil]
  rw [columnTokens, mentions_cons, hsteps]
  rfl

theorem mentions_comparison {path : List Step} (h : ∀ step ∈ path, step.Written) (op : Operator)
    (t : Token) : mentions (columnTokens path ++ [op.token, t]) = mentions [t] := by
  rw [mentions_append, mentions_columnTokens h, mentions_cons, mentions_operator]
  rfl

theorem mentions_group {op : Operator} {empty : String} (hempty : mentions [.word empty] = [])
    (tss : List (List Token)) : mentions (groupTokens op empty tss) = tss.flatMap mentions := by
  have hparts : mentions (List.intercalate [op.token] tss) = tss.flatMap mentions := by
    induction tss with
    | nil => rfl
    | cons ts rest ih =>
      cases rest with
      | nil => simp
      | cons us rest =>
        rw [List.intercalate_cons_cons, mentions_append, mentions_append, ih, mentions_operator,
          List.append_nil]
        rfl
  cases tss with
  | nil => exact hempty
  | cons ts rest =>
    show mentions (.mark '(' :: (List.intercalate [op.token] (ts :: rest) ++ [.mark ')'])) = _
    rw [mentions_cons, mentions_append, hparts, mentions_mark, mentions_mark, List.append_nil,
      List.nil_append]

mutual

/-- A condition mentions its parameters from left to right, each of them once. -/
theorem mentions_tokens : ∀ {e : Expr} {n : Nat} {c : Condition}, conditionFrom n e = some c →
    mentions c.tokens = (List.range' n e.values.length).map parameterName
  | .all, n, c, h => by
    cases h
    rfl
  | .eq field _, n, c, h | .ne field _, n, c, h => by
    obtain ⟨path, hpath, rfl⟩ := Option.map_eq_some_iff.mp h
    rw [Condition.tokens, mentions_comparison (segments_of_path? hpath).2]
    simp [mentions, Operand.token, parameter?_append, Expr.values]
  | .exists field, n, c, h => by
    obtain ⟨path, hpath, rfl⟩ := Option.map_eq_some_iff.mp h
    have hwritten := (segments_of_path? hpath).2
    rw [Condition.tokens, mentions_group rfl]
    simp only [Condition.tokensOfAll, Condition.tokens, List.flatMap_cons,
      mentions_comparison hwritten]
    rfl
  | .and es, n, c, h | .or es, n, c, h => by
    obtain ⟨cs, hcs, rfl⟩ := Option.map_eq_some_iff.mp h
    rw [Condition.tokens, mentions_group rfl, mentions_tokensOfAll hcs, Expr.values]
  | .not e, n, c, h => by
    obtain ⟨c', hc', rfl⟩ := Option.map_eq_some_iff.mp h
    rw [Condition.tokens, List.cons_append, List.cons_append, mentions_cons,
      mentions_cons (.mark '('), mentions_append, mentions_tokens hc', mentions_mark, mentions_mark,
      mentions_mark, List.append_nil, Expr.values]
    rfl

theorem mentions_tokensOfAll : ∀ {es : List Expr} {n : Nat} {cs : List Condition},
    conditionsFrom n es = some cs → (Condition.tokensOfAll cs).flatMap mentions =
      (List.range' n (Expr.valuesOfAll es).length).map parameterName
  | [], n, cs, h => by
    cases h
    rfl
  | e :: rest, n, cs, h => by
    obtain ⟨c, cs', hc, hcs', rfl⟩ := conditionsFrom_cons h
    rw [Condition.tokensOfAll, List.flatMap_cons, mentions_tokens hc, mentions_tokensOfAll hcs',
      ← List.map_append, List.range'_append_1, Expr.valuesOfAll, List.length_append]

end

/-! ## Meaning -/

/-- What a document has at the end of a column path, by the rules of filter expressions. -/
def valueAt (doc : Json) (path : List Step) : Option Json :=
  (path.map Step.segment).foldlM Path.step doc

/-- Whether a document has a value or, as may be asked for too, nothing. -/
def has : Option Json → Option Json → Bool
  | some found, some value => found.agrees value
  | none, none => true
  | _, _ => false

namespace Phrase

variable (binds : List (String × Json)) (doc : Json)

/-- What a column is compared with, if the phrase is that: a value, or nothing. -/
def operand? : Phrase → Option (Option Json)
  | .parameter name => (Json.lookup name binds).map some
  | .nothing => some none
  | .null => some (some .null)
  | _ => none

/-- Whether a document has what a column is compared with. -/
def comparison? : Phrase → Phrase → Option Bool
  | .column path, q => (q.operand? binds).map (has (valueAt doc path))
  | _, _ => none

/-- Whether a phrase is true of a document, by the values of its parameters, if it is a
condition. -/
def truth? : Phrase → Option Bool
  | .constant b => some b
  | .negation p => (truth? p).map (!·)
  | .compound p .equal q => comparison? binds doc p q
  | .compound p .unequal q => (comparison? binds doc p q).map (!·)
  | .compound p .and q => do return (← truth? p) && (← truth? q)
  | .compound p .or q => do return (← truth? p) || (← truth? q)
  | _ => none

end Phrase

/-- The parameters from a number on have the values. -/
def Binds (binds : List (String × Json)) (n : Nat) (values : List Json) : Prop :=
  ∀ i v, values[i]? = some v → Json.lookup (parameterName (n + i)) binds = some v

variable {binds : List (String × Json)} {doc : Json} {n : Nat}

theorem Binds.append {vs ws : List Json} (h : Binds binds n (vs ++ ws)) :
    Binds binds n vs ∧ Binds binds (n + vs.length) ws := by
  refine ⟨fun i v hv => h i v ?_, fun i v hv => ?_⟩
  · rw [List.getElem?_append_left (List.getElem?_eq_some_iff.mp hv).1]
    exact hv
  · rw [Nat.add_assoc]
    refine h _ v ?_
    rwa [List.getElem?_append_right (Nat.le_add_right _ _), Nat.add_sub_cancel_left]

/-- Numbered parameters have their values. -/
theorem binds_mapIdx (n : Nat) (values : List Json) :
    Binds (values.mapIdx fun i v => (parameterName (n + i), v)) n values := by
  induction values generalizing n with
  | nil => exact nofun
  | cons value rest ih =>
    intro i v hv
    rw [List.mapIdx_cons, Nat.add_zero, Json.lookup]
    cases i with
    | zero =>
      rw [Nat.add_zero, if_pos rfl]
      exact hv
    | succ i =>
      -- the first parameter has another name, and the others are numbered on from the next
      have hne : parameterName n ≠ parameterName (n + (i + 1)) :=
        fun h => by have := parameterName_injective h; omega
      have hrest := ih (n + 1) i v hv
      simp only [Nat.add_assoc, Nat.add_comm 1] at hrest
      rw [if_neg hne]
      exact hrest

theorem valueAt_of_path? {field : String} {path : List Step} (h : path? field = some path) :
    valueAt doc path = Path.find? doc field := by
  rw [valueAt, (segments_of_path? h).1]
  rfl

theorem comparison_parameter {field : String} {path : List Step} {value : Json}
    (hpath : path? field = some path) (hbinds : Binds binds n [value]) :
    Phrase.comparison? binds doc (.column path) (Operand.parameter n).phrase =
      some (Expr.holdsValue doc field value) := by
  have hvalue : Json.lookup (parameterName n) binds = some value := hbinds 0 value rfl
  rw [Phrase.comparison?, Operand.phrase, Phrase.operand?, hvalue, valueAt_of_path? hpath,
    Expr.holdsValue]
  cases Path.find? doc field <;> rfl

/-- A field that is neither nothing nor null is there. -/
theorem truth_existence {field : String} {path : List Step} (hpath : path? field = some path) :
    (Condition.conjunction [.unequal path .nothing, .unequal path .null]).phrase.truth? binds doc =
      some (Expr.holdsSome doc field) := by
  have hsplit : (Condition.conjunction
      [.unequal path .nothing, .unequal path .null]).phrase.truth? binds doc =
        some (!has (valueAt doc path) none && !has (valueAt doc path) (some .null)) := rfl
  rw [hsplit, valueAt_of_path? hpath, Expr.holdsSome]
  cases Path.find? doc field with
  | none => rfl
  | some v => cases v <;> rfl

/-- Phrases that are joined by an operator are true as the expressions that they say are together,
if the operator is an associative function and the expressions are put together by it. -/
theorem truth_joined (op : Operator) (together : List Expr → Bool) {f : Bool → Bool → Bool}
    (hop : ∀ {p q : Phrase} {a b : Bool}, p.truth? binds doc = some a →
      q.truth? binds doc = some b → (p.compound op q).truth? binds doc = some (f a b))
    (hassoc : ∀ a b c, f (f a b) c = f a (f b c)) (hnil : ∀ a, f a (together []) = a)
    (hcons : ∀ e es, together (e :: es) = f (e.accepts doc) (together es)) {ps : List Phrase}
    {es : List Expr}
    (h : List.Forall₂ (fun p e => p.truth? binds doc = some (e.accepts doc)) ps es) :
    (joined op (.constant (together [])) ps).truth? binds doc = some (together es) := by
  -- from left to right, what has been joined is true as the expressions so far
  have hfold : ∀ {p : Phrase} {a : Bool} {ps : List Phrase} {es : List Expr},
      p.truth? binds doc = some a →
      List.Forall₂ (fun p e => p.truth? binds doc = some (e.accepts doc)) ps es →
      (ps.foldl (.compound · op ·) p).truth? binds doc = some (f a (together es)) := by
    intro p a ps es hp h
    induction h generalizing p a with
    | nil =>
      rw [hnil]
      exact hp
    | cons hfirst _ ih =>
      rw [hcons, ← hassoc]
      exact ih (hop hp hfirst)
  cases h with
  | nil => rfl
  | cons hfirst hrest =>
    rw [hcons]
    exact hfold hfirst hrest

theorem truth_joined_and {ps : List Phrase} {es : List Expr}
    (h : List.Forall₂ (fun p e => p.truth? binds doc = some (e.accepts doc)) ps es) :
    (joined .and (.constant true) ps).truth? binds doc = some (Expr.allAccept doc es) :=
  truth_joined .and (Expr.allAccept doc) (fun hp hq => by rw [Phrase.truth?, hp, hq]; rfl)
    Bool.and_assoc Bool.and_true (fun _ _ => rfl) h

theorem truth_joined_or {ps : List Phrase} {es : List Expr}
    (h : List.Forall₂ (fun p e => p.truth? binds doc = some (e.accepts doc)) ps es) :
    (joined .or (.constant false) ps).truth? binds doc = some (Expr.anyAccepts doc es) :=
  truth_joined .or (Expr.anyAccepts doc) (fun hp hq => by rw [Phrase.truth?, hp, hq]; rfl)
    Bool.or_assoc Bool.or_false (fun _ _ => rfl) h

mutual

/-- **A condition that is read back says what its expression says**. -/
theorem truth_phrase : ∀ {e : Expr} {n : Nat} {c : Condition}, conditionFrom n e = some c →
    Binds binds n e.values → c.phrase.truth? binds doc = some (e.accepts doc)
  | .all, n, c, h, _ => by
    cases h
    rfl
  | .eq field value, n, c, h, hbinds => by
    obtain ⟨path, hpath, rfl⟩ := Option.map_eq_some_iff.mp h
    exact comparison_parameter hpath hbinds
  -- on both sides an inequality is the negation of a comparison
  | .ne field value, n, c, h, hbinds => by
    obtain ⟨path, hpath, rfl⟩ := Option.map_eq_some_iff.mp h
    exact congrArg (Option.map (!·)) (comparison_parameter hpath hbinds)
  | .exists field, n, c, h, _ => by
    obtain ⟨path, hpath, rfl⟩ := Option.map_eq_some_iff.mp h
    exact truth_existence hpath
  | .and es, n, c, h, hbinds => by
    obtain ⟨cs, hcs, rfl⟩ := Option.map_eq_some_iff.mp h
    exact truth_joined_and (truth_phrasesOfAll hcs hbinds)
  | .or es, n, c, h, hbinds => by
    obtain ⟨cs, hcs, rfl⟩ := Option.map_eq_some_iff.mp h
    exact truth_joined_or (truth_phrasesOfAll hcs hbinds)
  | .not e, n, c, h, hbinds => by
    obtain ⟨c', hc', rfl⟩ := Option.map_eq_some_iff.mp h
    exact congrArg (Option.map (!·)) (truth_phrase hc' hbinds)

theorem truth_phrasesOfAll : ∀ {es : List Expr} {n : Nat} {cs : List Condition},
    conditionsFrom n es = some cs → Binds binds n (Expr.valuesOfAll es) →
      List.Forall₂ (fun p e => p.truth? binds doc = some (e.accepts doc))
        (Condition.phrasesOfAll cs) es
  | [], n, cs, h, _ => by
    cases h
    exact .nil
  | e :: rest, n, cs, h, hbinds => by
    obtain ⟨c, cs', hc, hcs', rfl⟩ := conditionsFrom_cons h
    obtain ⟨hfirst, hothers⟩ := Binds.append hbinds
    exact .cons (truth_phrase hc hfirst) (truth_phrasesOfAll hcs' hothers)

end

/-! ## Texts and parameters -/

/-- The text of a condition and the parameters say what an expression says. -/
structure Conveys (text : String) (parameters : List (String × Json)) (e : Expr) : Prop where
  /-- The parameters are numbered, and have the values of the expression from left to right. -/
  numbered : parameters = e.values.mapIdx fun n v => (parameterName n, v)
  /-- The text mentions the parameters and no others. -/
  mentioned : mentions (tokens text) = parameters.map Prod.fst
  /-- It mentions each of them once. -/
  once : (mentions (tokens text)).Nodup
  /-- The text is read in one way, and then it is true of the documents that are accepted. -/
  read : ∃ p, (∀ q, Reading text q ↔ q = p) ∧
    ∀ doc, p.truth? parameters doc = some (e.accepts doc)

/-- Expressions with the same text and parameters accept the same documents. -/
theorem Conveys.accepts_eq {text : String} {parameters : List (String × Json)} {e e' : Expr}
    (h : Conveys text parameters e) (h' : Conveys text parameters e') (doc : Json) :
    e.accepts doc = e'.accepts doc := by
  obtain ⟨p, hp, htruth⟩ := h.read
  obtain ⟨p', hp', htruth'⟩ := h'.read
  cases (hp' p).mp ((hp p).mpr rfl)
  exact Option.some.inj ((htruth doc).symm.trans (htruth' doc))

theorem conveys_of_ofExpr? {e : Expr} {b : Bound} (h : ofExpr? e = some b) :
    Conveys b.condition.render b.parameters e := by
  obtain ⟨hcondition, hvalues⟩ := ofExpr?_eq_some_iff.mp h
  have hwritten := written_conditionFrom hcondition
  have hmentions : mentions (tokens b.condition.render) =
      (List.range b.values.length).map parameterName := by
    rw [tokens_render hwritten, mentions_tokens hcondition, hvalues, List.range_eq_range']
  refine ⟨by rw [Bound.parameters, hvalues], ?_, ?_, b.condition.phrase,
    fun q => reading_render_iff hwritten, fun doc => truth_phrase hcondition ?_⟩
  · rw [hmentions, Bound.parameters]
    simp [List.ext_getElem_iff]
  · rw [hmentions]
    exact List.Nodup.map parameterName_injective List.nodup_range
  · have hbinds := binds_mapIdx 0 e.values
    simp only [Nat.zero_add] at hbinds
    rwa [Bound.parameters, hvalues]

/-- **The text and the parameters of a condition convey its expression**.  There is no condition
exactly if some field path has a segment that is neither an index nor an identifier; expressions
that differ in the values only have the same text; and expressions that have the same text and the
same parameters accept the same documents. -/
theorem text_conveys_expr (e : Expr) :
    (ofExpr? e = none ↔
      ∃ field ∈ e.fields, ∃ segment ∈ Path.segments field,
        ¬ (IsIndex segment ∨ IsIdentifier segment)) ∧
    (∀ e' : Expr, e'.blank = e.blank →
      (ofExpr? e').map (·.condition.render) = (ofExpr? e).map (·.condition.render)) ∧
    ∀ b, ofExpr? e = some b →
      Conveys b.condition.render b.parameters e ∧
      ∀ e' b', ofExpr? e' = some b' → b'.condition.render = b.condition.render →
        b'.parameters = b.parameters → ∀ doc, e'.accepts doc = e.accepts doc := by
  refine ⟨ofExpr?_eq_none_iff e, fun e' hblank => ?_, fun b hb => ⟨conveys_of_ofExpr? hb, ?_⟩⟩
  · have hcondition := congrArg (Option.map Condition.render) (condition_eq_of_blank_eq hblank)
    rwa [Option.map_map, Option.map_map] at hcondition
  · intro e' b' hb' htext hparameters
    have hconveys := conveys_of_ofExpr? hb'
    rw [htext, hparameters] at hconveys
    exact hconveys.accepts_eq (conveys_of_ofExpr? hb)

/-- A filter for enabled definitions with a tag that have a name or satisfy something else. -/
def enabledFilter (name : String) (otherwise : Expr) : Expr :=
  .and [.eq "enabled" (.bool true), .or [.not (.ne "display_name" (.string name)), otherwise],
    .and [.exists "tags.0"]]

/-- Its condition. -/
def enabledCondition (name : String) (otherwise : Condition) : Bound where
  condition := .conjunction [.equal [.member "enabled"] (.parameter 0),
    .disjunction [.negation (.unequal [.member "display_name"] (.parameter 1)), otherwise],
    .conjunction [.conjunction [.unequal [.member "tags", .item "0"] .nothing,
      .unequal [.member "tags", .item "0"] .null]]]
  values := [.bool true, .string name]

/-- A name that is no identifier, a different value, and two ways to ask for nothing more. -/
theorem text_conveys_expr_nested :
    ofExpr? (enabledFilter "x" (.exists "name; --")) = none ∧
    (ofExpr? (enabledFilter "y" .all)).map (·.condition.render) =
      (ofExpr? (enabledFilter "x" .all)).map (·.condition.render) ∧
    (enabledCondition "x" (.constant true)).condition.render =
      "(payload.enabled = $p0 AND (!(payload.display_name != $p1) OR true) AND " ++
        "((payload.tags[0] != NONE AND payload.tags[0] != NULL)))" ∧
    Conveys (enabledCondition "x" (.constant true)).condition.render
      (enabledCondition "x" (.constant true)).parameters (enabledFilter "x" .all) ∧
    ∀ doc, (enabledFilter "x" (.and [])).accepts doc = (enabledFilter "x" .all).accepts doc := by
  have hconveys := (text_conveys_expr (enabledFilter "x" .all)).2.2
    (enabledCondition "x" (.constant true)) rfl
  have hsegment : ¬ (IsIndex "name; --" ∨ IsIdentifier "name; --") := by
    rintro (hindex | ⟨first, rest, heq, -, hrest⟩)
    · exact absurd (hindex.2 'n' (by decide)) (by decide)
    · cases heq
      exact absurd (hrest ';' (by decide)) (by decide)
  refine ⟨?_, (text_conveys_expr _).2.1 _ rfl, by decide +kernel, hconveys.1, ?_⟩
  · exact (text_conveys_expr _).1.mpr ⟨"name; --", by decide, "name; --", by decide, hsegment⟩
  · exact hconveys.2 _ (enabledCondition "x" (.conjunction [])) rfl rfl rfl

end Signpost.Query
