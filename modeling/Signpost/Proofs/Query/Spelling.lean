import Mathlib.Data.List.Forall2
import Signpost.Proofs.Query.Grammar

/-!
# The tokens of conditions

The text of a condition is scanned into tokens piece by piece: each piece ends a word or starts with
a character that ends the word before it.  So the tokens of a condition are those of its parts,
whatever the names of its columns are, and by the rules of the grammar they are read as the
condition.

## Main definitions

* `Query.Spells`: a text is scanned into tokens, also when it is followed by something else.
* `Query.Condition.Written`: each step of a column path is one that some segment is written as.
* `Query.Condition.tokens`, `Query.Condition.phrase`: the tokens of a condition, and what they are
  read as.

## Main results

* `Query.tokens_render`: the text of a condition has the tokens of the condition.
* `Query.reads_tokens`: these are read as the condition.
-/

namespace Signpost.Query

/-! ## Pieces of text -/

variable {a b : List Char} {s t : List Token} {c : Char}

/-- A text does not go on with the word before it. -/
def Boundary (rest : List Char) : Prop := ∀ c ∈ rest.head?, isWordChar c = false

theorem boundary_cons (h : isWordChar c = false) (rest : List Char) : Boundary (c :: rest) := by
  intro c' hc'
  cases hc'
  exact h

/-- Whether a character is a token by itself, whatever it is followed by. -/
def isMark (c : Char) : Bool := !isWordChar c && c != ' ' && c != '!'

/-- A text is scanned into the tokens, if what follows does not go on with its last word. -/
def Spells (text : List Char) (ts : List Token) : Prop :=
  ∀ rest, Boundary rest → scan [] (text ++ rest) = ts ++ scan [] rest

theorem scan_of_boundary {rest : List Char} (h : Boundary rest) (word : List Char) :
    scan word rest = ended word ++ scan [] rest := by
  have hnil : ended [] = [] := rfl
  unfold scan
  split
  · simp [hnil]
  · simp [hnil]
  · next c rest _ =>
    have hc : isWordChar c = false := h c rfl
    rw [hc, hnil]
    simp only [Bool.false_eq_true, if_false, List.nil_append]
    split <;> rfl

theorem scan_word {w : List Char} (hw : ∀ c ∈ w, isWordChar c = true) (word rest : List Char) :
    scan word (w ++ rest) = scan (word ++ w) rest := by
  induction w generalizing word with
  | nil => rw [List.nil_append, List.append_nil]
  | cons c cs ih =>
    obtain ⟨hc, hcs⟩ := List.forall_mem_cons.mp hw
    have hmark : ∀ rest', c = '!' → cs ++ rest = '=' :: rest' → False := by
      rintro - rfl -
      exact absurd hc (by decide)
    rw [List.cons_append, scan.eq_3 _ _ _ hmark, if_pos hc, ih hcs, List.append_assoc,
      List.singleton_append]

namespace Spells

theorem nil : Spells [] [] := fun _ _ => rfl

theorem word {text : String} (hne : text ≠ "") (hword : text.toList.all isWordChar = true) :
    Spells text.toList [.word text] := by
  intro rest hrest
  have hended : ended text.toList = [.word text] := by
    rw [ended, List.isEmpty_eq_false_iff.mpr (by simpa using hne)]
    simp
  rw [scan_word (List.all_eq_true.mp hword), List.nil_append, scan_of_boundary hrest, hended]

theorem blank (h : Spells a s) : Spells (' ' :: a) s := fun rest hrest => h rest hrest

theorem mark (hmark : isMark c = true) (h : Spells a s) : Spells (c :: a) (.mark c :: s) := by
  intro rest hrest
  simp only [isMark, Bool.and_eq_true, Bool.not_eq_true', bne_iff_ne] at hmark
  obtain ⟨⟨hword, hblank⟩, hnot⟩ := hmark
  rw [List.cons_append, scan.eq_3 _ _ _ fun _ hc => absurd hc hnot, hword,
    if_neg Bool.false_ne_true, if_neg hblank, h rest hrest]
  rfl

theorem negation (h : Spells a s) : Spells ('!' :: '(' :: a) (.mark '!' :: .mark '(' :: s) := by
  intro rest hrest
  show .mark '!' :: scan [] ('(' :: a ++ rest) = _
  rw [mark rfl h rest hrest]
  rfl

/-- Two texts one after the other, if the second does not go on with the last word of the first. -/
theorem append (ha : Spells a s) (hc : isWordChar c = false) (hb : Spells (c :: b) t) :
    Spells (a ++ c :: b) (s ++ t) := by
  intro rest hrest
  rw [List.append_assoc, List.append_assoc, ← hb rest hrest]
  exact ha (c :: b ++ rest) (boundary_cons hc _)

/-- A text that is ended by a mark. -/
theorem closed (hmark : isMark c = true) (h : Spells a s) : Spells (a ++ [c]) (s ++ [.mark c]) := by
  have hword : isWordChar c = false := by
    simp only [isMark, Bool.and_eq_true, Bool.not_eq_true'] at hmark
    exact hmark.1.1
  exact h.append hword (nil.mark hmark)

end Spells

/-! ## Columns and operands -/

/-- The tokens of a step. -/
def Step.tokens : Step → List Token
  | .member name => [.mark '.', .word name]
  | .item digits => [.mark '[', .word digits, .mark ']']

/-- The tokens of a column path. -/
def columnTokens (path : List Step) : List Token := .word "payload" :: path.flatMap Step.tokens

/-- The token of an operand. -/
def Operand.token : Operand → Token
  | .parameter n => .word ("$" ++ parameterName n)
  | .nothing => .word "NONE"
  | .null => .word "NULL"

theorem all_isWordChar (h : ∀ c ∈ a, isNameChar c = true) : a.all isWordChar = true :=
  List.all_eq_true.mpr fun c hc => by rw [isWordChar, h c hc, Bool.true_or]

namespace Step.Written

variable {step : Step}

theorem isNameChar (h : step.Written) : ∀ c ∈ step.segment.toList, isNameChar c = true := by
  cases step with
  | member name =>
    obtain ⟨first, rest, heq, -, -⟩ := id h
    have hname := (isIdentifier_iff heq).mp h
    rw [← heq, Bool.and_eq_true, List.all_eq_true] at hname
    exact hname.1
  | item digits =>
    intro c hc
    have hdigit : c.isDigit = true := h.2 c hc
    rw [Query.isNameChar, Char.isAlphanum, hdigit, Bool.or_true, Bool.true_or]

theorem ne_empty (h : step.Written) : step.segment ≠ "" := by
  intro hempty
  cases step with
  | member name =>
    obtain ⟨first, rest, heq, -⟩ := h
    rw [show name = "" from hempty] at heq
    cases heq
  | item digits => exact h.1 (congrArg String.toList hempty)

theorem spells_segment (h : step.Written) : Spells step.segment.toList [.word step.segment] :=
  .word h.ne_empty (all_isWordChar h.isNameChar)

/-- A step goes on from the text before it. -/
theorem spells (h : step.Written) (ha : Spells a s) :
    Spells (a ++ step.render.toList) (s ++ step.tokens) := by
  have hsegment := h.spells_segment
  cases step with
  | member name =>
    rw [Step.render, String.toList_append]
    exact ha.append rfl (hsegment.mark rfl)
  | item digits =>
    have hclosed := hsegment.closed (c := ']') rfl
    rw [Step.render, String.toList_append, String.toList_append]
    exact ha.append rfl (hclosed.mark rfl)

end Step.Written

theorem spells_renderPath {path : List Step} (h : ∀ step ∈ path, step.Written) :
    Spells (renderPath path).toList (columnTokens path) := by
  -- the steps are added to the text from left to right
  have hsteps : ∀ (text : String) (ts : List Token), Spells text.toList ts →
      Spells (path.foldl (fun text step => text ++ step.render) text).toList
        (ts ++ path.flatMap Step.tokens) := by
    induction path with
    | nil =>
      intro text ts htext
      simpa using htext
    | cons step rest ih =>
      intro text ts htext
      obtain ⟨hstep, hrest⟩ := List.forall_mem_cons.mp h
      have hnext := ih hrest (text ++ step.render) (ts ++ step.tokens) (by
        rw [String.toList_append]
        exact hstep.spells htext)
      rwa [List.append_assoc] at hnext
  exact hsteps "payload" [.word "payload"] (.word (by decide) rfl)

theorem readsColumn_columnTokens {path : List Step} (h : ∀ step ∈ path, step.Written) :
    ReadsColumn (columnTokens path) path := by
  have hsteps : ∀ (ts : List Token) (front : List Step), ReadsColumn ts front →
      ReadsColumn (ts ++ path.flatMap Step.tokens) (front ++ path) := by
    induction path with
    | nil =>
      intro ts front hfront
      simpa using hfront
    | cons step rest ih =>
      intro ts front hfront
      obtain ⟨hstep, hrest⟩ := List.forall_mem_cons.mp h
      have hnext := ih hrest (ts ++ step.tokens) (front ++ [step]) (by
        cases step with
        | member name => exact hfront.member hstep
        | item digits => exact hfront.item hstep)
      simpa using hnext
  exact hsteps [.word "payload"] [] .document

/-! ## Parameters -/

theorem toList_parameterName (n : Nat) : (parameterName n).toList = 'p' :: Nat.toDigits 10 n := by
  rw [parameterName, String.toList_append]
  show ['p'] ++ n.repr.toList = _
  rw [Nat.repr_eq_ofList_toDigits, String.toList_ofList, List.singleton_append]

theorem parameterName_injective : Function.Injective parameterName := by
  intro m n h
  have hdigits : Nat.toDigits 10 m = Nat.toDigits 10 n := by
    have hlist := congrArg String.toList h
    rw [toList_parameterName, toList_parameterName] at hlist
    exact List.tail_eq_of_cons_eq hlist
  have hback := fun k => Nat.ofDigitChars_toDigits (b := 10) (n := k) (by decide) (by decide)
  rw [← hback m, ← hback n, hdigits]

theorem isNameChar_parameterName (n : Nat) :
    ∀ c ∈ (parameterName n).toList, isNameChar c = true := by
  rw [toList_parameterName]
  refine List.forall_mem_cons.mpr ⟨by decide, fun c hc => ?_⟩
  simp [isNameChar, Char.isAlphanum, Nat.isDigit_of_mem_toDigits (by decide) (by decide) hc]

theorem parameterName_ne_empty (n : Nat) : parameterName n ≠ "" := by
  intro h
  have hlist := congrArg String.toList h
  rw [toList_parameterName] at hlist
  cases hlist

theorem Operand.spells (o : Operand) : Spells o.render.toList [o.token] := by
  cases o with
  | parameter n =>
    have hlist : (Operand.parameter n).render.toList = '$' :: (parameterName n).toList :=
      String.toList_append
    refine .word (fun h => ?_) ?_
    · rw [h] at hlist
      cases hlist
    · rw [hlist, List.all_cons, all_isWordChar (isNameChar_parameterName n)]
      rfl
  | nothing | null => exact .word (by decide) rfl

/-! ## Operators -/

/-- The text of an operator between two phrases. -/
def Operator.text : Operator → String
  | .equal => " = "
  | .unequal => " != "
  | .and => " AND "
  | .or => " OR "

theorem Spells.operator (ha : Spells a s) (op : Operator) (hb : Spells b t) :
    Spells (a ++ (op.text.toList ++ b)) (s ++ op.token :: t) := by
  cases op with
  | equal =>
    have hmark := hb.blank.mark (c := '=') rfl
    exact ha.append rfl hmark.blank
  | unequal =>
    have hmark : Spells ('!' :: '=' :: ' ' :: b) (.unequal :: t) := fun rest hrest =>
      congrArg (List.cons Token.unequal) (hb.blank rest hrest)
    exact ha.append rfl hmark.blank
  | and =>
    have hword : Spells "AND".toList [.word "AND"] := .word (by decide) rfl
    exact ha.append rfl (hword.append rfl hb.blank).blank
  | or =>
    have hword : Spells "OR".toList [.word "OR"] := .word (by decide) rfl
    exact ha.append rfl (hword.append rfl hb.blank).blank

/-! ## Conditions -/

/-- The tokens of phrases that are joined by an operator, in parentheses; a fixed word if there are
none. -/
def groupTokens (op : Operator) (empty : String) (parts : List (List Token)) : List Token :=
  match parts with
  | [] => [.word empty]
  | parts => .mark '(' :: List.intercalate [op.token] parts ++ [.mark ')']

/-- Phrases joined by an operator from left to right; a fixed phrase if there are none. -/
def joined (op : Operator) (empty : Phrase) : List Phrase → Phrase
  | [] => empty
  | p :: rest => rest.foldl (.compound · op ·) p

/-- What an operand is read as. -/
def Operand.phrase : Operand → Phrase
  | .parameter n => .parameter (parameterName n)
  | .nothing => .nothing
  | .null => .null

namespace Condition

mutual

/-- The tokens of a condition. -/
def tokens : Condition → List Token
  | .constant true => [.word "true"]
  | .constant false => [.word "false"]
  | .equal path operand => columnTokens path ++ [Operator.equal.token, operand.token]
  | .unequal path operand => columnTokens path ++ [Operator.unequal.token, operand.token]
  | .conjunction conditions => groupTokens .and "true" (tokensOfAll conditions)
  | .disjunction conditions => groupTokens .or "false" (tokensOfAll conditions)
  | .negation condition => .mark '!' :: .mark '(' :: tokens condition ++ [.mark ')']

/-- The tokens of several conditions. -/
def tokensOfAll : List Condition → List (List Token)
  | [] => []
  | c :: rest => tokens c :: tokensOfAll rest

end

mutual

/-- What a condition is read as. -/
def phrase : Condition → Phrase
  | .constant b => .constant b
  | .equal path operand => .compound (.column path) .equal operand.phrase
  | .unequal path operand => .compound (.column path) .unequal operand.phrase
  | .conjunction conditions => joined .and (.constant true) (phrasesOfAll conditions)
  | .disjunction conditions => joined .or (.constant false) (phrasesOfAll conditions)
  | .negation condition => .negation (phrase condition)

/-- What several conditions are read as. -/
def phrasesOfAll : List Condition → List Phrase
  | [] => []
  | c :: rest => phrase c :: phrasesOfAll rest

end

/-- Each step of a column path is one that some segment is written as. -/
inductive Written : Condition → Prop
  | constant (b : Bool) : Written (.constant b)
  | equal {path : List Step} (operand : Operand) :
    (∀ step ∈ path, step.Written) → Written (.equal path operand)
  | unequal {path : List Step} (operand : Operand) :
    (∀ step ∈ path, step.Written) → Written (.unequal path operand)
  | conjunction {cs : List Condition} : (∀ c ∈ cs, Written c) → Written (.conjunction cs)
  | disjunction {cs : List Condition} : (∀ c ∈ cs, Written c) → Written (.disjunction cs)
  | negation {c : Condition} : Written c → Written (.negation c)

end Condition

/-! ### Scanning -/

theorem spells_intercalate (op : Operator) {texts : List String} {tss : List (List Token)}
    (h : List.Forall₂ (fun text ts => Spells text.toList ts) texts tss) :
    Spells (String.intercalate op.text texts).toList (List.intercalate [op.token] tss) := by
  rw [String.toList_intercalate]
  induction h with
  | nil => exact .nil
  | cons hfirst hrest ih =>
    cases hrest with
    | nil => simpa using hfirst
    | cons hsecond hrest' =>
      simp only [List.map_cons, List.intercalate_cons_cons] at ih ⊢
      simpa using hfirst.operator op ih

theorem spells_group (op : Operator) {empty : String} {texts : List String}
    {tss : List (List Token)} (hne : empty ≠ "")
    (hempty : empty.toList.all isWordChar = true)
    (h : List.Forall₂ (fun text ts => Spells text.toList ts) texts tss) :
    Spells (group op.text empty texts).toList (groupTokens op empty tss) := by
  have hparts := spells_intercalate op h
  cases h with
  | nil => exact .word hne hempty
  | cons _ _ =>
    have hclosed := hparts.closed (c := ')') rfl
    have hopened := hclosed.mark (c := '(') rfl
    simpa [group, groupTokens] using hopened

theorem renderAll_eq_map (cs : List Condition) : renderAll cs = cs.map Condition.render := by
  induction cs with
  | nil => rfl
  | cons c rest ih => rw [renderAll, ih, List.map_cons]

theorem tokensOfAll_eq_map (cs : List Condition) :
    Condition.tokensOfAll cs = cs.map Condition.tokens := by
  induction cs with
  | nil => rfl
  | cons c rest ih => rw [Condition.tokensOfAll, ih, List.map_cons]

theorem phrasesOfAll_eq_map (cs : List Condition) :
    Condition.phrasesOfAll cs = cs.map Condition.phrase := by
  induction cs with
  | nil => rfl
  | cons c rest ih => rw [Condition.phrasesOfAll, ih, List.map_cons]

theorem Condition.Written.spells {c : Condition} (h : c.Written) :
    Spells c.render.toList c.tokens := by
  induction h with
  | constant b => cases b <;> exact .word (by decide) rfl
  | equal operand hpath =>
    have hspells := (spells_renderPath hpath).operator .equal operand.spells
    simpa [Condition.render, Condition.tokens, Operator.text] using hspells
  | unequal operand hpath =>
    have hspells := (spells_renderPath hpath).operator .unequal operand.spells
    simpa [Condition.render, Condition.tokens, Operator.text] using hspells
  | @conjunction cs _ ih =>
    rw [Condition.render, Condition.tokens, renderAll_eq_map, tokensOfAll_eq_map]
    refine spells_group .and (by decide) rfl ?_
    rwa [List.forall₂_map_left_iff, List.forall₂_map_right_iff, List.forall₂_same]
  | @disjunction cs _ ih =>
    rw [Condition.render, Condition.tokens, renderAll_eq_map, tokensOfAll_eq_map]
    refine spells_group .or (by decide) rfl ?_
    rwa [List.forall₂_map_left_iff, List.forall₂_map_right_iff, List.forall₂_same]
  | negation _ ih =>
    have hclosed := ih.closed (c := ')') rfl
    simpa [Condition.render, Condition.tokens] using hclosed.negation

/-- **The text of a condition has the tokens of the condition**. -/
theorem tokens_render {c : Condition} (h : c.Written) : Query.tokens c.render = c.tokens := by
  have hall := h.spells [] nofun
  rwa [List.append_nil, show scan [] [] = [] from rfl, List.append_nil] at hall

/-- A member may have the name of an operator. -/
example : Query.tokens "(payload.AND[0] != $p10)" =
    (Condition.conjunction [.unequal [.member "AND", .item "0"] (.parameter 10)]).tokens := by
  decide

/-! ### Reading -/

theorem Operand.reads (o : Operand) : Reads 0 [o.token] o.phrase := by
  cases o with
  | parameter n => exact .parameter (parameterName_ne_empty n) (isNameChar_parameterName n)
  | nothing => exact .nothing
  | null => exact .null

theorem reads_comparison {path : List Step} (h : ∀ step ∈ path, step.Written) (op : Operator)
    (hop : op.level = 1) (o : Operand) :
    Reads 1 (columnTokens path ++ [op.token, o.token])
      (.compound (.column path) op o.phrase) := by
  have hcolumn : Reads op.level (columnTokens path) (.column path) :=
    .looser (.column (readsColumn_columnTokens h)) (Nat.zero_le _)
  have hreads := hcolumn.compound (o.reads.looser (Nat.zero_le (op.level - 1)))
  rwa [hop] at hreads

theorem reads_intercalate (op : Operator) {ts : List Token} {p : Phrase} {tss : List (List Token)}
    {ps : List Phrase} (hfirst : Reads op.level ts p)
    (hrest : List.Forall₂ (Reads (op.level - 1)) tss ps) :
    Reads op.level (List.intercalate [op.token] (ts :: tss))
      (ps.foldl (.compound · op ·) p) := by
  induction hrest generalizing ts p with
  | nil => simpa using hfirst
  | @cons us q tss ps hsecond _ ih =>
    -- the first two are a phrase of the same level, to which the rest is joined
    have hshift : List.intercalate [op.token] (ts :: us :: tss) =
        List.intercalate [op.token] ((ts ++ op.token :: us) :: tss) := by
      cases tss <;> simp
    rw [hshift]
    exact ih (hfirst.compound hsecond)

/-- Comparisons and groups need no parentheses where they are joined. -/
theorem reads_group (op : Operator) {empty : String} {b : Bool} {tss : List (List Token)}
    {ps : List Phrase} (hop : 2 ≤ op.level) (hempty : Reads 0 [.word empty] (.constant b))
    (h : List.Forall₂ (Reads 1) tss ps) :
    Reads 1 (groupTokens op empty tss) (joined op (.constant b) ps) := by
  cases h with
  | nil => exact hempty.looser (Nat.zero_le 1)
  | cons hfirst hrest =>
    -- a part has comparisons at most, and what is in parentheses may have any operator
    have hparts := reads_intercalate op (hfirst.looser (by omega))
      (hrest.imp fun _ _ hpart => hpart.looser (by omega))
    exact (Reads.group (hparts.looser op.level_le)).looser (Nat.zero_le 1)

/-- **The tokens of a condition are read as the condition**. -/
theorem reads_tokens {c : Condition} (h : c.Written) : Reads 1 c.tokens c.phrase := by
  induction h with
  | constant b =>
    cases b
    · exact Reads.no.looser (Nat.zero_le 1)
    · exact Reads.yes.looser (Nat.zero_le 1)
  | equal operand hpath => exact reads_comparison hpath .equal rfl operand
  | unequal operand hpath => exact reads_comparison hpath .unequal rfl operand
  | @conjunction cs _ ih =>
    rw [Condition.tokens, Condition.phrase, tokensOfAll_eq_map, phrasesOfAll_eq_map]
    refine reads_group .and (Nat.le_refl 2) .yes ?_
    rwa [List.forall₂_map_left_iff, List.forall₂_map_right_iff, List.forall₂_same]
  | @disjunction cs _ ih =>
    rw [Condition.tokens, Condition.phrase, tokensOfAll_eq_map, phrasesOfAll_eq_map]
    refine reads_group .or (Nat.le_succ 2) .no ?_
    rwa [List.forall₂_map_left_iff, List.forall₂_map_right_iff, List.forall₂_same]
  | negation _ ih =>
    have hgroup := Reads.group (ih.looser (Nat.le_add_left 1 2))
    exact hgroup.negation.looser (Nat.zero_le 1)

/-- **The text of a condition is read as the condition and as nothing else**. -/
theorem reading_render_iff {c : Condition} (h : c.Written) {p : Phrase} :
    Reading c.render p ↔ p = c.phrase := by
  have hreads := reads_tokens h
  rw [← tokens_render h] at hreads
  constructor
  · exact fun hreading => hreading.unique hreads
  · rintro rfl
    exact hreads.looser (by decide)

end Signpost.Query
