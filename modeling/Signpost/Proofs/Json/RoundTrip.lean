import Signpost.Json.Decode
import Signpost.Json.Printer

/-!
# Reading the text of a value

The compact text of a value is read back as the value, down to the order of its members, if it has
no numbers and does not go too deep.  Whatever strings it has: a character that is escaped is read
as itself.  So such values are told apart by their texts.

## Main definitions

* `Json.Plain`: a value without numbers, and how deep it goes.
* `Json.Progress.AwaitsValue`: a reader takes the next token for the first one of a value.
* `Json.Progress.Passes`: a reader comes past the text of a value and has it.

## Main results

* `Json.scanString_escape`: a string is read back from its text.
* `Json.Progress.passes_of_plain`: a reader comes past the text of every plain value.
* `Json.Plain.ofText_text`, `Json.Plain.decodeText_text`
-/

namespace Signpost.Json

/-- A value without numbers that goes at most so many arrays and objects deep. -/
inductive Plain : Nat → Json → Prop
  | null {depth : Nat} : Plain depth .null
  | bool {depth : Nat} (b : Bool) : Plain depth (.bool b)
  | string {depth : Nat} (s : String) : Plain depth (.string s)
  | array {depth : Nat} {items : List Json} (each : ∀ v ∈ items, Plain depth v) :
      Plain (depth + 1) (.array items)
  | object {depth : Nat} {members : List (String × Json)} (each : ∀ m ∈ members, Plain depth m.2) :
      Plain (depth + 1) (.object members)

/-! ## Strings -/

theorem hexDigit?_hexDigit {n : Nat} (h : n < 16) : hexDigit? (hexDigit n) = some n := by
  have hall : ∀ m < 16, hexDigit? (hexDigit m) = some m := by decide
  exact hall n h

/-- The unit that a control character is written as. -/
theorem hexUnit?_hexDigit {n : Nat} (h : n < 256) :
    hexUnit? '0' '0' (hexDigit (n / 16)) (hexDigit (n % 16)) = some n := by
  have hzero : hexDigit? '0' = some 0 := rfl
  simp only [hexUnit?, hzero, hexDigit?_hexDigit (show n / 16 < 16 by omega),
    hexDigit?_hexDigit (show n % 16 < 16 by omega), Option.bind_eq_bind, Option.bind_some]
  exact congrArg some (by omega)

/-- The characters that are written as a backslash and one letter. -/
def shortEscapes : List Char := ['"', '\\', '\x08', '\t', '\n', '\x0c', '\r']

/-- The piece that a character is read as: one that is written as a unit is read as the unit. -/
def pieceOf (c : Char) : Piece := if c < ' ' ∧ c ∉ shortEscapes then .unit c.toNat else .char c

section Scanning

variable {c e x : Char} (done : List Piece) (rest : List Char)

theorem scanString_quote : scanString done ('"' :: rest) = .closed done.reverse rest := by
  rw [scanString.eq_def]
  rfl

theorem scanString_short (hletter : e ≠ 'u') (hescaped : escaped? e = some x) :
    scanString done ('\\' :: e :: rest) = scanString (.char x :: done) rest := by
  rw [scanString.eq_def]
  dsimp only
  rw [if_neg (by decide), if_pos rfl, if_neg hletter, hescaped]

theorem scanString_unit {a b c d : Char} {n : Nat} (hunit : hexUnit? a b c d = some n) :
    scanString done ('\\' :: 'u' :: a :: b :: c :: d :: rest) =
      scanString (.unit n :: done) rest := by
  rw [scanString.eq_def]
  dsimp only
  rw [if_neg (by decide), if_pos rfl, if_pos rfl, hunit]

theorem scanString_plain (hshort : c ∉ shortEscapes) (hplain : ¬ c < ' ') :
    scanString done (c :: rest) = scanString (.char c :: done) rest := by
  have hquote : c ≠ '"' := fun h => hshort (h ▸ by decide)
  have hbackslash : c ≠ '\\' := fun h => hshort (h ▸ by decide)
  rw [scanString.eq_def]
  dsimp only
  rw [if_neg hquote, if_neg hbackslash, if_neg hplain]

end Scanning

theorem escape_eq_unit {c : Char} (hcontrol : c < ' ') (hshort : c ∉ shortEscapes) :
    escape c = ['\\', 'u', '0', '0', hexDigit (c.toNat / 16), hexDigit (c.toNat % 16)] := by
  simp only [shortEscapes, List.mem_cons, List.not_mem_nil, or_false, not_or] at hshort
  simp [escape, hshort, hcontrol]

theorem escape_eq_self {c : Char} (hplain : ¬ c < ' ') (hshort : c ∉ shortEscapes) :
    escape c = [c] := by
  simp only [shortEscapes, List.mem_cons, List.not_mem_nil, or_false, not_or] at hshort
  simp [escape, hshort, hplain]

/-- **A character is read from its text**. -/
theorem scanString_escape (c : Char) (done : List Piece) (rest : List Char) :
    scanString done (escape c ++ rest) = scanString (pieceOf c :: done) rest := by
  by_cases hshort : c ∈ shortEscapes
  · simp only [shortEscapes, List.mem_cons, List.not_mem_nil, or_false] at hshort
    rcases hshort with rfl | rfl | rfl | rfl | rfl | rfl | rfl
    all_goals exact scanString_short done rest (by decide) rfl
  by_cases hcontrol : c < ' '
  · have hsmall : c.toNat < 256 := Nat.lt_trans hcontrol (by decide)
    rw [escape_eq_unit hcontrol hshort, pieceOf, if_pos ⟨hcontrol, hshort⟩]
    exact scanString_unit done rest (hexUnit?_hexDigit hsmall)
  · rw [escape_eq_self hcontrol hshort, pieceOf, if_neg fun h => hcontrol h.1]
    exact scanString_plain done rest hshort hcontrol

theorem scanString_flatMap_escape (s : List Char) (done : List Piece) (rest : List Char) :
    scanString done (s.flatMap escape ++ '"' :: rest) =
      .closed (done.reverse ++ s.map pieceOf) rest := by
  induction s generalizing done with
  | nil => simp [scanString_quote]
  | cons c s ih =>
    rw [List.flatMap_cons, List.append_assoc, scanString_escape, ih]
    simp

/-- A unit that is no half of a pair makes a character by itself. -/
theorem joinPieces_unit {n : Nat} (hsmall : n < 0xD800) (rest : List Piece) :
    joinPieces (.unit n :: rest) = (Char.ofNat n :: ·) <$> joinPieces rest := by
  have hleads : leadsPair n = false := decide_eq_false (by omega)
  have hends : endsPair n = false := decide_eq_false (by omega)
  rw [joinPieces.eq_def]
  simp only [hleads, hends, Bool.false_eq_true, if_false]

/-- The pieces of a string are joined to the string. -/
theorem joinPieces_map_pieceOf (s : List Char) : joinPieces (s.map pieceOf) = some s := by
  induction s with
  | nil => rfl
  | cons c s ih =>
    rw [List.map_cons, pieceOf]
    split
    · next h =>
      have hsmall : c.toNat < 0xD800 := Nat.lt_trans h.1 (by decide)
      rw [joinPieces_unit hsmall, ih, Char.ofNat_toNat]
      rfl
    · rw [joinPieces, ih]
      rfl

/-! ## Tokens -/

theorem tokens_string (s : String) (rest : List Char) :
    tokens (quote s.toList ++ rest) = .string (some s) :: tokens rest := by
  have hscan : scanString [] (s.toList.flatMap escape ++ '"' :: rest) =
      .closed (s.toList.map pieceOf) rest := scanString_flatMap_escape s.toList [] rest
  have hquote : quote s.toList ++ rest = '"' :: (s.toList.flatMap escape ++ '"' :: rest) := by
    simp [quote]
  rw [hquote, tokens, if_neg (by decide)]
  split
  · next pieces rest' h =>
    rw [hscan] at h
    cases h
    rw [joinPieces_map_pieceOf, Option.map_some, String.ofList_toList]
  · next f h =>
    rw [hscan] at h
    cases h

theorem tokens_null (rest : List Char) :
    tokens ('n' :: 'u' :: 'l' :: 'l' :: rest) = .null :: tokens rest := by
  rw [tokens, if_neg (by decide)]
  simp [scanWord]

theorem tokens_true (rest : List Char) :
    tokens ('t' :: 'r' :: 'u' :: 'e' :: rest) = .bool true :: tokens rest := by
  rw [tokens, if_neg (by decide)]
  simp [scanWord]

theorem tokens_false (rest : List Char) :
    tokens ('f' :: 'a' :: 'l' :: 's' :: 'e' :: rest) = .bool false :: tokens rest := by
  rw [tokens, if_neg (by decide)]
  simp [scanWord]

/-- The tokens of one character. -/
def punctuation : List (Char × Token) :=
  [('[', .openArray), (']', .closeArray), ('{', .openObject), ('}', .closeObject), (':', .colon),
    (',', .comma)]

theorem tokens_punctuation {c : Char} {t : Token} (h : (c, t) ∈ punctuation) (rest : List Char) :
    tokens (c :: rest) = t :: tokens rest := by
  simp only [punctuation, List.mem_cons, List.not_mem_nil, or_false, Prod.mk.injEq] at h
  rcases h with ⟨rfl, rfl⟩ | ⟨rfl, rfl⟩ | ⟨rfl, rfl⟩ | ⟨rfl, rfl⟩ | ⟨rfl, rfl⟩ | ⟨rfl, rfl⟩
  all_goals rw [tokens, if_neg (by decide)]

/-! ## Reading -/

namespace Progress

variable {p : Progress} {stack : List Frame}

/-- A reader takes the next token for the first one of a value, unless it ends an array. -/
def AwaitsValue (p : Progress) (stack : List Frame) : Prop :=
  ∀ t, t ≠ .closeArray → p.step t = takeValue stack t

theorem awaitsValue_value (stack : List Frame) : (reading stack .value).AwaitsValue stack :=
  fun _ _ => rfl

theorem awaitsValue_firstItem (stack : List Frame) :
    (reading (.items [] :: stack) .firstItem).AwaitsValue (.items [] :: stack) := by
  intro t ht
  cases t with
  | closeArray => exact absurd rfl ht
  | _ => rfl

/-- A reader takes the next token for a key, unless it ends an object. -/
def AwaitsKey (p : Progress) (stack : List Frame) : Prop :=
  ∀ t, t ≠ .closeObject → p.step t = takeKey stack t

theorem awaitsKey_firstKey (stack : List Frame) :
    (reading (.members [] :: stack) .firstKey).AwaitsKey (.members [] :: stack) := by
  intro t ht
  cases t with
  | closeObject => exact absurd rfl ht
  | _ => rfl

/-- A reader comes past the text of a value, from wherever it awaits one. -/
def Passes (v : Json) : Prop :=
  ∀ {p : Progress} {stack : List Frame} (rest : List Char), p.AwaitsValue stack →
    (tokens (v.render ++ rest)).foldl step p = (tokens rest).foldl step (settle v.toDraft stack)

/-- A reader comes past the items after the first one, and the end of their array. -/
theorem foldl_tokens_renderItems {items : List Json} (h : ∀ v ∈ items, Passes v)
    (done : List Draft) (rest : List Char) :
    (tokens (renderItems items ++ rest)).foldl step (.reading (.items done :: stack) .comma) =
      (tokens rest).foldl step (settle (.array (done.reverse ++ itemsToDraft items) none) stack) := by
  induction items generalizing done with
  | nil =>
    rw [renderItems, List.singleton_append, tokens_punctuation (t := .closeArray) (by decide)]
    simp [itemsToDraft, step, takeComma]
  | cons v others ih =>
    obtain ⟨hfirst, hothers⟩ := List.forall_mem_cons.mp h
    simp only [renderItems, List.cons_append, List.append_assoc]
    rw [tokens_punctuation (t := .comma) (by decide), List.foldl_cons]
    show (tokens _).foldl step (.reading (.items done :: stack) .value) = _
    rw [hfirst _ (awaitsValue_value _)]
    show (tokens _).foldl step (.reading (.items (v.toDraft :: done) :: stack) .comma) = _
    rw [ih hothers]
    simp [itemsToDraft]

/-- A reader comes past a member, from wherever it awaits a key. -/
theorem foldl_tokens_member {key : String} {v : Json} (h : Passes v)
    (done : List (Option String × Draft)) (rest : List Char)
    (hp : p.AwaitsKey (.members done :: stack)) :
    (tokens (quote key.toList ++ ':' :: (v.render ++ rest))).foldl step p =
      (tokens rest).foldl step
        (.reading (.members ((some key, v.toDraft) :: done) :: stack) .comma) := by
  rw [tokens_string, List.foldl_cons, hp (.string (some key)) nofun,
    tokens_punctuation (t := .colon) (by decide), List.foldl_cons]
  show (tokens _).foldl step (.reading (.member done (some key) :: stack) .value) = _
  rw [h _ (awaitsValue_value _)]
  rfl

theorem foldl_tokens_renderMembers {members : List (String × Json)} (h : ∀ m ∈ members, Passes m.2)
    (done : List (Option String × Draft)) (rest : List Char) :
    (tokens (renderMembers members ++ rest)).foldl step (.reading (.members done :: stack) .comma) =
      (tokens rest).foldl step
        (settle (.object (done.reverse ++ membersToDraft members) none) stack) := by
  induction members generalizing done with
  | nil =>
    rw [renderMembers, List.singleton_append, tokens_punctuation (t := .closeObject) (by decide)]
    simp [membersToDraft, step, takeComma]
  | cons m others ih =>
    obtain ⟨key, v⟩ := m
    obtain ⟨hfirst, hothers⟩ := List.forall_mem_cons.mp h
    simp only [renderMembers, List.cons_append, List.append_assoc]
    rw [tokens_punctuation (t := .comma) (by decide), List.foldl_cons]
    show (tokens _).foldl step (.reading (.members done :: stack) .key) = _
    rw [foldl_tokens_member hfirst done _ fun _ _ => rfl, ih hothers]
    simp [membersToDraft]

/-- **A reader comes past the text of a value**, and takes it for the value. -/
theorem passes_of_plain {depth : Nat} {v : Json} (h : Plain depth v) : Passes v := by
  induction h with
  | null =>
    intro p stack rest hp
    show (tokens ('n' :: 'u' :: 'l' :: 'l' :: rest)).foldl step p = _
    rw [tokens_null, List.foldl_cons, hp .null nofun]
    rfl
  | bool b =>
    intro p stack rest hp
    cases b with
    | false =>
      show (tokens ('f' :: 'a' :: 'l' :: 's' :: 'e' :: rest)).foldl step p = _
      rw [tokens_false, List.foldl_cons, hp (.bool false) nofun]
      rfl
    | true =>
      show (tokens ('t' :: 'r' :: 'u' :: 'e' :: rest)).foldl step p = _
      rw [tokens_true, List.foldl_cons, hp (.bool true) nofun]
      rfl
  | string s =>
    intro p stack rest hp
    rw [render, tokens_string, List.foldl_cons, hp (.string (some s)) nofun]
    rfl
  | @array depth items _ ih =>
    intro p stack rest hp
    cases items with
    | nil =>
      show (tokens ('[' :: ']' :: rest)).foldl step p = _
      rw [tokens_punctuation (t := .openArray) (by decide),
        tokens_punctuation (t := .closeArray) (by decide), List.foldl_cons, hp .openArray nofun]
      rfl
    | cons v others =>
      obtain ⟨hfirst, hothers⟩ := List.forall_mem_cons.mp ih
      simp only [render, List.cons_append, List.append_assoc]
      rw [tokens_punctuation (t := .openArray) (by decide), List.foldl_cons, hp .openArray nofun]
      show (tokens _).foldl step (.reading (.items [] :: stack) .firstItem) = _
      rw [hfirst _ (awaitsValue_firstItem stack)]
      exact foldl_tokens_renderItems hothers [v.toDraft] rest
  | @object depth members _ ih =>
    intro p stack rest hp
    cases members with
    | nil =>
      show (tokens ('{' :: '}' :: rest)).foldl step p = _
      rw [tokens_punctuation (t := .openObject) (by decide),
        tokens_punctuation (t := .closeObject) (by decide), List.foldl_cons, hp .openObject nofun]
      rfl
    | cons m others =>
      obtain ⟨key, v⟩ := m
      obtain ⟨hfirst, hothers⟩ := List.forall_mem_cons.mp ih
      simp only [render, List.cons_append, List.append_assoc]
      rw [tokens_punctuation (t := .openObject) (by decide), List.foldl_cons, hp .openObject nofun]
      show (tokens _).foldl step (.reading (.members [] :: stack) .firstKey) = _
      rw [foldl_tokens_member hfirst [] _ (awaitsKey_firstKey stack)]
      exact foldl_tokens_renderMembers hothers [(some key, v.toDraft)] rest

end Progress

/-! ## Depth -/

theorem limitItems_itemsToDraft {most : Nat} {items : List Json}
    (h : ∀ v ∈ items, v.toDraft.limit most = v.toDraft) :
    Draft.limitItems most (itemsToDraft items) = itemsToDraft items := by
  induction items with
  | nil => rfl
  | cons v rest ih =>
    obtain ⟨hfirst, hrest⟩ := List.forall_mem_cons.mp h
    rw [itemsToDraft, Draft.limitItems, hfirst, ih hrest]

theorem limitMembers_membersToDraft {most : Nat} {members : List (String × Json)}
    (h : ∀ m ∈ members, m.2.toDraft.limit most = m.2.toDraft) :
    Draft.limitMembers most (membersToDraft members) = membersToDraft members := by
  induction members with
  | nil => rfl
  | cons m rest ih =>
    obtain ⟨hfirst, hrest⟩ := List.forall_mem_cons.mp h
    rw [membersToDraft, Draft.limitMembers, hfirst, ih hrest]

namespace Plain

variable {depth : Nat} {v : Json}

/-- A value with one member. -/
theorem single (h : Plain depth v) (name : String) : Plain (depth + 1) (.object [(name, v)]) :=
  .object (by simpa using h)

/-- A list of values. -/
theorem list {α : Type} {toJson : α → Json} (h : ∀ a, Plain depth (toJson a)) (as : List α) :
    Plain (depth + 1) (.array (as.map toJson)) :=
  .array fun v hv => by
    obtain ⟨a, -, rfl⟩ := List.mem_map.mp hv
    exact h a

/-- A reader who may go so deep reads the whole value. -/
theorem limit_toDraft (h : Plain depth v) {most : Nat} (hmost : depth ≤ most) :
    v.toDraft.limit most = v.toDraft := by
  induction h generalizing most with
  | null => simp [toDraft, Draft.limit]
  | bool b => simp [toDraft, Draft.limit]
  | string s => simp [toDraft, Draft.limit]
  | array _ ih =>
    obtain ⟨less, rfl⟩ : ∃ less, most = less + 1 := ⟨most - 1, by omega⟩
    rw [toDraft, Draft.limit,
      limitItems_itemsToDraft fun v hv => ih v hv (Nat.le_of_succ_le_succ hmost)]
  | object _ ih =>
    obtain ⟨less, rfl⟩ : ∃ less, most = less + 1 := ⟨most - 1, by omega⟩
    rw [toDraft, Draft.limit,
      limitMembers_membersToDraft fun m hm => ih m hm (Nat.le_of_succ_le_succ hmost)]

/-- **The text of a value is read back as the value**, and nothing follows it. -/
theorem ofText_text (h : Plain depth v) (hdepth : depth ≤ maxDepth) :
    Document.ofText v.text = ⟨v.toDraft, false⟩ := by
  have hpass := Progress.passes_of_plain h [] (Progress.awaitsValue_value [])
  have hend : tokens [] = [] := by rw [tokens]
  rw [List.append_nil, hend] at hpass
  have hdocument : Document.ofTokens (tokens v.render) = ⟨v.toDraft, false⟩ :=
    congrArg Progress.finish hpass
  rw [Document.ofText, text, String.toList_ofList, hdocument]
  dsimp only
  rw [h.limit_toDraft hdepth]

/-- What is decoded from a value is decoded from its text. -/
theorem decodeText_text (h : Plain depth v) (hdepth : depth ≤ maxDepth) {α : Type}
    {decode : Decoder α} {a : α} (hdecode : decode v.toDraft = .ok a) :
    decodeText decode v.text = .ok a := by
  rw [decodeText, h.ofText_text hdepth]
  show (do let a ← decode v.toDraft; if false = true then _ else _) = _
  rw [hdecode]
  rfl

end Plain

end Signpost.Json
