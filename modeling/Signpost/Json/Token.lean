import Signpost.Json.Basic

/-!
# Tokens of a JSON text

A JSON text is cut into tokens from left to right.  Cutting stops at the first place where no token
can be read; a last `Token.broken` says why.  Two kinds of token can be read although they have no
value, so that a reader who skips them need not refuse the text: a number beyond the finite
binary64 numbers, and a string with half a surrogate pair.

## Main definitions

* `Json.Fault`: why a text, or the value in it, is refused.
* `Json.Token`, `Json.tokens`
* `Json.NumberText`: the parts of a number as written, and `NumberText.value?`.
-/

namespace Signpost.Json

/-- Why a JSON text is refused. -/
inductive Fault where
  /-- The text breaks the rules of the format. -/
  | malformed
  /-- The text ends too early. -/
  | truncated
  /-- The text is well formed, but its value has another shape than was asked for. -/
  | shape
deriving DecidableEq, Repr

/-- The name of the kind of a fault. -/
def Fault.kind : Fault → String
  | .malformed => "syntax"
  | .truncated => "eof"
  | .shape => "data"

/-- A token of a JSON text. -/
inductive Token where
  | openArray
  | closeArray
  | openObject
  | closeObject
  | colon
  | comma
  | null
  | bool (b : Bool)
  /-- A number, or none if it is beyond the finite binary64 numbers. -/
  | number (n : Option Number)
  /-- A string, or none if it has half a surrogate pair. -/
  | string (s : Option String)
  /-- No token can be read here; the flag says whether a string was begun. -/
  | broken (inString : Bool) (fault : Fault)
deriving DecidableEq

/-! ## Strings -/

/-- A piece of a string as written: a character, or a 16-bit unit given in hexadecimal. -/
inductive Piece where
  | char (c : Char)
  | unit (n : Nat)
deriving DecidableEq

/-- The value of a hexadecimal digit. -/
def hexDigit? (c : Char) : Option Nat :=
  if '0' ≤ c ∧ c ≤ '9' then some (c.toNat - '0'.toNat)
  else if 'a' ≤ c ∧ c ≤ 'f' then some (c.toNat - 'a'.toNat + 10)
  else if 'A' ≤ c ∧ c ≤ 'F' then some (c.toNat - 'A'.toNat + 10)
  else none

/-- The unit that four hexadecimal digits give. -/
def hexUnit? (a b c d : Char) : Option Nat := do
  let a ← hexDigit? a
  let b ← hexDigit? b
  let c ← hexDigit? c
  let d ← hexDigit? d
  return ((a * 16 + b) * 16 + c) * 16 + d

/-- The character that a one-letter escape stands for. -/
def escaped? : Char → Option Char
  | '"' => some '"'
  | '\\' => some '\\'
  | '/' => some '/'
  | 'b' => some '\x08'
  | 'f' => some '\x0c'
  | 'n' => some '\n'
  | 'r' => some '\r'
  | 't' => some '\t'
  | _ => none

/-- Whether a unit is the first half of a surrogate pair. -/
def leadsPair (n : Nat) : Bool := decide (0xD800 ≤ n ∧ n < 0xDC00)

/-- Whether a unit is the second half of a surrogate pair. -/
def endsPair (n : Nat) : Bool := decide (0xDC00 ≤ n ∧ n < 0xE000)

/-- The characters of a string's pieces: two units that are the halves of a pair make one character;
a half that stands alone makes the string unusable. -/
def joinPieces : List Piece → Option (List Char)
  | [] => some []
  | .char c :: rest => (c :: ·) <$> joinPieces rest
  | .unit n :: rest =>
    if leadsPair n then
      match rest with
      | .unit m :: rest =>
        if endsPair m then
          (Char.ofNat ((n - 0xD800) * 0x400 + (m - 0xDC00) + 0x10000) :: ·) <$> joinPieces rest
        else none
      | _ => none
    else if endsPair n then none
    else (Char.ofNat n :: ·) <$> joinPieces rest

/-- What is found when the rest of a string is read. -/
inductive StringScan where
  | closed (pieces : List Piece) (rest : List Char)
  | broken (fault : Fault)

/-- How many bytes the first characters of a text take, counted no further than four. -/
def bytesUpToFour : List Char → Nat
  | [] => 0
  | c :: rest => c.utf8Size + (if 4 ≤ c.utf8Size then 0 else bytesUpToFour rest)

/-- Reads the rest of a string after its opening quote.  The pieces read so far come last one
first. -/
def scanString (done : List Piece) : List Char → StringScan
  | [] => .broken .truncated
  | c :: rest =>
    if c = '"' then .closed done.reverse rest
    else if c = '\\' then
      match rest with
      | [] => .broken .truncated
      | e :: rest =>
        if e = 'u' then
          match rest with
          | a :: b :: c :: d :: rest =>
            match hexUnit? a b c d with
            | some n => scanString (.unit n :: done) rest
            | none => .broken .malformed
          -- four bytes are looked at as a whole, whatever characters they make
          | short => .broken (if bytesUpToFour short < 4 then .truncated else .malformed)
        else
          match escaped? e with
          | some x => scanString (.char x :: done) rest
          | none => .broken .malformed
    else if c < ' ' then .broken .malformed
    else scanString (.char c :: done) rest

/-- Reading a string consumes at least its closing quote. -/
theorem scanString_length {done : List Piece} {cs : List Char} {pieces : List Piece}
    {rest : List Char} (h : scanString done cs = .closed pieces rest) :
    rest.length < cs.length := by
  fun_induction scanString done cs with
  | case1 => cases h
  | case2 => cases h; simp
  | case3 => cases h
  | case4 _ _ _ _ _ _ _ _ _ ih => have := ih h; simp only [List.length_cons] at *; omega
  | case5 => cases h
  | case6 => cases h
  | case7 _ _ _ _ _ _ _ ih => have := ih h; simp only [List.length_cons] at *; omega
  | case8 => cases h
  | case9 => cases h
  | case10 _ _ _ _ _ _ ih => have := ih h; simp only [List.length_cons] at *; omega

/-! ## Numbers -/

/-- The parts of a number as written. -/
structure NumberText where
  negative : Bool
  whole : List Char
  /-- The digits after the point, if there is one. -/
  fraction : Option (List Char)
  /-- The sign and digits of the exponent, if there is one; the flag says whether it is negative. -/
  exponent : Option (Bool × List Char)

namespace NumberText

/-- The value of a list of decimal digits. -/
def digitsValue (ds : List Char) : Nat :=
  ds.foldl (fun n d => n * 10 + (d.toNat - '0'.toNat)) 0

/-- A significand that has taken the digits read so far, and the power of ten that scales it. -/
structure Scaled where
  significand : Nat
  exponent : Int
  /-- Whether a digit was left out because the significand has no room for it. -/
  full : Bool

/-- Takes one digit of the whole part.  Once a digit does not fit into 64 bits, it and all later
ones only raise the exponent. -/
def Scaled.pushWhole (s : Scaled) (d : Char) : Scaled :=
  let next := s.significand * 10 + (d.toNat - '0'.toNat)
  if s.full ∨ UInt64.size ≤ next then ⟨s.significand, s.exponent + 1, true⟩
  else ⟨next, s.exponent, false⟩

/-- Takes one digit of the fraction.  Once a digit does not fit into 64 bits, it and all later ones
are left out. -/
def Scaled.pushFraction (s : Scaled) (d : Char) : Scaled :=
  let next := s.significand * 10 + (d.toNat - '0'.toNat)
  if s.full ∨ UInt64.size ≤ next then { s with full := true } else ⟨next, s.exponent - 1, false⟩

/-- The value of a number: an integer if it is written as one and fits into 64 bits, and otherwise
a binary64 number, `none` if it is too large to be finite.  `-0` is a binary64 number. -/
def value? (t : NumberText) : Option Number :=
  let whole := t.whole.foldl Scaled.pushWhole ⟨0, 0, false⟩
  let real (s : Scaled) (shift : Int) : Option Number :=
    (Binary64.ofDecimal? t.negative s.significand (s.exponent + shift)).map .real
  match t.fraction, t.exponent with
  | none, none =>
    let i : Int := if t.negative then -whole.significand else whole.significand
    if fits : -0x8000000000000000 ≤ i ∧ i < 0x10000000000000000 then
      if whole.full ∨ (t.negative ∧ i = 0) then real whole 0 else some (.integer i fits)
    else real whole 0
  -- the fraction is tried afresh: a smaller digit may fit where a larger one did not
  | fraction, exponent =>
    let s := (fraction.getD []).foldl Scaled.pushFraction { whole with full := false }
    let shift : Int := match exponent with
      | none => 0
      | some (negative, ds) => if negative then -digitsValue ds else digitsValue ds
    real s shift

end NumberText

/-- What is found when a number is read. -/
inductive NumberScan where
  | read (text : NumberText) (rest : List Char)
  | broken (fault : Fault)

/-- A digit was expected: the text ends here, or goes on with something else. -/
def missingDigit (rest : List Char) : Fault := if rest.isEmpty then .truncated else .malformed

/-- Reads the exponent of a number, if there is one. -/
def scanExponent (t : NumberText) : List Char → NumberScan
  | [] => .read t []
  | c :: rest =>
    if c = 'e' ∨ c = 'E' then
      let (negative, rest) := match rest with
        | '+' :: rest => (false, rest)
        | '-' :: rest => (true, rest)
        | rest => (false, rest)
      let ds := rest.takeWhile Char.isDigit
      let rest := rest.dropWhile Char.isDigit
      if ds.isEmpty then .broken (missingDigit rest)
      else .read { t with exponent := some (negative, ds) } rest
    else .read t (c :: rest)

/-- Reads the fraction and the exponent of a number, if there are any. -/
def scanFraction (t : NumberText) : List Char → NumberScan
  | [] => .read t []
  | c :: rest =>
    if c = '.' then
      let ds := rest.takeWhile Char.isDigit
      let rest := rest.dropWhile Char.isDigit
      if ds.isEmpty then .broken (missingDigit rest)
      else scanExponent { t with fraction := some ds } rest
    else scanExponent t (c :: rest)

/-- Reads a number after its sign.  Its whole part has no zero in front. -/
def scanNumber (negative : Bool) (cs : List Char) : NumberScan :=
  let ds := cs.takeWhile Char.isDigit
  let rest := cs.dropWhile Char.isDigit
  match ds with
  | [] => .broken (missingDigit rest)
  | '0' :: _ :: _ => .broken .malformed
  | ds => scanFraction ⟨negative, ds, none, none⟩ rest

private theorem length_dropWhile_digit_le (cs : List Char) :
    (cs.dropWhile Char.isDigit).length ≤ cs.length :=
  (List.dropWhile_suffix _).length_le

theorem scanExponent_length {t t' : NumberText} {cs rest : List Char}
    (h : scanExponent t cs = .read t' rest) : rest.length ≤ cs.length := by
  unfold scanExponent at h
  split at h
  · cases h; simp
  · split at h
    · next c tail _ =>
      -- whatever is left after the sign, the digits come off it
      have key : ∀ {b : Bool} {r : List Char}, r.length ≤ tail.length →
          (if (r.takeWhile Char.isDigit).isEmpty then
            NumberScan.broken (missingDigit (r.dropWhile Char.isDigit))
          else .read { t with exponent := some (b, r.takeWhile Char.isDigit) }
            (r.dropWhile Char.isDigit)) = .read t' rest →
          rest.length ≤ (c :: tail).length := by
        intro b r hr h'
        split at h'
        · cases h'
        · cases h'
          have := length_dropWhile_digit_le r
          simp only [List.length_cons]; omega
      dsimp only at h
      split at h
      · exact key (by simp) h
      · exact key (by simp) h
      · exact key (Nat.le_refl _) h
    · cases h; exact Nat.le_refl _

theorem scanFraction_length {t t' : NumberText} {cs rest : List Char}
    (h : scanFraction t cs = .read t' rest) : rest.length ≤ cs.length := by
  unfold scanFraction at h
  split at h
  · cases h; simp
  · split at h
    · next c tail _ =>
      dsimp only at h
      split at h
      · cases h
      · have := scanExponent_length h
        have := length_dropWhile_digit_le tail
        simp only [List.length_cons]; omega
    · exact scanExponent_length h

/-- Reading a number consumes at least one digit. -/
theorem scanNumber_length {negative : Bool} {t : NumberText} {cs rest : List Char}
    (h : scanNumber negative cs = .read t rest) : rest.length < cs.length := by
  unfold scanNumber at h
  have split_length : cs.length =
      (cs.takeWhile Char.isDigit).length + (cs.dropWhile Char.isDigit).length := by
    rw [← List.length_append, List.takeWhile_append_dropWhile]
  dsimp only at h
  split at h
  · cases h
  · cases h
  · next ds hne _ =>
    have := scanFraction_length h
    have : (cs.takeWhile Char.isDigit).length ≠ 0 := by
      intro h0; exact hne (List.length_eq_zero_iff.mp h0)
    omega

/-! ## Tokens -/

/-- The blanks that may stand between tokens. -/
def isBlank (c : Char) : Bool := c == ' ' || c == '\t' || c == '\n' || c == '\r'

/-- Takes a word off a text, or says how it fails. -/
def scanWord : List Char → List Char → Except Fault (List Char)
  | [], cs => .ok cs
  | _ :: _, [] => .error .truncated
  | w :: ws, c :: cs => if w = c then scanWord ws cs else .error .malformed

theorem scanWord_length {word cs rest : List Char} (h : scanWord word cs = .ok rest) :
    rest.length ≤ cs.length := by
  fun_induction scanWord word cs with
  | case1 => cases h; exact Nat.le_refl _
  | case2 => cases h
  | case3 _ _ _ ih => have := ih h; simp only [List.length_cons]; omega
  | case4 => cases h

/-- The tokens of a text. -/
def tokens : List Char → List Token
  | [] => []
  | c :: rest =>
    if isBlank c then tokens rest
    else match c with
    | '[' => .openArray :: tokens rest
    | ']' => .closeArray :: tokens rest
    | '{' => .openObject :: tokens rest
    | '}' => .closeObject :: tokens rest
    | ':' => .colon :: tokens rest
    | ',' => .comma :: tokens rest
    | '"' =>
      match h : scanString [] rest with
      | .closed pieces rest' =>
        have := scanString_length h
        .string ((joinPieces pieces).map String.ofList) :: tokens rest'
      | .broken f => [.broken true f]
    | 'n' =>
      match h : scanWord ['u', 'l', 'l'] rest with
      | .ok rest' => have := scanWord_length h; .null :: tokens rest'
      | .error f => [.broken false f]
    | 't' =>
      match h : scanWord ['r', 'u', 'e'] rest with
      | .ok rest' => have := scanWord_length h; .bool true :: tokens rest'
      | .error f => [.broken false f]
    | 'f' =>
      match h : scanWord ['a', 'l', 's', 'e'] rest with
      | .ok rest' => have := scanWord_length h; .bool false :: tokens rest'
      | .error f => [.broken false f]
    | '-' =>
      match h : scanNumber true rest with
      | .read t rest' => have := scanNumber_length h; .number t.value? :: tokens rest'
      | .broken f => [.broken false f]
    | c =>
      if c.isDigit then
        match h : scanNumber false (c :: rest) with
        | .read t rest' => have := scanNumber_length h; .number t.value? :: tokens rest'
        | .broken f => [.broken false f]
      else [.broken false .malformed]
termination_by cs => cs.length
decreasing_by all_goals simp only [List.length_cons] at *; omega

end Signpost.Json
