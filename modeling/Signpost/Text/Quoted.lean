import Signpost.Text.Printable

/-!
# Quoted text for reading

A text shown to a reader stands in quotes.  The quote, the backslash, the usual control characters
and the null character are written with a backslash and a letter; every other character that is not
printable is written as its code point in hexadecimal, between braces.

## Main definitions

* `Text.quoted`
-/

namespace Signpost.Text

/-- The lower-case hexadecimal digits of a number. -/
def hexDigits (n : Nat) : List Char := Nat.toDigits 16 n

/-- How one character is shown in a quoted text. -/
def shownChar (c : Char) : List Char :=
  match c with
  | '"' => ['\\', '"']
  | '\\' => ['\\', '\\']
  | '\n' => ['\\', 'n']
  | '\r' => ['\\', 'r']
  | '\t' => ['\\', 't']
  | '\x00' => ['\\', '0']
  | c =>
    if isPrintable c then [c]
    else ['\\', 'u', '{'] ++ hexDigits c.toNat ++ ['}']

/-- A text in quotes, with what cannot be seen written out. -/
def quoted (s : String) : String :=
  String.ofList ('"' :: s.toList.flatMap shownChar ++ ['"'])

end Signpost.Text
