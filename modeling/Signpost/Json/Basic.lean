import Signpost.Binary64

/-!
# JSON values

A JSON value is a tree of nulls, truth values, numbers, strings, arrays and objects.  A number is
an integer that fits into 64 bits, signed or unsigned, or a finite binary64 number; the two are
never the same value of this type, though `Number.agrees` compares them by value.

The members of an object are a list of pairs.  `Json.canonical` sorts them by key and keeps the
last of several members with one key; `Json.DistinctKeys` says that every object of a value has
each key once.

## Main definitions

* `Json`, `Json.Number`
* `Json.get?`: the member of an object.
* `Json.canonical`: the value with sorted members.
* `Json.agrees`: structural equality with numbers compared by value.
-/

namespace Signpost

/-- A number of a JSON value. -/
inductive Json.Number where
  /-- An integer of at most 64 bits, signed or unsigned. -/
  | integer (i : Int) (fits : -0x8000000000000000 ≤ i ∧ i < 0x10000000000000000)
  /-- A finite binary64 number. -/
  | real (x : Binary64)
deriving DecidableEq

/-- A JSON value. -/
inductive Json where
  | null
  | bool (b : Bool)
  | number (n : Json.Number)
  | string (s : String)
  | array (items : List Json)
  | object (members : List (String × Json))
deriving Inhabited

namespace Json

/-! ## Numbers -/

namespace Number

/-- The number of a natural number below 2^64; larger ones become binary64 numbers. -/
def ofNat (n : Nat) : Number :=
  if h : n < 0x10000000000000000 then .integer n ⟨by omega, by omega⟩ else .real (.ofInt n)

/-- The integer as a signed 64-bit integer. -/
def signed? : Number → Option Int
  | .integer i _ => if i < 0x8000000000000000 then some i else none
  | .real _ => none

/-- The integer as an unsigned 64-bit integer. -/
def unsigned? : Number → Option Nat
  | .integer i _ => if 0 ≤ i then some i.toNat else none
  | .real _ => none

/-- The number as a binary64 number, an integer being rounded to the nearest one. -/
def toReal : Number → Binary64
  | .integer i _ => .ofInt i
  | .real x => x

/-- Equality by value: as signed integers, else as unsigned integers, else as binary64 numbers. -/
def agrees (m n : Number) : Bool :=
  match m.signed?, n.signed? with
  | some i, some j => i == j
  | _, _ =>
    match m.unsigned?, n.unsigned? with
    | some i, some j => i == j
    | _, _ => m.toReal.sameValue n.toReal

end Number

/-- The JSON number of a natural number. -/
def ofNat (n : Nat) : Json := .number (.ofNat n)

/-- The JSON form of a value that may be missing. -/
def orNull {α : Type} (toJson : α → Json) : Option α → Json
  | some a => toJson a
  | none => .null

/-! ## Objects -/

/-- The first member with the given key. -/
def lookup (key : String) : List (String × Json) → Option Json
  | [] => none
  | (k, v) :: rest => if k = key then some v else lookup key rest

/-- The member of an object with the given key; other values have no members. -/
def get? (v : Json) (key : String) : Option Json :=
  match v with
  | .object members => lookup key members
  | _ => none

/-- Puts a member into a list sorted by key, replacing the one with its key. -/
def insertMember (key : String) (value : Json) : List (String × Json) → List (String × Json)
  | [] => [(key, value)]
  | (k, v) :: rest =>
    if key < k then (key, value) :: (k, v) :: rest
    else if key = k then (key, value) :: rest
    else (k, v) :: insertMember key value rest

/-- The members sorted by key, the last one of each key. -/
def sortMembers (members : List (String × Json)) : List (String × Json) :=
  members.foldl (fun sorted m => insertMember m.1 m.2 sorted) []

mutual

/-- The value with the members of every object sorted by key, the last one of each key. -/
def canonical : Json → Json
  | .array items => .array (canonicalItems items)
  | .object members => .object (sortMembers (canonicalMembers members))
  | v => v

/-- The canonical form of each item. -/
def canonicalItems : List Json → List Json
  | [] => []
  | v :: rest => canonical v :: canonicalItems rest

/-- The canonical form of each member's value. -/
def canonicalMembers : List (String × Json) → List (String × Json)
  | [] => []
  | (k, v) :: rest => (k, canonical v) :: canonicalMembers rest

end

/-- Every object of the value has each of its keys once. -/
inductive DistinctKeys : Json → Prop
  | null : DistinctKeys .null
  | bool (b : Bool) : DistinctKeys (.bool b)
  | number (n : Number) : DistinctKeys (.number n)
  | string (s : String) : DistinctKeys (.string s)
  | array {items : List Json} (each : ∀ v ∈ items, DistinctKeys v) : DistinctKeys (.array items)
  | object {members : List (String × Json)} (distinct : (members.map Prod.fst).Nodup)
      (each : ∀ m ∈ members, DistinctKeys m.2) : DistinctKeys (.object members)

/-! ## Equality by value -/

mutual

/-- Structural equality in which numbers compare by value.  Objects agree when they have equally
many members and each member of the left one agrees with the right one's member of that key. -/
def agrees : Json → Json → Bool
  | .null, .null => true
  | .bool a, .bool b => a == b
  | .number m, .number n => m.agrees n
  | .string s, .string t => s == t
  | .array xs, .array ys => agreeItems xs ys
  | .object xs, .object ys => xs.length == ys.length && agreeMembers xs ys
  | _, _ => false

/-- Two lists of equal length whose items agree pairwise. -/
def agreeItems : List Json → List Json → Bool
  | [], [] => true
  | x :: xs, y :: ys => agrees x y && agreeItems xs ys
  | _, _ => false

/-- Each member agrees with the member of the same key on the other side. -/
def agreeMembers : List (String × Json) → List (String × Json) → Bool
  | [], _ => true
  | (key, x) :: rest, ys =>
    (match lookup key ys with
      | some y => agrees x y
      | none => false) && agreeMembers rest ys

end

/-! ## Equality -/

mutual

/-- Decides whether two values are equal. -/
def eq : (v w : Json) → Decidable (v = w)
  | .null, w => match w with
    | .null => .isTrue rfl
    | .bool _ | .number _ | .string _ | .array _ | .object _ => .isFalse nofun
  | .bool a, w => match w with
    | .bool b => if h : a = b then .isTrue (h ▸ rfl) else .isFalse fun e => h (by cases e; rfl)
    | .null | .number _ | .string _ | .array _ | .object _ => .isFalse nofun
  | .number m, w => match w with
    | .number n => if h : m = n then .isTrue (h ▸ rfl) else .isFalse fun e => h (by cases e; rfl)
    | .null | .bool _ | .string _ | .array _ | .object _ => .isFalse nofun
  | .string s, w => match w with
    | .string t => if h : s = t then .isTrue (h ▸ rfl) else .isFalse fun e => h (by cases e; rfl)
    | .null | .bool _ | .number _ | .array _ | .object _ => .isFalse nofun
  | .array xs, w => match w with
    | .array ys => match eqItems xs ys with
      | .isTrue h => .isTrue (h ▸ rfl)
      | .isFalse h => .isFalse fun e => h (by cases e; rfl)
    | .null | .bool _ | .number _ | .string _ | .object _ => .isFalse nofun
  | .object xs, w => match w with
    | .object ys => match eqMembers xs ys with
      | .isTrue h => .isTrue (h ▸ rfl)
      | .isFalse h => .isFalse fun e => h (by cases e; rfl)
    | .null | .bool _ | .number _ | .string _ | .array _ => .isFalse nofun

/-- Decides whether two lists of values are equal. -/
def eqItems : (xs ys : List Json) → Decidable (xs = ys)
  | [], [] => .isTrue rfl
  | [], _ :: _ => .isFalse nofun
  | _ :: _, [] => .isFalse nofun
  | x :: xs, y :: ys => match eq x y, eqItems xs ys with
    | .isTrue h, .isTrue h' => .isTrue (h ▸ h' ▸ rfl)
    | .isFalse h, _ => .isFalse fun e => h (by cases e; rfl)
    | _, .isFalse h => .isFalse fun e => h (by cases e; rfl)

/-- Decides whether two lists of members are equal. -/
def eqMembers : (xs ys : List (String × Json)) → Decidable (xs = ys)
  | [], [] => .isTrue rfl
  | [], _ :: _ => .isFalse nofun
  | _ :: _, [] => .isFalse nofun
  | (k, x) :: xs, (l, y) :: ys =>
    if hk : k = l then match eq x y, eqMembers xs ys with
      | .isTrue h, .isTrue h' => .isTrue (hk ▸ h ▸ h' ▸ rfl)
      | .isFalse h, _ => .isFalse fun e => h (by cases e; rfl)
      | _, .isFalse h => .isFalse fun e => h (by cases e; rfl)
    else .isFalse fun e => hk (by cases e; rfl)

end

instance : DecidableEq Json := eq

end Json

end Signpost
