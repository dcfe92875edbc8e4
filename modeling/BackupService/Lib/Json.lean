import Mathlib.Algebra.GroupWithZero.Nat
import Mathlib.Data.Int.Notation
import Mathlib.Data.List.Basic
import Mathlib.Data.Nat.Notation
import Mathlib.Tactic.Common

/-!
JSON data, and how a derived deserialiser reads a record from it.

A number is kept apart by its spelling: an integer literal is the integer,
everything else is a literal that no integer type accepts. The members of
an object are a list, since a key can occur twice.

A `Decoder` either reads a value or refuses. A record is read in two steps.
`members` finds what is given for each of the record's keys: in an object
under the key, where a key that is not the record's is skipped and one that
occurs twice is an error, and in an array at the key's position. Then each
field is read by its own decoder, and a field that is not given is treated as
its declaration says (`Members.required`, `Members.optional`,
`Members.orDefault`).

Of a value that is refused, the last section says what kind of thing the
reader of a text stops at: it goes through the text from the front, and
objects either to the text or to the data.
-/

namespace BackupService.Lib

inductive Json
  | null
  | bool (b : Bool)
  | int (n : ℤ)
  /-- A number that is not an integer literal. -/
  | float (literal : String)
  | string (s : String)
  | array (items : List Json)
  | object (members : List (String × Json))

namespace Json

abbrev Decoder (α : Type) := Json → Option α

/-! ### Scalars -/

section Scalars

def asBool : Decoder Bool
  | .bool b => some b
  | _ => none

def asString : Decoder String
  | .string s => some s
  | _ => none

/-- An integer from `lo` on and below `hi`. -/
def asInt (lo hi : ℤ) : Decoder ℤ
  | .int n => if lo ≤ n ∧ n < hi then some n else none
  | _ => none

/-- `null`, or what the decoder reads. -/
def asOption {α : Type} (decode : Decoder α) : Decoder (Option α)
  | .null => some none
  | j => (decode j).map some

variable {α : Type} {decode : Decoder α} {j : Json} {lo hi n : ℤ}

theorem asInt_eq_some : asInt lo hi j = some n ↔ j = .int n ∧ lo ≤ n ∧ n < hi := by
  cases j with
  | int m =>
      simp only [asInt, Option.ite_none_right_eq_some, Option.some.injEq, Json.int.injEq]
      constructor
      · rintro ⟨h, rfl⟩
        exact ⟨rfl, h⟩
      · rintro ⟨rfl, h⟩
        exact ⟨h, rfl⟩
  | null | bool | float | string | array | object => simp [asInt]

@[simp] theorem asOption_null : asOption decode .null = some none := rfl

theorem asOption_of_ne_null (h : j ≠ .null) : asOption decode j = (decode j).map some := by
  cases j with
  | null => exact absurd rfl h
  | bool | int | float | string | array | object => rfl

end Scalars

/-! ### Records -/

/-- What a record is read from. -/
structure Members where
  given : String → Option Json
  /-- It is an array, so fields can only be missing at its end. -/
  positional : Bool

/-- What is given for the fields `keys` of a record. -/
def members (keys : List String) : Json → Option Members
  | .object ms =>
      if ((ms.map Prod.fst).filter (· ∈ keys)).Nodup then some ⟨(List.lookup · ms), false⟩ else none
  | .array items =>
      if items.length ≤ keys.length then some ⟨(List.lookup · (keys.zip items)), true⟩ else none
  | _ => none

namespace Members

variable {α : Type} (m : Members) (key : String) (decode : Decoder α)

/-- A field that has to be there. -/
def required : Option α := (m.given key).bind decode

/-- A field of an `Option` type: an object may leave it out. -/
def optional {β : Type} (decode : Decoder (Option β)) : Option (Option β) :=
  match m.given key with
  | some j => decode j
  | none => if m.positional then none else some none

/-- A field with a default. -/
def orDefault (d : α) : Option α :=
  match m.given key with
  | some j => decode j
  | none => some d

end Members

/-! ### What a reader objects to first -/

/-- Whether it is the text or the data. -/
inductive Category
  | badSyntax
  | data
  deriving DecidableEq, Repr

section Numbers

/-- As many digits as fit into 64 bits, after `n`, and what is left of the
literal. -/
def significand : ℕ → List Char → ℕ × List Char
  | n, c :: cs =>
      if c.isDigit ∧ n * 10 + (c.toNat - 48) < 2 ^ 64 then significand (n * 10 + (c.toNat - 48)) cs
      else (n, c :: cs)
  | n, [] => (n, [])

/-- The nearest natural number of 53 significant bits, the even one of two. -/
def roundF64 (n : ℕ) : ℕ :=
  let ulp := 2 ^ (n.log2 - 52)
  let up : Bool := ulp < 2 * (n % ulp) ∨ ulp = 2 * (n % ulp) ∧ n / ulp % 2 = 1
  (n / ulp + up.toNat) * ulp

/-- `f64_from_parts` comes out infinite. -/
def infinite (n : ℕ) (exponent : ℤ) : Bool :=
  n ≠ 0 && 0 ≤ exponent &&
    (308 < exponent || 2 ^ 1024 - 2 ^ 970 ≤ roundF64 n * roundF64 (10 ^ exponent.toNat))

/-- No `f64` holds a number with this literal. -/
def outOfRange (literal : List Char) : Bool :=
  let (n, rest) := significand 0 (literal.dropWhile (· = '-'))
  let (left, rest) := rest.span Char.isDigit
  let (n, shift, rest) : ℕ × ℤ × List Char :=
    match rest with
    | '.' :: digits =>
        let (n, rest) := significand n digits
        (n, rest.length - digits.length, rest.dropWhile Char.isDigit)
    | _ => (n, 0, rest)
  let exponent : ℤ :=
    match rest with
    | _ :: '-' :: digits => -digits.foldl (fun v c => v * 10 + (c.toNat - 48 : ℕ)) 0
    | _ :: '+' :: digits | _ :: digits => digits.foldl (fun v c => v * 10 + (c.toNat - 48 : ℕ)) 0
    | [] => 0
  infinite n (left.length + shift + exponent)

end Numbers

/-- Something else was expected: a number is read before it is refused. -/
def mismatch : Json → Category
  | .int n => if outOfRange (Nat.toDigits 10 n.natAbs) then .badSyntax else .data
  | .float literal => if outOfRange literal.toList then .badSyntax else .data
  | _ => .data

/-- The objection to a value that is no scalar of the right kind. -/
def scalarObjection {α : Type} (decode : Decoder α) (j : Json) : Option Category :=
  if (decode j).isSome then none else some j.mismatch

def optionObjection (objection : Json → Option Category) : Json → Option Category
  | .null => none
  | j => objection j

section Records

/-- The fields of a record, in the order of their declaration, and the
objection there is to a value of each. -/
abbrev Fields := List (String × (Json → Option Category))

/-- A key that is given again is refused before its value is read; what is
left when no member has an objection is a field that is not given. -/
def memberObjection (fields : Fields) : List String → List (String × Json) → Category
  | _, [] => .data
  | seen, (key, j) :: ms =>
      match fields.lookup key with
      | none => memberObjection fields seen ms
      | some objection =>
          if key ∈ seen then .data
          else (objection j).getD (memberObjection fields (key :: seen) ms)

/-- Items that are left over are an objection to the text. -/
def itemObjection : Fields → List Json → Category
  | _, [] => .data
  | [], _ :: _ => .badSyntax
  | (_, objection) :: fields, j :: js => (objection j).getD (itemObjection fields js)

/-- The objection to a value from which the record is not read. -/
def recordObjection (fields : Fields) : Json → Category
  | .object ms => memberObjection fields [] ms
  | .array items => itemObjection fields items
  | j => j.mismatch

end Records

end Json

end BackupService.Lib
