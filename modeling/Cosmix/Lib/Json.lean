/- digest: JSON values with integer numbers: compact text, grammar and parser. -/

import Mathlib.Algebra.Order.Ring.Int
import Mathlib.Data.List.Sort
import Mathlib.Data.String.Basic

namespace Cosmix.Lib

inductive Json
  | null
  | bool (b : Bool)
  | number (n : Int)
  | string (s : String)
  | array (items : List Json)
  | object (members : List (String × Json))

namespace Json

/-- What to make of each kind of value. -/
structure Cases (β : Type) where
  null : β
  bool : Bool → β
  number : Int → β
  string : String → β
  array : List β → β
  object : List (String × β) → β

section

variable {β : Type} (f : Cases β)

mutual

def fold : Json → β
  | .null => f.null
  | .bool b => f.bool b
  | .number n => f.number n
  | .string s => f.string s
  | .array items => f.array (foldItems items)
  | .object members => f.object (foldMembers members)

def foldItems : List Json → List β
  | [] => []
  | v :: items => fold v :: foldItems items

def foldMembers : List (String × Json) → List (String × β)
  | [] => []
  | (k, v) :: members => (k, fold v) :: foldMembers members

end

@[simp] theorem fold_null : fold f .null = f.null := rfl

@[simp] theorem fold_bool (b : Bool) : fold f (.bool b) = f.bool b := rfl

@[simp] theorem fold_number (n : Int) : fold f (.number n) = f.number n := rfl

@[simp] theorem fold_string (s : String) : fold f (.string s) = f.string s := rfl

theorem foldItems_eq (items : List Json) : foldItems f items = items.map (fold f) := by
  induction items with
  | nil => rfl
  | cons v items ih => rw [foldItems, ih, List.map_cons]

theorem foldMembers_eq (members : List (String × Json)) :
    foldMembers f members = members.map fun m => (m.1, fold f m.2) := by
  induction members with
  | nil => rfl
  | cons m members ih => rw [foldMembers, ih, List.map_cons]

@[simp] theorem fold_array (items : List Json) :
    fold f (.array items) = f.array (items.map (fold f)) := by
  rw [fold, foldItems_eq]

@[simp] theorem fold_object (members : List (String × Json)) :
    fold f (.object members) = f.object (members.map fun m => (m.1, fold f m.2)) := by
  rw [fold, foldMembers_eq]

end

/-- What holds of a value when it holds of all that stand in it holds of every value. -/
@[elab_as_elim] theorem nested {P : Json → Prop} (null : P .null) (bool : ∀ b, P (.bool b))
    (number : ∀ n, P (.number n)) (string : ∀ s, P (.string s))
    (array : ∀ items, (∀ v ∈ items, P v) → P (.array items))
    (object : ∀ members, (∀ m ∈ members, P m.2) → P (.object members)) (v : Json) : P v := by
  refine @Json.rec P (fun items => ∀ v ∈ items, P v) (fun members => ∀ m ∈ members, P m.2)
    (fun m => P m.2) null bool number string array object nofun ?_ nofun ?_ (fun _ _ h => h) v
  · intro v items hv hitems w hw
    rcases List.mem_cons.mp hw with rfl | hw
    · exact hv
    · exact hitems w hw
  · intro m members hm hmembers w hw
    rcases List.mem_cons.mp hw with rfl | hw
    · exact hm
    · exact hmembers w hw

def get : Json → String → Option Json
  | .object members, key => members.lookup key
  | _, _ => none

def asStr : Json → Option String
  | .string s => some s
  | _ => none

def asBool : Json → Option Bool
  | .bool b => some b
  | _ => none

/-- A number that 64 bits hold without a sign. -/
def asU64 : Json → Option UInt64
  | .number n => if 0 ≤ n ∧ n < 2 ^ 64 then some (UInt64.ofNat n.toNat) else none
  | _ => none

def asArray : Json → Option (List Json)
  | .array items => some items
  | _ => none

/-- The texts one after the other, with commas between them. -/
def commas : List (List Char) → List Char
  | [] => []
  | [t] => t
  | t :: u :: ts => t ++ ',' :: commas (u :: ts)

/-- A char of a string: escaped only where JSON asks for it. -/
def escape (c : Char) : List Char :=
  if c = '"' then ['\\', '"']
  else if c = '\\' then ['\\', '\\']
  else if c = '\n' then ['\\', 'n']
  else if c = '\r' then ['\\', 'r']
  else if c = '\t' then ['\\', 't']
  else if c = '\x08' then ['\\', 'b']
  else if c = '\x0c' then ['\\', 'f']
  else if c.toNat < 0x20 then
    ['\\', 'u', '0', '0', Nat.digitChar (c.toNat / 16), Nat.digitChar (c.toNat % 16)]
  else [c]

def quote (s : String) : List Char := '"' :: (s.toList.flatMap escape ++ ['"'])

def decimal (n : Int) : List Char :=
  if 0 ≤ n then Nat.toDigits 10 n.toNat else '-' :: Nat.toDigits 10 n.natAbs

def textCases : Cases (List Char) where
  null := "null".toList
  bool b := if b then "true".toList else "false".toList
  number := decimal
  string := quote
  array items := '[' :: (commas items ++ [']'])
  object members := '{' :: (commas (members.map fun m => quote m.1 ++ ':' :: m.2) ++ ['}'])

def print : Json → List Char := fold textCases

def depthCases : Cases Nat where
  null := 0
  bool _ := 0
  number _ := 0
  string _ := 0
  array items := items.foldr max 0 + 1
  object members := (members.map Prod.snd).foldr max 0 + 1

def depth : Json → Nat := fold depthCases

/-- An integer that 64 bits hold, with or without a sign. -/
def Fits (n : Int) : Prop := -9223372036854775808 ≤ n ∧ n < 18446744073709551616

instance (n : Int) : Decidable (Fits n) := inferInstanceAs (Decidable (_ ∧ _))

def rangeCases : Cases Prop where
  null := True
  bool _ := True
  number := Fits
  string _ := True
  array items := ∀ p ∈ items, p
  object members := ∀ m ∈ members, m.2

def InRange : Json → Prop := fold rangeCases

def distinctCases : Cases Prop where
  null := True
  bool _ := True
  number _ := True
  string _ := True
  array items := ∀ p ∈ items, p
  object members := (members.map Prod.fst).Nodup ∧ ∀ m ∈ members, m.2

def Distinct : Json → Prop := fold distinctCases

def blank (c : Char) : Bool := c == ' ' || c == '\t' || c == '\n' || c == '\r'

variable (cs : List Char)

def skipBlank : List Char := cs.dropWhile blank

def hexValue (c : Char) : Option Nat :=
  if '0' ≤ c ∧ c ≤ '9' then some (c.toNat - '0'.toNat)
  else if 'a' ≤ c ∧ c ≤ 'f' then some (c.toNat - 'a'.toNat + 10)
  else if 'A' ≤ c ∧ c ≤ 'F' then some (c.toNat - 'A'.toNat + 10)
  else none

def hexFour : List Char → Option (Nat × List Char)
  | a :: b :: c :: d :: rest => do
    let a ← hexValue a
    let b ← hexValue b
    let c ← hexValue c
    let d ← hexValue d
    some (((a * 16 + b) * 16 + c) * 16 + d, rest)
  | _ => none

/-- A code unit, or the first half of a pair and then the second. -/
def unicodeEscape : Option (Char × List Char) := do
  let (n, rest) ← hexFour cs
  if 0xD800 ≤ n ∧ n < 0xDC00 then
    match rest with
    | '\\' :: 'u' :: rest =>
      let (m, rest) ← hexFour rest
      if 0xDC00 ≤ m ∧ m < 0xE000 then
        some (Char.ofNat (0x10000 + (n - 0xD800) * 0x400 + (m - 0xDC00)), rest)
      else none
    | _ => none
  else if 0xDC00 ≤ n ∧ n < 0xE000 then none
  else some (Char.ofNat n, rest)

def unescape : List Char → Option (Char × List Char)
  | [] => none
  | c :: rest =>
    if c = '"' then some ('"', rest)
    else if c = '\\' then some ('\\', rest)
    else if c = '/' then some ('/', rest)
    else if c = 'b' then some ('\x08', rest)
    else if c = 'f' then some ('\x0c', rest)
    else if c = 'n' then some ('\n', rest)
    else if c = 'r' then some ('\r', rest)
    else if c = 't' then some ('\t', rest)
    else if c = 'u' then unicodeEscape rest
    else none

/-- The chars of a string up to its closing quote, and the rest. -/
def parseChars : Nat → List Char → Option (List Char × List Char)
  | 0, _ => none
  | _, [] => none
  | fuel + 1, c :: rest =>
    if c = '"' then some ([], rest)
    else if c = '\\' then do
      let (d, rest) ← unescape rest
      let (s, rest) ← parseChars fuel rest
      some (d :: s, rest)
    else if c.toNat < 0x20 then none
    else do
      let (s, rest) ← parseChars fuel rest
      some (c :: s, rest)

def parseString : Option (String × List Char) := do
  let (s, rest) ← parseChars cs.length cs
  some (String.ofList s, rest)

/-- A number goes on with a fraction or an exponent. -/
def fractional : List Char → Bool
  | c :: _ => c == '.' || c == 'e' || c == 'E'
  | [] => false

/-- The digits of an integer without a superfluous zero, and the rest. -/
def parseDigits : Option (Nat × List Char) :=
  let digits := cs.takeWhile Char.isDigit
  let rest := cs.dropWhile Char.isDigit
  if digits.isEmpty || (digits.head? == some '0' && 1 < digits.length) || fractional rest then none
  else some (Nat.ofDigitChars 10 digits 0, rest)

/-- A number that is an integer in range. Negative zero is none. -/
def parseNumber : List Char → Option (Json × List Char)
  | [] => none
  | c :: cs => do
    if c = '-' then
      let (n, rest) ← parseDigits cs
      if n ≠ 0 ∧ Fits (-(n : Int)) then some (.number (-(n : Int)), rest) else none
    else
      let (n, rest) ← parseDigits (c :: cs)
      if Fits n then some (.number n, rest) else none

def parseWord : Option (Json × List Char) :=
  if "null".toList.isPrefixOf cs then some (.null, cs.drop 4)
  else if "true".toList.isPrefixOf cs then some (.bool true, cs.drop 4)
  else if "false".toList.isPrefixOf cs then some (.bool false, cs.drop 5)
  else none

mutual

/-- A value and the rest. The limit is on containers that stand in each other. -/
def parseValue : Nat → Nat → List Char → Option (Json × List Char)
  | 0, _, _ => none
  | fuel + 1, limit, cs =>
    match skipBlank cs with
    | [] => none
    | c :: rest =>
      if c = '"' then do
        let (s, rest) ← parseString rest
        some (.string s, rest)
      else if c = '[' then
        if limit = 0 then none
        else if (skipBlank rest).head? = some ']' then some (.array [], (skipBlank rest).tail)
        else do
          let (items, rest) ← parseItems fuel (limit - 1) rest
          some (.array items, rest)
      else if c = '{' then
        if limit = 0 then none
        else if (skipBlank rest).head? = some '}' then some (.object [], (skipBlank rest).tail)
        else do
          let (members, rest) ← parseMembers fuel (limit - 1) rest
          some (.object members, rest)
      else if c = '-' ∨ c.isDigit then parseNumber (c :: rest)
      else parseWord (c :: rest)

def parseItems : Nat → Nat → List Char → Option (List Json × List Char)
  | 0, _, _ => none
  | fuel + 1, limit, cs => do
    let (v, rest) ← parseValue fuel limit cs
    match skipBlank rest with
    | [] => none
    | c :: rest =>
      if c = ',' then do
        let (items, rest) ← parseItems fuel limit rest
        some (v :: items, rest)
      else if c = ']' then some ([v], rest)
      else none

def parseMembers : Nat → Nat → List Char → Option (List (String × Json) × List Char)
  | 0, _, _ => none
  | fuel + 1, limit, cs =>
    match skipBlank cs with
    | [] => none
    | c :: rest =>
      if c = '"' then do
        let (k, rest) ← parseString rest
        match skipBlank rest with
        | [] => none
        | c :: rest =>
          if c = ':' then do
            let (v, rest) ← parseValue fuel limit rest
            match skipBlank rest with
            | [] => none
            | c :: rest =>
              if c = ',' then do
                let (members, rest) ← parseMembers fuel limit rest
                some ((k, v) :: members, rest)
              else if c = '}' then some ([(k, v)], rest)
              else none
          else none
      else none

end

def parse (limit : Nat) (cs : List Char) : Option Json := do
  let (v, rest) ← parseValue cs.length limit cs
  if (skipBlank rest).isEmpty then some v else none

end Json

end Cosmix.Lib

namespace Cosmix.Lib.Decimal

open Json

def digitsValue (cs : List Char) : Option Nat :=
  if cs.isEmpty || !cs.all Char.isDigit then none else some (Nat.ofDigitChars 10 cs 0)

/-- A text read as a number, with a sign at most before its digits. -/
def signedValue : List Char → Option Int
  | [] => none
  | c :: cs =>
    if c = '-' then (digitsValue cs).map fun n : Nat => -(n : Int)
    else if c = '+' then (digitsValue cs).map fun n : Nat => (n : Int)
    else (digitsValue (c :: cs)).map fun n : Nat => (n : Int)

def parseI64 (cs : List Char) : Option Int :=
  (signedValue cs).filter fun n => -2 ^ 63 ≤ n && n < 2 ^ 63

theorem isDigit_of_mem_toDigits {n : Nat} {c : Char} (h : c ∈ Nat.toDigits 10 n) :
    c.isDigit = true :=
  Nat.isDigit_of_mem_toDigits (by decide) (by decide) h

theorem digitsValue_toDigits (n : Nat) : digitsValue (Nat.toDigits 10 n) = some n := by
  have hempty : (Nat.toDigits 10 n).isEmpty = false :=
    List.isEmpty_eq_false_iff.mpr Nat.toDigits_ne_nil
  have hall : (Nat.toDigits 10 n).all Char.isDigit = true :=
    List.all_eq_true.mpr fun _ h => isDigit_of_mem_toDigits h
  simp only [digitsValue, hempty, hall, Bool.not_true, Bool.or_false, Bool.false_eq_true, if_false,
    Nat.ofDigitChars_ten_toDigits]

theorem signedValue_decimal (n : Int) : signedValue (decimal n) = some n := by
  unfold decimal
  by_cases hn : 0 ≤ n
  · rw [if_pos hn]
    have hdigits := digitsValue_toDigits n.toNat
    cases h : Nat.toDigits 10 n.toNat with
    | nil => exact absurd h Nat.toDigits_ne_nil
    | cons c =>
      -- a digit is neither sign
      have hc : c.isDigit = true := isDigit_of_mem_toDigits (h ▸ List.mem_cons_self)
      have hminus : c ≠ '-' := by rintro rfl; exact absurd hc (by decide)
      have hplus : c ≠ '+' := by rintro rfl; exact absurd hc (by decide)
      rw [signedValue, if_neg hminus, if_neg hplus, ← h, hdigits, Option.map_some,
        Int.toNat_of_nonneg hn]
  · rw [if_neg hn, signedValue, if_pos rfl, digitsValue_toDigits, Option.map_some]
    congr 1
    omega

theorem parseI64_decimal {n : Int} (hlo : -2 ^ 63 ≤ n) (hhi : n < 2 ^ 63) :
    parseI64 (decimal n) = some n := by
  rw [parseI64, signedValue_decimal, Option.filter_some, if_pos]
  simp only [hlo, hhi, decide_true, Bool.and_self]

theorem mem_decimal {n : Int} {c : Char} (h : c ∈ decimal n) : c = '-' ∨ c.isDigit = true := by
  unfold decimal at h
  split at h
  · exact .inr (isDigit_of_mem_toDigits h)
  · exact (List.mem_cons.mp h).imp id isDigit_of_mem_toDigits

end Cosmix.Lib.Decimal
