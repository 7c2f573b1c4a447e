/- source: cosmix-lib-props-core/src/value.rs, path.rs, tree.rs
   digest: Property values, paths, and a snapshot built from leaves. -/

import Mathlib.Data.String.Basic
import Std.Data.ExtTreeMap
import Mathlib.Data.List.Nodup
import Mathlib.Data.List.Perm.Basic

namespace Cosmix.Props

open List

/-- A property value. A float is its bit pattern; members stand in key order, as in the ordered map.
-/
inductive PropValue
  | null
  | bool (b : Bool)
  | int (n : Int64)
  | uint (n : UInt64)
  | float (bits : UInt64)
  | string (s : String)
  | list (items : List PropValue)
  | object (fields : List (String × PropValue))

instance : Inhabited PropValue := ⟨.null⟩

abbrev Fields := List (String × PropValue)

namespace Fields

variable (m : Fields)

def get (k : String) : Option PropValue := m.lookup k

def containsKey (k : String) : Bool := (m.lookup k).isSome

def keys : List String := m.map Prod.fst

def insert : Fields → String → PropValue → Fields
  | [], k, v => [(k, v)]
  | (k', v') :: m, k, v =>
    if k = k' then (k, v) :: m
    else if k < k' then (k, v) :: (k', v') :: m
    else (k', v') :: insert m k v

theorem get_cons (k k' : String) (v' : PropValue) (m : Fields) :
    get ((k', v') :: m) k = if k = k' then some v' else get m k := by
  unfold get
  by_cases h : k = k'
  · rw [if_pos h, h, lookup_cons_self]
  · rw [if_neg h, lookup_cons, beq_eq_false_iff_ne.mpr h]

theorem get_insert_self (k : String) (v : PropValue) : (m.insert k v).get k = some v := by
  induction m with
  | nil => rw [insert, get_cons, if_pos rfl]
  | cons a m ih =>
    unfold insert
    split
    · rw [get_cons, if_pos rfl]
    split
    · rw [get_cons, if_pos rfl]
    · next hne _ => rw [get_cons, if_neg hne, ih]

theorem get_insert_of_ne {k j : String} (h : j ≠ k) (v : PropValue) :
    (m.insert k v).get j = m.get j := by
  induction m with
  | nil => rw [insert, get_cons, if_neg h]
  | cons a m ih =>
    unfold insert
    split
    · next heq => rw [get_cons, get_cons, if_neg h, if_neg (heq ▸ h)]
    split
    · rw [get_cons, if_neg h]
    · rw [get_cons, get_cons, ih]

end Fields

def isNan (bits : UInt64) : Bool :=
  bits.toNat / 2 ^ 52 % 2 ^ 11 == 2047 && bits.toNat % 2 ^ 52 != 0

/-- Equality of floats: the two zeros are equal, a NaN equals nothing. -/
def floatEq (a b : UInt64) : Bool :=
  !isNan a && !isNan b && (a == b || (a.toNat % 2 ^ 63 == 0 && b.toNat % 2 ^ 63 == 0))

mutual

/-- The derived equality of values. -/
def PropValue.eq : PropValue → PropValue → Bool
  | .null, .null => true
  | .bool a, .bool b => a == b
  | .int a, .int b => a == b
  | .uint a, .uint b => a == b
  | .float a, .float b => floatEq a b
  | .string a, .string b => a == b
  | .list a, .list b => eqList a b
  | .object a, .object b => eqFields a b
  | _, _ => false

def eqList : List PropValue → List PropValue → Bool
  | [], [] => true
  | a :: as, b :: bs => a.eq b && eqList as bs
  | _, _ => false

def eqFields : List (String × PropValue) → List (String × PropValue) → Bool
  | [], [] => true
  | (k, a) :: as, (k', b) :: bs => k == k' && a.eq b && eqFields as bs
  | _, _ => false

end

inductive PropPathError
  | empty | emptySegment
  | invalidChar (segment : String) (ch : Char)
  | wildcard
  deriving DecidableEq

namespace PropPath

def segmentChar (c : Char) : Bool :=
  ('a' ≤ c && c ≤ 'z') || ('0' ≤ c && c ≤ '9') || c == '_'

/-- The first thing wrong with a segment. -/
def checkSegment (seg : List Char) : Option PropPathError :=
  if seg.isEmpty then some .emptySegment
  else if seg.contains '*' then some .wildcard
  else (seg.find? fun c => !segmentChar c).map (.invalidChar (String.ofList seg))

/-- The first thing wrong with a path. -/
def check (s : String) : Option PropPathError :=
  if s.isEmpty then some .empty
  else (s.toList.splitOn '.').findSome? checkSegment

end PropPath

@[ext] structure PropPath where
  text : String
  valid : PropPath.check text = none

namespace PropPath

instance : DecidableEq PropPath := fun a b => decidable_of_iff (a.text = b.text) PropPath.ext_iff.symm

protected def new (s : String) : Except PropPathError PropPath :=
  match h : check s with
  | some e => .error e
  | none => .ok ⟨s, h⟩

/-- The derived order: that of the text. -/
instance : Ord PropPath := ⟨compareOn PropPath.text⟩

instance : Std.LawfulEqOrd PropPath where
  compare_self {a} := Std.ReflOrd.compare_self (a := a.text)
  eq_of_compare {a b} h := PropPath.ext (Std.LawfulEqOrd.eq_of_compare (a := a.text) (b := b.text) h)

instance : Std.TransOrd PropPath := inferInstanceAs (Std.TransCmp (compareOn PropPath.text))

end PropPath

def PropPath.segments (p : PropPath) : List String := (p.text.toList.splitOn '.').map String.ofList

/-- The value that stands at some segments below a value. -/
def getAt : PropValue → List String → Option PropValue
  | v, [] => some v
  | .object m, seg :: rest => (Fields.get m seg).bind fun v => getAt v rest
  | _, _ :: _ => none

/-- The members of an object; anything else counts as an empty one. -/
def members : Option PropValue → Fields
  | some (.object m) => m
  | _ => []

theorem PropPath.segments_ne_nil (p : PropPath) : p.segments ≠ [] := by
  rw [segments, Ne, map_eq_nil_iff]
  exact splitOnP_ne_nil _ _

/-- Neither path stands above or at the other. -/
def Apart (p q : List String) : Prop := ¬ p <+: q ∧ ¬ q <+: p

theorem Apart.symm {p q : List String} (h : Apart p q) : Apart q p := ⟨h.2, h.1⟩

theorem Apart.tail {k : String} {p q : List String} (h : Apart (k :: p) (k :: q)) : Apart p q :=
  ⟨mt (prefix_cons_inj k).mpr h.1, mt (prefix_cons_inj k).mpr h.2⟩

theorem Apart.ne_nil {p q : List String} (h : Apart p q) : p ≠ [] := by
  rintro rfl
  exact h.1 nil_prefix

/-- No path of the list goes on below another one. -/
def PrefixFree (leaves : List (PropPath × PropValue)) : Prop :=
  ∀ a ∈ leaves, ∀ b ∈ leaves, a.1.segments <+: b.1.segments → a.1 = b.1

theorem PrefixFree.apart {leaves : List (PropPath × PropValue)} (h : PrefixFree leaves)
    {a b : PropPath × PropValue} (ha : a ∈ leaves) (hb : b ∈ leaves) (hne : a.1 ≠ b.1) :
    Apart a.1.segments b.1.segments :=
  ⟨fun hp => hne (h a ha b hb hp), fun hp => hne (h b hb a ha hp).symm⟩

end Cosmix.Props
