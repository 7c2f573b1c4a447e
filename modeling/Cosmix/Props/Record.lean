/- source: cosmix-lib-props-store/src/record.rs, lifecycle.rs, namespace.rs, store.rs
   digest: Record addresses, lifecycles, event rows, and what a store is asked to commit. -/

import Mathlib.Data.List.Dedup
import Mathlib.Data.List.Sort
import Cosmix.Props.Value

namespace Cosmix.Props

inductive NamespaceNameError
  | empty | emptySegment
  | invalidLeadingChar (segment : String) (ch : Char)
  | invalidChar (segment : String) (ch : Char)
  deriving DecidableEq

namespace NamespaceName

def lowercase (c : Char) : Bool := 'a' ≤ c && c ≤ 'z'

def checkSegment : List Char → Option NamespaceNameError
  | [] => some .emptySegment
  | first :: rest =>
    if !lowercase first then some (.invalidLeadingChar (String.ofList (first :: rest)) first)
    else (rest.find? fun c => !PropPath.segmentChar c).map
      (.invalidChar (String.ofList (first :: rest)))

def check (s : String) : Option NamespaceNameError :=
  if s.isEmpty then some .empty
  else (s.toList.splitOn '.').findSome? checkSegment

end NamespaceName

@[ext] structure NamespaceName where
  text : String
  valid : NamespaceName.check text = none

instance : DecidableEq NamespaceName := fun a b =>
  decidable_of_iff (a.text = b.text) NamespaceName.ext_iff.symm

inductive FieldPathSegment
  | field (s : String)
  | index (i : UInt64)
  deriving DecidableEq

/-- The address of a record; an empty field path is the whole record. -/
structure RecordKey where
  ns : NamespaceName
  key : String
  fieldPath : List FieldPathSegment
  deriving DecidableEq

def RecordKey.isWholeRecord (k : RecordKey) : Bool := k.fieldPath.isEmpty

/-- The substrate's own field of a saga record. -/
def lifecycleField : String := "_lifecycle"

inductive Lifecycle
  | provisioning | active
  | failed (reason : String)
  deriving DecidableEq

inductive ActorError
  | empty | emptySegment
  | invalidTokenChar (ch : Char)
  | invalidUuid (segment : String)
  | invalidSequence | tooManySegments
  deriving DecidableEq

namespace Actor

def tokenChar (c : Char) : Bool := c.isAlphanum || c == '_' || c == '-' || c == '.'

def checkToken (s : List Char) : Option ActorError :=
  if s.isEmpty then some .emptySegment
  else (s.find? fun c => !tokenChar c).map .invalidTokenChar

def hexDigit (c : Char) : Bool := c.isDigit || ('a' ≤ c && c ≤ 'f') || ('A' ≤ c && c ≤ 'F')

/-- The hyphenated 8-4-4-4-12 shape. -/
def isUuid (s : List Char) : Bool :=
  s.length == 36 && s.zipIdx.all fun ci =>
    if ci.2 == 8 || ci.2 == 13 || ci.2 == 18 || ci.2 == 23 then ci.1 == '-' else hexDigit ci.1

/-- A uuid, an optional call sequence, and nothing more. -/
def checkSuffix : List (List Char) → Option ActorError
  | [] => some (.invalidUuid "")
  | uuid :: rest =>
    if !isUuid uuid then some (.invalidUuid (String.ofList uuid))
    else match rest with
      | [] => none
      | seq :: more =>
        if seq.isEmpty || !seq.all Char.isDigit then some .invalidSequence
        else if more.isEmpty then none
        else some .tooManySegments

def check (s : String) : Option ActorError :=
  if s.isEmpty then some .empty
  else
    let first := s.toList.takeWhile (· != ':')
    match checkToken first with
    | some e => some e
    | none =>
      match s.toList.dropWhile (· != ':') with
      | [] => none
      | _ :: rest =>
        if rest.isEmpty then some .emptySegment
        else if first == "operator".toList then none
        else if first == "daemon".toList && !rest.contains ':' then checkToken rest
        else checkSuffix (rest.splitOn ':')

end Actor

/-- Who made a change, in a validated text form. -/
@[ext] structure Actor where
  token : String
  valid : Actor.check token = none

namespace Actor

instance : DecidableEq Actor := fun a b => decidable_of_iff (a.token = b.token) Actor.ext_iff.symm

protected def new (s : String) : Except ActorError Actor :=
  match h : check s with
  | some e => .error e
  | none => .ok ⟨s, h⟩

theorem new_token (a : Actor) : Actor.new a.token = .ok a := by
  unfold Actor.new
  split
  · next h => exact absurd (a.valid.symm.trans h) (by simp)
  · rfl

/-- The library's own step of a saga. -/
def daemonComplete (svc : String) : Except ActorError Actor := Actor.new ("daemon:" ++ svc)

def reconciliation : Actor := ⟨"daemon:reconciliation", by decide⟩

end Actor

inductive EventKind
  | created | updated | deleted | completed | reconciled
  deriving DecidableEq

def EventKind.verbFor (k : EventKind) (service : String) : String :=
  service ++ ".props." ++ match k with
    | .created => "set"
    | .updated => "set"
    | .deleted => "delete"
    | .completed => "complete"
    | .reconciled => "reconcile"

/-- The current value of a record with the substrate's own data. -/
structure Record where
  key : RecordKey
  value : PropValue
  (version nseq : Nat)
  lifecycle : Option Lifecycle

/-- One durable transition of a namespace's history. -/
structure RecordEvent where
  (nseq version auditEpoch : Nat)
  kind : EventKind
  verb : String
  key : RecordKey
  lifecycle : Option Lifecycle
  actor : Actor
  fieldsChanged : List String
  secretFieldsChangedCount : Nat
  atMs : Int
  cause : Option String
  auditDigest : String
  deriving DecidableEq

/-- The earliest and latest instants a timestamp can hold. -/
def minMillis : Int := -8334601228800000

def maxMillis : Int := 8210266876799999

/-- A timestamp; an instant out of range becomes the epoch. -/
def tsToDt (tsMs : Int) : Int := if minMillis ≤ tsMs ∧ tsMs ≤ maxMillis then tsMs else 0

theorem tsToDt_tsToDt (tsMs : Int) : tsToDt (tsToDt tsMs) = tsToDt tsMs := by
  unfold tsToDt
  by_cases h : minMillis ≤ tsMs ∧ tsMs ≤ maxMillis
  · rw [if_pos h, if_pos h]
  · rw [if_neg h]
    rfl

inductive StoreError
  | notFound
  | versionMismatch (expected current : Nat)
  | storage (message : String)
  | validation (message : String)
  deriving DecidableEq

inductive MergeMode
  | patch | replace
  deriving DecidableEq

structure SetCommit where
  key : RecordKey
  newValue : PropValue
  /-- The version the record must have; zero asks for a new record. -/
  expectedVersion : Option Nat
  merge : MergeMode
  lifecycle : Option Lifecycle
  actor : Actor
  cause : Option String
  tsMs : Int

structure DeleteCommit where
  key : RecordKey
  expectedVersion : Option Nat
  actor : Actor
  cause : Option String
  tsMs : Int

structure CompleteCommit where
  key : RecordKey
  lifecycle : Lifecycle
  expectedVersion : Nat
  actor : Actor
  cause : Option String
  tsMs : Int

structure ReconcileCommit where
  key : RecordKey
  newValue : PropValue
  oldValue : Option PropValue
  tsMs : Int

structure Snapshot (α : Type) where
  value : α
  observedNseq : Nat

/-- Sets every member of one object in another; keys are distinct, so their order does not matter.
-/
def Fields.insertAll (o n : Fields) : Fields := n.foldr (fun f m => Fields.insert m f.1 f.2) o

theorem Fields.get_insertAll (o n : Fields) (k : String) :
    (o.insertAll n).get k = (n.get k).or (o.get k) := by
  induction n with
  | nil => rfl
  | cons f n ih =>
    obtain ⟨k', v⟩ := f
    show ((o.insertAll n).insert k' v).get k = _
    rw [Fields.get_cons]
    by_cases h : k = k'
    · rw [if_pos h, h, Fields.get_insert_self]
      rfl
    · rw [if_neg h, Fields.get_insert_of_ne _ h, ih]

/-- A patch unites the members of two objects; anything else replaces. -/
def mergePatch : PropValue → PropValue → PropValue
  | .object o, .object n => .object (Fields.insertAll o n)
  | _, new => new

/-- The keys of both objects, each once and in order. -/
def unionKeys (o n : Fields) : List String :=
  ((o.keys ++ n.keys).dedup).insertionSort (· ≤ ·)

/-- The members in which two values differ, when both are objects. -/
def changedTopLevelFields : Option PropValue → PropValue → List String
  | none, .object n => Fields.keys n
  | some (.object o), .object n =>
    (unionKeys o n).filter fun k => !fieldEq (Fields.get o k) (Fields.get n k)
  | _, _ => []
where
  /-- Equality of optional members. -/
  fieldEq : Option PropValue → Option PropValue → Bool
    | some a, some b => a.eq b
    | none, none => true
    | _, _ => false

end Cosmix.Props
