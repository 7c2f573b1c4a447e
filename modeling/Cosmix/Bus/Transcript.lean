/- source: cosmix-lib-bus/src/native_session/transcript.rs, mod.rs
   digest: Signed session bytes: each statement is read back in one way. -/

import Cosmix.Lib.Bytes
import Mathlib.Data.List.Sort
import Mathlib.Data.String.Basic

namespace Cosmix.Lib.Bytes

/-- Words of which none begins another: what follows one can be told from it. -/
abbrev Separable {α : Type} (f : α → List UInt8) : Prop :=
  ∀ x y s t, f x ++ s = f y ++ t ↔ x = y ∧ s = t

variable {α : Type} {f : α → List UInt8}

theorem separable_of_length (hinj : f.Injective) (hlen : ∀ x y, (f x).length = (f y).length) :
    Separable f := by
  intro x y s t
  constructor
  · intro h
    obtain ⟨hword, hrest⟩ := List.append_inj h (hlen x y)
    exact ⟨hinj hword, hrest⟩
  · rintro ⟨rfl, rfl⟩
    rfl

theorem separable_beBytes {width : Nat} {value : α → Nat} (hinj : value.Injective)
    (hlt : ∀ x, value x < 256 ^ width) : Separable fun x => beBytes width (value x) :=
  separable_of_length (fun x y h => hinj (beBytes_inj (hlt x) (hlt y) h)) (by simp)

theorem Separable.flatMap_inj (hf : Separable f) {xs ys : List α} (hlen : xs.length = ys.length)
    (h : xs.flatMap f = ys.flatMap f) : xs = ys := by
  induction xs generalizing ys with
  | nil => exact (List.length_eq_zero_iff.mp hlen.symm).symm
  | cons x xs ih =>
    cases ys with
    | nil => cases hlen
    | cons y =>
      obtain ⟨rfl, hrest⟩ := (hf x y _ _).mp h
      rw [ih (Nat.succ.inj hlen) hrest]

end Cosmix.Lib.Bytes

namespace Cosmix.Bus.NativeSession

abbrev HexBytes (n : Nat) := Vector UInt8 n

open Cosmix.Lib.Bytes List

inductive Purpose where
  | enrol
  | resume
deriving DecidableEq

inductive Role where
  | term
  | paneShell
deriving DecidableEq

def Role.asStr : Role → String
  | .term => "term"
  | .paneShell => "pane-shell"

inductive Policy where
  | defaultOpen
  | restricted
deriving DecidableEq

def Policy.asStr : Policy → String
  | .defaultOpen => "default-open"
  | .restricted => "restricted"

inductive Capability where
  | readState
  | readContents
  | input
  | execute
  | manageLayout
  | terminate
deriving DecidableEq

def Capability.asStr : Capability → String
  | .readState => "read_state"
  | .readContents => "read_contents"
  | .input => "input"
  | .execute => "execute"
  | .manageLayout => "manage_layout"
  | .terminate => "terminate"

structure ProofTranscript where
  purpose : Purpose
  (brokerEpoch connectionId challengeId : HexBytes 16)
  nonce : HexBytes 32
  grantId : Option (HexBytes 16)
  (recordId instanceId incarnation : HexBytes 16)
  unixUid : UInt32
  (parentInstance parentIncarnation : Option (HexBytes 16))
  parentKeyHash : Option (HexBytes 32)
  (paneId paneGeneration : Option UInt64)
  role : Role
  (publicKeyHash capabilitiesHash : HexBytes 32)
  bindingGeneration : UInt64
  grantExpiresMs : Option UInt64
  challengeExpiresMs : UInt64

def text (s : String) : List UInt8 := s.toUTF8.data.toList

def u64 (n : UInt64) : List UInt8 := beBytes 8 n.toNat

/-- A text after its length; the source casts the length to 16 bits. -/
def lp (s : String) : List UInt8 := beBytes 2 (text s).length ++ text s

def opt : Option (List UInt8) → List UInt8
  | none => [0]
  | some bytes => 1 :: bytes

def proofParts (p : ProofTranscript) : List (List UInt8) :=
  [text "cosmix.native-session.proof", [0, 0, 1], [if p.purpose = .enrol then 1 else 2],
    p.brokerEpoch.toList, p.connectionId.toList, p.challengeId.toList, p.nonce.toList,
    opt (p.grantId.map Vector.toList), p.recordId.toList, p.instanceId.toList,
    p.incarnation.toList, beBytes 4 p.unixUid.toNat, opt (p.parentInstance.map Vector.toList),
    opt (p.parentIncarnation.map Vector.toList), opt (p.parentKeyHash.map Vector.toList),
    opt (p.paneId.map u64), opt (p.paneGeneration.map u64), lp p.role.asStr,
    p.publicKeyHash.toList, p.capabilitiesHash.toList, u64 p.bindingGeneration,
    opt (p.grantExpiresMs.map u64), u64 p.challengeExpiresMs]

def encodeProof (p : ProofTranscript) : Except String (List UInt8) :=
  let enrol := p.purpose == .enrol
  let child := p.role == .paneShell
  if p.grantId.isSome != enrol || p.grantExpiresMs.isSome != enrol || p.bindingGeneration == 0 ||
      (enrol && p.bindingGeneration != 1) || (!enrol && p.bindingGeneration < 2) ||
      p.parentInstance.isSome != child || p.parentIncarnation.isSome != child ||
      p.parentKeyHash.isSome != child || p.paneId.isSome != child ||
      p.paneGeneration.isSome != child || p.paneGeneration.any (· == 0) then
    .error "invalid proof scope"
  else .ok (proofParts p).flatten

def encodeAllocate (epoch connection : HexBytes 16) (publicKey : HexBytes 32) (policy : Policy) :
    List UInt8 :=
  flatten [text "cosmix.native-session.allocate", [0, 0, 1], epoch.toList, connection.toList,
    publicKey.toList, lp policy.asStr]

def sortedNames (capabilities : List Capability) : List String :=
  (capabilities.map Capability.asStr).insertionSort (· ≤ ·)

def encodeCapabilities (capabilities : List Capability) : Except String (List UInt8) :=
  if capabilities.isEmpty || 6 < capabilities.length then .error "capability count"
  else
    let names := sortedNames capabilities
    if (names.zip names.tail).any fun w => w.1 == w.2 then .error "duplicate capability"
    else .ok (beBytes 2 names.length ++ names.flatMap lp)

section

variable {n : Nat} {α : Type} {f : α → List UInt8} {name : α → String}

theorem separable_hex : Separable (Vector.toList : HexBytes n → List UInt8) :=
  separable_of_length (fun _ _ => Vector.toList_inj.mp) (by simp)

theorem separable_u64 : Separable u64 :=
  separable_beBytes (fun _ _ => UInt64.toNat_inj.mp) UInt64.toNat_lt

theorem separable_opt (hf : Separable f) : Separable fun v : Option α => opt (v.map f) := by
  intro x y s t
  cases x with
  | none => cases y <;> simp [opt]
  | some =>
    cases y with
    | none => simp [opt]
    | some => simp [opt, hf]

theorem separable_lp (hinj : name.Injective) (hlt : ∀ x, (text (name x)).length < 256 ^ 2) :
    Separable fun x => lp (name x) := by
  intro x y s t
  constructor
  · intro h
    simp only [lp, append_assoc] at h
    obtain ⟨hlen, hrest⟩ := List.append_inj h (by simp)
    obtain ⟨htext, hrest⟩ := List.append_inj hrest (beBytes_inj (hlt x) (hlt y) hlen)
    have hname := String.toByteArray_inj.mp (ByteArray.ext (Array.toList_inj.mp htext))
    exact ⟨hinj hname, hrest⟩
  · rintro ⟨rfl, rfl⟩
    rfl

end

theorem encodeProof_ok {p : ProofTranscript} {bytes : List UInt8} (h : encodeProof p = .ok bytes) :
    (proofParts p).flatten = bytes := by
  simp only [encodeProof] at h
  split at h
  · cases h
  · exact Except.ok.inj h

theorem proofParts_inj {p q : ProofTranscript} (h : (proofParts p).flatten = (proofParts q).flatten) :
    p = q := by
  have hpurpose : Separable fun x : Purpose => [if x = .enrol then 1 else 2] :=
    separable_of_length (fun x y => by cases x <;> cases y <;> simp) fun _ _ => rfl
  have huid : Separable fun x : UInt32 => beBytes 4 x.toNat :=
    separable_beBytes (fun _ _ => UInt32.toNat_inj.mp) UInt32.toNat_lt
  have hrole : Separable fun x : Role => lp x.asStr :=
    separable_lp (fun x y => by cases x <;> cases y <;> decide) (by rintro ⟨⟩ <;> decide)
  simp only [proofParts, flatten_cons, append_cancel_left_eq, hpurpose, separable_hex,
    separable_opt separable_hex, huid, separable_opt separable_u64, separable_u64, hrole] at h
  cases p
  cases q
  simpa only [ProofTranscript.mk.injEq, flatten_nil, and_true] using h

theorem encodeAllocate_inj {epoch epoch' connection connection' : HexBytes 16}
    {key key' : HexBytes 32} {policy policy' : Policy}
    (h : encodeAllocate epoch connection key policy = encodeAllocate epoch' connection' key' policy') :
    epoch = epoch' ∧ connection = connection' ∧ key = key' ∧ policy = policy' := by
  have hpolicy : Separable fun x : Policy => lp x.asStr :=
    separable_lp (fun x y => by cases x <;> cases y <;> decide) (by rintro ⟨⟩ <;> decide)
  simpa only [encodeAllocate, flatten_cons, append_cancel_left_eq, separable_hex, hpolicy,
    flatten_nil, and_true] using h

theorem sortedNames_eq (xs : List Capability) :
    sortedNames xs = (xs.insertionSort fun x y => x.asStr ≤ y.asStr).map Capability.asStr :=
  (map_insertionSort (fun x y : Capability => x.asStr ≤ y.asStr) (· ≤ ·) _ xs
    fun _ _ _ _ => Iff.rfl).symm

theorem sortedNames_perm {xs ys : List Capability} (h : xs.Perm ys) :
    sortedNames xs = sortedNames ys := by
  have hnames : (sortedNames xs).Perm (sortedNames ys) :=
    (perm_insertionSort _ _).trans ((h.map _).trans (perm_insertionSort _ _).symm)
  exact hnames.eq_of_pairwise (fun _ _ _ _ => le_antisymm) (pairwise_insertionSort _ _)
    (pairwise_insertionSort _ _)

theorem encodeCapabilities_ok {xs : List Capability} {bytes : List UInt8}
    (h : encodeCapabilities xs = .ok bytes) :
    xs.length ≤ 6 ∧ bytes = beBytes 2 xs.length ++ (sortedNames xs).flatMap lp := by
  simp only [encodeCapabilities] at h
  split at h
  · cases h
  · next hcount =>
    split at h
    · cases h
    · simp only [Bool.or_eq_true, decide_eq_true_eq, not_or, not_lt] at hcount
      refine ⟨hcount.2, ?_⟩
      rw [← Except.ok.inj h, sortedNames, length_insertionSort, length_map]

theorem encodeCapabilities_eq_iff {xs ys : List Capability} {bytes bytes' : List UInt8}
    (hx : encodeCapabilities xs = .ok bytes) (hy : encodeCapabilities ys = .ok bytes') :
    bytes = bytes' ↔ xs.Perm ys := by
  obtain ⟨hxlen, rfl⟩ := encodeCapabilities_ok hx
  obtain ⟨hylen, rfl⟩ := encodeCapabilities_ok hy
  constructor
  · intro h
    have hname : Separable fun x : Capability => lp x.asStr :=
      separable_lp (fun x y => by cases x <;> cases y <;> decide) (by rintro ⟨⟩ <;> decide)
    obtain ⟨hcount, hnames⟩ := List.append_inj h (by simp)
    have hlen := beBytes_inj (by omega) (by omega) hcount
    rw [sortedNames_eq, sortedNames_eq, flatMap_map, flatMap_map] at hnames
    have hsorted := Separable.flatMap_inj hname (by simpa using hlen) hnames
    exact (perm_insertionSort _ xs).symm.trans (hsorted ▸ perm_insertionSort _ ys)
  · intro h
    rw [h.length_eq, sortedNames_perm h]

/-- Statements with the same signed bytes are the same statement, and of the same kind. -/
theorem signed_bytes_determine_statement :
    (∀ p q bytes, encodeProof p = .ok bytes → encodeProof q = .ok bytes → p = q) ∧
    (∀ epoch connection key policy epoch' connection' key' policy',
      encodeAllocate epoch connection key policy = encodeAllocate epoch' connection' key' policy' →
        epoch = epoch' ∧ connection = connection' ∧ key = key' ∧ policy = policy') ∧
    (∀ epoch connection key policy p,
      encodeProof p ≠ .ok (encodeAllocate epoch connection key policy)) ∧
    ∀ xs ys bytes bytes', encodeCapabilities xs = .ok bytes → encodeCapabilities ys = .ok bytes' →
      (bytes = bytes' ↔ xs.Perm ys) := by
  refine ⟨?_, fun _ _ _ _ _ _ _ _ => encodeAllocate_inj, ?_, fun _ _ _ _ => encodeCapabilities_eq_iff⟩
  · intro p q bytes hp hq
    exact proofParts_inj ((encodeProof_ok hp).trans (encodeProof_ok hq).symm)
  · intro epoch connection key policy p h
    have hstart := congrArg (take 23) (encodeProof_ok h)
    simp only [proofParts, encodeAllocate, flatten_cons] at hstart
    rw [take_append_of_le_length (by decide), take_append_of_le_length (by decide)] at hstart
    exact absurd hstart (by decide)

theorem signed_bytes_determine_statement_input : ∃ bytes bytes',
    encodeCapabilities [.input] = .ok bytes ∧ encodeCapabilities [.execute] = .ok bytes' ∧
      bytes ≠ bytes' := by
  refine ⟨_, _, rfl, rfl, fun h => ?_⟩
  have hperm := (signed_bytes_determine_statement.2.2.2 [.input] [.execute] _ _ rfl rfl).mp h
  exact absurd hperm (by decide)

end Cosmix.Bus.NativeSession
