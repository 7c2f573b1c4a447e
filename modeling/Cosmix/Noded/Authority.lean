/- source: cosmix-noded/src/authority.rs
   digest: Processes that load the signed inventory and ratchet one baseline file. -/

import Cosmix.Lib.Maps
import Cosmix.MeshTrust.Inventory

namespace Cosmix.Noded.Authority

open Cosmix.Lib Cosmix.MeshTrust

def genesisKeyId : String := "genesis"

/-- The baseline as it is read; a missing file reads as the default. -/
structure Baseline where
  (epoch recoveryGeneration : UInt64)
  hash : Option String
deriving DecidableEq

instance : Inhabited Baseline := ⟨⟨0, 0, none⟩⟩

def trustState (genesisPub : Bytes) (baseline : Baseline) : NodeTrustState where
  genesisKeyId := genesisKeyId
  trustedKeys := [⟨genesisKeyId, genesisPub, .active⟩]
  lastEpoch := baseline.epoch
  lastRecoveryGeneration := baseline.recoveryGeneration
  lastCanonicalHash := baseline.hash

abbrev Members := Std.ExtTreeMap String Json compare

/-- The records by name; of two with one name the later stays. -/
def membersByName (members : Json) : Members :=
  (members.asArray.getD []).foldl (fun found record =>
    match (record.get "name").bind Json.asStr with
    | some name => found.insert name record
    | none => found) ∅

structure Accepted where
  (epoch recoveryGeneration : UInt64)
  viaRecovery : Bool
  (mesh hash : String)
  verifiedBy : List String
  verifyKeys : List (String × String)
  membersFull : Members

def acceptedOf (c : Crypto) (inv : SignedInventory) (accepted : AcceptedInventory) : Accepted where
  epoch := accepted.epoch
  recoveryGeneration := accepted.recoveryGeneration
  viaRecovery := accepted.viaRecovery
  mesh := inv.payload.mesh
  hash := inv.payload.canonicalBlake3 c
  verifiedBy := accepted.verifiedBy
  verifyKeys := accepted.adoptVerifyKeys.map fun k => (k.keyId, k.status.text)
  membersFull := membersByName inv.payload.members.json

/-- The baseline that `write_baseline_file` is given. -/
def nextBaseline (c : Crypto) (inv : SignedInventory) (accepted : AcceptedInventory) : Baseline where
  epoch := accepted.epoch
  recoveryGeneration := accepted.recoveryGeneration
  hash := some (inv.payload.canonicalBlake3 c)

/-- The baseline file. A rename outlives a power cut once the directory is synced, and perhaps
before. -/
structure Disk where
  durable : Baseline
  renamed : List Baseline

def Disk.visible (d : Disk) : Baseline := d.renamed.getLast?.getD d.durable

inductive Phase
  | idle
  /-- The genesis key is read, and the signed inventory read and parsed. -/
  | loaded (genesisPub : Bytes) (inv : SignedInventory)
  /-- Verified against the baseline as it was, with a routing view. -/
  | checked (genesisPub : Bytes) (inv : SignedInventory)
  | locked (genesisPub : Bytes) (inv : SignedInventory)
  /-- Verified against the baseline read under the lock. -/
  | ratified (inv : SignedInventory) (accepted : AcceptedInventory)
  | written (inv : SignedInventory) (accepted : AcceptedInventory)
  | replaced (inv : SignedInventory) (accepted : AcceptedInventory)
  | synced (inv : SignedInventory) (accepted : AcceptedInventory)

def Phase.holds : Phase → Bool
  | .idle | .loaded .. | .checked .. => false
  | .locked .. | .ratified .. | .written .. | .replaced .. | .synced .. => true

structure System where
  disk : Disk
  lock : Option Nat
  phase : Nat → Phase
  /-- The results that were `Verified`, oldest first. -/
  verified : List Accepted

def System.start (baseline : Baseline) : System where
  disk := ⟨baseline, []⟩
  lock := none
  phase _ := .idle
  verified := []

inductive Act
  | begin (p : Nat) (genesisPub : Bytes) (inv : SignedInventory)
  | check (p : Nat)
  | acquire (p : Nat)
  | recheck (p : Nat)
  | writeTemp (p : Nat)
  | rename (p : Nat)
  | syncDirectory (p : Nat)
  | finish (p : Nat)
  /-- A file operation fails, the lock stays contended for too long, or the process dies. -/
  | abandon (p : Nat)
  /-- All processes die. Of the renames that no sync followed the first ones are kept. -/
  | powerCut (kept : Nat)

namespace System

def setPhase (s : System) (p : Nat) (phase : Phase) : System :=
  { s with phase := Function.update s.phase p phase }

/-- The call ends, and its lock with it. -/
def leave (s : System) (p : Nat) : System :=
  { s.setPhase p .idle with lock := if s.lock = some p then none else s.lock }

end System

section

variable (c : Crypto) (strictRoutingView : Json → String → Bool)

def step (s : System) : Act → Option System
  | .begin p genesisPub inv =>
    match s.phase p with
    | .idle => some (s.setPhase p (.loaded genesisPub inv))
    | _ => none
  | .check p =>
    match s.phase p with
    | .loaded genesisPub inv =>
      match verify c inv (trustState genesisPub s.disk.visible) with
      | .ok _ =>
        if strictRoutingView inv.payload.members.json inv.payload.subnet then
          some (s.setPhase p (.checked genesisPub inv))
        else some (s.leave p)
      | .error _ => some (s.leave p)
    | _ => none
  | .acquire p =>
    match s.phase p, s.lock with
    | .checked genesisPub inv, none =>
      some { s.setPhase p (.locked genesisPub inv) with lock := some p }
    | _, _ => none
  | .recheck p =>
    match s.phase p with
    | .locked genesisPub inv =>
      match verify c inv (trustState genesisPub s.disk.visible) with
      | .ok accepted => some (s.setPhase p (.ratified inv accepted))
      | .error _ => some (s.leave p)
    | _ => none
  | .writeTemp p =>
    match s.phase p with
    | .ratified inv accepted => some (s.setPhase p (.written inv accepted))
    | _ => none
  | .rename p =>
    match s.phase p with
    | .written inv accepted =>
      some { s.setPhase p (.replaced inv accepted) with
        disk := { s.disk with renamed := s.disk.renamed ++ [nextBaseline c inv accepted] } }
    | _ => none
  | .syncDirectory p =>
    match s.phase p with
    | .replaced inv accepted =>
      some { s.setPhase p (.synced inv accepted) with disk := ⟨s.disk.visible, []⟩ }
    | _ => none
  | .finish p =>
    match s.phase p with
    | .synced inv accepted =>
      some { s.leave p with verified := s.verified ++ [acceptedOf c inv accepted] }
    | _ => none
  | .abandon p => some (s.leave p)
  | .powerCut kept =>
    let disk : Disk := ⟨s.disk.durable, s.disk.renamed.take kept⟩
    some { s with disk := ⟨disk.visible, []⟩, lock := none, phase := fun _ => .idle }

end

end Cosmix.Noded.Authority
