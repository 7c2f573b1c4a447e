/- source: cosmix-lib-mesh-trust/src/admission.rs
   digest: The admission transcript, whose bytes stand for it alone, and the gate of a member. -/

import Cosmix.Lib.Bytes
import Cosmix.MeshTrust.Inventory

namespace Cosmix.MeshTrust

open Cosmix.Lib Cosmix.Lib.Bytes

def admitDomainV1 : String := "cosmix-d2-admit-v1"

def d2CredKind : String := "d2"

structure AdmissionTranscript where
  (meshFqdn claimedSourceNode verifyingBrokerNode : String)
  inventoryEpoch : UInt64
  (sessionId serverNonce clientEphemeral channelBindingHash : Bytes)
deriving DecidableEq

def asBytes (s : String) : Bytes := s.toByteArray.data.toList

namespace AdmissionTranscript

/-- The fields that `canonical_bytes` pushes, the tag of the domain first. -/
def parts (t : AdmissionTranscript) : List Bytes :=
  [asBytes admitDomainV1, asBytes t.meshFqdn, asBytes t.claimedSourceNode,
    asBytes t.verifyingBrokerNode, beBytes 8 t.inventoryEpoch.toNat, t.sessionId, t.serverNonce,
    t.clientEphemeral, t.channelBindingHash]

/-- The bytes that are signed. A field too long for its prefix panics. -/
def canonicalBytes (t : AdmissionTranscript) : Option Bytes := frames t.parts

end AdmissionTranscript

inductive AdmissionError
  | sourceTombstoned (name : String)
  | sourceBusFalse (name : String)
  | nameMismatch (claimed record : String)
  | epochMismatch (transcript broker : UInt64)
  | noCurrentD2Credential (name : String)
  | badCredentialSignature (name : String)
  | malformedMember (what : String)
deriving DecidableEq

/-- An end of the window that is still ahead: none or null is open, what is no number is not. -/
def beforeEnd (currentEpoch : UInt64) : Option Json → Bool
  | none | some .null => true
  | some v => v.asU64.any fun untilEpoch => decide (currentEpoch < untilEpoch)

section

variable (c : Crypto)

/-- The key of a credential that is of kind d2 and current. -/
def d2Pubkey (currentEpoch : UInt64) (cred : Json) : Option Bytes :=
  if (cred.get "kind").bind Json.asStr ≠ some d2CredKind then none
  else match (cred.get "from_epoch").bind Json.asU64 with
    | none => none
    | some fromEpoch =>
      if currentEpoch < fromEpoch then none
      else if beforeEnd currentEpoch (cred.get "until_epoch") then
        ((cred.get "pubkey").bind Json.asStr).bind fun text =>
          c.decodeFixed text ed25519PubkeyLen
      else none

def selectD2Pubkeys (member : Json) (currentEpoch : UInt64) : List Bytes :=
  match (member.get "credentials").bind Json.asArray with
  | none => []
  | some creds => creds.filterMap (d2Pubkey c currentEpoch)

/-- The gate. None stands for the panic of a transcript that cannot be encoded. -/
def admits (member : Json) (t : AdmissionTranscript) (signature : Bytes) (currentEpoch : UInt64) :
    Option (Except AdmissionError Unit) :=
  match (member.get "name").bind Json.asStr with
  | none => some (.error (.malformedMember "member has no name"))
  | some name =>
    if t.inventoryEpoch ≠ currentEpoch then
      some (.error (.epochMismatch t.inventoryEpoch currentEpoch))
    else if (member.get "status").bind Json.asStr ≠ some "active" then
      some (.error (.sourceTombstoned name))
    else if (member.get "bus").bind Json.asBool ≠ some true then
      some (.error (.sourceBusFalse name))
    else if name ≠ t.claimedSourceNode then
      some (.error (.nameMismatch t.claimedSourceNode name))
    else if (selectD2Pubkeys c member currentEpoch).isEmpty then
      some (.error (.noCurrentD2Credential name))
    else t.canonicalBytes.map fun msg =>
      if (selectD2Pubkeys c member currentEpoch).any
          (fun pk => c.verifyEd25519 pk signature ⟨msg.toArray⟩) then .ok ()
      else .error (.badCredentialSignature name)

end

theorem asBytes_inj {s t : String} (h : asBytes s = asBytes t) : s = t := by
  apply String.toByteArray_inj.mp
  exact ByteArray.ext (Array.toList_inj.mp h)

theorem canonicalBytes_inj {t u : AdmissionTranscript} {bytes : Bytes}
    (ht : t.canonicalBytes = some bytes) (hu : u.canonicalBytes = some bytes) : t = u := by
  have hparts : t.parts = u.parts := frames_inj rfl ht hu
  simp only [AdmissionTranscript.parts, List.cons.injEq, true_and, and_true] at hparts
  obtain ⟨hmesh, hclaimed, hbroker, hepoch, hsession, hnonce, hephemeral, hbinding⟩ := hparts
  have hepoch' : t.inventoryEpoch.toNat = u.inventoryEpoch.toNat := by
    apply beBytes_inj _ _ hepoch
    · exact t.inventoryEpoch.toNat_lt
    · exact u.inventoryEpoch.toNat_lt
  cases t
  cases u
  simp only [AdmissionTranscript.mk.injEq]
  exact ⟨asBytes_inj hmesh, asBytes_inj hclaimed, asBytes_inj hbroker, UInt64.toNat_inj.mp hepoch',
    hsession, hnonce, hephemeral, hbinding⟩

/-- A credential of kind d2 whose window, closed below and open above, holds the epoch. -/
structure CurrentD2 (c : Crypto) (member : Json) (epoch : UInt64) (pubkey : Bytes) (cred : Json) :
    Prop where
  listed : ∃ creds, (member.get "credentials").bind Json.asArray = some creds ∧ cred ∈ creds
  kind : (cred.get "kind").bind Json.asStr = some "d2"
  started : ∃ fromEpoch, (cred.get "from_epoch").bind Json.asU64 = some fromEpoch ∧
    fromEpoch ≤ epoch
  notEnded : cred.get "until_epoch" = none ∨ cred.get "until_epoch" = some .null ∨
    ∃ untilEpoch, (cred.get "until_epoch").bind Json.asU64 = some untilEpoch ∧ epoch < untilEpoch
  key : ∃ text, (cred.get "pubkey").bind Json.asStr = some text ∧
    c.decodeFixed text ed25519PubkeyLen = some pubkey

theorem beforeEnd_iff (epoch : UInt64) (v : Option Json) : beforeEnd epoch v = true ↔
      v = none ∨ v = some .null ∨
        ∃ untilEpoch, v.bind Json.asU64 = some untilEpoch ∧ epoch < untilEpoch := by
  cases v with
  | none => simp [beforeEnd]
  | some v => cases v <;> simp [beforeEnd, Option.any_eq_true]

theorem currentD2_of_mem {c : Crypto} {member : Json} {epoch : UInt64} {pubkey : Bytes}
    (h : pubkey ∈ selectD2Pubkeys c member epoch) : ∃ cred, CurrentD2 c member epoch pubkey cred := by
  rw [selectD2Pubkeys] at h
  split at h
  · cases h
  next creds hcreds =>
  obtain ⟨cred, hcred, hkey⟩ := List.mem_filterMap.mp h
  rw [d2Pubkey] at hkey
  split at hkey
  · cases hkey
  next hkind =>
  split at hkey
  · cases hkey
  next fromEpoch hfrom =>
  split at hkey
  · cases hkey
  next hstarted =>
  split at hkey
  · next hend =>
    obtain ⟨text, htext, hdecode⟩ := Option.bind_eq_some_iff.mp hkey
    exact ⟨cred, ⟨creds, hcreds, hcred⟩, not_not.mp hkind,
      ⟨fromEpoch, hfrom, UInt64.not_lt.mp hstarted⟩, (beforeEnd_iff _ _).mp hend, text,
      htext, hdecode⟩
  · cases hkey

/-- What an admitted proof has shown. -/
structure Admitted (c : Crypto) (member : Json) (t : AdmissionTranscript) (signature : Bytes)
    (epoch : UInt64) : Prop where
  name : (member.get "name").bind Json.asStr = some t.claimedSourceNode
  atEpoch : t.inventoryEpoch = epoch
  active : (member.get "status").bind Json.asStr = some "active"
  bus : (member.get "bus").bind Json.asBool = some true
  signed : ∃ pubkey cred bytes, CurrentD2 c member epoch pubkey cred ∧
    t.canonicalBytes = some bytes ∧ c.verifyEd25519 pubkey signature ⟨bytes.toArray⟩ = true

theorem admitted_of_admits {c : Crypto} {member : Json} {t : AdmissionTranscript} {signature : Bytes}
    {epoch : UInt64} (h : admits c member t signature epoch = some (.ok ())) :
    Admitted c member t signature epoch := by
  rw [admits] at h
  split at h
  · cases h
  next hname =>
  split at h
  · cases h
  next hepoch =>
  split at h
  · cases h
  next hactive =>
  split at h
  · cases h
  next hbus =>
  split at h
  · cases h
  next hclaimed =>
  split at h
  · cases h
  obtain ⟨bytes, hbytes, hverdict⟩ := Option.map_eq_some_iff.mp h
  split at hverdict
  · next hany =>
    obtain ⟨pubkey, hpubkey, hverify⟩ := List.any_eq_true.mp hany
    obtain ⟨cred, hcred⟩ := currentD2_of_mem hpubkey
    refine ⟨?_, not_not.mp hepoch, not_not.mp hactive, not_not.mp hbus, pubkey, cred,
      bytes, hcred, hbytes, hverify⟩
    rw [hname, not_not.mp hclaimed]
  · cases hverdict

end Cosmix.MeshTrust
