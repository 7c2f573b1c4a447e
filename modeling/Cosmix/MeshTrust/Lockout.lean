/- source: cosmix-lib-mesh-trust/src/inventory.rs
   digest: What inventories not signed by genesis can do to a trust state, whoever carries them. -/

import Cosmix.MeshTrust.Inventory

namespace Cosmix.MeshTrust

open Cosmix.Lib Cosmix.Lib.Json List

section

variable (c : Crypto)

/-- The entry is a valid signature of a key on a payload, under whatever id it stands. -/
def ValidUnder (pubkey : Bytes) (p : InventoryPayload) (s : InvSignature) : Prop :=
  s.alg = algEd25519 ∧ ∃ sig, c.decodeFixed s.sig ed25519SigLen = some sig ∧
    c.verifyEd25519 pubkey sig p.canonicalBytes = true

def Carries (pubkey : Bytes) (inv : SignedInventory) : Prop :=
  ∃ s ∈ inv.signatures, ValidUnder c pubkey inv.payload s

/-- Under the id of genesis the payload declares the very key that is trusted there. -/
def KeepsGenesis (state : NodeTrustState) (inv : SignedInventory) : Prop :=
  ∀ vk ∈ inv.payload.verifyKeys, vk.keyId = state.genesisKeyId →
    c.decodeFixed vk.pubkey ed25519PubkeyLen = state.trustedPubkey state.genesisKeyId

def showing (state : NodeTrustState) (inv : SignedInventory) : Option NodeTrustState :=
  some (present c state inv)

variable {c} {state : NodeTrustState} {inv : SignedInventory} {genesis : Bytes}

theorem counts_iff {p : InventoryPayload} {s : InvSignature} {pubkey : Bytes}
    (htrusted : state.trustedPubkey s.keyId = some pubkey) : counts c state p s = true ↔
      (∃ vk ∈ p.verifyKeys, vk.keyId = s.keyId) ∧ ValidUnder c pubkey p s := by
  rw [counts, ValidUnder, htrusted]
  cases hsig : c.decodeFixed s.sig ed25519SigLen with
  | none => simp
  | some =>
    simp only [Bool.and_eq_true, beq_iff_eq, any_eq_true, Option.some.injEq, exists_eq_left']
    exact ⟨fun ⟨⟨halg, hvk⟩, hv⟩ => ⟨hvk, halg, hv⟩, fun ⟨hvk, halg, hv⟩ => ⟨⟨halg, hvk⟩, hv⟩⟩

theorem genesisVerified_of_key (htrusted : state.trustedPubkey state.genesisKeyId = some genesis) :
    (collectSignatures c state inv).genesisVerified = true ↔
      (∃ vk ∈ inv.payload.verifyKeys, vk.keyId = state.genesisKeyId) ∧
      ∃ s ∈ inv.signatures, s.keyId = state.genesisKeyId ∧ ValidUnder c genesis inv.payload s := by
  rw [genesisVerified_iff, mem_collectSignatures]
  constructor
  · rintro ⟨s, hs, hcounts, hid⟩
    rw [← hid] at htrusted ⊢
    obtain ⟨hvk, hvalid⟩ := (counts_iff htrusted).mp hcounts
    exact ⟨hvk, s, hs, rfl, hvalid⟩
  · rintro ⟨hvk, s, hs, hid, hvalid⟩
    rw [← hid] at htrusted hvk
    exact ⟨s, hs, (counts_iff htrusted).mpr ⟨hvk, hvalid⟩, hid⟩

theorem find_install {keys : List VerifyKey} (hnodup : (keys.map VerifyKey.keyId).Nodup)
    {vk : VerifyKey} (hvk : vk ∈ keys) {pubkey : Bytes}
    (hkey : c.decodeFixed vk.pubkey ed25519PubkeyLen = some pubkey) :
    (install c keys).find? (fun k => k.keyId == vk.keyId) = some ⟨vk.keyId, pubkey, vk.status⟩ := by
  induction keys with
  | nil => cases hvk
  | cons w keys ih =>
    obtain ⟨hnew, hnodup⟩ := nodup_cons.mp hnodup
    rw [install, filterMap_cons]
    rcases mem_cons.mp hvk with rfl | hmem
    · rw [hkey]
      exact find?_cons_of_pos (beq_self_eq_true _)
    have hne : (w.keyId == vk.keyId) = false := by
      refine beq_eq_false_iff_ne.mpr fun heq => hnew ?_
      exact mem_map.mpr ⟨vk, hmem, heq.symm⟩
    cases hw : c.decodeFixed w.pubkey ed25519PubkeyLen with
    | none => exact ih hnodup hmem
    | some =>
      exact (find?_cons_of_neg (by simp [hne])).trans (ih hnodup hmem)

/-- An accepted inventory that is not signed by genesis leaves the floor where it is. -/
theorem floor_of_unsigned {accepted : AcceptedInventory} (h : Passed c inv state accepted)
    (hno : (collectSignatures c state inv).genesisVerified = false) :
    accepted.recoveryGeneration = state.lastRecoveryGeneration := by
  have haxis := h.axis
  rw [hno, acceptedGeneration] at haxis
  split at haxis
  · cases haxis
  rw [normalAxis] at haxis
  split at haxis
  · cases haxis
  split at haxis
  · split at haxis
    · next hzero => exact (Except.ok.inj haxis).symm.trans hzero.symm
    · cases haxis
  split at haxis
  · next heq => exact (Except.ok.inj haxis).symm.trans heq
  split at haxis
  · cases haxis
  · cases haxis

/-- What such a run keeps: the id of genesis, the key under it and the floor. -/
structure Anchored (start : NodeTrustState) (genesis : Bytes) (state : NodeTrustState) : Prop where
  id : state.genesisKeyId = start.genesisKeyId
  key : state.trustedPubkey state.genesisKeyId = some genesis
  floor : state.lastRecoveryGeneration = start.lastRecoveryGeneration

theorem anchored_present {start : NodeTrustState} (h : Anchored start genesis state)
    (hkeeps : KeepsGenesis c state inv) (hno : ¬Carries c genesis inv) :
    Anchored start genesis (present c state inv) := by
  rw [present]
  cases hv : verify c inv state with
  | error => exact h
  | ok accepted =>
    have hpassed := (verify_ok_iff c inv state accepted).mp hv
    have hgenesis : (collectSignatures c state inv).genesisVerified = false := by
      refine Bool.not_eq_true _ ▸ fun hg => hno ?_
      obtain ⟨-, s, hs, -, hvalid⟩ := (genesisVerified_of_key h.key).mp hg
      exact ⟨s, hs, hvalid⟩
    refine ⟨h.id, ?_, (floor_of_unsigned hpassed hgenesis).trans h.floor⟩
    -- the key installed under the id is the one declared there
    obtain ⟨vk, hvk, hid⟩ := hpassed.genesis
    have hkey := (hkeeps vk hvk hid).trans h.key
    have hfind := find_install hpassed.shape.distinct hvk hkey
    change ((install c accepted.adoptVerifyKeys).find? fun k => k.keyId == state.genesisKeyId).map
      TrustedKey.pubkey = some genesis
    rw [hpassed.keys, ← hid, hfind, Option.map_some]

/-- A recovery above the floor, signed by genesis, is accepted at any epoch. -/
theorem verify_recovery (htrusted : state.trustedPubkey state.genesisKeyId = some genesis)
    (hshape : WellFormed c inv.payload)
    (hdeclared : ∃ vk ∈ inv.payload.verifyKeys, vk.keyId = state.genesisKeyId)
    (hsigned : ∃ s ∈ inv.signatures, s.keyId = state.genesisKeyId ∧ ValidUnder c genesis inv.payload s)
    (hrecovery : inv.payload.recovery = some true) {generation : UInt64}
    (hgeneration : inv.payload.recoveryGeneration = some generation)
    (habove : state.lastRecoveryGeneration < generation) :
    ∃ accepted, verify c inv state = .ok accepted := by
  have hgenesis : (collectSignatures c state inv).genesisVerified = true :=
    (genesisVerified_of_key htrusted).mpr ⟨hdeclared, hsigned⟩
  have hauthorised : (collectSignatures c state inv).verifiedBy ≠ [] :=
    ne_nil_of_mem ((genesisVerified_iff c state inv).mp hgenesis)
  have haxis : acceptedGeneration state inv.payload true
      (collectSignatures c state inv).genesisVerified = .ok generation := by
    have hold : ¬generation < state.lastRecoveryGeneration := UInt64.lt_asymm habove
    have hequal : ¬(generation = state.lastRecoveryGeneration ∧
        state.lastCanonicalHash.isNone = true) := fun heq => UInt64.ne_of_lt habove heq.1.symm
    rw [acceptedGeneration, if_pos rfl, recoveryAxis, hgenesis, if_neg Bool.noConfusion,
      hgeneration]
    simp only [if_neg hold, if_neg hequal]
  have hpin : checkPin c state inv.payload true generation = .ok () := by
    have hadvanced : foldAdvanced state inv.payload true generation = true :=
      decide_eq_true habove
    rw [checkPin, if_pos hadvanced]
  refine ⟨⟨inv.payload.epoch, generation, true, (collectSignatures c state inv).verifiedBy,
    inv.payload.verifyKeys⟩, (verify_ok_iff c inv state _).mpr ?_⟩
  refine ⟨hshape, hauthorised, hdeclared, ?_, haxis, hpin, rfl, rfl, rfl⟩
  rw [checkRecoveryMarker, hrecovery]

/-- Whoever holds all keys but that of genesis, and declares its trusted key under its id, changes
neither that key nor the recovery floor; genesis can still recover. -/
theorem genesis_not_locked_out {start final : NodeTrustState} {genesis : Bytes}
    {shown : List SignedInventory}
    (htrusted : start.trustedPubkey start.genesisKeyId = some genesis) (hshown : Guarded (showing c)
      (fun state inv => KeepsGenesis c state inv ∧ ¬Carries c genesis inv) start shown)
    (hrun : runFrom (showing c) start shown = some final) :
    final.trustedPubkey start.genesisKeyId = some genesis ∧
    final.lastRecoveryGeneration = start.lastRecoveryGeneration ∧
    ∀ inv generation, WellFormed c inv.payload →
      (∃ vk ∈ inv.payload.verifyKeys, vk.keyId = start.genesisKeyId) →
      (∃ s ∈ inv.signatures, s.keyId = start.genesisKeyId ∧ ValidUnder c genesis inv.payload s) →
      inv.payload.recovery = some true → inv.payload.recoveryGeneration = some generation →
      final.lastRecoveryGeneration < generation → ∃ accepted, verify c inv final = .ok accepted := by
  have hanchored : Anchored start genesis final := by
    refine runFrom_guarded (P := Anchored start genesis) ?_ ⟨rfl, htrusted, rfl⟩ hshown hrun
    intro state inv state' h hok hstep
    cases hstep
    exact anchored_present h hok.1 hok.2
  refine ⟨hanchored.id ▸ hanchored.key, hanchored.floor, ?_⟩
  intro inv generation hshape hdeclared hsigned hrecovery hgeneration habove
  rw [← hanchored.id] at hdeclared hsigned
  exact verify_recovery hanchored.key hshape hdeclared hsigned hrecovery hgeneration habove

end

/-- Keys and signatures by name: a signature is its key's bytes twice. -/
private def named : Crypto where
  decode64 s :=
    if s = "G" then some (replicate 32 1)
    else if s = "O" then some (replicate 32 2)
    else if s = "M" then some (replicate 32 3)
    else if s = "sig-G" then some (replicate 64 1)
    else if s = "sig-O" then some (replicate 64 2)
    else none
  verifyStrict pubkey sig _ := sig == pubkey ++ pubkey
  blake3 bytes := toString bytes.size

variable (genesis : String)

private def declaring (recovery : Option Bool) (generation : Option UInt64)
    (signer : InvSignature) : SignedInventory where
  payload :=
    { schemaVersion := 1, canonicalEncoding := "json/rfc8785", mesh := "m", subnet := "s"
      epoch := 2, signedAt := "", validUntil := "", hub := []
      verifyKeys := [⟨"genesis", genesis, "Ed25519", .active⟩, ⟨"op", "O", "Ed25519", .active⟩]
      members := noMembers, recovery, recoveryGeneration := generation }
  signatures := [signer]

private def trusting : NodeTrustState where
  genesisKeyId := "genesis"
  trustedKeys := [⟨"genesis", replicate 32 1, .active⟩, ⟨"op", replicate 32 2, .active⟩]
  lastEpoch := 1
  lastRecoveryGeneration := 0
  lastCanonicalHash := none

private def stolen : SignedInventory := declaring "M" none none ⟨"op", "Ed25519", "sig-O"⟩

private def echoing : SignedInventory := declaring "G" none none ⟨"op", "Ed25519", "sig-O"⟩

private def rescue : SignedInventory :=
  declaring "G" (some true) (some 1) ⟨"genesis", "Ed25519", "sig-G"⟩

private theorem named_wellFormed (recovery : Option Bool)
    (generation : Option UInt64) (signer : InvSignature)
    (h : (named.decodeFixed genesis ed25519PubkeyLen).isSome = true) :
    WellFormed named (declaring genesis recovery generation signer).payload := by
  have hids : ["genesis", "op"].Nodup := by decide
  refine ⟨rfl, rfl, rfl, cons_ne_nil _ _, ?_, ?_, hids⟩
  · simp [declaring, algEd25519]
  · intro vk hvk
    rcases mem_cons.mp hvk with rfl | hvk
    · exact h
    · cases mem_singleton.mp hvk
      decide

private theorem op_not_genesis : ¬Carries named (replicate 32 1)
      (declaring genesis none none ⟨"op", "Ed25519", "sig-O"⟩) := by
  rintro ⟨s, hs, -, sig, hsig, hverify⟩
  cases mem_singleton.mp hs
  cases (show some (replicate 64 2) = some sig from hsig)
  have hother : (replicate 64 (2 : UInt8) == replicate 32 1 ++ replicate 32 1) = false := by
    decide
  exact Bool.false_ne_true (hother.symm.trans hverify)

private theorem rescue_signed : ∃ s ∈ rescue.signatures, s.keyId = "genesis" ∧
    ValidUnder named (replicate 32 1) rescue.payload s :=
  ⟨_, mem_singleton_self _, rfl, rfl, replicate 64 1, by decide, by decide⟩

/-- The key of `op` alone puts another key under the id of genesis, whose recovery is then refused.
-/
theorem stolen_key_replaces_genesis : trusting.trustedPubkey "genesis" = some (replicate 32 1) ∧
    (∀ inv ∈ [stolen], ¬Carries named (replicate 32 1) inv) ∧ WellFormed named rescue.payload ∧
    (∃ vk ∈ rescue.payload.verifyKeys, vk.keyId = "genesis") ∧
    (∃ s ∈ rescue.signatures, s.keyId = "genesis" ∧
      ValidUnder named (replicate 32 1) rescue.payload s) ∧
    rescue.payload.recovery = some true ∧ rescue.payload.recoveryGeneration = some 1 ∧
    ∃ final, runFrom (showing named) trusting [stolen] = some final ∧
      final.trustedPubkey "genesis" = some (replicate 32 3) ∧
      final.lastRecoveryGeneration < 1 ∧ verify named rescue final = .error .noTrustedSignature := by
  refine ⟨by decide, ?_, named_wellFormed _ _ _ _ (by decide), ⟨_, mem_cons_self, rfl⟩,
    rescue_signed, rfl, rfl, present named trusting stolen, rfl, by decide +kernel, by decide +kernel, rfl⟩
  intro inv hinv
  cases mem_singleton.mp hinv
  exact op_not_genesis "M"

theorem genesis_not_locked_out_echo :
    ∃ final accepted, runFrom (showing named) trusting [echoing] = some final ∧
      final.lastEpoch = 2 ∧ verify named rescue final = .ok accepted := by
  have htrusted : trusting.trustedPubkey trusting.genesisKeyId = some (replicate 32 1) := by
    decide
  have hkeeps : KeepsGenesis named trusting echoing := by
    intro vk hvk hid
    rcases mem_cons.mp hvk with rfl | hvk
    · decide
    · cases mem_singleton.mp hvk
      exact absurd hid (by decide)
  have hrun : runFrom (showing named) trusting [echoing] = some (present named trusting echoing) := rfl
  have hshown : Guarded (showing named) (fun state inv => KeepsGenesis named state inv ∧
      ¬Carries named (replicate 32 1) inv) trusting [echoing] :=
    ⟨⟨hkeeps, op_not_genesis "G"⟩, fun _ _ => trivial⟩
  obtain ⟨-, hfloor, haccepts⟩ := genesis_not_locked_out htrusted hshown hrun
  obtain ⟨accepted, h⟩ := haccepts rescue 1 (named_wellFormed _ _ _ _ (by decide))
    ⟨_, mem_cons_self, rfl⟩ rescue_signed rfl rfl (hfloor ▸ by decide)
  exact ⟨_, accepted, hrun, by decide +kernel, h⟩

open List

/-- An element of the signature array; the parse looks into no scalar. -/
inductive Element
  | scalar (text : String)
  | string (s : String)
  | array (items : List Element)
  | object (members : List (String × Element))

def Element.asString : Element → Option String
  | .string s => some s
  | _ => none

/-- The derived deserializer takes the fields by name from an object or in order from an array. -/
def Element.toSignature : Element → Option InvSignature
  | .object members => do
    let keyId ← (members.lookup "key_id").bind asString
    let alg ← (members.lookup "alg").bind asString
    let sig ← (members.lookup "sig").bind asString
    some ⟨keyId, alg, sig⟩
  | .array [keyId, alg, sig] => do
    some ⟨← keyId.asString, ← alg.asString, ← sig.asString⟩
  | _ => none

def lenientSignatures (raw : List Element) : List InvSignature := raw.filterMap Element.toSignature

section

variable (c : Crypto) (state : NodeTrustState) (p : InventoryPayload)

/-- The id is declared and trusted, and its trusted key has a valid signature in the array. -/
def SignedBy (raw : List Element) (id : String) : Prop :=
  (∃ vk ∈ p.verifyKeys, vk.keyId = id) ∧ ∃ pubkey, state.trustedPubkey id = some pubkey ∧
    ∃ s ∈ lenientSignatures raw, s.keyId = id ∧ ValidUnder c pubkey p s

/-- The same error, or the same adoption by the same keys, each listed once. -/
def SameVerdict : Except VerifyError AcceptedInventory → Except VerifyError AcceptedInventory → Prop
  | .error e, .error e' => e = e'
  | .ok a, .ok a' =>
    a.epoch = a'.epoch ∧ a.recoveryGeneration = a'.recoveryGeneration ∧
      a.viaRecovery = a'.viaRecovery ∧ a.adoptVerifyKeys = a'.adoptVerifyKeys ∧
      a.verifiedBy.Nodup ∧ a'.verifiedBy.Nodup ∧ ∀ id, id ∈ a.verifiedBy ↔ id ∈ a'.verifiedBy
  | _, _ => False

theorem nodup_verifiedBy (inv : SignedInventory) : (collectSignatures c state inv).verifiedBy.Nodup := by
  refine foldlRecOn (motive := fun t : Tally => t.verifiedBy.Nodup) _ _ nodup_nil fun t ht s _ => ?_
  rw [tally]
  split
  · next h =>
    have hnew : s.keyId ∉ t.verifiedBy := by simpa using (Bool.and_eq_true_iff.mp h).2
    refine nodup_append.mpr ⟨ht, nodup_singleton _, fun a ha b hb => ?_⟩
    exact mem_singleton.mp hb ▸ ne_of_mem_of_not_mem ha hnew
  · exact ht

theorem mem_verifiedBy_iff (raw : List Element) (id : String) :
    id ∈ (collectSignatures c state ⟨p, lenientSignatures raw⟩).verifiedBy ↔
      SignedBy c state p raw id := by
  rw [mem_collectSignatures]
  constructor
  · rintro ⟨s, hs, hcounts, rfl⟩
    cases hkey : state.trustedPubkey s.keyId with
    | none => simp [counts, hkey] at hcounts
    | some pubkey =>
      obtain ⟨hvk, hvalid⟩ := (counts_iff hkey).mp hcounts
      exact ⟨hvk, pubkey, hkey, s, hs, rfl, hvalid⟩
  · rintro ⟨hvk, _, hkey, s, hs, rfl, hvalid⟩
    exact ⟨s, hs, (counts_iff hkey).mpr ⟨hvk, hvalid⟩, rfl⟩

theorem SameVerdict.bind {α : Type} (x : Except VerifyError α)
    {f f' : α → Except VerifyError AcceptedInventory} (h : ∀ a, SameVerdict (f a) (f' a)) :
    SameVerdict (x >>= f) (x >>= f') := by
  cases x with
  | error => rfl
  | ok a => exact h a

/-- Arrays in which the same declared and trusted keys have signed are judged alike. -/
theorem carrier_cannot_change_verdict (raw raw' : List Element)
    (h : ∀ id, SignedBy c state p raw id ↔ SignedBy c state p raw' id) :
    SameVerdict (verify c ⟨p, lenientSignatures raw⟩ state)
      (verify c ⟨p, lenientSignatures raw'⟩ state) := by
  have hmem : ∀ id, id ∈ (collectSignatures c state ⟨p, lenientSignatures raw⟩).verifiedBy ↔
      id ∈ (collectSignatures c state ⟨p, lenientSignatures raw'⟩).verifiedBy := fun id => by
    rw [mem_verifiedBy_iff, mem_verifiedBy_iff, h]
  have hnodup := nodup_verifiedBy c state ⟨p, lenientSignatures raw⟩
  have hnodup' := nodup_verifiedBy c state ⟨p, lenientSignatures raw'⟩
  have hgenesis := (genesisVerified_iff c state ⟨p, lenientSignatures raw⟩).trans
    ((hmem _).trans (genesisVerified_iff c state ⟨p, lenientSignatures raw'⟩).symm)
  unfold verify
  generalize collectSignatures c state ⟨p, lenientSignatures raw⟩ = t at *
  generalize collectSignatures c state ⟨p, lenientSignatures raw'⟩ = t' at *
  -- the checks ask of a tally only whether it is empty and whether it has genesis
  have hempty : t.verifiedBy.isEmpty = t'.verifiedBy.isEmpty := by
    rw [Bool.eq_iff_iff, List.isEmpty_iff, List.isEmpty_iff, eq_nil_iff_forall_not_mem,
      eq_nil_iff_forall_not_mem]
    exact forall_congr' fun id => not_congr (hmem id)
  have hauth : checkAuthorised state p t = checkAuthorised state p t' := by
    rw [checkAuthorised, checkAuthorised, hempty]
  simp only [hauth, Bool.eq_iff_iff.mpr hgenesis]
  refine .bind _ fun _ => .bind _ fun _ => .bind _ fun recovery => .bind _ fun generation =>
    .bind _ fun _ => ?_
  exact ⟨rfl, rfl, rfl, rfl, hnodup, hnodup', hmem⟩

end

private def lax : Crypto where
  decode64 s := some (replicate (if s = "key" then 32 else 64) 0)
  verifyStrict _ _ _ := true
  blake3 _ := ""

private def alone : InventoryPayload :=
  ⟨1, canonicalEncodingV1, "m", "s", 1, "", "", [], [⟨"g", "key", algEd25519, .active⟩],
    noMembers, none, none⟩

private def trustingOne : NodeTrustState := ⟨"g", [⟨"g", replicate 32 0, .active⟩], 0, 0, none⟩

private def signed : Element := .array [.string "g", .string algEd25519, .string "sig"]

theorem carrier_cannot_change_verdict_junk :
    SameVerdict (verify lax ⟨alone, lenientSignatures [signed]⟩ trustingOne)
      (verify lax ⟨alone, lenientSignatures [.scalar "null", signed, signed]⟩ trustingOne) := by
  refine carrier_cannot_change_verdict lax _ alone _ _ fun id => ?_
  have hraw : ∀ s, s ∈ lenientSignatures [signed] ↔
      s ∈ lenientSignatures [.scalar "null", signed, signed] := by
    simp [lenientSignatures, signed, Element.toSignature, Element.asString, eq_comm]
  simp only [SignedBy, hraw]

end Cosmix.MeshTrust
