/- source: cosmix-lib-mesh-trust/src/canonical.rs, inventory.rs
   digest: Canonical bytes stand for one value each; the signed inventory and its verification. -/

import Cosmix.Lib.JsonMap
import Cosmix.Lib.Machine

namespace Cosmix.MeshTrust

open Cosmix.Lib Cosmix.Lib.Json List

/-- A parsed value: an object has a key at most once and numbers are 64 bit integers. -/
structure Value where
  json : Json
  distinct : json.Distinct
  inRange : json.InRange

/-! The canonicaliser. All it pushes byte by byte is ASCII, so the output is given as chars and
encoded once. -/

def hexPadded (n : Nat) : List Char :=
  [Nat.digitChar (n / 4096 % 16), Nat.digitChar (n / 256 % 16), Nat.digitChar (n / 16 % 16),
    Nat.digitChar (n % 16)]

def emitChar (c : Char) : List Char :=
  if c = '"' then ['\\', '"']
  else if c = '\\' then ['\\', '\\']
  else if c = '\n' then ['\\', 'n']
  else if c = '\r' then ['\\', 'r']
  else if c = '\t' then ['\\', 't']
  else if c = '\x08' then ['\\', 'b']
  else if c = '\x0c' then ['\\', 'f']
  else if c.toNat < 0x20 then '\\' :: 'u' :: hexPadded c.toNat
  else [c]

def emitJsonString (s : String) : List Char := '"' :: (s.toList.flatMap emitChar ++ ['"'])

/-- The loop over the parts of a container, with its flag for the first one. -/
def emitParts (first : Bool) : List (List Char) → List Char
  | [] => []
  | t :: ts => (if first then t else ',' :: t) ++ emitParts false ts

def emitCases : Cases (List Char) where
  null := "null".toList
  bool b := if b then "true".toList else "false".toList
  number := decimal
  string := emitJsonString
  array items := '[' :: (emitParts true items ++ [']'])
  object members :=
    let keys := (members.map Prod.fst).insertionSort (· ≤ ·)
    -- every key is one of the object's own, so indexing by it finds a member
    '{' :: (emitParts true (keys.map fun k =>
      emitJsonString k ++ ':' :: (members.lookup k).getD []) ++ ['}'])

def emitValue : Json → List Char := fold emitCases

def toCanonicalBytes (v : Json) : ByteArray := (String.ofList (emitValue v)).toUTF8

/-- A parser of UTF-8 text that follows containers to some depth. -/
def fromSlice (limit : Nat) (bytes : ByteArray) : Option Json :=
  bytes.utf8Decode?.bind fun cs => parse limit cs.toList

def strictCases : Cases Bool where
  null := true
  bool _ := true
  number _ := true
  string _ := true
  array items := items.all id
  object members := decide (members.map Prod.fst).Nodup && (members.map Prod.snd).all id

/-- No object met on the way has a key again. -/
def strict : Json → Bool := fold strictCases

def deserializeStrictValue (limit : Nat) (bytes : ByteArray) : Option Json :=
  (fromSlice limit bytes).filter strict

theorem toCanonicalBytes_eq (v : Json) : toCanonicalBytes v = (emitValue v).utf8Encode :=
  String.toByteArray_ofList

theorem emitChar_eq (c : Char) : emitChar c = escape c := by
  unfold emitChar escape
  by_cases hc : c.toNat < 0x20
  · have h₁ : c.toNat / 4096 % 16 = 0 := by omega
    have h₂ : c.toNat / 256 % 16 = 0 := by omega
    have h₃ : c.toNat / 16 % 16 = c.toNat / 16 := by omega
    rw [hexPadded, h₁, h₂, h₃]
    rfl
  · rw [if_neg hc, if_neg hc]

theorem emitJsonString_eq (s : String) : emitJsonString s = quote s := by
  have h : emitChar = escape := funext emitChar_eq
  rw [emitJsonString, quote, h]

theorem emitParts_eq (ts : List (List Char)) : emitParts true ts = commas ts := by
  induction ts with
  | nil => rfl
  | cons t ts ih =>
    cases ts with
    | nil => exact append_nil t
    | cons u ts =>
      calc emitParts true (t :: u :: ts) = t ++ emitParts false (u :: ts) := rfl
        _ = t ++ ',' :: commas (u :: ts) := congrArg (t ++ ',' :: ·) ih
        _ = commas (t :: u :: ts) := rfl

theorem emitValue_array (items : List Json) :
    emitValue (.array items) = '[' :: (commas (items.map emitValue) ++ [']']) := by
  have h : emitValue (.array items) = '[' :: (emitParts true (items.map emitValue) ++ [']']) :=
    fold_array emitCases items
  rw [h, emitParts_eq]

variable {members : List (String × Json)}

theorem keys_sorted (h : (members.map Prod.fst).Nodup) :
    ((members.map Prod.fst).insertionSort (· ≤ ·)).map (fun k =>
        quote k ++ ':' :: ((members.lookup k).map emitValue).getD []) =
      (members.insertionSort byKey).map fun m => quote m.1 ++ ':' :: emitValue m.2 := by
  have hkeys : (members.map Prod.fst).insertionSort (· ≤ ·) =
      (members.insertionSort byKey).map Prod.fst :=
    (map_insertionSort byKey (· ≤ ·) Prod.fst members fun _ _ _ _ => Iff.rfl).symm
  rw [hkeys, map_map]
  refine map_congr_left fun m hm => ?_
  have hmem : m ∈ members := (perm_insertionSort byKey members).mem_iff.mp hm
  rw [Function.comp_apply, lookup_of_mem h hmem]
  rfl

theorem emitValue_object (h : (members.map Prod.fst).Nodup) : emitValue (.object members) =
      '{' :: (commas ((members.insertionSort byKey).map fun m =>
        quote m.1 ++ ':' :: emitValue m.2) ++ ['}']) := by
  have hfold : emitValue (.object members) = emitCases.object
      (members.map fun m => (m.1, emitValue m.2)) := fold_object emitCases members
  rw [hfold]
  simp only [emitCases, emitParts_eq, emitJsonString_eq, map_fst_pair, lookup_map]
  rw [keys_sorted h]

theorem emitValue_eq {v : Json} (h : v.Distinct) : emitValue v = print (sorted v) := by
  induction v using nested with
  | null | bool | number => rfl
  | string s => exact emitJsonString_eq s
  | array items ih =>
    rw [distinct_array] at h
    rw [emitValue_array, sorted_array, print_array, map_map,
      map_congr_left fun v hv => ih v hv (h v hv)]
    rfl
  | object members ih =>
    rw [distinct_object] at h
    have hsort : (members.map fun m => (m.1, sorted m.2)).insertionSort byKey =
        (members.insertionSort byKey).map fun m => (m.1, sorted m.2) :=
      (map_insertionSort byKey byKey (fun m => (m.1, sorted m.2)) members fun _ _ _ _ => Iff.rfl).symm
    rw [emitValue_object h.1, sorted_object, print_object, hsort, map_map]
    have hmap : (members.insertionSort byKey).map (fun m => quote m.1 ++ ':' :: emitValue m.2) =
        (members.insertionSort byKey).map (printMember ∘ fun m => (m.1, sorted m.2)) := by
      refine map_congr_left fun m hm => ?_
      have hmem : m ∈ members := (perm_insertionSort byKey members).mem_iff.mp hm
      rw [ih m hmem (h.2 m hmem)]
      rfl
    rw [hmap]

theorem strict_iff (v : Json) : strict v = true ↔ v.Distinct := by
  induction v using nested with
  | null | bool | number | string => exact iff_of_true rfl trivial
  | array items ih =>
    have h : strict (.array items) = (items.map strict).all id := fold_array strictCases items
    rw [h, distinct_array, all_map, all_eq_true]
    exact forall₂_congr ih
  | object members ih =>
    have h : strict (.object members) =
        (decide ((members.map fun m => (m.1, strict m.2)).map Prod.fst).Nodup &&
          ((members.map fun m => (m.1, strict m.2)).map Prod.snd).all id) :=
      fold_object strictCases members
    rw [h, distinct_object, Bool.and_eq_true, decide_eq_true_iff, map_fst_pair, map_map,
      all_map, all_eq_true]
    exact and_congr_right' (forall₂_congr ih)

theorem fromSlice_toCanonicalBytes (v : Value) {limit : Nat} (h : depth v.json ≤ limit) :
    fromSlice limit (toCanonicalBytes v.json) = some (sorted v.json) := by
  have hparse : parse limit (print (sorted v.json)) = some (sorted v.json) :=
    parse_print (inRange_sorted v.inRange) (by rwa [depth_sorted])
  rw [fromSlice, toCanonicalBytes_eq, List.utf8Decode?_utf8Encode, Option.bind_some,
    emitValue_eq v.distinct, hparse]

theorem deserializeStrictValue_toCanonicalBytes (v : Value) {limit : Nat}
    (h : depth v.json ≤ limit) :
    deserializeStrictValue limit (toCanonicalBytes v.json) = some (sorted v.json) := by
  have hstrict : strict (sorted v.json) = true := (strict_iff _).mpr (distinct_sorted v.distinct)
  rw [deserializeStrictValue, fromSlice_toCanonicalBytes v h, Option.filter_some, if_pos hstrict]

theorem toCanonicalBytes_eq_iff (a b : Value) :
    toCanonicalBytes a.json = toCanonicalBytes b.json ↔ meaning a.json = meaning b.json := by
  constructor
  · intro h
    -- the bytes of both are read back by one parser
    have ha := fromSlice_toCanonicalBytes a (le_max_left (depth a.json) (depth b.json))
    have hb := fromSlice_toCanonicalBytes b (le_max_right (depth a.json) (depth b.json))
    rw [h, hb] at ha
    rw [← meaning_sorted a.distinct, ← meaning_sorted b.distinct, Option.some.inj ha]
  · intro h
    rw [toCanonicalBytes, toCanonicalBytes, emitValue_eq a.distinct, emitValue_eq b.distinct,
      sorted_eq_of_meaning a.json b.json a.distinct b.distinct h]

/-- Values have the same canonical bytes just when they are the same up to the order of members; a
parser that goes deep enough reads the value back. -/
theorem canonical_bytes_identify (a b : Value) :
    (toCanonicalBytes a.json = toCanonicalBytes b.json ↔ meaning a.json = meaning b.json) ∧
    (∃ text, toCanonicalBytes a.json = text.utf8Encode ∧ ValueText text) ∧
    ∀ limit, depth a.json ≤ limit → ∃ v, fromSlice limit (toCanonicalBytes a.json) = some v ∧
      deserializeStrictValue limit (toCanonicalBytes a.json) = some v ∧
      meaning v = meaning a.json := by
  refine ⟨toCanonicalBytes_eq_iff a b, ⟨emitValue a.json, toCanonicalBytes_eq _, ?_⟩, fun limit h => ?_⟩
  · rw [emitValue_eq a.distinct]
    exact valueText_print _
  · exact ⟨sorted a.json, fromSlice_toCanonicalBytes a h,
      deserializeStrictValue_toCanonicalBytes a h, meaning_sorted a.distinct⟩

abbrev Bytes := List UInt8

/-- The primitives of other crates. -/
structure Crypto where
  decode64 : String → Option Bytes
  verifyStrict : Bytes → Bytes → ByteArray → Bool
  blake3 : ByteArray → String

def supportedSchemaVersion : UInt32 := 1

def canonicalEncodingV1 : String := "json/rfc8785"

def algEd25519 : String := "Ed25519"

def ed25519PubkeyLen : Nat := 32

def ed25519SigLen : Nat := 64

def Crypto.verifyEd25519 (c : Crypto) (publicKey signature : Bytes) (message : ByteArray) : Bool :=
  publicKey.length == ed25519PubkeyLen && signature.length == ed25519SigLen &&
    c.verifyStrict publicKey signature message

def Crypto.decodeFixed (c : Crypto) (s : String) (len : Nat) : Option Bytes :=
  (c.decode64 s).filter fun bytes => bytes.length == len

inductive KeyStatus
  | active
  | retiring
deriving DecidableEq

def KeyStatus.text : KeyStatus → String
  | .active => "active"
  | .retiring => "retiring"

structure VerifyKey where
  (keyId pubkey keyType : String)
  status : KeyStatus
deriving DecidableEq

structure InvSignature where
  (keyId alg sig : String)
deriving DecidableEq

def noMembers : Value where
  json := .array []
  distinct := nofun
  inRange := nofun

structure InventoryPayload where
  schemaVersion : UInt32
  (canonicalEncoding mesh subnet : String)
  epoch : UInt64
  (signedAt validUntil : String)
  hub : List String
  verifyKeys : List VerifyKey
  members : Value
  recovery : Option Bool
  recoveryGeneration : Option UInt64

def VerifyKey.toJson (vk : VerifyKey) : Json :=
  .object [("key_id", .string vk.keyId), ("pubkey", .string vk.pubkey),
    ("key_type", .string vk.keyType), ("status", .string vk.status.text)]

namespace InventoryPayload

variable (p : InventoryPayload)

/-- The fields that are written only when they are there. -/
def recoveryFields : List (String × Json) :=
  (p.recovery.map fun b => ("recovery", Json.bool b)).toList ++
    (p.recoveryGeneration.map fun g => ("recovery_generation", Json.number g.toNat)).toList

def fields : List (String × Json) :=
  [("schema_version", .number p.schemaVersion.toNat),
    ("canonical_encoding", .string p.canonicalEncoding), ("mesh", .string p.mesh),
    ("subnet", .string p.subnet), ("epoch", .number p.epoch.toNat),
    ("signed_at", .string p.signedAt), ("valid_until", .string p.validUntil),
    ("hub", .array (p.hub.map .string)), ("verify_keys", .array (p.verifyKeys.map VerifyKey.toJson)),
    ("members", p.members.json)]

def toJson : Json := .object (p.fields ++ p.recoveryFields)

def canonicalBytes : ByteArray := toCanonicalBytes p.toJson

def canonicalBlake3 (c : Crypto) (p : InventoryPayload) : String := c.blake3 p.canonicalBytes

end InventoryPayload

structure SignedInventory where
  payload : InventoryPayload
  signatures : List InvSignature

structure TrustedKey where
  keyId : String
  pubkey : Bytes
  status : KeyStatus
deriving DecidableEq

structure NodeTrustState where
  genesisKeyId : String
  trustedKeys : List TrustedKey
  (lastEpoch lastRecoveryGeneration : UInt64)
  lastCanonicalHash : Option String
deriving DecidableEq

def NodeTrustState.trustedPubkey (state : NodeTrustState) (keyId : String) : Option Bytes :=
  (state.trustedKeys.find? fun k => k.keyId == keyId).map TrustedKey.pubkey

structure AcceptedInventory where
  (epoch recoveryGeneration : UInt64)
  viaRecovery : Bool
  verifiedBy : List String
  adoptVerifyKeys : List VerifyKey
deriving DecidableEq

inductive VerifyError
  | unknownCanonicalEncoding (encoding : String)
  | unsupportedSchemaVersion (version : UInt32)
  | malformedPayload (what : String)
  | noVerifyKeys
  | unsupportedKeyType (keyId keyType : String)
  | malformedVerifyKey (keyId : String)
  | duplicateVerifyKeyId (keyId : String)
  | noTrustedSignature
  | genesisDropped (genesisKeyId : String)
  | staleEpoch (payloadEpoch lastEpoch : UInt64)
  | recoveryNotGenesisSigned
  | normalExplicitRecoveryFalse
  | recoveryMissingGeneration
  | staleRecovery (payloadGeneration lastGeneration : UInt64)
  | recoveryEqualGenerationUnpinned (generation : UInt64)
  | recoveryGenerationRollback (payloadGeneration lastGeneration : UInt64)
  | normalMissingRecoveryGeneration (lastGeneration : UInt64)
  | recoveryFloorRaiseRequiresGenesis (payloadGeneration lastGeneration : UInt64)
  | baselineHashMismatch (payloadEpoch payloadGeneration : UInt64)
      (expectedHash payloadHash : String)
deriving DecidableEq

theorem VerifyKey.toJson_distinct (vk : VerifyKey) : vk.toJson.Distinct := by
  have hkeys : ["key_id", "pubkey", "key_type", "status"].Nodup := by decide
  refine (distinct_object _).mpr ⟨hkeys, ?_⟩
  simp only [forall_mem_cons]
  exact ⟨trivial, trivial, trivial, trivial, nofun⟩

theorem VerifyKey.toJson_inRange (vk : VerifyKey) : vk.toJson.InRange := by
  refine (inRange_object _).mpr ?_
  simp only [forall_mem_cons]
  exact ⟨trivial, trivial, trivial, trivial, nofun⟩

namespace InventoryPayload

theorem keys_nodup (p : InventoryPayload) : ((p.fields ++ p.recoveryFields).map Prod.fst).Nodup := by
  have hall : (p.fields.map Prod.fst ++ ["recovery", "recovery_generation"]).Nodup := by
    have hnames : ["schema_version", "canonical_encoding", "mesh", "subnet", "epoch", "signed_at",
      "valid_until", "hub", "verify_keys", "members", "recovery", "recovery_generation"].Nodup := by
      decide
    exact hnames
  have hsub : (p.recoveryFields.map Prod.fst).Sublist ["recovery", "recovery_generation"] := by
    rw [recoveryFields]
    cases p.recovery <;> cases p.recoveryGeneration <;> simp
  rw [map_append]
  exact hall.sublist ((List.Sublist.refl _).append hsub)

theorem forall_fields {P : Json → Prop} (p : InventoryPayload) (hstring : ∀ s, P (.string s))
    (hbool : ∀ b, P (.bool b)) (hnumber : ∀ n : Nat, n < 2 ^ 64 → P (.number n))
    (hhub : P (.array (p.hub.map .string)))
    (hkeys : P (.array (p.verifyKeys.map VerifyKey.toJson))) (hmembers : P p.members.json) :
    ∀ m ∈ p.fields ++ p.recoveryFields, P m.2 := by
  have hversion : p.schemaVersion.toNat < 2 ^ 64 :=
    p.schemaVersion.toNat_lt.trans_le (Nat.pow_le_pow_right (by decide) (by decide))
  have hfields : ∀ m ∈ p.fields, P m.2 := by
    simp only [fields, forall_mem_cons]
    exact ⟨hnumber _ hversion, hstring _, hstring _, hstring _, hnumber _ p.epoch.toNat_lt,
      hstring _, hstring _, hhub, hkeys, hmembers, nofun⟩
  intro m hm
  rcases mem_append.mp hm with hm | hm
  · exact hfields m hm
  rcases mem_append.mp hm with hm | hm
  · obtain ⟨b, -, rfl⟩ := Option.map_eq_some_iff.mp (Option.mem_toList.mp hm)
    exact hbool b
  · obtain ⟨g, -, rfl⟩ := Option.map_eq_some_iff.mp (Option.mem_toList.mp hm)
    exact hnumber _ g.toNat_lt

/-- The payload is a value that the canonicaliser keeps apart from others. -/
def value (p : InventoryPayload) : Value where
  json := p.toJson
  distinct := by
    refine (distinct_object _).mpr ⟨p.keys_nodup, p.forall_fields (fun _ => trivial)
      (fun _ => trivial) (fun _ _ => trivial) ?_ ?_ p.members.distinct⟩
    · exact (distinct_array _).mpr (forall_mem_map.mpr fun _ _ => trivial)
    · exact (distinct_array _).mpr (forall_mem_map.mpr fun vk _ => vk.toJson_distinct)
  inRange := by
    refine (inRange_object _).mpr (p.forall_fields (fun _ => trivial) (fun _ => trivial) ?_ ?_ ?_
      p.members.inRange)
    · intro n hn
      have hfits : Fits n := by constructor <;> omega
      exact hfits
    · exact (inRange_array _).mpr (forall_mem_map.mpr fun _ _ => trivial)
    · exact (inRange_array _).mpr (forall_mem_map.mpr fun vk _ => vk.toJson_inRange)

theorem fold_of_canonicalBytes {p q : InventoryPayload} (h : p.canonicalBytes = q.canonicalBytes) :
    p.epoch = q.epoch ∧ p.recoveryGeneration = q.recoveryGeneration := by
  have hmeaning := (toCanonicalBytes_eq_iff p.value q.value).mp h
  have hlookup : ∀ k, ((p.fields ++ p.recoveryFields).lookup k).map meaning =
      ((q.fields ++ q.recoveryFields).lookup k).map meaning := by
    have hobject : meaning (.object (p.fields ++ p.recoveryFields)) =
        meaning (.object (q.fields ++ q.recoveryFields)) := hmeaning
    rw [meaning_object, meaning_object, Tree.object.injEq] at hobject
    exact congrFun hobject
  constructor
  · have hepoch : some (Tree.number p.epoch.toNat) = some (Tree.number q.epoch.toNat) :=
      hlookup "epoch"
    exact UInt64.toNat_inj.mp (Int.ofNat.inj (Tree.number.inj (Option.some.inj hepoch)))
  · have hgeneration : ∀ r : InventoryPayload,
        ((r.fields ++ r.recoveryFields).lookup "recovery_generation").map meaning =
          r.recoveryGeneration.map fun g => Tree.number g.toNat := by
      intro r
      rw [recoveryFields]
      cases r.recovery <;> cases r.recoveryGeneration <;> rfl
    have heq := hlookup "recovery_generation"
    rw [hgeneration, hgeneration] at heq
    exact Option.map_injective (fun g g' hg => UInt64.toNat_inj.mp (Int.ofNat.inj (Tree.number.inj hg))) heq

end InventoryPayload

section

variable (c : Crypto)

def isArray : Json → Bool
  | .array _ => true
  | _ => false

/-- The loop over the declared keys, with the ids met so far. -/
def checkVerifyKeys : List String → List VerifyKey → Except VerifyError Unit
  | _, [] => .ok ()
  | vkIds, vk :: rest =>
    if vk.keyType ≠ algEd25519 then .error (.unsupportedKeyType vk.keyId vk.keyType)
    else if (c.decodeFixed vk.pubkey ed25519PubkeyLen).isNone then
      .error (.malformedVerifyKey vk.keyId)
    else if vk.keyId ∈ vkIds then .error (.duplicateVerifyKeyId vk.keyId)
    else checkVerifyKeys (vk.keyId :: vkIds) rest

variable (p : InventoryPayload)

/-- Checks (1) to (4), which look at the payload alone. -/
def checkShape : Except VerifyError Unit :=
  if p.canonicalEncoding ≠ canonicalEncodingV1 then
    .error (.unknownCanonicalEncoding p.canonicalEncoding)
  else if p.schemaVersion ≠ supportedSchemaVersion then
    .error (.unsupportedSchemaVersion p.schemaVersion)
  else if isArray p.members.json = false then .error (.malformedPayload "members is not an array")
  else if p.verifyKeys.isEmpty then .error .noVerifyKeys
  else checkVerifyKeys c [] p.verifyKeys

variable (state : NodeTrustState)

/-- An entry of the bag that is not passed over: Ed25519, declared, trusted, and right. -/
def counts (p : InventoryPayload) (s : InvSignature) : Bool :=
  s.alg == algEd25519 && p.verifyKeys.any (fun vk => vk.keyId == s.keyId) &&
    match state.trustedPubkey s.keyId, c.decodeFixed s.sig ed25519SigLen with
    | some pubkey, some sig => c.verifyEd25519 pubkey sig p.canonicalBytes
    | _, _ => false

/-- What the loop over the signatures keeps: ids counted so far, and whether genesis is one. -/
structure Tally where
  verifiedBy : List String
  genesisVerified : Bool
deriving DecidableEq

def tally (p : InventoryPayload) (t : Tally) (s : InvSignature) : Tally :=
  if counts c state p s && !t.verifiedBy.contains s.keyId then
    { verifiedBy := t.verifiedBy ++ [s.keyId]
      genesisVerified := t.genesisVerified || s.keyId == state.genesisKeyId }
  else t

variable (inv : SignedInventory)

def collectSignatures : Tally :=
  inv.signatures.foldl (tally c state inv.payload) ⟨[], false⟩

def recoveryAxis (p : InventoryPayload) (genesisVerified : Bool) : Except VerifyError UInt64 :=
  if genesisVerified = false then .error .recoveryNotGenesisSigned
  else match p.recoveryGeneration with
    | none => .error .recoveryMissingGeneration
    | some generation =>
      if generation < state.lastRecoveryGeneration then
        .error (.staleRecovery generation state.lastRecoveryGeneration)
      else if generation = state.lastRecoveryGeneration ∧ state.lastCanonicalHash.isNone then
        .error (.recoveryEqualGenerationUnpinned generation)
      else .ok generation

def normalAxis (p : InventoryPayload) (genesisVerified : Bool) : Except VerifyError UInt64 :=
  if p.epoch < state.lastEpoch then .error (.staleEpoch p.epoch state.lastEpoch)
  else match p.recoveryGeneration with
    | none =>
      if state.lastRecoveryGeneration = 0 then .ok 0
      else .error (.normalMissingRecoveryGeneration state.lastRecoveryGeneration)
    | some generation =>
      if generation = state.lastRecoveryGeneration then .ok generation
      else if generation < state.lastRecoveryGeneration then
        .error (.recoveryGenerationRollback generation state.lastRecoveryGeneration)
      else if genesisVerified then .ok generation
      else .error (.recoveryFloorRaiseRequiresGenesis generation state.lastRecoveryGeneration)

def foldAdvanced (p : InventoryPayload) (recovery : Bool) (generation : UInt64) : Bool :=
  if recovery then decide (state.lastRecoveryGeneration < generation)
  else decide (state.lastEpoch < p.epoch) || decide (state.lastRecoveryGeneration < generation)

/-- A payload that does not advance the fold has the pinned hash, when one is pinned. -/
def checkPin (p : InventoryPayload) (recovery : Bool)
    (generation : UInt64) : Except VerifyError Unit :=
  if foldAdvanced state p recovery generation then .ok ()
  else match state.lastCanonicalHash with
    | none => .ok ()
    | some expected =>
      if p.canonicalBlake3 c = expected then .ok ()
      else .error (.baselineHashMismatch p.epoch generation expected (p.canonicalBlake3 c))

def checkRecoveryMarker : Except VerifyError Bool :=
  match p.recovery with
  | none => .ok false
  | some true => .ok true
  | some false => .error .normalExplicitRecoveryFalse

/-- Checks (6) and (8): some key authorised the payload, and genesis stays. -/
def checkAuthorised (p : InventoryPayload) (t : Tally) : Except VerifyError Unit :=
  if t.verifiedBy.isEmpty then .error .noTrustedSignature
  -- rule 1 looks for an entry under the id of genesis, whatever its key is
  else if p.verifyKeys.any (fun vk => vk.keyId == state.genesisKeyId) then .ok ()
  else .error (.genesisDropped state.genesisKeyId)

def acceptedGeneration (p : InventoryPayload)
    (recovery genesisVerified : Bool) : Except VerifyError UInt64 :=
  if recovery then recoveryAxis state p genesisVerified else normalAxis state p genesisVerified

def verify (state : NodeTrustState) : Except VerifyError AcceptedInventory := do
  let p := inv.payload
  checkShape c p
  let t := collectSignatures c state inv
  checkAuthorised state p t
  let recovery ← checkRecoveryMarker p
  let generation ← acceptedGeneration state p recovery t.genesisVerified
  checkPin c state p recovery generation
  return {
    epoch := p.epoch
    recoveryGeneration := generation
    viaRecovery := recovery
    verifiedBy := t.verifiedBy
    adoptVerifyKeys := p.verifyKeys }

/-- The caller's part: decode and install the keys of an accepted inventory. -/
def install (keys : List VerifyKey) : List TrustedKey :=
  keys.filterMap fun vk => (c.decodeFixed vk.pubkey ed25519PubkeyLen).map fun pubkey =>
    ⟨vk.keyId, pubkey, vk.status⟩

def adopt (accepted : AcceptedInventory) : NodeTrustState where
  genesisKeyId := state.genesisKeyId
  trustedKeys := install c accepted.adoptVerifyKeys
  lastEpoch := accepted.epoch
  lastRecoveryGeneration := accepted.recoveryGeneration
  lastCanonicalHash := some (inv.payload.canonicalBlake3 c)

/-- A node that is shown an inventory: it adopts what it accepts and nothing else. -/
def present : NodeTrustState :=
  match verify c inv state with
  | .ok accepted => adopt c state inv accepted
  | .error _ => state

/-- A payload that checks (1) to (4) let through. -/
structure WellFormed (p : InventoryPayload) : Prop where
  encoding : p.canonicalEncoding = canonicalEncodingV1
  schema : p.schemaVersion = supportedSchemaVersion
  members : isArray p.members.json = true
  nonempty : p.verifyKeys ≠ []
  ed25519 : ∀ vk ∈ p.verifyKeys, vk.keyType = algEd25519
  decodable : ∀ vk ∈ p.verifyKeys, (c.decodeFixed vk.pubkey ed25519PubkeyLen).isSome
  distinct : (p.verifyKeys.map VerifyKey.keyId).Nodup

theorem checkVerifyKeys_ok_iff (vkIds : List String) (keys : List VerifyKey) :
    checkVerifyKeys c vkIds keys = .ok () ↔ (∀ vk ∈ keys, vk.keyType = algEd25519) ∧
      (∀ vk ∈ keys, (c.decodeFixed vk.pubkey ed25519PubkeyLen).isSome) ∧
      (keys.map VerifyKey.keyId).Nodup ∧ ∀ vk ∈ keys, vk.keyId ∉ vkIds := by
  induction keys generalizing vkIds with
  | nil => simp [checkVerifyKeys]
  | cons vk keys ih =>
    rw [checkVerifyKeys]
    split
    · next h => simp [h]
    split
    · next h =>
      simp [h]
    split
    · next h => simp [h]
    next htype hkey hnew =>
    rw [ih]
    rw [Option.isNone_iff_eq_none, ← ne_eq, ← Option.isSome_iff_ne_none] at hkey
    rw [not_not] at htype
    simp only [forall_mem_cons, map_cons, nodup_cons, htype, hkey, hnew, true_and,
      not_false_eq_true]
    simp only [mem_cons, mem_map, not_or]
    constructor
    · rintro ⟨htypes, hkeys, hnodup, hseen⟩
      refine ⟨htypes, hkeys, ⟨?_, hnodup⟩, fun w hw => (hseen w hw).2⟩
      rintro ⟨w, hw, heq⟩
      exact (hseen w hw).1 heq
    · rintro ⟨htypes, hkeys, ⟨hhead, hnodup⟩, hseen⟩
      exact ⟨htypes, hkeys, hnodup, fun w hw => ⟨fun heq => hhead ⟨w, hw, heq⟩, hseen w hw⟩⟩

theorem checkShape_ok_iff : checkShape c p = .ok () ↔ WellFormed c p := by
  rw [checkShape]
  split
  · next h => exact iff_of_false nofun fun w => h w.encoding
  split
  · next h => exact iff_of_false nofun fun w => h w.schema
  split
  · next h => exact iff_of_false nofun fun w => Bool.false_ne_true (h.symm.trans w.members)
  split
  · next h => exact iff_of_false nofun fun w => w.nonempty (List.isEmpty_iff.mp h)
  next hencoding hschema hmembers hnonempty =>
  rw [checkVerifyKeys_ok_iff]
  constructor
  · rintro ⟨htypes, hkeys, hnodup, -⟩
    exact ⟨not_not.mp hencoding, not_not.mp hschema, Bool.not_eq_false _ ▸ hmembers,
      fun h => hnonempty (List.isEmpty_iff.mpr h), htypes, hkeys, hnodup⟩
  · intro w
    exact ⟨w.ed25519, w.decodable, w.distinct, fun _ _ => not_mem_nil⟩

variable {state : NodeTrustState} {p : InventoryPayload}

theorem tally_genesis {t : Tally} (s : InvSignature)
    (h : t.genesisVerified = true ↔ state.genesisKeyId ∈ t.verifiedBy) :
    (tally c state p t s).genesisVerified = true ↔
      state.genesisKeyId ∈ (tally c state p t s).verifiedBy := by
  rw [tally]
  split
  · rw [Bool.or_eq_true, h, beq_iff_eq, mem_append, mem_singleton]
    exact or_congr_right eq_comm
  · exact h

theorem mem_tally {t : Tally} (s : InvSignature) (id : String) :
    id ∈ (tally c state p t s).verifiedBy ↔
      id ∈ t.verifiedBy ∨ counts c state p s = true ∧ s.keyId = id := by
  rw [tally]
  split
  · next h =>
    rw [Bool.and_eq_true] at h
    simp [h.1, eq_comm]
  next h =>
  constructor
  · exact .inl
  · rintro (hid | ⟨hcounts, rfl⟩)
    · exact hid
    · simpa [hcounts] using h

theorem mem_collectSignatures (state : NodeTrustState) (inv : SignedInventory) (id : String) :
    id ∈ (collectSignatures c state inv).verifiedBy ↔
      ∃ s ∈ inv.signatures, counts c state inv.payload s = true ∧ s.keyId = id := by
  have hfold : ∀ (l : List InvSignature) (t : Tally),
      id ∈ (l.foldl (tally c state inv.payload) t).verifiedBy ↔
        id ∈ t.verifiedBy ∨ ∃ s ∈ l, counts c state inv.payload s = true ∧ s.keyId = id := by
    intro l
    induction l with
    | nil => simp
    | cons s l ih =>
      intro t
      rw [foldl_cons, ih, mem_tally, exists_mem_cons_iff, or_assoc]
  rw [collectSignatures, hfold]
  exact or_iff_right not_mem_nil

theorem genesisVerified_iff (state : NodeTrustState) (inv : SignedInventory) :
    (collectSignatures c state inv).genesisVerified = true ↔
      state.genesisKeyId ∈ (collectSignatures c state inv).verifiedBy := by
  have hfold : ∀ (l : List InvSignature) (t : Tally),
      (t.genesisVerified = true ↔ state.genesisKeyId ∈ t.verifiedBy) →
        ((l.foldl (tally c state inv.payload) t).genesisVerified = true ↔
          state.genesisKeyId ∈ (l.foldl (tally c state inv.payload) t).verifiedBy) := by
    intro l
    induction l with
    | nil => exact fun t h => h
    | cons s l ih => exact fun t h => ih _ (tally_genesis c s h)
  exact hfold inv.signatures ⟨[], false⟩ (iff_of_false nofun not_mem_nil)

/-- All that `verify` checks, and what it then returns. -/
structure Passed (inv : SignedInventory) (state : NodeTrustState) (accepted : AcceptedInventory) :
    Prop where
  shape : WellFormed c inv.payload
  authorised : (collectSignatures c state inv).verifiedBy ≠ []
  genesis : ∃ vk ∈ inv.payload.verifyKeys, vk.keyId = state.genesisKeyId
  marker : checkRecoveryMarker inv.payload = .ok accepted.viaRecovery
  axis : acceptedGeneration state inv.payload accepted.viaRecovery
    (collectSignatures c state inv).genesisVerified = .ok accepted.recoveryGeneration
  pin : checkPin c state inv.payload accepted.viaRecovery accepted.recoveryGeneration = .ok ()
  epoch : accepted.epoch = inv.payload.epoch
  signers : accepted.verifiedBy = (collectSignatures c state inv).verifiedBy
  keys : accepted.adoptVerifyKeys = inv.payload.verifyKeys

theorem checkAuthorised_ok_iff (state : NodeTrustState) (p : InventoryPayload) (t : Tally) :
    checkAuthorised state p t = .ok () ↔
      t.verifiedBy ≠ [] ∧ ∃ vk ∈ p.verifyKeys, vk.keyId = state.genesisKeyId := by
  rw [checkAuthorised]
  split
  · next h => exact iff_of_false nofun fun hall => hall.1 (List.isEmpty_iff.mp h)
  next h =>
  have hsome : t.verifiedBy ≠ [] := fun hnil => h (List.isEmpty_iff.mpr hnil)
  split
  · next hany =>
    obtain ⟨vk, hvk, hid⟩ := any_eq_true.mp hany
    exact iff_of_true rfl ⟨hsome, vk, hvk, beq_iff_eq.mp hid⟩
  next hnone =>
  refine iff_of_false nofun ?_
  rintro ⟨-, vk, hvk, hid⟩
  exact hnone (any_eq_true.mpr ⟨vk, hvk, beq_iff_eq.mpr hid⟩)

theorem verify_ok_iff (state : NodeTrustState)
    (accepted : AcceptedInventory) :
    verify c inv state = .ok accepted ↔ Passed c inv state accepted := by
  constructor
  · intro h
    obtain ⟨⟨⟩, hshape, h⟩ := bind_eq_ok.mp h
    obtain ⟨⟨⟩, hauth, h⟩ := bind_eq_ok.mp h
    obtain ⟨_, hmarker, h⟩ := bind_eq_ok.mp h
    obtain ⟨_, haxis, h⟩ := bind_eq_ok.mp h
    obtain ⟨⟨⟩, hpin, h⟩ := bind_eq_ok.mp h
    obtain ⟨hsigned, hgenesis⟩ := (checkAuthorised_ok_iff state _ _).mp hauth
    cases h
    exact ⟨(checkShape_ok_iff c _).mp hshape, hsigned, hgenesis, hmarker, haxis, hpin, rfl, rfl, rfl⟩
  · intro h
    have hauth := (checkAuthorised_ok_iff state inv.payload _).mpr ⟨h.authorised, h.genesis⟩
    refine bind_eq_ok.mpr ⟨(), (checkShape_ok_iff c _).mpr h.shape, bind_eq_ok.mpr ⟨(), hauth, ?_⟩⟩
    refine bind_eq_ok.mpr ⟨_, h.marker, bind_eq_ok.mpr ⟨_, h.axis, bind_eq_ok.mpr ⟨(), h.pin, ?_⟩⟩⟩
    rw [← h.epoch, ← h.signers, ← h.keys]
    rfl

variable {c}

theorem recoveryAxis_ok {g : Bool} {generation : UInt64}
    (h : recoveryAxis state p g = .ok generation) :
    p.recoveryGeneration = some generation ∧ ¬generation < state.lastRecoveryGeneration ∧
      (generation = state.lastRecoveryGeneration → state.lastCanonicalHash ≠ none) := by
  rw [recoveryAxis] at h
  split at h
  · cases h
  split at h
  · cases h
  next hdeclared =>
  split at h
  · cases h
  next hold =>
  split at h
  · cases h
  next hunpinned =>
  cases h
  refine ⟨hdeclared, hold, fun heq hnone => hunpinned ⟨heq, ?_⟩⟩
  rw [hnone]
  rfl

theorem normalAxis_ok {g : Bool} {generation : UInt64} (h : normalAxis state p g = .ok generation) :
    p.recoveryGeneration.getD 0 = generation ∧ ¬generation < state.lastRecoveryGeneration ∧
      ¬p.epoch < state.lastEpoch := by
  rw [normalAxis] at h
  split at h
  · cases h
  next hepoch =>
  split at h
  · next hnone =>
    split at h
    · next hzero =>
      have hgeneration : 0 = generation := Except.ok.inj h
      rw [hnone, hzero, ← hgeneration]
      exact ⟨rfl, UInt64.lt_irrefl 0, hepoch⟩
    · cases h
  · next declared hdeclared =>
    rw [hdeclared]
    split at h
    · next heq =>
      have hgeneration : declared = generation := Except.ok.inj h
      rw [← hgeneration, heq]
      exact ⟨rfl, UInt64.lt_irrefl _, hepoch⟩
    split at h
    · cases h
    next hold =>
    split at h
    · have hgeneration : declared = generation := Except.ok.inj h
      rw [← hgeneration]
      exact ⟨rfl, hold, hepoch⟩
    · cases h

theorem checkPin_ok {recovery : Bool} {generation : UInt64}
    (h : checkPin c state p recovery generation = .ok ()) :
    foldAdvanced state p recovery generation = true ∨ state.lastCanonicalHash = none ∨
      state.lastCanonicalHash = some (p.canonicalBlake3 c) := by
  rw [checkPin] at h
  split at h
  · next hadvanced => exact .inl hadvanced
  split at h
  · next hnone => exact .inr (.inl hnone)
  next hexpected =>
  split at h
  · next heq => exact .inr (.inr (heq ▸ hexpected))
  · cases h

variable {accepted : AcceptedInventory} {inv : SignedInventory}

theorem Passed.generation (h : Passed c inv state accepted) :
    inv.payload.recoveryGeneration.getD 0 = accepted.recoveryGeneration := by
  have haxis := h.axis
  rw [acceptedGeneration] at haxis
  split at haxis
  · rw [(recoveryAxis_ok haxis).1]
    rfl
  · exact (normalAxis_ok haxis).1

/-- An accepted payload is above the state in generation; or not below and above in epoch; or at its
place with no other pinned there. -/
theorem Passed.place (h : Passed c inv state accepted) :
    state.lastRecoveryGeneration < accepted.recoveryGeneration ∨
    state.lastRecoveryGeneration = accepted.recoveryGeneration ∧ state.lastEpoch < accepted.epoch ∨
    state.lastRecoveryGeneration = accepted.recoveryGeneration ∧
      state.lastEpoch = accepted.epoch ∧ state.lastCanonicalHash = none ∨
    state.lastRecoveryGeneration = accepted.recoveryGeneration ∧
      state.lastCanonicalHash = some (inv.payload.canonicalBlake3 c) := by
  have haxis := h.axis
  have hpin := checkPin_ok h.pin
  rw [h.epoch]
  cases hvia : accepted.viaRecovery with
  | true =>
    rw [hvia] at haxis
    obtain ⟨-, hold, hpinned⟩ := recoveryAxis_ok haxis
    rcases UInt64.lt_or_eq_of_le (UInt64.not_lt.mp hold) with hlt | heq
    · exact .inl hlt
    rw [hvia] at hpin
    rcases hpin with hadvanced | hnone | hsome
    · exact .inl (of_decide_eq_true hadvanced)
    · exact absurd hnone (hpinned heq.symm)
    · exact .inr (.inr (.inr ⟨heq, hsome⟩))
  | false =>
    rw [hvia] at haxis
    obtain ⟨-, hold, hepoch⟩ := normalAxis_ok haxis
    rcases UInt64.lt_or_eq_of_le (UInt64.not_lt.mp hold) with hlt | heq
    · exact .inl hlt
    rcases UInt64.lt_or_eq_of_le (UInt64.not_lt.mp hepoch) with hlt | heq'
    · exact .inr (.inl ⟨heq, hlt⟩)
    rw [hvia] at hpin
    rcases hpin with hadvanced | hnone | hsome
    · rcases Bool.or_eq_true_iff.mp hadvanced with hlt | hlt
      · exact .inr (.inl ⟨heq, of_decide_eq_true hlt⟩)
      · exact .inl (of_decide_eq_true hlt)
    · exact .inr (.inr (.inl ⟨heq, heq', hnone⟩))
    · exact .inr (.inr (.inr ⟨heq, hsome⟩))

end

end Cosmix.MeshTrust
