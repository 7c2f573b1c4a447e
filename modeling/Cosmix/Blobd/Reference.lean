/- source: cosmix-blobd/src/core/reference.rs, cosmix-mds/src/blob.rs
   digest: Blob hashes as hex, references as JSON; a stored receipt reads back. -/

import Cosmix.Lib.JsonRoundTrip

namespace Cosmix.Blobd

open Lib List

structure BlobHash where
  bytes : List UInt8
  length_eq : bytes.length = 32
  deriving DecidableEq

def hexByte (b : UInt8) : List Char :=
  [Nat.digitChar (b.toNat / 16), Nat.digitChar (b.toNat % 16)]

def hex (h : BlobHash) : List Char := h.bytes.flatMap hexByte

/-- Two chars as one byte; a plus sign may stand for the first. -/
def hexPair (a b : Char) : Option UInt8 :=
  match Json.hexValue a, Json.hexValue b with
  | some high, some low => some (UInt8.ofNat (high * 16 + low))
  | none, some low => if a = '+' then some (UInt8.ofNat low) else none
  | _, none => none

def hexPairs : List Char → Option (List UInt8)
  | [] => some []
  | a :: b :: rest => (hexPair a b).bind fun x => (hexPairs rest).map (x :: ·)
  | [_] => none

def fromHex (cs : List Char) : Option BlobHash :=
  (hexPairs cs).bind fun bytes => if h : bytes.length = 32 then some ⟨bytes, h⟩ else none

def hashPrefix : List Char := ['b', '3', ':']

def blobId (h : BlobHash) : String := String.ofList (hashPrefix ++ hex h)

def parseBlobId (s : String) : Option BlobHash :=
  match s.toList with
  | 'b' :: '3' :: ':' :: rest => fromHex (rest.map Char.toLower)
  | _ => none

structure Reference where
  hash : BlobHash
  size : Nat
  mime : String
  name : Option String
  origin : String
  deriving DecidableEq

namespace Reference

def toJson (r : Reference) : Json :=
  .object ([("blob", .string (blobId r.hash)), ("mime", .string r.mime)] ++
    (r.name.map fun n => ("name", Json.string n)).toList ++
    [("origin", .string r.origin), ("size", .number r.size)])

def fromJson (v : Json) : Option Reference := do
  let id ← (v.get "blob").bind Json.asStr
  let hash ← parseBlobId id
  let size ← (v.get "size").bind Json.asU64
  let mime ← (v.get "mime").bind Json.asStr
  let origin ← (v.get "origin").bind Json.asStr
  some { hash := hash, size := size.toNat, mime := mime
         name := (v.get "name").bind Json.asStr, origin := origin }

def depthLimit : Nat := 127

def toText (r : Reference) : String := String.ofList (Json.print r.toJson)

def ofText (text : String) : Option Reference :=
  (Json.parse depthLimit text.toList).bind fromJson

end Reference

theorem hexPair_hexByte (b : UInt8) :
    hexPair (Nat.digitChar (b.toNat / 16)) (Nat.digitChar (b.toNat % 16)) = some b := by
  have hlt : b.toNat < 256 := b.toNat_lt
  have hhigh := Json.hexValue_digitChar (show b.toNat / 16 < 16 by omega)
  have hlow := Json.hexValue_digitChar (show b.toNat % 16 < 16 by omega)
  have hvalue : b.toNat / 16 * 16 + b.toNat % 16 = b.toNat := by omega
  rw [hexPair, hhigh, hlow]
  dsimp only
  rw [hvalue, UInt8.ofNat_toNat]

theorem hexPairs_flatMap (bytes : List UInt8) : hexPairs (bytes.flatMap hexByte) = some bytes := by
  induction bytes with
  | nil => rfl
  | cons b bytes ih =>
    change (hexPair _ _).bind (fun x => (hexPairs (bytes.flatMap hexByte)).map (x :: ·)) = _
    rw [hexPair_hexByte, ih]
    rfl

theorem toLower_digitChar {d : Nat} (h : d < 16) : (Nat.digitChar d).toLower = Nat.digitChar d := by
  revert d
  decide

theorem map_toLower_hex (h : BlobHash) : (hex h).map Char.toLower = hex h := by
  rw [hex, map_flatMap]
  congr 1
  ext1 b
  have hlt : b.toNat < 256 := b.toNat_lt
  rw [hexByte, map_cons, map_cons, map_nil, toLower_digitChar (by omega),
    toLower_digitChar (by omega)]

theorem parseBlobId_blobId (h : BlobHash) : parseBlobId (blobId h) = some h := by
  rw [parseBlobId, blobId, String.toList_ofList]
  change fromHex ((hex h).map Char.toLower) = some h
  rw [map_toLower_hex, fromHex, hex, hexPairs_flatMap, Option.bind_some, dif_pos h.length_eq]

namespace Reference

variable {r : Reference}

theorem asU64_size (hsize : r.size < 2 ^ 64) :
    (Json.asU64 (.number r.size)).map UInt64.toNat = some r.size := by
  rw [Json.asU64, if_pos ⟨by omega, by omega⟩, Option.map_some, Int.toNat_natCast,
    UInt64.toNat_ofNat_of_lt' hsize]

theorem fromJson_toJson (hsize : r.size < 2 ^ 64) : fromJson r.toJson = some r := by
  have hname : r.toJson.get "name" = r.name.map Json.string ∧
      r.toJson.get "origin" = some (.string r.origin) ∧
      r.toJson.get "size" = some (.number r.size) := by
    rw [toJson]
    cases r.name with
    | none | some => exact ⟨rfl, rfl, rfl⟩
  obtain ⟨hname, horigin, hget⟩ := hname
  obtain ⟨n, hread, hn⟩ := Option.map_eq_some_iff.mp (asU64_size hsize)
  have hback : (r.name.map Json.string).bind Json.asStr = r.name := by
    cases r.name <;> rfl
  have hsizes : (r.toJson.get "size").bind Json.asU64 = some n := by
    rw [hget, Option.bind_some, hread]
  have hblobs : (r.toJson.get "blob").bind Json.asStr = some (blobId r.hash) := by
    rfl
  have hmimes : (r.toJson.get "mime").bind Json.asStr = some r.mime := by
    rfl
  have horigins : (r.toJson.get "origin").bind Json.asStr = some r.origin := by
    rw [horigin]
    rfl
  rw [fromJson, hblobs, hsizes, hmimes, horigins, hname, hback]
  simp only [Option.bind_eq_bind, Option.bind_some, parseBlobId_blobId, hn]

theorem ofText_toText (hsize : r.size < 2 ^ 64) : ofText r.toText = some r := by
  have hrange : r.toJson.InRange := by
    rw [toJson, Json.inRange_object]
    intro m hm
    cases hname : r.name with
    | none =>
      simp only [hname, Option.map_none, Option.toList_none, cons_append, nil_append,
        mem_cons, not_mem_nil, or_false] at hm
      rcases hm with rfl | rfl | rfl | rfl
      · trivial
      · trivial
      · trivial
      · exact ⟨by omega, by omega⟩
    | some =>
      simp only [hname, Option.map_some, Option.toList_some, cons_append,
        nil_append, mem_cons, not_mem_nil, or_false] at hm
      rcases hm with rfl | rfl | rfl | rfl | rfl
      · trivial
      · trivial
      · trivial
      · trivial
      · exact ⟨by omega, by omega⟩
  have hdepth : r.toJson.depth ≤ depthLimit := by
    rw [toJson]
    cases r.name <;> simp [Json.depth, Json.depthCases, depthLimit]
  rw [ofText, toText, String.toList_ofList, Json.parse_print hrange hdepth, Option.bind_some,
    fromJson_toJson hsize]

end Reference

end Cosmix.Blobd
