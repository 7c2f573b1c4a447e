/- digest: Words of fewer bits, numbers as bytes, and parts after their lengths. -/

import Mathlib.Tactic.IntervalCases

namespace Cosmix.Lib

abbrev Narrow (w k : Nat) := { v : BitVec w // v.toNat < 2 ^ k }

namespace Narrow

variable {w k : Nat}

theorem ext_toNat {a b : Narrow w k} (h : a.val.toNat = b.val.toNat) : a = b :=
  Subtype.ext (BitVec.eq_of_toNat_eq h)

theorem toNat_and_ones (hk : k ≤ w) (v : BitVec w) :
    (v &&& BitVec.ofNat w (2 ^ k - 1)).toNat = v.toNat % 2 ^ k := by
  have hpow : 2 ^ k ≤ 2 ^ w := Nat.pow_le_pow_right (by decide) hk
  have hpos : 0 < 2 ^ k := Nat.two_pow_pos k
  rw [BitVec.toNat_and, BitVec.toNat_ofNat, Nat.mod_eq_of_lt (by omega),
    Nat.and_two_pow_sub_one_eq_mod]

def mask (k : Nat) (hk : k ≤ w) (v : BitVec w) : Narrow w k :=
  ⟨v &&& BitVec.ofNat w (2 ^ k - 1), by
    rw [toNat_and_ones hk]
    exact Nat.mod_lt _ (Nat.two_pow_pos k)⟩

theorem toNat_mask (hk : k ≤ w) (v : BitVec w) : (mask k hk v).val.toNat = v.toNat % 2 ^ k :=
  toNat_and_ones hk v

@[simp] theorem mask_val (hk : k ≤ w) (v : Narrow w k) : mask k hk v.val = v := by
  apply ext_toNat
  rw [toNat_mask, Nat.mod_eq_of_lt v.property]

end Narrow

section

variable {w : Nat} {a : BitVec w} {k : Nat}

theorem toNat_shiftLeft_or {b : BitVec w} (ha : a.toNat * 2 ^ k < 2 ^ w)
    (hb : b.toNat < 2 ^ k) : (a <<< k ||| b).toNat = a.toNat * 2 ^ k + b.toNat := by
  rw [BitVec.toNat_or, BitVec.toNat_shiftLeft, Nat.shiftLeft_eq, Nat.mod_eq_of_lt ha, Nat.mul_comm,
    ← Nat.two_pow_add_eq_or_of_lt hb]

theorem or_ushiftRight_of_lt {b : BitVec w} (hb : b.toNat < 2 ^ k) : (a ||| b) >>> k = a >>> k := by
  apply BitVec.eq_of_toNat_eq
  rw [BitVec.toNat_ushiftRight, BitVec.toNat_or, Nat.shiftRight_or_distrib, BitVec.toNat_ushiftRight,
    Nat.shiftRight_eq_div_pow b.toNat, Nat.div_eq_of_lt hb, Nat.or_zero]

theorem shiftLeft_ushiftRight_of_lt (ha : a.toNat * 2 ^ k < 2 ^ w) : (a <<< k) >>> k = a := by
  apply BitVec.eq_of_toNat_eq
  rw [BitVec.toNat_ushiftRight, BitVec.toNat_shiftLeft, Nat.shiftLeft_eq, Nat.mod_eq_of_lt ha,
    Nat.shiftRight_eq_div_pow, Nat.mul_div_cancel _ (Nat.two_pow_pos k)]

end

namespace LittleEndian

open List

def leBytes : Nat → Nat → List (BitVec 8)
  | 0, _ => []
  | width + 1, n => BitVec.ofNat 8 n :: leBytes width (n / 256)

def leValue : List (BitVec 8) → Nat
  | [] => 0
  | b :: bytes => b.toNat + 256 * leValue bytes

@[simp] theorem length_leBytes (width n : Nat) : (leBytes width n).length = width := by
  induction width generalizing n with
  | zero => rfl
  | succ width ih => rw [leBytes, length_cons, ih]

theorem leValue_leBytes {width n : Nat} (h : n < 256 ^ width) : leValue (leBytes width n) = n := by
  induction width generalizing n with
  | zero =>
    rw [Nat.lt_one_iff.mp h]
    rfl
  | succ width ih =>
    have hhigh : n / 256 < 256 ^ width := by
      exact Nat.div_lt_of_lt_mul (Nat.mul_comm _ _ ▸ h)
    rw [leBytes, leValue, ih hhigh, BitVec.toNat_ofNat]
    omega

theorem leBytes_leValue (bytes : List (BitVec 8)) : leBytes bytes.length (leValue bytes) = bytes := by
  induction bytes with
  | nil => rfl
  | cons b bytes ih =>
    have hhead : BitVec.ofNat 8 (leValue (b :: bytes)) = b := by
      apply BitVec.eq_of_toNat_eq
      rw [leValue, BitVec.toNat_ofNat]
      omega
    have htail : leValue (b :: bytes) / 256 = leValue bytes := by
      rw [leValue]
      omega
    rw [length_cons, leBytes, hhead, htail, ih]

theorem leValue_lt (bytes : List (BitVec 8)) : leValue bytes < 256 ^ bytes.length := by
  induction bytes with
  | nil => decide
  | cons =>
    rw [leValue, length_cons]
    omega

/-- The number of so many bytes at an offset. -/
def readLe (width : Nat) (bytes : List (BitVec 8)) (offset : Nat) : Nat :=
  leValue ((bytes.drop offset).take width)

theorem readLe_lt (width : Nat) (bytes : List (BitVec 8)) (offset : Nat) :
    readLe width bytes offset < 256 ^ width :=
  Nat.lt_of_lt_of_le (leValue_lt _) (Nat.pow_le_pow_right (by decide) (length_take_le _ _))

theorem readLe_append {width n offset : Nat} {before after : List (BitVec 8)} (h : n < 256 ^ width)
    (hoffset : before.length = offset) :
    readLe width (before ++ (leBytes width n ++ after)) offset = n := by
  rw [readLe, drop_left' hoffset, take_left' (length_leBytes width n), leValue_leBytes h]

theorem drop_eq_leBytes {width offset : Nat} {bytes : List (BitVec 8)}
    (h : offset + width ≤ bytes.length) :
    bytes.drop offset = leBytes width (readLe width bytes offset) ++ bytes.drop (offset + width) := by
  have hlength : ((bytes.drop offset).take width).length = width := by
    rw [length_take, length_drop]
    omega
  have hfield : leBytes width (readLe width bytes offset) = (bytes.drop offset).take width := by
    have hback := leBytes_leValue ((bytes.drop offset).take width)
    rwa [hlength] at hback
  rw [hfield, ← drop_drop, take_append_drop]

end LittleEndian

namespace Bytes

def beBytes : Nat → Nat → List UInt8
  | 0, _ => []
  | width + 1, n => beBytes width (n / 256) ++ [UInt8.ofNat n]

def beValue (bytes : List UInt8) : Nat := bytes.foldl (fun n b => n * 256 + b.toNat) 0

@[simp] theorem length_beBytes (width n : Nat) : (beBytes width n).length = width := by
  induction width generalizing n with
  | zero => rfl
  | succ width ih => rw [beBytes, List.length_append, ih, List.length_singleton]

theorem beValue_append (bytes : List UInt8) (b : UInt8) :
    beValue (bytes ++ [b]) = beValue bytes * 256 + b.toNat := by
  rw [beValue, List.foldl_append]
  rfl

theorem beValue_beBytes {width n : Nat} (h : n < 256 ^ width) : beValue (beBytes width n) = n := by
  induction width generalizing n with
  | zero =>
    rw [Nat.lt_one_iff.mp h]
    rfl
  | succ width ih =>
    have hhigh : n / 256 < 256 ^ width := by
      exact Nat.div_lt_of_lt_mul (Nat.mul_comm _ _ ▸ h)
    rw [beBytes, beValue_append, ih hhigh, UInt8.toNat_ofNat']
    omega

theorem beBytes_inj {width m n : Nat} (hm : m < 256 ^ width) (hn : n < 256 ^ width)
    (h : beBytes width m = beBytes width n) : m = n := by
  rw [← beValue_beBytes hm, h, beValue_beBytes hn]

/-- A part after its length in four bytes; none when the length does not fit. -/
def framed (part : List UInt8) : Option (List UInt8) :=
  if part.length < 2 ^ 32 then some (beBytes 4 part.length ++ part) else none

def frames : List (List UInt8) → Option (List UInt8)
  | [] => some []
  | part :: parts => (framed part).bind fun first => (frames parts).map (first ++ ·)

theorem framed_append_inj {x y a b s t : List UInt8} (hx : framed x = some a) (hy : framed y = some b)
    (h : a ++ s = b ++ t) : x = y ∧ s = t := by
  rw [framed] at hx hy
  split at hx
  · next hxlen =>
    split at hy
    · next hylen =>
      cases hx
      cases hy
      rw [List.append_assoc, List.append_assoc] at h
      obtain ⟨hlen, hrest⟩ := List.append_inj h (by rw [length_beBytes, length_beBytes])
      exact List.append_inj hrest (beBytes_inj hxlen hylen hlen)
    · cases hy
  · cases hx

theorem frames_inj {xs ys : List (List UInt8)} (hlen : xs.length = ys.length) {bytes : List UInt8}
    (hx : frames xs = some bytes) (hy : frames ys = some bytes) : xs = ys := by
  induction xs generalizing ys bytes with
  | nil => exact (List.length_eq_zero_iff.mp hlen.symm).symm
  | cons x xs ih =>
    cases ys with
    | nil => cases hlen
    | cons =>
      obtain ⟨a, ha, hx⟩ := Option.bind_eq_some_iff.mp hx
      obtain ⟨s, hs, rfl⟩ := Option.map_eq_some_iff.mp hx
      obtain ⟨b, hb, hy⟩ := Option.bind_eq_some_iff.mp hy
      obtain ⟨t, ht, heq⟩ := Option.map_eq_some_iff.mp hy
      obtain ⟨rfl, rfl⟩ := framed_append_inj ha hb heq.symm
      rw [ih (Nat.succ.inj hlen) hs ht]

end Bytes

end Cosmix.Lib
