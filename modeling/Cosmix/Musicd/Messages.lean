/- source: cosmix-musicd/src/midi2/scale.rs, ump.rs, cv1.rs, cv2.rs, msg.rs
   digest: Bit scaling between MIDI 1.0 and 2.0; packets and the typed messages on them. -/

import Cosmix.Lib.Bytes

namespace Cosmix.Musicd

open Cosmix.Lib
open BitVec (toNat_setWidth toNat_ushiftRight eq_of_toNat_eq)

abbrev U7 := Narrow 8 7

abbrev U14 := Narrow 16 14

namespace U7

def mask (v : BitVec 8) : U7 := Narrow.mask 7 (by decide) v

@[simp] theorem mask_val (v : U7) : mask v.val = v := Narrow.mask_val _ v

end U7

namespace U14

def mask (v : BitVec 16) : U14 := Narrow.mask 14 (by decide) v

@[simp] theorem mask_val (v : U14) : mask v.val = v := Narrow.mask_val _ v

theorem toNat_join (hi lo : U7) :
    (hi.val.setWidth 16 <<< 7 ||| lo.val.setWidth 16).toNat = hi.val.toNat * 128 + lo.val.toNat := by
  have hlo := lo.property
  have hwide : ∀ v : BitVec 8, (v.setWidth 16).toNat = v.toNat := fun v =>
    BitVec.toNat_setWidth_of_le (by decide)
  rw [toNat_shiftLeft_or (by rw [hwide]; omega) (by rw [hwide]; exact hlo)]
  rfl

/-- The upper half shifted up seven places, or the lower one. -/
def join (hi lo : U7) : U14 :=
  ⟨hi.val.setWidth 16 <<< 7 ||| lo.val.setWidth 16, by
    have hhi := hi.property
    have hlo := lo.property
    rw [toNat_join]
    omega⟩

def high (v : U14) : U7 := U7.mask ((v.val >>> 7).setWidth 8)

def low (v : U14) : U7 := U7.mask (v.val.setWidth 8)

theorem toNat_high (v : U14) : v.high.val.toNat = v.val.toNat / 128 := by
  rw [high, U7.mask, Narrow.toNat_mask, toNat_setWidth, toNat_ushiftRight]
  omega

theorem toNat_low (v : U14) : v.low.val.toNat = v.val.toNat % 128 := by
  rw [low, U7.mask, Narrow.toNat_mask, toNat_setWidth]
  omega

@[simp] theorem high_join (hi lo : U7) : (join hi lo).high = hi := by
  apply Narrow.ext_toNat
  rw [toNat_high, join, toNat_join]
  omega

@[simp] theorem low_join (hi lo : U7) : (join hi lo).low = lo := by
  apply Narrow.ext_toNat
  rw [toNat_low, join, toNat_join]
  omega

end U14

variable {n : Nat} {v : BitVec 32}

theorem toNat_ushiftRight_lt (hn : 0 < n) (hv : v ≠ 0) : (v >>> n).toNat < v.toNat := by
  have hpos : v.toNat ≠ 0 := fun h => hv (eq_of_toNat_eq h)
  rw [toNat_ushiftRight, Nat.shiftRight_eq_div_pow]
  exact Nat.div_lt_self (by omega) (Nat.one_lt_two_pow (by omega))

/-- The loop that repeats the significant bits into the vacated low bits until they run out. -/
def fillRepeat (repeatBits : Nat) (h : 0 < repeatBits) (out repeatValue : BitVec 32) : BitVec 32 :=
  if repeatValue = 0 then out
  else fillRepeat repeatBits h (out ||| repeatValue) (repeatValue >>> repeatBits)
termination_by repeatValue.toNat
decreasing_by exact toNat_ushiftRight_lt h ‹_›

def scaleUp (srcVal : BitVec 32) (srcBits dstBits : Nat) (h : 2 ≤ srcBits) : BitVec 32 :=
  if srcVal = 0 then 0
  else
    let scaleBits := dstBits - srcBits
    let bitShifted := srcVal <<< scaleBits
    let srcCenter := 1#32 <<< (srcBits - 1)
    if srcVal ≤ srcCenter then bitShifted
    else
      let repeatBits := srcBits - 1
      let repeatMask := (1#32 <<< repeatBits) - 1
      let repeatValue := srcVal &&& repeatMask
      fillRepeat repeatBits (by omega) bitShifted
        (if scaleBits > repeatBits then repeatValue <<< (scaleBits - repeatBits)
          else repeatValue >>> (repeatBits - scaleBits))

def up7to16 (v : U7) : BitVec 16 := (scaleUp (v.val.setWidth 32) 7 16 (by decide)).setWidth 16

def up7to32 (v : U7) : BitVec 32 := scaleUp (v.val.setWidth 32) 7 32 (by decide)

def up14to32 (v : U14) : BitVec 32 := scaleUp (v.val.setWidth 32) 14 32 (by decide)

def down16to7 (v : BitVec 16) : BitVec 8 := (v >>> 9).setWidth 8

def down32to7 (v : BitVec 32) : BitVec 8 := (v >>> 25).setWidth 8

def down32to14 (v : BitVec 32) : BitVec 16 := (v >>> 18).setWidth 16

theorem fillRepeat_ushiftRight {k repeatBits : Nat} {h : 0 < repeatBits} (out : BitVec 32)
    {repeatValue : BitVec 32} (hlt : repeatValue.toNat < 2 ^ k) :
    fillRepeat repeatBits h out repeatValue >>> k = out >>> k := by
  fun_induction fillRepeat repeatBits h out repeatValue with
  | case1 => rfl
  | case2 out repeatValue hzero ih =>
    rw [ih (Nat.lt_trans (toNat_ushiftRight_lt h hzero) hlt), or_ushiftRight_of_lt hlt]

theorem toNat_repeatMask (hn : n < 32) : ((1#32 <<< n) - 1).toNat = 2 ^ n - 1 := by
  have hpow : 2 ^ n < 2 ^ 32 := Nat.pow_lt_pow_right (by decide) hn
  have hpos : 0 < 2 ^ n := Nat.two_pow_pos n
  have hone : (1#32 <<< n).toNat = 2 ^ n := by
    rw [BitVec.toNat_shiftLeft, Nat.shiftLeft_eq, BitVec.toNat_ofNat, Nat.one_mul,
      Nat.mod_eq_of_lt hpow]
  rw [BitVec.toNat_sub, hone]
  change (4294967296 - 1 + 2 ^ n) % 4294967296 = 2 ^ n - 1
  omega

theorem toNat_repeatValue_lt {s : Nat} (hn : n < 32) (v : BitVec 32) :
    (if s > n then (v &&& ((1#32 <<< n) - 1)) <<< (s - n)
      else (v &&& ((1#32 <<< n) - 1)) >>> (n - s)).toNat < 2 ^ s := by
  have hlow : (v &&& ((1#32 <<< n) - 1)).toNat < 2 ^ n := by
    rw [BitVec.toNat_and, toNat_repeatMask hn]
    exact Nat.and_lt_two_pow _ (Nat.sub_lt (Nat.two_pow_pos n) Nat.one_pos)
  split
  · next hgt =>
    rw [BitVec.toNat_shiftLeft, Nat.shiftLeft_eq]
    calc _ ≤ (v &&& ((1#32 <<< n) - 1)).toNat * 2 ^ (s - n) := Nat.mod_le _ _
      _ < 2 ^ n * 2 ^ (s - n) := Nat.mul_lt_mul_of_pos_right hlow (Nat.two_pow_pos _)
      _ = 2 ^ s := by rw [← Nat.pow_add, Nat.add_sub_cancel' (Nat.le_of_lt hgt)]
  · next hle =>
    have hsplit : 2 ^ n = 2 ^ s * 2 ^ (n - s) := by
      rw [← Nat.pow_add, Nat.add_sub_cancel' (Nat.le_of_not_gt hle)]
    rw [toNat_ushiftRight, Nat.shiftRight_eq_div_pow, Nat.div_lt_iff_lt_mul (Nat.two_pow_pos _)]
    omega

theorem scaleUp_ushiftRight {srcBits dstBits : Nat} {h : 2 ≤ srcBits}
    (hv : v.toNat < 2 ^ srcBits) (hsrc : srcBits ≤ dstBits) (hdst : dstBits ≤ 32) :
    scaleUp v srcBits dstBits h >>> (dstBits - srcBits) = v := by
  have hfits : v.toNat * 2 ^ (dstBits - srcBits) < 2 ^ 32 :=
    calc _ < 2 ^ srcBits * 2 ^ (dstBits - srcBits) :=
          Nat.mul_lt_mul_of_pos_right hv (Nat.two_pow_pos _)
      _ = 2 ^ dstBits := by rw [← Nat.pow_add, Nat.add_sub_cancel' hsrc]
      _ ≤ 2 ^ 32 := Nat.pow_le_pow_right (by decide) hdst
  unfold scaleUp
  split
  · next hzero =>
    rw [hzero]
    exact BitVec.zero_ushiftRight
  dsimp only
  split
  · exact shiftLeft_ushiftRight_of_lt hfits
  · rw [fillRepeat_ushiftRight _ (toNat_repeatValue_lt (by omega) v),
      shiftLeft_ushiftRight_of_lt hfits]

theorem scaleUp_lt {srcBits dstBits : Nat} {h : 2 ≤ srcBits}
    (hv : v.toNat < 2 ^ srcBits) (hsrc : srcBits ≤ dstBits) (hdst : dstBits ≤ 32) :
    (scaleUp v srcBits dstBits h).toNat < 2 ^ dstBits := by
  have htop := congrArg BitVec.toNat (scaleUp_ushiftRight (h := h) hv hsrc hdst)
  rw [toNat_ushiftRight, Nat.shiftRight_eq_div_pow] at htop
  rw [← htop, Nat.div_lt_iff_lt_mul (Nat.two_pow_pos _), ← Nat.pow_add,
    Nat.add_sub_cancel' hsrc] at hv
  exact hv

section

variable {w k dstBits : Nat}

theorem toNat_widen (hw : w ≤ 32) (v : Narrow w k) : (v.val.setWidth 32).toNat < 2 ^ k := by
  rw [BitVec.toNat_setWidth_of_le hw]
  exact v.property

theorem toNat_scaleUp_div (hw : w ≤ 32) (h : 2 ≤ k) (hsrc : k ≤ dstBits) (hdst : dstBits ≤ 32)
    (v : Narrow w k) :
    (scaleUp (v.val.setWidth 32) k dstBits h).toNat / 2 ^ (dstBits - k) = v.val.toNat := by
  have htop := congrArg BitVec.toNat (scaleUp_ushiftRight (h := h) (toNat_widen hw v) hsrc hdst)
  rw [toNat_ushiftRight, Nat.shiftRight_eq_div_pow, BitVec.toNat_setWidth_of_le hw] at htop
  exact htop

end

@[simp] theorem down16to7_up7to16 (v : U7) : down16to7 (up7to16 v) = v.val := by
  have htop := toNat_scaleUp_div (by decide) (by decide) (by decide : 7 ≤ 16) (by decide) v
  have hlt := scaleUp_lt (h := by decide) (toNat_widen (by decide) v) (by decide : 7 ≤ 16) (by decide)
  apply eq_of_toNat_eq
  rw [down16to7, up7to16, toNat_setWidth, toNat_ushiftRight, toNat_setWidth, Nat.mod_eq_of_lt hlt]
  omega

@[simp] theorem down32to7_up7to32 (v : U7) : down32to7 (up7to32 v) = v.val := by
  have htop := toNat_scaleUp_div (by decide) (by decide) (by decide : 7 ≤ 32) (by decide) v
  apply eq_of_toNat_eq
  rw [down32to7, up7to32, toNat_setWidth, toNat_ushiftRight]
  omega

@[simp] theorem down32to14_up14to32 (v : U14) : down32to14 (up14to32 v) = v.val := by
  have htop := toNat_scaleUp_div (by decide) (by decide) (by decide : 14 ≤ 32) (by decide) v
  apply eq_of_toNat_eq
  rw [down32to14, up14to32, toNat_setWidth, toNat_ushiftRight]
  omega

open U7 (mask)

def mtTable : List Nat := [1, 1, 1, 2, 2, 4, 1, 1, 2, 2, 2, 3, 3, 4, 4, 4]

def mtWords (mt : BitVec 8) : Nat := mtTable.getD (mt &&& 0xF).toNat 0

/-- A packet has as many words as its message type, the top nibble of its first word, calls for. -/
structure Ump where
  word0 : BitVec 32
  rest : List (BitVec 32)
  sized : rest.length + 1 = mtWords ((word0 >>> 28).setWidth 8)
deriving DecidableEq

namespace Ump

def fromWords : List (BitVec 32) → Option Ump
  | [] => none
  | w0 :: rest =>
    if h : rest.length + 1 = mtWords ((w0 >>> 28).setWidth 8) then some ⟨w0, rest, h⟩ else none

variable (u : Ump)

def words : List (BitVec 32) := u.word0 :: u.rest

def mt : BitVec 8 := (u.word0 >>> 28).setWidth 8

def routingNibble : BitVec 8 := ((u.word0 >>> 24) &&& 0xF).setWidth 8

def channelNibble : BitVec 8 := ((u.word0 >>> 16) &&& 0xF).setWidth 8

@[simp] theorem and_channelNibble : u.channelNibble &&& 15#8 = u.channelNibble := by
  unfold channelNibble
  ext i hi
  interval_cases i <;> simp

end Ump

/-- The first word of a channel voice packet, its message type in the top nibble. -/
def voiceWord (mt : BitVec 4) (group status channel index1 index2 : BitVec 8) : BitVec 32 :=
  mt.setWidth 32 <<< 28 ||| (group &&& 0xF).setWidth 32 <<< 24 |||
    (status &&& 0xF).setWidth 32 <<< 20 ||| (channel &&& 0xF).setWidth 32 <<< 16 |||
    (index1 &&& 0x7F).setWidth 32 <<< 8 ||| index2.setWidth 32

section

variable (mt : BitVec 4) (group status channel index1 index2 : BitVec 8)

theorem voiceWord_mt : voiceWord mt group status channel index1 index2 >>> 28 = mt.setWidth 32 := by
  unfold voiceWord
  ext i hi
  simp only [BitVec.getElem_ushiftRight]
  interval_cases i <;> simp

theorem voiceWord_channel :
    ((voiceWord mt group status channel index1 index2 >>> 16) &&& 0xF).setWidth 8 = channel &&& 0xF := by
  unfold voiceWord
  ext i hi
  interval_cases i <;> simp

end

namespace Cv1

def packet (group status channel data1 data2 : BitVec 8) : Ump :=
  ⟨voiceWord 0x2 group status channel data1 (data2 &&& 0x7F), [], by rw [voiceWord_mt]; rfl⟩

@[simp] theorem packet_channel (group status channel data1 data2 : BitVec 8) :
    (packet group status channel data1 data2).channelNibble = channel &&& 0xF :=
  voiceWord_channel _ _ _ _ _ _

structure NoteMessage where
  packet : Ump
  (note value : U7)
deriving DecidableEq

structure ControlChange where
  packet : Ump
  (controller value : U7)
deriving DecidableEq

structure ProgramChange where
  packet : Ump
  program : U7
deriving DecidableEq

structure ChannelPressure where
  packet : Ump
  pressure : U7
deriving DecidableEq

structure PitchBend where
  packet : Ump
  value : U14
deriving DecidableEq

end Cv1

inductive Midi1Cv
  | noteOff (m : Cv1.NoteMessage)
  | noteOn (m : Cv1.NoteMessage)
  | polyPressure (m : Cv1.NoteMessage)
  | controlChange (m : Cv1.ControlChange)
  | programChange (m : Cv1.ProgramChange)
  | channelPressure (m : Cv1.ChannelPressure)
  | pitchBend (m : Cv1.PitchBend)
  | unknown (packet : Ump)
deriving DecidableEq

namespace Midi1Cv

/-- The body shared by the three note-shaped messages. -/
def noteMessage (status group channel note value : BitVec 8) : Cv1.NoteMessage :=
  ⟨Cv1.packet group status channel note value, mask note, mask value⟩

def mkNoteOff (group channel note velocity : BitVec 8) : Midi1Cv :=
  .noteOff (noteMessage 0x8 group channel note velocity)

def mkNoteOn (group channel note velocity : BitVec 8) : Midi1Cv :=
  .noteOn (noteMessage 0x9 group channel note velocity)

def mkPolyPressure (group channel note pressure : BitVec 8) : Midi1Cv :=
  .polyPressure (noteMessage 0xA group channel note pressure)

def mkControlChange (group channel controller value : BitVec 8) : Midi1Cv :=
  .controlChange
    ⟨Cv1.packet group 0xB channel controller value, mask controller, mask value⟩

def mkProgramChange (group channel program : BitVec 8) : Midi1Cv :=
  .programChange ⟨Cv1.packet group 0xC channel program 0, mask program⟩

def mkChannelPressure (group channel pressure : BitVec 8) : Midi1Cv :=
  .channelPressure ⟨Cv1.packet group 0xD channel pressure 0, mask pressure⟩

def mkPitchBend (group channel : BitVec 8) (value : BitVec 16) : Midi1Cv :=
  .pitchBend ⟨Cv1.packet group 0xE channel (U14.mask value).low.val (U14.mask value).high.val,
    U14.mask value⟩

def encode : Midi1Cv → Ump
  | .noteOff m => m.packet
  | .noteOn m => m.packet
  | .polyPressure m => m.packet
  | .controlChange m => m.packet
  | .programChange m => m.packet
  | .channelPressure m => m.packet
  | .pitchBend m => m.packet
  | .unknown packet => packet

def group (m : Midi1Cv) : BitVec 8 := m.encode.routingNibble

def channel (m : Midi1Cv) : BitVec 8 := m.encode.channelNibble

end Midi1Cv

namespace Cv2

def packet (group status channel index1 index2 : BitVec 8) (data : BitVec 32) : Ump :=
  ⟨voiceWord 0x4 group status channel index1 index2, [data], by rw [voiceWord_mt]; rfl⟩

@[simp] theorem packet_channel (group status channel index1 index2 : BitVec 8) (data : BitVec 32) :
    (packet group status channel index1 index2 data).channelNibble = channel &&& 0xF :=
  voiceWord_channel _ _ _ _ _ _

structure NoteMessage where
  packet : Ump
  note : U7
  velocity : BitVec 16
  attributeType : BitVec 8
  attributeData : BitVec 16
deriving DecidableEq

structure PerNoteValue where
  packet : Ump
  note : U7
  data : BitVec 32
deriving DecidableEq

structure PerNoteController where
  packet : Ump
  (note controller : U7)
  data : BitVec 32
deriving DecidableEq

structure PerNoteManagement where
  packet : Ump
  note : U7
  flags : BitVec 8
deriving DecidableEq

structure ControlChange where
  packet : Ump
  controller : U7
  data : BitVec 32
deriving DecidableEq

structure Controller where
  packet : Ump
  (bank index : U7)
  data : BitVec 32
deriving DecidableEq

/-- The increment is a signed number in two's complement. -/
structure RelativeController where
  packet : Ump
  (bank index : U7)
  delta : BitVec 32
deriving DecidableEq

structure ProgramChange where
  packet : Ump
  program : U7
  bank : Option U14
deriving DecidableEq

structure ChannelValue where
  packet : Ump
  data : BitVec 32
deriving DecidableEq

end Cv2

inductive Midi2Cv
  | registeredPerNoteController (m : Cv2.PerNoteController)
  | assignablePerNoteController (m : Cv2.PerNoteController)
  | registeredController (m : Cv2.Controller)
  | assignableController (m : Cv2.Controller)
  | relativeRegisteredController (m : Cv2.RelativeController)
  | relativeAssignableController (m : Cv2.RelativeController)
  | perNotePitchBend (m : Cv2.PerNoteValue)
  | noteOff (m : Cv2.NoteMessage)
  | noteOn (m : Cv2.NoteMessage)
  | polyPressure (m : Cv2.PerNoteValue)
  | controlChange (m : Cv2.ControlChange)
  | programChange (m : Cv2.ProgramChange)
  | channelPressure (m : Cv2.ChannelValue)
  | pitchBend (m : Cv2.ChannelValue)
  | perNoteManagement (m : Cv2.PerNoteManagement)
  | unknown (packet : Ump)
deriving DecidableEq

namespace Midi2Cv

def noteMessage (status group channel note : BitVec 8) (velocity : BitVec 16)
    (attributeType : BitVec 8) (attributeData : BitVec 16) : Cv2.NoteMessage :=
  ⟨Cv2.packet group status channel note attributeType
      (velocity.setWidth 32 <<< 16 ||| attributeData.setWidth 32),
    mask note, velocity, attributeType, attributeData⟩

def mkNoteOff (group channel note : BitVec 8) (velocity : BitVec 16) (attributeType : BitVec 8)
    (attributeData : BitVec 16) : Midi2Cv :=
  .noteOff (noteMessage 0x8 group channel note velocity attributeType attributeData)

def mkNoteOn (group channel note : BitVec 8) (velocity : BitVec 16) (attributeType : BitVec 8)
    (attributeData : BitVec 16) : Midi2Cv :=
  .noteOn (noteMessage 0x9 group channel note velocity attributeType attributeData)

def mkPolyPressure (group channel note : BitVec 8) (data : BitVec 32) : Midi2Cv :=
  .polyPressure ⟨Cv2.packet group 0xA channel note 0 data, mask note, data⟩

def perNoteController (status group channel note controller : BitVec 8) (data : BitVec 32) :
    Cv2.PerNoteController :=
  ⟨Cv2.packet group status channel note (controller &&& 0x7F) data, mask note,
    mask controller, data⟩

def mkRegisteredPerNoteController (group channel note controller : BitVec 8) (data : BitVec 32) :
    Midi2Cv :=
  .registeredPerNoteController (perNoteController 0x0 group channel note controller data)

def mkAssignablePerNoteController (group channel note controller : BitVec 8) (data : BitVec 32) :
    Midi2Cv :=
  .assignablePerNoteController (perNoteController 0x1 group channel note controller data)

/-- Only the two defined flags are kept. -/
def mkPerNoteManagement (group channel note flags : BitVec 8) : Midi2Cv :=
  .perNoteManagement ⟨Cv2.packet group 0xF channel note (flags &&& 0x3) 0, mask note, flags &&& 0x3⟩

def mkControlChange (group channel controller : BitVec 8) (data : BitVec 32) : Midi2Cv :=
  .controlChange ⟨Cv2.packet group 0xB channel controller 0 data, mask controller, data⟩

def controller (status group channel bank index : BitVec 8) (data : BitVec 32) : Cv2.Controller :=
  ⟨Cv2.packet group status channel bank (index &&& 0x7F) data, mask bank, mask index, data⟩

def mkRegisteredController (group channel bank index : BitVec 8) (data : BitVec 32) : Midi2Cv :=
  .registeredController (controller 0x2 group channel bank index data)

def mkAssignableController (group channel bank index : BitVec 8) (data : BitVec 32) : Midi2Cv :=
  .assignableController (controller 0x3 group channel bank index data)

def relativeController (status group channel bank index : BitVec 8) (delta : BitVec 32) :
    Cv2.RelativeController :=
  ⟨Cv2.packet group status channel bank (index &&& 0x7F) delta, mask bank, mask index, delta⟩

def mkRelativeRegisteredController (group channel bank index : BitVec 8) (delta : BitVec 32) :
    Midi2Cv :=
  .relativeRegisteredController (relativeController 0x4 group channel bank index delta)

def mkRelativeAssignableController (group channel bank index : BitVec 8) (delta : BitVec 32) :
    Midi2Cv :=
  .relativeAssignableController (relativeController 0x5 group channel bank index delta)

/-- The second word of a Program Change: the program, and the halves of the bank. -/
def programWord (program : U7) : Option U14 → BitVec 32
  | some bank =>
    program.val.setWidth 32 <<< 24 ||| bank.high.val.setWidth 32 <<< 8 ||| bank.low.val.setWidth 32
  | none => program.val.setWidth 32 <<< 24

def mkProgramChange (group channel program : BitVec 8) (bank : Option (BitVec 16)) : Midi2Cv :=
  .programChange
    ⟨Cv2.packet group 0xC channel 0 (if bank.isSome then 1 else 0)
        (programWord (mask program) (bank.map U14.mask)),
      mask program, bank.map U14.mask⟩

def mkChannelPressure (group channel : BitVec 8) (data : BitVec 32) : Midi2Cv :=
  .channelPressure ⟨Cv2.packet group 0xD channel 0 0 data, data⟩

def mkPitchBend (group channel : BitVec 8) (data : BitVec 32) : Midi2Cv :=
  .pitchBend ⟨Cv2.packet group 0xE channel 0 0 data, data⟩

def mkPerNotePitchBend (group channel note : BitVec 8) (data : BitVec 32) : Midi2Cv :=
  .perNotePitchBend ⟨Cv2.packet group 0x6 channel note 0 data, mask note, data⟩

def encode : Midi2Cv → Ump
  | .registeredPerNoteController m => m.packet
  | .assignablePerNoteController m => m.packet
  | .registeredController m => m.packet
  | .assignableController m => m.packet
  | .relativeRegisteredController m => m.packet
  | .relativeAssignableController m => m.packet
  | .perNotePitchBend m => m.packet
  | .noteOff m => m.packet
  | .noteOn m => m.packet
  | .polyPressure m => m.packet
  | .controlChange m => m.packet
  | .programChange m => m.packet
  | .channelPressure m => m.packet
  | .pitchBend m => m.packet
  | .perNoteManagement m => m.packet
  | .unknown packet => packet

def group (m : Midi2Cv) : BitVec 8 := m.encode.routingNibble

def channel (m : Midi2Cv) : BitVec 8 := m.encode.channelNibble

end Midi2Cv

structure UtilityValue where
  packet : Ump
  value : BitVec 32
deriving DecidableEq

inductive Utility
  | noOp (v : UtilityValue)
  | jrClock (v : UtilityValue)
  | jrTimestamp (v : UtilityValue)
  | deltaClockstampTpq (v : UtilityValue)
  | deltaClockstamp (v : UtilityValue)
  | unknown (packet : Ump)
deriving DecidableEq

def utilityMask (twentyBits : Bool) : BitVec 32 := if twentyBits then 0x000FFFFF else 0x0000FFFF

def utilityWord (status : BitVec 8) (value : BitVec 32) (twentyBits : Bool) : BitVec 32 :=
  (status &&& 0xF).setWidth 32 <<< 20 ||| (value &&& utilityMask twentyBits)

theorem utilityWord_mt (status : BitVec 8) (value : BitVec 32) (twentyBits : Bool) :
    utilityWord status value twentyBits >>> 28 = 0 := by
  unfold utilityWord utilityMask
  ext i hi
  cases twentyBits <;>
  simp only [BitVec.getElem_ushiftRight] <;>
  interval_cases i <;> simp

namespace Utility

def value (status : BitVec 8) (value : BitVec 32) (twentyBits : Bool) : UtilityValue :=
  ⟨⟨utilityWord status value twentyBits, [], by rw [utilityWord_mt]; rfl⟩,
    value &&& utilityMask twentyBits⟩

variable (data : BitVec 16)

def mkNoOp : Utility := .noOp (value 0 (data.setWidth 32) false)

def mkJrClock : Utility := .jrClock (value 1 (data.setWidth 32) false)

def mkJrTimestamp : Utility := .jrTimestamp (value 2 (data.setWidth 32) false)

def mkDeltaClockstampTpq (ticks : BitVec 16) : Utility :=
  .deltaClockstampTpq (value 3 (ticks.setWidth 32) false)

def mkDeltaClockstamp (ticks : BitVec 32) : Utility := .deltaClockstamp (value 4 ticks true)

def encode : Utility → Ump
  | .noOp m => m.packet
  | .jrClock m => m.packet
  | .jrTimestamp m => m.packet
  | .deltaClockstampTpq m => m.packet
  | .deltaClockstamp m => m.packet
  | .unknown packet => packet

end Utility

structure SystemData where
  packet : Ump
  value : U7
deriving DecidableEq

structure SongPosition where
  packet : Ump
  value : U14
deriving DecidableEq

structure SystemSignal where
  packet : Ump
deriving DecidableEq

inductive System
  | mtcQuarterFrame (m : SystemData)
  | songPosition (m : SongPosition)
  | songSelect (m : SystemData)
  | tuneRequest (m : SystemSignal)
  | timingClock (m : SystemSignal)
  | start (m : SystemSignal)
  | continue_ (m : SystemSignal)
  | stop (m : SystemSignal)
  | activeSensing (m : SystemSignal)
  | reset (m : SystemSignal)
  | unknown (packet : Ump)
deriving DecidableEq

/-- The word of a System packet, with the whole status byte below the group. -/
def systemWord (group status data1 data2 : BitVec 8) : BitVec 32 :=
  0x10000000 ||| (group &&& 0xF).setWidth 32 <<< 24 ||| status.setWidth 32 <<< 16 |||
    (data1 &&& 0x7F).setWidth 32 <<< 8 ||| (data2 &&& 0x7F).setWidth 32

theorem systemWord_mt (group status data1 data2 : BitVec 8) :
    systemWord group status data1 data2 >>> 28 = 1 := by
  unfold systemWord
  ext i hi
  simp only [BitVec.getElem_ushiftRight]
  interval_cases i <;> simp

namespace System

def packet (group status data1 data2 : BitVec 8) : Ump :=
  ⟨systemWord group status data1 data2, [], by rw [systemWord_mt]; rfl⟩

def data (group status value : BitVec 8) : SystemData :=
  ⟨packet group status value 0, mask value⟩

def signal (group status : BitVec 8) : SystemSignal := ⟨packet group status 0 0⟩

def mkMtcQuarterFrame (group value : BitVec 8) : System := .mtcQuarterFrame (data group 0xF1 value)

def mkSongPosition (group : BitVec 8) (value : BitVec 16) : System :=
  .songPosition ⟨packet group 0xF2 (U14.mask value).low.val (U14.mask value).high.val,
    U14.mask value⟩

def mkSongSelect (group song : BitVec 8) : System := .songSelect (data group 0xF3 song)

def mkTuneRequest (group : BitVec 8) : System := .tuneRequest (signal group 0xF6)

def mkTimingClock (group : BitVec 8) : System := .timingClock (signal group 0xF8)

def mkStart (group : BitVec 8) : System := .start (signal group 0xFA)

def mkContinue (group : BitVec 8) : System := .continue_ (signal group 0xFB)

def mkStop (group : BitVec 8) : System := .stop (signal group 0xFC)

def mkActiveSensing (group : BitVec 8) : System := .activeSensing (signal group 0xFE)

def mkReset (group : BitVec 8) : System := .reset (signal group 0xFF)

def encode : System → Ump
  | .mtcQuarterFrame m => m.packet
  | .songPosition m => m.packet
  | .songSelect m => m.packet
  | .tuneRequest m => m.packet
  | .timingClock m => m.packet
  | .start m => m.packet
  | .continue_ m => m.packet
  | .stop m => m.packet
  | .activeSensing m => m.packet
  | .reset m => m.packet
  | .unknown packet => packet

def group (m : System) : BitVec 8 := m.encode.routingNibble

end System

inductive SysEx7Format
  | complete
  | start
  | continue_
  | end_
deriving DecidableEq

def SysEx7Format.code : SysEx7Format → BitVec 8
  | .complete => 0
  | .start => 1
  | .continue_ => 2
  | .end_ => 3

/-- The data is what the array holds up to its length; past it the array repeats the packet. -/
structure SysEx7Packet where
  packet : Ump
  data : List (BitVec 8)
deriving DecidableEq

inductive SysEx7
  | complete (m : SysEx7Packet)
  | start (m : SysEx7Packet)
  | continue_ (m : SysEx7Packet)
  | end_ (m : SysEx7Packet)
  | unknown (packet : Ump)
deriving DecidableEq

/-- What a SysEx payload may be: at most six bytes, none with its high bit set. -/
def payloadOk (data : List (BitVec 8)) : Bool :=
  !(data.length > 6 || data.any fun byte => byte &&& 0x80 != 0)

def wordOfBytes (a b c d : BitVec 8) : BitVec 32 :=
  a.setWidth 32 <<< 24 ||| b.setWidth 32 <<< 16 ||| c.setWidth 32 <<< 8 ||| d.setWidth 32

theorem wordOfBytes_mt (g b c d : BitVec 8) :
    wordOfBytes (0x30 ||| (g &&& 0xF)) b c d >>> 28 = 3 := by
  unfold wordOfBytes
  ext i hi
  simp only [BitVec.getElem_ushiftRight]
  interval_cases i <;> simp

namespace SysEx7

/-- The packet of a payload: type and group, format and length, then the payload padded with zeros. -/
def packet (group : BitVec 8) (format : SysEx7Format) (data : List (BitVec 8)) : Ump :=
  ⟨wordOfBytes (0x30 ||| (group &&& 0xF)) (format.code <<< 4 ||| BitVec.ofNat 8 data.length)
      (data.getD 0 0) (data.getD 1 0),
    [wordOfBytes (data.getD 2 0) (data.getD 3 0) (data.getD 4 0) (data.getD 5 0)],
    by rw [wordOfBytes_mt]; rfl⟩

protected def new (group : BitVec 8) (format : SysEx7Format) (data : List (BitVec 8)) :
    Option SysEx7 :=
  if payloadOk data then
    let message : SysEx7Packet := ⟨packet group format data, data⟩
    some (match format with
      | .complete => .complete message
      | .start => .start message
      | .continue_ => .continue_ message
      | .end_ => .end_ message)
  else none

def encode : SysEx7 → Ump
  | .complete m => m.packet
  | .start m => m.packet
  | .continue_ m => m.packet
  | .end_ m => m.packet
  | .unknown packet => packet

def group (m : SysEx7) : BitVec 8 := m.encode.routingNibble

end SysEx7

/-- As in a SysEx7 packet, the data is what the array holds up to its length. -/
structure SysEx8Packet where
  packet : Ump
  streamId : BitVec 8
  data : List (BitVec 8)
deriving DecidableEq

structure MixedDataSetPacket where
  packet : Ump
  id : BitVec 8
  data : List (BitVec 8)
deriving DecidableEq

inductive Data128
  | sysEx8Complete (m : SysEx8Packet)
  | sysEx8Start (m : SysEx8Packet)
  | sysEx8Continue (m : SysEx8Packet)
  | sysEx8End (m : SysEx8Packet)
  | mixedDataSetHeader (m : MixedDataSetPacket)
  | mixedDataSetPayload (m : MixedDataSetPacket)
  | unknown (packet : Ump)
deriving DecidableEq

theorem wordOfBytes_data128_mt (g b c d : BitVec 8) :
    wordOfBytes (0x50 ||| (g &&& 0xF)) b c d >>> 28 = 5 := by
  unfold wordOfBytes
  ext i hi
  simp only [BitVec.getElem_ushiftRight]
  interval_cases i <;> simp

namespace Data128

/-- The packet of a group, a framing byte and fourteen more bytes, padded with zeros. -/
def packet (group framing : BitVec 8) (bytes : List (BitVec 8)) : Ump :=
  ⟨wordOfBytes (0x50 ||| (group &&& 0xF)) framing (bytes.getD 0 0) (bytes.getD 1 0),
    [wordOfBytes (bytes.getD 2 0) (bytes.getD 3 0) (bytes.getD 4 0) (bytes.getD 5 0),
      wordOfBytes (bytes.getD 6 0) (bytes.getD 7 0) (bytes.getD 8 0) (bytes.getD 9 0),
      wordOfBytes (bytes.getD 10 0) (bytes.getD 11 0) (bytes.getD 12 0) (bytes.getD 13 0)],
    by rw [wordOfBytes_data128_mt]; rfl⟩

def sysEx8 (group : BitVec 8) (format : SysEx7Format) (streamId : BitVec 8)
    (data : List (BitVec 8)) : Option Data128 :=
  if data.length > 13 then none
  else
    let message : SysEx8Packet :=
      ⟨packet group (format.code <<< 4 ||| (BitVec.ofNat 8 data.length + 1)) (streamId :: data),
        streamId, data⟩
    some (match format with
      | .complete => .sysEx8Complete message
      | .start => .sysEx8Start message
      | .continue_ => .sysEx8Continue message
      | .end_ => .sysEx8End message)

def mixedDataSet (group : BitVec 8) (header : Bool) (id : BitVec 8) (data : Vector (BitVec 8) 14) :
    Data128 :=
  let message : MixedDataSetPacket :=
    ⟨packet group ((if header then 0x80 else 0x90) ||| (id &&& 0xF)) data.toList, id &&& 0xF,
      data.toList⟩
  if header then .mixedDataSetHeader message else .mixedDataSetPayload message

def encode : Data128 → Ump
  | .sysEx8Complete m => m.packet
  | .sysEx8Start m => m.packet
  | .sysEx8Continue m => m.packet
  | .sysEx8End m => m.packet
  | .mixedDataSetHeader m => m.packet
  | .mixedDataSetPayload m => m.packet
  | .unknown packet => packet

def group (m : Data128) : BitVec 8 := m.encode.routingNibble

end Data128

inductive Message
  | utility (m : Utility)
  | system (m : System)
  | midi1Cv (m : Midi1Cv)
  | sysEx7 (m : SysEx7)
  | midi2Cv (m : Midi2Cv)
  | data128 (m : Data128)
  | unknown (packet : Ump)
deriving DecidableEq

namespace Message

def encode : Message → Ump
  | .utility m => m.encode
  | .system m => m.encode
  | .midi1Cv m => m.encode
  | .sysEx7 m => m.encode
  | .midi2Cv m => m.encode
  | .data128 m => m.encode
  | .unknown packet => packet

/-- The group of a message; Utility messages and reserved types have none. -/
def group : Message → Option (BitVec 8)
  | .utility _ => none
  | .unknown _ => none
  | .system m => some m.group
  | .midi1Cv m => some m.group
  | .sysEx7 m => some m.group
  | .midi2Cv m => some m.group
  | .data128 m => some m.group

end Message

end Cosmix.Musicd
