/- source: cosmix-musicd/src/midi2/cv1.rs, cv2.rs, msg.rs
   digest: Decoding gives back every message decoded or made by a constructor. -/

import Cosmix.Musicd.Messages

namespace Cosmix.Musicd

open Cosmix.Lib
open List (range replicate)
open U7 (mask)
open BitVec (getElem_setWidth getLsbD_and getLsbD_ushiftRight getLsbD_or getLsbD_shiftLeft
  getElem_and getElem_or toNat_setWidth getLsbD_setWidth)

/-! Fields of a packet. A field is cut to eight bits before its mask. -/

namespace Ump

variable (u : Ump)

def statusNibble : BitVec 8 := ((u.word0 >>> 20) &&& 0xF).setWidth 8

def statusByte : BitVec 8 := ((u.word0 >>> 16) &&& 0xFF).setWidth 8

def data1 : U7 := mask ((u.word0 >>> 8).setWidth 8)

def data2 : U7 := mask (u.word0.setWidth 8)

def word1 : BitVec 32 := u.rest.headD 0

end Ump

def wordBytes (w : BitVec 32) : List (BitVec 8) :=
  [(w >>> 24).setWidth 8, (w >>> 16).setWidth 8, (w >>> 8).setWidth 8, w.setWidth 8]

/-- The bytes of a packet's words, padded with zeros to sixteen. -/
def packetBytes (u : Ump) : List (BitVec 8) :=
  (u.words.flatMap wordBytes ++ replicate 16 0).take 16

namespace Midi1Cv

def decode (packet : Ump) : Option Midi1Cv :=
  if packet.mt ≠ 0x2 then none
  else
    let data1 := packet.data1
    let data2 := packet.data2
    some (match packet.statusNibble.toNat with
      | 0x8 => .noteOff ⟨packet, data1, data2⟩
      | 0x9 => .noteOn ⟨packet, data1, data2⟩
      | 0xA => .polyPressure ⟨packet, data1, data2⟩
      | 0xB => .controlChange ⟨packet, data1, data2⟩
      | 0xC => .programChange ⟨packet, data1⟩
      | 0xD => .channelPressure ⟨packet, data1⟩
      | 0xE => .pitchBend ⟨packet, U14.join data2 data1⟩
      | _ => .unknown packet)

end Midi1Cv

namespace Midi2Cv

def decode (packet : Ump) : Option Midi2Cv :=
  if packet.mt ≠ 0x4 then none
  else
    let word0 := packet.word0
    let word1 := packet.word1
    let index1 := packet.data1
    let index2 := packet.data2
    let note : Cv2.NoteMessage :=
      ⟨packet, index1, (word1 >>> 16).setWidth 16, word0.setWidth 8, word1.setWidth 16⟩
    let bank : Option U14 :=
      if word0 &&& 1 ≠ 0 then
        some (U14.join (mask ((word1 >>> 8).setWidth 8)) (mask (word1.setWidth 8)))
      else none
    some (match packet.statusNibble.toNat with
      | 0x0 => .registeredPerNoteController ⟨packet, index1, index2, word1⟩
      | 0x1 => .assignablePerNoteController ⟨packet, index1, index2, word1⟩
      | 0x2 => .registeredController ⟨packet, index1, index2, word1⟩
      | 0x3 => .assignableController ⟨packet, index1, index2, word1⟩
      | 0x4 => .relativeRegisteredController ⟨packet, index1, index2, word1⟩
      | 0x5 => .relativeAssignableController ⟨packet, index1, index2, word1⟩
      | 0x6 => .perNotePitchBend ⟨packet, index1, word1⟩
      | 0x8 => .noteOff note
      | 0x9 => .noteOn note
      | 0xA => .polyPressure ⟨packet, index1, word1⟩
      | 0xB => .controlChange ⟨packet, index1, word1⟩
      | 0xC => .programChange ⟨packet, mask ((word1 >>> 24).setWidth 8), bank⟩
      | 0xD => .channelPressure ⟨packet, word1⟩
      | 0xE => .pitchBend ⟨packet, word1⟩
      | 0xF => .perNoteManagement ⟨packet, index1, index2.val &&& 0x3⟩
      | _ => .unknown packet)

end Midi2Cv

namespace Utility

def decode (packet : Ump) : Utility :=
  let word := packet.word0
  let status := packet.statusNibble
  let message : UtilityValue :=
    ⟨packet, if status = 4 then word &&& 0x000FFFFF else word &&& 0x0000FFFF⟩
  match status.toNat with
  | 0 => .noOp message
  | 1 => .jrClock message
  | 2 => .jrTimestamp message
  | 3 => .deltaClockstampTpq message
  | 4 => .deltaClockstamp message
  | _ => .unknown packet

end Utility

namespace System

def decode (packet : Ump) : System :=
  let data1 := packet.data1
  let data2 := packet.data2
  match packet.statusByte.toNat with
  | 0xF1 => .mtcQuarterFrame ⟨packet, data1⟩
  | 0xF2 => .songPosition ⟨packet, U14.join data2 data1⟩
  | 0xF3 => .songSelect ⟨packet, data1⟩
  | 0xF6 => .tuneRequest ⟨packet⟩
  | 0xF8 => .timingClock ⟨packet⟩
  | 0xFA => .start ⟨packet⟩
  | 0xFB => .continue_ ⟨packet⟩
  | 0xFC => .stop ⟨packet⟩
  | 0xFE => .activeSensing ⟨packet⟩
  | 0xFF => .reset ⟨packet⟩
  | _ => .unknown packet

end System

namespace SysEx7

def decode (packet : Ump) : SysEx7 :=
  let bytes := packetBytes packet
  let format := (bytes.getD 1 0 >>> 4).toNat
  let len := (bytes.getD 1 0 &&& 0xF).toNat
  let data := (bytes.drop 2).take len
  if format > 3 ∨ len > 6 then .unknown packet
  else if data.any fun byte => byte &&& 0x80 != 0 then .unknown packet
  else
    match format with
    | 0 => .complete ⟨packet, data⟩
    | 1 => .start ⟨packet, data⟩
    | 2 => .continue_ ⟨packet, data⟩
    -- The format is at most three here.
    | _ => .end_ ⟨packet, data⟩

end SysEx7

namespace Data128

def decode (packet : Ump) : Data128 :=
  let bytes := packetBytes packet
  let status := (bytes.getD 1 0 >>> 4).toNat
  let low := bytes.getD 1 0 &&& 0xF
  let message : SysEx8Packet :=
    ⟨packet, bytes.getD 2 0, (bytes.drop 3).take (low.toNat - 1)⟩
  let mixed : MixedDataSetPacket := ⟨packet, low, bytes.drop 2⟩
  if status ≤ 3 ∧ 1 ≤ low.toNat ∧ low.toNat ≤ 14 then
    match status with
    | 0 => .sysEx8Complete message
    | 1 => .sysEx8Start message
    | 2 => .sysEx8Continue message
    | _ => .sysEx8End message
  else if status = 8 then .mixedDataSetHeader mixed
  else if status = 9 then .mixedDataSetPayload mixed
  else .unknown packet

end Data128

namespace Message

/-- Every packet decodes. The voice decoders refuse only the other message types. -/
def decode (packet : Ump) : Message :=
  match packet.mt.toNat with
  | 0x0 => .utility (Utility.decode packet)
  | 0x1 => .system (System.decode packet)
  | 0x2 => (Midi1Cv.decode packet).elim (.unknown packet) .midi1Cv
  | 0x3 => .sysEx7 (SysEx7.decode packet)
  | 0x4 => (Midi2Cv.decode packet).elim (.unknown packet) .midi2Cv
  | 0x5 => .data128 (Data128.decode packet)
  | _ => .unknown packet

end Message

section

variable (u : Ump)

theorem Midi1Cv.encode_of_decode {m : Midi1Cv} (h : Midi1Cv.decode u = some m) : m.encode = u := by
  unfold Midi1Cv.decode at h
  split at h
  · cases h
  · obtain rfl := (Option.some.inj h).symm
    split <;> rfl

theorem Midi2Cv.encode_of_decode {m : Midi2Cv} (h : Midi2Cv.decode u = some m) : m.encode = u := by
  unfold Midi2Cv.decode at h
  split at h
  · cases h
  · obtain rfl := (Option.some.inj h).symm
    split <;> rfl

theorem Utility.encode_decode : (Utility.decode u).encode = u := by
  unfold Utility.decode
  dsimp only
  split <;> rfl

theorem System.encode_decode : (System.decode u).encode = u := by
  unfold System.decode
  split <;> rfl

theorem SysEx7.encode_decode : (SysEx7.decode u).encode = u := by
  unfold SysEx7.decode
  dsimp only
  split
  · rfl
  · split
    · rfl
    · split <;> rfl

theorem Data128.encode_decode : (Data128.decode u).encode = u := by
  unfold Data128.decode
  dsimp only
  split
  · split <;> rfl
  · split
    · rfl
    · split <;> rfl

theorem Message.encode_decode : (Message.decode u).encode = u := by
  unfold Message.decode
  split
  · exact Utility.encode_decode u
  · exact System.encode_decode u
  · cases h : Midi1Cv.decode u with
    | none => rfl
    | some => exact Midi1Cv.encode_of_decode u h
  · exact SysEx7.encode_decode u
  · cases h : Midi2Cv.decode u with
    | none => rfl
    | some => exact Midi2Cv.encode_of_decode u h
  · exact Data128.encode_decode u
  · rfl

end

section

variable (mt : BitVec 4) (group status channel index1 index2 : BitVec 8)

theorem voiceWord_status :
    ((voiceWord mt group status channel index1 index2 >>> 20) &&& 0xF).setWidth 8 =
      status &&& 0xF := by
  unfold voiceWord
  ext i hi
  simp only [getElem_setWidth, getLsbD_and, getLsbD_ushiftRight, getLsbD_or, getLsbD_shiftLeft]
  interval_cases i <;> simp

theorem voiceWord_index1 :
    (voiceWord mt group status channel index1 index2 >>> 8).setWidth 8 &&& 0x7F =
      index1 &&& 0x7F := by
  unfold voiceWord
  ext i hi
  simp only [getElem_setWidth, getLsbD_ushiftRight, getLsbD_or, getLsbD_shiftLeft, getElem_and]
  interval_cases i <;> simp

theorem voiceWord_index2 :
    (voiceWord mt group status channel index1 index2).setWidth 8 = index2 := by
  unfold voiceWord
  ext i hi
  simp only [getElem_setWidth, getLsbD_or, getLsbD_shiftLeft]
  interval_cases i <;> simp

theorem voiceWord_flag :
    voiceWord mt group status channel index1 index2 &&& 1 = (index2 &&& 1).setWidth 32 := by
  unfold voiceWord
  ext i hi
  simp only [getElem_setWidth, getElem_or, BitVec.getElem_shiftLeft, getElem_and]
  interval_cases i <;> simp

end

theorem U7.mask_congr {a b : BitVec 8} (h : a &&& 0x7F = b &&& 0x7F) : mask a = mask b :=
  Subtype.ext h

theorem U14.join_high_low (v : U14) : U14.join v.high v.low = v := by
  apply Narrow.ext_toNat
  rw [join, toNat_join, toNat_high, toNat_low]
  omega

namespace Cv1

variable (group status channel data1 data2 : BitVec 8)

@[simp] theorem packet_mt : (packet group status channel data1 data2).mt = 2 := by
  rw [Ump.mt, packet, voiceWord_mt]
  rfl

@[simp] theorem packet_status :
    (packet group status channel data1 data2).statusNibble = status &&& 0xF :=
  voiceWord_status _ _ _ _ _ _

@[simp] theorem packet_data1 : (packet group status channel data1 data2).data1 = mask data1 :=
  U7.mask_congr (voiceWord_index1 _ _ _ _ _ _)

@[simp] theorem packet_data2 : (packet group status channel data1 data2).data2 = mask data2 := by
  rw [Ump.data2, packet, voiceWord_index2]
  exact U7.mask_val (mask data2)

end Cv1

namespace Cv2

variable (group status channel index1 index2 : BitVec 8) (data : BitVec 32)

@[simp] theorem packet_mt : (packet group status channel index1 index2 data).mt = 4 := by
  rw [Ump.mt, packet, voiceWord_mt]
  rfl

@[simp] theorem packet_status :
    (packet group status channel index1 index2 data).statusNibble = status &&& 0xF :=
  voiceWord_status _ _ _ _ _ _

@[simp] theorem packet_data1 :
    (packet group status channel index1 index2 data).data1 = mask index1 :=
  U7.mask_congr (voiceWord_index1 _ _ _ _ _ _)

@[simp] theorem packet_data2 :
    (packet group status channel index1 index2 data).data2 = mask index2 := by
  rw [Ump.data2, packet, voiceWord_index2]

@[simp] theorem packet_low :
    (packet group status channel index1 index2 data).word0.setWidth 8 = index2 :=
  voiceWord_index2 _ _ _ _ _ _

@[simp] theorem packet_flag :
    (packet group status channel index1 index2 data).word0 &&& 1#32 = (index2 &&& 1).setWidth 32 :=
  voiceWord_flag _ _ _ _ _ _

@[simp] theorem packet_word1 : (packet group status channel index1 index2 data).word1 = data := rfl

end Cv2

inductive Midi1Cv.Constructed : Midi1Cv → Prop
  | noteOff (group channel note velocity : BitVec 8) :
    Constructed (.mkNoteOff group channel note velocity)
  | noteOn (group channel note velocity : BitVec 8) :
    Constructed (.mkNoteOn group channel note velocity)
  | polyPressure (group channel note pressure : BitVec 8) :
    Constructed (.mkPolyPressure group channel note pressure)
  | controlChange (group channel controller value : BitVec 8) :
    Constructed (.mkControlChange group channel controller value)
  | programChange (group channel program : BitVec 8) :
    Constructed (.mkProgramChange group channel program)
  | channelPressure (group channel pressure : BitVec 8) :
    Constructed (.mkChannelPressure group channel pressure)
  | pitchBend (group channel : BitVec 8) (value : BitVec 16) :
    Constructed (.mkPitchBend group channel value)

theorem Midi1Cv.Constructed.decode_encode {m : Midi1Cv} (h : m.Constructed) :
    Midi1Cv.decode m.encode = some m := by
  cases h with
  | noteOff | noteOn | polyPressure =>
    simp [decode, encode, mkNoteOff, mkNoteOn, mkPolyPressure, noteMessage]
  | controlChange | programChange | channelPressure =>
    simp [decode, encode, mkControlChange, mkProgramChange, mkChannelPressure]
  | pitchBend => simp [decode, encode, mkPitchBend, U14.join_high_low]

inductive Midi2Cv.Constructed : Midi2Cv → Prop
  | noteOff (group channel note : BitVec 8) (velocity : BitVec 16) (attributeType : BitVec 8)
    (attributeData : BitVec 16) :
    Constructed (.mkNoteOff group channel note velocity attributeType attributeData)
  | noteOn (group channel note : BitVec 8) (velocity : BitVec 16) (attributeType : BitVec 8)
    (attributeData : BitVec 16) :
    Constructed (.mkNoteOn group channel note velocity attributeType attributeData)
  | polyPressure (group channel note : BitVec 8) (data : BitVec 32) :
    Constructed (.mkPolyPressure group channel note data)
  | registeredPerNoteController (group channel note controller : BitVec 8) (data : BitVec 32) :
    Constructed (.mkRegisteredPerNoteController group channel note controller data)
  | assignablePerNoteController (group channel note controller : BitVec 8) (data : BitVec 32) :
    Constructed (.mkAssignablePerNoteController group channel note controller data)
  | perNoteManagement (group channel note flags : BitVec 8) :
    Constructed (.mkPerNoteManagement group channel note flags)
  | controlChange (group channel controller : BitVec 8) (data : BitVec 32) :
    Constructed (.mkControlChange group channel controller data)
  | registeredController (group channel bank index : BitVec 8) (data : BitVec 32) :
    Constructed (.mkRegisteredController group channel bank index data)
  | assignableController (group channel bank index : BitVec 8) (data : BitVec 32) :
    Constructed (.mkAssignableController group channel bank index data)
  | relativeRegisteredController (group channel bank index : BitVec 8) (delta : BitVec 32) :
    Constructed (.mkRelativeRegisteredController group channel bank index delta)
  | relativeAssignableController (group channel bank index : BitVec 8) (delta : BitVec 32) :
    Constructed (.mkRelativeAssignableController group channel bank index delta)
  | programChange (group channel program : BitVec 8) (bank : Option (BitVec 16)) :
    Constructed (.mkProgramChange group channel program bank)
  | channelPressure (group channel : BitVec 8) (data : BitVec 32) :
    Constructed (.mkChannelPressure group channel data)
  | pitchBend (group channel : BitVec 8) (data : BitVec 32) :
    Constructed (.mkPitchBend group channel data)
  | perNotePitchBend (group channel note : BitVec 8) (data : BitVec 32) :
    Constructed (.mkPerNotePitchBend group channel note data)

theorem U7.mask_and (v : BitVec 8) : mask (v &&& 127#8) = mask v := U7.mask_val (mask v)

namespace Midi2Cv

theorem noteWord_velocity (velocity attributeData : BitVec 16) :
    ((velocity.setWidth 32 <<< 16 ||| attributeData.setWidth 32) >>> 16).setWidth 16 = velocity := by
  ext i hi
  simp only [getElem_setWidth]
  interval_cases i <;> simp

theorem toNat_programWord (program : U7) (bank : Option U14) : (programWord program bank).toNat =
      program.val.toNat * 2 ^ 24 +
        bank.elim 0 fun b => b.high.val.toNat * 2 ^ 8 + b.low.val.toNat := by
  have hwide : ∀ v : BitVec 8, (v.setWidth 32).toNat = v.toNat := fun v =>
    BitVec.toNat_setWidth_of_le (by decide)
  cases bank with
  | none =>
    rw [programWord, BitVec.toNat_shiftLeft, hwide, Nat.shiftLeft_eq, Option.elim_none,
      Nat.mod_eq_of_lt (by omega), Nat.add_zero]
  | some b =>
    have hbank : (b.high.val.setWidth 32 <<< 8 ||| b.low.val.setWidth 32).toNat =
        b.high.val.toNat * 2 ^ 8 + b.low.val.toNat := by
      rw [toNat_shiftLeft_or (by rw [hwide]; omega) (by rw [hwide]; omega), hwide, hwide]
    rw [programWord, BitVec.or_assoc,
      toNat_shiftLeft_or (by rw [hwide]; omega) (by rw [hbank]; omega), hbank]
    rfl

theorem programWord_program (program : U7) (bank : Option U14) :
    mask ((programWord program bank >>> 24).setWidth 8) = program := by
  apply Narrow.ext_toNat
  rw [mask, Narrow.toNat_mask, toNat_setWidth, BitVec.toNat_ushiftRight, toNat_programWord]
  cases bank with
  | none => simp only [Option.elim_none]; omega
  | some =>
    simp only [Option.elim_some]
    omega

theorem programWord_bank (program : U7) (b : U14) :
    U14.join (mask ((programWord program (some b) >>> 8).setWidth 8))
      (mask ((programWord program (some b)).setWidth 8)) = b := by
  have hhigh := b.high.property
  have hlow := b.low.property
  have hmsb : mask ((programWord program (some b) >>> 8).setWidth 8) = b.high := by
    apply Narrow.ext_toNat
    rw [mask, Narrow.toNat_mask, toNat_setWidth, BitVec.toNat_ushiftRight,
      toNat_programWord, Option.elim_some]
    omega
  have hlsb : mask ((programWord program (some b)).setWidth 8) = b.low := by
    apply Narrow.ext_toNat
    rw [mask, Narrow.toNat_mask, toNat_setWidth, toNat_programWord, Option.elim_some]
    omega
  rw [hmsb, hlsb, U14.join_high_low]

theorem Constructed.decode_encode {m : Midi2Cv} (h : m.Constructed) :
    Midi2Cv.decode m.encode = some m := by
  cases h with
  | noteOff | noteOn =>
    simp [decode, encode, mkNoteOff, mkNoteOn, noteMessage, noteWord_velocity]
  | registeredPerNoteController | assignablePerNoteController =>
    simp [decode, encode, mkRegisteredPerNoteController, mkAssignablePerNoteController,
      perNoteController, U7.mask_and]
  | perNoteManagement group channel note flags =>
    have hflags : (mask (flags &&& 3#8)).val &&& 3#8 = flags &&& 3#8 := by
      change (flags &&& 3#8 &&& 127#8) &&& 3#8 = flags &&& 3#8
      rw [BitVec.and_assoc, BitVec.and_assoc]
      rfl
    simp [decode, encode, mkPerNoteManagement, hflags]
  | registeredController | assignableController =>
    simp [decode, encode, mkRegisteredController, mkAssignableController, controller, U7.mask_and]
  | relativeRegisteredController | relativeAssignableController =>
    simp [decode, encode, mkRelativeRegisteredController, mkRelativeAssignableController,
      relativeController, U7.mask_and]
  | programChange group channel program bank =>
    cases bank with
    | none => simp [decode, encode, mkProgramChange, programWord_program]
    | some => simp [decode, encode, mkProgramChange, programWord_program, programWord_bank]
  | polyPressure | controlChange | channelPressure | pitchBend | perNotePitchBend =>
    simp [decode, encode, mkPolyPressure, mkControlChange, mkChannelPressure, mkPitchBend,
      mkPerNotePitchBend]

end Midi2Cv

namespace Utility

inductive Constructed : Utility → Prop
  | noOp (data : BitVec 16) : Constructed (mkNoOp data)
  | jrClock (data : BitVec 16) : Constructed (mkJrClock data)
  | jrTimestamp (data : BitVec 16) : Constructed (mkJrTimestamp data)
  | deltaClockstampTpq (ticks : BitVec 16) : Constructed (mkDeltaClockstampTpq ticks)
  | deltaClockstamp (ticks : BitVec 32) : Constructed (mkDeltaClockstamp ticks)

variable (status : BitVec 8)
include status

variable (v : BitVec 32) (twentyBits : Bool)

@[simp] theorem value_mt : (value status v twentyBits).packet.mt = 0 := by
  rw [Ump.mt, value, utilityWord_mt]
  rfl

@[simp] theorem value_status :
    (value status v twentyBits).packet.statusNibble = status &&& 0xF := by
  change ((utilityWord status v twentyBits >>> 20) &&& 0xF).setWidth 8 = status &&& 0xF
  unfold utilityWord utilityMask
  ext i hi
  cases twentyBits <;>
  simp only [getElem_setWidth, getLsbD_and, getLsbD_ushiftRight,
    getLsbD_or, getLsbD_shiftLeft, getLsbD_setWidth] <;>
  interval_cases i <;> simp

theorem value_masked :
    (value status v twentyBits).packet.word0 &&& utilityMask twentyBits =
      (value status v twentyBits).value := by
  change utilityWord status v twentyBits &&& utilityMask twentyBits = v &&& utilityMask twentyBits
  unfold utilityWord utilityMask
  ext i hi
  cases twentyBits <;>
  simp only [getElem_and, getElem_or, BitVec.getElem_shiftLeft] <;>
  interval_cases i <;> simp

@[simp] theorem value_sixteen :
    (value status v false).packet.word0 &&& 0xFFFF#32 = (value status v false).value :=
  value_masked status v false

@[simp] theorem value_twenty :
    (value status v true).packet.word0 &&& 0xFFFFF#32 = (value status v true).value :=
  value_masked status v true

omit status

theorem Constructed.decode_encode {m : Utility} (h : m.Constructed) :
    Utility.decode m.encode = m := by
  cases h <;>
    simp [decode, encode, mkNoOp, mkJrClock, mkJrTimestamp, mkDeltaClockstampTpq, mkDeltaClockstamp]

end Utility

namespace System

inductive Constructed : System → Prop
  | mtcQuarterFrame (group value : BitVec 8) : Constructed (mkMtcQuarterFrame group value)
  | songPosition (group : BitVec 8) (value : BitVec 16) : Constructed (mkSongPosition group value)
  | songSelect (group song : BitVec 8) : Constructed (mkSongSelect group song)
  | tuneRequest (group : BitVec 8) : Constructed (mkTuneRequest group)
  | timingClock (group : BitVec 8) : Constructed (mkTimingClock group)
  | start (group : BitVec 8) : Constructed (mkStart group)
  | continue_ (group : BitVec 8) : Constructed (mkContinue group)
  | stop (group : BitVec 8) : Constructed (mkStop group)
  | activeSensing (group : BitVec 8) : Constructed (mkActiveSensing group)
  | reset (group : BitVec 8) : Constructed (mkReset group)

variable (group status data1 data2 : BitVec 8)

@[simp] theorem packet_mt : (packet group status data1 data2).mt = 1 := by
  rw [Ump.mt, packet, systemWord_mt]
  rfl

@[simp] theorem packet_status : (packet group status data1 data2).statusByte = status := by
  change ((systemWord group status data1 data2 >>> 16) &&& 0xFF).setWidth 8 = status
  unfold systemWord
  ext i hi
  simp only [getElem_setWidth, getLsbD_and, getLsbD_ushiftRight,
    getLsbD_or, getLsbD_shiftLeft, getLsbD_setWidth]
  interval_cases i <;> simp

@[simp] theorem packet_data1 : (packet group status data1 data2).data1 = mask data1 := by
  apply U7.mask_congr
  change (systemWord group status data1 data2 >>> 8).setWidth 8 &&& 0x7F = data1 &&& 0x7F
  unfold systemWord
  ext i hi
  simp only [getElem_setWidth, getLsbD_ushiftRight, getLsbD_or,
    getLsbD_shiftLeft, getLsbD_setWidth, getElem_and]
  interval_cases i <;> simp

@[simp] theorem packet_data2 : (packet group status data1 data2).data2 = mask data2 := by
  apply U7.mask_congr
  change (systemWord group status data1 data2).setWidth 8 &&& 0x7F = data2 &&& 0x7F
  unfold systemWord
  ext i hi
  simp only [getElem_setWidth, getLsbD_or, getLsbD_shiftLeft, getLsbD_setWidth, getElem_and]
  interval_cases i <;> simp

theorem Constructed.decode_encode {m : System} (h : m.Constructed) : System.decode m.encode = m := by
  cases h with
  | mtcQuarterFrame | songSelect => simp [decode, encode, mkMtcQuarterFrame, mkSongSelect, data]
  | songPosition => simp [decode, encode, mkSongPosition, U14.join_high_low]
  | _ =>
    simp [decode, encode, mkTuneRequest, mkTimingClock, mkStart, mkContinue, mkStop, mkActiveSensing,
      mkReset, signal]

end System

theorem wordBytes_wordOfBytes (a b c d : BitVec 8) : wordBytes (wordOfBytes a b c d) = [a, b, c, d] := by
  unfold wordBytes wordOfBytes
  simp only [List.cons.injEq, and_true]
  refine ⟨?_, ?_, ?_, ?_⟩ <;>
  · ext i hi
    interval_cases i <;> simp

variable {n : Nat} {data : List (BitVec 8)}

theorem take_getD_range (h : data.length ≤ n) :
    ((range n).map fun i => data.getD i 0).take data.length = data := by
  apply List.ext_getElem
  · simp [h]
  · intro i h₁ h₂
    simp [h₂]

theorem framing_format (format : SysEx7Format) (h : n < 16) :
    ((format.code <<< 4 ||| BitVec.ofNat 8 n) >>> 4).toNat = format.code.toNat := by
  interval_cases n <;> cases format <;> rfl

theorem framing_length (format : SysEx7Format) (h : n < 16) :
    ((format.code <<< 4 ||| BitVec.ofNat 8 n) &&& 0xF).toNat = n := by
  interval_cases n <;> cases format <;> rfl

namespace SysEx7

inductive Constructed : SysEx7 → Prop
  | new {group : BitVec 8} {format : SysEx7Format} {data : List (BitVec 8)} {m : SysEx7}
    (h : SysEx7.new group format data = some m) : Constructed m

theorem packetBytes_packet (group : BitVec 8) (format : SysEx7Format) (data : List (BitVec 8)) :
    packetBytes (packet group format data) =
      [0x30 ||| (group &&& 0xF), format.code <<< 4 ||| BitVec.ofNat 8 data.length] ++
        ((range 6).map fun i => data.getD i 0) ++ replicate 8 0 := by
  simp only [packetBytes, packet, Ump.words, List.flatMap_cons, wordBytes_wordOfBytes]
  rfl

theorem new_eq {group : BitVec 8} {format : SysEx7Format} (h : payloadOk data = true) :
    SysEx7.new group format data = some (SysEx7.decode (packet group format data)) := by
  obtain ⟨hlength, hseven⟩ : data.length ≤ 6 ∧ (data.any fun byte => byte &&& 0x80 != 0) = false := by
    simpa [payloadOk] using h
  have hbytes := packetBytes_packet group format data
  have hframing : (packetBytes (packet group format data)).getD 1 0 =
      format.code <<< 4 ||| BitVec.ofNat 8 data.length := by
    rw [hbytes]
    rfl
  have hdata : ((packetBytes (packet group format data)).drop 2).take data.length = data := by
    rw [hbytes]
    change ((range 6).map (fun i => data.getD i 0) ++ replicate 8 0).take data.length = data
    rw [List.take_append_of_le_length (by simp [hlength]), take_getD_range hlength]
  unfold SysEx7.new SysEx7.decode
  dsimp only
  rw [if_pos h, hframing, framing_format format (by omega), framing_length format (by omega), hdata,
    if_neg (by cases format <;> simp [SysEx7Format.code, hlength]), if_neg (by rw [hseven]; exact Bool.false_ne_true)]
  cases format <;> rfl

theorem Constructed.decode_encode {m : SysEx7} (h : m.Constructed) : SysEx7.decode m.encode = m := by
  obtain @⟨_, _, data, _, h⟩ := h
  have hok : payloadOk data = true := by
    by_contra hno
    rw [SysEx7.new, if_neg hno] at h
    cases h
  rw [new_eq hok] at h
  rw [← Option.some.inj h, encode_decode]

theorem Constructed.mt {m : SysEx7} (h : m.Constructed) : m.encode.mt = 3 := by
  obtain @⟨group, format, data, _, h⟩ := h
  unfold SysEx7.new at h
  split at h
  · have hpacket : (packet group format data).mt = 3 := by
      rw [Ump.mt, packet, wordOfBytes_mt]
      rfl
    cases format <;> cases h <;> exact hpacket
  · cases h

end SysEx7

namespace Data128

inductive Constructed : Data128 → Prop
  | sysEx8 {group : BitVec 8} {format : SysEx7Format} {streamId : BitVec 8} {data : List (BitVec 8)}
    {m : Data128} (h : sysEx8 group format streamId data = some m) : Constructed m
  | mixedDataSet (group : BitVec 8) (header : Bool) (id : BitVec 8) (data : Vector (BitVec 8) 14) :
    Constructed (mixedDataSet group header id data)

theorem packetBytes_packet (group framing : BitVec 8) (bytes : List (BitVec 8)) :
    packetBytes (packet group framing bytes) =
      [0x50 ||| (group &&& 0xF), framing] ++ (range 14).map fun i => bytes.getD i 0 := by
  simp only [packetBytes, packet, Ump.words, List.flatMap_cons, wordBytes_wordOfBytes]
  rfl

theorem packetBytes_framing (group framing : BitVec 8) (bytes : List (BitVec 8)) :
    (packetBytes (packet group framing bytes)).getD 1 0 = framing := by
  rw [packetBytes_packet]
  rfl

theorem packetBytes_rest (group framing : BitVec 8) (bytes : List (BitVec 8)) :
    (packetBytes (packet group framing bytes)).drop 2 = (range 14).map fun i => bytes.getD i 0 := by
  rw [packetBytes_packet]
  rfl

theorem sysEx8_eq {group : BitVec 8} {format : SysEx7Format} {streamId : BitVec 8} (h : data.length ≤ 13) :
    sysEx8 group format streamId data =
      some (decode (packet group (format.code <<< 4 ||| (BitVec.ofNat 8 data.length + 1))
        (streamId :: data))) := by
  -- The framing byte counts the stream identifier with the data.
  have hcount : BitVec.ofNat 8 data.length + 1 = BitVec.ofNat 8 (data.length + 1) := by
    rw [BitVec.ofNat_add]
    rfl
  have hstream : (packetBytes (packet group (format.code <<< 4 ||| BitVec.ofNat 8 (data.length + 1))
      (streamId :: data))).getD 2 0 = streamId := by
    rw [packetBytes_packet]
    rfl
  have hdata : ((packetBytes (packet group (format.code <<< 4 ||| BitVec.ofNat 8 (data.length + 1))
      (streamId :: data))).drop 3).take data.length = data := by
    have hall := @take_getD_range 14 (streamId :: data) (Nat.succ_le_succ h)
    rw [← packetBytes_rest group (format.code <<< 4 ||| BitVec.ofNat 8 (data.length + 1))] at hall
    have htail := congrArg (List.drop 1) hall
    rwa [List.length_cons] at htail
  unfold sysEx8 decode
  dsimp only
  rw [hcount, if_neg (by omega), packetBytes_framing, framing_format format (by omega),
    framing_length format (by omega), hstream, Nat.add_sub_cancel, hdata,
    if_pos ⟨by cases format <;> decide, by omega, by omega⟩]
  cases format <;> rfl

theorem mixed_status : ∀ id : BitVec 8, ((0x80 ||| (id &&& 0xF)) >>> 4).toNat = 8 ∧
    ((0x90 ||| (id &&& 0xF)) >>> 4).toNat = 9 ∧ (0x80 ||| (id &&& 0xF)) &&& 0xF = id &&& 0xF ∧
    (0x90 ||| (id &&& 0xF)) &&& 0xF = id &&& 0xF := by
  decide

theorem mixedDataSet_eq (group : BitVec 8) (header : Bool) (id : BitVec 8)
    (data : Vector (BitVec 8) 14) : mixedDataSet group header id data =
      decode (packet group ((if header then 0x80 else 0x90) ||| (id &&& 0xF)) data.toList) := by
  have hdata : (packetBytes (packet group ((if header then 0x80 else 0x90) ||| (id &&& 0xF))
      data.toList)).drop 2 = data.toList := by
    rw [packetBytes_rest]
    have hall := @take_getD_range 14 data.toList (by simp)
    rwa [List.take_of_length_le (by simp)] at hall
  obtain ⟨hheader, hpayload, hid, hid'⟩ := mixed_status id
  unfold mixedDataSet decode
  dsimp only
  rw [packetBytes_framing, hdata]
  cases header with
  | true =>
    simp only [if_true, hheader, hid]
    rfl
  | false =>
    simp only [Bool.false_eq_true, if_false, hpayload, hid']
    rfl

theorem Constructed.decode_encode {m : Data128} (h : m.Constructed) : Data128.decode m.encode = m := by
  cases h with
  | @sysEx8 group format streamId data _ h =>
    have hlength : data.length ≤ 13 := by
      by_contra hno
      rw [Data128.sysEx8, if_pos (by omega)] at h
      cases h
    rw [sysEx8_eq hlength] at h
    rw [← Option.some.inj h, encode_decode]
  | mixedDataSet => rw [mixedDataSet_eq, encode_decode]

theorem Constructed.mt {m : Data128} (h : m.Constructed) : m.encode.mt = 5 := by
  have hpacket : ∀ group framing bytes, (packet group framing bytes).mt = 5 := by
    intro group framing bytes
    rw [Ump.mt, packet, wordOfBytes_data128_mt]
    rfl
  cases h with
  | @sysEx8 group format streamId data _ h =>
    unfold Data128.sysEx8 at h
    split at h
    · cases h
    · cases format <;> cases h <;> exact hpacket _ _ _
  | mixedDataSet group header => cases header <;> exact hpacket _ _ _

end Data128

namespace Message

inductive Made : Message → Prop
  | decoded (packet : Ump) : Made (Message.decode packet)
  | midi1Decoded {packet : Ump} {m : Midi1Cv} (h : Midi1Cv.decode packet = some m) : Made (.midi1Cv m)
  | midi2Decoded {packet : Ump} {m : Midi2Cv} (h : Midi2Cv.decode packet = some m) : Made (.midi2Cv m)
  | utility {m : Utility} (h : m.Constructed) : Made (.utility m)
  | system {m : System} (h : m.Constructed) : Made (.system m)
  | midi1Cv {m : Midi1Cv} (h : m.Constructed) : Made (.midi1Cv m)
  | sysEx7 {m : SysEx7} (h : m.Constructed) : Made (.sysEx7 m)
  | midi2Cv {m : Midi2Cv} (h : m.Constructed) : Made (.midi2Cv m)
  | data128 {m : Data128} (h : m.Constructed) : Made (.data128 m)

variable {packet : Ump}

theorem decode_of_midi1 {m : Midi1Cv} (h : Midi1Cv.decode packet = some m) :
    Message.decode packet = .midi1Cv m := by
  have hmt : packet.mt = 2 := by
    by_contra hno
    rw [Midi1Cv.decode, if_pos hno] at h
    cases h
  rw [Message.decode, hmt]
  exact congrArg (fun x : Option Midi1Cv => x.elim (Message.unknown packet) Message.midi1Cv) h

theorem decode_of_midi2 {m : Midi2Cv} (h : Midi2Cv.decode packet = some m) :
    Message.decode packet = .midi2Cv m := by
  have hmt : packet.mt = 4 := by
    by_contra hno
    rw [Midi2Cv.decode, if_pos hno] at h
    cases h
  rw [Message.decode, hmt]
  exact congrArg (fun x : Option Midi2Cv => x.elim (Message.unknown packet) Message.midi2Cv) h

theorem decode_of_mt : (packet.mt = 0 → Message.decode packet = .utility (Utility.decode packet)) ∧
    (packet.mt = 1 → Message.decode packet = .system (System.decode packet)) ∧
    (packet.mt = 3 → Message.decode packet = .sysEx7 (SysEx7.decode packet)) ∧
    (packet.mt = 5 → Message.decode packet = .data128 (Data128.decode packet)) := by
  refine ⟨?_, ?_, ?_, ?_⟩ <;>
  · intro hmt
    rw [Message.decode, hmt]
    rfl

theorem decode_encode {m : Message} (h : m.Made) : Message.decode m.encode = m := by
  cases h with
  | decoded => rw [encode_decode]
  | @midi1Decoded packet m h =>
    change Message.decode m.encode = _
    rw [Midi1Cv.encode_of_decode packet h, decode_of_midi1 h]
  | @midi2Decoded packet m h =>
    change Message.decode m.encode = _
    rw [Midi2Cv.encode_of_decode packet h, decode_of_midi2 h]
  | @utility m h =>
    have hmt : m.encode.mt = 0 := by cases h <;> exact Utility.value_mt _ _ _
    change Message.decode m.encode = _
    rw [decode_of_mt.1 hmt, h.decode_encode]
  | @system m h =>
    have hmt : m.encode.mt = 1 := by cases h <;> exact System.packet_mt _ _ _ _
    change Message.decode m.encode = _
    rw [decode_of_mt.2.1 hmt, h.decode_encode]
  | midi1Cv h => exact decode_of_midi1 h.decode_encode
  | @sysEx7 m h =>
    change Message.decode m.encode = _
    rw [decode_of_mt.2.2.1 h.mt, h.decode_encode]
  | midi2Cv h => exact decode_of_midi2 h.decode_encode
  | @data128 m h =>
    change Message.decode m.encode = _
    rw [decode_of_mt.2.2.2 h.mt, h.decode_encode]

end Message

end Cosmix.Musicd
