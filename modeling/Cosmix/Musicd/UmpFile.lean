/- source: cosmix-musicd/src/midi2/ump.rs, msg.rs, umpfile.rs
   digest: Word streams as packets, SysEx7 framing, and the packet container on disk. -/

import Cosmix.Musicd.Decode

namespace Cosmix.Musicd

structure NeedMoreWords where
  word0 : BitVec 32
  (expected actual : Nat)
deriving DecidableEq

/-- One step of the iterator: what it yields and the words that remain. -/
def nextPacket : List (BitVec 32) → Option (Except NeedMoreWords Ump × List (BitVec 32))
  | [] => none
  | w0 :: rest =>
    let need := mtWords ((w0 >>> 28).setWidth 8)
    if rest.length + 1 < need then some (.error ⟨w0, need, rest.length + 1⟩, [])
    else
      (Ump.fromWords ((w0 :: rest).take need)).map fun u => (.ok u, (w0 :: rest).drop need)

/-- What so many steps yield; every packet has a word, so the words bound the steps. -/
def packetsUpTo : Nat → List (BitVec 32) → List (Except NeedMoreWords Ump)
  | 0, _ => []
  | fuel + 1, words =>
    match nextPacket words with
    | none => []
    | some (item, rest) => item :: packetsUpTo fuel rest

variable (words : List (BitVec 32))

def packets : List (Except NeedMoreWords Ump) :=
  packetsUpTo words.length words

def messages : List (Except NeedMoreWords Message) :=
  (packets words).map fun result => result.map Message.decode

theorem Ump.fromWords_words (u : Ump) : Ump.fromWords u.words = some u := by
  obtain ⟨_, _, hsized⟩ := u
  exact dif_pos hsized

theorem mtWords_pos (mt : BitVec 8) : 0 < mtWords mt := by
  revert mt
  decide

theorem nextPacket_append (u : Ump) (rest : List (BitVec 32)) :
    nextPacket (u.words ++ rest) = some (.ok u, rest) := by
  have hlength : u.words.length = mtWords u.mt := u.sized
  have hneed : mtWords ((u.word0 >>> 28).setWidth 8) = u.words.length := hlength.symm
  change nextPacket (u.word0 :: (u.rest ++ rest)) = _
  rw [nextPacket, hneed, if_neg (by simp [Ump.words])]
  change (Ump.fromWords ((u.words ++ rest).take u.words.length)).map _ = _
  rw [List.take_left, Ump.fromWords_words]
  change some (Except.ok u, (u.words ++ rest).drop u.words.length) = _
  rw [List.drop_left]

theorem packetsUpTo_mono {fuel fuel' : Nat} {words : List (BitVec 32)} (h : words.length ≤ fuel)
    (hle : fuel ≤ fuel') : packetsUpTo fuel' words = packetsUpTo fuel words := by
  induction fuel generalizing fuel' words with
  | zero =>
    obtain rfl := List.length_eq_zero_iff.mp (Nat.le_zero.mp h)
    cases fuel' <;> rfl
  | succ fuel ih =>
    obtain ⟨fuel', rfl⟩ := Nat.exists_eq_add_of_le' (le_trans (Nat.le_add_left 1 fuel) hle)
    rw [packetsUpTo, packetsUpTo]
    cases hnext : nextPacket words with
    | none => rfl
    | some r =>
      obtain ⟨item, rest⟩ := r
      have hshort : rest.length < words.length := by
        cases words with
        | nil => cases hnext
        | cons w0 =>
          have hpos := mtWords_pos ((w0 >>> 28).setWidth 8)
          rw [nextPacket] at hnext
          split at hnext
          · cases hnext
            exact Nat.zero_lt_succ _
          obtain ⟨u, -, hu⟩ := Option.map_eq_some_iff.mp hnext
          cases hu
          rw [List.length_drop, List.length_cons]
          omega
      dsimp only
      rw [ih (by omega) (by omega)]

theorem packets_append (u : Ump) (rest : List (BitVec 32)) :
    packets (u.words ++ rest) = .ok u :: packets rest := by
  have hlength : (u.words ++ rest).length = (u.rest.length + rest.length) + 1 := by
    simp [Ump.words]
  rw [packets, hlength, packetsUpTo, nextPacket_append]
  dsimp only
  rw [packetsUpTo_mono le_rfl (by omega), packets]

theorem messages_append (u : Ump) (rest : List (BitVec 32)) :
    messages (u.words ++ rest) = .ok (Message.decode u) :: messages rest := by
  rw [messages, packets_append]
  rfl

structure SysEx7TopologyError where
  location : Nat
  group : BitVec 8
  detail : String
deriving DecidableEq

def isRealtime : Message → Bool
  | .system (.timingClock _) => true
  | .system (.start _) => true
  | .system (.continue_ _) => true
  | .system (.stop _) => true
  | .system (.activeSensing _) => true
  | .system (.reset _) => true
  | _ => false

def groupIndex (group : BitVec 8) : Fin 16 := ⟨group.toNat % 16, Nat.mod_lt _ (by decide)⟩

/-- Where each group's open run started. -/
structure SysEx7Topology where
  opened : Fin 16 → Option Nat

namespace SysEx7Topology

protected def default : SysEx7Topology := ⟨fun _ => none⟩

variable (t : SysEx7Topology)

def set (group : BitVec 8) (start : Option Nat) : SysEx7Topology :=
  ⟨Function.update t.opened (groupIndex group) start⟩

def pushSysEx7 (sysex : SysEx7) (location : Nat) : Except SysEx7TopologyError SysEx7Topology :=
  let group := sysex.group
  let opened := (t.opened (groupIndex group)).isSome
  match sysex with
  | .complete _ =>
    if opened then .error ⟨location, group, "nested SysEx7 Complete while a SysEx7 run is open"⟩
    else .ok t
  | .start _ =>
    if opened then .error ⟨location, group, "nested SysEx7 Start while a SysEx7 run is open"⟩
    else .ok (t.set group (some location))
  | .continue_ _ =>
    if opened then .ok t
    else .error ⟨location, group, "standalone SysEx7 Continue/End without an open Start"⟩
  | .end_ _ =>
    if opened then .ok (t.set group none)
    else .error ⟨location, group, "standalone SysEx7 Continue/End without an open Start"⟩
  | .unknown _ =>
    if opened then
      .error ⟨location, group, "unknown SysEx7 packet interrupts an open SysEx7 run"⟩
    else .ok t

def push (message : Message) (location : Nat) : Except SysEx7TopologyError SysEx7Topology :=
  match message with
  | .sysEx7 sysex => t.pushSysEx7 sysex location
  | _ =>
    match message.group with
    | some group =>
      if (t.opened (groupIndex group)).isSome && !isRealtime message then
        .error ⟨location, group,
          "same-group non-Real-Time message interrupts an open SysEx7 run"⟩
      else .ok t
    | none => .ok t

def finish (location : Nat) : Except SysEx7TopologyError Unit :=
  match (List.finRange 16).find? fun group => (t.opened group).isSome with
  | some group =>
    .error ⟨location, BitVec.ofNat 8 group.val,
      "SysEx7 Start is unterminated at end of UMP stream"⟩
  | none => .ok ()

end SysEx7Topology

open Cosmix.Lib.LittleEndian List

def u32Max : Nat := 2 ^ 32 - 1

def u64Max : Nat := 2 ^ 64 - 1

def isizeMax : Nat := 2 ^ 63 - 1

/-- A byte slice; no allocation is larger than the signed address range. -/
structure Slice where
  bytes : List (BitVec 8)
  bounded : bytes.length ≤ isizeMax
deriving DecidableEq

structure Tempo where
  absoluteTick : BitVec 64
  usPerQuarter : BitVec 32
deriving DecidableEq

structure UmpFile where
  tempos : List Tempo
  words : List (BitVec 32)
deriving DecidableEq

/-- The last one is no error of the code: it is the panic of an allocation that is too large. -/
inductive UmpFileError
  | shortHeader (expected actual : Nat)
  | badMagic
  | badHeaderLength (declared expected : Nat)
  | unsupportedFlags (flags : Nat)
  | invalidTempo (index : Nat) (usPerQuarter : BitVec 32)
  | unsortedTempo (index : Nat) (previous current : BitVec 64)
  | wordCountMismatch (declared actual trailingBytes : Nat)
  | truncatedUmp (error : NeedMoreWords)
  | invalidSysEx7Topology (messageIndex : Nat) (group : BitVec 8) (detail : String)
  | sizeOverflow
  | capacityOverflow
deriving DecidableEq

def magic : List (BitVec 8) := [0x63, 0x6F, 0x73, 0x6D, 0x69, 0x78, 0x55, 0x31]

def fixedHeaderLen : Nat := 28

def tempoRecordLen : Nat := 12

def validateTempo (previous : List Tempo) (index : Nat) (tempo : Tempo) : Except UmpFileError Unit :=
  if 1 ≤ tempo.usPerQuarter.toNat ∧ tempo.usPerQuarter.toNat ≤ 0x00FFFFFF then
    match previous.getLast? with
    | some prior =>
      if tempo.absoluteTick < prior.absoluteTick then
        .error (.unsortedTempo index prior.absoluteTick tempo.absoluteTick)
      else .ok ()
    | none => .ok ()
  else .error (.invalidTempo index tempo.usPerQuarter)

def validateTempos : List Tempo → List Tempo → Except UmpFileError Unit
  | _, [] => .ok ()
  | previous, tempo :: rest =>
    match validateTempo previous previous.length tempo with
    | .error e => .error e
    | .ok () => validateTempos (previous ++ [tempo]) rest

def topologyError (e : SysEx7TopologyError) : UmpFileError :=
  .invalidSysEx7Topology e.location e.group e.detail

def validateMessages (topology : SysEx7Topology) :
    Nat → List (Except NeedMoreWords Message) → Except UmpFileError Unit
  | index, [] => (topology.finish index).mapError topologyError
  | _, .error e :: _ => .error (.truncatedUmp e)
  | index, .ok message :: rest =>
    match topology.push message index with
    | .error e => .error (topologyError e)
    | .ok topology' => validateMessages topology' (index + 1) rest

def validateWords : Except UmpFileError Unit :=
  validateMessages .default 0 (messages words)

def readTempo (bytes : List (BitVec 8)) (offset : Nat) : Tempo :=
  ⟨BitVec.ofNat 64 (readLe 8 bytes offset), BitVec.ofNat 32 (readLe 4 bytes (offset + 8))⟩

def readTempos (bytes : List (BitVec 8)) : Nat → Nat → List Tempo → Except UmpFileError (List Tempo)
  | 0, _, tempos => .ok tempos
  | count + 1, offset, tempos =>
    match validateTempo tempos tempos.length (readTempo bytes offset) with
    | .error e => .error e
    | .ok () =>
      readTempos bytes count (offset + tempoRecordLen) (tempos ++ [readTempo bytes offset])

def readWords : List (BitVec 8) → List (BitVec 32)
  | a :: b :: c :: d :: rest => BitVec.ofNat 32 (leValue [a, b, c, d]) :: readWords rest
  | _ => []

def read (slice : Slice) : Except UmpFileError UmpFile :=
  let bytes := slice.bytes
  if bytes.length < fixedHeaderLen then .error (.shortHeader fixedHeaderLen bytes.length)
  else if bytes.take 8 ≠ magic then .error .badMagic
  else
    let headerLen := readLe 4 bytes 8
    let flags := readLe 4 bytes 12
    let tempoCount := readLe 4 bytes 16
    let wordCount := readLe 8 bytes 20
    let expected := fixedHeaderLen + tempoCount * tempoRecordLen
    if flags ≠ 0 then .error (.unsupportedFlags flags)
    else if headerLen ≠ expected then .error (.badHeaderLength headerLen expected)
    else if bytes.length < headerLen then .error (.shortHeader headerLen bytes.length)
    else
      match readTempos bytes tempoCount fixedHeaderLen [] with
      | .error e => .error e
      | .ok tempos =>
        let payload := bytes.drop headerLen
        if payload.length / 4 ≠ wordCount ∨ payload.length % 4 ≠ 0 then
          .error (.wordCountMismatch wordCount (payload.length / 4) (payload.length % 4))
        else
          match validateWords (readWords payload) with
          | .error e => .error e
          | .ok () => .ok ⟨tempos, readWords payload⟩

def tempoBytes (tempo : Tempo) : List (BitVec 8) :=
  leBytes 8 tempo.absoluteTick.toNat ++ leBytes 4 tempo.usPerQuarter.toNat

def umpWordBytes (word : BitVec 32) : List (BitVec 8) := leBytes 4 word.toNat

def headerBytes (tempoCount wordCount : Nat) : List (BitVec 8) :=
  magic ++ (leBytes 4 (fixedHeaderLen + tempoCount * tempoRecordLen) ++ (leBytes 4 0 ++
    (leBytes 4 tempoCount ++ leBytes 8 wordCount)))

def fileBytes (file : UmpFile) : List (BitVec 8) :=
  headerBytes file.tempos.length file.words.length ++
    (file.tempos.flatMap tempoBytes ++ file.words.flatMap umpWordBytes)

/-- A size that an unsigned field or the address space holds. -/
def fits (limit n : Nat) : Except UmpFileError Nat :=
  if n ≤ limit then .ok n else .error .sizeOverflow

/-- The sizes in the order of the code: the counts, the header and the payload. -/
def checkSizes (file : UmpFile) : Except UmpFileError Unit := do
  let _ ← fits u32Max file.tempos.length
  let _ ← fits u64Max file.words.length
  let records ← fits u64Max (file.tempos.length * tempoRecordLen)
  let headerLen ← fits u64Max (fixedHeaderLen + records)
  let _ ← fits u32Max headerLen
  let payloadLen ← fits u64Max (file.words.length * 4)
  let _ ← fits u64Max (headerLen + payloadLen)

def write (file : UmpFile) : Except UmpFileError Slice :=
  match validateTempos [] file.tempos with
  | .error e => .error e
  | .ok () =>
    match validateWords file.words with
    | .error e => .error e
    | .ok () =>
      match checkSizes file with
      | .error e => .error e
      | .ok () =>
        if h : (fileBytes file).length ≤ isizeMax then .ok ⟨fileBytes file, h⟩
        else .error .capacityOverflow

section

@[simp] theorem length_tempoBytes (tempo : Tempo) : (tempoBytes tempo).length = 12 := by
  simp [tempoBytes]

@[simp] theorem length_headerBytes (tempoCount wordCount : Nat) :
    (headerBytes tempoCount wordCount).length = 28 := by
  simp [headerBytes, magic]

theorem length_temposBytes (tempos : List Tempo) :
    (tempos.flatMap tempoBytes).length = tempos.length * 12 := by
  induction tempos with
  | nil => rfl
  | cons =>
    rw [flatMap_cons, length_append, length_tempoBytes, length_cons]
    omega

theorem length_wordsBytes (words : List (BitVec 32)) :
    (words.flatMap umpWordBytes).length = words.length * 4 := by
  induction words with
  | nil => rfl
  | cons =>
    rw [flatMap_cons, length_append, umpWordBytes, length_leBytes, length_cons]
    omega

theorem length_fileBytes (file : UmpFile) :
    (fileBytes file).length = 28 + file.tempos.length * 12 + file.words.length * 4 := by
  rw [fileBytes, length_append, length_append, length_headerBytes, length_temposBytes,
    length_wordsBytes]
  omega

end

section

theorem fits_bind {α : Type} (limit n : Nat) (f : Nat → Except UmpFileError α) (a : α) :
    (fits limit n >>= f) = .ok a ↔ n ≤ limit ∧ f n = .ok a := by
  unfold fits
  split
  · rename_i h
    exact (and_iff_right h).symm
  · rename_i h
    exact ⟨fun e => (by cases e), fun e => absurd e.1 h⟩

theorem checkSizes_ok {file : UmpFile} (hheader : 28 + file.tempos.length * 12 ≤ u32Max)
    (hfile : (fileBytes file).length ≤ isizeMax) : checkSizes file = .ok () := by
  rw [length_fileBytes] at hfile
  unfold u32Max at hheader
  unfold isizeMax at hfile
  unfold checkSizes
  simp only [fits_bind, u32Max, u64Max, fixedHeaderLen, tempoRecordLen]
  refine ⟨by omega, by omega, by omega, by omega, by omega, by omega, by omega, rfl⟩

end

section

theorem readWords_wordsBytes (words : List (BitVec 32)) :
    readWords (words.flatMap umpWordBytes) = words := by
  induction words with
  | nil => rfl
  | cons word words ih =>
    change BitVec.ofNat 32 (leValue (leBytes 4 word.toNat)) ::
      readWords (words.flatMap umpWordBytes) = word :: words
    rw [@leValue_leBytes 4 _ word.isLt, BitVec.ofNat_toNat, BitVec.setWidth_eq, ih]

variable (bytes : List (BitVec 8))

theorem wordsBytes_readWords (h : bytes.length % 4 = 0) :
    (readWords bytes).flatMap umpWordBytes = bytes := by
  fun_induction readWords bytes with
  | case1 a b c d rest ih =>
    have hlt : leValue [a, b, c, d] < 256 ^ 4 := leValue_lt [a, b, c, d]
    have hword : umpWordBytes (BitVec.ofNat 32 (leValue [a, b, c, d])) = [a, b, c, d] := by
      rw [umpWordBytes, BitVec.toNat_ofNat, Nat.mod_eq_of_lt (by omega)]
      exact leBytes_leValue [a, b, c, d]
    rw [flatMap_cons, hword, ih (by simp only [length_cons] at h; omega)]
    rfl
  | case2 bytes hshort =>
    match bytes, hshort with
    | [], _ => rfl
    | [_], _ => simp at h
    | [_, _], _ => simp at h
    | [_, _, _], _ => simp at h
    | a :: b :: c :: d :: rest, hshort => exact absurd rfl (hshort a b c d rest)

def tempoRecords (bytes : List (BitVec 8)) : Nat → Nat → List Tempo
  | 0, _ => []
  | count + 1, offset => readTempo bytes offset :: tempoRecords bytes count (offset + tempoRecordLen)

theorem length_tempoRecords (count offset : Nat) :
    (tempoRecords bytes count offset).length = count := by
  induction count generalizing offset with
  | zero => rfl
  | succ count ih => rw [tempoRecords, length_cons, ih]

theorem readTempos_eq (count offset : Nat) (tempos : List Tempo) :
    readTempos bytes count offset tempos =
      (validateTempos tempos (tempoRecords bytes count offset)).map fun _ =>
        tempos ++ tempoRecords bytes count offset := by
  induction count generalizing offset tempos with
  | zero =>
    rw [tempoRecords, append_nil]
    rfl
  | succ count ih =>
    rw [readTempos, tempoRecords, validateTempos]
    cases validateTempo tempos tempos.length (readTempo bytes offset) with
    | error => rfl
    | ok =>
      rw [ih, append_assoc, singleton_append]

variable {bytes : List (BitVec 8)} {offset : Nat}

theorem drop_readTempo (h : offset + 12 ≤ bytes.length) :
    bytes.drop offset = tempoBytes (readTempo bytes offset) ++ bytes.drop (offset + 12) := by
  have htick : readLe 8 bytes offset < 2 ^ 64 := readLe_lt 8 bytes offset
  have hvalue : readLe 4 bytes (offset + 8) < 2 ^ 32 := readLe_lt 4 bytes (offset + 8)
  rw [tempoBytes, readTempo, BitVec.toNat_ofNat, BitVec.toNat_ofNat, Nat.mod_eq_of_lt htick,
    Nat.mod_eq_of_lt hvalue, append_assoc, ← @drop_eq_leBytes 4 (offset + 8) bytes (by omega),
    ← @drop_eq_leBytes 8 offset bytes (by omega)]

theorem drop_tempoRecords {count : Nat} (offset : Nat) (h : offset + count * 12 ≤ bytes.length) :
    bytes.drop offset =
      (tempoRecords bytes count offset).flatMap tempoBytes ++ bytes.drop (offset + count * 12) := by
  induction count generalizing offset with
  | zero => simp [tempoRecords]
  | succ count ih =>
    rw [drop_readTempo (by omega), ih (offset + 12) (by omega)]
    rw [Nat.add_mul, add_assoc, add_comm 12]
    rfl

variable {after : List (BitVec 8)}

theorem readTempo_of_drop {tempo : Tempo}
    (h : bytes.drop offset = tempoBytes tempo ++ after) : readTempo bytes offset = tempo := by
  have htick : readLe 8 bytes offset = tempo.absoluteTick.toNat := by
    rw [readLe, h, tempoBytes, append_assoc, take_left' (length_leBytes 8 _),
      @leValue_leBytes 8 _ tempo.absoluteTick.isLt]
  have hvalue : readLe 4 bytes (offset + 8) = tempo.usPerQuarter.toNat := by
    rw [readLe, ← drop_drop, h, tempoBytes, append_assoc,
      drop_left' (length_leBytes 8 _), take_left' (length_leBytes 4 _),
      @leValue_leBytes 4 _ tempo.usPerQuarter.isLt]
  rw [readTempo, htick, hvalue, BitVec.ofNat_toNat, BitVec.ofNat_toNat, BitVec.setWidth_eq,
    BitVec.setWidth_eq]

theorem tempoRecords_of_drop {tempos : List Tempo}
    (h : bytes.drop offset = tempos.flatMap tempoBytes ++ after) :
    tempoRecords bytes tempos.length offset = tempos := by
  induction tempos generalizing offset with
  | nil => rfl
  | cons tempo tempos ih =>
    rw [flatMap_cons, append_assoc] at h
    have hrest : bytes.drop (offset + 12) = tempos.flatMap tempoBytes ++ after := by
      rw [← drop_drop, h, drop_left' (length_tempoBytes tempo)]
    rw [length_cons, tempoRecords, readTempo_of_drop h, tempoRecordLen, ih hrest]

end

variable {bytes : List (BitVec 8)}

theorem read_header {tempoCount wordCount : Nat} {after : List (BitVec 8)}
    (htempo : 28 + tempoCount * 12 ≤ u32Max) (hword : wordCount ≤ u64Max)
    (h : bytes = headerBytes tempoCount wordCount ++ after) :
    bytes.take 8 = magic ∧ readLe 4 bytes 8 = fixedHeaderLen + tempoCount * tempoRecordLen ∧
      readLe 4 bytes 12 = 0 ∧ readLe 4 bytes 16 = tempoCount ∧ readLe 8 bytes 20 = wordCount := by
  unfold u32Max at htempo
  unfold u64Max at hword
  subst h
  unfold headerBytes
  simp only [append_assoc]
  refine ⟨take_left' rfl, ?_, ?_, ?_, ?_⟩
  · exact readLe_append (by rw [fixedHeaderLen, tempoRecordLen]; omega) rfl
  · rw [← append_assoc magic]
    exact readLe_append (by decide) (by simp [magic])
  · rw [← append_assoc magic, ← append_assoc (magic ++ _)]
    exact readLe_append (by omega) (by simp [magic])
  · exact readLe_append (by omega) (by simp)

theorem headerBytes_of_read (hlength : 28 ≤ bytes.length)
    (hmagic : bytes.take 8 = magic) (hflags : readLe 4 bytes 12 = 0)
    (hheader : readLe 4 bytes 8 = fixedHeaderLen + readLe 4 bytes 16 * tempoRecordLen) :
    bytes = headerBytes (readLe 4 bytes 16) (readLe 8 bytes 20) ++ bytes.drop 28 := by
  have hrest : bytes.drop 8 =
      leBytes 4 (readLe 4 bytes 8) ++ (leBytes 4 (readLe 4 bytes 12) ++ (leBytes 4 (readLe 4 bytes 16) ++
        (leBytes 8 (readLe 8 bytes 20) ++ bytes.drop 28))) := by
    rw [← @drop_eq_leBytes 8 20 bytes (by omega), ← @drop_eq_leBytes 4 16 bytes (by omega),
      ← @drop_eq_leBytes 4 12 bytes (by omega), ← @drop_eq_leBytes 4 8 bytes (by omega)]
  rw [hflags, hheader] at hrest
  rw [headerBytes, append_assoc, append_assoc, append_assoc, append_assoc,
    ← hrest, ← hmagic, take_append_drop]

/-- A file that can stand on disk, and the bytes it is there. -/
structure OnDisk (file : UmpFile) (slice : Slice) : Prop where
  tempos : validateTempos [] file.tempos = .ok ()
  words : validateWords file.words = .ok ()
  header : 28 + file.tempos.length * 12 ≤ u32Max
  bytes : slice.bytes = fileBytes file

variable {file : UmpFile} {slice : Slice}

theorem OnDisk.wordCount (h : OnDisk file slice) : file.words.length ≤ u64Max := by
  have hbounded := slice.bounded
  rw [h.bytes, length_fileBytes] at hbounded
  unfold isizeMax at hbounded
  unfold u64Max
  omega

theorem write_ok_iff : write file = .ok slice ↔ OnDisk file slice := by
  constructor
  · intro h
    unfold write at h
    split at h
    · cases h
    rename_i htempos
    split at h
    · cases h
    rename_i hwords
    split at h
    · cases h
    rename_i hsizes
    split at h
    · cases h
      unfold checkSizes at hsizes
      simp only [fits_bind] at hsizes
      exact ⟨htempos, hwords, hsizes.2.2.2.2.1, rfl⟩
    · cases h
  · intro h
    have hbounded := slice.bounded
    rw [h.bytes] at hbounded
    have hslice : slice = ⟨fileBytes file, hbounded⟩ := by
      obtain ⟨_, _⟩ := slice
      obtain rfl := h.bytes
      rfl
    rw [write, h.tempos, h.words, checkSizes_ok h.header hbounded, hslice]
    exact dif_pos hbounded

theorem read_of_onDisk (h : OnDisk file slice) : read slice = .ok file := by
  obtain ⟨hmagic, hheader, hflags, htempos, hwords⟩ :=
    read_header h.header h.wordCount (h.bytes.trans rfl)
  have hlength : slice.bytes.length = 28 + file.tempos.length * 12 + file.words.length * 4 := by
    rw [h.bytes, length_fileBytes]
  have hrecords : slice.bytes.drop 28 =
      file.tempos.flatMap tempoBytes ++ file.words.flatMap umpWordBytes := by
    rw [h.bytes, fileBytes, drop_left' (length_headerBytes _ _)]
  have hpayload : slice.bytes.drop (fixedHeaderLen + file.tempos.length * tempoRecordLen) =
      file.words.flatMap umpWordBytes := by
    rw [← drop_drop]
    change (slice.bytes.drop 28).drop (file.tempos.length * 12) = _
    rw [hrecords, drop_left' (length_temposBytes _)]
  have hread : readTempos slice.bytes file.tempos.length fixedHeaderLen [] = .ok file.tempos := by
    rw [readTempos_eq, fixedHeaderLen, tempoRecords_of_drop hrecords, h.tempos]
    rfl
  unfold read
  dsimp only
  rw [hmagic, hheader, hflags, htempos, hread, hpayload, length_wordsBytes, readWords_wordsBytes,
    h.words]
  simp only [fixedHeaderLen, tempoRecordLen]
  rw [if_neg (by omega), if_neg (by simp), if_neg (by simp), if_neg (by simp), if_neg (by omega),
    if_neg (by omega)]

theorem onDisk_of_read (h : read slice = .ok file) : OnDisk file slice := by
  unfold read at h
  dsimp only at h
  split at h
  · cases h
  rename_i hlength
  split at h
  · cases h
  rename_i hmagic
  split at h
  · cases h
  rename_i hflags
  split at h
  · cases h
  rename_i hheader
  split at h
  · cases h
  rename_i hfits
  split at h
  · cases h
  rename_i tempos hread
  split at h
  · cases h
  rename_i hcount
  split at h
  · cases h
  rename_i hwords
  cases h
  rw [not_not] at hmagic hflags hheader
  rw [not_or, not_not, not_not] at hcount
  have hlength' : 28 ≤ slice.bytes.length := not_lt.mp hlength
  rw [readTempos_eq] at hread
  have htempos : tempos = tempoRecords slice.bytes (readLe 4 slice.bytes 16) 28 ∧
      validateTempos [] tempos = .ok () := by
    cases hv : validateTempos [] (tempoRecords slice.bytes (readLe 4 slice.bytes 16) fixedHeaderLen) with
    | error =>
      rw [hv] at hread
      cases hread
    | ok =>
      rw [hv] at hread
      cases hread
      exact ⟨rfl, hv⟩
  have hheaderLt : readLe 4 slice.bytes 8 < 256 ^ 4 := readLe_lt 4 _ 8
  have hcountTempos : tempos.length = readLe 4 slice.bytes 16 := by
    rw [htempos.1, length_tempoRecords]
  rw [hheader] at hheaderLt hfits hcount
  simp only [fixedHeaderLen, tempoRecordLen] at hheaderLt hfits
  refine ⟨htempos.2, hwords, ?_, ?_⟩
  · change 28 + tempos.length * 12 ≤ u32Max
    unfold u32Max
    omega
  · have hall := headerBytes_of_read hlength' hmagic hflags hheader
    have hrecords := drop_tempoRecords 28 (not_lt.mp hfits)
    have hpayload := wordsBytes_readWords _ hcount.2
    have hcountWords : (readWords (slice.bytes.drop (fixedHeaderLen +
        readLe 4 slice.bytes 16 * tempoRecordLen))).length = readLe 8 slice.bytes 20 := by
      rw [← hcount.1, ← congrArg List.length hpayload, length_wordsBytes,
        Nat.mul_div_cancel _ (by decide)]
    rw [fileBytes]
    rw [hheader, hpayload, hcountTempos, hcountWords, htempos.1]
    change slice.bytes = _ ++ (_ ++ slice.bytes.drop (28 + readLe 4 slice.bytes 16 * 12))
    rw [← hrecords, ← hall]

theorem read_ok_iff_write : read slice = .ok file ↔ write file = .ok slice := by
  rw [write_ok_iff]
  exact ⟨onDisk_of_read, read_of_onDisk⟩

end Cosmix.Musicd
