/- source: cosmix-musicd/src/midi2/smfio.rs
   digest: A timeline that converts to a packet file comes back whole. -/

import Cosmix.Musicd.ByteStream
import Cosmix.Musicd.UmpFile
import Cosmix.Lib.Machine

namespace Cosmix.Musicd

open List

structure TimedMessage where
  tick : Nat
  message : Message
deriving DecidableEq

structure Timeline where
  ticksPerQuarter : BitVec 16
  tempos : List Tempo
  events : List TimedMessage
deriving DecidableEq

inductive SmfIoError
  | smf (detail : String)
  | unsupportedFormat (format : Nat)
  | format0TrackCount (tracks : Nat)
  | smpteDivision (first second : BitVec 8)
  | zeroDivision
  | trackOutOfRange (requested tracks : Nat)
  | track (track : Nat) (detail : String)
  | umpFile (error : UmpFileError)
  | missingTpq
  | duplicateTpq
  | invalidTpq (value : Nat)
  | tickOverflow
  | unsortedEvents (previous current : Nat)
  | exportExpansion (absoluteTick fillerEvents estimatedBytes : Nat)
  | timelineExpansion (absoluteTick timingEvents : Nat)
  | sysEx7Topology (tick : Nat) (group : BitVec 8) (detail : String)
  | mergedSysExInterleave (openTrack openTick interferingTrack interferingTick : Nat)
  | midi1Serialize (error : SerializeError)
deriving DecidableEq

def validateTpq (value : Nat) : Except SmfIoError (BitVec 16) :=
  if 1 ≤ value ∧ value ≤ 0x7FFF then .ok (BitVec.ofNat 16 value) else .error (.invalidTpq value)

def mapTopologyError (e : SysEx7TopologyError) : SmfIoError := .sysEx7Topology e.location e.group e.detail

/-- The events in turn, the tick of each as its location. -/
def validateEvents (topology : SysEx7Topology) (lastTick : Nat) :
    List TimedMessage → Except SmfIoError Unit
  | [] => (topology.finish lastTick).mapError mapTopologyError
  | timed :: rest =>
    match topology.push timed.message timed.tick with
    | .error e => .error (mapTopologyError e)
    | .ok topology' => validateEvents topology' timed.tick rest

def validateTimelineSysex (events : List TimedMessage) : Except SmfIoError Unit :=
  validateEvents .default 0 events

def deltaClockstampMax : Nat := 0x000FFFFF

def maxTimingExpansionEvents : Nat := 4096

structure BoundedExpansion where
  (additional total : Nat)

def recordsFor (distance span : Nat) (includeTerminal : Bool) : Nat :=
  if distance = 0 then 0 else (distance - 1) / span + includeTerminal.toNat

/-- The records of a distance added to those so far; too many are an error. -/
def boundedExpansion (current distance span : Nat) (includeTerminal : Bool) :
    Except Nat BoundedExpansion :=
  let additional := recordsFor distance span includeTerminal
  let total := min (current + additional) u64Max
  if total > maxTimingExpansionEvents then .error total else .ok ⟨additional, total⟩

def preflightFrom (previousTick timingEvents : Nat) : List TimedMessage → Except SmfIoError Unit
  | [] => .ok ()
  | event :: rest =>
    if event.tick < previousTick then .error (.unsortedEvents previousTick event.tick)
    else
      match boundedExpansion timingEvents (event.tick - previousTick) deltaClockstampMax true with
      | .error timingEvents => .error (.timelineExpansion event.tick timingEvents)
      | .ok expansion => preflightFrom event.tick expansion.total rest

def preflightUmpTiming (events : List TimedMessage) : Except SmfIoError Unit := preflightFrom 0 0 events

/-- The loop that splits a distance; the distance itself bounds its rounds. -/
def deltaChunks : Nat → Nat → List Nat
  | 0, _ => []
  | fuel + 1, delta =>
    if delta > 0 then
      let chunk := min delta deltaClockstampMax
      chunk :: deltaChunks fuel (delta - chunk)
    else []

def deltaWords (delta : Nat) : List (BitVec 32) :=
  (deltaChunks delta delta).flatMap fun chunk =>
    (Utility.mkDeltaClockstamp (BitVec.ofNat 32 chunk)).encode.words

def eventWords (tick : Nat) : List TimedMessage → Except SmfIoError (List (BitVec 32))
  | [] => .ok []
  | event :: rest =>
    if event.tick < tick then .error (.unsortedEvents tick event.tick)
    else
      (eventWords event.tick rest).map fun words =>
        deltaWords (event.tick - tick) ++ (event.message.encode.words ++ words)

def toUmpFile (timeline : Timeline) : Except SmfIoError UmpFile := do
  let _ ← validateTpq timeline.ticksPerQuarter.toNat
  validateTimelineSysex timeline.events
  preflightUmpTiming timeline.events
  let words ← eventWords 0 timeline.events
  let tpq := (Utility.mkDeltaClockstampTpq timeline.ticksPerQuarter).encode.words
  -- The bytes are written only for the checks of the container.
  let _ ← (write ⟨timeline.tempos, tpq ++ words⟩).mapError SmfIoError.umpFile
  return ⟨timeline.tempos, tpq ++ words⟩

def decodeEvents (tick : Nat) : List (Except NeedMoreWords Message) → Except SmfIoError (List TimedMessage)
  | [] => .ok []
  | .error e :: _ => .error (.umpFile (.truncatedUmp e))
  | .ok message :: rest =>
    match message with
    | .utility (.deltaClockstampTpq _) => .error .duplicateTpq
    | .utility (.deltaClockstamp v) =>
      if tick + v.value.toNat ≤ u64Max then decodeEvents (tick + v.value.toNat) rest
      else .error .tickOverflow
    | _ => (decodeEvents tick rest).map fun events => ⟨tick, message⟩ :: events

/-- The value of the TPQ message a stream begins with, and the messages after it. -/
def leadingTpq : List (Except NeedMoreWords Message) →
    Except SmfIoError (BitVec 32 × List (Except NeedMoreWords Message))
  | [] => .error .missingTpq
  | .error e :: _ => .error (.umpFile (.truncatedUmp e))
  | .ok (.utility (.deltaClockstampTpq v)) :: rest => .ok (v.value, rest)
  | .ok _ :: _ => .error .missingTpq

def fromUmpFile (file : UmpFile) : Except SmfIoError Timeline := do
  let _ ← (write file).mapError SmfIoError.umpFile
  let first ← leadingTpq (messages file.words)
  let ticksPerQuarter ← validateTpq first.1.toNat
  let events ← decodeEvents 0 first.2
  validateTimelineSysex events
  return ⟨ticksPerQuarter, file.tempos, events⟩

def Message.isTiming : Message → Bool
  | .utility (.deltaClockstampTpq _) => true
  | .utility (.deltaClockstamp _) => true
  | _ => false

theorem Except.mapError_eq_ok {ε ε' α : Type} {x : Except ε α} {f : ε → ε'} {a : α} :
    x.mapError f = .ok a ↔ x = .ok a := by
  cases x with
  | error => exact ⟨fun h => (by cases h), fun h => (by cases h)⟩
  | ok => exact ⟨fun h => (by cases h; rfl), fun h => (by cases h; rfl)⟩

theorem le_recordsFor (distance : Nat) {span : Nat} (hspan : 0 < span) :
    distance ≤ recordsFor distance span true * span := by
  unfold recordsFor
  split
  · omega
  · have hlt := Nat.lt_mul_div_succ (distance - 1) hspan
    rw [Bool.toNat_true, mul_comm]
    omega

variable {tick : Nat}

theorem boundedExpansion_covers {current distance span : Nat} {e : BoundedExpansion}
    (h : boundedExpansion current distance span true = .ok e) (hspan : 0 < span)
    (htick : tick ≤ current * span) :
    tick + distance ≤ e.total * span ∧ e.total ≤ maxTimingExpansionEvents := by
  unfold boundedExpansion at h
  dsimp only at h
  split at h
  · cases h
  rename_i hbound
  cases h
  have hlimit := not_lt.mp hbound
  have htotal : min (current + recordsFor distance span true) u64Max =
      current + recordsFor distance span true := by
    unfold maxTimingExpansionEvents u64Max at hlimit
    unfold u64Max
    omega
  refine ⟨?_, hlimit⟩
  rw [htotal, Nat.add_mul]
  exact Nat.add_le_add htick (le_recordsFor distance hspan)

variable {events : List TimedMessage}

/-- Every tick of a timeline that passes the check is below the limit of its clockstamps. -/
theorem tick_le_of_preflight {previousTick timingEvents : Nat}
    (h : preflightFrom previousTick timingEvents events = .ok ())
    (hcovers : previousTick ≤ timingEvents * deltaClockstampMax) :
    ∀ e ∈ events, e.tick ≤ maxTimingExpansionEvents * deltaClockstampMax := by
  induction events generalizing previousTick timingEvents with
  | nil => exact nofun
  | cons event rest ih =>
    rw [preflightFrom] at h
    split at h
    · cases h
    rename_i hsorted
    split at h
    · cases h
    rename_i hexpansion
    obtain ⟨hcover, hlimit⟩ := boundedExpansion_covers hexpansion (by decide) hcovers
    rw [Nat.add_sub_cancel' (not_lt.mp hsorted)] at hcover
    exact forall_mem_cons.mpr
      ⟨le_trans hcover (Nat.mul_le_mul_right _ hlimit), ih h hcover⟩

/-- A distance in chunks is the sum of its chunks, each of which a clockstamp holds. -/
theorem deltaChunks_spec {fuel delta : Nat} (h : delta ≤ fuel) :
    (deltaChunks fuel delta).sum = delta ∧ ∀ c ∈ deltaChunks fuel delta, c ≤ deltaClockstampMax := by
  induction fuel generalizing delta with
  | zero =>
    obtain rfl := Nat.le_zero.mp h
    exact ⟨rfl, nofun⟩
  | succ fuel ih =>
    rw [deltaChunks]
    split
    · have hmax : 0 < deltaClockstampMax := by decide
      obtain ⟨hsum, hle⟩ := @ih (delta - min delta deltaClockstampMax) (by omega)
      refine ⟨?_, forall_mem_cons.mpr ⟨min_le_right _ _, hle⟩⟩
      rw [sum_cons]
      omega
    · exact ⟨by simp; omega, nofun⟩

theorem decode_clockstamp {chunk : Nat} (h : chunk ≤ deltaClockstampMax) :
    ∃ v : UtilityValue, v.value.toNat = chunk ∧
      Message.decode (Utility.mkDeltaClockstamp (BitVec.ofNat 32 chunk)).encode =
        .utility (.deltaClockstamp v) := by
  have hdecode := Message.decode_encode (.utility (.deltaClockstamp (BitVec.ofNat 32 chunk)))
  refine ⟨Utility.value 4 (BitVec.ofNat 32 chunk) true, ?_, hdecode⟩
  have hmask : utilityMask true = BitVec.ofNat 32 (2 ^ 20 - 1) := rfl
  unfold deltaClockstampMax at h
  rw [Utility.value, hmask, Lib.Narrow.toNat_and_ones (by decide), BitVec.toNat_ofNat]
  omega

theorem decodeEvents_chunks {chunks : List Nat} (hchunks : ∀ c ∈ chunks, c ≤ deltaClockstampMax)
    (h : tick + chunks.sum ≤ u64Max) (rest : List (BitVec 32)) :
    decodeEvents tick (messages ((chunks.flatMap fun chunk =>
        (Utility.mkDeltaClockstamp (BitVec.ofNat 32 chunk)).encode.words) ++ rest)) =
      decodeEvents (tick + chunks.sum) (messages rest) := by
  induction chunks generalizing tick with
  | nil => rfl
  | cons chunk chunks ih =>
    obtain ⟨v, hv, hdecode⟩ := decode_clockstamp (hchunks chunk mem_cons_self)
    rw [sum_cons] at h
    rw [flatMap_cons, append_assoc, messages_append, hdecode, decodeEvents, hv,
      if_pos (by omega), ih (fun c hc => hchunks c (mem_cons_of_mem _ hc)) (by omega),
      sum_cons, add_assoc]

theorem decodeEvents_message {m : Message} (h : m.isTiming = false) (tick : Nat)
    (rest : List (Except NeedMoreWords Message)) : decodeEvents tick (.ok m :: rest) =
      (decodeEvents tick rest).map fun events => ⟨tick, m⟩ :: events := by
  rw [decodeEvents] <;> rintro v rfl <;> cases h

theorem decodeEvents_eventWords (hmade : ∀ e ∈ events, e.message.Made ∧ e.message.isTiming = false)
    (hticks : ∀ e ∈ events, e.tick ≤ u64Max) {words : List (BitVec 32)}
    (h : eventWords tick events = .ok words) : decodeEvents tick (messages words) = .ok events := by
  induction events generalizing tick words with
  | nil =>
    cases h
    rfl
  | cons event rest ih =>
    obtain ⟨hevent, htiming⟩ := hmade event mem_cons_self
    have htick := hticks event mem_cons_self
    rw [eventWords] at h
    split at h
    · cases h
    cases hrest : eventWords event.tick rest with
    | error =>
      rw [hrest] at h
      cases h
    | ok =>
      rw [hrest] at h
      cases h
      obtain ⟨hsum, hle⟩ := deltaChunks_spec (Nat.le_refl (event.tick - tick))
      have harrive : tick + (deltaChunks (event.tick - tick) (event.tick - tick)).sum = event.tick := by
        omega
      rw [deltaWords, decodeEvents_chunks hle (by omega), harrive, messages_append,
        Message.decode_encode hevent, decodeEvents_message htiming,
        ih (fun e he => hmade e (mem_cons_of_mem _ he))
          (fun e he => hticks e (mem_cons_of_mem _ he)) hrest]
      rfl

theorem toUmpFile_ok {t : Timeline} {f : UmpFile} (h : toUmpFile t = .ok f) :
    (1 ≤ t.ticksPerQuarter.toNat ∧ t.ticksPerQuarter.toNat ≤ 0x7FFF) ∧
      validateTimelineSysex t.events = .ok () ∧ preflightUmpTiming t.events = .ok () ∧
      ∃ words slice, eventWords 0 t.events = .ok words ∧ write f = .ok slice ∧
        f = ⟨t.tempos, (Utility.mkDeltaClockstampTpq t.ticksPerQuarter).encode.words ++ words⟩ := by
  obtain ⟨tpq, htpq, h⟩ := Lib.bind_eq_ok.mp h
  obtain ⟨_, htopology, h⟩ := Lib.bind_eq_ok.mp h
  obtain ⟨_, hpreflight, h⟩ := Lib.bind_eq_ok.mp h
  obtain ⟨words, hwords, h⟩ := Lib.bind_eq_ok.mp h
  obtain ⟨slice, hwrite, h⟩ := Lib.bind_eq_ok.mp h
  cases h
  refine ⟨?_, htopology, hpreflight, words, slice, hwords, Except.mapError_eq_ok.mp hwrite, rfl⟩
  unfold validateTpq at htpq
  split at htpq
  · assumption
  · cases htpq

/-- A timeline of messages that a program can hold, none of which is a timing message. -/
def Timeline.Carried (t : Timeline) : Prop :=
  ∀ e ∈ t.events, e.message.Made ∧ e.message.isTiming = false

theorem leadingTpq_append (tpq : BitVec 16) (words : List (BitVec 32)) :
    leadingTpq (messages ((Utility.mkDeltaClockstampTpq tpq).encode.words ++ words)) =
      .ok (tpq.setWidth 32 &&& 0x0000FFFF, messages words) := by
  have hdecode := Message.decode_encode (.utility (.deltaClockstampTpq tpq))
  rw [Message.encode] at hdecode
  rw [messages_append, hdecode]
  rfl

theorem fromUmpFile_toUmpFile {t : Timeline} (hcarried : t.Carried) {f : UmpFile}
    (h : toUmpFile t = .ok f) : fromUmpFile f = .ok t := by
  obtain ⟨htpq, htopology, hpreflight, words, slice, hwords, hwrite, rfl⟩ := toUmpFile_ok h
  have hticks : ∀ e ∈ t.events, e.tick ≤ u64Max := fun e he =>
    le_trans (tick_le_of_preflight hpreflight (Nat.le_refl 0) e he) (by decide)
  have hmask : (t.ticksPerQuarter.setWidth 32 &&& 0x0000FFFF).toNat = t.ticksPerQuarter.toNat := by
    change (t.ticksPerQuarter.setWidth 32 &&& BitVec.ofNat 32 (2 ^ 16 - 1)).toNat = _
    rw [Lib.Narrow.toNat_and_ones (by decide), BitVec.toNat_setWidth_of_le (by decide)]
    omega
  have hback : validateTpq (t.ticksPerQuarter.setWidth 32 &&& 0x0000FFFF).toNat =
      .ok t.ticksPerQuarter := by
    rw [hmask, validateTpq, if_pos htpq, BitVec.ofNat_toNat, BitVec.setWidth_eq]
  unfold fromUmpFile
  rw [hwrite, leadingTpq_append]
  change (validateTpq _ >>= fun _ => decodeEvents 0 (messages words) >>= fun _ => _) = _
  rw [hback, decodeEvents_eventWords hcarried hticks hwords]
  change (validateTimelineSysex t.events >>= fun _ => _) = _
  rw [htopology]
  rfl

/-- A timeline that converts to a file is read back from its bytes; what is read is written as those
bytes. -/
theorem cosump_round_trip : (∀ t : Timeline, t.Carried → ∀ f : UmpFile, toUmpFile t = .ok f →
      ∃ (b : Slice) (f' : UmpFile), write f = .ok b ∧ read b = .ok f' ∧ fromUmpFile f' = .ok t) ∧
    ∀ (b : Slice) (f : UmpFile), read b = .ok f → write f = .ok b := by
  refine ⟨?_, fun b f h => read_ok_iff_write.mp h⟩
  intro t hcarried f h
  obtain ⟨-, -, -, _, slice, -, hwrite, -⟩ := toUmpFile_ok h
  exact ⟨slice, f, hwrite, read_ok_iff_write.mpr hwrite, fromUmpFile_toUmpFile hcarried h⟩

/-- A note, a SysEx run with a clock inside, and a packet of a reserved type two clockstamps later.
-/
private def shortSong : Timeline :=
  ⟨480, [⟨0, 500000⟩, ⟨960, 400000⟩],
    [⟨0, .midi2Cv (.mkNoteOn 1 2 60 0xC000 3 0x1234)⟩,
      ⟨10, Message.decode ⟨0x30160102, [0x03040506], rfl⟩⟩,
      ⟨12, .system (.mkTimingClock 0)⟩,
      ⟨2000000, Message.decode ⟨0x30310700, [0], rfl⟩⟩,
      ⟨2000000, Message.decode ⟨0x60000000, [], rfl⟩⟩]⟩

private theorem shortSong_carried : shortSong.Carried := by
  intro e he
  simp only [shortSong, mem_cons, not_mem_nil, or_false] at he
  rcases he with rfl | rfl | rfl | rfl | rfl <;> refine ⟨?_, rfl⟩ <;> dsimp only
  · exact .midi2Cv (.noteOn 1 2 60 0xC000 3 0x1234)
  · exact .decoded _
  · exact .system (.timingClock 0)
  · exact .decoded _
  · exact .decoded _

theorem cosump_round_trip_song :
    ∃ (f f' : UmpFile) (b : Slice), toUmpFile shortSong = .ok f ∧ write f = .ok b ∧
      read b = .ok f' ∧ fromUmpFile f' = .ok shortSong ∧ write f' = .ok b := by
  have hok : (toUmpFile shortSong).toOption.isSome = true := by decide +kernel
  cases h : toUmpFile shortSong with
  | error =>
    rw [h] at hok
    cases hok
  | ok f =>
    obtain ⟨b, f', hwrite, hread, hback⟩ := cosump_round_trip.1 shortSong shortSong_carried f h
    exact ⟨f, f', b, rfl, hwrite, hread, hback, cosump_round_trip.2 b f' hread⟩

end Cosmix.Musicd
