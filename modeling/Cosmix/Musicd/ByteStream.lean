/- source: cosmix-musicd/src/midi2/bytestream.rs
   digest: MIDI 1.0 byte streams: the parser never panics, its events serialise. -/

import Cosmix.Musicd.Messages

namespace Cosmix.Musicd

open Function (update)

/-! Events. A function that may panic is an option. -/

/-- A SysEx payload that fits one packet. -/
structure SysExData where
  group : BitVec 8
  data : List (BitVec 8)
  ok : payloadOk data = true
deriving DecidableEq

variable (group : BitVec 8)

def SysExData.withGroup (data : List (BitVec 8)) : Option SysExData :=
  if h : payloadOk data = true then some ⟨group &&& 0xF, data, h⟩ else none

inductive SysEx
  | complete (d : SysExData)
  | start (d : SysExData)
  | continue_ (d : SysExData)
  | end_ (d : SysExData)
deriving DecidableEq

namespace SysEx

def completeIn (group : BitVec 8) (data : List (BitVec 8)) : Option SysEx :=
  (SysExData.withGroup group data).map .complete

def startIn (group : BitVec 8) (data : List (BitVec 8)) : Option SysEx :=
  (SysExData.withGroup group data).map .start

def continueIn (group : BitVec 8) (data : List (BitVec 8)) : Option SysEx :=
  (SysExData.withGroup group data).map .continue_

def endIn (group : BitVec 8) (data : List (BitVec 8)) : Option SysEx :=
  (SysExData.withGroup group data).map .end_

def payload : SysEx → SysExData
  | .complete d => d
  | .start d => d
  | .continue_ d => d
  | .end_ d => d

end SysEx

inductive Event
  | midi1Cv (m : Midi1Cv)
  | system (m : System)
  | sysEx (m : SysEx)
deriving DecidableEq

structure TimedEvent where
  tick : Nat
  event : Event
deriving DecidableEq

def isRealtimeEvent : Event → Bool
  | .system (.timingClock _) => true
  | .system (.start _) => true
  | .system (.continue_ _) => true
  | .system (.stop _) => true
  | .system (.activeSensing _) => true
  | .system (.reset _) => true
  | _ => false

structure ParseStats where
  (skippedBytes abortedMessages abortedSysex : Nat)
deriving DecidableEq

structure ParseResult where
  events : List Event
  stats : ParseStats
deriving DecidableEq

/-- A message that waits for data bytes; the data so far stands for the array and its length. -/
structure PendingMessage where
  status : BitVec 8
  data : List (BitVec 8)
  need : Nat
deriving DecidableEq

structure PendingSysEx where
  data : List (BitVec 8)
  startEmitted : Bool
deriving DecidableEq

structure Parser where
  group : BitVec 8
  runningStatus : Option (BitVec 8)
  pending : Option PendingMessage
  sysex : Option PendingSysEx
  stats : ParseStats
deriving DecidableEq

def dataBytes (status : BitVec 8) : Nat :=
  if (0x80 ≤ status ∧ status ≤ 0xBF) ∨ (0xE0 ≤ status ∧ status ≤ 0xEF) ∨ status = 0xF2 then 2
  else if (0xC0 ≤ status ∧ status ≤ 0xDF) ∨ status = 0xF1 ∨ status = 0xF3 then 1
  else 0

/-- The event of a message that has its data; none where the code has no such status. -/
def decodeComplete (pending : PendingMessage) : Option Event :=
  let channel := pending.status &&& 0xF
  let data1 := pending.data.getD 0 0
  let data2 := pending.data.getD 1 0
  let wide := data1.setWidth 16 ||| data2.setWidth 16 <<< 7
  match (pending.status >>> 4).toNat with
  | 0x8 => some (.midi1Cv (.mkNoteOff group channel data1 data2))
  | 0x9 => some (.midi1Cv (.mkNoteOn group channel data1 data2))
  | 0xA => some (.midi1Cv (.mkPolyPressure group channel data1 data2))
  | 0xB => some (.midi1Cv (.mkControlChange group channel data1 data2))
  | 0xC => some (.midi1Cv (.mkProgramChange group channel data1))
  | 0xD => some (.midi1Cv (.mkChannelPressure group channel data1))
  | 0xE => some (.midi1Cv (.mkPitchBend group channel wide))
  | 0xF =>
    if pending.status = 0xF1 then some (.system (.mkMtcQuarterFrame group data1))
    else if pending.status = 0xF2 then some (.system (.mkSongPosition group wide))
    else if pending.status = 0xF3 then some (.system (.mkSongSelect group data1))
    else none
  | _ => none

/-- The Real Time message of a status; the two reserved ones have none. -/
def realtime (group status : BitVec 8) : Option System :=
  if status = 0xF8 then some (.mkTimingClock group)
  else if status = 0xFA then some (.mkStart group)
  else if status = 0xFB then some (.mkContinue group)
  else if status = 0xFC then some (.mkStop group)
  else if status = 0xFE then some (.mkActiveSensing group)
  else if status = 0xFF then some (.mkReset group)
  else none

namespace Parser

protected def new (group : BitVec 8) : Parser := ⟨group &&& 0xF, none, none, none, ⟨0, 0, 0⟩⟩

variable (p : Parser)

def skip : Parser :=
  { p with stats := { p.stats with skippedBytes := p.stats.skippedBytes + 1 } }

def abortPending : Parser :=
  match p.pending with
  | some _ =>
    { p with
      pending := none
      stats := { p.stats with abortedMessages := p.stats.abortedMessages + 1 } }
  | none => p

/-- The next data byte of a message; its array has two places. -/
def fill (m : PendingMessage) (byte : BitVec 8) : Option (Parser × List Event) :=
  if m.data.length < 2 then
    let m' := { m with data := m.data ++ [byte] }
    if m'.data.length ≠ m.need then some ({ p with pending := some m' }, [])
    else (decodeComplete p.group m').map fun e => ({ p with pending := none }, [e])
  else none

variable (byte : BitVec 8)

def pushData : Option (Parser × List Event) :=
  match p.pending with
  | some m => p.fill m byte
  | none =>
    match p.runningStatus with
    | none => some (p.skip, [])
    | some status => p.fill ⟨status, [], dataBytes status⟩ byte

variable (s : PendingSysEx)

def abortSysex : Option (Parser × List Event) :=
  let p' :=
    { p with sysex := none, stats := { p.stats with abortedSysex := p.stats.abortedSysex + 1 } }
  if s.startEmitted && !s.data.isEmpty then
    (SysEx.continueIn p.group s.data).map fun x => (p', [.sysEx x])
  else some (p', [])

def splitFullSysex : Option (Parser × List Event) :=
  (if s.startEmitted then SysEx.continueIn p.group s.data else SysEx.startIn p.group s.data).map
    fun x => ({ p with sysex := some ⟨[], true⟩ }, [.sysEx x])

def splitSysexForRealtime : Option (Parser × List Event) :=
  match p.sysex with
  | none => some (p, [])
  | some s =>
    let p' := { p with sysex := some ⟨[], true⟩ }
    if s.startEmitted then
      if s.data.isEmpty then some (p', [])
      else (SysEx.continueIn p.group s.data).map fun x => (p', [.sysEx x])
    else (SysEx.startIn p.group s.data).map fun x => (p', [.sysEx x])

def pushPlain : Option (Parser × List Event) :=
  if byte < 0x80 then p.pushData byte
  else if byte ≤ 0xEF then
    some ({ p.abortPending with
      runningStatus := some byte, pending := some ⟨byte, [], dataBytes byte⟩ }, [])
  else
    let p' := { p.abortPending with runningStatus := none }
    if byte = 0xF0 then some ({ p' with sysex := some ⟨[], false⟩ }, [])
    else if byte ≤ 0xF3 then some ({ p' with pending := some ⟨byte, [], dataBytes byte⟩ }, [])
    else if byte ≤ 0xF5 then some (p'.skip, [])
    else if byte = 0xF6 then some (p', [.system (.mkTuneRequest p.group)])
    else if byte = 0xF7 then some (p'.skip, [])
    else none

def pushSysex (byte : BitVec 8) : Option (Parser × List Event) :=
  if byte ≤ 0x7F then
    if s.data.length = 6 then
      (p.splitFullSysex s).map fun r => ({ r.1 with sysex := some ⟨[byte], true⟩ }, r.2)
    else some ({ p with sysex := some { s with data := s.data ++ [byte] } }, [])
  else if byte = 0xF7 then
    (if s.startEmitted then SysEx.endIn p.group s.data else SysEx.completeIn p.group s.data).map
      fun x => ({ p with sysex := none }, [.sysEx x])
  else
    (p.abortSysex s).bind fun r => (r.1.pushPlain byte).map fun r' => (r'.1, r.2 ++ r'.2)

def push : Option (Parser × List Event) :=
  if 0xF8 ≤ byte then
    match realtime p.group byte with
    | some message => p.splitSysexForRealtime.map fun r => (r.1, r.2 ++ [.system message])
    | none => some (p.skip, [])
  else
    match p.sysex with
    | some s => p.pushSysex s byte
    | none => p.pushPlain byte

def feed (p : Parser) : List (BitVec 8) → Option (Parser × List Event)
  | [] => some (p, [])
  | byte :: bytes =>
    (p.push byte).bind fun r => (r.1.feed bytes).map fun r' => (r'.1, r.2 ++ r'.2)

def finish : Parser :=
  let p := p.abortPending
  let p :=
    match p.sysex with
    | some _ =>
      { p with sysex := none, stats := { p.stats with abortedSysex := p.stats.abortedSysex + 1 } }
    | none => p
  { p with runningStatus := none }

end Parser

variable (bytes : List (BitVec 8))

def parseRaw : Option ParseResult :=
  ((Parser.new 0).feed bytes).map fun r => ⟨r.2, r.1.finish.stats⟩

inductive SerializeError
  | unknownChannelVoice
  | unknownSystem
  | nonSevenBitSysExData
deriving DecidableEq

def serializeCv (message : Midi1Cv) : Except SerializeError (List (BitVec 8)) :=
  let channel := message.channel
  match message with
  | .noteOff m => .ok [0x80 ||| channel, m.note.val, m.value.val]
  | .noteOn m => .ok [0x90 ||| channel, m.note.val, m.value.val]
  | .polyPressure m => .ok [0xA0 ||| channel, m.note.val, m.value.val]
  | .controlChange m => .ok [0xB0 ||| channel, m.controller.val, m.value.val]
  | .programChange m => .ok [0xC0 ||| channel, m.program.val]
  | .channelPressure m => .ok [0xD0 ||| channel, m.pressure.val]
  | .pitchBend m => .ok [0xE0 ||| channel, m.value.low.val, m.value.high.val]
  | .unknown _ => .error .unknownChannelVoice

def serializeSystem : System → Except SerializeError (List (BitVec 8))
  | .mtcQuarterFrame m => .ok [0xF1, m.value.val]
  | .songPosition m => .ok [0xF2, m.value.low.val, m.value.high.val]
  | .songSelect m => .ok [0xF3, m.value.val]
  | .tuneRequest _ => .ok [0xF6]
  | .timingClock _ => .ok [0xF8]
  | .start _ => .ok [0xFA]
  | .continue_ _ => .ok [0xFB]
  | .stop _ => .ok [0xFC]
  | .activeSensing _ => .ok [0xFE]
  | .reset _ => .ok [0xFF]
  | .unknown _ => .error .unknownSystem

def serializeSysex : SysEx → List (BitVec 8)
  | .complete d => [0xF0] ++ d.data ++ [0xF7]
  | .start d => [0xF0] ++ d.data
  | .continue_ d => d.data
  | .end_ d => d.data ++ [0xF7]

def serializeEvent : Event → Except SerializeError (List (BitVec 8))
  | .midi1Cv m => serializeCv m
  | .system m => serializeSystem m
  | .sysEx m => .ok (serializeSysex m)

def serialize : List Event → Except SerializeError (List (BitVec 8))
  | [] => .ok []
  | e :: es =>
    match serializeEvent e with
    | .error err => .error err
    | .ok bytes => (serialize es).map fun rest => bytes ++ rest

inductive ParameterKind
  | registered
  | assignable
deriving DecidableEq

/-- The place of a group and channel among the 256 channel states. -/
def stateKey (group channel : BitVec 8) : Fin 256 :=
  ⟨(group &&& 0xF).toNat * 16 + (channel &&& 0xF).toNat, by
    have hlow : ∀ v : BitVec 8, (v &&& 0xF).toNat < 2 ^ 4 := fun v => by
      rw [BitVec.toNat_and]
      exact Nat.and_lt_two_pow _ (by decide)
    have hgroup := hlow group
    have hchannel := hlow channel
    omega⟩

def keyGroup (key : Fin 256) : BitVec 8 := BitVec.ofNat 8 (key.val / 16)

def keyChannel (key : Fin 256) : BitVec 8 := BitVec.ofNat 8 (key.val % 16)

namespace Canonical

structure Selection where
  kind : ParameterKind
  (msb lsb : U7)
deriving DecidableEq

structure Selector where
  kind : ParameterKind
  (msb lsb : Option U7)
deriving DecidableEq

structure PendingData where
  selection : Selection
  msb : U7
  sourceTick : Nat
deriving DecidableEq

structure ChannelState where
  selector : Option Selector
  pendingData : Option PendingData
  (bankMsb bankLsb : Option U7)
deriving DecidableEq

protected def ChannelState.default : ChannelState := ⟨none, none, none, none⟩

abbrev States := Fin 256 → ChannelState

def updateSelector (state : ChannelState) (kind : ParameterKind) (isMsb : Bool) (value : U7) :
    ChannelState :=
  let selector := state.selector.getD ⟨kind, none, none⟩
  let selector := { selector with kind := kind }
  let selector :=
    if isMsb then { selector with msb := some value } else { selector with lsb := some value }
  { state with selector := some selector }

/-- The complete selection of a channel; the null RPN is none. -/
def currentSelection (state : ChannelState) : Option Selection :=
  state.selector.bind fun selector => selector.msb.bind fun msb => selector.lsb.bind fun lsb =>
    if selector.kind = .registered ∧ msb.val = 127 ∧ lsb.val = 127 then none
    else some ⟨selector.kind, msb, lsb⟩

def emitParameter (group channel : BitVec 8) (data : PendingData) (lsb : U7) : List TimedEvent :=
  let controllers : BitVec 8 × BitVec 8 :=
    match data.selection.kind with
    | .registered => (101, 100)
    | .assignable => (99, 98)
  [(controllers.1, data.selection.msb), (controllers.2, data.selection.lsb), (6, data.msb),
    (38, lsb)].map fun cv =>
      ⟨data.sourceTick, .midi1Cv (.mkControlChange group channel cv.1 cv.2.val)⟩

/-- The channel whose pending data the event completes. -/
def dataLsbKey (event : Event) (states : States) : Option (Fin 256) :=
  match event with
  | .midi1Cv (.controlChange control) =>
    if control.controller.val ≠ 38 then none
    else
      let message := Midi1Cv.controlChange control
      let key := stateKey message.group message.channel
      (states key).pendingData.map fun _ => key
  | _ => none

def flushOne (except : Option (Fin 256)) (acc : States × List TimedEvent) (key : Fin 256) :
    States × List TimedEvent :=
  if some key = except then acc
  else
    match (acc.1 key).pendingData with
    | none => acc
    | some data =>
      (update acc.1 key { acc.1 key with pendingData := none },
        acc.2 ++ emitParameter (keyGroup key) (keyChannel key) data (U7.mask 0))

def flushPendingData (states : States) (except : Option (Fin 256)) : States × List TimedEvent :=
  (List.finRange 256).foldl (flushOne except) (states, [])

def canonicalizeCc (message : Midi1Cv) (control : Cv1.ControlChange) (tick : Nat) (states : States) :
    States × List TimedEvent :=
  let group := message.group
  let channel := message.channel
  let key := stateKey group channel
  let state := states key
  let value := control.value
  match control.controller.val.toNat with
  | 101 => (update states key (updateSelector state .registered true value), [])
  | 100 => (update states key (updateSelector state .registered false value), [])
  | 99 => (update states key (updateSelector state .assignable true value), [])
  | 98 => (update states key (updateSelector state .assignable false value), [])
  | 6 =>
    match currentSelection state with
    | some selection =>
      (update states key { state with pendingData := some ⟨selection, value, tick⟩ }, [])
    | none => (states, [⟨tick, .midi1Cv message⟩])
  | 38 =>
    match state.pendingData with
    | some data =>
      (update states key { state with pendingData := none },
        emitParameter group channel data value)
    | none => (states, [⟨tick, .midi1Cv message⟩])
  | 0 => (update states key { state with bankMsb := some value }, [])
  | 32 => (update states key { state with bankLsb := some value }, [])
  | _ => (states, [⟨tick, .midi1Cv message⟩])

def canonicalizeCv (message : Midi1Cv) (tick : Nat) (states : States) : States × List TimedEvent :=
  let group := message.group
  let channel := message.channel
  let key := stateKey group channel
  match message with
  | .noteOn m =>
    if m.value.val = 0 then (states, [⟨tick, .midi1Cv (.mkNoteOff group channel m.note.val 64)⟩])
    else (states, [⟨tick, .midi1Cv message⟩])
  | .controlChange control => canonicalizeCc message control tick states
  | .programChange _ =>
    match (states key).bankMsb, (states key).bankLsb with
    | some msb, some lsb =>
      (update states key { states key with bankMsb := none, bankLsb := none },
        [⟨tick, .midi1Cv (.mkControlChange group channel 0 msb.val)⟩,
          ⟨tick, .midi1Cv (.mkControlChange group channel 32 lsb.val)⟩, ⟨tick, .midi1Cv message⟩])
    | _, _ => (states, [⟨tick, .midi1Cv message⟩])
  | _ => (states, [⟨tick, .midi1Cv message⟩])

/-- One event of the loop: what is pending is flushed, unless the event is Real Time. -/
def step (states : States) (timed : TimedEvent) : States × List TimedEvent :=
  let flushed :=
    if isRealtimeEvent timed.event then (states, [])
    else flushPendingData states (dataLsbKey timed.event states)
  match timed.event with
  | .midi1Cv message =>
    let r := canonicalizeCv message timed.tick flushed.1
    (r.1, flushed.2 ++ r.2)
  | _ => (flushed.1, flushed.2 ++ [timed])

def run (states : States) : List TimedEvent → List TimedEvent
  | [] => (flushPendingData states none).2
  | timed :: rest =>
    let r := step states timed
    r.2 ++ run r.1 rest

end Canonical

def canonicalizeTimed (events : List TimedEvent) : List TimedEvent :=
  (Canonical.run (fun _ => .default) events).mergeSort fun a b => a.tick ≤ b.tick

def canonicalizeEvents (events : List Event) : List Event :=
  (canonicalizeTimed (events.map fun e => ⟨0, e⟩)).map TimedEvent.event

def parse : Option ParseResult :=
  (parseRaw bytes).map fun raw => ⟨canonicalizeEvents raw.events, raw.stats⟩

def canonicalize : Option (List (BitVec 8)) :=
  (parse bytes).bind fun r => (serialize r.events).toOption

open List

/-- An event of a defined status. -/
def Event.known : Event → Bool
  | .midi1Cv (.unknown _) => false
  | .system (.unknown _) => false
  | _ => true

/-- The statuses the parser waits on for data. -/
def Awaited (status : BitVec 8) : Prop :=
  0x80 ≤ status ∧ status ≤ 0xEF ∨ 0xF1 ≤ status ∧ status ≤ 0xF3

instance (status : BitVec 8) : Decidable (Awaited status) :=
  inferInstanceAs (Decidable (0x80 ≤ status ∧ status ≤ 0xEF ∨ 0xF1 ≤ status ∧ status ≤ 0xF3))

theorem dataBytes_awaited : ∀ status : BitVec 8, Awaited status →
    dataBytes status = 1 ∨ dataBytes status = 2 := by
  decide +kernel

theorem awaited_cases : ∀ status : BitVec 8, Awaited status →
    (8 ≤ (status >>> 4).toNat ∧ (status >>> 4).toNat < 15) ∨
      (status = 0xF1 ∨ status = 0xF2 ∨ status = 0xF3) := by
  decide +kernel

variable {data : List (BitVec 8)}

theorem payloadOk_iff :
    payloadOk data = true ↔ data.length ≤ 6 ∧ ∀ byte ∈ data, byte &&& 0x80 = 0 := by
  simp [payloadOk]

theorem payloadOk_concat (h : payloadOk data = true)
    (hlen : data.length ≠ 6) {byte : BitVec 8} (hbyte : byte ≤ 0x7F) :
    payloadOk (data ++ [byte]) = true := by
  have hseven : ∀ b : BitVec 8, b ≤ 0x7F → b &&& 0x80 = 0 := by decide +kernel
  obtain ⟨hshort, hall⟩ := payloadOk_iff.mp h
  refine payloadOk_iff.mpr ⟨?_, forall_mem_append.mpr
    ⟨hall, forall_mem_singleton.mpr (hseven byte hbyte)⟩⟩
  rw [length_append, length_singleton]
  omega

theorem withGroup_some (h : payloadOk data = true) :
    SysExData.withGroup group data = some ⟨group &&& 0xF, data, h⟩ :=
  dif_pos h

theorem decodeComplete_known {m : PendingMessage} (h : Awaited m.status) :
    ∃ e, decodeComplete group m = some e ∧ e.known = true := by
  rcases awaited_cases m.status h with ⟨hlow, hhigh⟩ | hsystem
  · unfold decodeComplete
    generalize (m.status >>> 4).toNat = nibble at hlow hhigh
    interval_cases nibble <;> exact ⟨_, rfl, rfl⟩
  · unfold decodeComplete
    rcases hsystem with hs | hs | hs <;> rw [hs] <;> exact ⟨_, rfl, rfl⟩

structure PendingMessage.Ok (m : PendingMessage) : Prop where
  awaited : Awaited m.status
  need : m.need = dataBytes m.status
  short : m.data.length < m.need

structure Parser.Ok (p : Parser) : Prop where
  running : ∀ status, p.runningStatus = some status → 0x80 ≤ status ∧ status ≤ 0xEF
  pending : ∀ m, p.pending = some m → m.Ok
  sysex : ∀ s, p.sysex = some s → payloadOk s.data = true

/-- A section of the parser returns, keeps its state in order and makes events of defined status. -/
def Sound (r : Option (Parser × List Event)) : Prop :=
  ∃ p es, r = some (p, es) ∧ p.Ok ∧ ∀ e ∈ es, e.known = true

theorem pendingNew_ok {status : BitVec 8} (h : Awaited status) :
    PendingMessage.Ok ⟨status, [], dataBytes status⟩ := by
  refine ⟨h, rfl, ?_⟩
  rcases dataBytes_awaited status h with hn | hn <;> simp [hn]

namespace Parser

theorem ok_new (group : BitVec 8) : (Parser.new group).Ok := ⟨nofun, nofun, nofun⟩

section

variable {p : Parser}

theorem Ok.skip (h : p.Ok) : p.skip.Ok := ⟨h.running, h.pending, h.sysex⟩

theorem Ok.abortPending (h : p.Ok) : p.abortPending.Ok := by
  unfold Parser.abortPending
  split
  · exact ⟨h.running, nofun, h.sysex⟩
  · exact h

theorem fill_sound (h : p.Ok) {m : PendingMessage} (hm : m.Ok) (byte : BitVec 8) :
    Sound (p.fill m byte) := by
  have hneed : m.need ≤ 2 := by
    rw [hm.need]
    rcases dataBytes_awaited m.status hm.awaited with hn | hn <;> omega
  have hshort := hm.short
  rw [fill, if_pos (by omega)]
  dsimp only
  split
  · next hne =>
    refine ⟨_, _, rfl, ⟨h.running, ?_, h.sysex⟩, nofun⟩
    rintro m' ⟨⟩
    refine ⟨hm.awaited, hm.need, ?_⟩
    rw [length_append] at hne ⊢
    exact Nat.lt_of_le_of_ne hshort hne
  · obtain ⟨e, he, hknown⟩ :=
      decodeComplete_known p.group (m := { m with data := m.data ++ [byte] }) hm.awaited
    exact ⟨{ p with pending := none }, [e], by rw [he]; rfl, ⟨h.running, nofun, h.sysex⟩,
      forall_mem_singleton.mpr hknown⟩

theorem pushData_sound (h : p.Ok) (byte : BitVec 8) : Sound (p.pushData byte) := by
  unfold pushData
  split
  · next m hm => exact fill_sound h (h.pending m hm) byte
  split
  · exact ⟨_, _, rfl, h.skip, nofun⟩
  · next status hstatus =>
    exact fill_sound h (pendingNew_ok (.inl (h.running status hstatus))) byte

/-- A fragment of a payload that is in order is an event, after which SysEx may go on. -/
theorem fragment_sound {p' : Parser} (h : p'.Ok) {x : Option SysEx} {y : SysEx} (hx : x = some y) :
    Sound (x.map fun y => (p', [.sysEx y])) :=
  ⟨p', [.sysEx y], by rw [hx]; rfl, h, forall_mem_singleton.mpr rfl⟩

theorem abortSysex_sound (h : p.Ok) {s : PendingSysEx} (hs : p.sysex = some s) :
    Sound (p.abortSysex s) := by
  have hok : Parser.Ok { p with
      sysex := none, stats := { p.stats with abortedSysex := p.stats.abortedSysex + 1 } } :=
    ⟨h.running, h.pending, nofun⟩
  unfold abortSysex
  split
  · exact fragment_sound hok (by rw [SysEx.continueIn, withGroup_some _ (h.sysex s hs)]; rfl)
  · exact ⟨_, _, rfl, hok, nofun⟩

theorem Ok.goOn (h : p.Ok) : Parser.Ok { p with sysex := some ⟨[], true⟩ } := by
  refine ⟨h.running, h.pending, ?_⟩
  rintro s ⟨⟩
  rfl

theorem splitSysexForRealtime_sound (h : p.Ok) : Sound p.splitSysexForRealtime := by
  unfold splitSysexForRealtime
  split
  · exact ⟨_, _, rfl, h, nofun⟩
  next s hs =>
  have hdata := h.sysex s hs
  split
  · split
    · exact ⟨_, _, rfl, h.goOn, nofun⟩
    · exact fragment_sound h.goOn (by rw [SysEx.continueIn, withGroup_some _ hdata]; rfl)
  · exact fragment_sound h.goOn (by rw [SysEx.startIn, withGroup_some _ hdata]; rfl)

variable {byte : BitVec 8}

theorem pushPlain_sound (h : p.Ok) (hbyte : ¬0xF8 ≤ byte) : Sound (p.pushPlain byte) := by
  have hab := h.abortPending
  have hnone : Parser.Ok { p.abortPending with runningStatus := none } :=
    ⟨nofun, hab.pending, hab.sysex⟩
  unfold pushPlain
  split
  · exact pushData_sound h byte
  next hdata =>
  split
  · next hvoice =>
    have hrange : 0x80 ≤ byte ∧ byte ≤ 0xEF := ⟨BitVec.not_lt.mp hdata, hvoice⟩
    refine ⟨_, _, rfl, ⟨?_, ?_, hab.sysex⟩, nofun⟩
    · rintro _ ⟨⟩
      exact hrange
    · rintro _ ⟨⟩
      exact pendingNew_ok (.inl hrange)
  · next hvoice =>
    split
    · refine ⟨_, _, rfl, ⟨nofun, hab.pending, ?_⟩, nofun⟩
      rintro _ ⟨⟩
      rfl
    next hsysex =>
    split
    · next hcommon =>
      refine ⟨_, _, rfl, ⟨nofun, ?_, hab.sysex⟩, nofun⟩
      rintro _ ⟨⟩
      have hrange : ∀ b : BitVec 8, ¬b ≤ 0xEF → b ≠ 0xF0 → b ≤ 0xF3 → Awaited b := by
        decide +kernel
      exact pendingNew_ok (hrange byte hvoice hsysex hcommon)
    · split
      · exact ⟨_, _, rfl, hnone.skip, nofun⟩
      · next hreserved =>
        split
        · exact ⟨_, _, rfl, hnone, forall_mem_singleton.mpr rfl⟩
        next htune =>
        split
        · exact ⟨_, _, rfl, hnone.skip, nofun⟩
        next heox =>
        have hrest : ∀ b : BitVec 8, ¬0xF8 ≤ b → ¬b ≤ 0xF5 → b ≠ 0xF6 → b = 0xF7 := by
          decide +kernel
        exact absurd (hrest byte hbyte hreserved htune) heox

theorem pushSysex_sound (h : p.Ok) {s : PendingSysEx} (hs : p.sysex = some s)
    (hbyte : ¬0xF8 ≤ byte) : Sound (p.pushSysex s byte) := by
  have hdata := h.sysex s hs
  unfold pushSysex
  split
  · next hseven =>
    split
    · have hone : payloadOk ([] ++ [byte]) = true := payloadOk_concat rfl (by decide) hseven
      have hsome : ∃ x, (if s.startEmitted then SysEx.continueIn p.group s.data
          else SysEx.startIn p.group s.data) = some x := by
        split
        · exact ⟨_, by rw [SysEx.continueIn, withGroup_some _ hdata]; rfl⟩
        · exact ⟨_, by rw [SysEx.startIn, withGroup_some _ hdata]; rfl⟩
      obtain ⟨x, hx⟩ := hsome
      refine ⟨{ p with sysex := some ⟨[byte], true⟩ }, [.sysEx x], ?_, ⟨h.running, h.pending, ?_⟩,
        forall_mem_singleton.mpr rfl⟩
      · rw [splitFullSysex, hx]
        rfl
      · rintro _ ⟨⟩
        exact hone
    · next hlen =>
      refine ⟨_, _, rfl, ⟨h.running, h.pending, ?_⟩, nofun⟩
      rintro _ ⟨⟩
      exact payloadOk_concat hdata hlen hseven
  · split
    · have hok : Parser.Ok { p with sysex := none } := ⟨h.running, h.pending, nofun⟩
      split
      · exact fragment_sound hok (by rw [SysEx.endIn, withGroup_some _ hdata]; rfl)
      · exact fragment_sound hok (by rw [SysEx.completeIn, withGroup_some _ hdata]; rfl)
    · obtain ⟨_, es₁, h₁, hok₁, hes₁⟩ := abortSysex_sound h hs
      obtain ⟨p₂, es₂, h₂, hok₂, hes₂⟩ := pushPlain_sound hok₁ hbyte
      refine ⟨p₂, es₁ ++ es₂, ?_, hok₂, forall_mem_append.mpr ⟨hes₁, hes₂⟩⟩
      rw [h₁, Option.bind_some, h₂]
      rfl

theorem push_sound (h : p.Ok) (byte : BitVec 8) : Sound (p.push byte) := by
  unfold push
  split
  · split
    · next message hmessage =>
      obtain ⟨p', es, hsplit, hok, hes⟩ := splitSysexForRealtime_sound h
      have hknown : (Event.system message).known = true := by
        unfold realtime at hmessage
        repeat' split at hmessage
        all_goals cases hmessage
        all_goals rfl
      exact ⟨p', es ++ [.system message], by rw [hsplit]; rfl, hok, forall_mem_append.mpr
        ⟨hes, forall_mem_singleton.mpr hknown⟩⟩
    · exact ⟨_, _, rfl, h.skip, nofun⟩
  · next hbyte =>
    split
    · next hs => exact pushSysex_sound h hs hbyte
    · exact pushPlain_sound h hbyte

theorem feed_sound (h : p.Ok) (bytes : List (BitVec 8)) : Sound (p.feed bytes) := by
  induction bytes generalizing p with
  | nil => exact ⟨p, [], rfl, h, nofun⟩
  | cons byte bytes ih =>
    obtain ⟨_, es₁, h₁, hok₁, hes₁⟩ := push_sound h byte
    obtain ⟨p₂, es₂, h₂, hok₂, hes₂⟩ := ih hok₁
    refine ⟨p₂, es₁ ++ es₂, ?_, hok₂, forall_mem_append.mpr ⟨hes₁, hes₂⟩⟩
    rw [feed, h₁, Option.bind_some, h₂]
    rfl

end

end Parser

theorem parseRaw_known : ∃ r, parseRaw bytes = some r ∧ ∀ e ∈ r.events, e.known = true := by
  obtain ⟨p, _, hfeed, -, hes⟩ := Parser.feed_sound (Parser.ok_new 0) bytes
  exact ⟨_, by rw [parseRaw, hfeed]; rfl, hes⟩

end Cosmix.Musicd
