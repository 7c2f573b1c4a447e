/- source: cosmix-musicd/src/midi2/translate.rs, up.rs, down.rs
   digest: The translators between MIDI 1.0 events and MIDI 2.0 messages. -/

import Cosmix.Musicd.ByteStream

namespace Cosmix.Musicd

/-- Output of one translator call, in four slots. -/
structure Translation (T : Type) where
  items : List T
  room : items.length ≤ 4

namespace Translation

variable {T : Type}

protected def new : Translation T := ⟨[], Nat.zero_le 4⟩

protected def one (item : T) : Translation T := ⟨[item], Nat.le_add_left 1 3⟩

/-- A fifth item panics. -/
def push (output : Translation T) (item : T) : Option (Translation T) :=
  if h : output.items.length < 4 then
    some ⟨output.items ++ [item], by rw [List.length_append]; exact h⟩
  else none

end Translation

structure Pending where
  (parameterSelections dataEntries bankSelects : Nat)
deriving DecidableEq

namespace Up

structure Selection where
  kind : ParameterKind
  (bank index : U7)
deriving DecidableEq

structure Selector where
  kind : ParameterKind
  (bank index : Option U7)
deriving DecidableEq

structure PendingData where
  selection : Selection
  msb : U7
deriving DecidableEq

structure ChannelState where
  selector : Option Selector
  pendingData : Option PendingData
  (bankMsb bankLsb : Option U7)
deriving DecidableEq

protected def ChannelState.default : ChannelState := ⟨none, none, none, none⟩

def currentSelection (state : ChannelState) : Option Selection :=
  state.selector.bind fun selector => selector.bank.bind fun bank => selector.index.bind fun index =>
    if selector.kind = .registered ∧ bank.val = 127 ∧ index.val = 127 then none
    else some ⟨selector.kind, bank, index⟩

def plainCc (group channel : BitVec 8) (controller value : U7) : Message :=
  .midi2Cv (.mkControlChange group channel controller.val (up7to32 value))

def parameter (group channel : BitVec 8) (pending : PendingData) (lsb : U7) : Message :=
  let data := up14to32 (U14.join pending.msb lsb)
  match pending.selection.kind with
  | .registered =>
    .midi2Cv (.mkRegisteredController group channel pending.selection.bank.val
      pending.selection.index.val data)
  | .assignable =>
    .midi2Cv (.mkAssignableController group channel pending.selection.bank.val
      pending.selection.index.val data)

def sysex7 (message : SysEx) : Option SysEx7 :=
  let format : SysEx7Format :=
    match message with
    | .complete _ => .complete
    | .start _ => .start
    | .continue_ _ => .continue_
    | .end_ _ => .end_
  SysEx7.new message.payload.group format message.payload.data

end Up

structure UpTranslator where
  states : Fin 256 → Up.ChannelState

namespace UpTranslator

open Up

protected def new : UpTranslator := ⟨fun _ => .default⟩

variable (t : UpTranslator)

def set (key : Fin 256) (state : ChannelState) : UpTranslator :=
  ⟨Function.update t.states key state⟩

def updateSelector (key : Fin 256) (kind : ParameterKind) (isBank : Bool)
    (value : U7) : UpTranslator :=
  let state := t.states key
  let selector := state.selector.getD ⟨kind, none, none⟩
  let selector := { selector with kind := kind }
  let selector :=
    if isBank then { selector with bank := some value } else { selector with index := some value }
  t.set key { state with selector := some selector }

def dataLsbKey : Event → Option (Fin 256)
  | .midi1Cv (.controlChange control) =>
    if control.controller.val ≠ 38 then none
    else
      let message := Midi1Cv.controlChange control
      let key := stateKey message.group message.channel
      (t.states key).pendingData.map fun _ => key
  | _ => none

def flushOne (except : Option (Fin 256)) (acc : UpTranslator × Translation Message) (key : Fin 256) :
    Option (UpTranslator × Translation Message) :=
  if some key = except then some acc
  else
    match (acc.1.states key).pendingData with
    | none => some acc
    | some data =>
      (acc.2.push (parameter (keyGroup key) (keyChannel key) data (U7.mask 0))).map fun output =>
        (acc.1.set key { acc.1.states key with pendingData := none }, output)

def flushPendingData (except : Option (Fin 256)) (output : Translation Message) :
    Option (UpTranslator × Translation Message) :=
  (List.finRange 256).foldlM (flushOne except) (t, output)

def translateCc (group channel : BitVec 8) (controller value : U7)
    (output : Translation Message) : Option (UpTranslator × Translation Message) :=
  let key := stateKey group channel
  let state := t.states key
  match controller.val.toNat with
  | 101 => some (t.updateSelector key .registered true value, output)
  | 100 => some (t.updateSelector key .registered false value, output)
  | 99 => some (t.updateSelector key .assignable true value, output)
  | 98 => some (t.updateSelector key .assignable false value, output)
  | 6 =>
    match currentSelection state with
    | some selection =>
      some (t.set key { state with pendingData := some ⟨selection, value⟩ }, output)
    | none => (output.push (plainCc group channel controller value)).map fun o => (t, o)
  | 38 =>
    match state.pendingData with
    | some data =>
      (output.push (parameter group channel data value)).map fun o =>
        (t.set key { state with pendingData := none }, o)
    | none => (output.push (plainCc group channel controller value)).map fun o => (t, o)
  | 0 => some (t.set key { state with bankMsb := some value }, output)
  | 32 => some (t.set key { state with bankLsb := some value }, output)
  | _ => (output.push (plainCc group channel controller value)).map fun o => (t, o)

def translateCv (message : Midi1Cv) (output : Translation Message) :
    Option (UpTranslator × Translation Message) :=
  let group := message.group
  let channel := message.channel
  let key := stateKey group channel
  match message with
  | .noteOff m =>
    (output.push (.midi2Cv (.mkNoteOff group channel m.note.val (up7to16 m.value) 0 0))).map
      fun o => (t, o)
  | .noteOn m =>
    if m.value.val = 0 then
      (output.push (.midi2Cv (.mkNoteOff group channel m.note.val 0x8000 0 0))).map fun o => (t, o)
    else
      (output.push (.midi2Cv (.mkNoteOn group channel m.note.val (up7to16 m.value) 0 0))).map
        fun o => (t, o)
  | .polyPressure m =>
    (output.push (.midi2Cv (.mkPolyPressure group channel m.note.val (up7to32 m.value)))).map
      fun o => (t, o)
  | .controlChange m => t.translateCc group channel m.controller m.value output
  | .programChange m =>
    let state := t.states key
    match state.bankMsb, state.bankLsb with
    | some msb, some lsb =>
      (output.push (.midi2Cv (.mkProgramChange group channel m.program.val
        (some (U14.join msb lsb).val)))).map fun o =>
          (t.set key { state with bankMsb := none, bankLsb := none }, o)
    | _, _ =>
      (output.push (.midi2Cv (.mkProgramChange group channel m.program.val none))).map
        fun o => (t, o)
  | .channelPressure m =>
    (output.push (.midi2Cv (.mkChannelPressure group channel (up7to32 m.pressure)))).map
      fun o => (t, o)
  | .pitchBend m =>
    (output.push (.midi2Cv (.mkPitchBend group channel (up14to32 m.value)))).map fun o => (t, o)
  | .unknown _ => (output.push (.midi1Cv message)).map fun o => (t, o)

def translate (event : Event) : Option (UpTranslator × Translation Message) :=
  if isRealtimeEvent event then
    match event with
    | .system system => (Translation.new.push (.system system)).map fun o => (t, o)
    | _ => none
  else
    (t.flushPendingData (t.dataLsbKey event) .new).bind fun r =>
      match event with
      | .midi1Cv message => r.1.translateCv message r.2
      | .system message => (r.2.push (.system message)).map fun o => (r.1, o)
      | .sysEx message =>
        (sysex7 message).bind fun m => (r.2.push (.sysEx7 m)).map fun o => (r.1, o)

def flush : Option (UpTranslator × Translation Message) :=
  (t.flushPendingData none .new).map fun r => (⟨fun _ => .default⟩, r.2)

/-- On how many channels there is state that can affect later events. -/
def pending : Pending :=
  ⟨(List.finRange 256).countP fun key => (t.states key).selector.isSome,
    (List.finRange 256).countP fun key => (t.states key).pendingData.isSome,
    (List.finRange 256).countP fun key =>
      (t.states key).bankMsb.isSome || (t.states key).bankLsb.isSome⟩

def translateAll (t : UpTranslator) : List Event → Option (UpTranslator × List Message)
  | [] => some (t, [])
  | e :: es =>
    (t.translate e).bind fun r => (r.1.translateAll es).map fun r' => (r'.1, r.2.items ++ r'.2)

end UpTranslator

structure Dropped where
  (perNoteControllers perNotePitchBend perNoteManagement noteAttributes relativeControllers : Nat)
  (data128 jrUtility otherUtility sysexTiming groupRouting unknown : Nat)
deriving DecidableEq

structure DownTranslator where
  dropped : Dropped
deriving DecidableEq

/-- A counter stays at the largest value of 64 bits. -/
def increment (counter : Nat) : Nat := min (counter + 1) (2 ^ 64 - 1)

namespace DownTranslator

protected def new : DownTranslator := ⟨⟨0, 0, 0, 0, 0, 0, 0, 0, 0, 0, 0⟩⟩

variable (d : DownTranslator)

def countUnknown : DownTranslator :=
  ⟨{ d.dropped with unknown := increment d.dropped.unknown }⟩

def countAttributeLoss (attributeType : BitVec 8) (attributeData : BitVec 16) : DownTranslator :=
  if attributeType ≠ 0 ∨ attributeData ≠ 0 then
    ⟨{ d.dropped with noteAttributes := increment d.dropped.noteAttributes }⟩
  else d

def translateUtility : Utility → DownTranslator × Translation Event
  | .jrClock _ => (⟨{ d.dropped with jrUtility := increment d.dropped.jrUtility }⟩, .new)
  | .jrTimestamp _ => (⟨{ d.dropped with jrUtility := increment d.dropped.jrUtility }⟩, .new)
  | .unknown _ => (d.countUnknown, .new)
  | _ => (⟨{ d.dropped with otherUtility := increment d.dropped.otherUtility }⟩, .new)

def translateSystem : System → DownTranslator × Translation Event
  | .unknown _ => (d.countUnknown, .new)
  | system => (d, .one (.system system))

/-- A fragment of a packet; a payload that is refused gives nothing. -/
def fragment (x : Option SysEx) : DownTranslator × Translation Event :=
  (d, (x.map fun x => Translation.one (Event.sysEx x)).getD .new)

def translateSysex (message : SysEx7) : DownTranslator × Translation Event :=
  match message with
  | .complete m => d.fragment (SysEx.completeIn message.group m.data)
  | .start m => d.fragment (SysEx.startIn message.group m.data)
  | .continue_ m => d.fragment (SysEx.continueIn message.group m.data)
  | .end_ m => d.fragment (SysEx.endIn message.group m.data)
  | .unknown _ => (d.countUnknown, .new)

/-- A selector pair and both halves of the value, each time. -/
def emitParameter (group channel bankController indexController bank index : BitVec 8)
    (data : BitVec 32) : Option (Translation Event) :=
  let value := U14.mask (down32to14 data)
  [(bankController, bank), (indexController, index), (6, value.high.val), (38, value.low.val)].foldlM
    (fun (output : Translation Event) cv =>
      output.push (.midi1Cv (.mkControlChange group channel cv.1 cv.2))) .new

def translateProgram (group channel : BitVec 8) (m : Cv2.ProgramChange) :
    Option (Translation Event) :=
  let banked : Option (Translation Event) :=
    match m.bank with
    | some bank =>
      (Translation.new.push (.midi1Cv (.mkControlChange group channel 0 bank.high.val))).bind
        fun o => o.push (.midi1Cv (.mkControlChange group channel 32 bank.low.val))
    | none => some .new
  banked.bind fun o => o.push (.midi1Cv (.mkProgramChange group channel m.program.val))

def translateCv (message : Midi2Cv) : Option (DownTranslator × Translation Event) :=
  let group := message.group
  let channel := message.channel
  match message with
  | .noteOff m =>
    some (d.countAttributeLoss m.attributeType m.attributeData,
      .one (.midi1Cv (.mkNoteOff group channel m.note.val (down16to7 m.velocity))))
  | .noteOn m =>
    let velocity := down16to7 m.velocity
    some (d.countAttributeLoss m.attributeType m.attributeData,
      .one (.midi1Cv (.mkNoteOn group channel m.note.val (if velocity ≤ 1 then 1 else velocity))))
  | .polyPressure m =>
    some (d, .one (.midi1Cv (.mkPolyPressure group channel m.note.val (down32to7 m.data))))
  | .controlChange m =>
    some (d, .one (.midi1Cv (.mkControlChange group channel m.controller.val (down32to7 m.data))))
  | .registeredController m =>
    (emitParameter group channel 101 100 m.bank.val m.index.val m.data).map fun o => (d, o)
  | .assignableController m =>
    (emitParameter group channel 99 98 m.bank.val m.index.val m.data).map fun o => (d, o)
  | .programChange m => (translateProgram group channel m).map fun o => (d, o)
  | .channelPressure m =>
    some (d, .one (.midi1Cv (.mkChannelPressure group channel (down32to7 m.data))))
  | .pitchBend m => some (d, .one (.midi1Cv (.mkPitchBend group channel (down32to14 m.data))))
  | .registeredPerNoteController _ =>
    some (⟨{ d.dropped with perNoteControllers := increment d.dropped.perNoteControllers }⟩, .new)
  | .assignablePerNoteController _ =>
    some (⟨{ d.dropped with perNoteControllers := increment d.dropped.perNoteControllers }⟩, .new)
  | .perNotePitchBend _ =>
    some (⟨{ d.dropped with perNotePitchBend := increment d.dropped.perNotePitchBend }⟩, .new)
  | .perNoteManagement _ =>
    some (⟨{ d.dropped with perNoteManagement := increment d.dropped.perNoteManagement }⟩, .new)
  | .relativeRegisteredController _ =>
    some (⟨{ d.dropped with relativeControllers := increment d.dropped.relativeControllers }⟩, .new)
  | .relativeAssignableController _ =>
    some (⟨{ d.dropped with relativeControllers := increment d.dropped.relativeControllers }⟩, .new)
  | .unknown _ => some (d.countUnknown, .new)

def translate : Message → Option (DownTranslator × Translation Event)
  | .utility m => some (d.translateUtility m)
  | .system m => some (d.translateSystem m)
  | .midi1Cv (.unknown _) => some (d.countUnknown, .new)
  | .midi1Cv m => some (d, .one (.midi1Cv m))
  | .sysEx7 m => some (d.translateSysex m)
  | .midi2Cv m => d.translateCv m
  | .data128 _ => some (⟨{ d.dropped with data128 := increment d.dropped.data128 }⟩, .new)
  | .unknown _ => some (d.countUnknown, .new)

def translateAll (d : DownTranslator) : List Message → Option (DownTranslator × List Event)
  | [] => some (d, [])
  | m :: ms =>
    (d.translate m).bind fun r => (r.1.translateAll ms).map fun r' => (r'.1, r.2.items ++ r'.2)

end DownTranslator

end Cosmix.Musicd
