/- source: cosmix-musicd/src/midi2/bytestream.rs, down.rs
   digest: What the down-translator makes of each message of the up-translator. -/

import Cosmix.Musicd.Translate

namespace Cosmix.Musicd

open List
open Midi1Cv (noteOff noteOn polyPressure controlChange mkControlChange pitchBend programChange)

theorem serialize_append (xs ys : List Event) :
    serialize (xs ++ ys) = (serialize xs).bind fun a => (serialize ys).map fun b => a ++ b := by
  induction xs with
  | nil =>
    rw [nil_append]
    cases serialize ys <;> rfl
  | cons x xs ih =>
    rw [cons_append, serialize, serialize]
    cases serializeEvent x with
    | error => rfl
    | ok a =>
      rw [ih]
      cases serialize xs with
      | error => rfl
      | ok b =>
        cases serialize ys with
        | error => rfl
        | ok c => exact congrArg Except.ok (append_assoc a b c).symm

theorem serializeEvent_known {e : Event} (h : e.known = true) : ∃ bytes, serializeEvent e = .ok bytes := by
  cases e with
  | midi1Cv m | system m => cases m <;> first | exact ⟨_, rfl⟩ | cases h
  | sysEx => exact ⟨_, rfl⟩

variable {es : List Event}

theorem serialize_known (h : ∀ e ∈ es, e.known = true) : ∃ bytes, serialize es = .ok bytes := by
  induction es with
  | nil => exact ⟨[], rfl⟩
  | cons e es ih =>
    obtain ⟨a, ha⟩ := serializeEvent_known (h e mem_cons_self)
    obtain ⟨b, hb⟩ := ih fun x hx => h x (mem_cons_of_mem e hx)
    exact ⟨a ++ b, by rw [serialize, ha, hb]; rfl⟩

theorem serialize_singleton (e : Event) : serialize [e] = serializeEvent e := by
  rw [serialize]
  cases serializeEvent e with
  | error => rfl
  | ok bytes => exact congrArg Except.ok (append_nil bytes)

/-- Translated down, the messages are events with the same bytes as the given ones. -/
structure Wires (ms : List Message) (es : List Event) : Prop where
  known : ∀ e ∈ es, e.known = true
  sent : ∀ d : DownTranslator, ∃ d' back, d.translateAll ms = some (d', back) ∧
    serialize back = serialize es

theorem wires_nil : Wires [] [] := ⟨nofun, fun d => ⟨d, [], rfl, rfl⟩⟩

theorem wires_one {m : Message} (hknown : ∀ e ∈ es, e.known = true)
    (h : ∀ d : DownTranslator, ∃ d' back, d.translate m = some (d', back) ∧
      serialize back.items = serialize es) : Wires [m] es := by
  refine ⟨hknown, fun d => ?_⟩
  obtain ⟨d', back, hd, hback⟩ := h d
  refine ⟨d', back.items, ?_, hback⟩
  rw [DownTranslator.translateAll, hd, Option.bind_some, DownTranslator.translateAll, Option.map_some,
    append_nil]

theorem DownTranslator.translateAll_append (d : DownTranslator) (xs ys : List Message) :
    d.translateAll (xs ++ ys) = (d.translateAll xs).bind fun r =>
      (r.1.translateAll ys).map fun r' => (r'.1, r.2 ++ r'.2) := by
  induction xs generalizing d with
  | nil =>
    rw [nil_append, translateAll, Option.bind_some]
    cases d.translateAll ys <;> rfl
  | cons x xs ih =>
    rw [cons_append, translateAll, translateAll]
    cases d.translate x with
    | none => rfl
    | some r =>
      rw [Option.bind_some, Option.bind_some, ih]
      cases r.1.translateAll xs with
      | none => rfl
      | some r' =>
        rw [Option.bind_some, Option.map_some, Option.bind_some]
        cases r'.1.translateAll ys with
        | none => rfl
        | some r'' => exact congrArg (fun l => some (r''.1, l)) (append_assoc _ _ _).symm

theorem Wires.append {ms ms' : List Message} {es' : List Event} (h : Wires ms es)
    (h' : Wires ms' es') : Wires (ms ++ ms') (es ++ es') := by
  refine ⟨fun e he => ?_, fun d => ?_⟩
  · rcases mem_append.mp he with he | he
    · exact h.known e he
    · exact h'.known e he
  · obtain ⟨d₁, back₁, hd₁, hs₁⟩ := h.sent d
    obtain ⟨d₂, back₂, hd₂, hs₂⟩ := h'.sent d₁
    refine ⟨d₂, back₁ ++ back₂, ?_, ?_⟩
    · rw [DownTranslator.translateAll_append, hd₁, Option.bind_some, hd₂]
      rfl
    · rw [serialize_append, serialize_append, hs₁, hs₂]

section

/-- A Channel Voice message that the down-translator makes into one event of the same bytes. -/
theorem wires_voice {m : Midi2Cv} {v v' : Midi1Cv} (hknown : (Event.midi1Cv v).known = true)
    (hdown : ∀ d : DownTranslator, ∃ d', d.translateCv m = some (d', .one (.midi1Cv v')))
    (hbytes : serializeCv v' = serializeCv v) : Wires [.midi2Cv m] [.midi1Cv v] := by
  refine wires_one (fun e he => ?_) fun d => ?_
  · rw [mem_singleton.mp he]
    exact hknown
  · obtain ⟨d', hd⟩ := hdown d
    refine ⟨d', _, hd, ?_⟩
    change serialize [.midi1Cv v'] = _
    rw [serialize_singleton, serialize_singleton]
    exact hbytes

variable (n : Cv1.NoteMessage)

theorem wires_noteOff :
    Wires [.midi2Cv (.mkNoteOff (noteOff n).group (noteOff n).channel n.note.val
      (up7to16 n.value) 0 0)] [.midi1Cv (.noteOff n)] := by
  refine wires_voice rfl (fun d => ⟨_, rfl⟩) ?_
  simp [serializeCv, Midi1Cv.channel, Midi2Cv.channel, Midi1Cv.mkNoteOff, Midi2Cv.mkNoteOff,
    Midi1Cv.encode, Midi2Cv.encode, Midi1Cv.noteMessage, Midi2Cv.noteMessage]

theorem wires_noteOn_zero :
    Wires [.midi2Cv (.mkNoteOff (noteOn n).group (noteOn n).channel n.note.val 0x8000 0 0)]
      [.midi1Cv (.mkNoteOff (noteOn n).group (noteOn n).channel n.note.val 64)] := by
  have hhalf : down16to7 0x8000#16 = 64#8 := by decide
  refine wires_voice rfl (fun d => ⟨_, rfl⟩) ?_
  simp [serializeCv, Midi1Cv.channel, Midi2Cv.channel, Midi1Cv.mkNoteOff, Midi2Cv.mkNoteOff,
    Midi1Cv.encode, Midi2Cv.encode, Midi1Cv.noteMessage, Midi2Cv.noteMessage, hhalf]

theorem wires_noteOn {n : Cv1.NoteMessage} (hvalue : n.value.val ≠ 0) :
    Wires [.midi2Cv (.mkNoteOn (noteOn n).group (noteOn n).channel n.note.val
      (up7to16 n.value) 0 0)] [.midi1Cv (.noteOn n)] := by
  have hmax : (if n.value.val ≤ 1#8 then 1#8 else n.value.val) = n.value.val := by
    have hone : ∀ v : BitVec 8, v ≠ 0 → (if v ≤ 1#8 then 1#8 else v) = v := by decide +kernel
    exact hone n.value.val hvalue
  refine wires_voice rfl (fun d => ⟨_, rfl⟩) ?_
  simp [serializeCv, Midi1Cv.channel, Midi2Cv.channel, Midi1Cv.mkNoteOn, Midi2Cv.mkNoteOn,
    Midi1Cv.encode, Midi2Cv.encode, Midi1Cv.noteMessage, Midi2Cv.noteMessage, hmax]

theorem wires_polyPressure :
    Wires [.midi2Cv (.mkPolyPressure (polyPressure n).group (polyPressure n).channel
      n.note.val (up7to32 n.value))] [.midi1Cv (.polyPressure n)] := by
  refine wires_voice rfl (fun d => ⟨_, rfl⟩) ?_
  simp [serializeCv, Midi1Cv.channel, Midi2Cv.channel, Midi1Cv.mkPolyPressure,
    Midi2Cv.mkPolyPressure, Midi1Cv.encode, Midi2Cv.encode, Midi1Cv.noteMessage]

theorem wires_plainCc (c : Cv1.ControlChange) :
    Wires [Up.plainCc (controlChange c).group (controlChange c).channel c.controller
      c.value] [.midi1Cv (.controlChange c)] := by
  refine wires_voice rfl (fun d => ⟨_, rfl⟩) ?_
  simp [serializeCv, Midi1Cv.channel, Midi2Cv.channel, mkControlChange,
    Midi2Cv.mkControlChange, Midi1Cv.encode, Midi2Cv.encode]

theorem wires_channelPressure (m : Cv1.ChannelPressure) :
    Wires [.midi2Cv (.mkChannelPressure (Midi1Cv.channelPressure m).group
      (Midi1Cv.channelPressure m).channel (up7to32 m.pressure))] [.midi1Cv (.channelPressure m)] := by
  refine wires_voice rfl (fun d => ⟨_, rfl⟩) ?_
  simp [serializeCv, Midi1Cv.channel, Midi2Cv.channel, Midi1Cv.mkChannelPressure,
    Midi2Cv.mkChannelPressure, Midi1Cv.encode, Midi2Cv.encode]

theorem wires_pitchBend (m : Cv1.PitchBend) :
    Wires [.midi2Cv (.mkPitchBend (pitchBend m).group (pitchBend m).channel
      (up14to32 m.value))] [.midi1Cv (.pitchBend m)] := by
  refine wires_voice rfl (fun d => ⟨_, rfl⟩) ?_
  simp [serializeCv, Midi1Cv.channel, Midi2Cv.channel, Midi1Cv.mkPitchBend,
    Midi2Cv.mkPitchBend, Midi1Cv.encode, Midi2Cv.encode]

theorem wires_program (m : Cv1.ProgramChange) :
    Wires [.midi2Cv (.mkProgramChange (programChange m).group
      (programChange m).channel m.program.val none)] [.midi1Cv (.programChange m)] := by
  refine wires_voice rfl (fun d => ⟨_, rfl⟩) ?_
  simp [serializeCv, Midi1Cv.channel, Midi2Cv.channel, Midi1Cv.mkProgramChange,
    Midi2Cv.mkProgramChange, Midi1Cv.encode, Midi2Cv.encode]

theorem wires_banked (m : Cv1.ProgramChange) (msb lsb : U7) :
    let group := (programChange m).group
    let channel := (programChange m).channel
    Wires [.midi2Cv (.mkProgramChange group channel m.program.val (some (U14.join msb lsb).val))]
      [.midi1Cv (.mkControlChange group channel 0 msb.val),
        .midi1Cv (.mkControlChange group channel 32 lsb.val), .midi1Cv (.programChange m)] := by
  refine wires_one (fun e he => ?_) fun d => ⟨_, _, rfl, ?_⟩
  · simp only [mem_cons, not_mem_nil, or_false] at he
    rcases he with rfl | rfl | rfl <;> rfl
  · simp [serialize, serializeEvent, serializeCv, Midi1Cv.channel, Midi2Cv.channel,
      Midi1Cv.mkProgramChange, Midi2Cv.mkProgramChange, mkControlChange, Midi1Cv.encode,
      Midi2Cv.encode, Translation.new]

theorem wires_parameter (group channel : BitVec 8) (data : Canonical.PendingData) (lsb : U7) :
    Wires [Up.parameter group channel
        ⟨⟨data.selection.kind, data.selection.msb, data.selection.lsb⟩, data.msb⟩ lsb]
      ((Canonical.emitParameter group channel data lsb).map TimedEvent.event) := by
  obtain ⟨⟨kind, _, _⟩, _, _⟩ := data
  refine wires_one (fun e he => ?_) fun d => ?_
  · simp only [Canonical.emitParameter, map_cons, map_nil, mem_cons, not_mem_nil, or_false] at he
    rcases he with rfl | rfl | rfl | rfl <;> rfl
  · cases kind with
    | registered =>
      refine ⟨_, _, rfl, ?_⟩
      simp [Canonical.emitParameter, Midi2Cv.mkRegisteredController, Midi2Cv.controller, serialize,
        serializeEvent, serializeCv, Midi1Cv.channel, Midi2Cv.channel, mkControlChange,
        Midi1Cv.encode, Midi2Cv.encode, Translation.new, BitVec.and_assoc]
    | assignable =>
      refine ⟨_, _, rfl, ?_⟩
      simp [Canonical.emitParameter, Midi2Cv.mkAssignableController, Midi2Cv.controller, serialize,
        serializeEvent, serializeCv, Midi1Cv.channel, Midi2Cv.channel, mkControlChange,
        Midi1Cv.encode, Midi2Cv.encode, Translation.new, BitVec.and_assoc]

theorem wires_system {s : System} (h : (Event.system s).known = true) :
    Wires [.system s] [.system s] := by
  refine wires_one (fun e he => ?_) fun d => ?_
  · rw [mem_singleton.mp he]
    exact h
  · cases s <;> first | exact ⟨d, _, rfl, rfl⟩ | cases h

/-- A packet that comes back as a fragment of its kind carries the fragment's bytes. -/
theorem wires_fragment {m : SysEx7} (kind : SysExData → SysEx) (d : SysExData)
    (hdown : ∀ t : DownTranslator,
      t.translateSysex m = t.fragment ((SysExData.withGroup m.group d.data).map kind))
    (hbytes : ∀ d' : SysExData, d'.data = d.data → serializeSysex (kind d') = serializeSysex (kind d)) :
    Wires [.sysEx7 m] [.sysEx (kind d)] := by
  refine wires_one (fun e he => ?_) fun t => ⟨t, .one (.sysEx (kind ⟨m.group &&& 0xF, d.data, d.ok⟩)), ?_, ?_⟩
  · rw [mem_singleton.mp he]
    rfl
  · rw [DownTranslator.translate, hdown, withGroup_some _ d.ok]
    rfl
  · change serialize [.sysEx (kind ⟨m.group &&& 0xF, d.data, d.ok⟩)] = _
    rw [serialize_singleton, serialize_singleton]
    exact congrArg Except.ok (hbytes _ rfl)

theorem sysex7_wires (x : SysEx) : ∃ m, Up.sysex7 x = some m ∧ Wires [.sysEx7 m] [.sysEx x] := by
  cases x with
  | complete d =>
    refine ⟨_, if_pos d.ok, wires_fragment .complete d (fun t => rfl) fun d' hd => ?_⟩
    rw [serializeSysex, serializeSysex, hd]
  | start d =>
    refine ⟨_, if_pos d.ok, wires_fragment .start d (fun t => rfl) fun d' hd => ?_⟩
    rw [serializeSysex, serializeSysex, hd]
  | continue_ d => exact ⟨_, if_pos d.ok, wires_fragment .continue_ d (fun t => rfl) fun d' hd => hd⟩
  | end_ d =>
    refine ⟨_, if_pos d.ok, wires_fragment .end_ d (fun t => rfl) fun d' hd => ?_⟩
    rw [serializeSysex, serializeSysex, hd]

end

end Cosmix.Musicd
