/- source: cosmix-musicd/src/midi2/up.rs, bytestream.rs
   digest: Up and down again is the canonical form, for every byte string. -/

import Cosmix.Musicd.Wire
import Mathlib.Data.List.FinRange

namespace Cosmix.Musicd

open List
open Function (update update_self update_of_ne)

namespace Canonical

def Selection.up (s : Selection) : Up.Selection := ⟨s.kind, s.msb, s.lsb⟩

def Selector.up (s : Selector) : Up.Selector := ⟨s.kind, s.msb, s.lsb⟩

def PendingData.up (d : PendingData) : Up.PendingData := ⟨d.selection.up, d.msb⟩

def ChannelState.up (s : ChannelState) : Up.ChannelState :=
  ⟨s.selector.map Selector.up, s.pendingData.map PendingData.up, s.bankMsb, s.bankLsb⟩

theorem currentSelection_up (s : ChannelState) :
    Up.currentSelection s.up = (currentSelection s).map Selection.up := by
  obtain ⟨selector, _, _, _⟩ := s
  cases selector with
  | none => rfl
  | some selector =>
    obtain ⟨_, msb, lsb⟩ := selector
    cases msb with
    | none => rfl
    | some =>
      cases lsb with
      | none => rfl
      | some =>
        simp only [Up.currentSelection, currentSelection, ChannelState.up, Selector.up, Option.map_some,
          Option.bind_some]
        split <;> rfl

end Canonical

/-- The two machines have taken the same events. -/
def Mirrors (t : UpTranslator) (states : Canonical.States) : Prop :=
  ∀ key, t.states key = (states key).up

/-- Only this channel may wait for a data entry's lower half. -/
def OnlyAt (key : Fin 256) (states : Canonical.States) : Prop :=
  ∀ k, (states k).pendingData ≠ none → k = key

/-- At most one channel waits for a data entry's lower half. -/
def Single (states : Canonical.States) : Prop :=
  ∃ key, OnlyAt key states

section

variable {t : UpTranslator} {states : Canonical.States}

theorem UpTranslator.states_set (t : UpTranslator) (key : Fin 256) (state : Up.ChannelState)
    (k : Fin 256) : (t.set key state).states k = update t.states key state k := rfl

theorem pendingData_cleared (states : Canonical.States) (key k : Fin 256) :
    (update states key { states key with pendingData := none } k).pendingData =
      if k = key then none else (states k).pendingData := by
  split
  · next hk => rw [hk, update_self]
  · next hk => rw [update_of_ne hk]

variable (h : Mirrors t states)
include h

theorem Mirrors.set (key : Fin 256) {state : Up.ChannelState}
    {state' : Canonical.ChannelState} (hstate : state = state'.up) :
    Mirrors (t.set key state) (update states key state') := by
  intro k
  by_cases hk : k = key
  · rw [hk, UpTranslator.states_set, update_self, update_self, hstate]
  · rw [UpTranslator.states_set, update_of_ne hk, update_of_ne hk]
    exact h k

theorem Mirrors.pending (key : Fin 256) :
    (t.states key).pendingData = (states key).pendingData.map Canonical.PendingData.up := by
  rw [h key]
  rfl

theorem Mirrors.updateSelector (key : Fin 256) (kind : ParameterKind) (isMsb : Bool) (value : U7) :
    Mirrors (t.updateSelector key kind isMsb value)
      (update states key (Canonical.updateSelector (states key) kind isMsb value)) := by
  refine h.set key ?_
  rw [h key]
  obtain ⟨selector, _, _, _⟩ := states key
  cases selector <;> cases isMsb <;> rfl

theorem Mirrors.dataLsbKey (event : Event) :
    t.dataLsbKey event = Canonical.dataLsbKey event states := by
  unfold UpTranslator.dataLsbKey Canonical.dataLsbKey
  rcases event with message | system | sysEx
  · cases message with
    | controlChange =>
      dsimp only
      rw [h.pending, Option.map_map]
      rfl
    | _ => rfl
  · rfl
  · rfl

omit h

theorem OnlyAt.update {key : Fin 256} (h : OnlyAt key states) (state : Canonical.ChannelState) :
    OnlyAt key (update states key state) := by
  intro k hk
  by_cases heq : k = key
  · exact heq
  · rw [update_of_ne heq] at hk
    exact h k hk

end

/-- What the two machines have flushed so far: at most one message, and then nothing waits. -/
structure Flushed (acc : UpTranslator × Translation Message) (acc' : Canonical.States × List TimedEvent) :
    Prop where
  mirrors : Mirrors acc.1 acc'.1
  single : Single acc'.1
  wires : Wires acc.2.items (acc'.2.map TimedEvent.event)
  short : acc.2.items = [] ∨ acc.2.items.length = 1 ∧ ∀ k, (acc'.1 k).pendingData = none

section

variable {acc : UpTranslator × Translation Message} {acc' : Canonical.States × List TimedEvent}

theorem Translation.push_of_lt {T : Type} {output : Translation T} (item : T)
    (h : output.items.length < 4) : ∃ o, output.push item = some o ∧ o.items = output.items ++ [item] :=
  ⟨_, dif_pos h, rfl⟩

theorem Flushed.one (h : Flushed acc acc') (except : Option (Fin 256)) (key : Fin 256) :
    ∃ r, UpTranslator.flushOne except acc key = some r ∧
      Flushed r (Canonical.flushOne except acc' key) := by
  have hpending := h.mirrors.pending key
  unfold UpTranslator.flushOne Canonical.flushOne
  split
  · exact ⟨acc, rfl, h⟩
  cases hdata : (acc'.1 key).pendingData with
  | none =>
    rw [hdata] at hpending
    rw [hpending]
    exact ⟨acc, rfl, h⟩
  | some data =>
    rw [hdata] at hpending
    rw [hpending]
    -- the only channel that waits, so nothing was flushed before
    have hempty : acc.2.items = [] := by
      rcases h.short with hnil | ⟨-, hnone⟩
      · exact hnil
      · rw [hnone key] at hdata
        cases hdata
    have hroom : acc.2.items.length < 4 := by
      rw [hempty]
      decide
    obtain ⟨o, ho, hitems⟩ := Translation.push_of_lt
      (Up.parameter (keyGroup key) (keyChannel key) data.up (U7.mask 0)) hroom
    obtain ⟨only, honly⟩ := h.single
    have hkey : key = only := honly key (by rw [hdata]; exact Option.some_ne_none _)
    refine ⟨(acc.1.set key { acc.1.states key with pendingData := none }, o), ?_, ?_, ⟨only, ?_⟩, ?_, .inr ⟨?_, ?_⟩⟩
    · change Option.map _ (acc.2.push _) = _
      rw [ho]
      rfl
    · refine h.mirrors.set key ?_
      rw [h.mirrors key]
      rfl
    · rw [hkey]
      exact honly.update _
    · rw [hitems, map_append]
      exact h.wires.append (wires_parameter _ _ data _)
    · rw [hitems, hempty]
      rfl
    · intro k
      refine (pendingData_cleared acc'.1 key k).trans ?_
      split
      · rfl
      · next hk =>
        by_contra hsome
        exact hk ((honly k hsome).trans hkey.symm)

theorem Flushed.fold (h : Flushed acc acc') (except : Option (Fin 256)) (keys : List (Fin 256)) :
    ∃ r, keys.foldlM (UpTranslator.flushOne except) acc = some r ∧
      Flushed r (keys.foldl (Canonical.flushOne except) acc') := by
  induction keys generalizing acc acc' with
  | nil => exact ⟨acc, rfl, h⟩
  | cons key keys ih =>
    obtain ⟨r, hr, hflushed⟩ := h.one except key
    obtain ⟨r', hr', hflushed'⟩ := ih hflushed
    refine ⟨r', ?_, hflushed'⟩
    rw [foldlM_cons, hr]
    exact hr'

end

theorem flushOne_pending (except : Option (Fin 256)) (acc : Canonical.States × List TimedEvent)
    (key k : Fin 256) (h : ((Canonical.flushOne except acc key).1 k).pendingData ≠ none) :
    (acc.1 k).pendingData ≠ none ∧ (k = key → some k = except) := by
  unfold Canonical.flushOne at h
  split at h
  · next hexcept => exact ⟨h, fun hk => hk ▸ hexcept⟩
  split at h
  · next hnone =>
    refine ⟨h, fun hk => ?_⟩
    rw [hk] at h
    exact absurd hnone h
  · have hclear := pendingData_cleared acc.1 key k
    rw [hclear] at h
    split at h
    · exact absurd rfl h
    · next hk => exact ⟨h, fun hc => absurd hc hk⟩

theorem foldl_flushOne_pending (except : Option (Fin 256)) (keys : List (Fin 256))
    (acc : Canonical.States × List TimedEvent) (k : Fin 256)
    (h : ((keys.foldl (Canonical.flushOne except) acc).1 k).pendingData ≠ none) :
    (acc.1 k).pendingData ≠ none ∧ (k ∈ keys → some k = except) := by
  induction keys generalizing acc with
  | nil => exact ⟨h, nofun⟩
  | cons key keys ih =>
    obtain ⟨hbefore, hmem⟩ := ih _ h
    obtain ⟨hfirst, hkey⟩ := flushOne_pending except acc key k hbefore
    refine ⟨hfirst, fun hk => ?_⟩
    rcases mem_cons.mp hk with hk | hk
    · exact hkey hk
    · exact hmem hk

variable {states : Canonical.States}

theorem flushed_start {t : UpTranslator} (h : Mirrors t states)
    (hsingle : Single states) : Flushed (t, .new) (states, []) :=
  ⟨h, hsingle, wires_nil, .inl rfl⟩

/-- The up-translator returns with some messages more, which stand for what the canonicaliser emits. -/
def Follows (r : Option (UpTranslator × Translation Message)) (o : Translation Message)
    (r' : Canonical.States × List TimedEvent) : Prop :=
  ∃ t o' ms, r = some (t, o') ∧ o'.items = o.items ++ ms ∧ Mirrors t r'.1 ∧ Single r'.1 ∧
    Wires ms (r'.2.map TimedEvent.event)

section

variable {t : UpTranslator} {o : Translation Message} {states : Canonical.States}

theorem follows_quiet (hm : Mirrors t states) (hs : Single states) :
    Follows (some (t, o)) o (states, []) :=
  ⟨t, o, [], rfl, (append_nil _).symm, hm, hs, wires_nil⟩

theorem follows_push (hroom : o.items.length < 4) {m : Message} {es : List TimedEvent}
    (hm : Mirrors t states) (hs : Single states) (hw : Wires [m] (es.map TimedEvent.event)) :
    Follows ((o.push m).map fun o => (t, o)) o (states, es) := by
  obtain ⟨o', ho', hitems⟩ := Translation.push_of_lt m hroom
  refine ⟨t, o', [m], ?_, hitems, hm, hs, hw⟩
  rw [ho']
  rfl

theorem translateCc_follows (hroom : o.items.length < 4) (control : Cv1.ControlChange) (tick : Nat)
    (hm : Mirrors t states) (honly : OnlyAt (stateKey (Midi1Cv.controlChange control).group
      (Midi1Cv.controlChange control).channel) states) :
    Follows (t.translateCc (Midi1Cv.controlChange control).group
        (Midi1Cv.controlChange control).channel control.controller control.value o) o
      (Canonical.canonicalizeCc (.controlChange control) control tick states) := by
  have hplain := wires_plainCc control
  unfold UpTranslator.translateCc Canonical.canonicalizeCc
  dsimp only
  generalize stateKey (Midi1Cv.controlChange control).group
    (Midi1Cv.controlChange control).channel = key at honly
  have hstate := hm key
  generalize control.controller.val.toNat = number
  split
  iterate 4
    · exact follows_quiet (hm.updateSelector key _ _ _) ⟨key, honly.update _⟩
  · rw [hstate, Canonical.currentSelection_up]
    cases Canonical.currentSelection (states key) with
    | none => exact follows_push hroom hm ⟨key, honly⟩ hplain
    | some => exact follows_quiet (hm.set key rfl) ⟨key, honly.update _⟩
  · rw [hm.pending key]
    cases (states key).pendingData with
    | none => exact follows_push hroom hm ⟨key, honly⟩ hplain
    | some data =>
      refine follows_push hroom (hm.set key ?_) ⟨key, honly.update _⟩ (wires_parameter _ _ data _)
      rw [hstate]
      rfl
  iterate 2
    · refine follows_quiet (hm.set key ?_) ⟨key, honly.update _⟩
      rw [hstate]
      rfl
  · -- any other controller, in both machines
    repeat' split
    all_goals first | exact follows_push hroom hm ⟨key, honly⟩ hplain | contradiction

theorem translateCv_follows (hroom : o.items.length < 4) {message : Midi1Cv}
    (hknown : (Event.midi1Cv message).known = true) (tick : Nat) (hm : Mirrors t states)
    (honly : OnlyAt (stateKey message.group message.channel) states) :
    Follows (t.translateCv message o) o (Canonical.canonicalizeCv message tick states) := by
  cases message with
  | noteOff m => exact follows_push hroom hm ⟨_, honly⟩ (wires_noteOff m)
  | noteOn m =>
    rw [UpTranslator.translateCv, Canonical.canonicalizeCv]
    split
    · exact follows_push hroom hm ⟨_, honly⟩ (wires_noteOn_zero m)
    · next hvalue => exact follows_push hroom hm ⟨_, honly⟩ (wires_noteOn hvalue)
  | polyPressure m => exact follows_push hroom hm ⟨_, honly⟩ (wires_polyPressure m)
  | controlChange m => exact translateCc_follows hroom m tick hm honly
  | programChange m =>
    have hstate := hm (stateKey (Midi1Cv.programChange m).group (Midi1Cv.programChange m).channel)
    rw [UpTranslator.translateCv, Canonical.canonicalizeCv]
    rw [hstate]
    dsimp only [Canonical.ChannelState.up]
    rcases (states _).bankMsb with - | msb
    · exact follows_push hroom hm ⟨_, honly⟩ (wires_program m)
    rcases (states _).bankLsb with - | lsb
    · exact follows_push hroom hm ⟨_, honly⟩ (wires_program m)
    · exact follows_push hroom (hm.set _ rfl) ⟨_, honly.update _⟩ (wires_banked m msb lsb)
  | channelPressure m => exact follows_push hroom hm ⟨_, honly⟩ (wires_channelPressure m)
  | pitchBend m => exact follows_push hroom hm ⟨_, honly⟩ (wires_pitchBend m)
  | unknown => cases hknown

theorem dataLsbKey_cv {message : Midi1Cv} {key : Fin 256}
    (h : Canonical.dataLsbKey (.midi1Cv message) states = some key) :
    key = stateKey message.group message.channel := by
  cases message with
  | controlChange =>
    rw [Canonical.dataLsbKey] at h
    split at h
    · cases h
    · obtain ⟨d, -, hd⟩ := Option.map_eq_some_iff.mp h
      exact hd.symm
  | _ => cases h

theorem translate_follows {event : Event} (hknown : event.known = true) (tick : Nat)
    (hm : Mirrors t states) (hsingle : Single states) :
    Follows (t.translate event) .new (Canonical.step states ⟨tick, event⟩) := by
  unfold UpTranslator.translate Canonical.step
  split
  · next hreal =>
    cases event with
    | system => exact follows_push (by decide) hm hsingle (wires_system hknown)
    | midi1Cv | sysEx => cases hreal
  · obtain ⟨⟨t₁, o₁⟩, hflush, hflushed⟩ :=
      (flushed_start hm hsingle).fold (t.dataLsbKey event) (finRange 256)
    rw [UpTranslator.flushPendingData, hflush]
    rw [hm.dataLsbKey] at hflushed
    have hpending : ∀ k, ((Canonical.flushPendingData states
        (Canonical.dataLsbKey event states)).1 k).pendingData ≠ none →
        some k = Canonical.dataLsbKey event states := fun k hk =>
      (foldl_flushOne_pending _ _ _ k hk).2 (mem_finRange k)
    change Flushed (t₁, o₁) (Canonical.flushPendingData states (Canonical.dataLsbKey event states))
      at hflushed
    generalize Canonical.flushPendingData states (Canonical.dataLsbKey event states) = flushed
      at hflushed hpending ⊢
    have hroom : o₁.items.length < 4 := by
      rcases hflushed.short with hnil | ⟨hone, -⟩
      · rw [show o₁.items = [] from hnil]
        decide
      · rw [show o₁.items.length = 1 from hone]
        decide
    -- what the event itself sends comes after what was flushed
    have hafter : ∀ {r : Option (UpTranslator × Translation Message)}
        {r' : Canonical.States × List TimedEvent}, Follows r o₁ r' →
        Follows r .new (r'.1, flushed.2 ++ r'.2) := by
      rintro r r' ⟨t', o', ms, hr, hitems, hm', hs', hw⟩
      refine ⟨t', o', o₁.items ++ ms, hr, hitems, hm', hs', ?_⟩
      rw [map_append]
      exact hflushed.wires.append hw
    cases event with
    | midi1Cv =>
      refine hafter (translateCv_follows hroom hknown tick hflushed.mirrors fun k hk => ?_)
      exact dataLsbKey_cv (hpending k hk).symm
    | system s =>
      have hone : Wires [.system s] ([⟨tick, .system s⟩].map TimedEvent.event) := wires_system hknown
      exact hafter (follows_push hroom hflushed.mirrors hflushed.single hone)
    | sysEx x =>
      obtain ⟨m, hx, hw⟩ := sysex7_wires x
      have hone : Wires [.sysEx7 m] ([⟨tick, .sysEx x⟩].map TimedEvent.event) := hw
      dsimp only
      rw [hx]
      exact hafter (follows_push hroom hflushed.mirrors hflushed.single hone)

theorem translateAll_follows {events : List Event} (hknown : ∀ e ∈ events, e.known = true)
    (tick : Nat) (hm : Mirrors t states) (hsingle : Single states) :
    ∃ t' ms t'' last, t.translateAll events = some (t', ms) ∧ t'.flush = some (t'', last) ∧
      Wires (ms ++ last.items)
        ((Canonical.run states (events.map fun e => ⟨tick, e⟩)).map TimedEvent.event) := by
  induction events generalizing t states with
  | nil =>
    obtain ⟨r, hflush, hflushed⟩ := (flushed_start hm hsingle).fold none (finRange 256)
    refine ⟨t, [], .new, r.2, rfl, ?_, hflushed.wires⟩
    rw [UpTranslator.flush, UpTranslator.flushPendingData, hflush]
    rfl
  | cons e es ih =>
    obtain ⟨_, o₁, _, htr, hitems, hm₁, hs₁, hw₁⟩ :=
      translate_follows (hknown e mem_cons_self) tick hm hsingle
    obtain ⟨t', ms, t'', last, hall, hflush, hw⟩ :=
      ih (fun x hx => hknown x (mem_cons_of_mem e hx)) hm₁ hs₁
    refine ⟨t', o₁.items ++ ms, t'', last, ?_, hflush, ?_⟩
    · rw [UpTranslator.translateAll, htr, Option.bind_some, hall]
      rfl
    · rw [map_cons, Canonical.run, map_append, append_assoc, hitems]
      exact hw₁.append hw

theorem Single.dataEntries (hm : Mirrors t states) (h : Single states) :
    t.pending.dataEntries ≤ 1 := by
  obtain ⟨key, honly⟩ := h
  have hle : ∀ k ∈ finRange 256, (t.states k).pendingData.isSome → (k == key) = true := by
    intro k _ hk
    rw [hm.pending, Option.isSome_map] at hk
    exact beq_iff_eq.mpr (honly k (Option.isSome_iff_ne_none.mp hk))
  calc t.pending.dataEntries ≤ (finRange 256).countP (· == key) := countP_mono_left hle
    _ = 1 := count_eq_one_of_mem (nodup_finRange 256) (mem_finRange key)

/-- The states between events are mirrored and have one channel waiting at most. -/
theorem translateAll_single {events : List Event} (hknown : ∀ e ∈ events, e.known = true)
    (hm : Mirrors t states) (hsingle : Single states) :
    ∃ t' ms states', t.translateAll events = some (t', ms) ∧ Mirrors t' states' ∧ Single states' := by
  induction events generalizing t states with
  | nil => exact ⟨t, [], states, rfl, hm, hsingle⟩
  | cons e es ih =>
    obtain ⟨_, o₁, _, htr, -, hm₁, hs₁, -⟩ :=
      translate_follows (hknown e mem_cons_self) 0 hm hsingle
    obtain ⟨t', ms, states', hall, hm', hs'⟩ :=
      ih (fun x hx => hknown x (mem_cons_of_mem e hx)) hm₁ hs₁
    refine ⟨t', o₁.items ++ ms, states', ?_, hm', hs'⟩
    rw [UpTranslator.translateAll, htr, Option.bind_some, hall]
    rfl

end

namespace Canonical

def From (tick : Nat) (states : States) : Prop :=
  ∀ k d, (states k).pendingData = some d → d.sourceTick = tick

def At (tick : Nat) (es : List TimedEvent) : Prop := ∀ e ∈ es, e.tick = tick

variable {tick : Nat} {states : States}

theorem At.append {xs ys : List TimedEvent} (hx : At tick xs) (hy : At tick ys) :
    At tick (xs ++ ys) := fun e he =>
  (mem_append.mp he).elim (hx e) (hy e)

theorem at_one (tick : Nat) (e : Event) : At tick [⟨tick, e⟩] := fun x hx => by
  rw [mem_singleton.mp hx]

theorem emitParameter_at {d : PendingData} (h : d.sourceTick = tick) (group channel : BitVec 8)
    (lsb : U7) : At tick (emitParameter group channel d lsb) := by
  intro e he
  obtain ⟨_, -, rfl⟩ := mem_map.mp he
  exact h

theorem From.update (h : From tick states) (key : Fin 256) {state : ChannelState}
    (hstate : ∀ d, state.pendingData = some d → d.sourceTick = tick) :
    From tick (update states key state) := by
  intro k d hd
  by_cases hk : k = key
  · rw [hk, update_self] at hd
    exact hstate d hd
  · rw [update_of_ne hk] at hd
    exact h k d hd

/-- What a section leaves waiting and what it emits are of one tick. -/
def Dated (tick : Nat) (r : States × List TimedEvent) : Prop := From tick r.1 ∧ At tick r.2

theorem flushOne_dated {acc : States × List TimedEvent} (h : Dated tick acc)
    (except : Option (Fin 256)) (key : Fin 256) : Dated tick (flushOne except acc key) := by
  unfold flushOne
  split
  · exact h
  split
  · exact h
  · next data hdata =>
    exact ⟨h.1.update key nofun, h.2.append (emitParameter_at (h.1 key data hdata) _ _ _)⟩

variable (h : From tick states)
include h

theorem flushPendingData_dated (except : Option (Fin 256)) :
    Dated tick (flushPendingData states except) := by
  unfold flushPendingData
  generalize finRange 256 = keys
  have hacc : Dated tick (states, []) := ⟨h, nofun⟩
  generalize (states, ([] : List TimedEvent)) = acc at hacc
  induction keys generalizing acc with
  | nil => exact hacc
  | cons key keys ih => exact ih _ (flushOne_dated hacc except key)

theorem canonicalizeCc_dated (message : Midi1Cv)
    (control : Cv1.ControlChange) : Dated tick (canonicalizeCc message control tick states) := by
  have hplain : Dated tick (states, [⟨tick, .midi1Cv message⟩]) := ⟨h, at_one tick _⟩
  unfold canonicalizeCc
  dsimp only
  generalize stateKey message.group message.channel = key
  have hkey := h key
  split
  iterate 4
    · exact ⟨h.update key hkey, nofun⟩
  · split
    · refine ⟨h.update key ?_, nofun⟩
      rintro d ⟨⟩
      rfl
    · exact hplain
  · split
    · next data hdata => exact ⟨h.update key nofun, emitParameter_at (hkey data hdata) _ _ _⟩
    · exact hplain
  · exact ⟨h.update key hkey, nofun⟩
  · exact ⟨h.update key hkey, nofun⟩
  · exact hplain

theorem canonicalizeCv_dated (message : Midi1Cv) :
    Dated tick (canonicalizeCv message tick states) := by
  unfold canonicalizeCv
  dsimp only
  split
  · split
    · exact ⟨h, at_one tick _⟩
    · exact ⟨h, at_one tick _⟩
  · exact canonicalizeCc_dated h _ _
  · split
    · refine ⟨h.update _ (h _), fun e he => ?_⟩
      simp only [mem_cons, not_mem_nil, or_false] at he
      rcases he with rfl | rfl | rfl <;> rfl
    · exact ⟨h, at_one tick _⟩
  · exact ⟨h, at_one tick _⟩

theorem step_dated (event : Event) : Dated tick (step states ⟨tick, event⟩) := by
  have hflushed : Dated tick (if isRealtimeEvent event then (states, [])
      else flushPendingData states (dataLsbKey event states)) := by
    split
    · exact ⟨h, nofun⟩
    · exact flushPendingData_dated h _
  unfold step
  dsimp only
  split
  · next message =>
    obtain ⟨hfrom, hat⟩ := canonicalizeCv_dated hflushed.1 message
    exact ⟨hfrom, hflushed.2.append hat⟩
  · exact ⟨hflushed.1, hflushed.2.append (at_one tick _)⟩

theorem run_at (events : List Event) : At tick (run states (events.map fun e => ⟨tick, e⟩)) := by
  induction events generalizing states with
  | nil => exact (flushPendingData_dated h none).2
  | cons e es ih =>
    obtain ⟨hfrom, hat⟩ := step_dated h e
    exact hat.append (ih hfrom)

omit h

end Canonical

theorem canonicalizeEvents_eq (events : List Event) : canonicalizeEvents events =
      (Canonical.run (fun _ => .default) (events.map fun e => ⟨0, e⟩)).map TimedEvent.event := by
  have hfrom : Canonical.From 0 fun _ => .default := nofun
  have hat := Canonical.run_at hfrom events
  rw [canonicalizeEvents, canonicalizeTimed, mergeSort_of_pairwise]
  refine pairwise_of_forall_mem_list fun a ha b hb => ?_
  rw [hat a ha]
  rfl

/-- The round trip through MIDI 2.0 is the canonical form. -/
theorem up_down_canonical (bytes : List (BitVec 8)) : ∃ raw t messages t' last d back wire,
      parseRaw bytes = some raw ∧
      UpTranslator.new.translateAll raw.events = some (t, messages) ∧ t.flush = some (t', last) ∧
      DownTranslator.new.translateAll (messages ++ last.items) = some (d, back) ∧
      serialize back = .ok wire ∧ canonicalize bytes = some wire ∧
      ∀ pre, pre <+: raw.events → ∃ t ms, UpTranslator.new.translateAll pre = some (t, ms) ∧
        t.pending.dataEntries ≤ 1 ∧
        ∀ except n, ∃ r, ((finRange 256).take n).foldlM (UpTranslator.flushOne except) (t, .new) =
          some r ∧ r.1.pending.dataEntries ≤ 1 := by
  obtain ⟨raw, hraw, hknown⟩ := parseRaw_known bytes
  have hmirrors : Mirrors .new (fun _ => .default) := fun _ => rfl
  have hsingle : Single fun _ => .default := ⟨0, fun k hk => absurd rfl hk⟩
  obtain ⟨t, messages, t', last, hall, hflush, hwires⟩ :=
    translateAll_follows hknown 0 hmirrors hsingle
  obtain ⟨d, back, hdown, hback⟩ := hwires.sent .new
  obtain ⟨wire, hwire⟩ := serialize_known hwires.known
  refine ⟨raw, t, messages, t', last, d, back, wire, hraw, hall, hflush, hdown, hback.trans hwire, ?_,
    fun pre hpre => ?_⟩
  · rw [canonicalize, parse, hraw, Option.map_some, Option.bind_some, canonicalizeEvents_eq, hwire]
    rfl
  · obtain ⟨t₁, ms, _, hpre', hm₁, hs₁⟩ :=
      translateAll_single (fun e he => hknown e (hpre.subset he)) hmirrors hsingle
    refine ⟨t₁, ms, hpre', hs₁.dataEntries hm₁, fun except n => ?_⟩
    obtain ⟨r, hr, hflushed⟩ := (flushed_start hm₁ hs₁).fold except ((finRange 256).take n)
    exact ⟨r, hr, hflushed.single.dataEntries hflushed.mirrors⟩

end Cosmix.Musicd
