/- source: cosmix-interaction-broker/src/dialog.rs
   digest: The joint invariant of the broker's lists and records; terminal transitions keep it. -/

import Cosmix.Interaction.Dialog

namespace Cosmix.Interaction

open Cosmix.Lib List

variable {s : DialogStateV1}

theorem DialogStateV1.not_active_of_terminal (h : s.isTerminal = true) : s.isActive = false := by
  cases s <;> first | rfl | cases h

theorem DialogStateV1.not_terminal_of_active (h : s.isActive = true) : s.isTerminal = false := by
  cases s <;> first | rfl | cases h

theorem DialogStateV1.ne_queued_of_terminal (h : s.isTerminal = true) : s ≠ .queued := by
  rintro rfl
  cases h

theorem DialogStateV1.ne_queued_of_active (h : s.isActive = true) : s ≠ .queued := by
  rintro rfl
  cases h

namespace DialogBroker

variable {σ : Type}

/-- The handles that wait by their records, with the owners. -/
def waitingOf (records : Table InteractionHandle DialogRecord) (handle : InteractionHandle) :
    Option String :=
  (records.lookup handle).bind fun record =>
    if record.state = .queued then some record.ownerService else none

section

variable (records : Table InteractionHandle DialogRecord) (handle : InteractionHandle)

theorem waitingOf_insert (record : DialogRecord) :
    waitingOf (records.insert handle record) = Function.update (waitingOf records) handle
      (if record.state = .queued then some record.ownerService else none) := by
  funext j
  rw [waitingOf, Table.lookup_insert_eq]
  by_cases hj : j = handle
  · rw [if_pos hj, hj, Function.update_self, Option.bind_some]
  · rw [if_neg hj, Function.update_of_ne hj, waitingOf]

variable {records handle}

theorem waitingOf_eq_none {record : DialogRecord} (hrecord : records.lookup handle = some record)
    (hstate : record.state ≠ .queued) : waitingOf records handle = none := by
  rw [waitingOf, hrecord, Option.bind_some, if_neg hstate]

theorem waitingOf_eq_some {owner : String} : waitingOf records handle = some owner ↔
    ∃ record, records.lookup handle = some record ∧ record.state = .queued ∧
      record.ownerService = owner := by
  rw [waitingOf, Option.bind_eq_some_iff]
  constructor
  · rintro ⟨record, hrecord, howner⟩
    split at howner
    · exact ⟨record, hrecord, ‹_›, Option.some.inj howner⟩
    · cases howner
  · rintro ⟨record, hrecord, hstate, howner⟩
    exact ⟨record, hrecord, by rw [if_pos hstate, howner]⟩

end

/-- An attempt exists exactly on the presenter's side, and is its own. A loose record has lost its
attempt. -/
structure AttemptFits (presenter : Option PresenterLease) (isLoose : Prop) (record : DialogRecord) :
    Prop where
  loose : isLoose → record.attempt = none ∧ record.state.isActive = true
  firm : ¬ isLoose → record.attempt.isSome = record.state.isActive
  current : ∀ attempt, record.attempt = some attempt →
    ∃ lease, presenter = some lease ∧ lease.generation = attempt.generation

/-- Every record is stored under its own handle. -/
def Keyed (b : DialogBroker σ) : Prop :=
  ∀ handle record, b.records.lookup handle = some record → record.handle = handle

/-- What holds also inside a call, where some records are loose and the terminal list may be one too
long. -/
structure Core (b : DialogBroker σ) (loose : Set InteractionHandle) : Prop where
  keyed : b.Keyed
  waiting : b.waiting.Holds (waitingOf b.records)
  terminalNodup : b.terminalOrder.Nodup
  terminal : ∀ handle, handle ∈ b.terminalOrder ↔
    ∃ record, b.records.lookup handle = some record ∧ record.state.isTerminal = true
  attempts : ∀ handle record, b.records.lookup handle = some record →
    AttemptFits b.presenter (handle ∈ loose) record
  stored : ∀ handle ∈ loose, ∃ record, b.records.lookup handle = some record
  queueBound : b.waiting.length ≤ b.limits.total
  originBound : ∀ origin, (b.waiting.queueOf origin).length ≤ b.limits.perOrigin
  activeBound : b.activeLen ≤ b.retention.active

/-- The state between calls has no loose record. -/
structure Agrees (b : DialogBroker σ) (loose : Set InteractionHandle) : Prop extends
    Core b loose where
  terminalBound : b.terminalOrder.length ≤ b.retention.terminal

/-- What the parts of a call that put dialogs back leave alone. -/
structure SameFrame (b b' : DialogBroker σ) : Prop where
  limits : b'.limits = b.limits
  retention : b'.retention = b.retention
  presenter : b'.presenter = b.presenter
  counter : b'.nextAttemptToken = b.nextAttemptToken

theorem SameFrame.trans {b b' b'' : DialogBroker σ} (h : SameFrame b b') (h' : SameFrame b' b'') :
    SameFrame b b'' :=
  ⟨h'.limits.trans h.limits, h'.retention.trans h.retention, h'.presenter.trans h.presenter,
    h'.counter.trans h.counter⟩

/-- What a step that only takes dialogs away leaves alone. -/
structure Shrinks (kept : Set InteractionHandle) (b b' : DialogBroker σ) : Prop where
  limits : b'.limits = b.limits
  retention : b'.retention = b.retention
  presenter : b'.presenter = b.presenter
  counter : b'.nextAttemptToken = b.nextAttemptToken
  kept : ∀ handle ∈ kept, b'.records.lookup handle = b.records.lookup handle
  total : b'.waiting.length ≤ b.waiting.length
  each : ∀ origin, (b'.waiting.queueOf origin).length ≤ (b.waiting.queueOf origin).length

namespace Shrinks

variable {kept : Set InteractionHandle} {b b' b'' : DialogBroker σ}

theorem of_frame (h : SameFrame b b')
    (hkept : ∀ handle ∈ kept, b'.records.lookup handle = b.records.lookup handle)
    (hwaiting : b'.waiting = b.waiting) : Shrinks kept b b' :=
  ⟨h.limits, h.retention, h.presenter, h.counter, hkept, hwaiting ▸ le_rfl,
    fun _ => hwaiting ▸ le_rfl⟩

theorem refl (kept : Set InteractionHandle) (b : DialogBroker σ) : Shrinks kept b b :=
  .of_frame ⟨rfl, rfl, rfl, rfl⟩ (fun _ _ => rfl) rfl

theorem frame (h : Shrinks kept b b') : SameFrame b b' :=
  ⟨h.limits, h.retention, h.presenter, h.counter⟩

theorem trans (h : Shrinks kept b b') (h' : Shrinks kept b' b'') : Shrinks kept b b'' where
  __ := h.frame.trans h'.frame
  kept handle hkept := (h'.kept handle hkept).trans (h.kept handle hkept)
  total := h'.total.trans h.total
  each origin := (h'.each origin).trans (h.each origin)

theorem mono {fewer : Set InteractionHandle} (h : Shrinks kept b b') (hsub : fewer ⊆ kept) :
    Shrinks fewer b b' :=
  { h with kept := fun handle hin => h.kept handle (hsub hin) }

end Shrinks

section

variable {b : DialogBroker σ} {loose : Set InteractionHandle} {handle : InteractionHandle}
  {record : DialogRecord}

theorem Core.not_loose_of_not_active (h : Core b loose)
    (hrecord : b.records.lookup handle = some record) (hstate : record.state.isActive = false) :
    handle ∉ loose := by
  intro hloose
  have hactive := ((h.attempts handle record hrecord).loose hloose).2
  rw [hstate] at hactive
  cases hactive

theorem Core.put (h : Core b loose) (handle : InteractionHandle) (record : DialogRecord)
    (hhandle : record.handle = handle) {loose' : Set InteractionHandle}
    (hothers : ∀ j, j ≠ handle → (j ∈ loose' ↔ j ∈ loose))
    {waiting : FairQueue String InteractionHandle} {terminalOrder : List InteractionHandle}
    (hwaits : waiting.Holds (Function.update (waitingOf b.records) handle
      (if record.state = .queued then some record.ownerService else none)))
    (htotal : waiting.length ≤ b.limits.total)
    (heach : ∀ owner, (waiting.queueOf owner).length ≤ b.limits.perOrigin)
    (hnodup : terminalOrder.Nodup) (hterminal : ∀ j, j ∈ terminalOrder ↔
      if j = handle then record.state.isTerminal = true else j ∈ b.terminalOrder)
    (hattempt : AttemptFits b.presenter (handle ∈ loose') record)
    (hroom : record.state.isActive = true → b.activeLen < b.retention.active ∨
      ∃ r, b.records.lookup handle = some r ∧ r.state.isActive = true) :
    Core { b with records := b.records.insert handle record, waiting, terminalOrder } loose' := by
  refine ⟨?_, waitingOf_insert b.records handle record ▸ hwaits, hnodup, ?_, ?_, ?_, htotal, heach, ?_⟩
  · intro j r hr
    obtain ⟨rfl, rfl⟩ | ⟨-, hr⟩ := Table.of_lookup_insert hr
    · exact hhandle
    · exact h.keyed j r hr
  · intro j
    rw [hterminal, h.terminal, Table.lookup_insert_eq]
    split <;> simp
  · intro j r hr
    obtain ⟨rfl, rfl⟩ | ⟨hj, hr⟩ := Table.of_lookup_insert hr
    · exact hattempt
    · simpa only [hothers j hj] using h.attempts j r hr
  · intro j hj
    rw [Table.lookup_insert_eq]
    split
    · exact ⟨record, rfl⟩
    · exact h.stored j ((hothers j ‹_›).mp hj)
  · by_cases hless : b.activeLen < b.retention.active
    · exact (Table.count_insert_le _ _ _ _).trans hless
    · refine le_trans (Table.count_le_of_subset _ fun j r hr hactive => ?_) h.activeBound
      obtain ⟨rfl, rfl⟩ | ⟨-, hr⟩ := Table.of_lookup_insert hr
      · exact (hroom hactive).resolve_left hless
      · exact ⟨r, hr, hactive⟩

theorem removeFromQueue_waiting (hrecord : b.records.lookup handle = some record) :
    (b.removeFromQueue handle).waiting = b.waiting.remove record.ownerService handle := by
  rw [removeFromQueue, hrecord]

theorem shrinks_settle (hrecord : b.records.lookup handle = some record) (kept : Set InteractionHandle)
    (state : DialogStateV1) (value : Option DialogValueV1) (nowMs : Nat)
    (cause : DialogTransitionCause) :
    Shrinks (kept \ {handle}) b (b.settle handle record state value nowMs cause) where
  limits := rfl
  retention := rfl
  presenter := rfl
  counter := rfl
  kept := by
    rintro j ⟨-, hj : j ≠ handle⟩
    change (b.records.insert handle _).lookup j = _
    rw [Table.lookup_insert_eq, if_neg hj]
  total := by
    change (b.removeFromQueue handle).waiting.length ≤ b.waiting.length
    rw [removeFromQueue_waiting hrecord]
    exact FairQueue.length_remove_le
  each := by
    intro origin
    change ((b.removeFromQueue handle).waiting.queueOf origin).length ≤ _
    rw [removeFromQueue_waiting hrecord]
    exact FairQueue.length_queueOf_remove_le origin

variable {state : DialogStateV1}

theorem Core.settle (h : Core b loose) (hrecord : b.records.lookup handle = some record)
    (hlive : record.state.isTerminal = false)
    (hstate : state.isTerminal = true) (value : Option DialogValueV1) (nowMs : Nat)
    (cause : DialogTransitionCause) :
    Core (b.settle handle record state value nowMs cause) (loose \ {handle}) := by
  have hown : ∀ j, waitingOf b.records handle = some j → j = record.ownerService := by
    intro j hj
    obtain ⟨r, hr, -, rfl⟩ := waitingOf_eq_some.mp hj
    rw [hrecord] at hr
    cases hr
    rfl
  have hwaits : (b.removeFromQueue handle).waiting.Holds (Function.update (waitingOf b.records)
      handle (if state = .queued then some record.ownerService else none)) := by
    rw [removeFromQueue_waiting hrecord, if_neg (DialogStateV1.ne_queued_of_terminal hstate)]
    exact h.waiting.remove hown
  have hnodup : (b.terminalOrder ++ [handle]).Nodup := by
    refine nodup_append.mpr ⟨h.terminalNodup, nodup_singleton handle, ?_⟩
    rintro j hin _ hj rfl
    obtain ⟨r, hr, hterminal⟩ := (h.terminal handle).mp (mem_singleton.mp hj ▸ hin)
    simp_all
  have hshrinks := shrinks_settle hrecord ∅ state value nowMs cause
  have hinactive := DialogStateV1.not_active_of_terminal hstate
  exact { h.put handle (record.ended state value nowMs) (h.keyed handle record hrecord)
    (fun j hj => and_iff_left hj) hwaits (hshrinks.total.trans h.queueBound)
    (fun owner => (hshrinks.each owner).trans (h.originBound owner)) hnodup
    (fun j => by by_cases hj : j = handle <;> simp [hj, hstate])
    ⟨fun hin => absurd rfl hin.2, fun _ => hinactive.symm, nofun⟩
    (fun hactive => by cases hactive.symm.trans hinactive) with }

theorem Core.drop (h : Core b loose) {b' : DialogBroker σ} (gone : List InteractionHandle)
    (hgone : ∀ j ∈ gone, j ∈ b.terminalOrder)
    (hrecords : ∀ j, b'.records.lookup j = if j ∈ gone then none else b.records.lookup j)
    (hwaiting : b'.waiting = b.waiting) (hnodup : b'.terminalOrder.Nodup)
    (hterminal : ∀ j, j ∈ b'.terminalOrder ↔ j ∈ b.terminalOrder ∧ j ∉ gone)
    (hframe : SameFrame b b') : Core b' loose := by
  have hsome : ∀ {j r}, b'.records.lookup j = some r → j ∉ gone ∧ b.records.lookup j = some r := by
    intro j r hr
    rw [hrecords] at hr
    split at hr
    · cases hr
    · exact ⟨‹_›, hr⟩
  have hwaits : waitingOf b'.records = waitingOf b.records := by
    funext j
    rw [waitingOf, hrecords]
    by_cases hj : j ∈ gone
    · obtain ⟨r, hr, hterm⟩ := (h.terminal j).mp (hgone j hj)
      rw [if_pos hj, waitingOf_eq_none hr (DialogStateV1.ne_queued_of_terminal hterm)]
      rfl
    · rw [if_neg hj, waitingOf]
  refine ⟨?_, ?_, hnodup, ?_, ?_, ?_, ?_, ?_, ?_⟩
  · exact fun j r hr => h.keyed j r (hsome hr).2
  · rw [hwaits, hwaiting]
    exact h.waiting
  · intro j
    rw [hterminal, h.terminal, hrecords]
    by_cases hj : j ∈ gone <;> simp [hj]
  · intro j r hr
    rw [hframe.presenter]
    exact h.attempts j r (hsome hr).2
  · intro j hj
    obtain ⟨r, hr⟩ := h.stored j hj
    have hnot : j ∉ gone := by
      intro hin
      obtain ⟨r', hr', hterm⟩ := (h.terminal j).mp (hgone j hin)
      exact h.not_loose_of_not_active hr' (DialogStateV1.not_active_of_terminal hterm) hj
    exact ⟨r, by rw [hrecords, if_neg hnot, hr]⟩
  · rw [hwaiting, hframe.limits]
    exact h.queueBound
  · intro origin
    rw [hwaiting, hframe.limits]
    exact h.originBound origin
  · rw [hframe.retention]
    exact (Table.count_le_of_subset _ fun j r hr hactive => ⟨r, (hsome hr).2, hactive⟩).trans
      h.activeBound

theorem evictOldest_cons {rest : List InteractionHandle} (hcons : b.terminalOrder = handle :: rest)
    (hrecord : b.records.lookup handle = some record) :
    (b.evictOldest).records = b.records.erase handle ∧ (b.evictOldest).terminalOrder = rest := by
  rw [evictOldest, hcons]
  dsimp only
  rw [hrecord]
  exact ⟨rfl, rfl⟩

theorem evictOldest_frame : SameFrame b b.evictOldest ∧ b.evictOldest.waiting = b.waiting := by
  rw [evictOldest]
  split
  · exact ⟨⟨rfl, rfl, rfl, rfl⟩, rfl⟩
  · split <;> exact ⟨⟨rfl, rfl, rfl, rfl⟩, rfl⟩

theorem length_evictOldest : b.evictOldest.terminalOrder.length = b.terminalOrder.length - 1 := by
  rw [evictOldest]
  split
  · rename_i hnil
    rw [hnil]
    rfl
  · rename_i hcons
    rw [hcons]
    split <;> rfl

theorem Core.evictOldest (h : Core b loose) : Core b.evictOldest loose ∧
    Shrinks loose b b.evictOldest := by
  obtain ⟨hframe, hwaiting⟩ := @evictOldest_frame σ b
  cases hcons : b.terminalOrder with
  | nil =>
    have hsame : b.evictOldest = b := by rw [DialogBroker.evictOldest, hcons]
    rw [hsame]
    exact ⟨h, .refl _ _⟩
  | cons handle rest =>
    have hmem : handle ∈ b.terminalOrder := hcons ▸ mem_cons_self
    obtain ⟨_, hrecord, hterm⟩ := (h.terminal handle).mp hmem
    obtain ⟨hrecords, horder⟩ := evictOldest_cons hcons hrecord
    have hnodup : handle ∉ rest ∧ rest.Nodup := nodup_cons.mp (hcons ▸ h.terminalNodup)
    have hloose : handle ∉ loose :=
      h.not_loose_of_not_active hrecord (DialogStateV1.not_active_of_terminal hterm)
    refine ⟨h.drop [handle] ?_ ?_ hwaiting ?_ ?_ hframe, .of_frame hframe (fun j hj => ?_) hwaiting⟩
    · intro j hj
      exact mem_singleton.mp hj ▸ hmem
    · intro j
      rw [hrecords, Table.lookup_erase_eq]
      simp only [mem_singleton]
    · rw [horder]
      exact hnodup.2
    · intro j
      rw [horder, hcons, mem_cons, mem_singleton]
      constructor
      · exact fun hj => ⟨.inr hj, fun hjh => hnodup.1 (hjh ▸ hj)⟩
      · exact fun hj => hj.1.resolve_left hj.2
    · rw [hrecords, Table.lookup_erase_eq, if_neg]
      rintro rfl
      exact hloose hj

theorem Core.trimTerminalCount (h : Core b loose) : Agrees b.trimTerminalCount loose ∧
    Shrinks loose b b.trimTerminalCount := by
  -- by the number of evictions still to come
  have hiter : ∀ (n : Nat) (b : DialogBroker σ), Core b loose →
      Core (DialogBroker.evictOldest^[n] b) loose ∧
        Shrinks loose b (DialogBroker.evictOldest^[n] b) ∧
          (DialogBroker.evictOldest^[n] b).terminalOrder.length = b.terminalOrder.length - n := by
    intro n
    induction n with
    | zero => exact fun b h => ⟨h, .refl _ _, rfl⟩
    | succ n ih =>
      intro b h
      obtain ⟨hcore, hshrinks⟩ := h.evictOldest
      obtain ⟨hcore', hshrinks', hlength⟩ := ih _ hcore
      rw [Function.iterate_succ_apply]
      refine ⟨hcore', hshrinks.trans hshrinks', ?_⟩
      rw [hlength, length_evictOldest]
      omega
  obtain ⟨hcore, hshrinks, hlength⟩ := hiter (b.terminalOrder.length - b.retention.terminal) b h
  refine ⟨⟨hcore, ?_⟩, hshrinks⟩
  rw [DialogBroker.trimTerminalCount] at *
  rw [hshrinks.retention]
  omega

theorem Agrees.transitionTerminal (h : Agrees b loose) (handle : InteractionHandle)
    (state : DialogStateV1) (hstate : state.isTerminal = true) (value : Option DialogValueV1)
    (nowMs : Nat) (cause : DialogTransitionCause) :
    Agrees (b.transitionTerminal handle state value nowMs cause) (loose \ {handle}) ∧
      Shrinks (loose \ {handle}) b (b.transitionTerminal handle state value nowMs cause) := by
  have hout : handle ∉ loose → loose \ {handle} = loose := fun hnot =>
    Set.sdiff_singleton_eq_self hnot
  rw [DialogBroker.transitionTerminal]
  cases hrecord : b.records.lookup handle with
  | none =>
    have hnot : handle ∉ loose := by
      intro hin
      obtain ⟨r, hr⟩ := h.stored handle hin
      rw [hrecord] at hr
      cases hr
    rw [hout hnot]
    exact ⟨h, .refl _ _⟩
  | some record =>
    dsimp only
    by_cases hterm : record.state.isTerminal = true
    · rw [if_pos hterm,
        hout (h.not_loose_of_not_active hrecord (DialogStateV1.not_active_of_terminal hterm))]
      exact ⟨h, .refl _ _⟩
    rw [if_neg hterm]
    have hlive : record.state.isTerminal = false := Bool.eq_false_iff.mpr hterm
    obtain ⟨hagrees, hshrinks⟩ :=
      (h.settle hrecord hlive hstate value nowMs cause).trimTerminalCount
    exact ⟨hagrees, (shrinks_settle hrecord loose state value nowMs cause).trans hshrinks⟩

variable {j : InteractionHandle} {r : DialogRecord}

theorem lookup_evictOldest (h : b.evictOldest.records.lookup j = some r) :
    b.records.lookup j = some r := by
  rw [DialogBroker.evictOldest] at h
  split at h
  · exact h
  split at h
  · exact h
  · change (b.records.erase _).lookup j = some r at h
    rw [Table.lookup_erase_eq] at h
    split at h
    · cases h
    · exact h

theorem lookup_trimTerminalCount (h : b.trimTerminalCount.records.lookup j = some r) :
    b.records.lookup j = some r := by
  refine Function.Iterate.rec (fun b' : DialogBroker σ => b'.records.lookup j = some r →
    b.records.lookup j = some r) id (fun b' hb' h' => ?_) _ h
  exact hb' (lookup_evictOldest h')

/-- After a transition: the others' records that were not evicted, and the handle's, ended. -/
theorem lookup_transitionTerminal {value : Option DialogValueV1}
    {nowMs : Nat} {cause : DialogTransitionCause}
    (h : (b.transitionTerminal handle state value nowMs cause).records.lookup j = some r) :
    j ≠ handle ∧ b.records.lookup j = some r ∨
      j = handle ∧ ∃ old, b.records.lookup handle = some old ∧
        r = if old.state.isTerminal then old else old.ended state value nowMs := by
  rw [DialogBroker.transitionTerminal] at h
  cases hrecord : b.records.lookup handle with
  | none =>
    rw [hrecord] at h
    refine .inl ⟨?_, h⟩
    rintro rfl
    cases hrecord.symm.trans h
  | some record =>
    rw [hrecord] at h
    dsimp only at h
    split at h <;> rename_i hterm
    · by_cases hj : j = handle
      · subst hj
        refine .inr ⟨rfl, record, rfl, ?_⟩
        rw [if_pos hterm]
        exact Option.some.inj (h.symm.trans hrecord)
      · exact .inl ⟨hj, h⟩
    · have hnew := lookup_trimTerminalCount h
      obtain ⟨hj, rfl⟩ | hother := Table.of_lookup_insert hnew
      · exact .inr ⟨hj, record, rfl, (if_neg hterm).symm⟩
      · exact .inl hother

theorem Agrees.transitionAll (h : Agrees b loose) (handles : List InteractionHandle)
    (state : DialogStateV1) (hstate : state.isTerminal = true) (nowMs : Nat)
    (cause : DialogTransitionCause) :
    Agrees (b.transitionAll handles state nowMs cause) (loose \ {j | j ∈ handles}) ∧
      Shrinks (loose \ {j | j ∈ handles}) b (b.transitionAll handles state nowMs cause) := by
  induction handles generalizing b loose with
  | nil =>
    have hsame : loose \ {j | j ∈ ([] : List InteractionHandle)} = loose := by simp
    rw [hsame]
    exact ⟨h, .refl _ _⟩
  | cons handle handles ih =>
    obtain ⟨hagrees, hshrinks⟩ := h.transitionTerminal handle state hstate none nowMs cause
    obtain ⟨hagrees', hshrinks'⟩ := ih hagrees
    have hset : loose \ {j | j ∈ handle :: handles} = (loose \ {handle}) \ {j | j ∈ handles} := by
      ext j
      simp [and_assoc]
    rw [hset]
    exact ⟨hagrees', (hshrinks.mono Set.sdiff_subset).trans hshrinks'⟩

end

section

variable {b : DialogBroker σ}

theorem evictRecord_frame (handle : InteractionHandle) : SameFrame b (b.evictRecord handle) ∧
    (b.evictRecord handle).waiting = b.waiting ∧
      (b.evictRecord handle).terminalOrder = b.terminalOrder := by
  rw [evictRecord]
  split <;> exact ⟨⟨rfl, rfl, rfl, rfl⟩, rfl, rfl⟩

theorem lookup_evictRecord (handle j : InteractionHandle) :
    (b.evictRecord handle).records.lookup j = if j = handle then none else b.records.lookup j := by
  rw [evictRecord]
  cases hrecord : b.records.lookup handle with
  | none =>
    dsimp only
    split
    · rw [‹j = handle›, hrecord]
    · rfl
  | some =>
    exact Table.lookup_erase_eq _ _ _

theorem evictRecords_frame (gone : List InteractionHandle) :
    SameFrame b (gone.foldl evictRecord b) ∧ (gone.foldl evictRecord b).waiting = b.waiting ∧
      (gone.foldl evictRecord b).terminalOrder = b.terminalOrder ∧
        ∀ j, (gone.foldl evictRecord b).records.lookup j =
          if j ∈ gone then none else b.records.lookup j := by
  induction gone generalizing b with
  | nil => exact ⟨⟨rfl, rfl, rfl, rfl⟩, rfl, rfl, fun j => rfl⟩
  | cons handle gone ih =>
    obtain ⟨hf, hw, ht, hlookup⟩ := @ih (b.evictRecord handle)
    obtain ⟨hf', hw', ht'⟩ := @evictRecord_frame σ b handle
    refine ⟨hf'.trans hf, hw.trans hw', ht.trans ht', fun j => ?_⟩
    rw [foldl_cons, hlookup, lookup_evictRecord]
    by_cases hj : j ∈ gone <;> by_cases hjh : j = handle <;> simp [hj]

theorem Agrees.evictTerminalTtl (h : Agrees b ∅) (nowMs : Nat) :
    Agrees (b.evictTerminalTtl nowMs).1 ∅ ∧ Shrinks ∅ b (b.evictTerminalTtl nowMs).1 := by
  obtain ⟨hframe, hw, ht, hlookup⟩ :=
    @evictRecords_frame σ b (b.terminalOrder.filter (b.ttlOver nowMs))
  refine ⟨⟨h.drop (b.terminalOrder.filter (b.ttlOver nowMs)) (fun j hj => (mem_filter.mp hj).1)
    hlookup hw ?_ (fun j => ?_) { hframe with }, ?_⟩,
    .of_frame { hframe with } (fun j hj => absurd hj (Set.notMem_empty j)) hw⟩
  · exact (ht ▸ h.terminalNodup).filter _
  · change j ∈ filter _ (foldl evictRecord b _).terminalOrder ↔ _
    rw [ht, mem_filter, decide_eq_true_iff]
  · change (filter _ (foldl evictRecord b _).terminalOrder).length ≤
      (foldl evictRecord b _).retention.terminal
    rw [ht, hframe.retention]
    exact (length_filter_le _ _).trans h.terminalBound

theorem Agrees.expireDue (h : Agrees b ∅) (o : Orders) (nowMs : Nat) :
    Agrees (b.expireDue o nowMs) ∅ ∧ Shrinks ∅ b (b.expireDue o nowMs) := by
  have hall := h.transitionAll (((o.records.walk b.records.values).filter (·.isDue nowMs)).map
    (·.handle)) .expired rfl nowMs .expire
  rw [Set.empty_sdiff] at hall
  exact hall

theorem Agrees.maintain (h : Agrees b ∅) (o : Orders) (nowMs : Nat) :
    Agrees (b.maintain o nowMs) ∅ ∧ Shrinks ∅ b (b.maintain o nowMs) := by
  obtain ⟨hexpire, hshrinks⟩ := h.expireDue o nowMs
  obtain ⟨hevict, hshrinks'⟩ := hexpire.evictTerminalTtl nowMs
  have hall := hshrinks.trans hshrinks'
  exact ⟨{ hevict with }, { hall with }⟩

end

end DialogBroker

end Cosmix.Interaction
