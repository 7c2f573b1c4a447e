/- source: cosmix-interaction-broker/src/dialog.rs
   digest: In every run the queues, records and limits agree and no expect fails. -/

import Cosmix.Interaction.Requeue

namespace Cosmix.Interaction

open Cosmix.Lib List

namespace DialogBroker

variable {σ : Type}

/-- What a call keeps of the broker before it. -/
structure Keeps (b b' : DialogBroker σ) : Prop where
  agrees : Agrees b' ∅
  limits : b'.limits = b.limits
  retention : b'.retention = b.retention

section

variable {b b' b'' : DialogBroker σ}

theorem Keeps.trans (h : Keeps b b') (h' : Keeps b' b'') : Keeps b b'' :=
  ⟨h'.agrees, h'.limits.trans h.limits, h'.retention.trans h.retention⟩

theorem Agrees.keeps_self (h : Agrees b ∅) : Keeps b b := ⟨h, rfl, rfl⟩

theorem Agrees.drained (h : Agrees b ∅) : Keeps b b.drained := ⟨{ h with }, rfl, rfl⟩

theorem Agrees.keeps_maintain (h : Agrees b ∅) (o : Orders) (nowMs : Nat) :
    Keeps b (b.maintain o nowMs) := by
  obtain ⟨hagrees, hshrinks⟩ := h.maintain o nowMs
  exact ⟨hagrees, hshrinks.limits, hshrinks.retention⟩

theorem Agrees.maintained (h : Agrees b ∅) (o : Orders) (nowMs : Nat) :
    Keeps b (b.drained.maintain o nowMs) :=
  h.drained.trans (h.drained.agrees.keeps_maintain o nowMs)

theorem Agrees.keeps_transitionAll (h : Agrees b ∅) (handles : List InteractionHandle)
    (state : DialogStateV1) (hstate : state.isTerminal = true) (nowMs : Nat)
    (cause : DialogTransitionCause) : Keeps b (b.transitionAll handles state nowMs cause) := by
  obtain ⟨hagrees, hshrinks⟩ := h.transitionAll handles state hstate nowMs cause
  rw [Set.empty_sdiff] at hagrees
  exact ⟨hagrees, hshrinks.limits, hshrinks.retention⟩

theorem Agrees.keeps_transitionTerminal {loose : Set InteractionHandle} (h : Agrees b loose)
    (handle : InteractionHandle) (hloose : loose ⊆ {handle}) (state : DialogStateV1)
    (hstate : state.isTerminal = true) (value : Option DialogValueV1) (nowMs : Nat)
    (cause : DialogTransitionCause) :
    Keeps b (b.transitionTerminal handle state value nowMs cause) := by
  obtain ⟨hagrees, hshrinks⟩ := h.transitionTerminal handle state hstate value nowMs cause
  rw [Set.sdiff_eq_empty.mpr hloose] at hagrees
  exact ⟨hagrees, hshrinks.limits, hshrinks.retention⟩

theorem Agrees.keeps_expireHandle (h : Agrees b ∅) (handle : InteractionHandle) (nowMs : Nat) :
    Keeps b (b.transitionTerminal handle .expired none nowMs .expire) :=
  h.keeps_transitionTerminal handle (Set.empty_subset _) .expired rfl none nowMs .expire

theorem Agrees.setPresenter (h : Agrees b ∅)
    (hnone : ∀ j r, b.records.lookup j = some r → r.state.isActive = false)
    (presenter : Option PresenterLease) : Keeps b { b with presenter } := by
  refine ⟨⟨{ h.toCore with attempts := fun j r hr => ?_ }, h.terminalBound⟩, rfl, rfl⟩
  obtain ⟨hloose, hfirm, -⟩ := h.attempts j r hr
  refine ⟨hloose, hfirm, fun attempt hattempt => ?_⟩
  have hsome := hfirm (Set.notMem_empty j)
  rw [hattempt, hnone j r hr] at hsome
  cases hsome

/-- A record is stored that is live as long as the one it replaces, if any, was. -/
theorem Agrees.put (h : Agrees b ∅) (handle : InteractionHandle) (record : DialogRecord)
    (hhandle : record.handle = handle) {waiting : FairQueue String InteractionHandle}
    (hwaits : waiting.Holds (Function.update (waitingOf b.records) handle
      (if record.state = .queued then some record.ownerService else none)))
    (htotal : waiting.length ≤ b.limits.total)
    (heach : ∀ owner, (waiting.queueOf owner).length ≤ b.limits.perOrigin)
    (hterminal : record.state.isTerminal = (b.records.lookup handle).any (·.state.isTerminal))
    (hattempt : AttemptFits b.presenter False record)
    (hroom : record.state.isActive = true → b.activeLen < b.retention.active ∨
      ∃ r, b.records.lookup handle = some r ∧ r.state.isActive = true) :
    Keeps b { b with records := b.records.insert handle record, waiting } := by
  refine ⟨⟨h.toCore.put handle record hhandle (fun _ _ => Iff.rfl) hwaits htotal heach
    h.terminalNodup (fun j => ?_) (by simpa using hattempt) hroom, h.terminalBound⟩, rfl, rfl⟩
  split
  · rw [h.terminal, ‹j = handle›]
    cases hlookup : b.records.lookup handle <;> simp_all
  · exact Iff.rfl

theorem Agrees.restate (h : Agrees b ∅) {handle : InteractionHandle} {record : DialogRecord}
    (hrecord : b.records.lookup handle = some record) (record' : DialogRecord)
    (hhandle : record'.handle = record.handle) (howner : record'.ownerService = record.ownerService)
    (hattempt : record'.attempt = record.attempt)
    (hqueued : record'.state = .queued ↔ record.state = .queued)
    (hactive : record'.state.isActive = record.state.isActive)
    (hterminal : record'.state.isTerminal = record.state.isTerminal) (old : DialogStateV1)
    (cause : DialogTransitionCause) : Keeps b (b.restate handle record' old cause) := by
  have hsame : (if record'.state = .queued then some record'.ownerService else none) =
      waitingOf b.records handle := by
    rw [waitingOf, hrecord, Option.bind_some, howner]
    simp only [hqueued]
  obtain ⟨-, hfirm, hcurrent⟩ := h.attempts handle record hrecord
  have hput := h.put handle record' (hhandle.trans (h.keyed handle record hrecord))
    (by rw [hsame, Function.update_eq_self]; exact h.waiting) h.queueBound h.originBound (by simp [hrecord, hterminal])
    ⟨fun h => h.elim, fun _ => ?_, fun attempt hsome => hcurrent attempt (hattempt ▸ hsome)⟩
    fun hnow => .inr ⟨record, hrecord, hactive ▸ hnow⟩
  · exact ⟨{ hput.agrees with }, rfl, rfl⟩
  · rw [hattempt, hactive]
    exact hfirm (Set.notMem_empty handle)

end

/-- A call does not fail, and keeps the broker in order. -/
abbrev Served (b : DialogBroker σ) {α : Type} (outcome : Outcome σ α) : Prop :=
  ∃ out, outcome = some out ∧ Keeps b out.1

section

variable {b : DialogBroker σ} {o : Orders} {service : String} {ownerToken : OwnerToken} {nowMs : Nat}

theorem Agrees.open (h : Agrees b ∅) {tryConsume : σ → String → Nat → Bool × σ}
    {request : DialogOpenRequestV1} {freshHandle : InteractionHandle} :
    Served b (b.open tryConsume o service ownerToken request nowMs freshHandle) := by
  have hm := h.maintained o nowMs
  rw [DialogBroker.open]
  dsimp only
  split
  · exact ⟨_, rfl, h.drained⟩
  iterate 3
    split
    · exact ⟨_, rfl, hm⟩
  split
  · exact ⟨_, rfl, ⟨{ hm.agrees with }, hm.limits, hm.retention⟩⟩
  rename_i hfresh htotal horigin _
  have hnew : (b.drained.maintain o nowMs).records.lookup freshHandle = none := by
    simpa using hfresh
  have hwaits : waitingOf (b.drained.maintain o nowMs).records freshHandle = none := by
    rw [waitingOf, hnew, Option.bind_none]
  have hput := hm.agrees.put freshHandle
    (openRecord service ownerToken request nowMs freshHandle) rfl
    (hm.agrees.waiting.enqueue hwaits) ?_ (fun owner => ?_) (by rw [hnew]; rfl)
    ⟨fun h => h.elim, fun _ => rfl, fun _ h => by cases h⟩ fun h => by cases h
  · exact ⟨_, rfl, ⟨{ hput.agrees with }, hm.limits, hm.retention⟩⟩
  · rw [FairQueue.length_enqueue]
    rw [queuedLen] at htotal
    omega
  · rw [FairQueue.queueOf_enqueue]
    split
    · rw [length_append, length_singleton]
      exact Nat.lt_of_not_le horigin
    · exact hm.agrees.originBound owner

theorem Agrees.requeueReplaced (h : Agrees b ∅) (o : Orders) (nowMs : Nat) :
    ∃ b', b.requeueReplaced o nowMs = some b' ∧ Keeps b b' ∧
      ∀ j r, b'.records.lookup j = some r → r.state.isActive = false := by
  rw [DialogBroker.requeueReplaced]
  cases hlease : b.presenter with
  | none =>
    refine ⟨b, rfl, h.keeps_self, fun j r hr => ?_⟩
    obtain ⟨-, hfirm, hcurrent⟩ := h.attempts j r hr
    rw [← hfirm (Set.notMem_empty j)]
    cases hattempt : r.attempt with
    | none => rfl
    | some attempt =>
      obtain ⟨_, hsome, -⟩ := hcurrent attempt hattempt
      rw [hlease] at hsome
      cases hsome
  | some =>
    obtain ⟨b', hrun, hagrees, hframe, hnone⟩ := h.requeueGeneration nowMs .replace o hlease
    exact ⟨b', hrun, ⟨hagrees, hframe.limits, hframe.retention⟩, hnone⟩

theorem Agrees.registerPresenter (h : Agrees b ∅) :
    Served b (b.registerPresenter o service nowMs) := by
  have hm := h.maintained o nowMs
  rw [DialogBroker.registerPresenter, mintPresenterGeneration]
  split_ifs
  · have hminted : Keeps b { b.drained.maintain o nowMs with
        nextPresenterGeneration := (b.drained.maintain o nowMs).nextPresenterGeneration + 1 } :=
      ⟨{ hm.agrees with }, hm.limits, hm.retention⟩
    obtain ⟨_, hrun, hkeeps, hnone⟩ := hminted.agrees.requeueReplaced o nowMs
    dsimp only
    rw [hrun]
    exact ⟨_, rfl, hminted.trans (hkeeps.trans (hkeeps.agrees.setPresenter hnone _))⟩
  · exact ⟨_, rfl, hm⟩

variable {lease : PresenterLease} {handle : InteractionHandle} {record : DialogRecord} {token : Nat}

theorem checkLease_ok (hok : b.checkLease lease = .ok ()) : b.presenter = some lease := by
  rw [checkLease] at hok
  split at hok
  · cases hok
  rename_i hcurrent
  split at hok
  · cases hok
  · rename_i hsame
    push Not at hsame
    rw [hcurrent, hsame.2]

variable (h : Agrees b ∅)
include h

theorem Agrees.releasePresenter : Served b (b.releasePresenter o lease nowMs) := by
  rw [DialogBroker.releasePresenter]
  split
  · exact ⟨_, rfl, h.drained⟩
  rename_i hok
  obtain ⟨hmagrees, hshrinks⟩ := h.drained.agrees.maintain o nowMs
  have hlease : (b.drained.maintain o nowMs).presenter = some lease :=
    hshrinks.presenter.trans (checkLease_ok hok)
  obtain ⟨b', hrun, hagrees, hframe, hnone⟩ := hmagrees.requeueGeneration nowMs .release o hlease
  have hkeeps : Keeps b b' :=
    ⟨hagrees, hframe.limits.trans hshrinks.limits, hframe.retention.trans hshrinks.retention⟩
  rw [hrun]
  exact ⟨_, rfl, hkeeps.trans (hagrees.setPresenter hnone none)⟩

/-- The fair queue gives nothing only when nothing waits; what it gives is a queued record's
handle. -/
theorem Agrees.dequeueFair : b.dequeueFair = some (none, b) ∨ ∃ handle record waiting,
      b.dequeueFair = some (some handle, { b with waiting }) ∧
        b.records.lookup handle = some record ∧ record.state = .queued ∧
          waiting.Holds (Function.update (waitingOf b.records) handle none) ∧
            waiting.length ≤ b.waiting.length ∧
              ∀ owner, (waiting.queueOf owner).length ≤ (b.waiting.queueOf owner).length := by
  cases hturns : b.waiting.turns with
  | nil =>
    left
    rw [DialogBroker.dequeueFair]
    cases b.waiting.length + b.waiting.turns.length with
    | zero => rfl
    | succ =>
      rw [dequeueFairFrom, hturns]
  | cons origin rest =>
    right
    obtain ⟨handle, queue, hlookup, hwaits, hholds⟩ := h.waiting.takeTurn hturns
    obtain ⟨record, hrecord, hqueued, -⟩ := waitingOf_eq_some.mp hwaits
    refine ⟨handle, record, b.waiting.takeTurn origin rest (handle :: queue), ?_, hrecord, hqueued,
      hholds, ?_, fun owner => ?_⟩
    · rw [DialogBroker.dequeueFair, hturns, length_cons, ← Nat.add_assoc, dequeueFairFrom, hturns]
      simp only [Option.bind_eq_bind, hlookup, Option.bind_some, List.head?_cons, hrecord,
        Option.any_some, hqueued, beq_self_eq_true, if_true]
    · have hlength := @FairQueue.length_takeTurn _ _ _ _ origin rest handle queue hlookup
      omega
    · rw [FairQueue.queueOf_takeTurn]
      split
      · subst owner
        rw [FairQueue.queueOf, hlookup]
        simp
      · exact le_rfl

theorem Agrees.present (hrecord : b.records.lookup handle = some record)
    (hqueued : record.state = .queued) {waiting : FairQueue String InteractionHandle}
    (hholds : waiting.Holds (Function.update (waitingOf b.records) handle none))
    (htotal : waiting.length ≤ b.waiting.length)
    (heach : ∀ owner, (waiting.queueOf owner).length ≤ (b.waiting.queueOf owner).length)
    (hroom : b.activeLen < b.retention.active) (hlease : b.presenter = some lease)
    (token counter : Nat) : Keeps b (DialogBroker.present { b with waiting, nextAttemptToken := counter } handle record
      ⟨lease.generation, token⟩) := by
  have hput := h.put handle { record with
      state := .presenting, attempt := some ⟨lease.generation, token⟩ }
    (h.keyed handle record hrecord) hholds (htotal.trans h.queueBound)
    (fun owner => (heach owner).trans (h.originBound owner)) (by rw [hrecord, Option.any_some, hqueued]; rfl)
    ⟨nofun, fun _ => rfl, fun attempt hsome => ?_⟩ fun _ => .inl hroom
  · exact ⟨{ hput.agrees with }, rfl, rfl⟩
  · cases hsome
    exact ⟨lease, hlease, rfl⟩

theorem Agrees.nextPresentation (hcounter : b.nextAttemptToken < u64Max) :
    Served b (b.nextPresentation o lease nowMs) := by
  rw [DialogBroker.nextPresentation]
  dsimp only
  split
  · exact ⟨_, rfl, h.drained⟩
  rename_i hok
  obtain ⟨hmagrees, hshrinks⟩ := h.drained.agrees.maintain o nowMs
  have hm := h.maintained o nowMs
  have hlease : (b.drained.maintain o nowMs).presenter = some lease :=
    hshrinks.presenter.trans (checkLease_ok hok)
  have hfresh : (b.drained.maintain o nowMs).nextAttemptToken < u64Max :=
    hshrinks.counter ▸ hcounter
  split
  · exact ⟨_, rfl, hm⟩
  rename_i hroom
  obtain hnone | ⟨handle, record, waiting, hsome, hrecord, hqueued, hholds, htotal, heach⟩ :=
    hmagrees.dequeueFair
  · rw [hnone]
    exact ⟨_, rfl, hm⟩
  rw [hsome]
  dsimp only [mintAttemptToken]
  rw [if_pos hfresh]
  dsimp only
  rw [hrecord]
  exact ⟨_, rfl, hm.trans (hmagrees.present hrecord hqueued hholds htotal heach
    (Nat.lt_of_not_le hroom) hlease _ _)⟩

theorem Agrees.active_of_attempt (hrecord : b.records.lookup handle = some record)
    {attempt : ActiveAttempt} (hattempt : record.attempt = some attempt) :
    record.state.isActive = true := by
  rw [← (h.attempts handle record hrecord).firm (Set.notMem_empty handle), hattempt]
  rfl

omit h

theorem checkCurrentAttempt_ok {generation : Nat}
    (hok : b.checkCurrentAttempt handle generation token = .ok ()) :
    ∃ record, b.records.lookup handle = some record ∧
      record.attempt = some ⟨generation, token⟩ := by
  rw [checkCurrentAttempt] at hok
  split at hok
  · cases hok
  rename_i record hrecord
  split at hok
  · exact ⟨record, hrecord, ‹_›⟩
  · cases hok

theorem checkOwner_ok (hok : b.checkOwner service ownerToken handle = .ok ()) :
    ∃ record, b.records.lookup handle = some record ∧ record.ownerService = service ∧
      record.ownerToken = ownerToken := by
  rw [checkOwner] at hok
  split at hok
  · cases hok
  rename_i record hrecord
  split at hok
  · cases hok
  · rename_i hsame
    push Not at hsame
    exact ⟨record, hrecord, hsame⟩

theorem expireHandleIfDue_cases (b : DialogBroker σ) (handle : InteractionHandle) (nowMs : Nat) :
    b.expireHandleIfDue handle nowMs =
        (true, b.transitionTerminal handle .expired none nowMs .expire) ∨
      b.expireHandleIfDue handle nowMs = (false, b) ∧
        (b.records.lookup handle).any (·.isDue nowMs) = false := by
  rw [expireHandleIfDue]
  split
  · exact .inl rfl
  · exact .inr ⟨rfl, Bool.eq_false_iff.mpr ‹_›⟩

variable (h : Agrees b ∅)
include h

variable {body : DialogBroker σ → DialogRecord → Outcome σ Unit}

theorem Agrees.onAttempt
    (hbody : ∀ record, b.records.lookup handle = some record → record.state.isActive = true →
      Served b.drained (body b.drained record)) :
    Served b (b.onAttempt lease handle token nowMs body) := by
  rw [DialogBroker.onAttempt]
  split
  · exact ⟨_, rfl, h.drained⟩
  split
  · exact ⟨_, rfl, h.drained⟩
  rename_i hok
  obtain ⟨record, hrecord, hattempt⟩ := checkCurrentAttempt_ok hok
  obtain hdue | ⟨hdue, -⟩ := expireHandleIfDue_cases b.drained handle nowMs
  · rw [hdue]
    exact ⟨_, rfl, h.drained.trans (h.drained.agrees.keeps_expireHandle handle nowMs)⟩
  rw [hdue]
  dsimp only
  rw [hrecord]
  obtain ⟨out, hout, hkeeps⟩ := hbody record hrecord (h.active_of_attempt hrecord hattempt)
  exact ⟨out, hout, h.drained.trans hkeeps⟩

theorem Agrees.onOwned (hbody : ∀ record, b.records.lookup handle = some record →
      Served b.drained (body b.drained record)) :
    Served b (b.onOwned service ownerToken handle nowMs body) := by
  rw [DialogBroker.onOwned]
  split
  · exact ⟨_, rfl, h.drained⟩
  rename_i hok
  obtain ⟨record, hrecord, -⟩ := checkOwner_ok hok
  obtain hdue | ⟨hdue, -⟩ := expireHandleIfDue_cases b.drained handle nowMs
  · rw [hdue]
    exact ⟨_, rfl, h.drained.trans (h.drained.agrees.keeps_expireHandle handle nowMs)⟩
  rw [hdue]
  dsimp only
  rw [hrecord]
  obtain ⟨out, hout, hkeeps⟩ := hbody record hrecord
  exact ⟨out, hout, h.drained.trans hkeeps⟩

theorem Agrees.takeAttempt (hrecord : b.records.lookup handle = some record)
    (hactive : record.state.isActive = true) : Agrees (b.takeAttempt handle record) {handle} := by
  have hloose := h.toCore.detach hrecord hactive { record with attempt := none } rfl rfl rfl
  rw [insert_empty_eq] at hloose
  exact ⟨hloose, h.terminalBound⟩

theorem Agrees.markPresented : Served b (b.markPresented lease handle token nowMs) := by
  refine h.onAttempt fun record hrecord hactive => ?_
  split
  · exact ⟨_, rfl, h.drained.agrees.keeps_self⟩
  rename_i hpresenting
  push Not at hpresenting
  refine ⟨_, rfl, h.drained.agrees.restate hrecord { record with
    state := if record.cancelRequested then .cancelRequested else .presented,
    everPresented := true } rfl rfl rfl ?_ ?_ ?_ _ _⟩ <;>
    cases record.cancelRequested <;> rw [hpresenting] <;> simp [DialogStateV1.isActive,
      DialogStateV1.isTerminal]

theorem Agrees.resolve {value : DialogValueV1} :
    Served b (b.resolve o lease handle token value nowMs) := by
  refine h.onAttempt fun record hrecord hactive => ?_
  have hloose := h.drained.agrees.takeAttempt hrecord hactive
  dsimp only
  split
  · have hone : ∀ j ∈ [handle], ∃ r, (b.drained.takeAttempt handle record).records.lookup j =
        some r ∧ r.state.isActive = true := by
      intro j hj
      rw [mem_singleton.mp hj]
      exact ⟨{ record with attempt := none }, AList.lookup_insert _, hactive⟩
    obtain ⟨_, hrun, hagrees, hframe⟩ := hloose.requeueProtected nowMs .resolve o
      (nodup_singleton handle) (fun j hj => mem_singleton.mpr hj) hone
    rw [hrun]
    exact ⟨_, rfl, hagrees, hframe.limits, hframe.retention⟩
  · have hkeeps := hloose.keeps_transitionTerminal handle subset_rfl .resolved rfl (some value)
      nowMs .resolve
    exact ⟨_, rfl, hkeeps.agrees, hkeeps.limits, hkeeps.retention⟩

theorem Agrees.failPresentation : Served b (b.failPresentation lease handle token nowMs) := by
  refine h.onAttempt fun record hrecord hactive => ?_
  have hloose := h.drained.agrees.takeAttempt hrecord hactive
  rw [if_neg (Bool.eq_false_iff.mp (DialogStateV1.not_terminal_of_active hactive))]
  have hkeeps := hloose.keeps_transitionTerminal handle subset_rfl .failed rfl none nowMs .fail
  exact ⟨_, rfl, hkeeps.agrees, hkeeps.limits, hkeeps.retention⟩

theorem Agrees.cancel : Served b (b.cancel service ownerToken handle nowMs) := by
  refine h.onOwned fun record hrecord => ?_
  split
  · exact ⟨_, rfl, h.drained.agrees.keeps_self⟩
  · exact ⟨_, rfl, h.drained.agrees.keeps_transitionTerminal handle (Set.empty_subset _) .cancelled
      rfl none nowMs .cancel⟩

theorem Agrees.requestProgressCancel :
    Served b (b.requestProgressCancel lease handle token nowMs) := by
  refine h.onAttempt fun record hrecord hactive => ?_
  have hself := h.drained.agrees.keeps_self
  split
  · split
    · exact ⟨_, rfl, hself⟩
    split
    · exact ⟨_, rfl, hself⟩
    split
    · exact ⟨_, rfl, hself⟩
    rename_i hpresented
    push Not at hpresented
    refine ⟨_, rfl, h.drained.agrees.restate hrecord { record with
      cancelRequested := true, state := .cancelRequested } rfl rfl rfl ?_ ?_ ?_ _ _⟩ <;>
      rw [hpresented] <;> simp [DialogStateV1.isActive, DialogStateV1.isTerminal]
  · exact ⟨_, rfl, hself⟩

theorem Agrees.updateProgress {patch : DialogProgressPatchV1} :
    Served b (b.updateProgress service ownerToken handle patch nowMs) := by
  refine h.onOwned fun record hrecord => ?_
  have hself := h.drained.agrees.keeps_self
  iterate 4
    split
    · exact ⟨_, rfl, hself⟩
  · rename_i shown _
    exact ⟨_, rfl, h.drained.agrees.restate hrecord { record with progress := some shown } rfl rfl
      rfl Iff.rfl rfl rfl _ _⟩

theorem Agrees.completeProgress {completion : DialogProgressCompletionV1} :
    Served b (b.completeProgress service ownerToken handle completion nowMs) := by
  refine h.onOwned fun record hrecord => ?_
  have hself := h.drained.agrees.keeps_self
  iterate 3
    split
    · exact ⟨_, rfl, hself⟩
  · exact ⟨_, rfl, h.drained.agrees.keeps_transitionTerminal handle (Set.empty_subset _) .resolved
      rfl _ nowMs .progressComplete⟩

omit h

theorem exists_result : ∃ found, b.result service ownerToken handle = some found := by
  rw [result]
  split
  · exact ⟨_, rfl⟩
  rename_i hok
  obtain ⟨_, hrecord, -⟩ := checkOwner_ok hok
  rw [hrecord]
  exact ⟨_, rfl⟩

theorem Agrees.withdrawOwner (h : Agrees b ∅) (o : Orders) (ownerService : String) (nowMs : Nat) :
    Keeps b (b.withdrawOwner o ownerService nowMs).1 := by
  have hm := h.maintained o nowMs
  exact hm.trans (hm.agrees.keeps_transitionAll _ .failed rfl nowMs .withdraw)

theorem Agrees.expire (h : Agrees b ∅) (o : Orders) (nowMs : Nat) :
    Keeps b (b.expire o nowMs).1 := by
  obtain ⟨hagrees, hshrinks⟩ := h.drained.agrees.expireDue o nowMs
  exact ⟨{ hagrees with }, hshrinks.limits, hshrinks.retention⟩

theorem Agrees.gc (h : Agrees b ∅) (o : Orders) (nowMs : Nat) : Keeps b (b.gc o nowMs).1 :=
  (h.keeps_maintain o nowMs).trans (h.keeps_maintain o nowMs).agrees.drained

end

end DialogBroker

open DialogBroker

section

variable {σ : Type} (tryConsume : σ → String → Nat → Bool × σ) {b : DialogBroker σ}

theorem reply_some {α : Type} {outcome : Outcome σ α} (reply : α → Reply)
    (h : Served b outcome) : ∃ out, Outcome.reply reply outcome = some out ∧ Keeps b out.1 := by
  obtain ⟨_, rfl, hkeeps⟩ := h
  exact ⟨_, rfl, hkeeps⟩

theorem DialogBroker.Agrees.serve (h : Agrees b ∅) (hcounter : b.nextAttemptToken < u64Max)
    (a : Act) : ∃ out, serve tryConsume b a = some out ∧ Keeps b out.1 := by
  obtain ⟨o, call⟩ := a
  cases call with
  | «open» => exact reply_some _ h.open
  | registerPresenter => exact reply_some _ h.registerPresenter
  | releasePresenter => exact reply_some _ h.releasePresenter
  | nextPresentation => exact reply_some _ (h.nextPresentation hcounter)
  | markPresented => exact reply_some _ h.markPresented
  | resolve => exact reply_some _ h.resolve
  | resolveAsOwner => exact ⟨_, rfl, h.keeps_self⟩
  | failPresentation => exact reply_some _ h.failPresentation
  | cancel => exact reply_some _ h.cancel
  | requestProgressCancel => exact reply_some _ h.requestProgressCancel
  | updateProgress => exact reply_some _ h.updateProgress
  | completeProgress => exact reply_some _ h.completeProgress
  | result =>
    obtain ⟨_, hfound⟩ := exists_result
    exact ⟨_, congrArg (Option.map _) hfound, h.keeps_self⟩
  | drainTransitions => exact ⟨_, rfl, { h with }, rfl, rfl⟩
  | withdrawOwner owner nowMs => exact ⟨_, rfl, h.withdrawOwner o owner nowMs⟩
  | expire nowMs => exact ⟨_, rfl, h.expire o nowMs⟩
  | gc nowMs => exact ⟨_, rfl, h.gc o nowMs⟩

theorem agrees_new (rateLimiter : σ) (limits : DialogQueueLimits)
    (retention : DialogRetentionPolicy) (instanceEpoch : Nat) :
    Agrees (newWithRetention rateLimiter limits retention instanceEpoch) ∅ := by
  have habsurd : ∀ {j r}, (newWithRetention rateLimiter limits retention
      instanceEpoch).records.lookup j = some r → False := by
    intro j r hr
    cases hr
  refine ⟨⟨fun j r hr => (habsurd hr).elim, ?_, nodup_nil, fun j => ?_,
    fun j r hr => (habsurd hr).elim, fun j hj => absurd hj (Set.notMem_empty j), Nat.zero_le _,
    fun origin => Nat.zero_le _, Nat.zero_le _⟩, Nat.zero_le _⟩
  · exact FairQueue.empty_holds
  · exact ⟨fun hj => (not_mem_nil hj).elim, fun ⟨r, hr, _⟩ => (habsurd hr).elim⟩

/-- What the broker's lists, records and limits have to say about each other. -/
structure Consistent (limits : DialogQueueLimits) (retention : DialogRetentionPolicy)
    (b : DialogBroker σ) : Prop where
  queuedOnce : ∀ handle record, b.records.lookup handle = some record → record.state = .queued →
    (b.waiting.queueOf record.ownerService).count handle = 1
  queuedOnly : ∀ origin, ∀ handle ∈ b.waiting.queueOf origin,
    ∃ record, b.records.lookup handle = some record ∧ record.state = .queued ∧
      record.ownerService = origin
  turns : b.waiting.turns.Nodup ∧
    ∀ origin, origin ∈ b.waiting.turns ↔ b.waiting.queueOf origin ≠ []
  terminals : b.terminalOrder.Nodup ∧ ∀ handle, handle ∈ b.terminalOrder ↔
    ∃ record, b.records.lookup handle = some record ∧ record.state.isTerminal = true
  attempts : ∀ handle record, b.records.lookup handle = some record →
    (record.attempt.isSome = true ↔ record.state = .presenting ∨ record.state = .presented ∨
      record.state = .cancelRequested) ∧
    ∀ attempt, record.attempt = some attempt →
      ∃ lease, b.presenter = some lease ∧ lease.generation = attempt.generation
  queueLimit : b.queuedLen ≤ limits.total
  originLimit : ∀ origin, (b.waiting.queueOf origin).length ≤ limits.perOrigin
  terminalLimit : b.terminalLen ≤ retention.terminal
  activeLimit : b.activeLen ≤ retention.active

theorem DialogBroker.Agrees.consistent (h : Agrees b ∅) : Consistent b.limits b.retention b where
  queuedOnce := by
    intro handle record hrecord hqueued
    have hmem : handle ∈ b.waiting.queueOf record.ownerService := (h.waiting.mem _ _).mpr
      (waitingOf_eq_some.mpr ⟨record, hrecord, hqueued, rfl⟩)
    exact count_eq_one_of_mem (h.waiting.nodup _) hmem
  queuedOnly origin handle hmem := waitingOf_eq_some.mp ((h.waiting.mem origin handle).mp hmem)
  turns := ⟨h.waiting.turnsNodup, h.waiting.turn⟩
  terminals := ⟨h.terminalNodup, h.terminal⟩
  attempts := by
    intro handle record hrecord
    obtain ⟨-, hfirm, hcurrent⟩ := h.attempts handle record hrecord
    refine ⟨?_, hcurrent⟩
    rw [hfirm (Set.notMem_empty handle)]
    cases record.state <;> simp [DialogStateV1.isActive]
  queueLimit := h.queueBound
  originLimit := h.originBound
  terminalLimit := h.terminalBound
  activeLimit := h.activeBound

/-- While the attempt counter lasts no `expect` fails, and queues, turns and limits agree with the
records. -/
theorem dialog_broker_consistent (rateLimiter : σ) (limits : DialogQueueLimits)
    (retention : DialogRetentionPolicy) (instanceEpoch : Nat) (acts : List Act)
    (hcounter : Guarded (step tryConsume) (fun b _ => b.nextAttemptToken < u64Max)
      (newWithRetention rateLimiter limits retention instanceEpoch) acts) :
    ∃ b, runFrom (step tryConsume) (newWithRetention rateLimiter limits retention instanceEpoch)
      acts = some b ∧ Consistent limits retention b := by
  obtain ⟨b, hrun, hagrees, hlimits, hretention⟩ := exists_runFrom_guarded
    (P := fun b => Agrees b ∅ ∧ b.limits = limits ∧ b.retention = retention)
    (fun b a hb hok => by
      obtain ⟨out, hout, hkeeps⟩ := hb.1.serve tryConsume hok a
      exact ⟨out.1, by rw [step, hout]; rfl, hkeeps.agrees, hkeeps.limits.trans hb.2.1,
        hkeeps.retention.trans hb.2.2⟩)
    ⟨agrees_new rateLimiter limits retention instanceEpoch, rfl, rfl⟩ hcounter
  exact ⟨b, hrun, hlimits ▸ hretention ▸ hagrees.consistent⟩

end

private def greetingRequest : DialogOpenRequestV1 := ⟨.message ⟨"Hello", none, .info⟩ none, none⟩

private def screenLease : PresenterLease := ⟨"screen", 1, 7⟩

private def shownActs : List Act :=
  [.open "player" "t1" greetingRequest 0 "d1", .registerPresenter "screen" 1,
    .open "player" "t2" greetingRequest 2 "d2", .nextPresentation screenLease 3,
    .markPresented screenLease "d1" 1 4, .resolve screenLease "d1" 1 .message 5].map (⟨.plain, ·⟩)

private def tokensLeft (b : DialogBroker Unit) (_ : Act) : Bool :=
  decide (b.nextAttemptToken < u64Max)

private theorem shownActs_tokens : checkRun (step fun (s : Unit) _ _ => (true, s)) tokensLeft
    (newWithRetention () ⟨1, 1⟩ ⟨1, 1, 9⟩ 7) shownActs = true := by
  decide +kernel

theorem dialog_broker_consistent_shown :
    ∃ b, runFrom (step fun (s : Unit) _ _ => (true, s)) (newWithRetention () ⟨1, 1⟩ ⟨1, 1, 9⟩ 7)
      shownActs = some b ∧ Consistent ⟨1, 1⟩ ⟨1, 1, 9⟩ b :=
  dialog_broker_consistent (fun s _ _ => (true, s)) () ⟨1, 1⟩ ⟨1, 1, 9⟩ 7 shownActs
    (guarded_of_checkRun (fun _ _ h => of_decide_eq_true h) shownActs_tokens)

end Cosmix.Interaction
