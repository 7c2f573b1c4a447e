/- source: cosmix-interaction-broker/src/dialog.rs
   digest: The dialog broker: records, waiting queue, presenter attempts, retention. -/

import Cosmix.Interaction.Schema
import Cosmix.Lib.FairQueue
import Cosmix.Lib.Machine
import Cosmix.Lib.Maps
import Mathlib.Data.List.Destutter

/-! A hash map is a table with the order in which a call walks it. An `expect` of the source is a
lookup whose absence ends the call with none. Times are milliseconds; the rate limiter is any
function that says yes or no and moves its own state. -/

namespace Cosmix.Interaction

open Cosmix.Lib

abbrev InteractionHandle := String
abbrev OwnerToken := String

def maxDialogPreDisplayRequeues : Nat := 3
def dialogTransitionMutationHeadroom : Nat := 2
def u64Max : Nat := 2 ^ 64 - 1

structure DialogQueueLimits where
  total : Nat := 64
  perOrigin : Nat := 8
deriving DecidableEq

structure DialogRetentionPolicy where
  active : Nat := 1
  terminal : Nat := 256
  terminalTtlMs : Nat := 15 * 60 * 1000
deriving DecidableEq

structure PresenterLease where
  service : String
  (generation instanceEpoch : Nat)
deriving DecidableEq

structure DialogOpenResponse where
  handle : InteractionHandle
  ownerToken : OwnerToken
  state : DialogStateV1
deriving DecidableEq

structure ActiveAttempt where
  (generation token : Nat)
deriving DecidableEq

structure DialogProgressSnapshot where
  message : Option String
  progress : DialogProgressValueV1
deriving DecidableEq

structure DialogPresentation where
  handle : InteractionHandle
  attemptToken : Nat
  request : DialogOpenRequestV1
  progress : Option DialogProgressSnapshot
  cancelRequested : Bool
deriving DecidableEq

inductive DialogBrokerError
  | invalid (error : DialogValidationError)
  | rateLimited
  | queueFull (max : Nat)
  | originQueueFull (max : Nat)
  | duplicateHandle
  | notFound
  | wrongOwner
  | noPresenter
  | staleLease
  | staleAttempt
  | counterExhausted
  | alreadyTerminal
  | expired
  | invalidState (state : DialogStateV1)
  | ownerCannotResolve
  | progressPresenterResolution
  | notProgress
  | notCancellable
deriving DecidableEq

structure DialogRecord where
  handle : InteractionHandle
  ownerService : String
  ownerToken : OwnerToken
  request : DialogOpenRequestV1
  state : DialogStateV1
  createdAtMs : Nat
  (expiresAtMs terminalAtMs : Option Nat)
  attempt : Option ActiveAttempt
  progress : Option DialogProgressSnapshot
  (cancelRequested everPresented : Bool)
  preDisplayRequeues : Nat
  value : Option DialogValueV1
deriving DecidableEq

inductive DialogTransitionCause
  | open | present | markPresented | resolve | fail | cancel | progressUpdate | progressComplete
  | progressCancel | replace | release | expire | evict | withdraw | quarantine
deriving DecidableEq

structure DialogTransition where
  handle : InteractionHandle
  (source target : Option DialogStateV1)
  cause : DialogTransitionCause
deriving DecidableEq

/-- The waiting queue stands for `queued_by_origin` and `origin_turns`. -/
structure DialogBroker (σ : Type) where
  rateLimiter : σ
  limits : DialogQueueLimits
  instanceEpoch : Nat
  records : Table InteractionHandle DialogRecord
  waiting : FairQueue String InteractionHandle
  presenter : Option PresenterLease
  (nextPresenterGeneration nextAttemptToken : Nat)
  retention : DialogRetentionPolicy
  (terminalOrder pendingExpirations pendingCountEvictions : List InteractionHandle)
  pendingTransitions : List DialogTransition
  transitionLimit : Nat
  transitionsOverflowed : Bool

structure DialogGcOutcome where
  (expired evicted : List InteractionHandle)
deriving DecidableEq

/-- The orders in which one call walks the records and the protected origins. -/
structure Orders where
  records : Walk DialogRecord
  origins : Walk (Sigma fun _ : String => Nat)

def Orders.plain : Orders := ⟨.plain _, .plain _⟩

/-- What a call ends with: none when an `expect` fails. -/
abbrev Outcome (σ α : Type) := Option (DialogBroker σ × Except DialogBrokerError α)

namespace DialogStateV1

def isActive : DialogStateV1 → Bool
  | .presenting | .presented | .cancelRequested => true
  | _ => false

end DialogStateV1

def DialogRequestV1.initialProgress : DialogRequestV1 → Option DialogProgressSnapshot
  | .progress common shown _ => some ⟨common.message, shown⟩
  | _ => none

namespace DialogRecord

variable (record : DialogRecord)

def isDue (nowMs : Nat) : Bool :=
  !record.state.isTerminal && record.expiresAtMs.any (· ≤ nowMs)

def ended (state : DialogStateV1) (value : Option DialogValueV1) (nowMs : Nat) : DialogRecord :=
  { record with state, value, attempt := none, terminalAtMs := some nowMs }

@[simp] theorem ended_state (state : DialogStateV1)
    (value : Option DialogValueV1) (nowMs : Nat) : (record.ended state value nowMs).state = state :=
  rfl

def age : Nat ×ₗ String := toLex (record.createdAtMs, record.handle)

end DialogRecord

namespace DialogBroker

variable {σ : Type}

def newWithRetention (rateLimiter : σ) (limits : DialogQueueLimits)
    (retention : DialogRetentionPolicy) (instanceEpoch : Nat) : DialogBroker σ where
  rateLimiter
  limits
  instanceEpoch
  records := ∅
  waiting := .empty
  presenter := none
  nextPresenterGeneration := 1
  nextAttemptToken := 1
  retention
  terminalOrder := []
  pendingExpirations := []
  pendingCountEvictions := []
  pendingTransitions := []
  transitionLimit :=
    min ((limits.total + retention.active + retention.terminal) * 2 +
      dialogTransitionMutationHeadroom) u64Max
  transitionsOverflowed := false

variable (b : DialogBroker σ)

def queuedLen : Nat := b.waiting.length

def activeLen : Nat := b.records.count (·.state.isActive)

def terminalLen : Nat := b.terminalOrder.length

variable (handle : InteractionHandle)

def recordTransition (source target : Option DialogStateV1)
    (cause : DialogTransitionCause) : DialogBroker σ :=
  let fits := decide (b.pendingTransitions.length < b.transitionLimit)
  { b with
    pendingTransitions :=
      if fits then b.pendingTransitions ++ [⟨handle, source, target, cause⟩]
      else b.pendingTransitions
    transitionsOverflowed := b.transitionsOverflowed || !fits }

def drainPendingReport : DialogBroker σ × DialogGcOutcome :=
  ({ b with pendingExpirations := [], pendingCountEvictions := [] },
    ⟨b.pendingExpirations, b.pendingCountEvictions⟩)

/-- The broker with its pending report thrown away, as every changing call starts. -/
def drained : DialogBroker σ := b.drainPendingReport.1

def enqueue (origin : String) (handle : InteractionHandle) : DialogBroker σ :=
  { b with waiting := b.waiting.enqueue origin handle }

def removeFromQueue : DialogBroker σ :=
  { b with waiting :=
      match b.records.lookup handle with
      | none => b.waiting
      | some record => b.waiting.remove record.ownerService handle }

/-- Turns are taken until one gives a queued record; each shortens the turns or queues. -/
def dequeueFairFrom : Nat → DialogBroker σ → Option (Option InteractionHandle × DialogBroker σ)
  | 0, b => some (none, b)
  | fuel + 1, b =>
    match b.waiting.turns with
    | [] => some (none, b)
    | origin :: rest => do
      let queue ← b.waiting.queues.lookup origin
      let b := { b with waiting := b.waiting.takeTurn origin rest queue }
      match queue.head? with
      | none => dequeueFairFrom fuel b
      | some handle =>
        if (b.records.lookup handle).any (·.state == .queued) then some (some handle, b)
        else dequeueFairFrom fuel b

def dequeueFair : Option (Option InteractionHandle × DialogBroker σ) :=
  dequeueFairFrom (b.waiting.length + b.waiting.turns.length) b

def oldestQueued (origin : Option String) : Option InteractionHandle :=
  ((sortByKey DialogRecord.age (b.records.values.filter fun record =>
    record.state == .queued && origin.all (record.ownerService == ·))).head?).map (·.handle)

def evictOldest : DialogBroker σ :=
  match b.terminalOrder with
  | [] => b
  | handle :: rest =>
    match b.records.lookup handle with
    | none => { b with terminalOrder := rest }
    | some record =>
      let b := { b with terminalOrder := rest, records := b.records.erase handle }
      let b := b.recordTransition handle (some record.state) none .evict
      { b with pendingCountEvictions := b.pendingCountEvictions ++ [handle] }

def trimTerminalCount : DialogBroker σ :=
  evictOldest^[b.terminalOrder.length - b.retention.terminal] b

variable (record : DialogRecord) (state : DialogStateV1)

/-- A live record becomes terminal. Unqueueing its handle leaves the records alone. -/
def settle
    (value : Option DialogValueV1) (nowMs : Nat) (cause : DialogTransitionCause) : DialogBroker σ :=
  let b := b.removeFromQueue handle
  let b := { b with
    records := b.records.insert handle (record.ended state value nowMs)
    terminalOrder := b.terminalOrder ++ [handle]
    pendingExpirations :=
      if state = DialogStateV1.expired then b.pendingExpirations ++ [handle]
      else b.pendingExpirations }
  b.recordTransition handle (some record.state) (some state) cause

def transitionTerminal
    (value : Option DialogValueV1) (nowMs : Nat) (cause : DialogTransitionCause) : DialogBroker σ :=
  match b.records.lookup handle with
  | none => b
  | some record =>
    if record.state.isTerminal then b
    else (b.settle handle record state value nowMs cause).trimTerminalCount

/-- Whether the retention time of a terminal handle is over; a handle without a record goes too. -/
def ttlOver (nowMs : Nat) (handle : InteractionHandle) : Bool :=
  match b.records.lookup handle with
  | none => true
  | some record => record.terminalAtMs.any fun at_ => b.retention.terminalTtlMs ≤ nowMs - at_

def evictRecord : DialogBroker σ :=
  match b.records.lookup handle with
  | none => b
  | some record =>
    { b with records := b.records.erase handle }.recordTransition handle (some record.state) none
      .evict

def evictTerminalTtl (nowMs : Nat) : DialogBroker σ × List InteractionHandle :=
  let evicted := b.terminalOrder.filter (b.ttlOver nowMs)
  let b := evicted.foldl evictRecord b
  ({ b with terminalOrder := b.terminalOrder.filter (· ∉ evicted) }, evicted)

variable (handles : List InteractionHandle)

def transitionAll (state : DialogStateV1) (nowMs : Nat)
    (cause : DialogTransitionCause) : DialogBroker σ :=
  handles.foldl (fun b handle => b.transitionTerminal handle state none nowMs cause) b

variable (o : Orders)

def expireDue (nowMs : Nat) : DialogBroker σ :=
  b.transitionAll (((o.records.walk b.records.values).filter (·.isDue nowMs)).map (·.handle))
    .expired nowMs .expire

def maintain (nowMs : Nat) : DialogBroker σ :=
  let (b, evicted) := (b.expireDue o nowMs).evictTerminalTtl nowMs
  { b with pendingCountEvictions := b.pendingCountEvictions ++ evicted }

/-- Whether the handle is due, and the broker after it was expired if so. -/
def expireHandleIfDue (nowMs : Nat) : Bool × DialogBroker σ :=
  if (b.records.lookup handle).any (·.isDue nowMs) then
    (true, b.transitionTerminal handle .expired none nowMs .expire)
  else (false, b)

def checkLease (candidate : PresenterLease) : Except DialogBrokerError Unit :=
  match b.presenter with
  | none => .error .noPresenter
  | some current =>
    if candidate.instanceEpoch ≠ b.instanceEpoch ∨ current ≠ candidate then .error .staleLease
    else .ok ()

variable (service : String)

def checkOwner (token : OwnerToken) (handle : InteractionHandle) : Except DialogBrokerError Unit :=
  match b.records.lookup handle with
  | none => .error .notFound
  | some record =>
    if record.ownerService ≠ service ∨ record.ownerToken ≠ token then .error .wrongOwner else .ok ()

def checkCurrentAttempt (generation token : Nat) : Except DialogBrokerError Unit :=
  match b.records.lookup handle with
  | none => .error .notFound
  | some record =>
    if record.attempt = some ⟨generation, token⟩ then .ok () else .error .staleAttempt

def mintPresenterGeneration : DialogBroker σ × Except DialogBrokerError Nat :=
  if b.nextPresenterGeneration < u64Max then
    ({ b with nextPresenterGeneration := b.nextPresenterGeneration + 1 },
      .ok b.nextPresenterGeneration)
  else (b, .error .counterExhausted)

def mintAttemptToken : DialogBroker σ × Except DialogBrokerError Nat :=
  if b.nextAttemptToken < u64Max then
    ({ b with nextAttemptToken := b.nextAttemptToken + 1 }, .ok b.nextAttemptToken)
  else (b, .error .counterExhausted)

/-- A record that lost its attempt before it was ever displayed, too often. -/
def isSpent : Bool :=
  !record.everPresented && decide (maxDialogPreDisplayRequeues ≤ record.preDisplayRequeues)

def detached : DialogRecord :=
  { record with
    attempt := none
    preDisplayRequeues :=
      if record.everPresented || isSpent record then record.preDisplayRequeues
      else record.preDisplayRequeues + 1 }

/-- Every handle loses its attempt; the result tells the eligible from the quarantined. -/
def detachAll : DialogBroker σ → List (Nat × InteractionHandle) →
    Option (DialogBroker σ × List (Nat × InteractionHandle) × List InteractionHandle)
  | b, [] => some (b, [], [])
  | b, item :: items => do
    let record ← b.records.lookup item.2
    let (b, eligible, quarantined) ←
      detachAll { b with records := b.records.insert item.2 (detached record) } items
    if isSpent record then some (b, eligible, item.2 :: quarantined)
    else some (b, item :: eligible, quarantined)

def bump (counts : Table String Nat) (origin : String) : Table String Nat :=
  counts.insert origin ((counts.lookup origin).getD 0 + 1)

def countOrigins (counts : Table String Nat) :
    List (Nat × InteractionHandle) → Option (Table String Nat)
  | [] => some counts
  | item :: items => do
    let record ← b.records.lookup item.2
    countOrigins (bump counts record.ownerService) items

def queuedRecords : Nat := b.records.count (·.state == .queued)

/-- `while let Some(candidate) = oldest_queued(None)`: every round leaves one queued record less. -/
def failAllQueued (nowMs : Nat) (cause : DialogTransitionCause) : Nat → DialogBroker σ →
    DialogBroker σ
  | 0, b => b
  | fuel + 1, b =>
    match b.oldestQueued none with
    | none => b
    | some candidate =>
      failAllQueued nowMs cause fuel (b.transitionTerminal candidate .failed none nowMs cause)

/-- Queued records, of an origin or of all, fail while the queue is over; their number bounds the
rounds. -/
def failWhile (full : DialogBroker σ → Bool) (origin : Option String) (nowMs : Nat)
    (cause : DialogTransitionCause) : Nat → DialogBroker σ → Option (DialogBroker σ)
  | 0, b => if full b then none else some b
  | fuel + 1, b =>
    if full b then do
      let candidate ← b.oldestQueued origin
      failWhile full origin nowMs cause fuel
        (b.transitionTerminal candidate .failed none nowMs cause)
    else some b

def overOrigin (origin : String) (protectedCount : Nat) (b : DialogBroker σ) : Bool :=
  decide (b.limits.perOrigin < (b.waiting.queueOf origin).length + protectedCount)

def overTotal (protectedCount : Nat) (b : DialogBroker σ) : Bool :=
  decide (b.limits.total < b.queuedLen + protectedCount)

def makeRoomByOrigin (nowMs : Nat) (cause : DialogTransitionCause) :
    List (Sigma fun _ : String => Nat) → DialogBroker σ → Option (DialogBroker σ)
  | [], b => some b
  | ⟨origin, protectedCount⟩ :: origins, b => do
    let b ← failWhile (overOrigin origin protectedCount) (some origin) nowMs cause b.queuedRecords b
    makeRoomByOrigin nowMs cause origins b

/-- Room for the eligible handles, taken from the dialogs that wait already. -/
def makeRoom (eligible : Nat) (protectedPerOrigin : Table String Nat) (nowMs : Nat)
    (cause : DialogTransitionCause) : Option (DialogBroker σ) :=
  if b.limits.total < eligible ∨ protectedPerOrigin.values.any (b.limits.perOrigin < ·) then
    some (failAllQueued nowMs cause b.queuedRecords b)
  else do
    let b ← makeRoomByOrigin nowMs cause (o.origins.walk protectedPerOrigin.entries) b
    failWhile (overTotal eligible) none nowMs cause b.queuedRecords b

def requeue (cause : DialogTransitionCause) : DialogBroker σ :=
  let b := { b with records := b.records.insert handle { record with state := .queued } }
  (b.enqueue record.ownerService handle).recordTransition handle (some record.state) (some .queued)
    cause

/-- The eligible handles enter the queue as long as the limits allow it; the others fail. -/
def acceptAll (nowMs : Nat) (cause : DialogTransitionCause) : Nat → Table String Nat →
    List (Nat × InteractionHandle) → DialogBroker σ → Option (DialogBroker σ)
  | _, _, [], b => some b
  | accepted, perOrigin, item :: items, b => do
    let record ← b.records.lookup item.2
    if accepted < b.limits.total ∧
        (perOrigin.lookup record.ownerService).getD 0 < b.limits.perOrigin then
      acceptAll nowMs cause (accepted + 1) (bump perOrigin record.ownerService) items
        (b.requeue item.2 record cause)
    else
      acceptAll nowMs cause accepted perOrigin items
        (b.transitionTerminal item.2 .failed none nowMs cause)

/-- A handle whose record is not terminal, with the time of its creation. -/
def liveItem : Option (Nat × InteractionHandle) :=
  ((b.records.lookup handle).filter (!·.state.isTerminal)).map fun record =>
    (record.createdAtMs, handle)

/-- The handles whose records are not terminal, oldest first and each once. -/
def liveByAge : List (Nat × InteractionHandle) :=
  (sortByKey (toLex : Nat × String → Nat ×ₗ String) (handles.filterMap b.liveItem)).destutter
    fun left right => left.2 ≠ right.2

def requeueProtected (handles : List InteractionHandle) (nowMs : Nat)
    (cause : DialogTransitionCause) : Option (DialogBroker σ) := do
  let (b, eligible, quarantined) ← detachAll b (b.liveByAge handles)
  let b := b.transitionAll quarantined .failed nowMs .quarantine
  let protectedPerOrigin ← b.countOrigins ∅ eligible
  let b ← b.makeRoom o eligible.length protectedPerOrigin nowMs cause
  acceptAll nowMs cause 0 ∅ eligible b

def requeueGeneration (generation nowMs : Nat) (cause : DialogTransitionCause) :
    Option (DialogBroker σ) :=
  b.requeueProtected o (((o.records.walk b.records.values).filter fun record =>
    !record.state.isTerminal && record.attempt.any (·.generation == generation)).map (·.handle))
    nowMs cause

def openRecord (ownerService : String) (ownerToken : OwnerToken) (request : DialogOpenRequestV1)
    (nowMs : Nat) (freshHandle : InteractionHandle) : DialogRecord where
  handle := freshHandle
  ownerService
  ownerToken
  request
  state := .queued
  createdAtMs := nowMs
  expiresAtMs := request.deadlineMs.map fun duration => min (nowMs + duration) u64Max
  terminalAtMs := none
  attempt := none
  progress := request.dialog.initialProgress
  cancelRequested := false
  everPresented := false
  preDisplayRequeues := 0
  value := none

def «open» (tryConsume : σ → String → Nat → Bool × σ) (o : Orders) (ownerService : String)
    (ownerToken : OwnerToken) (request : DialogOpenRequestV1) (nowMs : Nat)
    (freshHandle : InteractionHandle) : Outcome σ DialogOpenResponse :=
  let b := b.drained
  match request.validate with
  | .error error => some (b, .error (.invalid error))
  | .ok () =>
    let b := b.maintain o nowMs
    if (b.records.lookup freshHandle).isSome then some (b, .error .duplicateHandle)
    else if b.limits.total ≤ b.queuedLen then some (b, .error (.queueFull b.limits.total))
    else if b.limits.perOrigin ≤ (b.waiting.queueOf ownerService).length then
      some (b, .error (.originQueueFull b.limits.perOrigin))
    else
      let (allowed, rateLimiter) := tryConsume b.rateLimiter ownerService nowMs
      let b := { b with rateLimiter }
      if !allowed then some (b, .error .rateLimited)
      else
        let record := openRecord ownerService ownerToken request nowMs freshHandle
        let b := { b with records := b.records.insert freshHandle record }
        let b := b.enqueue ownerService freshHandle
        some (b.recordTransition freshHandle none (some .queued) .open,
          .ok ⟨freshHandle, ownerToken, .queued⟩)

/-- The work of the presenter that is replaced goes back to the queue. -/
def requeueReplaced (nowMs : Nat) : Option (DialogBroker σ) :=
  match b.presenter with
  | none => some b
  | some current => b.requeueGeneration o current.generation nowMs .replace

def registerPresenter (nowMs : Nat) : Outcome σ PresenterLease :=
  match (b.drained.maintain o nowMs).mintPresenterGeneration with
  | (b, .error error) => some (b, .error error)
  | (b, .ok generation) =>
    let lease : PresenterLease := ⟨service, generation, b.instanceEpoch⟩
    (b.requeueReplaced o nowMs).map fun b => ({ b with presenter := some lease }, .ok lease)

variable (lease : PresenterLease)

def releasePresenter (nowMs : Nat) : Outcome σ Unit :=
  let b := b.drained
  match b.checkLease lease with
  | .error error => some (b, .error error)
  | .ok () =>
    ((b.maintain o nowMs).requeueGeneration o lease.generation nowMs .release).map fun b =>
      ({ b with presenter := none }, .ok ())

def present (handle : InteractionHandle) (record : DialogRecord) (attempt : ActiveAttempt) :
    DialogBroker σ :=
  let shown := { record with state := .presenting, attempt := some attempt }
  { b with records := b.records.insert handle shown }.recordTransition handle (some .queued)
    (some .presenting) .present

def nextPresentation (nowMs : Nat) : Outcome σ (Option DialogPresentation) :=
  let b := b.drained
  match b.checkLease lease with
  | .error error => some (b, .error error)
  | .ok () =>
    let b := b.maintain o nowMs
    if b.retention.active ≤ b.activeLen then some (b, .ok none)
    else
      match b.dequeueFair with
      | none => none
      | some (none, b) => some (b, .ok none)
      | some (some handle, b) =>
        match b.mintAttemptToken with
        | (b, .error error) => some (b, .error error)
        | (b, .ok token) =>
          (b.records.lookup handle).map fun record =>
            (b.present handle record ⟨lease.generation, token⟩,
              .ok (some ⟨handle, token, record.request, record.progress, record.cancelRequested⟩))

/-- The start of the calls on an attempt: lease and attempt are current, and a due dialog expires
instead. -/
def onAttempt (handle : InteractionHandle) (token nowMs : Nat)
    (body : DialogBroker σ → DialogRecord → Outcome σ Unit) : Outcome σ Unit :=
  let b := b.drained
  match b.checkLease lease with
  | .error error => some (b, .error error)
  | .ok () =>
    match b.checkCurrentAttempt handle lease.generation token with
    | .error error => some (b, .error error)
    | .ok () =>
      match b.expireHandleIfDue handle nowMs with
      | (true, b) => some (b, .error .expired)
      | (false, b) => (b.records.lookup handle).bind (body b)

variable (ownerToken : OwnerToken)

/-- The common start of the owner's calls. -/
def onOwned (handle : InteractionHandle) (nowMs : Nat)
    (body : DialogBroker σ → DialogRecord → Outcome σ Unit) : Outcome σ Unit :=
  let b := b.drained
  match b.checkOwner service ownerToken handle with
  | .error error => some (b, .error error)
  | .ok () =>
    match b.expireHandleIfDue handle nowMs with
    | (true, b) => some (b, .error .expired)
    | (false, b) => (b.records.lookup handle).bind (body b)

def stateError : DialogBrokerError :=
  if state.isTerminal then .alreadyTerminal else .invalidState state

/-- A record stays where it is, with a transition reported. -/
def restate (old : DialogStateV1) (cause : DialogTransitionCause) : DialogBroker σ :=
  { b with records := b.records.insert handle record }.recordTransition handle (some old)
    (some record.state) cause

def markPresented (lease : PresenterLease) (handle : InteractionHandle) (token nowMs : Nat) :
    Outcome σ Unit :=
  b.onAttempt lease handle token nowMs fun b record =>
    if record.state ≠ .presenting then some (b, .error (stateError record.state))
    else
      let state := if record.cancelRequested then .cancelRequested else .presented
      some (b.restate handle { record with state, everPresented := true } .presenting
        .markPresented, .ok ())

def rejection (record : DialogRecord) (value : DialogValueV1) : Option DialogBrokerError :=
  if record.ownerService = lease.service then some .ownerCannotResolve
  else if record.state.isTerminal then some .alreadyTerminal
  else if record.state ≠ .presented ∧ record.state ≠ .cancelRequested then
    some (.invalidState record.state)
  else if record.request.dialog.kind = .progress then some .progressPresenterResolution
  else
    match value.validateFor record.request.dialog with
    | .error error => some (.invalid error)
    | .ok () => none

def takeAttempt : DialogBroker σ :=
  { b with records := b.records.insert handle { record with attempt := none } }

/-- A refused decision costs the attempt: the dialog goes back to the queue. -/
def resolve (o : Orders) (lease : PresenterLease) (handle : InteractionHandle) (token : Nat)
    (value : DialogValueV1) (nowMs : Nat) : Outcome σ Unit :=
  b.onAttempt lease handle token nowMs fun b record =>
    let b := b.takeAttempt handle record
    match rejection lease record value with
    | some error =>
      (b.requeueProtected o [handle] nowMs .resolve).map fun b => (b, .error error)
    | none => some (b.transitionTerminal handle .resolved (some value) nowMs .resolve, .ok ())

def resolveAsOwner (handle : InteractionHandle) : Except DialogBrokerError Unit :=
  match b.checkOwner service ownerToken handle with
  | .error error => .error error
  | .ok () => .error .ownerCannotResolve

def failPresentation (handle : InteractionHandle) (token nowMs : Nat) : Outcome σ Unit :=
  b.onAttempt lease handle token nowMs fun b record =>
    let b := b.takeAttempt handle record
    if record.state.isTerminal then some (b, .error .alreadyTerminal)
    else some (b.transitionTerminal handle .failed none nowMs .fail, .ok ())

def cancel (service : String) (ownerToken : OwnerToken) (handle : InteractionHandle) (nowMs : Nat) :
    Outcome σ Unit :=
  b.onOwned service ownerToken handle nowMs fun b record =>
    if record.state.isTerminal then some (b, .error .alreadyTerminal)
    else some (b.transitionTerminal handle .cancelled none nowMs .cancel, .ok ())

def requestProgressCancel (handle : InteractionHandle) (token nowMs : Nat) : Outcome σ Unit :=
  b.onAttempt lease handle token nowMs fun b record =>
    match record.request.dialog with
    | .progress _ _ cancellable =>
      if !cancellable then some (b, .error .notCancellable)
      else if record.state = .cancelRequested then some (b, .ok ())
      else if record.state ≠ .presented then some (b, .error (stateError record.state))
      else some (b.restate handle { record with cancelRequested := true, state := .cancelRequested }
        .presented .progressCancel, .ok ())
    | _ => some (b, .error .notProgress)

/-- The progress shown after a patch; none when the patch changes nothing. -/
def patchProgress (progress : DialogProgressSnapshot) (patch : DialogProgressPatchV1) :
    Option DialogProgressSnapshot :=
  let changed := patch.message.any (progress.message ≠ some ·) ||
    patch.progress.any (progress.progress ≠ ·)
  if changed then
    some ⟨patch.message <|> progress.message, patch.progress.getD progress.progress⟩
  else none

def updateProgress (handle : InteractionHandle)
    (patch : DialogProgressPatchV1) (nowMs : Nat) : Outcome σ Unit :=
  b.onOwned service ownerToken handle nowMs fun b record =>
    match patch.validate with
    | .error error => some (b, .error (.invalid error))
    | .ok () =>
      if record.state.isTerminal then some (b, .error .alreadyTerminal)
      else
        match record.progress with
        | none => some (b, .error .notProgress)
        | some progress =>
          match patchProgress progress patch with
          | none => some (b, .ok ())
          | some progress =>
            some (b.restate handle { record with progress := some progress } record.state
              .progressUpdate, .ok ())

def completeProgress (handle : InteractionHandle)
    (completion : DialogProgressCompletionV1) (nowMs : Nat) : Outcome σ Unit :=
  b.onOwned service ownerToken handle nowMs fun b record =>
    match completion.validate with
    | .error error => some (b, .error (.invalid error))
    | .ok () =>
      if record.state.isTerminal then some (b, .error .alreadyTerminal)
      else if record.progress.isNone then some (b, .error .notProgress)
      else
        some (b.transitionTerminal handle .resolved (some (.progress completion)) nowMs
          .progressComplete, .ok ())

def result (handle : InteractionHandle) :
    Option (Except DialogBrokerError (DialogStateV1 × Option DialogValueV1)) :=
  match b.checkOwner service ownerToken handle with
  | .error error => some (.error error)
  | .ok () => (b.records.lookup handle).map fun record => .ok (record.state, record.value)

def drainTransitions : DialogBroker σ × List DialogTransition × Bool :=
  ({ b with pendingTransitions := [], transitionsOverflowed := false },
    b.pendingTransitions, b.transitionsOverflowed)

def withdrawOwner (ownerService : String) (nowMs : Nat) : DialogBroker σ × List InteractionHandle :=
  let b := b.drained.maintain o nowMs
  let handles := sortByKey (id : String → String)
    (((o.records.walk b.records.values).filter fun record =>
      record.ownerService == ownerService && !record.state.isTerminal).map (·.handle))
  (b.transitionAll handles .failed nowMs .withdraw, handles)

def expire (nowMs : Nat) : DialogBroker σ × List InteractionHandle :=
  let b := b.drained.expireDue o nowMs
  ({ b with pendingExpirations := [] }, b.pendingExpirations)

def gc (nowMs : Nat) : DialogBroker σ × DialogGcOutcome :=
  (b.maintain o nowMs).drainPendingReport

end DialogBroker

inductive Call
  | «open» (ownerService : String) (ownerToken : OwnerToken) (request : DialogOpenRequestV1)
      (nowMs : Nat) (freshHandle : InteractionHandle)
  | registerPresenter (service : String) (nowMs : Nat)
  | releasePresenter (lease : PresenterLease) (nowMs : Nat)
  | nextPresentation (lease : PresenterLease) (nowMs : Nat)
  | markPresented (lease : PresenterLease) (handle : InteractionHandle) (token nowMs : Nat)
  | resolve (lease : PresenterLease) (handle : InteractionHandle) (token : Nat)
      (value : DialogValueV1) (nowMs : Nat)
  | resolveAsOwner (service : String) (ownerToken : OwnerToken) (handle : InteractionHandle)
  | failPresentation (lease : PresenterLease) (handle : InteractionHandle) (token nowMs : Nat)
  | cancel (service : String) (ownerToken : OwnerToken) (handle : InteractionHandle) (nowMs : Nat)
  | requestProgressCancel (lease : PresenterLease) (handle : InteractionHandle) (token nowMs : Nat)
  | updateProgress (service : String) (ownerToken : OwnerToken) (handle : InteractionHandle)
      (patch : DialogProgressPatchV1) (nowMs : Nat)
  | completeProgress (service : String) (ownerToken : OwnerToken) (handle : InteractionHandle)
      (completion : DialogProgressCompletionV1) (nowMs : Nat)
  | result (service : String) (ownerToken : OwnerToken) (handle : InteractionHandle)
  | drainTransitions
  | withdrawOwner (ownerService : String) (nowMs : Nat)
  | expire (nowMs : Nat)
  | gc (nowMs : Nat)
deriving DecidableEq

inductive Reply
  | done
  | opened (response : DialogOpenResponse)
  | lease (lease : PresenterLease)
  | presentation (presentation : Option DialogPresentation)
  | result (state : DialogStateV1) (value : Option DialogValueV1)
  | transitions (transitions : List DialogTransition) (overflowed : Bool)
  | handles (handles : List InteractionHandle)
  | swept (outcome : DialogGcOutcome)
  | error (error : DialogBrokerError)
deriving DecidableEq

def Reply.ofExcept {α : Type} (reply : α → Reply) : Except DialogBrokerError α → Reply
  | .ok a => reply a
  | .error refused => .error refused

def Outcome.reply {σ α : Type} (reply : α → Reply) (outcome : Outcome σ α) :
    Option (DialogBroker σ × Reply) :=
  outcome.map fun out => (out.1, .ofExcept reply out.2)

structure Act where
  orders : Orders
  call : Call

section

variable {σ : Type} (tryConsume : σ → String → Nat → Bool × σ)

def serve (b : DialogBroker σ) (a : Act) : Option (DialogBroker σ × Reply) :=
  match a.call with
  | .open owner token request nowMs handle =>
    Outcome.reply .opened (b.open tryConsume a.orders owner token request nowMs handle)
  | .registerPresenter service nowMs =>
    Outcome.reply .lease (b.registerPresenter a.orders service nowMs)
  | .releasePresenter lease nowMs =>
    Outcome.reply (fun _ => .done) (b.releasePresenter a.orders lease nowMs)
  | .nextPresentation lease nowMs =>
    Outcome.reply .presentation (b.nextPresentation a.orders lease nowMs)
  | .markPresented lease handle token nowMs =>
    Outcome.reply (fun _ => .done) (b.markPresented lease handle token nowMs)
  | .resolve lease handle token value nowMs =>
    Outcome.reply (fun _ => .done) (b.resolve a.orders lease handle token value nowMs)
  | .resolveAsOwner service token handle =>
    some (b, .ofExcept (fun _ => .done) (b.resolveAsOwner service token handle))
  | .failPresentation lease handle token nowMs =>
    Outcome.reply (fun _ => .done) (b.failPresentation lease handle token nowMs)
  | .cancel service token handle nowMs =>
    Outcome.reply (fun _ => .done) (b.cancel service token handle nowMs)
  | .requestProgressCancel lease handle token nowMs =>
    Outcome.reply (fun _ => .done) (b.requestProgressCancel lease handle token nowMs)
  | .updateProgress service token handle patch nowMs =>
    Outcome.reply (fun _ => .done) (b.updateProgress service token handle patch nowMs)
  | .completeProgress service token handle completion nowMs =>
    Outcome.reply (fun _ => .done) (b.completeProgress service token handle completion nowMs)
  | .result service token handle =>
    (b.result service token handle).map fun found =>
      (b, .ofExcept (fun out => .result out.1 out.2) found)
  | .drainTransitions =>
    some (b.drainTransitions.1, .transitions b.drainTransitions.2.1 b.drainTransitions.2.2)
  | .withdrawOwner owner nowMs =>
    some ((b.withdrawOwner a.orders owner nowMs).1,
      .handles (b.withdrawOwner a.orders owner nowMs).2)
  | .expire nowMs => some ((b.expire a.orders nowMs).1, .handles (b.expire a.orders nowMs).2)
  | .gc nowMs => some ((b.gc a.orders nowMs).1, .swept (b.gc a.orders nowMs).2)

def step (b : DialogBroker σ) (a : Act) : Option (DialogBroker σ) :=
  (serve tryConsume b a).map Prod.fst

end

end Cosmix.Interaction
