/- source: cosmix-interaction-broker/src/dialog.rs
   digest: A decision comes once, from the presenter showing the dialog. -/

import Cosmix.Interaction.Agreement

namespace Cosmix.Interaction

open Cosmix.Lib DialogBroker List
open DialogStateV1 (not_terminal_of_active ne_queued_of_terminal)

abbrev Event := Call × Reply

variable (j : InteractionHandle)

def resolvesOf : Event → Bool
  | (.resolve _ handle _ _ _, .done) => handle == j
  | _ => false

def completesOf : Event → Bool
  | (.completeProgress _ _ handle _ _, .done) => handle == j
  | _ => false

def opensOf : Event → Bool
  | (.open _ _ _ _ handle, .opened _) => handle == j
  | _ => false

def tokenOf : Event → Option Nat
  | (.nextPresentation _ _, .presentation (some shown)) =>
    if shown.handle = j then some shown.attemptToken else none
  | _ => none

def leaseAfter : Event → Option PresenterLease → Option PresenterLease
  | (.registerPresenter _ _, .lease lease), _ => some lease
  | (.releasePresenter _ _, .done), _ => none
  | _, old => old

variable (past : List Event)

def leaseOf : Option PresenterLease := past.foldr leaseAfter none

def lastToken : Option Nat := past.findSome? (tokenOf j)

/-- The calls since the handle was last opened. -/
def life : List Event :=
  past.takeWhile fun e => !opensOf j e

/-- The attempt was marked presented after its token was minted. -/
def Marked (token : Nat) (past : List Event) : Prop :=
  ∃ newer older lease nowMs, life j past = newer ++ (.markPresented lease j token nowMs, .done) :: older ∧
    lastToken j older = some token

/-- The value was passed to the one successful `resolve` call since the opening: under the current
lease and attempt, once presented, before the deadline, by a service other than the owner, and
valid. -/
def DecidedBy (j : InteractionHandle) (r : DialogRecord) (value : DialogValueV1) : Prop :=
  ∃ newer older lease token nowMs, past = newer ++ (.resolve lease j token value nowMs, .done) :: older ∧
    (life j past).filter (resolvesOf j) = [(.resolve lease j token value nowMs, .done)] ∧
    leaseOf older = some lease ∧ lastToken j older = some token ∧ Marked j token older ∧
    (∀ deadline ∈ r.expiresAtMs, nowMs < deadline) ∧ lease.service ≠ r.ownerService ∧
    value.validateFor r.request.dialog = .ok ()

/-- The owner passed the value to the one successful `complete_progress` call since the dialog was
opened. -/
def CompletedBy (j : InteractionHandle) (r : DialogRecord) (value : DialogValueV1) : Prop :=
  ∃ completion nowMs, value = .progress completion ∧
    (life j past).filter (completesOf j) =
      [(.completeProgress r.ownerService r.ownerToken j completion nowMs, .done)]

section

variable {j : InteractionHandle} {e : Event} {past : List Event}

theorem life_cons (h : opensOf j e = false) : life j (e :: past) = e :: life j past :=
  takeWhile_cons_of_pos (by rw [h]; rfl)

theorem life_cons_open (h : opensOf j e = true) : life j (e :: past) = [] :=
  takeWhile_cons_of_neg (by rw [h]; decide)

variable {token : Nat}

theorem lastToken_of_life (h : lastToken j (life j past) = some token) :
    lastToken j past = some token := by
  induction past with
  | nil => exact h
  | cons e past ih =>
    rw [life, takeWhile_cons] at h
    split at h
    · rw [lastToken, List.findSome?_cons] at h ⊢
      cases htoken : tokenOf j e with
      | some =>
        rw [htoken] at h
        exact h
      | none =>
        rw [htoken] at h
        exact ih h
    · cases h

theorem lastToken_cons_none (h : tokenOf j e = none) : lastToken j (e :: past) = lastToken j past := by
  rw [lastToken, List.findSome?_cons, h]
  rfl

theorem lastToken_cons_some (h : tokenOf j e = some token) :
    lastToken j (e :: past) = some token := by
  rw [lastToken, List.findSome?_cons, h]

theorem Marked.cons (h : Marked j token past) (hopen : opensOf j e = false) :
    Marked j token (e :: past) := by
  obtain ⟨newer, older, lease, nowMs, hsplit, htoken⟩ := h
  exact ⟨e :: newer, older, lease, nowMs, by rw [life_cons hopen, hsplit, cons_append], htoken⟩

/-- A call that opens, presents, decides or completes nothing at the handle. -/
structure Quiet (j : InteractionHandle) (e : Event) : Prop where
  resolves : resolvesOf j e = false
  completes : completesOf j e = false
  opens : opensOf j e = false
  token : tokenOf j e = none

theorem quiet_error (call : Call) (error : DialogBrokerError) : Quiet j (call, .error error) := by
  cases call <;> exact ⟨rfl, rfl, rfl, rfl⟩

theorem leaseAfter_error (call : Call) (error : DialogBrokerError) (old : Option PresenterLease) :
    leaseAfter (call, .error error) old = old := by
  cases call <;> rfl

variable {value : DialogValueV1}

theorem DecidedBy.cons {r : DialogRecord} (h : DecidedBy past j r value)
    (hopen : opensOf j e = false) (hresolves : resolvesOf j e = false) :
    DecidedBy (e :: past) j r value := by
  obtain ⟨newer, older, lease, token, nowMs, hsplit, hone, hrest⟩ := h
  refine ⟨e :: newer, older, lease, token, nowMs, by rw [hsplit, cons_append], ?_, hrest⟩
  rw [life_cons hopen, filter_cons_of_neg (by rw [hresolves]; decide), hone]

theorem CompletedBy.cons {r : DialogRecord} (h : CompletedBy past j r value)
    (hopen : opensOf j e = false) (hcompletes : completesOf j e = false) :
    CompletedBy (e :: past) j r value := by
  obtain ⟨completion, nowMs, hvalue, hone⟩ := h
  refine ⟨completion, nowMs, hvalue, ?_⟩
  rw [life_cons hopen, filter_cons_of_neg (by rw [hcompletes]; decide), hone]

end

/-- The moves of one record in a call with its reply. -/
inductive Move {σ : Type} (b : DialogBroker σ) (e : Event) (j : InteractionHandle) (r : DialogRecord) :
    DialogRecord → Prop
  | same (hquiet : Quiet j e) : Move b e j r r
  | ended (hquiet : Quiet j e) (hlive : r.state.isTerminal = false) (requeues : Nat)
      (state : DialogStateV1) (nowMs : Nat) (hstate : state.isTerminal = true) :
      Move b e j r ((withoutAttempt r requeues).ended state none nowMs)
  | queued (hquiet : Quiet j e) (hactive : r.state.isActive = true) (requeues : Nat) :
      Move b e j r { withoutAttempt r requeues with state := .queued }
  | presented (lease : PresenterLease) (nowMs : Nat) (shown : DialogPresentation)
      (he : e = (.nextPresentation lease nowMs, .presentation (some shown))) (hshown : shown.handle = j)
      (hstate : r.state = .queued) :
      Move b e j r { r with
        state := .presenting, attempt := some ⟨lease.generation, shown.attemptToken⟩ }
  | marked (lease : PresenterLease) (token nowMs : Nat)
      (he : e = (.markPresented lease j token nowMs, .done))
      (hattempt : r.attempt = some ⟨lease.generation, token⟩) (hstate : r.state = .presenting) :
      Move b e j r { r with
        state := if r.cancelRequested then .cancelRequested else .presented, everPresented := true }
  | cancelAsked (hquiet : Quiet j e) (hstate : r.state = .presented) :
      Move b e j r { r with cancelRequested := true, state := .cancelRequested }
  | progressed (hquiet : Quiet j e) (hlive : r.state.isTerminal = false)
      (hsome : r.progress.isSome = true) (shown : DialogProgressSnapshot) :
      Move b e j r { r with progress := some shown }
  | resolved (lease : PresenterLease) (token : Nat) (value : DialogValueV1) (nowMs : Nat)
      (he : e = (.resolve lease j token value nowMs, .done)) (hlease : b.presenter = some lease)
      (hattempt : r.attempt = some ⟨lease.generation, token⟩)
      (hstate : r.state = .presented ∨ r.state = .cancelRequested) (hdue : r.isDue nowMs = false)
      (howner : r.ownerService ≠ lease.service) (hkind : r.request.dialog.kind ≠ .progress)
      (hvalid : value.validateFor r.request.dialog = .ok ()) :
      Move b e j r (r.ended .resolved (some value) nowMs)
  | completed (completion : DialogProgressCompletionV1) (nowMs : Nat)
      (he : e = (.completeProgress r.ownerService r.ownerToken j completion nowMs, .done))
      (hlive : r.state.isTerminal = false) (hsome : r.progress.isSome = true) :
      Move b e j r (r.ended .resolved (some (.progress completion)) nowMs)

def OpenedBy (e : Event) (j : InteractionHandle) (r : DialogRecord) : Prop :=
  ∃ owner token request nowMs response, e = (.open owner token request nowMs j, .opened response) ∧
    r = openRecord owner token request nowMs j

/-- What single records look like, whatever the lists say. -/
structure RecordsSound {σ : Type} (b : DialogBroker σ) : Prop where
  keyed : b.Keyed
  active : ∀ j r, b.records.lookup j = some r → r.attempt.isSome = true → r.state.isActive = true

/-- Every record after a call comes from one before by a move, or was opened by the call. -/
def Effect {σ : Type} (b : DialogBroker σ) (e : Event) (b' : DialogBroker σ) : Prop :=
  ∀ j r', b'.records.lookup j = some r' →
    (∃ r, b.records.lookup j = some r ∧ Move b e j r r') ∨ OpenedBy e j r'

section

variable {σ : Type} {b b' : DialogBroker σ} {e : Event}
  {allowed : InteractionHandle → DialogRecord → Prop} {b₁ : DialogBroker σ}

theorem Effect.of_ends (h : DialogBroker.Ends allowed b b₁) (hrecords : b'.records = b₁.records)
    (hquiet : ∀ j, Quiet j e) : Effect b e b' := by
  intro j r' hr'
  obtain ⟨r, hr, rfl | ⟨hlive, -, state, nowMs, hstate, rfl⟩⟩ := h.records j r' (hrecords ▸ hr')
  · exact .inl ⟨r', hr, .same (hquiet j)⟩
  · exact .inl ⟨r, hr, .ended (hquiet j) hlive r.preDisplayRequeues state nowMs hstate⟩

theorem Effect.refl (hquiet : ∀ j, Quiet j e) : Effect b e b :=
  .of_ends (DialogBroker.Ends.refl (fun _ _ => False) b) rfl hquiet

/-- Maintenance before a call adds nothing to what the call may do. -/
theorem Effect.of_put_back {handles : List InteractionHandle}
    (hfirst : DialogBroker.Ends allowed b b₁)
    (hactive : ∀ j ∈ handles, ∃ r, b₁.records.lookup j = some r ∧ r.state.isActive = true)
    (h : ∀ j r', b'.records.lookup j = some r' → ∃ r, b₁.records.lookup j = some r ∧
      (j ∈ handles ∧ PutBack r r' ∨ j ∉ handles ∧ (r' = r ∨ r.state = .queued ∧
        ∃ state nowMs, state.isTerminal = true ∧ r' = r.ended state none nowMs)))
    (hquiet : ∀ j, Quiet j e) : Effect b e b' := by
  intro j r' hr'
  obtain ⟨r₁, hr₁, hcase⟩ := h j r' hr'
  obtain ⟨r, hr, rfl | ⟨hlive, -, state, nowMs, hstate, rfl⟩⟩ := hfirst.records j r₁ hr₁
  · refine .inl ⟨r₁, hr, ?_⟩
    obtain ⟨hj, hback⟩ | ⟨-, rfl | ⟨hqueued, state, nowMs, hstate, rfl⟩⟩ := hcase
    · obtain ⟨r₂, hr₂, hact⟩ := hactive j hj
      rw [hr₁] at hr₂
      cases hr₂
      cases hback with
      | queued requeues => exact .queued (hquiet j) hact requeues
      | ended requeues state nowMs hstate =>
        exact .ended (hquiet j) (not_terminal_of_active hact) requeues state nowMs hstate
    · exact .same (hquiet j)
    · exact .ended (hquiet j) (by rw [hqueued]; rfl) r₁.preDisplayRequeues state nowMs hstate
  · -- a record that ended in maintenance is neither active nor queued
    refine .inl ⟨r, hr, ?_⟩
    obtain ⟨hj, -⟩ | ⟨-, rfl | ⟨hqueued, -⟩⟩ := hcase
    · obtain ⟨_, hr₂, hact⟩ := hactive j hj
      rw [hr₁] at hr₂
      cases hr₂
      exact absurd hact (Bool.eq_false_iff.mp (DialogStateV1.not_active_of_terminal hstate))
    · exact .ended (hquiet j) hlive r.preDisplayRequeues state nowMs hstate
    · exact absurd hqueued (ne_queued_of_terminal hstate)

theorem RecordsSound.ends (h : RecordsSound b) (hends : DialogBroker.Ends allowed b b') :
    RecordsSound b' := by
  refine ⟨hends.keyed h.keyed, fun j r' hr' hsome => ?_⟩
  obtain ⟨r, hr, rfl | ⟨-, -, _, _, -, rfl⟩⟩ := hends.records j r' hr'
  · exact h.active j r' hr hsome
  · cases hsome

variable {cause : DialogTransitionCause}

theorem effect_requeueGeneration (hb : RecordsSound b) {o : Orders} {generation nowMs : Nat}
    (hrun : b₁.requeueGeneration o generation nowMs cause = some b')
    (hfirst : DialogBroker.Ends allowed b b₁) (hquiet : ∀ j, Quiet j e) : Effect b e b' := by
  have hb₁ := hb.ends hfirst
  have hactive : ∀ j ∈ ((o.records.walk b₁.records.values).filter fun record =>
      !record.state.isTerminal && record.attempt.any (·.generation == generation)).map
        (·.handle), ∃ r, b₁.records.lookup j = some r ∧ r.state.isActive = true := by
    intro j hj
    obtain ⟨record, hlookup, htest⟩ := hb₁.keyed.of_mem_walk o.records hj
    exact ⟨record, hlookup, hb₁.active j record hlookup
      (Option.isSome_of_any (Bool.and_eq_true_iff.mp htest).2)⟩
  exact .of_put_back hfirst hactive (requeueProtected_spec hb₁.keyed
    (hb₁.keyed.nodup_walk o.records _) hactive hrun).2 hquiet

theorem DialogBroker.Ends.of_drained (h : DialogBroker.Ends allowed b.drained b') :
    DialogBroker.Ends allowed b b' :=
  ⟨h.presenter, h.records⟩

theorem RecordsSound.ends_maintain (h : RecordsSound b) (o : Orders) (nowMs : Nat) :
    DialogBroker.Ends (fun _ r => r.isDue nowMs = true) b (b.drained.maintain o nowMs) :=
  .of_drained (DialogBroker.ends_maintain (b := b.drained) nowMs h.keyed o)

theorem RecordsSound.ends_withdrawOwner (h : RecordsSound b) (o : Orders) (owner : String)
    (nowMs : Nat) : DialogBroker.Ends (fun _ _ => True) b (b.withdrawOwner o owner nowMs).1 :=
  ((h.ends_maintain o nowMs).mono fun _ _ _ _ => trivial).trans
    ((ends_transitionAll nowMs .withdraw .failed rfl _ _).mono fun _ _ _ _ => trivial)

variable {handle : InteractionHandle}

theorem Effect.of_insert (hfirst : DialogBroker.Ends allowed b b₁)
    {record' : DialogRecord} (hrecords : b'.records = b₁.records.insert handle record')
    (hquiet : ∀ j, j ≠ handle → Quiet j e)
    (hmove : (∃ r, b.records.lookup handle = some r ∧ Move b e handle r record') ∨
      OpenedBy e handle record') : Effect b e b' := by
  intro j r' hr'
  rw [hrecords] at hr'
  obtain ⟨rfl, rfl⟩ | ⟨hj, hr'⟩ := Table.of_lookup_insert hr'
  · exact hmove
  · obtain ⟨r, hr, rfl | ⟨hlive, -, state, nowMs, hstate, rfl⟩⟩ := hfirst.records j r' hr'
    · exact .inl ⟨r', hr, .same (hquiet j hj)⟩
    · exact .inl ⟨r, hr, .ended (hquiet j hj) hlive r.preDisplayRequeues state nowMs hstate⟩

theorem Effect.of_transition {record : DialogRecord}
    (hrecords : ∀ j, j ≠ handle → b₁.records.lookup j = b.records.lookup j) {record₁ : DialogRecord}
    (hrecord₁ : b₁.records.lookup handle = some record₁) (hlive : record₁.state.isTerminal = false)
    (hrecord : b.records.lookup handle = some record) {state : DialogStateV1}
    {value : Option DialogValueV1} {nowMs : Nat} (hquiet : ∀ j, j ≠ handle → Quiet j e)
    (hmove : Move b e handle record (record₁.ended state value nowMs)) :
    Effect b e (b₁.transitionTerminal handle state value nowMs cause) := by
  intro j r' hr'
  obtain ⟨hj, hr⟩ | ⟨rfl, _, hold, rfl⟩ := lookup_transitionTerminal hr'
  · rw [hrecords j hj] at hr
    exact .inl ⟨r', hr, .same (hquiet j hj)⟩
  rw [hrecord₁] at hold
  cases hold
  rw [hlive]
  exact .inl ⟨record, hrecord, hmove⟩

end

/-- What a call does to the records and to the presenter. -/
structure CallEffect {σ : Type} (b : DialogBroker σ) (e : Event) (b' : DialogBroker σ) : Prop where
  records : Effect b e b'
  presenter : b'.presenter = leaseAfter e b.presenter

section

variable {σ : Type} {b b' : DialogBroker σ} {e : Event}

theorem effect_unchanged (hquiet : ∀ j, Quiet j e)
    (hlease : leaseAfter e b.presenter = b.presenter) : CallEffect b e b.drained :=
  ⟨fun j r' hr' => .inl ⟨r', hr', .same (hquiet j)⟩, hlease.symm⟩

/-- What a call does, whatever it comes to. -/
abbrev Effects (b : DialogBroker σ) (call : Call) {α : Type} (reply : α → Reply) :
    Outcome σ α → Prop :=
  Yields fun out => CallEffect b (call, .ofExcept reply out.2) out.1

variable {call : Call} {error : DialogBrokerError}

theorem effect_ends {allowed : InteractionHandle → DialogRecord → Prop}
    (hends : DialogBroker.Ends allowed b b') : CallEffect b (call, .error error) b' :=
  ⟨.of_ends hends rfl fun _ => quiet_error call error,
    hends.presenter.trans (leaseAfter_error call error _).symm⟩

theorem effect_refused : CallEffect b (call, .error error) b.drained :=
  effect_unchanged (fun _ => quiet_error call error) (leaseAfter_error call error _)

theorem effect_expired (handle : InteractionHandle) (nowMs : Nat) : CallEffect b (call, .error error)
    (b.drained.transitionTerminal handle .expired none nowMs .expire) :=
  effect_ends (.of_drained (ends_transitionTerminal nowMs .expire .expired rfl b.drained handle))

theorem effect_restated {handle : InteractionHandle} {record record' : DialogRecord}
    (hrecord : b.records.lookup handle = some record) (hquiet : ∀ j, j ≠ handle → Quiet j e)
    (hlease : leaseAfter e b.presenter = b.presenter) (hmove : Move b e handle record record')
    (old : DialogStateV1) (cause : DialogTransitionCause) :
    CallEffect b e (b.drained.restate handle record' old cause) :=
  ⟨.of_insert (.of_drained (.refl (fun _ _ => False) _)) rfl hquiet (.inl ⟨record, hrecord, hmove⟩),
    hlease.symm⟩

variable {o : Orders} {nowMs token : Nat} {handle : InteractionHandle} {service : String}
  {lease : PresenterLease} {ownerToken : OwnerToken}

theorem effect_open (hb : RecordsSound b) {tryConsume : σ → String → Nat → Bool × σ}
    {request : DialogOpenRequestV1} :
    Effects b (.open service ownerToken request nowMs handle) .opened
      (b.open tryConsume o service ownerToken request nowMs handle) := by
  have hm := hb.ends_maintain o nowMs
  rw [DialogBroker.open]
  dsimp only
  split
  · exact effect_refused
  iterate 3
    split
    · exact effect_ends hm
  split
  · exact effect_ends (b := b) (DialogBroker.Ends.mk hm.presenter hm.records)
  · refine ⟨.of_insert hm rfl (fun j hj => ⟨rfl, rfl, ?_, rfl⟩)
      (.inr ⟨service, ownerToken, request, nowMs, _, rfl, rfl⟩), hm.presenter⟩
    exact beq_eq_false_iff_ne.mpr (Ne.symm hj)

theorem effect_register (hb : RecordsSound b) :
    Effects b (.registerPresenter service nowMs) .lease (b.registerPresenter o service nowMs) := by
  have hm := hb.ends_maintain o nowMs
  rw [registerPresenter, mintPresenterGeneration]
  split_ifs
  · dsimp only [requeueReplaced]
    split
    · exact ⟨.of_ends hm rfl fun j => ⟨rfl, rfl, rfl, rfl⟩, rfl⟩
    · refine .map fun b₂ hrequeue => ⟨?_, rfl⟩
      exact fun j => effect_requeueGeneration hb hrequeue ⟨hm.presenter, hm.records⟩
        (fun j => ⟨rfl, rfl, rfl, rfl⟩) j
  · exact effect_ends hm

theorem effect_release (hb : RecordsSound b) :
    Effects b (.releasePresenter lease nowMs) (fun _ => .done)
      (b.releasePresenter o lease nowMs) := by
  rw [releasePresenter]
  split
  · exact effect_refused
  · refine .map fun b₂ hrequeue => ⟨?_, rfl⟩
    exact fun j => effect_requeueGeneration hb hrequeue (hb.ends_maintain o nowMs)
      (fun j => ⟨rfl, rfl, rfl, rfl⟩) j

theorem dequeueFairFrom_spec {fuel : Nat} {found : Option InteractionHandle}
    (hrun : dequeueFairFrom fuel b = some (found, b')) :
    b'.records = b.records ∧ b'.presenter = b.presenter ∧
      ∀ handle ∈ found, ∃ r, b.records.lookup handle = some r ∧ r.state = .queued := by
  induction fuel generalizing b with
  | zero =>
    cases hrun
    exact ⟨rfl, rfl, fun handle hin => by cases hin⟩
  | succ fuel ih =>
    rw [dequeueFairFrom] at hrun
    split at hrun
    · cases hrun
      exact ⟨rfl, rfl, fun handle hin => by cases hin⟩
    obtain ⟨_, -, hrun⟩ := Option.bind_eq_some_iff.mp hrun
    dsimp only at hrun
    split at hrun
    · exact (ih hrun :)
    split at hrun
    · rename_i handle _ htest
      cases hrun
      refine ⟨rfl, rfl, fun j hj => ?_⟩
      cases hj
      cases hr : b.records.lookup handle with
      | none =>
        rw [hr] at htest
        cases htest
      | some r =>
        rw [hr] at htest
        exact ⟨r, rfl, beq_iff_eq.mp htest⟩
    · exact (ih hrun :)

theorem effect_next (hb : RecordsSound b) :
    Effects b (.nextPresentation lease nowMs) .presentation (b.nextPresentation o lease nowMs) := by
  have hm := hb.ends_maintain o nowMs
  rw [nextPresentation]
  dsimp only
  split
  · exact effect_refused
  generalize b.drained.maintain o nowMs = b₁ at hm
  split
  · exact ⟨.of_ends hm rfl fun j => ⟨rfl, rfl, rfl, rfl⟩, hm.presenter⟩
  split
  · trivial
  · rename_i hdequeue
    obtain ⟨hrecords, hpresenter, -⟩ := dequeueFairFrom_spec hdequeue
    have hpresenter := hpresenter.trans hm.presenter
    exact ⟨.of_ends hm hrecords fun j => ⟨rfl, rfl, rfl, rfl⟩, hpresenter⟩
  · rename_i handle b₂ hdequeue
    obtain ⟨hrecords, hpresenter, hfound⟩ := dequeueFairFrom_spec hdequeue
    have hends : DialogBroker.Ends (fun _ r => r.isDue nowMs = true) b b₂ :=
      ⟨hpresenter.trans hm.presenter, hrecords ▸ hm.records⟩
    rw [mintAttemptToken]
    split_ifs
    · refine .map fun record hrecord => ?_
      obtain ⟨_, hqueued, hstate⟩ := hfound handle rfl
      rw [hrecords, hqueued] at hrecord
      cases hrecord
      refine ⟨.of_insert hends rfl (fun j hj => ⟨rfl, rfl, rfl, if_neg (Ne.symm hj)⟩) (.inl ?_),
        hends.presenter⟩
      obtain ⟨r, hr, rfl | ⟨-, -, _, _, hended, rfl⟩⟩ := hm.records handle record hqueued
      · exact ⟨record, hr, .presented lease nowMs _ rfl rfl hstate⟩
      · exact absurd hstate (ne_queued_of_terminal hended)
    · exact effect_ends hends

variable {body : DialogBroker σ → DialogRecord → Outcome σ Unit}

theorem effect_onAttempt
    (hbody : ∀ record, b.records.lookup handle = some record → b.presenter = some lease →
      record.attempt = some ⟨lease.generation, token⟩ → record.isDue nowMs = false →
      Effects b call (fun _ => .done) (body b.drained record)) :
    Effects b call (fun _ => .done) (b.onAttempt lease handle token nowMs body) := by
  rw [onAttempt]
  split
  · exact effect_refused
  rename_i hlease
  split
  · exact effect_refused
  rename_i hattempt
  obtain ⟨record, hrecord, hattempt⟩ := checkCurrentAttempt_ok hattempt
  obtain hdue | ⟨hdue, hnot⟩ := expireHandleIfDue_cases b.drained handle nowMs
  · rw [hdue]
    exact effect_expired handle nowMs
  rw [hrecord] at hnot
  rw [hdue]
  dsimp only
  rw [hrecord]
  exact hbody record hrecord (checkLease_ok hlease) hattempt hnot

theorem effect_onOwned
    (hbody : ∀ record, b.records.lookup handle = some record → record.ownerService = service →
      record.ownerToken = ownerToken → Effects b call (fun _ => .done) (body b.drained record)) :
    Effects b call (fun _ => .done) (b.onOwned service ownerToken handle nowMs body) := by
  rw [onOwned]
  split
  · exact effect_refused
  rename_i howner
  obtain ⟨record, hrecord, hservice, htoken⟩ := checkOwner_ok howner
  obtain hdue | ⟨hdue, -⟩ := expireHandleIfDue_cases b.drained handle nowMs
  · rw [hdue]
    exact effect_expired handle nowMs
  rw [hdue]
  dsimp only
  rw [hrecord]
  exact hbody record hrecord hservice htoken

theorem lookup_takeAttempt {record : DialogRecord} {j : InteractionHandle} :
    (b.drained.takeAttempt handle record).records.lookup j =
      if j = handle then some { record with attempt := none } else b.records.lookup j :=
  Table.lookup_insert_eq _ _ _ _

theorem effect_taken {record : DialogRecord} {state : DialogStateV1}
    {value : Option DialogValueV1} {cause : DialogTransitionCause}
    (hrecord : b.records.lookup handle = some record) (hlive : record.state.isTerminal = false)
    (hquiet : ∀ j, j ≠ handle → Quiet j e) (hlease : leaseAfter e b.presenter = b.presenter)
    (hmove : Move b e handle record (record.ended state value nowMs)) :
    CallEffect b e ((b.drained.takeAttempt handle record).transitionTerminal handle state value
      nowMs cause) :=
  ⟨.of_transition (fun _ hj => lookup_takeAttempt.trans (if_neg hj))
    (lookup_takeAttempt.trans (if_pos rfl)) hlive hrecord hquiet hmove,
    (transitionTerminal_presenter _ _ _ _ _ _).trans hlease.symm⟩

theorem effect_mark : Effects b (.markPresented lease handle token nowMs) (fun _ => .done)
    (b.markPresented lease handle token nowMs) := by
  refine effect_onAttempt fun record hrecord hlease hattempt _ => ?_
  split
  · exact effect_refused
  rename_i hpresenting
  push Not at hpresenting
  exact effect_restated hrecord (fun j _ => ⟨rfl, rfl, rfl, rfl⟩) rfl
    (.marked lease token nowMs rfl hattempt hpresenting) _ _

variable {value : DialogValueV1}

theorem rejection_none {record : DialogRecord}
    (h : rejection lease record value = none) : record.ownerService ≠ lease.service ∧
      (record.state = .presented ∨ record.state = .cancelRequested) ∧
        record.request.dialog.kind ≠ .progress ∧
          value.validateFor record.request.dialog = .ok () := by
  rw [rejection] at h
  split at h
  · cases h
  rename_i howner
  split at h
  · cases h
  split at h
  · cases h
  rename_i hstate
  split at h
  · cases h
  rename_i hkind
  split at h
  · cases h
  rename_i hvalid
  refine ⟨howner, ?_, hkind, hvalid⟩
  by_contra hnot
  push Not at hnot
  exact hstate hnot

theorem effect_resolve (hb : RecordsSound b) :
    Effects b (.resolve lease handle token value nowMs) (fun _ => .done)
      (b.resolve o lease handle token value nowMs) := by
  refine effect_onAttempt fun record hrecord hlease hattempt hdue => ?_
  have hactive : record.state.isActive = true := hb.active handle record hrecord (by rw [hattempt]; rfl)
  split
  · rename_i error herror
    have hkeyed : (b.drained.takeAttempt handle record).Keyed := by
      intro j r hr
      obtain ⟨rfl, rfl⟩ | ⟨-, hr⟩ := Table.of_lookup_insert (t := b.records) hr
      · exact hb.keyed j record hrecord
      · exact hb.keyed j r hr
    have hone : ∀ j ∈ [handle], ∃ r, (b.drained.takeAttempt handle record).records.lookup j =
        some r ∧ r.state.isActive = true := by
      intro j hj
      rw [mem_singleton.mp hj, lookup_takeAttempt, if_pos rfl]
      exact ⟨_, rfl, hactive⟩
    refine .map fun b₂ hrequeue => ?_
    obtain ⟨hpresenter, hlookup⟩ :=
      requeueProtected_spec hkeyed (nodup_singleton handle) hone hrequeue
    refine ⟨fun j r' hr' => ?_, hpresenter⟩
    have hquiet : Quiet j (.resolve lease handle token value nowMs, .error error) :=
      ⟨rfl, rfl, rfl, rfl⟩
    obtain ⟨r, hr, hcase⟩ := hlookup j r' hr'
    obtain ⟨rfl, rfl⟩ | ⟨hj, hr⟩ := Table.of_lookup_insert (t := b.records) hr
    · obtain ⟨-, hback⟩ | ⟨hnot, -⟩ := hcase
      · cases hback with
        | queued requeues => exact .inl ⟨record, hrecord, .queued hquiet hactive requeues⟩
        | ended requeues state endMs hstate =>
          exact .inl ⟨record, hrecord, .ended hquiet
            (not_terminal_of_active hactive) requeues state endMs hstate⟩
      · exact absurd (mem_singleton.mpr rfl) hnot
    · obtain ⟨hin, -⟩ | ⟨-, rfl | ⟨hqueued, state, endMs, hstate, rfl⟩⟩ := hcase
      · exact absurd (mem_singleton.mp hin) hj
      · exact .inl ⟨r', hr, .same hquiet⟩
      · exact .inl ⟨r, hr, .ended hquiet (by rw [hqueued]; rfl) r.preDisplayRequeues state endMs
          hstate⟩
  · rename_i hnone
    obtain ⟨howner, hstate, hkind, hvalid⟩ := rejection_none hnone
    exact effect_taken hrecord (not_terminal_of_active hactive)
      (fun j hj => ⟨beq_eq_false_iff_ne.mpr (Ne.symm hj), rfl, rfl, rfl⟩) rfl
      (.resolved lease token value nowMs rfl hlease hattempt hstate hdue howner hkind hvalid)

theorem effect_fail (hb : RecordsSound b) :
    Effects b (.failPresentation lease handle token nowMs) (fun _ => .done)
      (b.failPresentation lease handle token nowMs) := by
  refine effect_onAttempt fun record hrecord _ hattempt _ => ?_
  have hactive : record.state.isActive = true := hb.active handle record hrecord (by rw [hattempt]; rfl)
  have hlive := not_terminal_of_active hactive
  rw [if_neg (Bool.eq_false_iff.mp hlive)]
  exact effect_taken hrecord hlive (fun j hj => ⟨rfl, rfl, rfl, rfl⟩) rfl
    (.ended ⟨rfl, rfl, rfl, rfl⟩ hlive record.preDisplayRequeues .failed nowMs rfl)

theorem effect_cancel : Effects b (.cancel service ownerToken handle nowMs) (fun _ => .done)
    (b.cancel service ownerToken handle nowMs) := by
  refine effect_onOwned fun record hrecord _ _ => ?_
  split
  · exact effect_refused
  · have hends := DialogBroker.Ends.of_drained
      (ends_transitionTerminal nowMs .cancel .cancelled rfl b.drained handle)
    exact ⟨.of_ends hends rfl fun j => ⟨rfl, rfl, rfl, rfl⟩, hends.presenter⟩

theorem effect_progressCancel :
    Effects b (.requestProgressCancel lease handle token nowMs) (fun _ => .done)
      (b.requestProgressCancel lease handle token nowMs) := by
  refine effect_onAttempt fun record hrecord _ _ _ => ?_
  split
  · split
    · exact effect_refused
    split
    · exact effect_unchanged (fun j => ⟨rfl, rfl, rfl, rfl⟩) rfl
    split
    · exact effect_refused
    rename_i hpresented
    push Not at hpresented
    exact effect_restated hrecord (fun j _ => ⟨rfl, rfl, rfl, rfl⟩) rfl
      (.cancelAsked ⟨rfl, rfl, rfl, rfl⟩ hpresented) _ _
  · exact effect_refused

theorem effect_update {patch : DialogProgressPatchV1} :
    Effects b (.updateProgress service ownerToken handle patch nowMs) (fun _ => .done)
      (b.updateProgress service ownerToken handle patch nowMs) := by
  refine effect_onOwned fun record hrecord _ _ => ?_
  split
  · exact effect_refused
  split
  · exact effect_refused
  rename_i hlive
  split
  · exact effect_refused
  rename_i hprogress
  split
  · exact effect_unchanged (fun j => ⟨rfl, rfl, rfl, rfl⟩) rfl
  · exact effect_restated hrecord (fun j _ => ⟨rfl, rfl, rfl, rfl⟩) rfl
      (.progressed ⟨rfl, rfl, rfl, rfl⟩ (Bool.eq_false_iff.mpr hlive) (by rw [hprogress]; rfl) _) _ _

theorem effect_complete {completion : DialogProgressCompletionV1} :
    Effects b (.completeProgress service ownerToken handle completion nowMs) (fun _ => .done)
      (b.completeProgress service ownerToken handle completion nowMs) := by
  refine effect_onOwned fun record hrecord hservice htoken => ?_
  subst hservice htoken
  split
  · exact effect_refused
  split
  · exact effect_refused
  rename_i hlive
  have hlive := Bool.eq_false_iff.mpr hlive
  split
  · exact effect_refused
  rename_i hnone
  have hsome : record.progress.isSome = true := by
    cases hprogress : record.progress with
    | none =>
      rw [hprogress] at hnone
      exact absurd rfl hnone
    | some => rfl
  have hsame : ∀ j, j ≠ handle → b.drained.records.lookup j = b.records.lookup j := fun _ _ => rfl
  refine ⟨.of_transition hsame hrecord hlive hrecord (fun j hj => ⟨rfl, ?_, rfl, rfl⟩)
    (.completed completion nowMs rfl hlive hsome), ?_⟩
  · exact beq_eq_false_iff_ne.mpr (Ne.symm hj)
  · exact transitionTerminal_presenter _ _ _ _ _ _

end

variable {σ : Type} {b' b : DialogBroker σ}

theorem reply_eq_some {α : Type} {outcome : Outcome σ α} {reply : α → Reply}
    {answer : Reply} (h : Outcome.reply reply outcome = some (b', answer)) :
    ∃ res, outcome = some (b', res) ∧ answer = .ofExcept reply res := by
  obtain ⟨⟨_, res⟩, hout, heq⟩ := Option.map_eq_some_iff.mp h
  cases heq
  exact ⟨res, hout, rfl⟩

theorem effect_reply {α : Type} {outcome : Outcome σ α} {reply : α → Reply} {call : Call}
    (h : Effects b call reply outcome) :
    Yields (fun out => CallEffect b (call, out.2) out.1) (Outcome.reply reply outcome) := by
  cases outcome with
  | none => trivial
  | some => exact h

/-- Every record after a call comes from one before by a move that the call allows. -/
theorem serve_effect {tryConsume : σ → String → Nat → Bool × σ}
    (hb : RecordsSound b) {a : Act} {reply : Reply}
    (hserve : serve tryConsume b a = some (b', reply)) : CallEffect b (a.call, reply) b' := by
  refine Yields.elim₂ hserve ?_
  obtain ⟨o, call⟩ := a
  cases call with
  | «open» => exact effect_reply (effect_open hb)
  | registerPresenter => exact effect_reply (effect_register hb)
  | releasePresenter => exact effect_reply (effect_release hb)
  | nextPresentation => exact effect_reply (effect_next hb)
  | markPresented => exact effect_reply effect_mark
  | resolve => exact effect_reply (effect_resolve hb)
  | resolveAsOwner => exact ⟨.refl fun j => ⟨rfl, rfl, rfl, rfl⟩, rfl⟩
  | failPresentation => exact effect_reply (effect_fail hb)
  | cancel => exact effect_reply effect_cancel
  | requestProgressCancel => exact effect_reply effect_progressCancel
  | updateProgress => exact effect_reply effect_update
  | completeProgress => exact effect_reply effect_complete
  | result => exact .map fun found _ => ⟨.refl fun j => ⟨rfl, rfl, rfl, rfl⟩, rfl⟩
  | drainTransitions => exact ⟨fun j r' hr' => .inl ⟨r', hr', .same ⟨rfl, rfl, rfl, rfl⟩⟩, rfl⟩
  | withdrawOwner owner nowMs =>
    have hends := hb.ends_withdrawOwner o owner nowMs
    exact ⟨.of_ends hends rfl fun j => ⟨rfl, rfl, rfl, rfl⟩, hends.presenter⟩
  | expire nowMs =>
    have hends := DialogBroker.Ends.of_drained (ends_expireDue (b := b.drained) nowMs hb.keyed o)
    exact ⟨.of_ends hends rfl fun j => ⟨rfl, rfl, rfl, rfl⟩, hends.presenter⟩
  | gc nowMs =>
    have hends := ends_maintain nowMs hb.keyed o
    exact ⟨.of_ends hends rfl fun j => ⟨rfl, rfl, rfl, rfl⟩, hends.presenter⟩

def IsShown (r : DialogRecord) : Prop := r.state = .presented ∨ r.state = .cancelRequested

structure RecordTold (past : List Event) (j : InteractionHandle) (r : DialogRecord) : Prop where
  handle : r.handle = j
  attempt : ∀ attempt, r.attempt = some attempt → r.state.isActive = true ∧
    lastToken j (life j past) = some attempt.token ∧ (IsShown r → Marked j attempt.token past)
  progress : r.progress.isSome = true ↔ r.request.dialog.kind = .progress
  live : r.state.isTerminal = false → r.value = none ∧
    (life j past).filter (resolvesOf j) = [] ∧ (life j past).filter (completesOf j) = []
  decided : ∀ value, r.value = some value → r.request.dialog.kind ≠ .progress →
    DecidedBy past j r value
  completed : ∀ value, r.value = some value → r.request.dialog.kind = .progress →
    CompletedBy past j r value

structure Told {σ : Type} (b : DialogBroker σ) (past : List Event) : Prop where
  lease : leaseOf past = b.presenter
  records : ∀ j r, b.records.lookup j = some r → RecordTold past j r

theorem Told.sound {past : List Event} (h : Told b past) : RecordsSound b := by
  refine ⟨fun j r hr => (h.records j r hr).handle, fun j r hr hsome => ?_⟩
  obtain ⟨attempt, hattempt⟩ := Option.isSome_iff_exists.mp hsome
  exact ((h.records j r hr).attempt attempt hattempt).1

section

variable {σ : Type} {b : DialogBroker σ} {past : List Event} {j : InteractionHandle}
  {r : DialogRecord} {e : Event}

theorem Quiet.filters (hquiet : Quiet j e) :
    (life j (e :: past)).filter (resolvesOf j) = (life j past).filter (resolvesOf j) ∧
      (life j (e :: past)).filter (completesOf j) = (life j past).filter (completesOf j) ∧
        lastToken j (life j (e :: past)) = lastToken j (life j past) := by
  rw [life_cons hquiet.opens]
  refine ⟨?_, ?_, lastToken_cons_none hquiet.token⟩
  · exact filter_cons_of_neg (by rw [hquiet.resolves]; decide)
  · exact filter_cons_of_neg (by rw [hquiet.completes]; decide)

variable {r' : DialogRecord}

theorem RecordTold.restated (h : RecordTold past j r) (hquiet : Quiet j e)
    (hlive : r.state.isTerminal = false) (hhandle : r'.handle = r.handle)
    (hattempt : ∀ attempt, r'.attempt = some attempt → r.attempt = some attempt ∧
      r'.state.isActive = r.state.isActive ∧
      (IsShown r' → IsShown r ∨ Marked j attempt.token (e :: past)))
    (hprogress : r'.progress.isSome = r.progress.isSome) (hrequest : r'.request = r.request)
    (hvalue : r'.value = none) : RecordTold (e :: past) j r' := by
  obtain ⟨hresolves, hcompletes, htoken⟩ := @Quiet.filters past j e hquiet
  obtain ⟨-, hnone, hnone'⟩ := h.live hlive
  refine ⟨hhandle.trans h.handle, fun attempt hsome => ?_, ?_,
    fun _ => ⟨hvalue, hresolves.trans hnone, hcompletes.trans hnone'⟩, by simp [hvalue],
    by simp [hvalue]⟩
  · obtain ⟨hold, hactive, hshown⟩ := hattempt attempt hsome
    obtain ⟨hact, hlast, hmarked⟩ := h.attempt attempt hold
    refine ⟨hactive.trans hact, htoken.trans hlast, fun hs => ?_⟩
    obtain hwas | hnow := hshown hs
    · exact (hmarked hwas).cons hquiet.opens
    · exact hnow
  · rw [hprogress, hrequest]
    exact h.progress

/-- The one step lemma: what is told of a record before a call is told of it after. -/
theorem RecordTold.move (h : RecordTold past j r) (hlease : leaseOf past = b.presenter)
    (hmove : Move b e j r r') : RecordTold (e :: past) j r' := by
  cases hmove with
  | same hquiet =>
    obtain ⟨hresolves, hcompletes, htoken⟩ := @Quiet.filters past j e hquiet
    refine ⟨h.handle, fun attempt hsome => ?_, h.progress, fun hlive => ?_,
      fun value hsome hkind => ?_, fun value hsome hkind => ?_⟩
    · obtain ⟨hact, hlast, hmarked⟩ := h.attempt attempt hsome
      exact ⟨hact, htoken.trans hlast, fun hs => (hmarked hs).cons hquiet.opens⟩
    · rw [hresolves, hcompletes]
      exact h.live hlive
    · exact (h.decided value hsome hkind).cons hquiet.opens hquiet.resolves
    · exact (h.completed value hsome hkind).cons hquiet.opens hquiet.completes
  | ended hquiet hlive =>
    exact h.restated hquiet hlive rfl nofun rfl rfl rfl
  | queued hquiet hactive =>
    have hlive := not_terminal_of_active hactive
    exact h.restated hquiet hlive rfl nofun rfl rfl (h.live hlive).1
  | presented lease nowMs shown he hshown hstate =>
    subst he
    obtain ⟨hvalue, hnone, hnone'⟩ := h.live (by rw [hstate]; rfl)
    refine ⟨h.handle, fun attempt hsome => ?_, h.progress, fun _ => ⟨hvalue, hnone, hnone'⟩,
      by simp [hvalue], by simp [hvalue]⟩
    cases hsome
    refine ⟨rfl, lastToken_cons_some (if_pos hshown), fun hs => ?_⟩
    obtain hs | hs := hs <;> cases hs
  | marked lease token nowMs he hattempt hstate =>
    subst he
    have hlive : r.state.isTerminal = false := by rw [hstate]; rfl
    refine h.restated ⟨rfl, rfl, rfl, rfl⟩ hlive rfl (fun attempt hsome => ?_) rfl rfl
      (h.live hlive).1
    obtain ⟨-, hlast, -⟩ := h.attempt attempt hsome
    refine ⟨hsome, by rw [hstate]; split <;> rfl, fun _ => .inr ?_⟩
    cases hattempt.symm.trans hsome
    exact ⟨[], life j past, lease, nowMs, life_cons rfl, hlast⟩
  | cancelAsked hquiet hstate =>
    have hlive : r.state.isTerminal = false := by rw [hstate]; rfl
    exact h.restated hquiet hlive rfl (fun _ hsome => ⟨hsome, by rw [hstate]; rfl,
      fun _ => .inl (.inl hstate)⟩) rfl rfl (h.live hlive).1
  | progressed hquiet hlive hsome =>
    exact h.restated hquiet hlive rfl (fun _ hsome => ⟨hsome, rfl, .inl⟩) hsome.symm rfl
      (h.live hlive).1
  | resolved lease token value nowMs he hpresenter hattempt hstate hdue howner hkind hvalid =>
    subst he
    obtain ⟨hact, hlast, hmarked⟩ := h.attempt _ hattempt
    have hlive := not_terminal_of_active hact
    obtain ⟨-, hnone, -⟩ := h.live hlive
    refine ⟨h.handle, nofun, h.progress, nofun,
      fun v hsome _ => ?_, fun v hsome hprogress => absurd hprogress hkind⟩
    cases hsome
    have hbefore : ∀ deadline ∈ r.expiresAtMs, nowMs < deadline := by
      intro deadline hin
      rw [DialogRecord.isDue, hlive, Option.mem_def.mp hin] at hdue
      simpa using hdue
    refine ⟨[], past, lease, token, nowMs, rfl, ?_, hlease.trans hpresenter, lastToken_of_life hlast,
      hmarked hstate, hbefore, Ne.symm howner, hvalid⟩
    have hself : resolvesOf j (.resolve lease j token value nowMs, .done) = true := beq_self_eq_true j
    rw [life_cons rfl, filter_cons_of_pos hself, hnone]
  | completed completion nowMs he hlive hsome =>
    subst he
    obtain ⟨-, -, hnone⟩ := h.live hlive
    have hkind := h.progress.mp hsome
    refine ⟨h.handle, nofun, h.progress, nofun,
      fun v _ hprogress => absurd hkind hprogress, fun v hv _ => ?_⟩
    cases hv
    refine ⟨completion, nowMs, rfl, ?_⟩
    have hself : completesOf j (.completeProgress r.ownerService r.ownerToken j completion nowMs,
      .done) = true := beq_self_eq_true j
    rw [life_cons rfl, filter_cons_of_pos hself, hnone]
    rfl

theorem recordTold_opened (h : OpenedBy e j r) : RecordTold (e :: past) j r := by
  obtain ⟨owner, token, request, nowMs, response, rfl, rfl⟩ := h
  have hlife : life j ((.open owner token request nowMs j, .opened response) :: past) = [] :=
    life_cons_open (beq_self_eq_true j)
  have hprogress : request.dialog.initialProgress.isSome = true ↔ request.dialog.kind = .progress := by
    cases request.dialog <;> simp [DialogRequestV1.initialProgress, DialogRequestV1.kind]
  refine ⟨rfl, nofun, hprogress, fun _ => ⟨rfl, by rw [hlife]; rfl, by rw [hlife]; rfl⟩, nofun,
    nofun⟩

theorem Told.step {b' : DialogBroker σ} (h : Told b past) (heffect : CallEffect b e b') :
    Told b' (e :: past) := by
  refine ⟨?_, fun j r' hr' => ?_⟩
  · rw [leaseOf, foldr_cons, ← leaseOf, h.lease, heffect.presenter]
  · obtain ⟨r, hr, hmove⟩ | hopened := heffect.records j r' hr'
    · exact (h.records j r hr).move h.lease hmove
    · exact recordTold_opened hopened

theorem Move.terminal (hmove : Move b e j r r') (hr : RecordTold past j r)
    (hterminal : r.state.isTerminal = true) : r' = r := by
  have hnot : ∀ {p : Prop}, r.state.isTerminal = false → p := fun hfalse => by
    rw [hterminal] at hfalse
    cases hfalse
  have hinactive : ∀ {p : Prop}, r.state.isActive = true → p := fun hact =>
    hnot (not_terminal_of_active hact)
  cases hmove with
  | same => rfl
  | ended hquiet hlive | progressed hquiet hlive
  | completed completion nowMs he hlive => exact hnot hlive
  | queued hquiet hactive => exact hinactive hactive
  | presented lease nowMs shown he hshown hstate | marked lease token nowMs he hattempt hstate
  | cancelAsked hquiet hstate =>
    exact hnot (by rw [hstate]; rfl)
  | resolved lease token value nowMs he hpresenter hattempt =>
    exact hinactive (hr.attempt _ hattempt).1

end

def Call.lease : Call → Option PresenterLease
  | .releasePresenter lease _ | .nextPresentation lease _ | .markPresented lease _ _ _
  | .resolve lease _ _ _ _ | .failPresentation lease _ _ _ | .requestProgressCancel lease _ _ _ =>
    some lease
  | _ => none

def Call.attempt : Call → Option (InteractionHandle × Nat)
  | .markPresented _ handle token _ | .resolve _ handle token _ _
  | .failPresentation _ handle token _ | .requestProgressCancel _ handle token _ =>
    some (handle, token)
  | _ => none

/-- A call under an old lease, or on an attempt that is not the last or was taken away. -/
def Superseded {σ : Type} (b : DialogBroker σ) (past : List Event) (call : Call) : Prop :=
  (∃ lease, call.lease = some lease ∧ leaseOf past ≠ some lease) ∨
    ∃ handle token, call.attempt = some (handle, token) ∧ (lastToken handle past ≠ some token ∨
      ∀ r attempt, b.records.lookup handle = some r → r.attempt = some attempt →
        attempt.token ≠ token)

section

variable {σ : Type} {b b' : DialogBroker σ} {past : List Event} {lease : PresenterLease}

theorem checkLease_error (h : b.presenter ≠ some lease) :
    ∃ error, b.checkLease lease = .error error := by
  cases hcheck : b.checkLease lease with
  | error error => exact ⟨error, rfl⟩
  | ok => exact absurd (checkLease_ok hcheck) h

/-- Why a call on an attempt is too late. -/
def TooLate (b : DialogBroker σ) (lease : PresenterLease) (handle : InteractionHandle)
    (token : Nat) : Prop :=
  b.presenter ≠ some lease ∨ ∀ r, b.records.lookup handle = some r →
    r.attempt ≠ some ⟨lease.generation, token⟩

variable {handle : InteractionHandle}

theorem onAttempt_late {token nowMs : Nat}
    {body : DialogBroker σ → DialogRecord → Outcome σ Unit} {res : Except DialogBrokerError Unit}
    (hlate : TooLate b lease handle token)
    (hrun : b.onAttempt lease handle token nowMs body = some (b', res)) :
    b'.records = b.records := by
  rw [onAttempt] at hrun
  split at hrun
  · cases hrun
    rfl
  rename_i hlease
  split at hrun
  · cases hrun
    rfl
  rename_i hattempt
  obtain ⟨record, hrecord, hattempt⟩ := checkCurrentAttempt_ok hattempt
  obtain hother | hnone := hlate
  · exact absurd (checkLease_ok hlease) hother
  · exact absurd hattempt (hnone record hrecord)

theorem Told.tooLate (h : Told b past) {call : Call} {token : Nat}
    (hlease : call.lease = some lease) (hattempt : call.attempt = some (handle, token))
    (hlate : Superseded b past call) : TooLate b lease handle token := by
  obtain ⟨other, hother, hne⟩ | ⟨handle', token', hother, hne⟩ := hlate
  · rw [hlease] at hother
    cases hother
    exact .inl (h.lease ▸ hne)
  rw [hattempt] at hother
  cases hother
  refine .inr fun r hr hsome => ?_
  obtain hlast | hgone := hne
  · exact hlast (lastToken_of_life ((h.records handle r hr).attempt _ hsome).2.1)
  · exact hgone r _ hr hsome rfl

theorem Told.late (h : Told b past) {tryConsume : σ → String → Nat → Bool × σ} {a : Act}
    {reply : Reply} (hlate : Superseded b past a.call)
    (hserve : serve tryConsume b a = some (b', reply)) : b'.records = b.records := by
  have hlease : ∀ {lease : PresenterLease}, a.call.lease = some lease → a.call.attempt = none →
      b.presenter ≠ some lease := by
    intro lease hcall hnone
    obtain ⟨other, hother, hne⟩ | ⟨handle, token, hother, -⟩ := hlate
    · rw [hcall] at hother
      cases hother
      exact h.lease ▸ hne
    · rw [hnone] at hother
      cases hother
  have hother : a.call.lease = none → a.call.attempt = none → b'.records = b.records := by
    intro hnone hnone'
    obtain ⟨lease, hsome, -⟩ | ⟨handle, token, hsome, -⟩ := hlate
    · rw [hnone] at hsome
      cases hsome
    · rw [hnone'] at hsome
      cases hsome
  obtain ⟨o, call⟩ := a
  cases call with
  | releasePresenter lease nowMs | nextPresentation lease nowMs =>
    obtain ⟨error, herror⟩ := @checkLease_error σ b.drained lease (hlease rfl rfl)
    obtain ⟨res, hrun, rfl⟩ := reply_eq_some hserve
    simp only [releasePresenter, nextPresentation, herror] at hrun
    cases hrun
    rfl
  | markPresented | resolve | failPresentation | requestProgressCancel =>
    obtain ⟨res, hrun, rfl⟩ := reply_eq_some hserve
    exact onAttempt_late (h.tooLate rfl rfl hlate) hrun
  | «open» | registerPresenter | resolveAsOwner | cancel | updateProgress | completeProgress
  | result | drainTransitions | withdrawOwner | expire | gc => exact hother rfl rfl

end

def stepNoting {σ : Type} (tryConsume : σ → String → Nat → Bool × σ)
    (s : DialogBroker σ × List Event) (a : Act) : Option (DialogBroker σ × List Event) :=
  (serve tryConsume s.1 a).map fun out => (out.1, (a.call, out.2) :: s.2)

theorem told_run {tryConsume : σ → String → Nat → Bool × σ} {rateLimiter : σ}
    {limits : DialogQueueLimits} {retention : DialogRetentionPolicy} {instanceEpoch : Nat}
    {acts : List Act} {b : DialogBroker σ} {past : List Event}
    (hrun : runFrom (stepNoting tryConsume)
      (newWithRetention rateLimiter limits retention instanceEpoch, []) acts = some (b, past)) :
    Told b past := by
  refine runFrom_invariant (P := fun s => Told s.1 s.2) (fun s a s' hs hstep => ?_)
    ⟨rfl, fun j r hr => by cases (AList.lookup_empty j).symm.trans hr⟩ hrun
  obtain ⟨_, hout, rfl⟩ := Option.map_eq_some_iff.mp hstep
  exact hs.step (serve_effect hs.sound hout)

/-- A value comes from the one accepted decision of the presenter that showed the dialog, or from
the owner of a progress dialog; it is kept until evicted; late calls change no record. -/
theorem dialog_decision_once {σ : Type} (tryConsume : σ → String → Nat → Bool × σ) (rateLimiter : σ)
    (limits : DialogQueueLimits) (retention : DialogRetentionPolicy) (instanceEpoch : Nat)
    (acts : List Act) (b : DialogBroker σ) (past : List Event)
    (hrun : runFrom (stepNoting tryConsume)
      (newWithRetention rateLimiter limits retention instanceEpoch, []) acts = some (b, past)) :
    (∀ j r value, b.records.lookup j = some r → r.value = some value →
      (r.request.dialog.kind ≠ .progress → DecidedBy past j r value) ∧
      (r.request.dialog.kind = .progress → CompletedBy past j r value)) ∧
    ∀ a b' reply, serve tryConsume b a = some (b', reply) →
      (∀ j r r', b.records.lookup j = some r → r.state.isTerminal = true →
        b'.records.lookup j = some r' → r'.state = r.state ∧ r'.value = r.value ∨
          opensOf j (a.call, reply) = true) ∧
      (Superseded b past a.call → b'.records = b.records) := by
  have htold := told_run hrun
  refine ⟨fun j r value hr hvalue => ⟨(htold.records j r hr).decided value hvalue,
    (htold.records j r hr).completed value hvalue⟩, fun a b' reply hserve => ⟨?_, ?_⟩⟩
  · intro j r r' hr hterminal hr'
    obtain ⟨_, hr₀, hmove⟩ | ⟨_, _, _, _, _, he, -⟩ :=
      (serve_effect htold.sound hserve).records j r' hr'
    · rw [hr] at hr₀
      cases hr₀
      rw [hmove.terminal (htold.records j r hr) hterminal]
      exact .inl ⟨rfl, rfl⟩
    · rw [he]
      exact .inr (beq_self_eq_true j)
  · exact fun hlate => htold.late hlate hserve

private def question : DialogOpenRequestV1 :=
  ⟨.confirm ⟨"Delete?", none, .warning⟩ [⟨"yes", "Yes", .accept, false⟩], some 300000⟩

private def answerLease : PresenterLease := ⟨"screen", 1, 7⟩

private def answeredActs : List Act :=
  [.open "files" "t1" question 0 "d1", .registerPresenter "screen" 1,
    .nextPresentation answerLease 2, .resolve answerLease "d1" 1 (.confirm "yes") 3,
    .nextPresentation answerLease 4, .markPresented answerLease "d1" 2 5,
    .resolve answerLease "d1" 2 (.confirm "yes") 6].map (⟨.plain, ·⟩)

private def answered : Option (DialogBroker Unit × List Event) :=
  runFrom (stepNoting fun s _ _ => (true, s)) (newWithRetention () ⟨1, 1⟩ ⟨1, 1, 9⟩ 7, []) answeredActs

private theorem answered_value : (answered.bind fun s => (s.1.records.lookup "d1").bind (·.value)) =
    some (.confirm "yes") := by
  decide +kernel

/-- The first decision comes too early and costs the attempt; the second one stands. -/
theorem dialog_decision_once_confirm : ∃ b past r,
    runFrom (stepNoting fun (s : Unit) _ _ => (true, s))
      (newWithRetention () ⟨1, 1⟩ ⟨1, 1, 9⟩ 7, []) answeredActs = some (b, past) ∧
    b.records.lookup "d1" = some r ∧ r.value = some (.confirm "yes") ∧
    (r.request.dialog.kind ≠ .progress → DecidedBy past "d1" r (.confirm "yes")) := by
  obtain ⟨⟨b, past⟩, hrun, hvalue⟩ := Option.bind_eq_some_iff.mp answered_value
  obtain ⟨r, hr, hvalue⟩ := Option.bind_eq_some_iff.mp hvalue
  exact ⟨b, past, r, hrun, hr, hvalue, ((dialog_decision_once _ () ⟨1, 1⟩ ⟨1, 1, 9⟩ 7 answeredActs b
    past hrun).1 "d1" r _ hr hvalue).1⟩

end Cosmix.Interaction
