/- source: cosmix-foreman/src/ledger (park_retire.rs, requeue.rs, tasks_create.rs, busy.rs),
     cosmix-foreman/src/procutil.rs, cosmix-foreman/src/scratch.rs
   digest: A worktree under a live sweep stays out of the hands of workers and operators. -/

import Cosmix.Foreman.Fencing

/-! The ledger on a host whose processes start and exit. A process id is free again once its process
is gone, so a process is known by its number in the order of start. A process may hand back the
stamps of its leases at any later time. -/

namespace Cosmix.Foreman

open Lib Lib.Maps List

/-- The id of a process and the start time that the host has for it. -/
structure Proc where
  (pid started : Int)
  pid_pos : 0 < pid
  pid_lt : pid < 2 ^ 31
  started_fits : FitsI64 started

/-- The liveness test, over what a signal to the id answers and the start time that can be read. -/
def ownerAlive (signalled : Int → Bool) (starttime : Int → Option Int) (pid start : Option Int) :
    Bool :=
  match pid.filter fun p => 0 < p with
  | none => false
  | some p =>
    signalled p &&
      match start, starttime p with
      | some recorded, some current => recorded == current
      | _, _ => true

structure Host where
  ledger : Ledger := {}
  born : Nat := 0
  live : List (Nat × Proc) := []
  answered : List (Nat × Int × String) := []
  /-- The lease on a task that its process has not released, though it may have died since. -/
  lease : Int → Option (Nat × String) := fun _ => none

namespace Host

/-- A liveness test that is right about every process that runs. -/
def observes (h : Host) (alive : Option Int → Option Int → Bool) : Bool :=
  h.live.all fun q => alive (some q.2.pid) none && alive (some q.2.pid) (some q.2.started)

end Host

inductive HostAct
  | spawn (p : Proc)
  | exit (i : Nat)
  | beginScratchCleanup (i : Nat) (id : Int) (startRead : Bool) (now : Int)
  | endScratchCleanup (i : Nat) (id : Int) (stamp : String) (now : Int)
  | requeueTask (id : Int) (force : Bool) (alive : Option Int → Option Int → Bool) (now : Int)
  | setOperatorDriven (id : Int) (operatorDriven : Bool) (reason filedBy : String)
      (alive : Option Int → Option Int → Bool) (now : Int)
  | call (a : Act)

/-- Without the unconditional write, and with no token under the name of a stamp. -/
def Act.ordinary : Act → Bool
  | .beginScratchCleanup .. | .endScratchCleanup .. | .requeueTask .. | .setOperatorDriven ..
  | .setStatus .. => false
  | a => a.token.all fun τ => !isScratchGcClaimant τ.owner

/-- The stamp of a process, which may fail to read its own start time. -/
def Proc.start (p : Proc) (startRead : Bool) : Option Int :=
  if startRead then some p.started else none

def Proc.stamp (p : Proc) (startRead : Bool) : String :=
  scratchGcClaimantStamp p.pid (p.start startRead)

def hostStep (h : Host) : HostAct → Option Host
  | .spawn p =>
    if h.live.any fun q => q.2.pid == p.pid then none
    else some { h with born := h.born + 1, live := (h.born, p) :: h.live }
  | .exit i => some { h with live := h.live.filter fun q => q.1 != i }
  | .beginScratchCleanup i id startRead now => do
    let p ← h.live.lookup i
    match perform h.ledger (.beginScratchCleanup id p.pid (p.start startRead) now) with
    | none => some h
    | some l =>
      some { h with ledger := l, answered := (i, id, p.stamp startRead) :: h.answered
                    lease := Function.update h.lease id (some (i, p.stamp startRead)) }
  | .endScratchCleanup i id stamp now =>
    if (h.live.lookup i).isSome = true ∧ (i, id, stamp) ∈ h.answered then
      some { h with ledger := step h.ledger (.endScratchCleanup id stamp now)
                    lease := if h.lease id = some (i, stamp) then Function.update h.lease id none
                             else h.lease }
    else none
  | .requeueTask id force alive now =>
    if h.observes alive then
      some { h with ledger := step h.ledger (.requeueTask id force alive now) }
    else none
  | .setOperatorDriven id flag reason filedBy alive now =>
    if h.observes alive then
      some { h with ledger := step h.ledger (.setOperatorDriven id flag reason filedBy alive now) }
    else none
  | .call a => if a.ordinary then some { h with ledger := step h.ledger a } else none

structure Leased (t : Task) (stamp : String) : Prop where
  claimedBy : t.claimedBy = some stamp
  terminal : t.status = .landed ∨ t.status = .retired
  unreserved : t.operatorDriven = false

variable {t : Task} {l : Ledger} {id : Int} {a : Act}

theorem Leased.not_live {stamp : String} (h : Leased t stamp) : ¬ t.Live := by
  rintro (hs | hs) <;> rcases h.terminal with ht | ht <;> rw [ht] at hs <;> cases hs

variable {f : Task → Option Task}

theorem modify_row {l' : Ledger}
    (h : l.modify id f = some l') (ht : l.tasks[id]? = some t) : ∃ t', f t = some t' := by
  obtain ⟨_, t', h₀, ht', -⟩ := modify_eq_some h
  obtain rfl := Option.some.inj (h₀.symm.trans ht)
  exact ⟨t', ht'⟩

/-- An ordinary call is accepted only on a row that is free, that runs, or that its token holds. -/
theorem ordinary_guard {l' : Ledger} (hord : a.ordinary = true)
    (htarget : a.target = some id) (h : perform l a = some l') (ht : l.tasks[id]? = some t) :
    t.claimedBy = none ∨ t.Live ∨ ∃ τ, a.token = some τ ∧ t.Held τ := by
  cases hτ : a.token with
  | some τ =>
    obtain ⟨t₀, -, h₀, -, -, hheld⟩ := perform_rowChange htarget h
    obtain rfl := Option.some.inj (h₀.symm.trans ht)
    exact .inr (.inr ⟨τ, rfl, hheld τ hτ⟩)
  | none =>
    cases a with cases htarget
    | claimTask =>
      obtain ⟨t₀, _, h₀, -, hclaim⟩ := claimTaskInTx_some h
      obtain rfl := Option.some.inj (h₀.symm.trans ht)
      exact .inl (Task.claim_some hclaim).1
    | startAttempt =>
      obtain ⟨_, t', h₀, -, hchange, -⟩ := startAttempt_rowChange h
      obtain rfl := Option.some.inj (h₀.symm.trans ht)
      cases hchange with
      | claims hw hfree => exact .inl hfree
      | records hno | leases hno | eases hno => cases hno
    | finishTask =>
      obtain ⟨t', ht'⟩ := modify_row h ht
      exact .inr (.inl (of_guarded ht').1.2.2)
    | transition | retireTask =>
      obtain ⟨t', ht'⟩ := modify_row h ht
      exact .inl (of_guarded ht').1.2.2
    | finishLanding _ target runId reason proof limits denials recovery now =>
      have htasks : ∀ l₀ : Ledger, l₀.tasks = l.tasks → l₀.tasks[id]? = some t := fun l₀ e => e ▸ ht
      obtain ⟨t', ht'⟩ := modify_row h (htasks _ (by split <;> rfl))
      unfold Task.finishLanding at ht'
      split at ht'
      · rename_i hguard
        exact .inl hguard.2.2.1
      · cases ht'
    | noteInfraRefusal =>
      obtain ⟨t', ht'⟩ := modify_row h ht
      unfold Task.noteInfraRefusal at ht'
      split at ht'
      · rename_i hguard
        exact .inl hguard.2.2.2
      · cases ht'
    | parkTask =>
      obtain ⟨t', ht'⟩ := modify_row h ht
      exact .inl (of_guarded ht').1.2.1
    | landTask =>
      obtain ⟨t', ht'⟩ := modify_row h ht
      exact .inl (of_guarded ht').1.2.2.1
    | reapOneDeadClaim =>
      obtain ⟨_, ht'⟩ := modify_row h ht
      exact .inr (.inl (of_guarded ht').1.2)
    | setStatus | requeueTask | setOperatorDriven | beginScratchCleanup | endScratchCleanup =>
      cases hord
    | _ => cases hτ

theorem step_row_of_refused (ht : l.tasks[id]? = some t)
    (hrefused : a.target = some id → perform l a = none) : (step l a).tasks[id]? = some t := by
  rcases step_row l a id with hsame | ⟨hnone, -⟩ | ⟨_, _, htarget, hok, -⟩
  · exact hsame.trans ht
  · exact absurd (hnone.symm.trans ht) (by simp)
  · rw [hrefused htarget] at hok
    cases hok

section

variable {l : Ledger} {id : Int} {t : Task} {stamp : String}

theorem leased_after_call {a : Act} (hord : a.ordinary = true)
    (hstamp : isScratchGcClaimant stamp = true) (ht : l.tasks[id]? = some t)
    (hleased : Leased t stamp) : (step l a).tasks[id]? = some t := by
  refine step_row_of_refused ht fun htarget => ?_
  cases hp : perform l a with
  | none => rfl
  | some =>
    exfalso
    rcases ordinary_guard hord htarget hp ht with hfree | hlive | ⟨τ, hτ, hheld⟩
    · exact absurd (hfree.symm.trans hleased.claimedBy) (by simp)
    · exact hleased.not_live hlive
    -- the token's owner would be the stamp
    have howner := Option.some.inj (hheld.1.symm.trans hleased.claimedBy)
    have hother : isScratchGcClaimant τ.owner = false := by
      cases a <;> cases hτ <;> simpa [Act.ordinary, Act.token] using hord
    rw [howner, hstamp] at hother
    cases hother

theorem modify_none (ht : l.tasks[id]? = some t) (hf : f t = none) : l.modify id f = none := by
  simp only [Ledger.modify, ht, Option.bind_eq_bind, Option.bind_some, hf, Option.bind_none]

variable {alive : Option Int → Option Int → Bool}

theorem leased_after_requeue (force : Bool) (now : Int)
    (j : Int) (halive : t.LiveScratchLease alive) (ht : l.tasks[id]? = some t) :
    (step l (.requeueTask j force alive now)).tasks[id]? = some t := by
  refine step_row_of_refused ht fun htarget => ?_
  cases htarget
  exact modify_none ht (if_pos halive)

theorem leased_after_reserve (flag : Bool)
    (reason filedBy : String) (now : Int) (j : Int) (halive : t.LiveScratchLease alive)
    (hleased : Leased t stamp) (ht : l.tasks[id]? = some t) :
    (step l (.setOperatorDriven j flag reason filedBy alive now)).tasks[id]? = some t := by
  refine step_row_of_refused ht fun htarget => ?_
  cases htarget
  refine modify_none ht (if_neg ?_)
  rintro ⟨-, -, hchange, hfree⟩
  -- setting the flag meets the lease, and clearing it changes nothing
  cases flag with
  | true => exact hfree ⟨rfl, halive⟩
  | false => exact hchange hleased.unreserved

theorem row_after_end {other : String} (now : Int) (j : Int) (hother : t.claimedBy ≠ some other)
    (ht : l.tasks[id]? = some t) :
    (step l (.endScratchCleanup j other now)).tasks[id]? = some t := by
  refine step_row_of_refused ht fun htarget => ?_
  cases htarget
  exact modify_none ht (if_neg hother)

end

theorem Proc.claimOwner_stamp (p : Proc) (startRead : Bool) :
    scratchGcClaimOwner (p.stamp startRead) = some (p.pid, p.start startRead) := by
  have hlo := p.pid_pos
  have hhi := p.pid_lt
  refine scratchGcClaimOwner_stamp ⟨by omega, by omega⟩ fun s hs => ?_
  cases startRead with
  | true => exact Option.some.inj hs ▸ p.started_fits
  | false => cases hs

variable {p : Proc}

theorem Proc.pid_of_stamp {q : Proc} {a b : Bool} (h : p.stamp a = q.stamp b) : p.pid = q.pid := by
  have howner := (p.claimOwner_stamp a).symm.trans (h ▸ q.claimOwner_stamp b)
  exact congrArg Prod.fst (Option.some.inj howner)

theorem liveScratchLease {h : Host} {alive : Option Int → Option Int → Bool} {i : Nat}
    {t : Task} {startRead : Bool} (hobs : h.observes alive = true) (hp : (i, p) ∈ h.live)
    (hleased : Leased t (p.stamp startRead)) : t.LiveScratchLease alive := by
  refine ⟨p.stamp startRead, hleased.claimedBy, isScratchGcClaimant_stamp _ _, hleased.terminal, ?_⟩
  have hright := all_eq_true.mp hobs (i, p) hp
  rw [Bool.and_eq_true] at hright
  rw [scratchGcOwnerAliveWith, p.claimOwner_stamp]
  cases startRead with
  | true => exact hright.2
  | false => exact hright.1

structure Host.Inv (h : Host) : Prop where
  number_lt : ∀ i p, (i, p) ∈ h.live → i < h.born
  number_inj : ∀ i p q, (i, p) ∈ h.live → (i, q) ∈ h.live → p = q
  pid_inj : ∀ i p j q, (i, p) ∈ h.live → (j, q) ∈ h.live → p.pid = q.pid → i = j
  answered_lt : ∀ i id stamp, (i, id, stamp) ∈ h.answered → i < h.born
  answered_stamp : ∀ i id stamp p, (i, id, stamp) ∈ h.answered → (i, p) ∈ h.live →
    ∃ startRead, stamp = p.stamp startRead
  lease_answered : ∀ id i stamp, h.lease id = some (i, stamp) → (i, id, stamp) ∈ h.answered
  /-- A running process that was answered with the stamp of a lease took it. -/
  sole : ∀ id i stamp c p, h.lease id = some (i, stamp) → (c, id, stamp) ∈ h.answered →
    (c, p) ∈ h.live → c = i
  kept : ∀ id i stamp p, h.lease id = some (i, stamp) → (i, p) ∈ h.live →
    ∃ t, h.ledger.tasks[id]? = some t ∧ Leased t stamp

theorem Host.inv_empty : Host.Inv {} where
  number_lt _ _ h := nomatch h
  number_inj _ _ _ h := nomatch h
  pid_inj _ _ _ _ h := nomatch h
  answered_lt _ _ _ h := nomatch h
  answered_stamp _ _ _ _ h := nomatch h
  lease_answered _ _ _ h := nomatch h
  sole _ _ _ _ _ h := nomatch h
  kept _ _ _ _ h := nomatch h

theorem mem_of_lookup {live : List (Nat × Proc)} {i : Nat} (h : live.lookup i = some p) :
    (i, p) ∈ live := by
  obtain ⟨_, _, rfl, -⟩ := lookup_eq_some_iff.mp h
  exact mem_append_right _ mem_cons_self

namespace Host

variable {h h' : Host}

theorem inv_spawn {p : Proc} (hi : h.Inv) (hs : hostStep h (.spawn p) = some h') : h'.Inv := by
  rw [hostStep] at hs
  split at hs
  · cases hs
  rename_i hfree
  cases hs
  have hpid : ∀ j q, (j, q) ∈ h.live → q.pid ≠ p.pid := fun j q hq e =>
    hfree (any_eq_true.mpr ⟨(j, q), hq, beq_iff_eq.mpr e⟩)
  -- the new process has a number that no process had, and so no lease and no answer
  have hold : ∀ {i : Nat} {q : Proc} {id : Int} {stamp : String}, (i, id, stamp) ∈ h.answered →
      (i, q) ∈ (h.born, p) :: h.live → (i, q) ∈ h.live := by
    intro i q id stamp ha hq
    rcases mem_cons.mp hq with e | hq
    · cases e
      exact absurd (hi.answered_lt _ id stamp ha) (lt_irrefl _)
    · exact hq
  constructor
  · intro i q hq
    rcases mem_cons.mp hq with e | hq
    · cases e
      exact Nat.lt_succ_self _
    · exact Nat.lt_succ_of_lt (hi.number_lt i q hq)
  · intro i q r hq hr
    rcases mem_cons.mp hq with e | hq <;> rcases mem_cons.mp hr with e' | hr
    · cases e
      cases e'
      rfl
    · cases e
      exact absurd (hi.number_lt _ r hr) (lt_irrefl _)
    · cases e'
      exact absurd (hi.number_lt _ q hq) (lt_irrefl _)
    · exact hi.number_inj i q r hq hr
  · intro i q j r hq hr e
    rcases mem_cons.mp hq with hq' | hq <;> rcases mem_cons.mp hr with hr' | hr
    · cases hq'
      cases hr'
      rfl
    · cases hq'
      exact absurd e.symm (hpid j r hr)
    · cases hr'
      exact absurd e (hpid i q hq)
    · exact hi.pid_inj i q j r hq hr e
  · intro i id stamp ha
    exact Nat.lt_succ_of_lt (hi.answered_lt i id stamp ha)
  · exact fun i id stamp q ha hq => hi.answered_stamp i id stamp q ha (hold ha hq)
  · exact hi.lease_answered
  · exact fun id i stamp c q hl ha hq => hi.sole id i stamp c q hl ha (hold ha hq)
  · intro id i stamp q hl hq
    exact hi.kept id i stamp q hl (hold (hi.lease_answered id i stamp hl) hq)

variable {i : Nat} {id now : Int}

theorem inv_exit (hi : h.Inv) (hs : hostStep h (.exit i) = some h') : h'.Inv := by
  cases hs
  have hmem : ∀ {j : Nat} {q : Proc}, (j, q) ∈ h.live.filter (fun q => q.1 != i) →
      (j, q) ∈ h.live := fun hq => mem_of_mem_filter hq
  exact
    { hi with
      number_lt := fun j p hp => hi.number_lt j p (hmem hp)
      number_inj := fun j p q hp hq => hi.number_inj j p q (hmem hp) (hmem hq)
      pid_inj := fun j p k q hp hq => hi.pid_inj j p k q (hmem hp) (hmem hq)
      answered_stamp := fun j id stamp p ha hp => hi.answered_stamp j id stamp p ha (hmem hp)
      sole := fun id j stamp c p hl ha hp => hi.sole id j stamp c p hl ha (hmem hp)
      kept := fun id j stamp p hl hp => hi.kept id j stamp p hl (hmem hp) }

/-- A step of the ledger alone keeps the invariant when it keeps the rows under live leases. -/
theorem inv_ledger {l : Ledger} (hi : h.Inv)
    (hrows : ∀ id i p startRead t, h.lease id = some (i, p.stamp startRead) → (i, p) ∈ h.live →
      h.ledger.tasks[id]? = some t → Leased t (p.stamp startRead) → l.tasks[id]? = some t) :
    Inv { h with ledger := l } := by
  refine { hi with kept := fun id i stamp p hl hp => ?_ }
  obtain ⟨t, ht, hleased⟩ := hi.kept id i stamp p hl hp
  obtain ⟨startRead, rfl⟩ := hi.answered_stamp i id stamp p (hi.lease_answered id i stamp hl) hp
  exact ⟨t, hrows id i p startRead t hl hp ht hleased, hleased⟩

theorem begin_leased {l l' : Ledger} {pid : Int} {start : Option Int}
    (hp : perform l (.beginScratchCleanup id pid start now) = some l') :
    ∃ t, l'.tasks[id]? = some t ∧ Leased t (scratchGcClaimantStamp pid start) := by
  obtain ⟨t, _, -, ht', rfl⟩ := modify_eq_some hp
  obtain ⟨⟨hterminal, -, hfree⟩, rfl⟩ := of_guarded ht'
  have hleased : Leased
      { t with claimedBy := some (scratchGcClaimantStamp pid start), updatedAt := now }
      (scratchGcClaimantStamp pid start) := ⟨rfl, hterminal, hfree⟩
  exact ⟨_, by simp only [getElem?_insert_eq, if_true], hleased⟩

theorem inv_begin {startRead : Bool} (hi : h.Inv)
    (hs : hostStep h (.beginScratchCleanup i id startRead now) = some h') : h'.Inv := by
  obtain ⟨p, hlookup, hs⟩ := Option.bind_eq_some_iff.mp hs
  have hp := mem_of_lookup hlookup
  split at hs
  · cases hs
    exact hi
  rename_i hperform
  cases hs
  -- a lease is the new one or one there was, on another task
  have hlease : ∀ k j s,
      Function.update h.lease id (some (i, p.stamp startRead)) k = some (j, s) →
      k = id ∧ j = i ∧ s = p.stamp startRead ∨ k ≠ id ∧ h.lease k = some (j, s) := by
    intro k j s hl
    rw [Function.update_apply] at hl
    split at hl
    · next hk =>
      cases hl
      exact .inl ⟨hk, rfl, rfl⟩
    · next hk => exact .inr ⟨hk, hl⟩
  refine { hi with answered_lt := ?_, answered_stamp := ?_, lease_answered := ?_, sole := ?_, kept := ?_ }
  · intro j k stamp ha
    rcases mem_cons.mp ha with e | ha
    · cases e
      exact hi.number_lt i p hp
    · exact hi.answered_lt j k stamp ha
  · intro j k stamp q ha hq
    rcases mem_cons.mp ha with e | ha
    · cases e
      exact ⟨startRead, by rw [hi.number_inj i p q hp hq]⟩
    · exact hi.answered_stamp j k stamp q ha hq
  · intro k j stamp hl
    rcases hlease k j stamp hl with ⟨rfl, rfl, rfl⟩ | ⟨-, hl⟩
    · exact mem_cons_self
    · exact mem_cons_of_mem _ (hi.lease_answered k j stamp hl)
  · intro k j stamp c q hl ha hq
    rcases hlease k j stamp hl with ⟨rfl, rfl, rfl⟩ | ⟨hk, hl⟩
    · rcases mem_cons.mp ha with e | ha
      · cases e
        rfl
      · -- an earlier answer with this stamp went to a process with the id of this one
        obtain ⟨b, hstamp⟩ := hi.answered_stamp c k _ q ha hq
        exact hi.pid_inj c q j p hq hp (Proc.pid_of_stamp hstamp).symm
    · rcases mem_cons.mp ha with e | ha
      · cases e
        exact absurd rfl hk
      · exact hi.sole k j stamp c q hl ha hq
  · intro k j stamp q hl hq
    rcases hlease k j stamp hl with ⟨rfl, rfl, rfl⟩ | ⟨hk, hl⟩
    · exact begin_leased hperform
    obtain ⟨t, ht, hleased⟩ := hi.kept k j stamp q hl hq
    obtain ⟨_, _, -, -, rfl⟩ := modify_eq_some hperform
    refine ⟨t, ?_, hleased⟩
    simp only [getElem?_insert_eq, if_neg hk, ht]

theorem inv_end {stamp : String} (hi : h.Inv)
    (hs : hostStep h (.endScratchCleanup i id stamp now) = some h') : h'.Inv := by
  obtain ⟨⟨hruns, hanswered⟩, rfl⟩ := of_guarded hs
  obtain ⟨p, hlookup⟩ := Option.isSome_iff_exists.mp hruns
  -- the leases that are left are leases there were
  have hsub : ∀ k j s, (if h.lease id = some (i, stamp) then Function.update h.lease id none
      else h.lease) k = some (j, s) →
      h.lease k = some (j, s) ∧ ¬ (k = id ∧ (j, s) = (i, stamp)) := by
    intro k j s hl
    split at hl
    · rw [Function.update_apply] at hl
      split at hl
      · cases hl
      · next hk => exact ⟨hl, fun e => hk e.1⟩
    · rename_i hne
      refine ⟨hl, ?_⟩
      rintro ⟨rfl, e⟩
      exact hne (e ▸ hl)
  refine { hi with
    lease_answered := fun k j s hl => hi.lease_answered k j s (hsub k j s hl).1
    sole := fun k j s c q hl => hi.sole k j s c q (hsub k j s hl).1
    kept := fun k j s q hl hq => ?_ }
  obtain ⟨hhad, hother⟩ := hsub k j s hl
  obtain ⟨t, ht, hleased⟩ := hi.kept k j s q hhad hq
  refine ⟨t, ?_, hleased⟩
  by_cases hk : k = id
  · subst hk
    refine row_after_end now k (fun e => ?_) ht
    -- the same stamp would be the same process
    obtain rfl := Option.some.inj (hleased.claimedBy.symm.trans e)
    exact hother ⟨rfl, by rw [hi.sole k j s i p hhad hanswered (mem_of_lookup hlookup)]⟩
  · exact step_row_of_refused ht fun e => absurd (Option.some.inj e).symm hk

theorem inv_step {a : HostAct} (hi : h.Inv) (hs : hostStep h a = some h') : h'.Inv := by
  cases a with
  | spawn => exact inv_spawn hi hs
  | exit => exact inv_exit hi hs
  | beginScratchCleanup => exact inv_begin hi hs
  | endScratchCleanup => exact inv_end hi hs
  | requeueTask k force alive now =>
    obtain ⟨hobs, rfl⟩ := of_guarded hs
    exact inv_ledger hi fun id i p b t _ hp ht hleased =>
      leased_after_requeue force now k (liveScratchLease hobs hp hleased) ht
  | setOperatorDriven k flag reason filedBy alive now =>
    obtain ⟨hobs, rfl⟩ := of_guarded hs
    exact inv_ledger hi fun id i p b t _ hp ht hleased =>
      leased_after_reserve flag reason filedBy now k (liveScratchLease hobs hp hleased) hleased ht
  | call =>
    obtain ⟨hord, rfl⟩ := of_guarded hs
    exact inv_ledger hi fun id i p b t _ hp ht hleased =>
      leased_after_call hord (isScratchGcClaimant_stamp _ _) ht hleased

end Host

theorem inv_run {acts : List HostAct} {h : Host} (hrun : runFrom hostStep {} acts = some h) :
    h.Inv :=
  runFrom_invariant (fun _ _ _ hi hs => Host.inv_step hi hs) Host.inv_empty hrun

/-- While the process of a lease runs and has not released it, the task is landed or retired,
claimed by its stamp and not reserved; a release by another process leaves the row as it is. -/
theorem live_sweep_keeps_worktree {acts : List HostAct} {h : Host}
    (hrun : runFrom hostStep {} acts = some h) :
    (∀ id i stamp p, h.lease id = some (i, stamp) → (i, p) ∈ h.live →
      ∃ t startRead, h.ledger.tasks[id]? = some t ∧ stamp = p.stamp startRead ∧
        t.claimedBy = some stamp ∧ (t.status = .landed ∨ t.status = .retired) ∧
        t.operatorDriven = false) ∧
    ∀ c id stamp now h', hostStep h (.endScratchCleanup c id stamp now) = some h' →
      ∀ i held t, h.lease id = some (i, held) → i ≠ c → h.ledger.tasks[id]? = some t →
        t.claimedBy = some held → h'.ledger.tasks[id]? = some t := by
  have hi := inv_run hrun
  refine ⟨fun id i stamp p hl hp => ?_, fun c id stamp now h' hs i held t hl hne ht hby => ?_⟩
  · obtain ⟨t, ht, hleased⟩ := hi.kept id i stamp p hl hp
    obtain ⟨startRead, hstamp⟩ :=
      hi.answered_stamp i id stamp p (hi.lease_answered id i stamp hl) hp
    exact ⟨t, startRead, ht, hstamp, hleased.claimedBy, hleased.terminal, hleased.unreserved⟩
  · obtain ⟨⟨hruns, hanswered⟩, rfl⟩ := of_guarded hs
    refine row_after_end now id (fun e => hne ?_) ht
    -- the stamps agree, so the process that releases is the one that took the lease
    obtain ⟨p, hlookup⟩ := Option.isSome_iff_exists.mp hruns
    obtain rfl := Option.some.inj (hby.symm.trans e)
    exact (hi.sole id i held c p hl hanswered (mem_of_lookup hlookup)).symm

private def sweeper : Proc where
  pid := 41
  started := 7
  pid_pos := by decide
  pid_lt := by decide
  started_fits := ⟨by decide, by decide⟩

/-- A retired task whose scratch a process reclaims, with an operator who tries to force it back. -/
private def sweeping : List HostAct :=
  [.spawn sweeper, .call (.addTask [] none none 0), .call (.retireTask 1 1),
   .beginScratchCleanup 0 1 true 2, .requeueTask 1 true (fun _ _ => true) 3]

theorem live_sweep_keeps_worktree_retired :
    ∃ h t, runFrom hostStep {} sweeping = some h ∧ h.ledger.tasks[(1 : Int)]? = some t ∧
      (t.status = .landed ∨ t.status = .retired) ∧ t.operatorDriven = false := by
  have hstate : (runFrom hostStep {} sweeping).map (fun h => (h.lease 1, h.live.map Prod.fst)) =
      some (some (0, sweeper.stamp true), [0]) := by
    decide +kernel
  obtain ⟨h, hrun, hstate⟩ := Option.map_eq_some_iff.mp hstate
  obtain ⟨hlease, hlive⟩ := Prod.mk.inj hstate
  have hrunning : 0 ∈ h.live.map Prod.fst := hlive ▸ mem_cons_self
  obtain ⟨⟨i, p⟩, hp, rfl⟩ := mem_map.mp hrunning
  obtain ⟨t, _, ht, -, -, hterminal, hfree⟩ :=
    (live_sweep_keeps_worktree hrun).1 1 0 (sweeper.stamp true) p hlease hp
  exact ⟨h, t, hrun, ht, hterminal, hfree⟩

end Cosmix.Foreman
