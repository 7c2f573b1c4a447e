/- source: cosmix-foreman/src/ledger (finish_worker.rs, finish_landing.rs, requeue.rs, runs.rs)
   digest: Each run is charged to the ladder of its task at most once; the counters say how many were. -/

import Cosmix.Foreman.Fencing

namespace Cosmix.Foreman

open Lib Lib.Maps List

inductive Report
  | charged (runId : Nat) (id : Int) (reason : Option FindingReason)
  /-- A parked task is put back in the queue. -/
  | restarted (id : Int)
  deriving DecidableEq

namespace Report

def task : Report → Int
  | charged _ id _ | restarted id => id

def run? : Report → Option Nat
  | charged runId _ _ => some runId
  | restarted _ => none

def charges (id : Int) : Report → Bool
  | charged _ j _ => j = id
  | restarted _ => false

def rejects (id : Int) : Report → Bool
  | charged _ j reason => j = id && reason = some .reviewRejected
  | restarted _ => false

end Report

def reports (l : Ledger) : Act → List Report
  | .finishTaskClassified id _ runId _ reason _ _ =>
    if chargeable reason ∧ (l.run? runId).any (fun r => !r.ladderCharge) = true then
      [.charged runId id reason]
    else []
  | .finishLanding id _ runId reason proof _ _ _ _ =>
    if l.landingCharge id runId reason proof then [.charged (runId.getD 0) id reason] else []
  | .requeueTask id _ _ _ =>
    if (l.tasks[id]?).any (fun t => t.status = .parked) then [.restarted id] else []
  | _ => []

/-- A run row from outside the claim, such as a review's. -/
def Ledger.storeRunStart (l : Ledger) (taskId : Int) (role : Option String) : Option Ledger :=
  (l.tasks[taskId]?).map fun t =>
    { l with runs := l.runs ++
        [{ taskId, role := role.getD "implement", attempt := some t.attempt }] }

inductive Call
  | act (a : Act)
  | storeRunStart (taskId : Int) (role : Option String)

def record (s : Ledger × List Report) : Call → Ledger × List Report
  | .act a =>
    match perform s.1 a with
    | none => s
    | some l => (l, reports s.1 a ++ s.2)
  | .storeRunStart taskId role => ((s.1.storeRunStart taskId role).getD s.1, s.2)

/-- The reports since a task last left the parked state for the queue. -/
def since (id : Int) (log : List Report) : List Report := log.takeWhile fun e => e ≠ .restarted id

def tally (id : Int) (log : List Report) : Nat × Nat :=
  ((since id log).countP (Report.charges id), (since id log).countP (Report.rejects id))

theorem tally_other {id : Int} {e : Report} (h : e.task ≠ id) (log : List Report) :
    tally id (e :: log) = tally id log := by
  cases e <;> simp_all [tally, since, Report.charges, Report.rejects, Report.task]

theorem tally_fresh {id : Int} {log : List Report} (h : ∀ e ∈ log, e.task ≠ id) :
    tally id log = (0, 0) := by
  induction log with
  | nil => rfl
  | cons e log ih =>
    obtain ⟨he, hlog⟩ := forall_mem_cons.mp h
    rw [tally_other he, ih hlog]

theorem tally_charged (k : Nat) (id : Int) (reason : Option FindingReason) (log : List Report) :
    tally id (.charged k id reason :: log) = ((tally id log).1 + 1,
      (tally id log).2 + (decide (reason = some .reviewRejected)).toNat) := by
  simp [tally, since, Report.charges, Report.rejects, countP_cons, Bool.toNat, Bool.cond_decide]

def Task.counters (t : Task) : Nat × Nat := (t.ladderFailures, t.reviewRejections)

namespace Task

variable {t t' : Task} {now n : Int} {reason : Option FindingReason} {limits : Thresholds}

theorem noteInfraRefusal_counters {m : Int} (h : t.noteInfraRefusal m n now = some t') :
    t'.counters = t.counters := by
  grind [noteInfraRefusal, counters]

theorem parkRepeatedBranchContract_counters (h : t.parkRepeatedBranchContract n now = some t') :
    t'.counters = t.counters := by
  grind [parkRepeatedBranchContract, released, counters]

theorem infraNoted_counters (h : t.infraNoted reason limits now = some t') :
    t'.counters = t.counters := by
  grind [infraNoted, noteInfraRefusal, resetInfraRefusals, counters]

theorem policyJudged_counters {denials : Nat} (h : t.policyJudged reason limits denials now = some t') :
    t'.counters = t.counters := by
  grind [policyJudged, backoffAndParkPolicyDenial, released, counters]

theorem handoffJudged_counters (h : t.handoffJudged reason limits now = some t') :
    t'.counters = t.counters := by
  grind [handoffJudged, parkRepeatedBranchContract_counters]

variable {τ : ClaimToken}

theorem finishAgentBounce_counters (h : t.finishAgentBounce τ n now = some t') :
    t'.counters = t.counters := by
  unfold finishAgentBounce at h
  split at h
  · have hbounced : (t.selfBounced now).counters = t.counters := rfl
    exact (parkRepeatedBranchContract_counters h).trans hbounced
  · cases h

theorem completeVerified_counters {workdir : String} {pass : Bool}
    (h : t.completeVerified τ workdir pass now = some t') : t'.counters = t.counters := by
  grind [completeVerified, released, resetInfraRefusals, counters]

variable {s : TaskStatus} {charged : Bool}

theorem finishClassified_counters (h : t.finishClassified τ s charged reason limits now = some t') :
    t'.counters = (t.classified charged reason).counters := by
  unfold finishClassified at h
  split at h
  · obtain ⟨_, hnoted, h⟩ := Option.bind_eq_some_iff.mp h
    have hdisposed : (t.disposed s charged reason now).counters =
      (t.classified charged reason).counters := rfl
    exact ((handoffJudged_counters h).trans (infraNoted_counters hnoted)).trans hdisposed
  · cases h

theorem finishLanding_counters {denials : Nat} {recovery : Bool}
    (h : t.finishLanding s charged reason limits denials recovery now = some t') :
    t'.counters = (t.classified charged reason).counters := by
  unfold finishLanding at h
  split at h
  · obtain ⟨_, hnoted, h⟩ := Option.bind_eq_some_iff.mp h
    obtain ⟨_, hjudged, h⟩ := Option.bind_eq_some_iff.mp h
    have hlast := (handoffJudged_counters h).trans (policyJudged_counters hjudged)
    have hmoved : (t.landingMoved s charged reason now).counters =
      (t.classified charged reason).counters := rfl
    exact (hlast.trans (infraNoted_counters hnoted)).trans hmoved
  · cases h

end Task

/-- What an accepted call does to the counters of its row and to the runs, with its report. -/
inductive Counted (l l' : Ledger) (id : Int) (t t' : Task) : List Report → Prop
  | kept (new : List Run) (hruns : l'.runs = l.runs ++ new)
      (hnew : ∀ r ∈ new, r.ladderCharge = false) (h : t'.counters = t.counters) :
      Counted l l' id t t' []
  | charged {k : Nat} {r : Run} {reason : Option FindingReason} (hr : l.run? k = some r)
      (htask : r.taskId = id) (hfree : r.ladderCharge = false)
      (hruns : l'.runs = (l.chargeRun k reason).runs)
      (h : t'.counters = (t.classified true reason).counters) :
      Counted l l' id t t' [.charged k id reason]
  | restarted (hruns : l'.runs = l.runs) (h : t'.counters = (0, 0)) :
      Counted l l' id t t' [.restarted id]

def RowCounted (l l' : Ledger) (id : Int) (es : List Report) : Prop :=
  ∃ t t', l.tasks[id]? = some t ∧ l'.tasks = l.tasks.insert id t' ∧ Counted l l' id t t' es

variable {l l' : Ledger} {id : Int} {a : Act} {log es : List Report}

theorem rowCounted_kept {f : Task → Option Task} (h : l.modify id f = some l')
    (hf : ∀ t t', f t = some t' → t'.counters = t.counters) : RowCounted l l' id [] := by
  obtain ⟨t, t', ht, ht', rfl⟩ := modify_eq_some h
  exact ⟨t, t', ht, rfl, .kept [] (append_nil _).symm nofun (hf t t' ht')⟩

/-- A disposition with a verdict charges a run that the verdict is about, or counts nothing. -/
theorem rowCounted_classified {f : Bool → Task → Option Task} {k : Nat} {charged : Bool}
    {reason : Option FindingReason}
    (h : (if charged then l.chargeRun k reason else l).modify id (f charged) = some l')
    (hf : ∀ t t', f charged t = some t' → t'.counters = (t.classified charged reason).counters)
    (hrun : charged = true → ∃ r, l.run? k = some r ∧ r.taskId = id ∧ r.ladderCharge = false) :
    RowCounted l l' id (if charged then [.charged k id reason] else []) := by
  obtain ⟨t, t', ht, ht', rfl⟩ := modify_eq_some h
  have hcount := hf t t' ht'
  cases charged with
  | true =>
    obtain ⟨r, hr, htask, hfree⟩ := hrun rfl
    exact ⟨t, t', ht, rfl, .charged hr htask hfree rfl hcount⟩
  | false => exact ⟨t, t', ht, rfl, .kept [] (append_nil _).symm nofun hcount⟩

theorem perform_counted (htarget : a.target = some id) (h : perform l a = some l') :
    RowCounted l l' id (reports l a) := by
  cases a with cases htarget
  | claimTask =>
    obtain ⟨t, t', ht, rfl, hclaim⟩ := claimTaskInTx_some h
    obtain ⟨-, rfl⟩ := of_guarded hclaim
    exact ⟨t, _, ht, rfl, .kept [] (append_nil _).symm nofun rfl⟩
  | startAttempt =>
    obtain ⟨t, t', ht, hclaim, rfl⟩ := startAttempt_some h
    obtain ⟨-, rfl⟩ := of_guarded hclaim
    exact ⟨t, _, ht, rfl, .kept _ rfl (forall_mem_singleton.mpr rfl) rfl⟩
  | setTaskWorkspace =>
    rw [perform, Ledger.setTaskWorkspace] at h
    split at h
    · refine rowCounted_kept h fun t t' ht => ?_
      obtain ⟨-, rfl⟩ := of_guarded ht
      rfl
    · cases h
  | finishAgentBounce => exact rowCounted_kept h fun _ _ => Task.finishAgentBounce_counters
  | completeVerified => exact rowCounted_kept h fun _ _ => Task.completeVerified_counters
  | noteInfraRefusal => exact rowCounted_kept h fun _ _ => Task.noteInfraRefusal_counters
  | setStatus _ s =>
    refine rowCounted_kept h fun t t' ht => ?_
    cases ht
    cases s <;> rfl
  | finishTaskClassified _ τ runId s reason limits now =>
    obtain ⟨r, hr, h⟩ := Option.bind_eq_some_iff.mp h
    split at h
    · rename_i howner
      have hreport : reports l (.finishTaskClassified id τ runId s reason limits now) =
          if decide (chargeable reason) && !r.ladderCharge then [.charged runId id reason] else [] := by
        simp [reports, hr]
      rw [hreport]
      refine rowCounted_classified (f := fun charged t => t.finishClassified τ s charged reason limits now)
        h (fun _ _ => Task.finishClassified_counters) fun hcharged => ⟨r, hr, howner.1, ?_⟩
      simpa using (Bool.and_eq_true_iff.mp hcharged).2
    · cases h
  | finishLanding _ target runId reason proof limits denials recovery now =>
    refine rowCounted_classified
      (f := fun charged t => t.finishLanding target charged reason limits denials recovery now)
      h (fun _ _ => Task.finishLanding_counters) fun hcharged => ?_
    obtain ⟨r, hr, hfits⟩ := (Option.any_eq_true _ _).mp (Bool.and_eq_true_iff.mp hcharged).2
    obtain ⟨k, rfl, hr⟩ := Option.bind_eq_some_iff.mp hr
    simp only [Bool.and_eq_true, decide_eq_true_eq, Bool.not_eq_true'] at hfits
    exact ⟨r, hr, hfits.1.1.1, hfits.1.2⟩
  | requeueTask =>
    obtain ⟨t, t', ht, ht', rfl⟩ := modify_eq_some h
    unfold Task.requeue at ht'
    split at ht'
    · cases ht'
    obtain ⟨-, rfl⟩ := of_guarded ht'
    simp only [reports, ht, Option.any_some, decide_eq_true_eq]
    refine ⟨t, _, ht, rfl, ?_⟩
    split
    · next hparked => exact .restarted rfl (by simp [Task.counters, Task.requeued, hparked])
    · next hparked =>
      exact .kept [] (append_nil _).symm nofun (by simp [Task.counters, Task.requeued, hparked])
  | _ =>
    refine rowCounted_kept h fun t t' ht => ?_
    obtain ⟨-, rfl⟩ := of_guarded ht
    rfl

def Ledger.Charged (l : Ledger) (k : Nat) (id : Int) (reason : Option FindingReason) : Prop :=
  ∃ r, l.run? k = some r ∧ r.taskId = id ∧ r.ladderCharge = true ∧ r.ladderChargeReason = reason

structure Tallied (l : Ledger) (log : List Report) : Prop where
  once : (log.filterMap Report.run?).Nodup
  column : ∀ k id reason, .charged k id reason ∈ log ↔ l.Charged k id reason
  known : ∀ e ∈ log, (l.tasks[e.task]?).isSome = true
  counters : ∀ (id : Int) (t : Task), l.tasks[id]? = some t → t.counters = tally id log

theorem charged_append {new : List Run} (hruns : l'.runs = l.runs ++ new)
    (hnew : ∀ r ∈ new, r.ladderCharge = false) (k : Nat) (id : Int) (reason : Option FindingReason) :
    l'.Charged k id reason ↔ l.Charged k id reason := by
  unfold Ledger.Charged Ledger.run?
  rw [hruns]
  refine exists_congr fun r => and_congr_left fun hr => ?_
  split
  · rfl
  rw [getElem?_append]
  split
  · rfl
  next hlt =>
  rw [getElem?_eq_none (Nat.le_of_not_lt hlt)]
  refine ⟨fun hmem => ?_, nofun⟩
  rw [hnew r (mem_of_getElem? hmem)] at hr
  cases hr.2.1

theorem run?_chargeRun {k : Nat} {r : Run} (hr : l.run? k = some r) (reason : Option FindingReason)
    (hruns : l'.runs = (l.chargeRun k reason).runs) (j : Nat) :
    l'.run? j = if j = k then some { r with ladderCharge := true, ladderChargeReason := reason }
      else l.run? j := by
  unfold Ledger.run? at hr ⊢
  split at hr
  · cases hr
  next hk =>
  rw [hruns, Ledger.chargeRun]
  dsimp only
  rw [getElem?_modify]
  by_cases hj : j = k
  · subst hj
    rw [if_neg hk, if_pos rfl, hr]
    simp
  · rw [if_neg hj]
    split
    · rfl
    · have hne : ¬k - 1 = j - 1 := by omega
      simp [hne]

theorem isSome_insert {tasks : Std.ExtTreeMap Int Task compare} {j : Int} {t : Task}
    (h : (tasks[j]?).isSome = true) : ((tasks.insert id t)[j]?).isSome = true := by
  rw [getElem?_insert_eq]
  split
  · rfl
  · exact h

theorem Tallied.step (h : Tallied l log) (hrow : RowCounted l l' id es) : Tallied l' (es ++ log) := by
  obtain ⟨t, t', ht, htasks, hcounted⟩ := hrow
  have hes : ∀ e ∈ es, e.task = id := by
    cases hcounted <;> simp [Report.task]
  have hknown : ∀ e ∈ es ++ log, (l'.tasks[e.task]?).isSome = true := by
    rw [htasks]
    refine forall_mem_append.mpr ⟨fun e he => ?_, fun e he => isSome_insert (h.known e he)⟩
    rw [hes e he]
    exact isSome_insert (by rw [ht]; rfl)
  have hothers : ∀ j, j ≠ id → tally j (es ++ log) = tally j log := by
    intro j hj
    cases hcounted with
    | kept => rfl
    | charged | restarted => exact tally_other (Ne.symm hj) log
  have hcounters : ∀ (j : Int) (x : Task), l'.tasks[j]? = some x → t'.counters = tally id (es ++ log) →
      x.counters = tally j (es ++ log) := by
    intro j x hx hmine
    rw [htasks, getElem?_insert_eq] at hx
    split at hx
    · next hj =>
      cases hx
      rw [hj]
      exact hmine
    · next hj => rw [hothers j hj, h.counters j x hx]
  have hbefore := h.counters id t ht
  cases hcounted with
  | kept new hruns hnew hsame =>
    refine ⟨h.once, fun k j reason => ?_, hknown, fun j x hx => hcounters j x hx (hsame.trans hbefore)⟩
    exact (h.column k j reason).trans (charged_append hruns hnew k j reason).symm
  | restarted hruns hzero =>
    refine ⟨h.once, fun k j reason => ?_, hknown,
      fun j x hx => hcounters j x hx (hzero.trans (by simp [tally, since]))⟩
    have hsame := charged_append (hruns.trans (append_nil _).symm) nofun k j reason
    simpa using (h.column k j reason).trans hsame.symm
  | @charged k r reason hr htask hfree hruns hcount =>
    have hread := run?_chargeRun hr reason hruns
    -- a run that is in the log has its column set
    have hnew : ∀ j reason', .charged k j reason' ∉ log := by
      intro j reason' hmem
      obtain ⟨r', hr', -, hset, -⟩ := (h.column k j reason').mp hmem
      rw [hr] at hr'
      cases hr'
      rw [hfree] at hset
      cases hset
    refine ⟨nodup_cons.mpr ⟨fun hmem => ?_, h.once⟩, fun k' j reason' => ?_, hknown,
      fun j x hx => hcounters j x hx ?_⟩
    · obtain ⟨e, he, hk⟩ := mem_filterMap.mp hmem
      cases e with
      | charged k' j reason' =>
        cases hk
        exact hnew j reason' he
      | restarted => cases hk
    · rw [singleton_append, mem_cons, h.column, Ledger.Charged, Ledger.Charged, hread]
      by_cases hk : k' = k
      · subst hk
        have hnot : ¬l.Charged k' j reason' := fun hc => hnew j reason' ((h.column k' j reason').mpr hc)
        rw [if_pos rfl]
        simp only [Report.charged.injEq, true_and, Option.some.injEq, exists_eq_left', htask]
        refine ⟨fun hc => (hc.resolve_right hnot).imp Eq.symm Eq.symm, fun hc => .inl ?_⟩
        exact hc.imp Eq.symm Eq.symm
      · rw [if_neg hk]
        exact ⟨fun hc => hc.resolve_left fun heq => hk (Report.charged.inj heq).1, .inr⟩
    · rw [hcount, singleton_append, tally_charged, ← hbefore]
      rfl

/-- No charge has been made: an empty ledger, or one from before the columns were there. -/
structure Ledger.Uncharged (l : Ledger) : Prop where
  runs : ∀ r ∈ l.runs, r.ladderCharge = false
  tasks : ∀ (id : Int) (t : Task), l.tasks[id]? = some t → t.counters = (0, 0)

theorem Tallied.start (h : l.Uncharged) : Tallied l [] := by
  refine ⟨nodup_nil, fun k id reason => ⟨nofun, ?_⟩, nofun, h.tasks⟩
  rintro ⟨r, hr, -, hset, -⟩
  unfold Ledger.run? at hr
  split at hr
  · cases hr
  rw [h.runs r (mem_of_getElem? hr)] at hset
  cases hset

theorem Tallied.addTask (h : Tallied l log) {deps : List Int} {reason : Option String}
    {budget : Option Rat} {now : Int} (hadd : l.addTask deps reason budget now = some l') :
    Tallied l' log := by
  obtain ⟨-, rfl⟩ := of_guarded hadd
  refine ⟨h.once, h.column, fun e he => isSome_insert (h.known e he), fun id t ht => ?_⟩
  rw [getElem?_insert_eq] at ht
  split at ht
  · next hid =>
    cases ht
    refine (tally_fresh fun e he heq => ?_).symm
    have hknown := h.known e he
    rw [heq, hid, nextId_fresh] at hknown
    cases hknown
  · exact h.counters id t ht

theorem Tallied.record {s : Ledger × List Report} (h : Tallied s.1 s.2) (c : Call) :
    Tallied (record s c).1 (record s c).2 := by
  unfold Foreman.record
  split
  · next a =>
    split
    · exact h
    · next hl' =>
      cases htarget : a.target with
      | some => exact h.step (perform_counted htarget hl')
      | none =>
        cases a with cases htarget
        | addTask => exact h.addTask hl'
  · next taskId role =>
    unfold Ledger.storeRunStart
    cases ht : s.1.tasks[taskId]? with
    | none => exact h
    | some =>
      refine ⟨h.once, fun k id reason => ?_, h.known, h.counters⟩
      exact (h.column k id reason).trans
        (charged_append rfl (forall_mem_singleton.mpr rfl) k id reason).symm

/-- No run is charged twice, charged runs are the reported ones, and a task's counters count those
since it was last unparked. -/
theorem ladder_charges_counted_once {l : Ledger} (h : l.Uncharged) (calls : List Call) :
    ((calls.foldl record (l, [])).2.filterMap Report.run?).Nodup ∧
    (∀ k id reason, .charged k id reason ∈ (calls.foldl record (l, [])).2 ↔
      (calls.foldl record (l, [])).1.Charged k id reason) ∧
    ∀ (id : Int) (t : Task), (calls.foldl record (l, [])).1.tasks[id]? = some t →
      t.ladderFailures = (since id (calls.foldl record (l, [])).2).countP (Report.charges id) ∧
      t.reviewRejections = (since id (calls.foldl record (l, [])).2).countP (Report.rejects id) := by
  have hend : Tallied (calls.foldl record (l, [])).1 (calls.foldl record (l, [])).2 :=
    foldlRecOn calls record (motive := fun s : Ledger × List Report => Tallied s.1 s.2)
      (Tallied.start h) fun _ hs c _ => hs.record c
  exact ⟨hend.once, hend.column, fun id t ht => Prod.mk.inj (hend.counters id t ht)⟩

/-- A review rejects the work of one attempt, and says so twice. -/
private def rejectedTwice : List Call :=
  let finish := .act (.finishTaskClassified 1 ⟨"w", 1⟩ 1 .bounced (some .reviewRejected) ⟨9, 9, 9⟩ 2)
  [.act (.addTask [] none none 0), .act (.startAttempt 1 "w" none none none none none 1 false),
    finish, finish]

theorem ladder_charges_counted_once_rejected :
    (rejectedTwice.foldl record ({}, [])).2 = [.charged 1 1 (some .reviewRejected)] ∧
      ((rejectedTwice.foldl record ({}, [])).2.filterMap Report.run?).Nodup :=
  ⟨by decide +kernel, (ladder_charges_counted_once ⟨by simp, by simp⟩ rejectedTwice).1⟩

end Cosmix.Foreman
