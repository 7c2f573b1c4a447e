/- source: cosmix-foreman/src/ledger (claims.rs, task_state.rs, finish_worker.rs, finish_landing.rs,
     finding_types.rs, verification.rs, park_retire.rs, requeue.rs, landing.rs, reaping.rs,
     tasks_create.rs, schema.rs, busy.rs), cosmix-foreman/src/procutil.rs
   digest: The task rows of the foreman ledger and every transaction that writes one. -/

import Cosmix.Lib.Json
import Cosmix.Lib.Text
import Cosmix.Lib.Maps

/-! A sweep that removes the build scratch of a task writes into the claimant column the sentinel,
its process id and, when known, the start time of the process; the pair read back decides whether
the lease may be overridden. A transaction that is refused or matches no row is none. Instants are
seconds. What a transaction reads outside the task and run tables is an argument of it. -/

namespace Cosmix.Foreman

open Lib Lib.Json Lib.Text Lib.Decimal List

def scratchGcSentinel : List Char := "foreman-scratch-gc".toList

variable (pid : Int) (start : Option Int)

/-- The fields behind the sentinel: the process id, and the start time if it was read. -/
def stampFields : List (List Char) :=
  ("pid=".toList ++ decimal pid) :: (start.map fun s => "start=".toList ++ decimal s).toList

def scratchGcClaimantStamp : String :=
  String.ofList (scratchGcSentinel ++ ':' :: [':'].intercalate (stampFields pid start))

def isScratchGcClaimant (claimant : String) : Bool :=
  claimant.toList == scratchGcSentinel ||
    (stripPrefix scratchGcSentinel claimant.toList).any fun rest => rest.head? == some ':'

/-- One field of a stamp, read into the pair found so far. -/
def readField (found : Option Int × Option Int) (field : List Char) : Option Int × Option Int :=
  match stripPrefix "pid=".toList field with
  | some value => (parseI64 value, found.2)
  | none =>
    match stripPrefix "start=".toList field with
    | some value => (found.1, parseI64 value)
    | none => found

def scratchGcClaimOwner (claimant : String) : Option (Int × Option Int) := do
  let rest ← stripPrefix scratchGcSentinel claimant.toList
  let rest ← stripPrefix [':'] rest
  let found := (rest.splitOn ':').foldl readField (none, none)
  found.1.map fun pid => (pid, found.2)

def scratchGcOwnerAliveWith (claimant : String) (ownerAlive : Option Int → Option Int → Bool) :
    Bool :=
  match scratchGcClaimOwner claimant with
  | some (pid, start) => ownerAlive (some pid) start
  | none => false

theorem stripPrefix_append (pat rest : List Char) : stripPrefix pat (pat ++ rest) = some rest := by
  rw [stripPrefix, if_pos (List.isPrefixOf_iff_prefix.mpr (prefix_append pat rest)), drop_left]

theorem toList_stamp : (scratchGcClaimantStamp pid start).toList =
      scratchGcSentinel ++ ([':'] ++ [':'].intercalate (stampFields pid start)) := by
  rw [scratchGcClaimantStamp, String.toList_ofList, singleton_append]

@[simp] theorem isScratchGcClaimant_stamp :
    isScratchGcClaimant (scratchGcClaimantStamp pid start) = true := by
  rw [isScratchGcClaimant, toList_stamp, stripPrefix_append, Bool.or_eq_true]
  exact .inr rfl

theorem colon_not_mem_decimal (n : Int) : ':' ∉ decimal n := by
  intro h
  rcases mem_decimal h with h | h <;> exact absurd h (by decide)

variable {pid : Int}

theorem colon_not_mem_stampFields {start : Option Int} {field : List Char}
    (h : field ∈ stampFields pid start) : ':' ∉ field := by
  have hpid := colon_not_mem_decimal pid
  cases start with
  | none =>
    obtain rfl := mem_singleton.mp h
    simpa using hpid
  | some s =>
    have hstart := colon_not_mem_decimal s
    simp only [stampFields, Option.map_some, Option.toList_some, mem_cons, not_mem_nil,
      or_false] at h
    rcases h with rfl | rfl
    · simpa using hpid
    · simpa using hstart

def FitsI64 (n : Int) : Prop := -2 ^ 63 ≤ n ∧ n < 2 ^ 63

theorem readField_start {s : Int} (h : FitsI64 s) (found : Option Int × Option Int) :
    readField found ("start=".toList ++ decimal s) = (found.1, some s) := by
  exact congrArg (found.1, ·) (parseI64_decimal h.1 h.2)

theorem scratchGcClaimOwner_stamp {start : Option Int} (hpid : FitsI64 pid)
    (hstart : ∀ s ∈ start, FitsI64 s) :
    scratchGcClaimOwner (scratchGcClaimantStamp pid start) = some (pid, start) := by
  have hsplit : ([':'].intercalate (stampFields pid start)).splitOn ':' = stampFields pid start :=
    splitOn_intercalate ':' (fun _ h => colon_not_mem_stampFields h) (cons_ne_nil _ _)
  have hread : (stampFields pid start).foldl readField (none, none) = (some pid, start) := by
    have hfirst : readField (none, none) ("pid=".toList ++ decimal pid) = (some pid, none) := by
      exact congrArg (·, none) (parseI64_decimal hpid.1 hpid.2)
    rw [stampFields, foldl_cons, hfirst]
    cases start with
    | none => rfl
    | some s => exact readField_start (hstart s rfl) (some pid, none)
  simp only [scratchGcClaimOwner, toList_stamp, stripPrefix_append, Option.bind_eq_bind,
    Option.bind_some, hsplit, hread, Option.map_some]

open Lib Lib.Text

inductive TaskStatus
  | queued | claimed | running | done | bounced | failed | parked | landing | landed | retired
  deriving DecidableEq, Repr

inductive FindingReason
  | verifierRed | sccacheBypassed | branchContract | rebaseConflict | reviewRejected
  | reviewFinding | policyDenied | infraRefusal | agentAbandonedBackground | ladderExhausted
  | governorNoHeadroom | taskBudgetExhausted | operator | unknownStatus | retired
  | operatorReserved | operatorReleased | agentReported | rungRefusal | versionBumpDiscarded
  | deadClaimReaped | unknown
  deriving DecidableEq, Repr

structure ClaimToken where
  owner : String
  generation : Int
  deriving DecidableEq, Repr

structure Task where
  status : TaskStatus := .queued
  deps : List Int := []
  claimedBy : Option String := none
  worktree : Option String := none
  branch : Option String := none
  leaseUntil : Option Int := none
  claimPid : Option Int := none
  claimedAt : Option Int := none
  attempt : Int := 0
  ladderFailures : Nat := 0
  reviewRejections : Nat := 0
  branchContractFailures : Nat := 0
  infraRefusals : Nat := 0
  dispatchAfter : Option Int := none
  backgroundAbandonments : Nat := 0
  operatorDriven : Bool := false
  budgetUsd : Option Rat := none
  updatedAt : Int
  deriving DecidableEq

structure Run where
  taskId : Int
  role : String
  /-- None in rows that are older than the column. -/
  attempt : Option Int
  ladderCharge : Bool := false
  ladderChargeReason : Option FindingReason := none
  deriving DecidableEq

/-- The two tables. A run's id is its place, counted from one. -/
structure Ledger where
  tasks : Std.ExtTreeMap Int Task compare := ∅
  runs : List Run := []

def claimLeaseSecs : Int := 24 * 60 * 60

def abandonedBackgroundLimit : Nat := 2

def infraRetryBackoffSecs (count : Nat) : Int := min (30 * max (count : Int) 1) (30 * 60)

def isControl (c : Char) : Bool := c.toNat < 0x20 || (0x7F ≤ c.toNat && c.toNat ≤ 0x9F)

def validBranchName (name : String) : Bool :=
  let cs := name.toList
  !cs.isEmpty && decide (name.utf8ByteSize ≤ 200) && cs.head? != some '-' &&
    cs.head? != some '.' && cs.getLast? != some '/' && !(".lock".toList.isSuffixOf cs) &&
    (splitOnce ['.', '.'] cs).isNone &&
    cs.all fun c => !whitespace c && !isControl c && !"~^:?*[\\".toList.contains c

/-- Only these ends are a worker's to write. -/
def workerDisposition (s : TaskStatus) : Prop := s = .done ∨ s = .bounced ∨ s = .failed

instance (s : TaskStatus) : Decidable (workerDisposition s) :=
  inferInstanceAs (Decidable (_ ∨ _))

namespace Task

variable (t : Task) (τ : ClaimToken)

/-- The row is held under a token: both halves of it match. -/
def Held : Prop := t.claimedBy = some τ.owner ∧ t.attempt = τ.generation

def Live : Prop := t.status = .claimed ∨ t.status = .running

def Dispatchable : Prop := t.status = .queued ∨ t.status = .bounced ∨ t.status = .failed

instance (τ : ClaimToken) : Decidable (t.Held τ) := inferInstanceAs (Decidable (_ ∧ _))

instance : Decidable t.Live := inferInstanceAs (Decidable (_ ∨ _))

instance : Decidable t.Dispatchable := inferInstanceAs (Decidable (_ ∨ _ ∨ _))

def released (s : TaskStatus) (now : Int) : Task :=
  { t with status := s, claimedBy := none, leaseUntil := none, claimPid := none, claimedAt := none,
           updatedAt := now }

def resetInfraRefusals : Task := { t with infraRefusals := 0, dispatchAfter := none }

def claim (claimant : String) (claimPid : Option Int) (now : Int) : Option Task :=
  -- the new attempt number has to be one that the column holds
  if t.claimedBy = none ∧ t.Dispatchable ∧ t.attempt < 2 ^ 63 - 1 then
    some { t with claimedBy := some claimant, status := .claimed, attempt := t.attempt + 1,
                  worktree := none, branch := none, dispatchAfter := none,
                  leaseUntil := some (now + claimLeaseSecs), claimPid := claimPid,
                  claimedAt := some now, updatedAt := now }
  else none

def renewClaim (now : Int) : Option Task :=
  if t.Held τ ∧ t.Live then some { t with leaseUntil := some (now + claimLeaseSecs) } else none

def markRunning (now : Int) : Option Task :=
  if t.Held τ ∧ t.status = .claimed then some { t with status := .running, updatedAt := now }
  else none

def setWorkspace (worktree branch : Option String) (now : Int) : Option Task :=
  if t.Held τ then
    some { t with worktree := worktree <|> t.worktree, branch := branch <|> t.branch,
                  updatedAt := now }
  else none

def finishTask (claimant : String) (status : TaskStatus) (now : Int) : Option Task :=
  if workerDisposition status ∧ t.claimedBy = some claimant ∧ t.Live then
    some { t.released status now with backgroundAbandonments := 0 }.resetInfraRefusals
  else none

def finishClaimed (status : TaskStatus) (now : Int) : Option Task :=
  if workerDisposition status ∧ t.Held τ ∧ t.Live then
    some { t.released status now with backgroundAbandonments := 0 }.resetInfraRefusals
  else none

def parkRepeatedBranchContract (threshold : Int) (now : Int) : Option Task :=
  if 1 ≤ threshold then
    if (t.branchContractFailures : Int) < threshold then some t
    else if t.Dispatchable then some (t.released .parked now) else some t
  else none

/-- A row that its own agent has bounced. -/
def selfBounced (now : Int) : Task :=
  { t.released .bounced now with
    branchContractFailures := t.branchContractFailures + 1
    backgroundAbandonments := 0 }.resetInfraRefusals

def finishAgentBounce (branchContractLimit : Int) (now : Int) : Option Task :=
  if t.Held τ ∧ t.Live then
    (t.selfBounced now).parkRepeatedBranchContract branchContractLimit now
  else none

def noteInfraRefusal (findingThreshold parkThreshold : Int) (now : Int) : Option Task :=
  if 1 ≤ findingThreshold ∧ 1 ≤ parkThreshold ∧ t.Dispatchable ∧ t.claimedBy = none then
    let count := t.infraRefusals + 1
    if parkThreshold ≤ (count : Int) then
      some { t with infraRefusals := count, status := .parked, dispatchAfter := none,
                    updatedAt := now }
    else
      some { t with infraRefusals := count, updatedAt := now
                    dispatchAfter := some (now + infraRetryBackoffSecs count) }
  else none

/-- A denial backs off a bounced task, and parks it when the open denials reach the threshold. -/
def backoffAndParkPolicyDenial (denials : Nat) (threshold : Int) (now : Int) : Option Task :=
  if 1 ≤ threshold then
    if (t.status = .bounced ∨ t.status = .failed) ∧ t.claimedBy = none then
      let backed :=
        { t with dispatchAfter := some (now + infraRetryBackoffSecs 1), updatedAt := now }
      if (denials : Int) < threshold then some backed else some (backed.released .parked now)
    else some t
  else none

end Task

structure Thresholds where
  (infra infraPark branchContract : Int)

def chargeable (reason : Option FindingReason) : Prop :=
  reason = some .verifierRed ∨ reason = some .reviewRejected

def handoffFault (reason : Option FindingReason) : Prop :=
  reason = some .branchContract ∨ reason = some .agentReported

instance (reason : Option FindingReason) : Decidable (chargeable reason) :=
  inferInstanceAs (Decidable (_ ∨ _))

instance (reason : Option FindingReason) : Decidable (handoffFault reason) :=
  inferInstanceAs (Decidable (_ ∨ _))

namespace Task

variable (t : Task)

/-- The counters a classified disposition moves. -/
def classified (charged : Bool) (reason : Option FindingReason) : Task :=
  { t with ladderFailures := t.ladderFailures + charged.toNat
           reviewRejections :=
             t.reviewRejections + (charged && reason = some .reviewRejected).toNat
           branchContractFailures :=
             t.branchContractFailures + (decide (handoffFault reason)).toNat
           dispatchAfter := none }

variable (reason : Option FindingReason) (limits : Thresholds)

/-- The infrastructure counter goes up on a refusal, which may park the task, and is reset else. -/
def infraNoted (now : Int) : Option Task :=
  if reason = some .infraRefusal then t.noteInfraRefusal limits.infra limits.infraPark now
  else some t.resetInfraRefusals

def policyJudged (denials : Nat) (now : Int) : Option Task :=
  if reason = some .policyDenied then t.backoffAndParkPolicyDenial denials limits.infra now
  else some t

def handoffJudged (now : Int) : Option Task :=
  if handoffFault reason then t.parkRepeatedBranchContract limits.branchContract now else some t

/-- A row that an implementation attempt gives up with a verdict on it. -/
def disposed (status : TaskStatus) (charged : Bool) (reason : Option FindingReason) (now : Int) :
    Task :=
  { (t.released status now).classified charged reason with backgroundAbandonments := 0 }

variable (τ : ClaimToken)

def finishClassified (status : TaskStatus) (charged : Bool)
    (reason : Option FindingReason) (limits : Thresholds) (now : Int) : Option Task :=
  if workerDisposition status ∧ t.Held τ ∧ t.Live then
    ((t.disposed status charged reason now).infraNoted reason limits now).bind fun noted =>
      noted.handoffJudged reason limits now
  else none

def finishInfrastructureFailure (now : Int) : Option Task :=
  if t.Held τ then some (t.released .queued now) else none

def finishAbandonedBackground (now : Int) : Option Task :=
  if t.Held τ then
    let count := t.backgroundAbandonments + 1
    let status := if abandonedBackgroundLimit ≤ count then TaskStatus.parked else .queued
    some { t.released status now with backgroundAbandonments := count }.resetInfraRefusals
  else none

/-- A red verification is recorded and the task stays claimed. -/
def completeVerified (workdir : String) (pass : Bool) (now : Int) : Option Task :=
  if t.Held τ ∧ t.Live then
    if pass then some { t.released .done now with worktree := some workdir }.resetInfraRefusals
    else some t
  else none

/-- The operator's unconditional write: the releasing states clear the claim. -/
def setStatus (status : TaskStatus) (now : Int) : Task :=
  match status with
  | .queued | .bounced | .failed | .done => t.released status now
  | .landed => { t.released status now with operatorDriven := false }
  | .claimed | .running | .parked | .landing | .retired =>
    { t with status := status, updatedAt := now }

def transition (source target : TaskStatus) (now : Int) : Option Task :=
  if (source = .done ∧ target = .landing ∨ source = .landing ∧ target = .done ∨
        source = .landing ∧ target = .bounced ∨ source = .landing ∧ target = .landed) ∧
      t.status = source ∧ t.claimedBy = none then
    some { t with status := target, updatedAt := now
                  operatorDriven := t.operatorDriven && decide (target ≠ TaskStatus.landed) }
  else none

/-- A row that leaves the landing state. Only a landing ends a reservation. -/
def landingMoved (target : TaskStatus) (charged : Bool) (reason : Option FindingReason)
    (now : Int) : Task :=
  let counted := t.classified charged reason
  { counted with
    status := target
    updatedAt := now
    branchContractFailures :=
      if ¬ handoffFault reason ∧ target = .landed then 0 else counted.branchContractFailures
    operatorDriven := t.operatorDriven && decide (target ≠ .landed) }

/-- The row after a landing is finished. A recovery finding needs a reason. -/
def finishLanding (target : TaskStatus) (charged : Bool) (reason : Option FindingReason)
    (limits : Thresholds) (denials : Nat) (recoveryFinding : Bool) (now : Int) : Option Task :=
  if (target = .bounced ∨ target = .landed) ∧ t.status = .landing ∧ t.claimedBy = none ∧
      (recoveryFinding = true → reason ≠ none) then
    ((t.landingMoved target charged reason now).infraNoted reason limits now).bind fun noted =>
      (noted.policyJudged reason limits denials now).bind fun judged =>
        judged.handoffJudged reason limits now
  else none

end Task

/-- What a planner's view of a task must still match for it to be parked. -/
inductive ParkGeneration
  | ladderFailures (failures : Nat)
  | taskBudget (usd : Rat)

namespace Task

variable (t : Task)

def matchesGeneration : ParkGeneration → Prop
  | .ladderFailures failures => t.ladderFailures = failures
  | .taskBudget usd => t.budgetUsd = some usd

instance (g : ParkGeneration) : Decidable (t.matchesGeneration g) := by
  cases g <;> exact inferInstanceAs (Decidable (_ = _))

def park (g : ParkGeneration) (now : Int) : Option Task :=
  if t.Dispatchable ∧ t.claimedBy = none ∧ t.matchesGeneration g then
    some { t with status := .parked, updatedAt := now }
  else none

def retire (now : Int) : Option Task :=
  if t.status ≠ .running ∧ t.status ≠ .landing ∧ t.claimedBy = none then
    some { t with status := .retired, updatedAt := now }
  else none

/-- The scratch of the finished task is held by a process that answers as alive. -/
def LiveScratchLease (ownerAlive : Option Int → Option Int → Bool) : Prop :=
  ∃ claimant ∈ t.claimedBy, isScratchGcClaimant claimant = true ∧
    (t.status = .landed ∨ t.status = .retired) ∧
    scratchGcOwnerAliveWith claimant ownerAlive = true

instance (ownerAlive : Option Int → Option Int → Bool) :
    Decidable (t.LiveScratchLease ownerAlive) :=
  match h : t.claimedBy with
  | none => isFalse fun ⟨c, hc, _⟩ => by rw [h] at hc; cases hc
  | some c =>
    decidable_of_iff (isScratchGcClaimant c = true ∧ (t.status = .landed ∨ t.status = .retired) ∧
      scratchGcOwnerAliveWith c ownerAlive = true)
      ⟨fun hc => ⟨c, h, hc⟩, fun ⟨c', hc', hrest⟩ => by rw [h] at hc'; cases hc'; exact hrest⟩

/-- A requeued row. Leaving the parked state starts the counters anew. -/
def requeued (now : Int) : Task :=
  let keep (n : Nat) : Nat := if t.status = .parked then 0 else n
  { t.released .queued now with
    ladderFailures := keep t.ladderFailures
    reviewRejections := keep t.reviewRejections
    branchContractFailures := 0
    backgroundAbandonments := keep t.backgroundAbandonments
    infraRefusals := keep t.infraRefusals
    dispatchAfter := none }

def requeue (force : Bool) (ownerAlive : Option Int → Option Int → Bool) (now : Int) :
    Option Task :=
  if t.LiveScratchLease ownerAlive then none
  else if t.status ≠ .landing ∧
      (force = true ∨ (t.status ≠ .running ∧ t.status ≠ .claimed ∧ t.claimedBy = none)) then
    some (t.requeued now)
  else none

def blank (text : String) : Bool := (trim text.toList).isEmpty

def setOperatorDriven (operatorDriven : Bool) (reason filedBy : String)
    (ownerAlive : Option Int → Option Int → Bool) (now : Int) : Option Task :=
  if blank reason = false ∧ blank filedBy = false ∧ t.operatorDriven ≠ operatorDriven ∧
      ¬ (operatorDriven = true ∧ t.LiveScratchLease ownerAlive) then
    some { t with operatorDriven := operatorDriven, updatedAt := now }
  else none

def land (branchExists : Bool) (now : Int) : Option Task :=
  if t.branch ≠ none ∧ branchExists = true ∧ t.claimedBy = none ∧ ¬ t.Live ∧
      t.status ≠ .landing then
    some (t.released .done now)
  else none

def reap (claimant : String) (attempt : Int) (now : Int) : Option Task :=
  if t.Held ⟨claimant, attempt⟩ ∧ t.Live then
    some { t.released .queued now with dispatchAfter := none }
  else none

def beginScratchCleanup (stamp : String) (now : Int) : Option Task :=
  if (t.status = .landed ∨ t.status = .retired) ∧ t.claimedBy = none ∧ t.operatorDriven = false then
    some { t with claimedBy := some stamp, updatedAt := now }
  else none

def endScratchCleanup (claimant : String) (now : Int) : Option Task :=
  if t.claimedBy = some claimant then some { t with claimedBy := none, updatedAt := now } else none

end Task

namespace Ledger

variable (l : Ledger) (id : Int)

def modify (f : Task → Option Task) : Option Ledger := do
  let t ← l.tasks[id]?
  let t' ← f t
  some { l with tasks := l.tasks.insert id t' }

def nextId : Int := l.tasks.keys.max?.getD 0 + 1

def addTask (deps : List Int) (operatorDrivenReason : Option String) (budgetUsd : Option Rat)
    (now : Int) : Option Ledger :=
  if (∀ reason ∈ operatorDrivenReason, Task.blank reason = false) ∧
      (∀ dep ∈ deps, dep < l.nextId ∧ dep ∈ l.tasks) ∧ deps.Nodup ∧
      (∀ usd ∈ budgetUsd, 0 < usd) then
    some { l with tasks := l.tasks.insert l.nextId
                    { deps := deps, operatorDriven := operatorDrivenReason.isSome,
                      budgetUsd := budgetUsd, updatedAt := now } }
  else none

/-- A dependency that a claim may build on. A landed one is at least done. -/
def depDone (dep : Int) : Bool :=
  l.tasks[dep]?.any fun t => t.status = .done || t.status = .landed

def claimTaskInTx (claimant : String) (claimPid : Option Int)
    (allowOperatorDriven : Bool) (now : Int) : Option Ledger :=
  l.modify id fun t =>
    if (t.operatorDriven = true → allowOperatorDriven = true) ∧ t.deps.all l.depDone = true then
      t.claim claimant claimPid now
    else none

/-- Claim, workspace, run row and running status in one transaction. -/
def startAttempt (claimant : String) (claimPid : Option Int)
    (workdir branch role : Option String) (reservedUsd : Option Rat) (now : Int)
    (allowOperatorDriven : Bool) : Option Ledger :=
  if (∀ b ∈ branch, validBranchName b = true) ∧ (∀ usd ∈ reservedUsd, 0 ≤ usd) then do
    let l₁ ← l.claimTaskInTx id claimant claimPid allowOperatorDriven now
    let claimed ← l₁.tasks[id]?
    let token : ClaimToken := ⟨claimant, claimed.attempt⟩
    let l₂ ← l₁.modify id fun t => t.setWorkspace token workdir branch now
    let run : Run :=
      { taskId := id, role := role.getD "implement", attempt := some claimed.attempt }
    { l₂ with runs := l₂.runs ++ [run] }.modify id fun t => t.markRunning token now
  else none

def setTaskWorkspace (τ : ClaimToken) (worktree branch : Option String) (now : Int) :
    Option Ledger :=
  if ∀ b ∈ branch, validBranchName b = true then
    l.modify id fun t => t.setWorkspace τ worktree branch now
  else none

def run? (runId : Nat) : Option Run := if runId = 0 then none else l.runs[runId - 1]?

def chargeRun (runId : Nat) (reason : Option FindingReason) : Ledger :=
  { l with runs := l.runs.modify (runId - 1) fun r =>
      { r with ladderCharge := true, ladderChargeReason := reason } }

def finishTaskClassified (τ : ClaimToken) (runId : Nat) (status : TaskStatus)
    (reason : Option FindingReason) (limits : Thresholds) (now : Int) : Option Ledger := do
  let r ← l.run? runId
  if r.taskId = id ∧ r.attempt = some τ.generation ∧ r.role = "implement" then
    let charged := decide (chargeable reason) && !r.ladderCharge
    (if charged then l.chargeRun runId reason else l).modify id fun t =>
      t.finishClassified τ status charged reason limits now
  else none

/-- Whether a landing charges its run; one without a number, if verifications prove it the
attempt's. -/
def landingCharge (runId : Option Nat) (reason : Option FindingReason)
    (ownershipProof : Bool) : Bool :=
  decide (chargeable reason) && (runId.bind l.run?).any fun r =>
    r.taskId = id && r.role = "implement" && !r.ladderCharge &&
      (match r.attempt with
       | some attempt => (l.tasks[id]?).any fun t => t.attempt = attempt
       | none => ownershipProof)

def finishLandingClassified (target : TaskStatus) (runId : Option Nat)
    (reason : Option FindingReason) (ownershipProof : Bool) (limits : Thresholds) (denials : Nat)
    (recoveryFinding : Bool) (now : Int) : Option Ledger :=
  let charged := l.landingCharge id runId reason ownershipProof
  (if charged then l.chargeRun (runId.getD 0) reason else l).modify id fun t =>
    t.finishLanding target charged reason limits denials recoveryFinding now

/-- A claim that is old enough to ask whether its process lives. -/
structure ExpiredClaim where
  id : Int
  claimant : String
  attempt : Int
  claimPid : Option Int

def expiredClaim (now : Int) (row : Int × Task) : Option ExpiredClaim := do
  let claimant ← row.2.claimedBy
  let lease ← row.2.leaseUntil
  if row.2.Live ∧ lease < now then some ⟨row.1, claimant, row.2.attempt, row.2.claimPid⟩ else none

def expiredClaims (now : Int) : List ExpiredClaim := l.tasks.toList.filterMap (expiredClaim now)

/-- The snapshotted claims whose recorded process is gone. A claim without one is never reaped. -/
def deadClaims (now : Int) (ownerAlive : Option Int → Option Int → Bool) : List ExpiredClaim :=
  (l.expiredClaims now).filter fun c => c.claimPid.isSome && !ownerAlive c.claimPid none

end Ledger

inductive Act
  | addTask (deps : List Int) (operatorDrivenReason : Option String) (budgetUsd : Option Rat)
      (now : Int)
  | claimTask (id : Int) (claimant : String) (now : Int)
  | startAttempt (id : Int) (claimant : String) (claimPid : Option Int)
      (workdir branch role : Option String) (reservedUsd : Option Rat) (now : Int)
      (allowOperatorDriven : Bool)
  | renewClaim (id : Int) (τ : ClaimToken) (now : Int)
  | markRunning (id : Int) (τ : ClaimToken) (now : Int)
  | setTaskWorkspace (id : Int) (τ : ClaimToken) (worktree branch : Option String) (now : Int)
  | finishClaimed (id : Int) (τ : ClaimToken) (status : TaskStatus) (now : Int)
  | finishAgentBounce (id : Int) (τ : ClaimToken) (branchContractLimit : Int) (now : Int)
  | finishTaskClassified (id : Int) (τ : ClaimToken) (runId : Nat) (status : TaskStatus)
      (reason : Option FindingReason) (limits : Thresholds) (now : Int)
  | finishInfrastructureFailure (id : Int) (τ : ClaimToken) (now : Int)
  | finishAbandonedBackground (id : Int) (τ : ClaimToken) (now : Int)
  | completeVerified (id : Int) (τ : ClaimToken) (workdir : String) (pass : Bool) (now : Int)
  | finishTask (id : Int) (claimant : String) (status : TaskStatus) (now : Int)
  | setStatus (id : Int) (status : TaskStatus) (now : Int)
  | transition (id : Int) (source target : TaskStatus) (now : Int)
  | finishLanding (id : Int) (target : TaskStatus) (runId : Option Nat)
      (reason : Option FindingReason) (ownershipProof : Bool) (limits : Thresholds) (denials : Nat)
      (recoveryFinding : Bool) (now : Int)
  | noteInfraRefusal (id : Int) (findingThreshold parkThreshold : Int) (now : Int)
  | parkTask (id : Int) (generation : ParkGeneration) (now : Int)
  | retireTask (id : Int) (now : Int)
  | requeueTask (id : Int) (force : Bool) (ownerAlive : Option Int → Option Int → Bool) (now : Int)
  | setOperatorDriven (id : Int) (operatorDriven : Bool) (reason filedBy : String)
      (ownerAlive : Option Int → Option Int → Bool) (now : Int)
  | landTask (id : Int) (branchExists : Bool) (now : Int)
  | reapOneDeadClaim (id : Int) (claimant : String) (attempt : Int) (now : Int)
  | beginScratchCleanup (id : Int) (pid : Int) (start : Option Int) (now : Int)
  | endScratchCleanup (id : Int) (claimant : String) (now : Int)

namespace Act

def token : Act → Option ClaimToken
  | renewClaim _ τ _ | markRunning _ τ _ | setTaskWorkspace _ τ _ _ _ | finishClaimed _ τ _ _
  | finishAgentBounce _ τ _ _ | finishTaskClassified _ τ _ _ _ _ _
  | finishInfrastructureFailure _ τ _ | finishAbandonedBackground _ τ _
  | completeVerified _ τ _ _ _ => some τ
  | _ => none

def claimant : Act → Option String
  | claimTask _ w _ | startAttempt _ w _ _ _ _ _ _ _ => some w
  | _ => none

def branch : Act → Option String
  | startAttempt _ _ _ _ b _ _ _ _ | setTaskWorkspace _ _ _ b _ => b
  | _ => none

def target : Act → Option Int
  | addTask .. => none
  | claimTask id .. | startAttempt id .. | renewClaim id .. | markRunning id ..
  | setTaskWorkspace id .. | finishClaimed id .. | finishAgentBounce id ..
  | finishTaskClassified id .. | finishInfrastructureFailure id .. | finishAbandonedBackground id ..
  | completeVerified id .. | finishTask id .. | setStatus id .. | transition id ..
  | finishLanding id .. | noteInfraRefusal id .. | parkTask id .. | retireTask id ..
  | requeueTask id .. | setOperatorDriven id .. | landTask id .. | reapOneDeadClaim id ..
  | beginScratchCleanup id .. | endScratchCleanup id .. => some id

end Act

variable (l : Ledger)

def perform : Act → Option Ledger
  | .addTask deps reason budget now => l.addTask deps reason budget now
  | .claimTask id claimant now => l.claimTaskInTx id claimant none false now
  | .startAttempt id claimant pid workdir branch role usd now allow =>
    l.startAttempt id claimant pid workdir branch role usd now allow
  | .renewClaim id τ now => l.modify id fun t => t.renewClaim τ now
  | .markRunning id τ now => l.modify id fun t => t.markRunning τ now
  | .setTaskWorkspace id τ worktree branch now => l.setTaskWorkspace id τ worktree branch now
  | .finishClaimed id τ status now => l.modify id fun t => t.finishClaimed τ status now
  | .finishAgentBounce id τ limit now => l.modify id fun t => t.finishAgentBounce τ limit now
  | .finishTaskClassified id τ runId status reason limits now =>
    l.finishTaskClassified id τ runId status reason limits now
  | .finishInfrastructureFailure id τ now =>
    l.modify id fun t => t.finishInfrastructureFailure τ now
  | .finishAbandonedBackground id τ now => l.modify id fun t => t.finishAbandonedBackground τ now
  | .completeVerified id τ workdir pass now =>
    l.modify id fun t => t.completeVerified τ workdir pass now
  | .finishTask id claimant status now => l.modify id fun t => t.finishTask claimant status now
  | .setStatus id status now => l.modify id fun t => some (t.setStatus status now)
  | .transition id source target now => l.modify id fun t => t.transition source target now
  | .finishLanding id target runId reason proof limits denials recovery now =>
    l.finishLandingClassified id target runId reason proof limits denials recovery now
  | .noteInfraRefusal id finding park now =>
    l.modify id fun t => t.noteInfraRefusal finding park now
  | .parkTask id generation now => l.modify id fun t => t.park generation now
  | .retireTask id now => l.modify id fun t => t.retire now
  | .requeueTask id force alive now => l.modify id fun t => t.requeue force alive now
  | .setOperatorDriven id flag reason filedBy alive now =>
    l.modify id fun t => t.setOperatorDriven flag reason filedBy alive now
  | .landTask id branchExists now => l.modify id fun t => t.land branchExists now
  | .reapOneDeadClaim id claimant attempt now => l.modify id fun t => t.reap claimant attempt now
  | .beginScratchCleanup id pid start now =>
    l.modify id fun t => t.beginScratchCleanup (scratchGcClaimantStamp pid start) now
  | .endScratchCleanup id claimant now => l.modify id fun t => t.endScratchCleanup claimant now

def step (a : Act) : Ledger := (perform l a).getD l

def runActs (acts : List Act) : Ledger := acts.foldl step l

/-- The reaper: the dead claims of one snapshot, each released in a transaction of its own. -/
def reapDeadClaims (now : Int) (ownerAlive : Option Int → Option Int → Bool) : Ledger :=
  runActs l ((l.deadClaims now ownerAlive).map fun c =>
    .reapOneDeadClaim c.id c.claimant c.attempt now)

end Cosmix.Foreman
