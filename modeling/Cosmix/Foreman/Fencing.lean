/- source: cosmix-foreman/src/ledger (claims.rs, task_state.rs, finish_worker.rs, finish_landing.rs)
   digest: A claim token is accepted only while the claim behind it is held. -/

import Cosmix.Foreman.Ledger
import Cosmix.Lib.Machine

/-! Every accepted call does one of four things to its row: it claims it under a new attempt number,
records a workspace under a matching token, puts a scratch lease on it, or leaves attempt and branch
alone and at most gives the claim up. -/

namespace Cosmix.Foreman

open Lib Lib.Maps List
open Option (bind_eq_some_iff getD_some map_some)

/-- Attempt and branch stay, and the claim stays or is given up. -/
structure Eased (t t' : Task) : Prop where
  claimedBy : t'.claimedBy = t.claimedBy ∨ t'.claimedBy = none
  attempt : t'.attempt = t.attempt
  branch : t'.branch = t.branch

theorem Eased.trans {t₁ t₂ t₃ : Task} (h : Eased t₁ t₂) (h' : Eased t₂ t₃) : Eased t₁ t₃ where
  claimedBy := by
    rcases h'.claimedBy with e | e
    · rw [e]
      exact h.claimedBy
    · exact .inr e
  attempt := h'.attempt.trans h.attempt
  branch := h'.branch.trans h.branch

inductive Change (a : Act) (t t' : Task) : Prop
  | claims {w : String} (hw : a.claimant = some w) (hfree : t.claimedBy = none)
      (hby : t'.claimedBy = some w) (hnext : t'.attempt = t.attempt + 1)
      (hbranch : t'.branch = a.branch)
  | records {τ : ClaimToken} (hno : a.claimant = none) (hτ : a.token = some τ)
      (hby : t'.claimedBy = t.claimedBy) (hsame : t'.attempt = t.attempt) (hbranch : t'.branch = (a.branch <|> t.branch))
  | leases {pid : Int} {start : Option Int} (hno : a.claimant = none) (hfree : t.claimedBy = none)
      (hby : t'.claimedBy = some (scratchGcClaimantStamp pid start))
      (hsame : t'.attempt = t.attempt) (hbranch : t'.branch = t.branch)
  | eases (hno : a.claimant = none) (h : Eased t t')

namespace Task

variable {t t' : Task} {now : Int} {n : Int} {denials : Nat} {reason : Option FindingReason}
  {limits : Thresholds}

theorem noteInfraRefusal_eased {m : Int} (h : t.noteInfraRefusal m n now = some t') :
    Eased t t' := by
  unfold noteInfraRefusal at h
  split at h
  · dsimp only at h
    split at h
    all_goals
      cases h
      exact ⟨.inl rfl, rfl, rfl⟩
  · cases h

theorem parkRepeatedBranchContract_eased (h : t.parkRepeatedBranchContract n now = some t') :
    Eased t t' := by
  refine Yields.elim h ?_
  unfold parkRepeatedBranchContract
  split
  · split
    · exact ⟨.inl rfl, rfl, rfl⟩
    · split
      · exact ⟨.inr rfl, rfl, rfl⟩
      · exact ⟨.inl rfl, rfl, rfl⟩
  · trivial

theorem backoffAndParkPolicyDenial_eased
    (h : t.backoffAndParkPolicyDenial denials n now = some t') : Eased t t' := by
  refine Yields.elim h ?_
  unfold backoffAndParkPolicyDenial
  split
  · split
    · split
      · exact ⟨.inl rfl, rfl, rfl⟩
      · exact ⟨.inr rfl, rfl, rfl⟩
    · exact ⟨.inl rfl, rfl, rfl⟩
  · trivial

theorem infraNoted_eased (h : t.infraNoted reason limits now = some t') : Eased t t' := by
  unfold infraNoted at h
  split at h
  · exact noteInfraRefusal_eased h
  · cases h
    exact ⟨.inl rfl, rfl, rfl⟩

theorem policyJudged_eased (h : t.policyJudged reason limits denials now = some t') :
    Eased t t' := by
  unfold policyJudged at h
  split at h
  · exact backoffAndParkPolicyDenial_eased h
  · cases h
    exact ⟨.inl rfl, rfl, rfl⟩

theorem handoffJudged_eased (h : t.handoffJudged reason limits now = some t') : Eased t t' := by
  unfold handoffJudged at h
  split at h
  · exact parkRepeatedBranchContract_eased h
  · cases h
    exact ⟨.inl rfl, rfl, rfl⟩

theorem finishAgentBounce_eased {τ : ClaimToken} (h : t.finishAgentBounce τ n now = some t') :
    t.Held τ ∧ Eased t t' := by
  unfold finishAgentBounce at h
  split at h
  · rename_i hheld
    have hbounced : Eased t (t.selfBounced now) := ⟨.inr rfl, rfl, rfl⟩
    exact ⟨hheld.1, hbounced.trans (parkRepeatedBranchContract_eased h)⟩
  · cases h

theorem finishClassified_eased {τ : ClaimToken} {s : TaskStatus} {charged : Bool}
    (h : t.finishClassified τ s charged reason limits now = some t') : t.Held τ ∧ Eased t t' := by
  unfold finishClassified at h
  split at h
  · rename_i hheld
    obtain ⟨_, hnoted, h⟩ := bind_eq_some_iff.mp h
    have hdisposed : Eased t (t.disposed s charged reason now) := ⟨.inr rfl, rfl, rfl⟩
    exact ⟨hheld.2.1, (hdisposed.trans (infraNoted_eased hnoted)).trans (handoffJudged_eased h)⟩
  · cases h

theorem finishLanding_eased {s : TaskStatus} {charged : Bool} {recovery : Bool}
    (h : t.finishLanding s charged reason limits denials recovery now = some t') : Eased t t' := by
  unfold finishLanding at h
  split at h
  · obtain ⟨_, hnoted, h⟩ := bind_eq_some_iff.mp h
    obtain ⟨_, hjudged, h⟩ := bind_eq_some_iff.mp h
    have hmoved : Eased t (t.landingMoved s charged reason now) := ⟨.inl rfl, rfl, rfl⟩
    have hjudged := (infraNoted_eased hnoted).trans (policyJudged_eased hjudged)
    exact (hmoved.trans hjudged).trans (handoffJudged_eased h)
  · cases h

theorem setStatus_eased (s : TaskStatus) : Eased t (t.setStatus s now) := by
  cases s <;> first | exact ⟨.inr rfl, rfl, rfl⟩ | exact ⟨.inl rfl, rfl, rfl⟩

theorem claim_some {w : String} {pid : Option Int} (h : t.claim w pid now = some t') :
    t.claimedBy = none ∧ t'.claimedBy = some w ∧ t'.attempt = t.attempt + 1 ∧ t'.branch = none := by
  unfold claim at h
  split at h
  · rename_i hfree
    cases h
    exact ⟨hfree.1, rfl, rfl, rfl⟩
  · cases h

end Task

variable {l l' : Ledger} {a : Act} {now : Int} {τ : ClaimToken} {acts : List Act} {t : Task}
  {id : Int} {f : Task → Option Task}

theorem modify_eq_some (h : l.modify id f = some l') :
    ∃ t t', l.tasks[id]? = some t ∧ f t = some t' ∧
      l' = { l with tasks := l.tasks.insert id t' } := by
  obtain ⟨t, ht, h⟩ := bind_eq_some_iff.mp h
  obtain ⟨t', ht', h⟩ := bind_eq_some_iff.mp h
  exact ⟨t, t', ht, ht', (Option.some.inj h).symm⟩

/-- An accepted call: the row found, the row left, and the rest of the table as it was. -/
def RowChange (a : Act) (id : Int) (l l' : Ledger) : Prop :=
  ∃ t t', l.tasks[id]? = some t ∧ l'.tasks = l.tasks.insert id t' ∧ Change a t t' ∧
    ∀ τ, a.token = some τ → t.Held τ

theorem rowChange_of_modify {l₀ : Ledger}
    (htasks : l₀.tasks = l.tasks) (h : l₀.modify id f = some l')
    (hf : ∀ t t', f t = some t' → Change a t t' ∧ ∀ τ, a.token = some τ → t.Held τ) :
    RowChange a id l l' := by
  obtain ⟨t, t', ht, ht', rfl⟩ := modify_eq_some h
  exact ⟨t, t', htasks ▸ ht, by rw [htasks], hf t t' ht'⟩

theorem rowChange_eased (hno : a.claimant = none ∧ a.token = none) (h : l.modify id f = some l')
    (hf : ∀ t t', f t = some t' → Eased t t') : RowChange a id l l' := by
  refine rowChange_of_modify rfl h fun t t' ht => ⟨.eases hno.1 (hf t t' ht), fun _ hτ => ?_⟩
  cases hno.2.symm.trans hτ

theorem rowChange_held {l₀ : Ledger} (hno : a.claimant = none) (hτ : a.token = some τ)
    (htasks : l₀.tasks = l.tasks) (h : l₀.modify id f = some l')
    (hf : ∀ t t', f t = some t' → t.Held τ ∧ Eased t t') : RowChange a id l l' := by
  refine rowChange_of_modify htasks h fun t t' ht => ?_
  obtain ⟨hheld, heased⟩ := hf t t' ht
  exact ⟨.eases hno heased, fun _ hτ' => Option.some.inj (hτ.symm.trans hτ') ▸ hheld⟩

variable {pid : Option Int} {allow : Bool} {w : String}

theorem claimTaskInTx_some (h : l.claimTaskInTx id w pid allow now = some l') :
    ∃ t t', l.tasks[id]? = some t ∧ l' = { l with tasks := l.tasks.insert id t' } ∧
      t.claim w pid now = some t' := by
  obtain ⟨t, t', ht, ht', rfl⟩ := modify_eq_some h
  split at ht'
  · exact ⟨t, t', ht, rfl, ht'⟩
  · cases ht'

theorem startAttempt_some {workdir branch role : Option String} {usd : Option Rat}
    (h : l.startAttempt id w pid workdir branch role usd now allow = some l') :
    ∃ t t₁, l.tasks[id]? = some t ∧ t.claim w pid now = some t₁ ∧ l' = ⟨l.tasks.insert id { t₁ with
          worktree := workdir <|> t₁.worktree, branch := branch <|> t₁.branch
          status := .running, updatedAt := now },
        l.runs ++ [{ taskId := id, role := role.getD "implement", attempt := some t₁.attempt }]⟩ := by
  unfold Ledger.startAttempt at h
  split at h
  · obtain ⟨l₁, h₁, h⟩ := bind_eq_some_iff.mp h
    obtain ⟨claimed, hclaimed, h⟩ := bind_eq_some_iff.mp h
    obtain ⟨l₂, h₂, h⟩ := bind_eq_some_iff.mp h
    obtain ⟨t, t₁, ht, rfl, hclaim⟩ := claimTaskInTx_some h₁
    obtain ⟨t₁', t₂, ht₁, hset, rfl⟩ := modify_eq_some h₂
    obtain ⟨t₂', t₃, ht₂, hmark, rfl⟩ := modify_eq_some h
    -- the three statements of the transaction work on the row that it has just claimed
    simp only [getElem?_insert_eq, if_true, Option.some.injEq] at hclaimed ht₁ ht₂
    subst hclaimed ht₁ ht₂
    obtain ⟨-, rfl⟩ := of_guarded hset
    obtain ⟨-, rfl⟩ := of_guarded hmark
    refine ⟨t, t₁, ht, hclaim, congrArg (Ledger.mk · _) ?_⟩
    ext1 j
    simp only [getElem?_insert_eq]
    split
    · rfl
    · simp only [*]
  · cases h

theorem startAttempt_rowChange {workdir branch role : Option String} {usd : Option Rat}
    (h : l.startAttempt id w pid workdir branch role usd now allow = some l') :
    RowChange (.startAttempt id w pid workdir branch role usd now allow) id l l' := by
  obtain ⟨t, _, ht, hclaim, rfl⟩ := startAttempt_some h
  obtain ⟨hfree, hby, hnext, hbranch⟩ := Task.claim_some hclaim
  refine ⟨t, _, ht, rfl, .claims rfl hfree hby hnext ?_, nofun⟩
  rw [hbranch]
  cases branch <;> rfl

/-- Every accepted call on a row makes one of the four changes, under a token that the row holds. -/
theorem perform_rowChange (htarget : a.target = some id) (h : perform l a = some l') :
    RowChange a id l l' := by
  cases a with cases htarget
  | claimTask =>
    obtain ⟨t, t', ht, rfl, hclaim⟩ := claimTaskInTx_some h
    obtain ⟨hfree, hby, hnext, hbranch⟩ := Task.claim_some hclaim
    exact ⟨t, t', ht, rfl, .claims rfl hfree hby hnext hbranch, nofun⟩
  | startAttempt => exact startAttempt_rowChange h
  | renewClaim | markRunning =>
    refine rowChange_held rfl rfl rfl h fun t t' ht => ?_
    obtain ⟨hheld, rfl⟩ := of_guarded ht
    exact ⟨hheld.1, .inl rfl, rfl, rfl⟩
  | setTaskWorkspace _ =>
    rw [perform, Ledger.setTaskWorkspace] at h
    split at h
    · refine rowChange_of_modify rfl h fun t t' ht => ?_
      obtain ⟨hheld, rfl⟩ := of_guarded ht
      exact ⟨.records rfl rfl rfl rfl rfl, fun _ hτ => Option.some.inj hτ ▸ hheld⟩
    · cases h
  | finishClaimed =>
    refine rowChange_held rfl rfl rfl h fun t t' ht => ?_
    obtain ⟨hheld, rfl⟩ := of_guarded ht
    exact ⟨hheld.2.1, .inr rfl, rfl, rfl⟩
  | finishAgentBounce => exact rowChange_held rfl rfl rfl h fun _ _ => Task.finishAgentBounce_eased
  | finishTaskClassified =>
    obtain ⟨r, -, h⟩ := bind_eq_some_iff.mp h
    split at h
    · refine rowChange_held rfl rfl ?_ h fun _ _ => Task.finishClassified_eased
      split <;> rfl
    · cases h
  | finishInfrastructureFailure | finishAbandonedBackground =>
    refine rowChange_held rfl rfl rfl h fun t t' ht => ?_
    obtain ⟨hheld, rfl⟩ := of_guarded ht
    exact ⟨hheld, .inr rfl, rfl, rfl⟩
  | completeVerified _ τ workdir pass now =>
    refine rowChange_held rfl rfl rfl h fun t t' ht => ?_
    unfold Task.completeVerified at ht
    split at ht
    · rename_i hheld
      refine ⟨hheld.1, ?_⟩
      split at ht
      · cases ht
        exact ⟨.inr rfl, rfl, rfl⟩
      · cases ht
        exact ⟨.inl rfl, rfl, rfl⟩
    · cases ht
  | finishTask | landTask | reapOneDeadClaim | endScratchCleanup =>
    refine rowChange_eased ⟨rfl, rfl⟩ h fun t t' ht => ?_
    obtain ⟨-, rfl⟩ := of_guarded ht
    exact ⟨.inr rfl, rfl, rfl⟩
  | setStatus =>
    refine rowChange_eased ⟨rfl, rfl⟩ h fun t t' ht => ?_
    cases ht
    exact Task.setStatus_eased _
  | transition | parkTask | retireTask | setOperatorDriven =>
    refine rowChange_eased ⟨rfl, rfl⟩ h fun t t' ht => ?_
    obtain ⟨-, rfl⟩ := of_guarded ht
    exact ⟨.inl rfl, rfl, rfl⟩
  | finishLanding =>
    refine rowChange_of_modify ?_ h fun t t' ht => ⟨.eases rfl (Task.finishLanding_eased ht), nofun⟩
    split <;> rfl
  | noteInfraRefusal => exact rowChange_eased ⟨rfl, rfl⟩ h fun _ _ => Task.noteInfraRefusal_eased
  | requeueTask =>
    refine rowChange_eased ⟨rfl, rfl⟩ h fun t t' ht => ?_
    unfold Task.requeue at ht
    split at ht
    · cases ht
    · obtain ⟨-, rfl⟩ := of_guarded ht
      exact ⟨.inr rfl, rfl, rfl⟩
  | beginScratchCleanup =>
    refine rowChange_of_modify rfl h fun t t' ht => ?_
    obtain ⟨hfree, rfl⟩ := of_guarded ht
    exact ⟨.leases rfl hfree.2.1 rfl rfl rfl, nofun⟩

theorem nextId_fresh (l : Ledger) : l.tasks[l.nextId]? = none := by
  apply Std.ExtTreeMap.getElem?_eq_none
  intro hmem
  have hkey := Std.ExtTreeMap.mem_keys.mpr hmem
  cases hmax : l.tasks.keys.max? with
  | none =>
    rw [List.max?_eq_none_iff.mp hmax] at hkey
    cases hkey
  | some =>
    have hle := (List.max?_eq_some_iff.mp hmax).2 l.nextId hkey
    rw [Ledger.nextId, hmax, getD_some] at hle
    omega

/-- A row is as it was, or it is new and free, or the call was about it and was accepted. -/
theorem step_row (l : Ledger) (a : Act) (id : Int) : (step l a).tasks[id]? = l.tasks[id]? ∨
    (l.tasks[id]? = none ∧ ∃ t', (step l a).tasks[id]? = some t' ∧ t'.claimedBy = none ∧
      t'.branch = none) ∨
    ∃ t t', a.target = some id ∧ (perform l a).isSome = true ∧ l.tasks[id]? = some t ∧
      (step l a).tasks[id]? = some t' ∧ Change a t t' := by
  cases hp : perform l a with
  | none =>
    left
    rw [step, hp, Option.getD_none]
  | some =>
    rw [step, hp, getD_some]
    cases htarget : a.target with
    | none =>
      cases a with
      | addTask =>
        rw [perform, Ledger.addTask] at hp
        split at hp
        · cases hp
          simp only [getElem?_insert_eq]
          by_cases hid : id = l.nextId
          · rw [if_pos hid, hid]
            exact .inr (.inl ⟨nextId_fresh l, _, rfl, rfl, rfl⟩)
          · rw [if_neg hid]
            exact .inl rfl
        · cases hp
      | _ => cases htarget
    | some id' =>
      obtain ⟨t, t', ht, htasks, hchange, -⟩ := perform_rowChange htarget hp
      rw [htasks, getElem?_insert_eq]
      by_cases hid : id = id'
      · subst hid
        rw [if_pos rfl]
        exact .inr (.inr ⟨t, t', rfl, rfl, ht, rfl, hchange⟩)
      · rw [if_neg hid]
        exact .inl rfl

def ledgerAfter (acts : List Act) : Ledger := runActs {} acts

theorem ledgerAfter_concat (acts : List Act) (a : Act) :
    ledgerAfter (acts ++ [a]) = step (ledgerAfter acts) a := by
  rw [ledgerAfter, runActs, foldl_append]
  rfl

/-- The names a call uses for its workers are not stamps of a scratch lease. -/
def Act.NamesWorkers (a : Act) : Prop :=
  (∀ w, a.claimant = some w → isScratchGcClaimant w = false) ∧
    ∀ τ, a.token = some τ → isScratchGcClaimant τ.owner = false

def Claims (acts : List Act) (a : Act) (id : Int) : Prop :=
  a.claimant.isSome = true ∧ a.target = some id ∧ (perform (ledgerAfter acts) a).isSome = true

/-- The claim behind a token was its owner's, and the row was held under it in every state since. -/
def HeldSince (acts : List Act) (id : Int) (τ : ClaimToken) : Prop :=
  ∃ before a after, acts = before ++ a :: after ∧ Claims before a id ∧ a.claimant = some τ.owner ∧
    ∀ mid, mid <+: after → ∃ t, (ledgerAfter (before ++ a :: mid)).tasks[id]? = some t ∧ t.Held τ

/-- A branch was recorded on a task by an accepted call, under an attempt. -/
def RecordedUnder (acts : List Act) (id : Int) (branch : String) (attempt : Int) : Prop :=
  ∃ before a after t, acts = before ++ a :: after ∧ a.target = some id ∧ a.branch = some branch ∧
    (perform (ledgerAfter before) a).isSome = true ∧
    (ledgerAfter (before ++ [a])).tasks[id]? = some t ∧ t.attempt = attempt

def attemptAfter (acts : List Act) (id : Int) : Option Int :=
  (ledgerAfter acts).tasks[id]?.map Task.attempt

theorem HeldSince.concat (h : HeldSince acts id τ)
    (ht : (ledgerAfter (acts ++ [a])).tasks[id]? = some t) (hheld : t.Held τ) :
    HeldSince (acts ++ [a]) id τ := by
  obtain ⟨before, c, after, rfl, hclaims, hc, hkept⟩ := h
  refine ⟨before, c, after ++ [a], by simp, hclaims, hc, fun mid hmid => ?_⟩
  rcases prefix_concat_iff.mp hmid with rfl | hmid
  · exact ⟨t, by simpa using ht, hheld⟩
  · exact hkept mid hmid

theorem RecordedUnder.concat {b : String} {n : Int} (a : Act)
    (h : RecordedUnder acts id b n) : RecordedUnder (acts ++ [a]) id b n := by
  obtain ⟨before, c, after, t, rfl, hrest⟩ := h
  exact ⟨before, c, after ++ [a], t, by simp, hrest⟩

/-- A row that a worker holds has been held since the claim that created its attempt. -/
theorem heldSince_of_held (hnames : ∀ a ∈ acts, a.NamesWorkers)
    (howner : isScratchGcClaimant τ.owner = false) (ht : (ledgerAfter acts).tasks[id]? = some t)
    (hheld : t.Held τ) : HeldSince acts id τ := by
  -- on the last call: it claims the row, or the row was held under the token before it
  induction acts using reverseRecOn generalizing t with
  | nil => simp [ledgerAfter, runActs] at ht
  | append_singleton acts a ih =>
    have hbefore : ∀ {t₀ : Task}, (ledgerAfter acts).tasks[id]? = some t₀ → t₀.Held τ →
        HeldSince (acts ++ [a]) id τ := fun h₀ hheld₀ =>
      (ih (fun x hx => hnames x (mem_append_left _ hx)) h₀ hheld₀).concat ht hheld
    have hrow := ht
    rw [ledgerAfter_concat] at hrow
    rcases step_row (ledgerAfter acts) a id with hsame | ⟨-, t', ht', hfree, -⟩ |
      ⟨t₀, t', htarget, hok, h₀, ht', hchange⟩
    · exact hbefore (hsame ▸ hrow) hheld
    · obtain rfl := Option.some.inj (hrow.symm.trans ht')
      exact absurd (hfree.symm.trans hheld.1) (by simp)
    obtain rfl := Option.some.inj (hrow.symm.trans ht')
    cases hchange with
    | @claims w hw hfree hby hnext hbranch =>
      have hwτ : a.claimant = some τ.owner := hw.trans (hby.symm.trans hheld.1)
      refine ⟨acts, a, [], rfl, ⟨by rw [hw]; rfl, htarget, hok⟩, hwτ, fun mid hmid => ?_⟩
      rw [prefix_nil.mp hmid]
      exact ⟨t, ht, hheld⟩
    | records hno hτ hby hsame => exact hbefore h₀ ⟨hby ▸ hheld.1, hsame ▸ hheld.2⟩
    | leases hno hfree hby =>
      -- a lease is not a worker's
      have hstamp := Option.some.inj (hby.symm.trans hheld.1)
      rw [← hstamp, isScratchGcClaimant_stamp] at howner
      cases howner
    | eases hno heased =>
      refine hbefore h₀ ⟨?_, heased.attempt ▸ hheld.2⟩
      rcases heased.claimedBy with hby | hby
      · exact hby ▸ hheld.1
      · exact absurd (hby.symm.trans hheld.1) (by simp)

theorem recordedUnder_of_branch {b : String}
    (ht : (ledgerAfter acts).tasks[id]? = some t) (hb : t.branch = some b) :
    RecordedUnder acts id b t.attempt := by
  induction acts using reverseRecOn generalizing t with
  | nil => simp [ledgerAfter, runActs] at ht
  | append_singleton acts a ih =>
    have hrow := ht
    rw [ledgerAfter_concat] at hrow
    rcases step_row (ledgerAfter acts) a id with hsame | ⟨-, t', ht', -, hnone⟩ |
      ⟨t₀, t', htarget, hok, h₀, ht', hchange⟩
    · exact (ih (hsame ▸ hrow) hb).concat a
    · obtain rfl := Option.some.inj (hrow.symm.trans ht')
      exact absurd (hnone.symm.trans hb) (by simp)
    obtain rfl := Option.some.inj (hrow.symm.trans ht')
    have hhere : a.branch = some b → RecordedUnder (acts ++ [a]) id b t.attempt := fun ha =>
      ⟨acts, a, [], t, rfl, htarget, ha, hok, ht, rfl⟩
    cases hchange with
    | claims hw hfree hby hnext hbranch => exact hhere (hbranch.symm.trans hb)
    | records hno hτ hby hsame hbranch =>
      rw [hbranch] at hb
      cases ha : a.branch with
      | some =>
        rw [ha] at hb
        exact hhere (ha.trans hb)
      | none =>
        rw [ha] at hb
        rw [hsame]
        exact (ih h₀ hb).concat a
    | leases hno hfree hby hsame hbranch =>
      rw [hsame]
      exact (ih h₀ (hbranch ▸ hb)).concat a
    | eases hno heased =>
      rw [heased.attempt]
      exact (ih h₀ (heased.branch ▸ hb)).concat a

theorem step_attempt (a : Act) (ht : l.tasks[id]? = some t) :
    ∃ t', (step l a).tasks[id]? = some t' ∧ t.attempt ≤ t'.attempt := by
  rcases step_row l a id with hsame | ⟨hnone, -⟩ | ⟨t₀, t', -, -, h₀, ht', hchange⟩
  · exact ⟨t, hsame.trans ht, Int.le_refl _⟩
  · exact absurd (hnone.symm.trans ht) (by simp)
  obtain rfl := Option.some.inj (h₀.symm.trans ht)
  refine ⟨t', ht', ?_⟩
  cases hchange with
  | claims | records | leases => omega
  | eases hno heased => exact heased.attempt ▸ Int.le_refl _

theorem runActs_attempt (acts : List Act) (ht : l.tasks[id]? = some t) :
    ∃ t', (runActs l acts).tasks[id]? = some t' ∧ t.attempt ≤ t'.attempt := by
  induction acts generalizing l t with
  | nil => exact ⟨t, ht, Int.le_refl _⟩
  | cons a acts ih =>
    obtain ⟨_, ht₁, hle₁⟩ := step_attempt a ht
    obtain ⟨t₂, ht₂, hle₂⟩ := ih ht₁
    exact ⟨t₂, ht₂, Int.le_trans hle₁ hle₂⟩

theorem attemptAfter_le {earlier : List Act} (h : earlier <+: acts) {k m : Int}
    (hk : attemptAfter earlier id = some k) (hm : attemptAfter acts id = some m) : k ≤ m := by
  obtain ⟨rest, rfl⟩ := h
  obtain ⟨t, ht, rfl⟩ := Option.map_eq_some_iff.mp hk
  obtain ⟨_, ht', hle⟩ := runActs_attempt rest ht
  have happend : ledgerAfter (earlier ++ rest) = runActs (ledgerAfter earlier) rest :=
    foldl_append
  rw [attemptAfter, happend, ht'] at hm
  exact Option.some.inj hm ▸ hle

theorem attempt_of_claims (h : Claims acts a id) :
    ∃ m n, attemptAfter acts id = some m ∧ attemptAfter (acts ++ [a]) id = some n ∧ m < n := by
  obtain ⟨hclaimant, htarget, hok⟩ := h
  obtain ⟨l', hl'⟩ := Option.isSome_iff_exists.mp hok
  obtain ⟨t, t', ht, htasks, hchange, -⟩ := perform_rowChange htarget hl'
  have hafter : attemptAfter (acts ++ [a]) id = some t'.attempt := by
    rw [attemptAfter, ledgerAfter_concat, step, hl', getD_some, htasks, getElem?_insert_eq,
      if_pos rfl, map_some]
  refine ⟨t.attempt, t'.attempt, by rw [attemptAfter, ht, map_some], hafter, ?_⟩
  cases hchange with
  | claims => omega
  | records hno hτ hby hsame hbranch | leases hno hfree hby hsame hbranch | eases hno heased =>
    exact absurd hclaimant (by rw [hno]; simp)

/-- After any calls a token is accepted only while the claim that created its attempt is held; a
claim takes a number above all before it; a recorded branch belongs to the attempt. -/
theorem stale_attempt_never_touches {acts : List Act} (hnames : ∀ a ∈ acts, a.NamesWorkers)
    (id : Int) : (∀ a τ, a.NamesWorkers → a.target = some id → a.token = some τ →
      (perform (ledgerAfter acts) a).isSome = true → HeldSince acts id τ) ∧
    (∀ a, Claims acts a id → ∃ m n, attemptAfter acts id = some m ∧
      attemptAfter (acts ++ [a]) id = some n ∧ m < n ∧
      ∀ earlier k, earlier <+: acts → attemptAfter earlier id = some k → k ≤ m) ∧
    ∀ t b, (ledgerAfter acts).tasks[id]? = some t → t.branch = some b →
      RecordedUnder acts id b t.attempt := by
  refine ⟨fun a τ ha htarget hτ hok => ?_, fun a hclaims => ?_, fun t b ht hb => ?_⟩
  · obtain ⟨_, hl'⟩ := Option.isSome_iff_exists.mp hok
    obtain ⟨t, -, ht, -, -, hheld⟩ := perform_rowChange htarget hl'
    exact heldSince_of_held hnames (ha.2 τ hτ) ht (hheld τ hτ)
  · obtain ⟨m, n, hm, hn, hlt⟩ := attempt_of_claims hclaims
    exact ⟨m, n, hm, hn, hlt, fun earlier k hearlier hk => attemptAfter_le hearlier hk hm⟩
  · exact recordedUnder_of_branch ht hb

/-- A task started, taken from its worker and claimed by the same name again. -/
private def reclaimed : List Act :=
  [.addTask [] none none 0, .startAttempt 1 "w" none none (some "b1") none none 1 true,
   .requeueTask 1 true (fun _ _ => false) 2, .claimTask 1 "w" 3]

/-- The worker's second claim gives up the task, and its first cannot. -/
private def finishing (attempt : Int) : Act := .finishClaimed 1 ⟨"w", attempt⟩ .done 4

theorem stale_attempt_never_touches_reclaimed :
    HeldSince reclaimed 1 ⟨"w", 2⟩ ∧ perform (ledgerAfter reclaimed) (finishing 1) = none := by
  have hname : isScratchGcClaimant "w" = false := by decide
  have hnames : ∀ a ∈ reclaimed, a.NamesWorkers := by
    simp [reclaimed, Act.NamesWorkers, Act.claimant, Act.token, hname]
  have hworker : (finishing 2).NamesWorkers := by
    simp [finishing, Act.NamesWorkers, Act.claimant, Act.token, hname]
  have hok : (perform (ledgerAfter reclaimed) (finishing 2)).isSome = true := by decide +kernel
  have hstale : (perform (ledgerAfter reclaimed) (finishing 1)).isNone = true := by decide +kernel
  exact ⟨(stale_attempt_never_touches hnames 1).1 (finishing 2) _ hworker rfl rfl hok,
    Option.isNone_iff_eq_none.mp hstale⟩

/-- The claim has expired and its recorded process is gone. -/
def Task.dead (t : Task) (now : Int) (alive : Option Int → Option Int → Bool) : Bool :=
  match t.claimedBy, t.leaseUntil, t.claimPid with
  | some _, some lease, some pid => decide (t.Live ∧ lease < now) && !alive (some pid) none
  | _, _, _ => false

def Task.reaped (t : Task) (now : Int) : Task :=
  { t.released .queued now with dispatchAfter := none }

theorem step_reap (l : Ledger) (c : Ledger.ExpiredClaim) (now id : Int) :
    (step l (.reapOneDeadClaim c.id c.claimant c.attempt now)).tasks[id]? =
      (l.tasks[id]?).map fun t => if c.id = id ∧ t.Held ⟨c.claimant, c.attempt⟩ ∧ t.Live then
        t.reaped now else t := by
  simp only [step, perform, Ledger.modify]
  rcases ht : l.tasks[c.id]? with _ | t <;> grind [Task.reap, Task.reaped, Maps.getElem?_insert_eq]

theorem run_reap (l : Ledger) (cs : List Ledger.ExpiredClaim) (now id : Int) :
    (runActs l (cs.map fun c => .reapOneDeadClaim c.id c.claimant c.attempt now)).tasks[id]? =
      (l.tasks[id]?).map fun t =>
        if ∃ c ∈ cs, c.id = id ∧ t.Held ⟨c.claimant, c.attempt⟩ ∧ t.Live then t.reaped now else t := by
  induction cs using reverseRecOn with
  | nil => simp [runActs]
  | append_singleton cs c ih =>
    rw [map_append, runActs, foldl_append]
    refine (step_reap (runActs l _) c now id).trans ?_
    rw [ih, Option.map_map]
    congr 1
    funext t
    have hidle : ¬(t.reaped now).Live := by simp [Task.reaped, Task.released, Task.Live]
    rw [Function.comp]
    split_ifs <;> grind

/-- A sweep of the reaper requeues exactly the tasks whose claim has expired and whose process is
gone. -/
theorem reapDeadClaims_exact (l : Ledger) (now : Int) (alive : Option Int → Option Int → Bool)
    (id : Int) : (reapDeadClaims l now alive).tasks[id]? =
      (l.tasks[id]?).map fun t => if t.dead now alive then t.reaped now else t := by
  rw [reapDeadClaims, run_reap]
  refine Option.map_congr fun t ht => ?_
  have hiff : (∃ c ∈ l.deadClaims now alive, c.id = id ∧ t.Held ⟨c.claimant, c.attempt⟩ ∧ t.Live) ↔
      t.dead now alive = true := by
    simp only [Ledger.deadClaims, Ledger.expiredClaims, Ledger.expiredClaim, mem_filter,
      mem_filterMap, Prod.exists, Std.ExtTreeMap.mem_toList_iff_getElem?_eq_some,
      Option.bind_eq_bind, Option.bind_eq_some_iff, Task.dead, Task.Held]
    constructor
    · rintro ⟨⟨_, owner, attempt, _ | pid⟩, h⟩ <;> grind
    · split
      · next owner lease pid _ _ _ => exact fun h => ⟨⟨id, owner, t.attempt, some pid⟩, by grind⟩
      · exact nofun
  simp only [hiff]

end Cosmix.Foreman
