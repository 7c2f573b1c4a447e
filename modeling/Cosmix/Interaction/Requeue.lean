/- source: cosmix-interaction-broker/src/dialog.rs
   digest: Putting active dialogs back into a full queue keeps the invariant. -/

import Cosmix.Interaction.Moves

namespace Cosmix.Interaction

open Cosmix.Lib List

namespace DialogBroker

variable {σ : Type} (nowMs : Nat) (cause : DialogTransitionCause)

section

variable {b : DialogBroker σ} {loose : Set InteractionHandle} {record : DialogRecord}

theorem exists_oldestQueued {handle : InteractionHandle}
    (hrecord : b.records.lookup handle = some record) (hstate : record.state = .queued)
    (origin : Option String) (horigin : ∀ owner ∈ origin, record.ownerService = owner) :
    ∃ candidate, b.oldestQueued origin = some candidate := by
  rw [oldestQueued]
  have hmem : record ∈ sortByKey DialogRecord.age (b.records.values.filter fun record =>
      record.state == .queued && origin.all (record.ownerService == ·)) := by
    rw [mem_sortByKey, mem_filter]
    refine ⟨Table.mem_values.mpr ⟨handle, hrecord⟩, ?_⟩
    cases origin with
    | none => simp [hstate]
    | some owner => simp [hstate, horigin owner rfl]
  obtain ⟨first, _, hlist⟩ := exists_cons_of_ne_nil (ne_nil_of_mem hmem)
  exact ⟨first.handle, by rw [hlist]; rfl⟩

variable (h : Agrees b loose)
include h

variable {candidate : InteractionHandle} {origin : Option String}

theorem Agrees.queuedRecords_pos
    (hsome : b.oldestQueued origin = some candidate) : 0 < b.queuedRecords := by
  obtain ⟨_, hrecord, hqueued⟩ := h.keyed.oldestQueued_some hsome
  exact Table.count_pos (·.state == DialogStateV1.queued) hrecord (beq_iff_eq.mpr hqueued)

theorem Agrees.failOldest (hsome : b.oldestQueued origin = some candidate) :
    Agrees (b.transitionTerminal candidate .failed none nowMs cause) loose ∧
      Shrinks loose b (b.transitionTerminal candidate .failed none nowMs cause) ∧
        (b.transitionTerminal candidate .failed none nowMs cause).queuedRecords <
          b.queuedRecords := by
  obtain ⟨record, hrecord, hqueued⟩ := h.keyed.oldestQueued_some hsome
  have hnot : candidate ∉ loose := h.not_loose_of_not_active hrecord (by rw [hqueued]; rfl)
  obtain ⟨hagrees, hshrinks⟩ := h.transitionTerminal candidate .failed rfl none nowMs cause
  rw [Set.sdiff_singleton_eq_self hnot] at hagrees hshrinks
  refine ⟨hagrees, hshrinks, Table.count_lt_of_subset _ ?_ hrecord (beq_iff_eq.mpr hqueued)⟩
  intro j r hr htest
  obtain ⟨hj, hold⟩ | ⟨-, _, hold, hval⟩ := lookup_transitionTerminal hr
  · exact ⟨hj, r, hold, htest⟩
  rw [hrecord] at hold
  cases hold
  have hlive : record.state.isTerminal ≠ true := by
    rw [hqueued]
    exact Bool.false_ne_true
  rw [hval, if_neg hlive] at htest
  cases htest

theorem Agrees.failAllQueued {fuel : Nat} (hfuel : b.queuedRecords ≤ fuel) :
    Agrees (failAllQueued nowMs cause fuel b) loose ∧
      Shrinks loose b (failAllQueued nowMs cause fuel b) ∧
        (failAllQueued nowMs cause fuel b).oldestQueued none = none := by
  induction fuel generalizing b with
  | zero =>
    refine ⟨h, .refl _ _, Option.eq_none_iff_forall_ne_some.mpr fun candidate hsome => ?_⟩
    have hpos := h.queuedRecords_pos hsome
    omega
  | succ fuel ih =>
    rw [DialogBroker.failAllQueued]
    cases hsome : b.oldestQueued none with
    | none => exact ⟨h, .refl _ _, hsome⟩
    | some =>
      obtain ⟨hagrees, hshrinks, hless⟩ := h.failOldest nowMs cause hsome
      obtain ⟨hagrees', hshrinks', hnone⟩ := ih hagrees (by omega)
      exact ⟨hagrees', hshrinks.trans hshrinks', hnone⟩

theorem Agrees.failWhile (full : DialogBroker σ → Bool) (origin : Option String)
    (hover : ∀ b', Agrees b' loose → Shrinks loose b b' → full b' = true →
      ∃ candidate, b'.oldestQueued origin = some candidate)
    {fuel : Nat} (hfuel : b.queuedRecords ≤ fuel) :
    ∃ b', failWhile full origin nowMs cause fuel b = some b' ∧ Agrees b' loose ∧
      Shrinks loose b b' ∧ full b' = false := by
  induction fuel generalizing b with
  | zero =>
    have hnot : full b = false := by
      refine Bool.eq_false_iff.mpr fun htrue => ?_
      obtain ⟨candidate, hsome⟩ := hover b h (.refl _ _) htrue
      have hpos := h.queuedRecords_pos hsome
      omega
    refine ⟨b, ?_, h, .refl _ _, hnot⟩
    rw [DialogBroker.failWhile, hnot, if_neg Bool.false_ne_true]
  | succ fuel ih =>
    rw [DialogBroker.failWhile]
    cases htest : full b with
    | false => exact ⟨b, rfl, h, .refl _ _, htest⟩
    | true =>
      obtain ⟨candidate, hsome⟩ := hover b h (.refl _ _) htest
      obtain ⟨hagrees, hshrinks, hless⟩ := h.failOldest nowMs cause hsome
      obtain ⟨b', hrun, hagrees', hshrinks', hdone⟩ := ih hagrees
        (fun b' ha hs => hover b' ha (hshrinks.trans hs)) (by omega)
      refine ⟨b', ?_, hagrees', hshrinks.trans hshrinks', hdone⟩
      rw [hsome]
      exact hrun

theorem Agrees.exists_of_overOrigin {origin : String} {count : Nat}
    (hcount : count ≤ b.limits.perOrigin) (hover : overOrigin origin count b = true) :
    ∃ candidate, b.oldestQueued (some origin) = some candidate := by
  have hlong := of_decide_eq_true hover
  have hne : b.waiting.queueOf origin ≠ [] := by
    intro hnil
    rw [hnil, length_nil] at hlong
    omega
  obtain ⟨handle, rest, hqueue⟩ := exists_cons_of_ne_nil hne
  obtain ⟨record, hrecord, hqueued, howner⟩ := waitingOf_eq_some.mp
    ((h.waiting.mem origin handle).mp (hqueue ▸ mem_cons_self))
  exact exists_oldestQueued hrecord hqueued (some origin) fun owner heq => Option.some.inj heq ▸ howner

theorem Agrees.exists_of_waiting (hpos : 0 < b.waiting.length) :
    ∃ candidate, b.oldestQueued none = some candidate := by
  obtain ⟨handle, owner, hwaits⟩ := h.waiting.exists_waiting hpos
  obtain ⟨record, hrecord, hqueued, -⟩ := waitingOf_eq_some.mp hwaits
  exact exists_oldestQueued hrecord hqueued none fun owner heq => by cases heq

theorem Agrees.exists_of_overTotal {count : Nat}
    (hcount : count ≤ b.limits.total) (hover : overTotal count b = true) :
    ∃ candidate, b.oldestQueued none = some candidate := by
  have hlong := of_decide_eq_true hover
  rw [queuedLen] at hlong
  exact h.exists_of_waiting (by omega)

theorem Agrees.makeRoomByOrigin {origins : List (Sigma fun _ : String => Nat)}
    (hcounts : ∀ x ∈ origins, x.2 ≤ b.limits.perOrigin) :
    ∃ b', makeRoomByOrigin nowMs cause origins b = some b' ∧ Agrees b' loose ∧ Shrinks loose b b' ∧
      ∀ x ∈ origins, (b'.waiting.queueOf x.1).length + x.2 ≤ b'.limits.perOrigin := by
  induction origins generalizing b with
  | nil => exact ⟨b, rfl, h, .refl _ _, fun x hx => by cases hx⟩
  | cons x origins ih =>
    obtain ⟨origin, count⟩ := x
    have hcount : count ≤ b.limits.perOrigin := hcounts ⟨origin, count⟩ mem_cons_self
    obtain ⟨b₁, hrun, hagrees, hshrinks, hdone⟩ := h.failWhile nowMs cause
      (overOrigin origin count) (some origin)
      (fun b' ha hs hover => ha.exists_of_overOrigin (hs.limits ▸ hcount) hover) le_rfl
    obtain ⟨b₂, hrun', hagrees', hshrinks', hrest⟩ := ih hagrees fun y hy =>
      hshrinks.limits ▸ hcounts y (mem_cons_of_mem _ hy)
    refine ⟨b₂, ?_, hagrees', hshrinks.trans hshrinks', ?_⟩
    · rw [DialogBroker.makeRoomByOrigin, hrun]
      exact hrun'
    · intro y hy
      obtain rfl | hy := mem_cons.mp hy
      · have hfits := of_decide_eq_false hdone
        have hless := hshrinks'.each origin
        rw [hshrinks'.limits]
        dsimp only at *
        omega
      · exact hrest y hy

omit h

def ownerOf (b : DialogBroker σ) (handle : InteractionHandle) : Option String :=
  (b.records.lookup handle).map (·.ownerService)

def countOwned (b : DialogBroker σ) (items : List (Nat × InteractionHandle)) (owner : String) : Nat :=
  items.countP fun item => b.ownerOf item.2 == some owner

def handlesOf (items : List (Nat × InteractionHandle)) : Set InteractionHandle :=
  {j | j ∈ items.map Prod.snd}

theorem lookup_bump (counts : Table String Nat) (origin owner : String) :
    ((bump counts origin).lookup owner).getD 0 =
      (counts.lookup owner).getD 0 + if origin = owner then 1 else 0 := by
  rw [bump]
  by_cases howner : owner = origin
  · subst owner
    simp
  · simp [howner, Ne.symm howner]

theorem countOwned_cons (item : Nat × InteractionHandle) (items : List (Nat × InteractionHandle)) (hrecord : b.records.lookup item.2 = some record) (owner : String) :
    b.countOwned (item :: items) owner =
      (if record.ownerService = owner then 1 else 0) + b.countOwned items owner := by
  rw [countOwned, countP_cons, ownerOf, hrecord, add_comm]
  simp [countOwned]

variable {items : List (Nat × InteractionHandle)}

theorem countOrigins_some (counts : Table String Nat)
    (hitems : ∀ item ∈ items, ∃ record, b.records.lookup item.2 = some record) :
    ∃ counts', b.countOrigins counts items = some counts' ∧ ∀ owner, (counts'.lookup owner).getD 0 =
        (counts.lookup owner).getD 0 + b.countOwned items owner := by
  induction items generalizing counts with
  | nil => exact ⟨counts, rfl, fun owner => rfl⟩
  | cons item items ih =>
    obtain ⟨record, hrecord⟩ := hitems item mem_cons_self
    obtain ⟨counts', hrun, hcounts⟩ := ih (bump counts record.ownerService) fun x hx =>
      hitems x (mem_cons_of_mem _ hx)
    refine ⟨counts', ?_, fun owner => ?_⟩
    · rw [countOrigins, hrecord]
      exact hrun
    · rw [hcounts, lookup_bump, countOwned_cons item items hrecord, add_assoc]

structure Roomy (b : DialogBroker σ) (items : List (Nat × InteractionHandle)) : Prop where
  total : b.waiting.length + items.length ≤ b.limits.total
  each : ∀ owner, (b.waiting.queueOf owner).length + b.countOwned items owner ≤ b.limits.perOrigin

theorem Shrinks.countOwned {b' : DialogBroker σ} (h : Shrinks (handlesOf items) b b')
    (owner : String) : b'.countOwned items owner = b.countOwned items owner := by
  refine countP_congr fun item hitem => ?_
  rw [ownerOf, ownerOf, h.kept item.2 (mem_map_of_mem hitem)]

theorem Agrees.makeRoom (h : Agrees b (handlesOf items)) (o : Orders) {counts : Table String Nat}
    (hcounts : ∀ owner, (counts.lookup owner).getD 0 = b.countOwned items owner) :
    ∃ b', b.makeRoom o items.length counts nowMs cause = some b' ∧ Agrees b' (handlesOf items) ∧
      Shrinks (handlesOf items) b b' ∧ (Roomy b' items ∨ b'.waiting.length = 0) := by
  rw [DialogBroker.makeRoom]
  by_cases hover : b.limits.total < items.length ∨
      (Table.values counts).any (b.limits.perOrigin < ·) = true
  · rw [if_pos hover]
    obtain ⟨hagrees, hshrinks, hnone⟩ := h.failAllQueued nowMs cause le_rfl
    refine ⟨_, rfl, hagrees, hshrinks, .inr ?_⟩
    by_contra hpos
    obtain ⟨candidate, hsome⟩ := hagrees.exists_of_waiting (Nat.pos_of_ne_zero hpos)
    rw [hnone] at hsome
    cases hsome
  · rw [if_neg hover]
    push Not at hover
    have hvalues : ∀ n ∈ Table.values counts, n ≤ b.limits.perOrigin := by simpa using hover.2
    have hentries : ∀ x ∈ o.origins.walk counts.entries, x.2 ≤ b.limits.perOrigin := fun x hx =>
      hvalues x.2 (mem_map_of_mem ((o.origins.mem_walk).mp hx))
    obtain ⟨b₁, hrun, hagrees, hshrinks, heach⟩ := h.makeRoomByOrigin nowMs cause hentries
    obtain ⟨b₂, hrun', hagrees', hshrinks', hdone⟩ := hagrees.failWhile nowMs cause
      (overTotal items.length) none (fun b' ha hs hover' => ha.exists_of_overTotal
        (hs.limits ▸ hshrinks.limits ▸ hover.1) hover') le_rfl
    have hall := hshrinks.trans hshrinks'
    refine ⟨b₂, ?_, hagrees', hall, .inl ⟨?_, fun owner => ?_⟩⟩
    · rw [hrun]
      exact hrun'
    · have hfits := of_decide_eq_false hdone
      rw [queuedLen] at hfits
      omega
    · rw [hall.countOwned, ← hcounts]
      cases hlookup : counts.lookup owner with
      | none => exact hagrees'.originBound owner
      | some n =>
        have hin := heach ⟨owner, n⟩ ((o.origins.mem_walk).mpr (Table.mem_entries.mpr hlookup))
        have hless := hshrinks'.each owner
        rw [hshrinks'.limits, Option.getD_some]
        dsimp only at hin
        omega

end

section

variable {b : DialogBroker σ} {loose : Set InteractionHandle} {handle : InteractionHandle}
  {record : DialogRecord}

theorem Core.detach (h : Core b loose) (hrecord : b.records.lookup handle = some record)
    (hactive : record.state.isActive = true) (record' : DialogRecord)
    (hhandle : record'.handle = record.handle) (hstate : record'.state = record.state)
    (hattempt : record'.attempt = none) :
    Core { b with records := b.records.insert handle record' } (insert handle loose) := by
  have hidle : (if record'.state = .queued then some record'.ownerService else none) =
      waitingOf b.records handle := by
    rw [if_neg (hstate ▸ DialogStateV1.ne_queued_of_active hactive),
      waitingOf_eq_none hrecord (DialogStateV1.ne_queued_of_active hactive)]
  refine h.put handle record' (hhandle.trans (h.keyed handle record hrecord))
    (fun j hj => or_iff_right hj) ?_ h.queueBound h.originBound h.terminalNodup (fun j => ?_)
    ⟨fun _ => ⟨hattempt, hstate ▸ hactive⟩, fun hnot => absurd (.inl rfl) hnot, by simp [hattempt]⟩
    fun _ => .inr ⟨record, hrecord, hactive⟩
  · rw [hidle, Function.update_eq_self]
    exact h.waiting
  · split
    · subst j
      simp [h.terminal, hrecord, hstate]
    · exact Iff.rfl

variable {items : List (Nat × InteractionHandle)}

theorem Agrees.detachAll (h : Agrees b loose) (hnodup : (items.map Prod.snd).Nodup)
    (hitems : ∀ item ∈ items, ∃ record, b.records.lookup item.2 = some record ∧
      record.state.isActive = true) : ∃ records eligible quarantined,
      detachAll b items = some ({ b with records }, eligible, quarantined) ∧
        Agrees { b with records } (loose ∪ handlesOf items) ∧
          (eligible.map Prod.snd ++ quarantined).Perm (items.map Prod.snd) := by
  induction items generalizing b loose with
  | nil =>
    refine ⟨b.records, [], [], rfl, ?_, .nil⟩
    have hsame : loose ∪ handlesOf [] = loose := by simp [handlesOf]
    rw [hsame]
    exact h
  | cons item items ih =>
    obtain ⟨record, hrecord, hactive⟩ := hitems item mem_cons_self
    obtain ⟨hfirst, hrest⟩ := nodup_cons.mp (map_cons .. ▸ hnodup)
    have hnext := h.toCore.detach hrecord hactive (detached record) rfl rfl rfl
    obtain ⟨records, eligible, quarantined, hrun, hagrees, hperm⟩ := ih ⟨hnext, h.terminalBound⟩ hrest fun x hx => by
      obtain ⟨r, hr, hr'⟩ := hitems x (mem_cons_of_mem _ hx)
      refine ⟨r, ?_, hr'⟩
      have hne : x.2 ≠ item.2 := fun heq => hfirst (heq ▸ mem_map_of_mem hx)
      exact (Table.lookup_insert_eq _ _ _ _).trans ((if_neg hne).trans hr)
    have hset : insert item.2 loose ∪ handlesOf items = loose ∪ handlesOf (item :: items) := by
      ext j
      simp only [handlesOf, Set.mem_union, Set.mem_insert_iff, Set.mem_ofPred_eq, map_cons,
        mem_cons]
      tauto
    rw [hset] at hagrees
    have hloop : DialogBroker.detachAll b (item :: items) =
        if isSpent record then some ({ b with records }, eligible, item.2 :: quarantined)
        else some ({ b with records }, item :: eligible, quarantined) := by
      rw [DialogBroker.detachAll, hrecord]
      simp only [Option.bind_eq_bind, Option.bind_some]
      rw [hrun]
      rfl
    rw [hloop]
    split
    · exact ⟨_, _, _, rfl, hagrees, perm_middle.trans (hperm.cons _)⟩
    · exact ⟨_, _, _, rfl, hagrees, hperm.cons _⟩

theorem Core.requeue (h : Core b loose) (hrecord : b.records.lookup handle = some record)
    (hloose : handle ∈ loose) (htotal : b.waiting.length + 1 ≤ b.limits.total)
    (horigin : (b.waiting.queueOf record.ownerService).length + 1 ≤ b.limits.perOrigin) :
    Core (b.requeue handle record cause) (loose \ {handle}) := by
  obtain ⟨hattempt, hactive⟩ := (h.attempts handle record hrecord).loose hloose
  have hnew := waitingOf_eq_none hrecord (DialogStateV1.ne_queued_of_active hactive)
  have hput := h.put handle { record with state := .queued } (h.keyed handle record hrecord)
    (fun j hj => and_iff_left hj) (h.waiting.enqueue hnew) ?_ (fun owner => ?_) h.terminalNodup
    (fun j => ?_) ⟨fun hin => absurd rfl hin.2, fun _ => by rw [hattempt]; rfl, by simp [hattempt]⟩
    nofun
  · exact { hput with }
  · rw [FairQueue.length_enqueue]
    exact htotal
  · rw [FairQueue.queueOf_enqueue]
    split
    · rw [length_append]
      exact horigin
    · exact h.originBound owner
  · split
    · subst j
      have hqueued : DialogStateV1.queued.isTerminal = false := rfl
      simp [h.terminal, hrecord, DialogStateV1.not_terminal_of_active hactive, hqueued]
    · exact Iff.rfl

/-- What the accepting loop may count on: room for all that is left, or counts that bound the
queue. -/
def Accepting (b : DialogBroker σ) (accepted : Nat) (perOrigin : Table String Nat)
    (items : List (Nat × InteractionHandle)) : Prop :=
  Roomy b items ∨ (b.waiting.length ≤ accepted ∧
    ∀ owner, (b.waiting.queueOf owner).length ≤ (perOrigin.lookup owner).getD 0)

theorem Agrees.acceptAll (h : Agrees b (handlesOf items))
    (hnodup : (items.map Prod.snd).Nodup) {accepted : Nat} {perOrigin : Table String Nat}
    (hroom : Accepting b accepted perOrigin items) :
    ∃ b', acceptAll nowMs cause accepted perOrigin items b = some b' ∧ Agrees b' ∅ ∧
      SameFrame b b' := by
  induction items generalizing b accepted perOrigin with
  | nil =>
    refine ⟨b, rfl, ?_, ⟨rfl, rfl, rfl, rfl⟩⟩
    have hempty : handlesOf [] = ∅ := by simp [handlesOf]
    rwa [hempty] at h
  | cons item items ih =>
    obtain ⟨hfirst, hrest⟩ := nodup_cons.mp (map_cons .. ▸ hnodup)
    have hin : item.2 ∈ handlesOf (item :: items) := mem_cons_self
    have hset : handlesOf (item :: items) \ {item.2} = handlesOf items := by
      ext j
      simp only [handlesOf, map_cons, mem_cons]
      constructor
      · exact fun hj => hj.1.resolve_left hj.2
      · exact fun hj => ⟨.inr hj, fun heq => hfirst (heq ▸ hj)⟩
    obtain ⟨record, hrecord⟩ := h.stored item.2 hin
    rw [DialogBroker.acceptAll, hrecord]
    simp only [Option.bind_eq_bind, Option.bind_some]
    by_cases htest : accepted < b.limits.total ∧
        (perOrigin.lookup record.ownerService).getD 0 < b.limits.perOrigin
    · rw [if_pos htest]
      have hfits : b.waiting.length + 1 ≤ b.limits.total ∧
          (b.waiting.queueOf record.ownerService).length + 1 ≤ b.limits.perOrigin := by
        obtain hroomy | ⟨htotal, heach⟩ := hroom
        · have htotal := hroomy.total
          have heach := hroomy.each record.ownerService
          rw [countOwned_cons item items hrecord, if_pos rfl] at heach
          rw [length_cons] at htotal
          omega
        · have hone := heach record.ownerService
          omega
      have hnext := h.toCore.requeue cause hrecord hin hfits.1 hfits.2
      rw [hset] at hnext
      have hlength : (b.requeue item.2 record cause).waiting.length = b.waiting.length + 1 :=
        FairQueue.length_enqueue _ _ _
      have hqueue : ∀ owner, ((b.requeue item.2 record cause).waiting.queueOf owner).length =
          (b.waiting.queueOf owner).length + if record.ownerService = owner then 1 else 0 := by
        intro owner
        change ((b.waiting.enqueue record.ownerService item.2).queueOf owner).length = _
        rw [FairQueue.queueOf_enqueue]
        by_cases howner : owner = record.ownerService
        · simp [howner]
        · simp [howner, Ne.symm howner]
      have howned : ∀ owner, (b.requeue item.2 record cause).countOwned items owner =
          b.countOwned items owner := by
        intro owner
        refine countP_congr fun x hx => ?_
        have hne : x.2 ≠ item.2 := fun heq => hfirst (heq ▸ mem_map_of_mem hx)
        change (((b.records.insert item.2 _).lookup x.2).map _ == some owner) = true ↔ _
        rw [Table.lookup_insert_eq, if_neg hne, ownerOf]
      have hroom' : Accepting (b.requeue item.2 record cause) (accepted + 1)
          (bump perOrigin record.ownerService) items := by
        obtain hroomy | ⟨htotal, heach⟩ := hroom
        · refine .inl ⟨?_, fun owner => ?_⟩
          · have htotal := hroomy.total
            rw [length_cons] at htotal
            change _ ≤ b.limits.total
            omega
          · have heach := hroomy.each owner
            rw [countOwned_cons item items hrecord] at heach
            rw [hqueue, howned]
            change _ ≤ b.limits.perOrigin
            omega
        · refine .inr ⟨by omega, fun owner => ?_⟩
          have hone := heach owner
          rw [hqueue, lookup_bump]
          omega
      obtain ⟨b', hrun, hagrees, hframe⟩ := ih ⟨hnext, h.terminalBound⟩ hrest hroom'
      exact ⟨b', hrun, hagrees, { hframe with }⟩
    · rw [if_neg htest]
      obtain ⟨hnext, hshrinks⟩ := h.transitionTerminal item.2 .failed rfl none nowMs cause
      rw [hset] at hnext hshrinks
      have hroom' : Accepting (b.transitionTerminal item.2 .failed none nowMs cause) accepted
          perOrigin items := by
        obtain hroomy | ⟨htotal, heach⟩ := hroom
        · refine .inl ⟨?_, fun owner => ?_⟩
          · have htotal := hroomy.total
            have hless := hshrinks.total
            rw [length_cons] at htotal
            rw [hshrinks.limits]
            omega
          · have heach := hroomy.each owner
            have hless := hshrinks.each owner
            rw [countOwned_cons item items hrecord] at heach
            rw [hshrinks.countOwned, hshrinks.limits]
            omega
        · exact .inr ⟨hshrinks.total.trans htotal,
            fun owner => (hshrinks.each owner).trans (heach owner)⟩
      obtain ⟨b', hrun, hagrees, hframe⟩ := ih hnext hrest hroom'
      exact ⟨b', hrun, hagrees, hshrinks.frame.trans hframe⟩

theorem Agrees.requeueProtected (h : Agrees b loose) (o : Orders) {handles : List InteractionHandle}
    (hnodup : handles.Nodup) (hloose : ∀ j ∈ loose, j ∈ handles)
    (hactive : ∀ j ∈ handles, ∃ r, b.records.lookup j = some r ∧ r.state.isActive = true) :
    ∃ b', b.requeueProtected o handles nowMs cause = some b' ∧ Agrees b' ∅ ∧ SameFrame b b' := by
  have hperm := liveByAge_perm hnodup hactive
  obtain ⟨records, eligible, quarantined, hdetach, hagrees, hparts⟩ := h.detachAll
    (hperm.nodup_iff.mpr hnodup) fun item hitem =>
      hactive item.2 (hperm.mem_iff.mp (mem_map_of_mem hitem))
  obtain ⟨helig, -, hdisjoint⟩ := nodup_append.mp
    ((hparts.trans hperm).nodup_iff.mpr hnodup)
  have hset : (loose ∪ handlesOf (b.liveByAge handles)) \ {j | j ∈ quarantined} =
      handlesOf eligible := by
    ext j
    have hmem : j ∈ (b.liveByAge handles).map Prod.snd ↔ j ∈ eligible.map Prod.snd ∨ j ∈ quarantined := by
      rw [← hparts.mem_iff, mem_append]
    have hin : j ∈ loose → j ∈ (b.liveByAge handles).map Prod.snd := fun hj =>
      hperm.mem_iff.mpr (hloose j hj)
    simp only [Set.mem_sdiff, Set.mem_union]
    tauto
  obtain ⟨hquarantine, hshrinks⟩ := hagrees.transitionAll quarantined .failed rfl nowMs .quarantine
  rw [hset] at hquarantine hshrinks
  obtain ⟨counts, hcount, hcounts⟩ := countOrigins_some ∅
    fun (item : Nat × InteractionHandle) (hitem : item ∈ eligible) =>
      hquarantine.stored item.2 (mem_map_of_mem hitem)
  obtain ⟨b₃, hroom, hmade, hshrinks', hroomy⟩ := hquarantine.makeRoom nowMs cause o
    fun owner => (hcounts owner).trans (zero_add _)
  have haccepting : Accepting b₃ 0 ∅ eligible := by
    refine hroomy.imp id fun hzero => ⟨hzero.le, fun owner => ?_⟩
    have hle := b₃.waiting.length_queueOf_le owner
    omega
  obtain ⟨b', haccept, hdone, hframe⟩ := hmade.acceptAll nowMs cause helig haccepting
  have hbefore := (hshrinks.trans hshrinks').frame
  refine ⟨b', ?_, hdone, SameFrame.trans { hbefore with } hframe⟩
  rw [DialogBroker.requeueProtected, hdetach]
  simp only [Option.bind_eq_bind, Option.bind_some]
  rw [hcount, Option.bind_some, hroom]
  exact haccept

theorem Agrees.requeueGeneration (h : Agrees b ∅) (o : Orders) {lease : PresenterLease}
    (hlease : b.presenter = some lease) :
    ∃ b', b.requeueGeneration o lease.generation nowMs cause = some b' ∧ Agrees b' ∅ ∧
      SameFrame b b' ∧ ∀ j r, b'.records.lookup j = some r → r.state.isActive = false := by
  have hfirm : ∀ j r, b.records.lookup j = some r → r.attempt.isSome = r.state.isActive :=
    fun j r hr => (h.attempts j r hr).firm (Set.notMem_empty j)
  have hnodup := h.keyed.nodup_walk o.records fun record =>
    !record.state.isTerminal && record.attempt.any (·.generation == lease.generation)
  have hactive : ∀ j ∈ ((o.records.walk b.records.values).filter fun record =>
      !record.state.isTerminal && record.attempt.any (·.generation == lease.generation)).map
        (·.handle), ∃ r, b.records.lookup j = some r ∧ r.state.isActive = true := by
    intro j hj
    obtain ⟨record, hlookup, htest⟩ := h.keyed.of_mem_walk o.records hj
    refine ⟨record, hlookup, ?_⟩
    rw [← hfirm j record hlookup]
    exact Option.isSome_of_any (Bool.and_eq_true_iff.mp htest).2
  obtain ⟨b', hrun, hagrees, hframe⟩ := h.requeueProtected nowMs cause o hnodup
    (fun j hj => absurd hj (Set.notMem_empty j)) hactive
  refine ⟨b', hrun, hagrees, hframe, fun j r' hr' => ?_⟩
  obtain ⟨r, hr, ⟨-, hback⟩ | ⟨hnot, hrest⟩⟩ :=
    (requeueProtected_spec h.keyed hnodup hactive hrun).2 j r' hr'
  · cases hback with
    | queued => rfl
    | ended requeues state endMs hstate => exact DialogStateV1.not_active_of_terminal hstate
  obtain rfl | ⟨-, _, _, hstate, rfl⟩ := hrest
  · -- an active record has an attempt of the current presenter, so it was listed
    refine Bool.eq_false_iff.mpr fun hact => hnot (h.keyed.mem_walk o.records hr ?_)
    have hsome := hfirm j r' hr
    rw [hact] at hsome
    obtain ⟨attempt, hattempt⟩ := Option.isSome_iff_exists.mp hsome
    obtain ⟨_, hcurrent, hgeneration⟩ := (h.attempts j r' hr).current attempt hattempt
    rw [hlease] at hcurrent
    cases hcurrent
    rw [DialogStateV1.not_terminal_of_active hact, hattempt]
    simp [hgeneration]
  · exact DialogStateV1.not_active_of_terminal hstate

end

end DialogBroker

end Cosmix.Interaction
