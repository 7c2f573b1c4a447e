/- source: cosmix-interaction-broker/src/dialog.rs
   digest: What the broker's internal steps can do to a record. -/

import Cosmix.Interaction.Bookkeeping

namespace Cosmix.Interaction

open Cosmix.Lib List

namespace DialogBroker

variable {σ : Type}

/-- Records may leave, and allowed live records may end without a value; nothing else changes. -/
structure Ends (allowed : InteractionHandle → DialogRecord → Prop) (b b' : DialogBroker σ) : Prop where
  presenter : b'.presenter = b.presenter
  records : ∀ j r', b'.records.lookup j = some r' → ∃ r, b.records.lookup j = some r ∧
    (r' = r ∨ r.state.isTerminal = false ∧ allowed j r ∧
      ∃ state nowMs, state.isTerminal = true ∧ r' = r.ended state none nowMs)

section

variable {allowed allowed' : InteractionHandle → DialogRecord → Prop} {b b' b'' : DialogBroker σ}

theorem Ends.of_lookup (hpresenter : b'.presenter = b.presenter)
    (h : ∀ j r, b'.records.lookup j = some r → b.records.lookup j = some r) : Ends allowed b b' :=
  ⟨hpresenter, fun j r hr => ⟨r, h j r hr, .inl rfl⟩⟩

theorem Ends.refl (allowed : InteractionHandle → DialogRecord → Prop) (b : DialogBroker σ) :
    Ends allowed b b := .of_lookup rfl fun _ _ hr => hr

theorem Ends.mono (h : Ends allowed b b')
    (himp : ∀ j r, b.records.lookup j = some r → allowed j r → allowed' j r) :
    Ends allowed' b b' := by
  refine ⟨h.presenter, fun j r' hr' => ?_⟩
  obtain ⟨r, hr, rfl | ⟨hlive, hallowed, hend⟩⟩ := h.records j r' hr'
  · exact ⟨r', hr, .inl rfl⟩
  · exact ⟨r, hr, .inr ⟨hlive, himp j r hr hallowed, hend⟩⟩

theorem Ends.trans (h : Ends allowed b b') (h' : Ends allowed b' b'') : Ends allowed b b'' := by
  refine ⟨h'.presenter.trans h.presenter, fun j r'' hr'' => ?_⟩
  obtain ⟨r', hr', rfl | ⟨hlive', hallowed', state', nowMs', hstate', rfl⟩⟩ := h'.records j r'' hr''
  · exact h.records j r'' hr'
  obtain ⟨r, hr, rfl | ⟨-, -, _, _, hstate, rfl⟩⟩ := h.records j r' hr'
  · exact ⟨r', hr, .inr ⟨hlive', hallowed', state', nowMs', hstate', rfl⟩⟩
  -- an ended record does not end again
  · rw [DialogRecord.ended_state, hstate] at hlive'
    cases hlive'

theorem Ends.keyed (h : Ends allowed b b') (hb : b.Keyed) : b'.Keyed := by
  intro j r' hr'
  obtain ⟨r, hr, rfl | ⟨-, -, _, _, -, rfl⟩⟩ := h.records j r' hr'
  · exact hb j r' hr
  · exact hb j r hr

end

section

variable {b : DialogBroker σ}

theorem trimTerminalCount_presenter (b : DialogBroker σ) :
    b.trimTerminalCount.presenter = b.presenter := by
  refine Function.Iterate.rec (fun b' : DialogBroker σ => b'.presenter = b.presenter) rfl
    (fun b' hb' => ?_) _
  exact evictOldest_frame.1.presenter.trans hb'

theorem transitionTerminal_presenter (b : DialogBroker σ) (handle : InteractionHandle)
    (state : DialogStateV1) (value : Option DialogValueV1) (nowMs : Nat)
    (cause : DialogTransitionCause) :
    (b.transitionTerminal handle state value nowMs cause).presenter = b.presenter := by
  rw [transitionTerminal]
  split
  · rfl
  · split
    · rfl
    · exact trimTerminalCount_presenter _

theorem ends_evictTerminalTtl (b : DialogBroker σ) (nowMs : Nat) :
    Ends (fun _ _ => False) b (b.evictTerminalTtl nowMs).1 := by
  obtain ⟨hframe, -, -, hlookup⟩ :=
    @evictRecords_frame σ b (b.terminalOrder.filter (b.ttlOver nowMs))
  refine .of_lookup hframe.presenter fun j r hr => ?_
  change (List.foldl evictRecord b _).records.lookup j = some r at hr
  rw [hlookup] at hr
  split at hr
  · cases hr
  · exact hr

variable {j candidate : InteractionHandle} {r : DialogRecord} {origin : Option String}

section

variable (hb : b.Keyed) {test : DialogRecord → Bool}
include hb

theorem Keyed.of_mem_walk (w : Walk DialogRecord)
    (hj : j ∈ ((w.walk b.records.values).filter test).map (·.handle)) :
    ∃ r, b.records.lookup j = some r ∧ test r = true := by
  obtain ⟨record, hrecord, rfl⟩ := mem_map.mp hj
  obtain ⟨hmem, htest⟩ := mem_filter.mp hrecord
  obtain ⟨handle, hlookup⟩ := Table.mem_values.mp (w.mem_walk.mp hmem)
  rw [hb handle record hlookup]
  exact ⟨record, hlookup, htest⟩

theorem Keyed.mem_walk (w : Walk DialogRecord)
    (hr : b.records.lookup j = some r) (htest : test r = true) :
    j ∈ ((w.walk b.records.values).filter test).map (·.handle) := by
  refine mem_map.mpr ⟨r, mem_filter.mpr ⟨w.mem_walk.mpr ?_, htest⟩, hb j r hr⟩
  exact Table.mem_values.mpr ⟨j, hr⟩

theorem Keyed.oldestQueued_some (hsome : b.oldestQueued origin = some candidate) :
    ∃ record, b.records.lookup candidate = some record ∧ record.state = .queued := by
  obtain ⟨record, hhead, rfl⟩ := Option.map_eq_some_iff.mp hsome
  have hmem := (mem_sortByKey _).mp (mem_of_head? hhead)
  obtain ⟨hvalue, htest⟩ := mem_filter.mp hmem
  obtain ⟨handle, hrecord⟩ := Table.mem_values.mp hvalue
  rw [hb handle record hrecord]
  exact ⟨record, hrecord, beq_iff_eq.mp (Bool.and_eq_true_iff.mp htest).1⟩

end

variable (nowMs : Nat) (cause : DialogTransitionCause)

section

variable (state : DialogStateV1) (hstate : state.isTerminal = true)
include hstate

theorem ends_transitionTerminal (b : DialogBroker σ) (handle : InteractionHandle) :
    Ends (fun j _ => j = handle) b (b.transitionTerminal handle state none nowMs cause) := by
  refine ⟨transitionTerminal_presenter b handle state none nowMs cause, fun j r' hr' => ?_⟩
  obtain ⟨-, hr⟩ | ⟨rfl, old, hold, rfl⟩ := lookup_transitionTerminal hr'
  · exact ⟨r', hr, .inl rfl⟩
  refine ⟨old, hold, ?_⟩
  by_cases hterm : old.state.isTerminal = true
  · exact .inl (if_pos hterm)
  · exact .inr ⟨Bool.eq_false_iff.mpr hterm, rfl, state, nowMs, hstate, if_neg hterm⟩

theorem ends_transitionAll (handles : List InteractionHandle) (b : DialogBroker σ) :
    Ends (fun j _ => j ∈ handles) b (b.transitionAll handles state nowMs cause) := by
  induction handles generalizing b with
  | nil => exact .refl _ _
  | cons handle handles ih =>
    have hfirst := ends_transitionTerminal nowMs cause state hstate b handle
    exact (hfirst.mono fun j _ _ hj => hj ▸ mem_cons_self).trans
      ((ih _).mono fun j _ _ hj => mem_cons_of_mem _ hj)

theorem transitionAll_terminal {handles : List InteractionHandle} (b : DialogBroker σ) (hj : j ∈ handles)
    (hr : (b.transitionAll handles state nowMs cause).records.lookup j = some r) :
    r.state.isTerminal = true := by
  induction handles generalizing b with
  | nil => cases hj
  | cons handle handles ih =>
    by_cases hin : j ∈ handles
    · exact ih _ hin hr
    obtain rfl : j = handle := (mem_cons.mp hj).resolve_right hin
    obtain ⟨r₁, hr₁, rfl | ⟨-, -, state', -, hstate', rfl⟩⟩ :=
      (ends_transitionAll nowMs cause state hstate handles _).records j r hr
    · obtain ⟨hne, -⟩ | ⟨-, old, -, rfl⟩ := lookup_transitionTerminal hr₁
      · exact absurd rfl hne
      · split
        · assumption
        · exact hstate
    · exact hstate'

theorem ends_transitionWalk (hb : b.Keyed) (w : Walk DialogRecord) (test : DialogRecord → Bool) :
    Ends (fun _ r => test r = true) b
      (b.transitionAll (((w.walk b.records.values).filter test).map (·.handle)) state nowMs
        cause) := by
  refine (ends_transitionAll nowMs cause state hstate _ b).mono fun j r hr hj => ?_
  obtain ⟨_, hrecord, htest⟩ := hb.of_mem_walk w hj
  cases hr.symm.trans hrecord
  exact htest

end

variable (hb : b.Keyed)
include hb

theorem ends_expireDue (o : Orders) :
    Ends (fun _ r => r.isDue nowMs = true) b (b.expireDue o nowMs) :=
  ends_transitionWalk nowMs .expire .expired rfl hb o.records _

theorem ends_maintain (o : Orders) :
    Ends (fun _ r => r.isDue nowMs = true) b (b.maintain o nowMs) := by
  have hall := (ends_expireDue nowMs hb o).trans
    ((ends_evictTerminalTtl (b.expireDue o nowMs) nowMs).mono fun _ _ _ h => h.elim)
  exact ⟨hall.presenter, hall.records⟩

theorem ends_failOldest (hsome : b.oldestQueued origin = some candidate) :
    Ends (fun _ r => r.state = .queued) b
      (b.transitionTerminal candidate .failed none nowMs cause) := by
  obtain ⟨_, hrecord, hqueued⟩ := hb.oldestQueued_some hsome
  refine (ends_transitionTerminal nowMs cause .failed rfl b candidate).mono fun j r hr hj => ?_
  cases (hj ▸ hr).symm.trans hrecord
  exact hqueued

theorem ends_failAllQueued (fuel : Nat) :
    Ends (fun _ r => r.state = .queued) b (failAllQueued nowMs cause fuel b) := by
  induction fuel generalizing b with
  | zero => exact .refl _ _
  | succ fuel ih =>
    rw [failAllQueued]
    cases hsome : b.oldestQueued none with
    | none => exact .refl _ _
    | some =>
      have hfirst := ends_failOldest nowMs cause hb hsome
      exact hfirst.trans (ih (hfirst.keyed hb))

variable {nowMs cause} {b' : DialogBroker σ}

theorem ends_failWhile {full : DialogBroker σ → Bool} {fuel : Nat}
    (hrun : failWhile full origin nowMs cause fuel b = some b') :
    Ends (fun _ r => r.state = .queued) b b' := by
  induction fuel generalizing b with
  | zero =>
    rw [failWhile] at hrun
    split at hrun
    · cases hrun
    · cases hrun
      exact .refl _ _
  | succ fuel ih =>
    rw [failWhile] at hrun
    split at hrun
    · obtain ⟨_, hsome, hrest⟩ := Option.bind_eq_some_iff.mp hrun
      have hfirst := ends_failOldest nowMs cause hb hsome
      exact hfirst.trans (ih (hfirst.keyed hb) hrest)
    · cases hrun
      exact .refl _ _

theorem ends_makeRoomByOrigin {origins : List (Sigma fun _ : String => Nat)}
    (hrun : makeRoomByOrigin nowMs cause origins b = some b') :
    Ends (fun _ r => r.state = .queued) b b' := by
  induction origins generalizing b with
  | nil =>
    cases hrun
    exact .refl _ _
  | cons x origins ih =>
    obtain ⟨_, hfirst, hrest⟩ := Option.bind_eq_some_iff.mp hrun
    have hends := ends_failWhile hb hfirst
    exact hends.trans (ih (hends.keyed hb) hrest)

theorem ends_makeRoom {o : Orders} {eligible : Nat} {counts : Table String Nat}
    (hrun : b.makeRoom o eligible counts nowMs cause = some b') :
    Ends (fun _ r => r.state = .queued) b b' := by
  rw [makeRoom] at hrun
  split at hrun
  · cases hrun
    exact ends_failAllQueued nowMs cause hb _
  · obtain ⟨_, hfirst, hrest⟩ := Option.bind_eq_some_iff.mp hrun
    have hends := ends_makeRoomByOrigin hb hfirst
    exact hends.trans (ends_failWhile (hends.keyed hb) hrest)

omit hb

end

/-- A record whose attempt was taken away, with any count of lost attempts. -/
def withoutAttempt (r : DialogRecord) (requeues : Nat) : DialogRecord :=
  { r with attempt := none, preDisplayRequeues := requeues }

/-- What becomes of a record that is put back: it waits again, or it ends without a value. -/
inductive PutBack (r : DialogRecord) : DialogRecord → Prop
  | queued (requeues : Nat) : PutBack r { withoutAttempt r requeues with state := .queued }
  | ended (requeues : Nat) (state : DialogStateV1) (nowMs : Nat) (hstate : state.isTerminal = true) :
      PutBack r ((withoutAttempt r requeues).ended state none nowMs)

section

variable {b : DialogBroker σ} {b' : DialogBroker σ} {handles : List InteractionHandle}
  {items : List (Nat × InteractionHandle)}

theorem detachAll_spec
    {eligible : List (Nat × InteractionHandle)} {quarantined : List InteractionHandle}
    (hnodup : (items.map Prod.snd).Nodup)
    (hrun : detachAll b items = some (b', eligible, quarantined)) : b'.presenter = b.presenter ∧
      (eligible.map Prod.snd ++ quarantined).Perm (items.map Prod.snd) ∧
      ∀ j r', b'.records.lookup j = some r' → ∃ r, b.records.lookup j = some r ∧
        (j ∈ items.map Prod.snd ∧ r' = detached r ∨ j ∉ items.map Prod.snd ∧ r' = r) := by
  induction items generalizing b b' eligible quarantined with
  | nil =>
    cases hrun
    exact ⟨rfl, .nil, fun j r' hr' => ⟨r', hr', .inr ⟨not_mem_nil, rfl⟩⟩⟩
  | cons item items ih =>
    obtain ⟨hfirst, hrest⟩ := nodup_cons.mp (map_cons .. ▸ hnodup)
    obtain ⟨record, hrecord, hrun⟩ := Option.bind_eq_some_iff.mp hrun
    obtain ⟨⟨b₁, eligible₁, quarantined₁⟩, hloop, hrun⟩ := Option.bind_eq_some_iff.mp hrun
    obtain ⟨hpresenter, hperm, hlookup⟩ := ih hrest hloop
    have hparts : b' = b₁ ∧ (eligible.map Prod.snd ++ quarantined).Perm
        (item.2 :: (eligible₁.map Prod.snd ++ quarantined₁)) := by
      dsimp only at hrun
      split at hrun
      · cases hrun
        exact ⟨rfl, perm_middle⟩
      · cases hrun
        exact ⟨rfl, .rfl⟩
    obtain ⟨rfl, hparts⟩ := hparts
    refine ⟨hpresenter, hparts.trans (hperm.cons _), fun j r' hr' => ?_⟩
    obtain ⟨r, hr, hval⟩ := hlookup j r' hr'
    obtain ⟨rfl, rfl⟩ | ⟨hj, hr⟩ := Table.of_lookup_insert hr
    · obtain ⟨hin, -⟩ | ⟨-, rfl⟩ := hval
      · exact absurd hin hfirst
      · exact ⟨record, hrecord, .inl ⟨mem_cons_self, rfl⟩⟩
    · refine ⟨r, hr, ?_⟩
      simpa only [map_cons, mem_cons, hj, false_or] using hval

variable {cause : DialogTransitionCause}

theorem acceptAll_spec {accepted : Nat} {perOrigin : Table String Nat} {nowMs : Nat}
    (hnodup : (items.map Prod.snd).Nodup)
    (hrun : acceptAll nowMs cause accepted perOrigin items b = some b') :
    b'.presenter = b.presenter ∧ ∀ j r', b'.records.lookup j = some r' → ∃ r, b.records.lookup j = some r ∧
      (j ∉ items.map Prod.snd ∧ r' = r ∨ j ∈ items.map Prod.snd ∧
        (r' = { r with state := .queued } ∨
          r' = if r.state.isTerminal then r else r.ended .failed none nowMs)) := by
  induction items generalizing b accepted perOrigin with
  | nil =>
    cases hrun
    exact ⟨rfl, fun j r' hr' => ⟨r', hr', .inl ⟨not_mem_nil, rfl⟩⟩⟩
  | cons item items ih =>
    obtain ⟨hfirst, hrest⟩ := nodup_cons.mp (map_cons .. ▸ hnodup)
    obtain ⟨record, hrecord, hrun⟩ := Option.bind_eq_some_iff.mp hrun
    -- the rest of the loop does not touch the first item again
    split at hrun
    · obtain ⟨hpresenter, hlookup⟩ := ih hrest hrun
      refine ⟨hpresenter, fun j r' hr' => ?_⟩
      obtain ⟨r, hr, hcase⟩ := hlookup j r' hr'
      obtain ⟨rfl, rfl⟩ | ⟨hj, hr⟩ := Table.of_lookup_insert (t := b.records) hr
      · obtain ⟨-, rfl⟩ | ⟨hin, -⟩ := hcase
        · exact ⟨record, hrecord, .inr ⟨mem_cons_self, .inl rfl⟩⟩
        · exact absurd hin hfirst
      · refine ⟨r, hr, ?_⟩
        simpa only [map_cons, mem_cons, hj, false_or] using hcase
    · obtain ⟨hpresenter, hlookup⟩ := ih hrest hrun
      refine ⟨hpresenter.trans (transitionTerminal_presenter _ _ _ _ _ _), fun j r' hr' => ?_⟩
      obtain ⟨r, hr, hcase⟩ := hlookup j r' hr'
      obtain ⟨hj, hr⟩ | ⟨rfl, old, hold, rfl⟩ := lookup_transitionTerminal hr
      · refine ⟨r, hr, ?_⟩
        simpa only [map_cons, mem_cons, hj, false_or] using hcase
      · obtain ⟨-, rfl⟩ | ⟨hin, -⟩ := hcase
        · exact ⟨old, hold, .inr ⟨mem_cons_self, .inr rfl⟩⟩
        · exact absurd hin hfirst

theorem map_snd_liveItem
    (hactive : ∀ j ∈ handles, ∃ r, b.records.lookup j = some r ∧ r.state.isActive = true) :
    (handles.filterMap b.liveItem).map Prod.snd = handles := by
  induction handles with
  | nil => rfl
  | cons handle handles ih =>
    obtain ⟨r, hr, hr'⟩ := hactive handle mem_cons_self
    have hsome : b.liveItem handle = some (r.createdAtMs, handle) := by
      rw [liveItem, hr]
      simp [Option.filter, DialogStateV1.not_terminal_of_active hr']
    rw [filterMap_cons_some hsome, map_cons, ih fun j hj => hactive j (mem_cons_of_mem _ hj)]

theorem liveByAge_perm (hnodup : handles.Nodup)
    (hactive : ∀ j ∈ handles, ∃ r, b.records.lookup j = some r ∧ r.state.isActive = true) :
    ((b.liveByAge handles).map Prod.snd).Perm handles := by
  have hsorted := (sortByKey_perm (toLex : Nat × String → Nat ×ₗ String)
    (handles.filterMap b.liveItem)).map Prod.snd
  rw [map_snd_liveItem hactive] at hsorted
  have hpairs : (sortByKey (toLex : Nat × String → Nat ×ₗ String)
      (handles.filterMap b.liveItem)).Pairwise fun left right => left.2 ≠ right.2 :=
    pairwise_map.mp (hsorted.nodup_iff.mpr hnodup)
  rw [liveByAge, destutter_of_isChain _ _ hpairs.isChain]
  exact hsorted

/-- The listed active records are put back; queued dialogs may make room for them. -/
theorem requeueProtected_spec (hb : b.Keyed) {o : Orders} (hnodup : handles.Nodup)
    (hactive : ∀ j ∈ handles, ∃ r, b.records.lookup j = some r ∧ r.state.isActive = true)
    {nowMs : Nat} (hrun : b.requeueProtected o handles nowMs cause = some b') :
    b'.presenter = b.presenter ∧ ∀ j r', b'.records.lookup j = some r' → ∃ r, b.records.lookup j = some r ∧
      (j ∈ handles ∧ PutBack r r' ∨ j ∉ handles ∧ (r' = r ∨ r.state = .queued ∧
        ∃ state nowMs, state.isTerminal = true ∧ r' = r.ended state none nowMs)) := by
  obtain ⟨⟨b₁, eligible, quarantined⟩, hdetach, hrun⟩ := Option.bind_eq_some_iff.mp hrun
  obtain ⟨_, -, hrun⟩ := Option.bind_eq_some_iff.mp hrun
  obtain ⟨_, hroom, haccept⟩ := Option.bind_eq_some_iff.mp hrun
  have hperm := liveByAge_perm hnodup hactive
  have hnodup' := hperm.nodup_iff.mpr hnodup
  obtain ⟨hpresenter, hparts, hdetached⟩ := detachAll_spec hnodup' hdetach
  obtain ⟨helig, -, hdisjoint⟩ := nodup_append.mp (hparts.nodup_iff.mpr hnodup')
  have hmem : ∀ j, j ∈ handles ↔ j ∈ eligible.map Prod.snd ∨ j ∈ quarantined := fun j => by
    rw [← (hparts.trans hperm).mem_iff, mem_append]
  have hkeyed₁ : b₁.Keyed := by
    intro j r' hr'
    obtain ⟨r, hr, ⟨-, rfl⟩ | ⟨-, rfl⟩⟩ := hdetached j r' hr'
    · exact hb j r hr
    · exact hb j r' hr
  have hquarantine := ends_transitionAll nowMs .quarantine .failed rfl quarantined b₁
  have hmade := ends_makeRoom (hquarantine.keyed hkeyed₁) hroom
  obtain ⟨hpresenter', haccepted⟩ := acceptAll_spec helig haccept
  refine ⟨hpresenter'.trans (hmade.presenter.trans (hquarantine.presenter.trans hpresenter)),
    fun j r' hr' => ?_⟩
  obtain ⟨r₃, hr₃, hlast⟩ := haccepted j r' hr'
  obtain ⟨r₂, hr₂, hsecond⟩ := hmade.records j r₃ hr₃
  obtain ⟨r₁, hr₁, hfirst⟩ := hquarantine.records j r₂ hr₂
  obtain ⟨r, hr, hzero⟩ := hdetached j r₁ hr₁
  rw [hperm.mem_iff] at hzero
  refine ⟨r, hr, ?_⟩
  by_cases hj : j ∈ handles
  · obtain ⟨-, rfl⟩ | ⟨hnot, -⟩ := hzero
    swap
    · exact absurd hj hnot
    obtain ⟨_, hr₀, hact⟩ := hactive j hj
    rw [hr] at hr₀
    cases hr₀
    refine .inl ⟨hj, ?_⟩
    obtain helig' | hquar := (hmem j).mp hj
    · -- an eligible record is active, so neither quarantine nor lack of room ends it
      have hnotq : j ∉ quarantined := fun hq => hdisjoint j helig' j hq rfl
      obtain rfl | ⟨-, hq, -⟩ := hfirst
      swap
      · exact absurd hq hnotq
      obtain rfl | ⟨-, hqueued, -⟩ := hsecond
      swap
      · exact absurd hqueued (DialogStateV1.ne_queued_of_active hact)
      obtain ⟨hnot, -⟩ | ⟨-, rfl | hval⟩ := hlast
      · exact absurd helig' hnot
      · exact .queued _
      have hnotTerminal : (detached r).state.isTerminal = false :=
        DialogStateV1.not_terminal_of_active hact
      rw [hnotTerminal] at hval
      exact hval ▸ .ended _ _ _ rfl
    · -- a quarantined record has ended
      have hnote : j ∉ eligible.map Prod.snd := fun he => hdisjoint j he j hquar rfl
      have hended := transitionAll_terminal nowMs .quarantine .failed rfl b₁ hquar hr₂
      obtain rfl | ⟨-, -, _, _, hstate, rfl⟩ := hfirst
      · exact absurd hended (Bool.eq_false_iff.mp (DialogStateV1.not_terminal_of_active hact))
      obtain rfl | ⟨hlive₂, -⟩ := hsecond
      swap
      · rw [DialogRecord.ended_state, hstate] at hlive₂
        cases hlive₂
      obtain ⟨-, rfl⟩ | ⟨hin, -⟩ := hlast
      · exact .ended _ _ _ hstate
      · exact absurd hin hnote
  · obtain ⟨hin, -⟩ | ⟨-, rfl⟩ := hzero
    · exact absurd hin hj
    have hnote : j ∉ eligible.map Prod.snd := fun he => hj ((hmem j).mpr (.inl he))
    have hnotq : j ∉ quarantined := fun hq => hj ((hmem j).mpr (.inr hq))
    refine .inr ⟨hj, ?_⟩
    obtain rfl | ⟨-, hq, -⟩ := hfirst
    swap
    · exact absurd hq hnotq
    obtain ⟨-, rfl⟩ | ⟨hin, -⟩ := hlast
    swap
    · exact absurd hin hnote
    obtain rfl | ⟨-, hqueued, hend⟩ := hsecond
    · exact .inl rfl
    · exact .inr ⟨hqueued, hend⟩

theorem Keyed.nodup_walk (hb : b.Keyed) (w : Walk DialogRecord) (test : DialogRecord → Bool) :
    (((w.walk b.records.values).filter test).map (·.handle)).Nodup := by
  have hkeys : b.records.values.map (·.handle) = b.records.keys := by
    rw [Table.values, map_map]
    refine map_congr_left fun x hx => ?_
    exact hb x.1 x.2 (Table.mem_entries.mp hx)
  have hall : ((w.walk b.records.values).map (·.handle)).Nodup := by
    rw [((w.perm b.records.values).map _).nodup_iff, hkeys]
    exact b.records.keys_nodup
  exact hall.sublist (filter_sublist.map _)

end

end DialogBroker

end Cosmix.Interaction
