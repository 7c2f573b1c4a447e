/- source: cosmix-lib-props-core/src/revwrite.rs
   digest: Revisioned writes, the coalesced change stream, and its observers. -/

import Cosmix.Lib.Maps
import Cosmix.Props.Value
import Mathlib.Data.List.Induction

namespace Cosmix.Props

open Cosmix.Lib.Maps List

def u64Max : Nat := 18446744073709551615

/-- A revisioned write against one path; `ifRevision` gates it on the path's current revision. -/
structure RevWriteRequest where
  path : PropPath
  value : PropValue
  opId : String
  ifRevision : Option Nat

structure RevWriteAck where
  revision : Nat
  path : PropPath
  canonicalValue : PropValue
  (sourceId opId : String)

structure RevWriteReject where
  path : PropPath
  opId : String
  currentRevision : Nat
  currentValue : PropValue
  reason : String

inductive RevWriteResponse
  | accepted (ack : RevWriteAck)
  | rejected (reject : RevWriteReject)

/-- The state of a path since the last drain. -/
structure ChangedProp where
  path : PropPath
  revision : Nat
  canonicalValue : PropValue
  (sourceId opId : String)

structure RevEntry where
  value : PropValue
  revision : Nat
  (sourceId opId : String)

abbrev RevEntries := Std.ExtTreeMap PropPath RevEntry compare

structure RevWriteStore where
  revision : Nat
  entries : RevEntries
  /-- Paths changed since the last drain. -/
  dirty : Std.ExtTreeMap PropPath Unit compare

def RevEntry.changed (e : RevEntry) (path : PropPath) : ChangedProp :=
  ⟨path, e.revision, e.value, e.sourceId, e.opId⟩

namespace RevWriteStore

protected def new : RevWriteStore := ⟨0, ∅, ∅⟩

variable (s : RevWriteStore)

/-- Zero when the path was never written or seeded. -/
def pathRevision (path : PropPath) : Nat :=
  ((s.entries[path]?).map RevEntry.revision).getD 0

/-- An initial value at revision zero; a path that exists stays as it is. -/
def seed (path : PropPath) (value : PropValue) (sourceId : String) : RevWriteStore :=
  { s with entries := s.entries.insertIfNew path ⟨value, 0, sourceId, ""⟩ }

/-- One write; `none` is the panic of the overflowing counter. -/
def apply (req : RevWriteRequest) (sourceId : String) : Option (RevWriteStore × RevWriteResponse) :=
  let curRev := s.pathRevision req.path
  match req.ifRevision with
  | some expected =>
    if expected ≠ curRev then
      some (s, .rejected {
        path := req.path
        opId := req.opId
        currentRevision := curRev
        currentValue := ((s.entries[req.path]?).map RevEntry.value).getD .null
        reason := s!"if_revision {expected} does not match current revision {curRev}" })
    else accept s req sourceId
  | none => accept s req sourceId
where
  /-- The write is accepted at the next revision. -/
  accept (s : RevWriteStore) (req : RevWriteRequest) (sourceId : String) :
      Option (RevWriteStore × RevWriteResponse) :=
    if s.revision ≥ u64Max then none
    else
      let rev := s.revision + 1
      some (⟨rev, s.entries.insert req.path ⟨req.value, rev, sourceId, req.opId⟩,
          s.dirty.insert req.path ()⟩,
        .accepted ⟨rev, req.path, req.value, sourceId, req.opId⟩)

/-- The state of every path written since the last drain, in path order. -/
def drainChanged : RevWriteStore × List ChangedProp :=
  ({ s with dirty := ∅ },
    s.dirty.keys.filterMap fun p => (s.entries[p]?).map fun e => e.changed p)

end RevWriteStore

/-- An observer's newest change for each path. -/
abbrev ChangeCache := Std.ExtTreeMap PropPath ChangedProp compare

/-- A change is taken only when it is newer than the cached one. -/
def acceptIfNewer (cache : ChangeCache) (incoming : ChangedProp) : ChangeCache × Bool :=
  match cache[incoming.path]? with
  | some existing =>
    if existing.revision ≥ incoming.revision then (cache, false)
    else (cache.insert incoming.path incoming, true)
  | none => (cache.insert incoming.path incoming, true)

inductive RevCall
  | seed (path : PropPath) (value : PropValue) (sourceId : String)
  | apply (req : RevWriteRequest) (sourceId : String)
  | drain

def RevCall.isApply : RevCall → Bool
  | .apply _ _ => true
  | _ => false

inductive RevOutcome
  | seeded
  | accepted (ack : RevWriteAck)
  | rejected (reject : RevWriteReject)
  | drained (changes : List ChangedProp)

namespace RevWriteStore

def step (s : RevWriteStore) : RevCall → Option (RevWriteStore × RevOutcome)
  | .seed path value sourceId => some (s.seed path value sourceId, .seeded)
  | .apply req sourceId =>
    match s.apply req sourceId with
    | some (s', .accepted ack) => some (s', .accepted ack)
    | some (s', .rejected reject) => some (s', .rejected reject)
    | none => none
  | .drain => some (s.drainChanged.1, .drained s.drainChanged.2)

def run (s : RevWriteStore) : List RevCall → Option (RevWriteStore × List RevOutcome)
  | [] => some (s, [])
  | c :: cs => do
    let (s', out) ← s.step c
    let (s'', outs) ← s'.run cs
    some (s'', out :: outs)

end RevWriteStore

def acks (outs : List RevOutcome) : List RevWriteAck :=
  outs.filterMap fun o => match o with
    | .accepted ack => some ack
    | _ => none

def drained (outs : List RevOutcome) : List ChangedProp :=
  outs.flatMap fun o => match o with
    | .drained changes => changes
    | _ => []

/-- The last drain comes after the last accepted write. -/
def FullyDrained (outs : List RevOutcome) : Prop :=
  ∀ before ack after, outs = before ++ .accepted ack :: after → ∃ changes, .drained changes ∈ after

def RevWriteAck.changed (a : RevWriteAck) : ChangedProp :=
  ⟨a.path, a.revision, a.canonicalValue, a.sourceId, a.opId⟩

theorem acceptIfNewer_get (cache : ChangeCache) (c : ChangedProp) (p : PropPath) :
    (acceptIfNewer cache c).1[p]? =
      if p = c.path ∧ ∀ d, cache[p]? = some d → d.revision < c.revision then some c
      else cache[p]? := by
  unfold acceptIfNewer
  by_cases hp : p = c.path
  · subst hp
    cases hget : cache[c.path]? with
    | none => simp
    | some d => by_cases hge : d.revision ≥ c.revision <;> simp [hge, hget]
  · have hother : (cache.insert c.path c)[p]? = cache[p]? := by rw [getElem?_insert_eq, if_neg hp]
    rw [if_neg fun h => hp h.1]
    split
    · split
      · rfl
      · exact hother
    · exact hother

/-- What an observer holds after a list of deliveries. -/
def observe (deliveries : List ChangedProp) : ChangeCache :=
  deliveries.foldl (fun cache c => (acceptIfNewer cache c).1) ∅

/-- The cache holds a newest delivery of each delivered path and nothing else. -/
structure Newest (deliveries : List ChangedProp) (cache : ChangeCache) : Prop where
  held : ∀ p c, cache[p]? = some c → c ∈ deliveries ∧ c.path = p ∧
    ∀ d ∈ deliveries, d.path = p → d.revision ≤ c.revision
  covers : ∀ d ∈ deliveries, ∃ c, cache[d.path]? = some c

theorem Newest.accept {deliveries : List ChangedProp} {cache : ChangeCache}
    (h : Newest deliveries cache) (c : ChangedProp) :
    Newest (deliveries ++ [c]) (acceptIfNewer cache c).1 := by
  constructor
  · intro p x hx
    rw [acceptIfNewer_get] at hx
    split at hx
    · next hnew =>
      obtain ⟨rfl, hnew⟩ := hnew
      cases hx
      refine ⟨by simp, rfl, forall_mem_append.mpr ⟨?_, forall_mem_singleton.mpr fun _ => le_rfl⟩⟩
      intro d hd hpath
      obtain ⟨y, hy⟩ := h.covers d hd
      rw [hpath] at hy
      exact le_of_lt (((h.held _ y hy).2.2 d hd hpath).trans_lt (hnew y hy))
    · next hold =>
      obtain ⟨hmem, hpath, hmax⟩ := h.held p x hx
      refine ⟨mem_append_left _ hmem, hpath,
        forall_mem_append.mpr ⟨hmax, forall_mem_singleton.mpr fun hd' => ?_⟩⟩
      by_contra hlt
      refine hold ⟨hd'.symm, ?_⟩
      intro y hy
      rw [hx] at hy
      cases hy
      exact Nat.lt_of_not_le hlt
  · intro d hd
    rw [acceptIfNewer_get]
    split
    · exact ⟨c, rfl⟩
    next hold =>
    rcases mem_append.mp hd with hd | hd
    · exact h.covers d hd
    rw [mem_singleton.mp hd] at hold ⊢
    cases hget : cache[c.path]? with
    | some y => exact ⟨y, rfl⟩
    | none => exact absurd ⟨rfl, fun y hy => by rw [hget] at hy; cases hy⟩ hold

theorem newest_observe (deliveries : List ChangedProp) : Newest deliveries (observe deliveries) := by
  induction deliveries using List.reverseRecOn with
  | nil =>
    constructor
    · intro p c hc
      simp [observe] at hc
    · intro d hd
      cases hd
  | append_singleton ds c ih =>
    have := ih.accept c
    rw [observe, foldl_append]
    exact this

theorem acks_append (xs ys : List RevOutcome) : acks (xs ++ ys) = acks xs ++ acks ys :=
  filterMap_append

theorem drained_append (xs ys : List RevOutcome) : drained (xs ++ ys) = drained xs ++ drained ys :=
  flatMap_append

/-- Revisions are counted, each path holds its newest accepted write or a seed, and every newest
write was or will be drained. -/
structure Ledger (s : RevWriteStore) (outs : List RevOutcome) : Prop where
  counted : (acks outs).map RevWriteAck.revision = List.range' 1 s.revision
  entry : ∀ p e, s.entries[p]? = some e →
    (e.revision = 0 ∧ ∀ a ∈ acks outs, a.path ≠ p) ∨
      ∃ a ∈ acks outs, a.path = p ∧ e.changed p = a.changed ∧
        ∀ b ∈ acks outs, b.path = p → b.revision ≤ e.revision
  written : ∀ a ∈ acks outs, ∃ e, s.entries[a.path]? = some e
  pending : ∀ p ∈ s.dirty, ∃ before a after, outs = before ++ .accepted a :: after ∧ a.path = p ∧
    ∀ c, .drained c ∉ after
  published : ∀ p e, s.entries[p]? = some e → (∃ a ∈ acks outs, a.path = p) →
    p ∈ s.dirty ∨ e.changed p ∈ drained outs
  sound : ∀ c ∈ drained outs, ∃ a ∈ acks outs, c = a.changed

namespace Ledger

variable {s : RevWriteStore} {outs : List RevOutcome}

theorem new : Ledger RevWriteStore.new [] := by
  refine ⟨rfl, ?_, nofun, ?_, ?_, nofun⟩ <;> simp [RevWriteStore.new]

variable (h : Ledger s outs)
include h

theorem revision_le {a : RevWriteAck} (ha : a ∈ acks outs) :
    1 ≤ a.revision ∧ a.revision ≤ s.revision := by
  have hmem : a.revision ∈ List.range' 1 s.revision := by
    rw [← h.counted]
    exact mem_map_of_mem ha
  rw [mem_range'_1] at hmem
  omega

theorem ack_inj {a b : RevWriteAck} (ha : a ∈ acks outs) (hb : b ∈ acks outs)
    (hrev : a.revision = b.revision) : a = b := by
  have hnodup : ((acks outs).map RevWriteAck.revision).Nodup := by
    rw [h.counted]
    exact nodup_range'
  exact inj_on_of_nodup_map hnodup ha hb hrev

theorem unwritten {p : PropPath} (hp : s.entries[p]? = none) : ∀ a ∈ acks outs, a.path ≠ p := by
  rintro a ha rfl
  obtain ⟨e, he⟩ := h.written a ha
  cases hp.symm.trans he

theorem pending_append {o : RevOutcome} (hno : ∀ c, RevOutcome.drained c ≠ o) {p : PropPath}
    (hp : p ∈ s.dirty) : ∃ before a after, outs ++ [o] = before ++ .accepted a :: after ∧ a.path = p ∧
      ∀ c, .drained c ∉ after := by
  obtain ⟨before, a, after, rfl, hpath, hafter⟩ := h.pending p hp
  refine ⟨before, a, after ++ [o], append_assoc .., hpath, fun c hc => ?_⟩
  exact (mem_append.mp hc).elim (hafter c) fun heq => hno c (mem_singleton.mp heq)

theorem quiet {o : RevOutcome} (hack : acks [o] = []) (hdrain : drained [o] = [])
    (hno : ∀ c, RevOutcome.drained c ≠ o) : Ledger s (outs ++ [o]) := by
  have hacks : acks (outs ++ [o]) = acks outs := by rw [acks_append, hack, append_nil]
  have hdrained : drained (outs ++ [o]) = drained outs := by
    rw [drained_append, hdrain, append_nil]
  refine ⟨?_, ?_, ?_, fun p => h.pending_append hno, ?_, ?_⟩ <;> simp only [hacks, hdrained]
  exacts [h.counted, h.entry, h.written, h.published, h.sound]

theorem seed (p : PropPath) (v : PropValue) (src : String) : Ledger (s.seed p v src) outs := by
  have hget : ∀ q, (s.seed p v src).entries[q]? =
      if p = q ∧ p ∉ s.entries then some ⟨v, 0, src, ""⟩ else s.entries[q]? := by
    intro q
    simp only [RevWriteStore.seed, Std.ExtTreeMap.getElem?_insertIfNew,
      Std.LawfulEqCmp.compare_eq_iff_eq]
  have hnew : ∀ {q}, p = q ∧ p ∉ s.entries → s.entries[q]? = none := by
    rintro q ⟨rfl, hnot⟩
    exact Std.ExtTreeMap.getElem?_eq_none hnot
  refine ⟨h.counted, fun q e he => ?_, fun a ha => ?_, h.pending, fun q e he hwritten => ?_, h.sound⟩
  · rw [hget] at he
    split at he
    · next hseed =>
      cases he
      exact .inl ⟨rfl, h.unwritten (hnew hseed)⟩
    · exact h.entry q e he
  · rw [hget, if_neg fun hseed => h.unwritten (hnew hseed) a ha rfl]
    exact h.written a ha
  · rw [hget] at he
    split at he
    · next hseed =>
      obtain ⟨a, ha, hpath⟩ := hwritten
      exact absurd hpath (h.unwritten (hnew hseed) a ha)
    · exact h.published q e he hwritten

theorem accept {req : RevWriteRequest} {src : String} {s' : RevWriteStore} {ack : RevWriteAck}
    (hap : RevWriteStore.apply.accept s req src = some (s', .accepted ack)) :
    Ledger s' (outs ++ [.accepted ack]) := by
  have hacks : acks (outs ++ [.accepted ack]) = acks outs ++ [ack] := acks_append _ _
  have hdrained : drained (outs ++ [.accepted ack]) = drained outs := by
    rw [drained_append]
    exact append_nil _
  unfold RevWriteStore.apply.accept at hap
  split at hap
  · cases hap
  cases hap
  constructor
  · rw [hacks, map_append, h.counted, range'_1_concat, add_comm 1]
    rfl
  · intro p e he
    rw [getElem?_insert_eq] at he
    rw [hacks]
    split at he
    · next heq =>
      cases he
      refine .inr ⟨_, mem_append_right _ mem_cons_self, heq.symm, by rw [heq]; rfl,
        forall_mem_append.mpr ⟨fun b hb _ => ?_, forall_mem_singleton.mpr fun _ => le_rfl⟩⟩
      exact (h.revision_le hb).2.trans (Nat.le_succ _)
    · next hne =>
      rcases h.entry p e he with ⟨hzero, hnone⟩ | ⟨a, ha, hpath, hchanged, hmax⟩
      · exact .inl ⟨hzero, forall_mem_append.mpr ⟨hnone, forall_mem_singleton.mpr (Ne.symm hne)⟩⟩
      · exact .inr ⟨a, mem_append_left _ ha, hpath, hchanged, forall_mem_append.mpr
          ⟨hmax, forall_mem_singleton.mpr fun heq => absurd heq.symm hne⟩⟩
  · rw [hacks]
    refine forall_mem_append.mpr
      ⟨fun a ha => ?_, forall_mem_singleton.mpr ⟨_, Std.ExtTreeMap.getElem?_insert_self⟩⟩
    rw [getElem?_insert_eq]
    split
    · exact ⟨_, rfl⟩
    · exact h.written a ha
  · intro p hp
    rw [Std.ExtTreeMap.mem_insert, Std.LawfulEqCmp.compare_eq_iff_eq] at hp
    rcases hp with heq | hp
    · exact ⟨outs, _, [], rfl, heq, nofun⟩
    exact h.pending_append (fun c => by simp) hp
  · intro p e he hwritten
    rw [getElem?_insert_eq] at he
    rw [hdrained, Std.ExtTreeMap.mem_insert, Std.LawfulEqCmp.compare_eq_iff_eq]
    split at he
    · next heq => exact .inl (.inl heq.symm)
    next hne =>
    have hwritten' : ∃ a ∈ acks outs, a.path = p := by
      obtain ⟨a, ha, hpath⟩ := hwritten
      rw [hacks] at ha
      rcases mem_append.mp ha with ha | ha
      · exact ⟨a, ha, hpath⟩
      · rw [mem_singleton.mp ha] at hpath
        exact absurd hpath.symm hne
    rcases h.published p e he hwritten' with hd | hd
    · exact .inl (.inr hd)
    · exact .inr hd
  · intro c hc
    rw [hdrained] at hc
    obtain ⟨a, ha, rfl⟩ := h.sound c hc
    rw [hacks]
    exact ⟨a, mem_append_left _ ha, rfl⟩

theorem drain : Ledger s.drainChanged.1 (outs ++ [.drained s.drainChanged.2]) := by
  have hacks : acks (outs ++ [.drained s.drainChanged.2]) = acks outs := by
    rw [acks_append]
    exact append_nil _
  have hdrained : drained (outs ++ [.drained s.drainChanged.2]) =
      drained outs ++ s.drainChanged.2 := by
    rw [drained_append]
    exact congrArg _ (append_nil _)
  have hmem : ∀ c, c ∈ s.drainChanged.2 ↔ ∃ p ∈ s.dirty, ∃ e, s.entries[p]? = some e ∧ e.changed p = c := by
    intro c
    simp only [RevWriteStore.drainChanged, mem_filterMap, Std.ExtTreeMap.mem_keys,
      Option.map_eq_some_iff]
  constructor
  · rw [hacks]
    exact h.counted
  · rw [hacks]
    exact h.entry
  · rw [hacks]
    exact h.written
  · intro p hp
    exact absurd hp Std.ExtTreeMap.not_mem_empty
  · intro p e he hwritten
    rw [hacks] at hwritten
    rw [hdrained]
    rcases h.published p e he hwritten with hd | hd
    · exact .inr (mem_append_right _ ((hmem _).mpr ⟨p, hd, e, he, rfl⟩))
    · exact .inr (mem_append_left _ hd)
  · intro c hc
    rw [hdrained] at hc
    rw [hacks]
    rcases mem_append.mp hc with hc | hc
    · exact h.sound c hc
    obtain ⟨p, hp, e, he, rfl⟩ := (hmem c).mp hc
    -- a dirty path was written, so its entry is no seed
    obtain ⟨_, a, _, hout, hpath, -⟩ := h.pending p hp
    have ha : a ∈ acks outs := by
      rw [hout, acks_append]
      exact mem_append_right _ mem_cons_self
    rcases h.entry p e he with ⟨-, hnone⟩ | ⟨b, hb, -, hchanged, -⟩
    · exact absurd hpath (hnone a ha)
    · exact ⟨b, hb, hchanged⟩

omit h

end Ledger

namespace RevWriteStore

/-- A write is accepted, or it is rejected and changes nothing; only the overflowing counter stops it. -/
theorem apply_cases (s : RevWriteStore) (req : RevWriteRequest) (src : String) :
    (∃ r, s.apply req src = some (s, .rejected r)) ∨ s.apply req src = apply.accept s req src ∧
        (s.revision ≥ u64Max ∧ apply.accept s req src = none ∨
          ∃ s' ack, apply.accept s req src = some (s', .accepted ack) ∧
            s'.revision = s.revision + 1) := by
  have haccept : s.revision ≥ u64Max ∧ apply.accept s req src = none ∨ ∃ s' ack,
      apply.accept s req src = some (s', .accepted ack) ∧ s'.revision = s.revision + 1 := by
    unfold apply.accept
    split
    · next h => exact .inl ⟨h, rfl⟩
    · exact .inr ⟨_, _, rfl, rfl⟩
  unfold apply
  dsimp only
  split
  · split
    · exact .inl ⟨_, rfl⟩
    · exact .inr ⟨rfl, haccept⟩
  · exact .inr ⟨rfl, haccept⟩

end RevWriteStore

variable {s : RevWriteStore} {outs : List RevOutcome}

theorem Ledger.step {s' : RevWriteStore} (h : Ledger s outs) {c : RevCall}
    {o : RevOutcome} (hstep : s.step c = some (s', o)) : Ledger s' (outs ++ [o]) := by
  cases c with
  | seed p v src =>
    cases hstep
    exact (h.seed p v src).quiet rfl rfl nofun
  | drain =>
    cases hstep
    exact h.drain
  | apply req src =>
    simp only [RevWriteStore.step] at hstep
    rcases RevWriteStore.apply_cases s req src with
      ⟨r, hap⟩ | ⟨hap, ⟨-, hnone⟩ | ⟨s₁, ack, hacc, -⟩⟩
    · rw [hap] at hstep
      cases hstep
      exact h.quiet rfl rfl nofun
    · rw [hap, hnone] at hstep
      cases hstep
    · rw [hap, hacc] at hstep
      cases hstep
      exact h.accept hacc

theorem Ledger.run {s' : RevWriteStore} {outs' : List RevOutcome} (h : Ledger s outs)
    {calls : List RevCall} (hrun : s.run calls = some (s', outs')) : Ledger s' (outs ++ outs') := by
  induction calls generalizing s outs outs' with
  | nil =>
    cases hrun
    rw [append_nil]
    exact h
  | cons c calls ih =>
    obtain ⟨⟨s₁, o⟩, hstep, hrun⟩ := Option.bind_eq_some_iff.mp hrun
    obtain ⟨⟨s₂, os⟩, hrest, hrun⟩ := Option.bind_eq_some_iff.mp hrun
    cases hrun
    have := ih (h.step hstep) hrest
    rwa [append_assoc] at this

theorem RevWriteStore.run_none {calls : List RevCall}
    (h : s.run calls = none) : u64Max < s.revision + calls.countP RevCall.isApply := by
  induction calls generalizing s with
  | nil => cases h
  | cons c calls ih =>
    have hnext : ∀ s' o, s.step c = some (s', o) → s'.run calls = none := by
      intro s' o hstep
      cases hrest : s'.run calls with
      | none => rfl
      | some =>
        rw [RevWriteStore.run, hstep] at h
        simp [hrest] at h
    cases c with
    | seed | drain =>
      have := ih (hnext _ _ rfl)
      rw [countP_cons]
      exact lt_of_lt_of_le this (Nat.add_le_add_left (Nat.le_add_right _ _) _)
    | apply req src =>
      rw [countP_cons_of_pos rfl]
      rcases RevWriteStore.apply_cases s req src with
        ⟨r, hap⟩ | ⟨hap, ⟨hfull, -⟩ | ⟨s', ack, hacc, hrev⟩⟩
      · have := ih (hnext s (.rejected r) (by rw [RevWriteStore.step, hap]))
        omega
      · omega
      · have := ih (hnext s' (.accepted ack) (by rw [RevWriteStore.step, hap, hacc]))
        omega

theorem Ledger.clean (h : Ledger s outs)
    (hfull : FullyDrained outs) (p : PropPath) : p ∉ s.dirty := by
  intro hp
  obtain ⟨before, a, after, hout, -, hafter⟩ := h.pending p hp
  obtain ⟨c, hc⟩ := hfull before a after hout
  exact hafter c hc

/-- Accepted revisions count from one; an observer of all drains, in any order and with repeats,
ends with the store's state; a rejected write changes nothing. -/
theorem revisioned_writes_converge (calls : List RevCall) :
    (RevWriteStore.new.run calls = none → u64Max < calls.countP RevCall.isApply) ∧
      (∀ s outs, RevWriteStore.new.run calls = some (s, outs) →
        (acks outs).map RevWriteAck.revision = List.range' 1 (acks outs).length ∧
        ∀ deliveries, FullyDrained outs → (∀ c, c ∈ deliveries ↔ c ∈ drained outs) → ∀ p,
          (p ∈ (acks outs).map RevWriteAck.path →
            ∃ e, s.entries[p]? = some e ∧ (observe deliveries)[p]? = some (e.changed p)) ∧
          (p ∉ (acks outs).map RevWriteAck.path → (observe deliveries)[p]? = none)) ∧
      ∀ (s s' : RevWriteStore) (req : RevWriteRequest) (src : String) (r : RevWriteReject),
        s.apply req src = some (s', .rejected r) → s' = s := by
  refine ⟨?_, ?_, ?_⟩
  · intro h
    have := RevWriteStore.run_none h
    rwa [show RevWriteStore.new.revision = 0 from rfl, zero_add] at this
  · intro s outs hrun
    have h : Ledger s outs := Ledger.new.run hrun
    have hlen : (acks outs).length = s.revision := by
      have := congrArg List.length h.counted
      rwa [length_map, length_range'] at this
    refine ⟨by rw [h.counted, hlen], ?_⟩
    intro deliveries hfull hall p
    have hnew := newest_observe deliveries
    constructor
    · intro hp
      obtain ⟨a, ha, rfl⟩ := mem_map.mp hp
      obtain ⟨e, he⟩ := h.written a ha
      refine ⟨e, he, ?_⟩
      -- the path's newest write was drained, so it was delivered
      have hdrained := (h.published a.path e he ⟨a, ha, rfl⟩).resolve_left (h.clean hfull a.path)
      obtain ⟨c, hc⟩ := hnew.covers _ ((hall _).mpr hdrained)
      obtain ⟨hmem, hpath, hmax⟩ := hnew.held _ c hc
      obtain ⟨b, hb, rfl⟩ := h.sound c ((hall c).mp hmem)
      have hle : e.revision ≤ b.revision := hmax _ ((hall _).mpr hdrained) rfl
      rcases h.entry a.path e he with ⟨-, hnone⟩ | ⟨d, hd, hdpath, hchanged, hbound⟩
      · exact absurd rfl (hnone a ha)
      have hge : b.revision ≤ e.revision := hbound b hb hpath
      have hrev : e.revision = d.revision := congrArg ChangedProp.revision hchanged
      rw [show b = d from h.ack_inj hb hd (by omega), ← hchanged] at hc
      exact hc
    · intro hp
      cases hget : (observe deliveries)[p]? with
      | none => rfl
      | some c =>
        obtain ⟨hmem, hpath, -⟩ := hnew.held p c hget
        obtain ⟨a, ha, rfl⟩ := h.sound c ((hall c).mp hmem)
        exact absurd (mem_map.mpr ⟨a, ha, hpath⟩) hp
  · intro s s' req src r hap
    rcases RevWriteStore.apply_cases s req src with
      ⟨r', hrej⟩ | ⟨hacc, ⟨-, hnone⟩ | ⟨s₁, ack, hok, -⟩⟩
    · rw [hrej] at hap
      cases hap
      rfl
    · rw [hacc, hnone] at hap
      cases hap
    · rw [hacc, hok] at hap
      cases hap

/-- One write and one drain: the observer holds what the store holds. -/
theorem revisioned_writes_converge_one :
    ∃ (s : RevWriteStore) (outs : List RevOutcome) (p : PropPath) (e : RevEntry),
    RevWriteStore.new.run [.apply ⟨⟨"a", by decide⟩, .bool true, "op", none⟩ "src", .drain] =
      some (s, outs) ∧ FullyDrained outs ∧ s.entries[p]? = some e ∧
      (observe (drained outs))[p]? = some (e.changed p) := by
  obtain ⟨s, ack, c, hrun⟩ : ∃ (s : RevWriteStore) (ack : RevWriteAck) (c : List ChangedProp),
      RevWriteStore.new.run [.apply ⟨⟨"a", by decide⟩, .bool true, "op", none⟩ "src", .drain] =
        some (s, [.accepted ack, .drained c]) := ⟨_, _, _, rfl⟩
  have hfull : FullyDrained [.accepted ack, .drained c] := by
    intro before a after h
    cases before with
    | nil =>
      cases h
      exact ⟨c, mem_singleton_self _⟩
    | cons o before =>
      cases before with
      | nil => cases h
      | cons =>
        simp at h
  obtain ⟨e, he, hobs⟩ := (((revisioned_writes_converge _).2.1 _ _ hrun).2 (drained _) hfull
    (fun _ => Iff.rfl) ack.path).1 mem_cons_self
  exact ⟨s, _, ack.path, e, hrun, hfull, he, hobs⟩

end Cosmix.Props
