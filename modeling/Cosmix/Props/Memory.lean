/- source: cosmix-lib-props-store/src/memory.rs
   digest: The in-process store: rows, event log and counters agree in every run. -/

import Cosmix.Lib.Maps
import Cosmix.Props.Record

namespace Cosmix.Props

open List

structure NamespaceState where
  records : Std.ExtTreeMap String Record compare
  events : List RecordEvent
  (nseq auditEpoch : Nat)

protected def NamespaceState.new : NamespaceState := ⟨∅, [], 0, 0⟩

structure MemoryStore where
  service : String
  /-- The keyed digest of a value and a sequence number, under the key drawn for the namespace. -/
  computeDigest : NamespaceName → PropValue → Nat → String
  namespaces : NamespaceName → Option NamespaceState

namespace MemoryStore

protected def new (service : String) (computeDigest : NamespaceName → PropValue → Nat → String) :
    MemoryStore := ⟨service, computeDigest, fun _ => none⟩

variable (s : MemoryStore) (ns : NamespaceName)

/-- The state of a namespace; one never written to is as a new one. -/
def state : NamespaceState :=
  (s.namespaces ns).getD .new

def put (st : NamespaceState) : MemoryStore :=
  { s with namespaces := Function.update s.namespaces ns (some st) }

@[simp] theorem state_put_self (st : NamespaceState) : (s.put ns st).state ns = st := by
  simp [state, put]

theorem state_put_of_ne {ns ns' : NamespaceName} (h : ns' ≠ ns)
    (st : NamespaceState) : (s.put ns st).state ns' = s.state ns' := by
  simp [state, put, h]

theorem state_put_state (ns ns' : NamespaceName) :
    (s.put ns (s.state ns)).state ns' = s.state ns' := by
  by_cases h : ns' = ns
  · rw [h, state_put_self]
  · exact s.state_put_of_ne h _

def get (key : RecordKey) : Except StoreError (Snapshot Record) :=
  match s.namespaces key.ns with
  | none => .error .notFound
  | some st =>
    match st.records[key.key]? with
    | none => .error .notFound
    | some record => .ok ⟨record, st.nseq⟩

def list : Snapshot (List Record) :=
  match s.namespaces ns with
  | none => ⟨[], 0⟩
  | some st => ⟨st.records.values, st.nseq⟩

def eventsSince (sinceNseq : Nat) : List RecordEvent :=
  match s.namespaces ns with
  | none => []
  | some st => st.events.filter fun e => sinceNseq < e.nseq

def auditEpoch (s : MemoryStore) (ns : NamespaceName) : Nat :=
  ((s.namespaces ns).map NamespaceState.auditEpoch).getD 0

def versionAnchor (key : RecordKey) : Option Nat :=
  (s.namespaces key.ns).bind fun st => st.records[key.key]?.map Record.version

/-- The substrate's own field stands at the top of a value. -/
def reserved : PropValue → Bool
  | .object m => Fields.containsKey m lifecycleField
  | _ => false

/-- The version of a row; no row has version zero. -/
def prevVersion (existing : Option Record) : Nat := (existing.map Record.version).getD 0

/-- A version other than the one expected. -/
def versionRefused (expected : Option Nat) (current : Nat) : Option StoreError :=
  match expected with
  | none => none
  | some e => if e ≠ current then some (.versionMismatch e current) else none

def finalValue (merge : MergeMode) (existing : Option Record) (newValue : PropValue) : PropValue :=
  match merge, existing with
  | .replace, _ => newValue
  | .patch, none => newValue
  | .patch, some r => mergePatch r.value newValue

variable (st : NamespaceState) (op : SetCommit)

def setRefused : Option StoreError :=
  if reserved op.newValue then
    some (.validation ("field \"" ++ lifecycleField ++ "\" is substrate-reserved (§6.5)"))
  else versionRefused op.expectedVersion (prevVersion st.records[op.key.key]?)

def setRecord : Record where
  key := op.key
  value := finalValue op.merge st.records[op.key.key]? op.newValue
  version := prevVersion st.records[op.key.key]? + 1
  nseq := st.nseq + 1
  lifecycle := op.lifecycle

def setEvent : RecordEvent :=
  let existing := st.records[op.key.key]?
  let record := setRecord st op
  let kind := if existing.isSome then EventKind.updated else EventKind.created
  { nseq := record.nseq
    version := record.version
    auditEpoch := st.auditEpoch
    kind := kind
    verb := kind.verbFor s.service
    key := op.key
    lifecycle := op.lifecycle
    actor := op.actor
    fieldsChanged := changedTopLevelFields (existing.map Record.value) record.value
    secretFieldsChangedCount := 0
    atMs := tsToDt op.tsMs
    cause := op.cause
    auditDigest := s.computeDigest op.key.ns record.value record.nseq }

def commitSet : Except StoreError (Record × RecordEvent) × MemoryStore :=
  if !op.key.isWholeRecord then
    (.error (.validation "commit_set requires record-root key (empty field_path)"), s)
  else
    -- the namespace comes into being before anything is refused
    let st := s.state op.key.ns
    match setRefused st op with
    | some e => (.error e, s.put op.key.ns st)
    | none =>
      let record := setRecord st op
      let event := s.setEvent st op
      (.ok (record, event), s.put op.key.ns
        { st with
          records := st.records.insert op.key.key record
          events := st.events ++ [event]
          nseq := record.nseq })

/-- What stands for a deleted value in a digest. -/
def tombstoneValue : PropValue := .null

def deleteEvent (existing : Record) (op : DeleteCommit) : RecordEvent where
  nseq := st.nseq + 1
  version := existing.version + 1
  auditEpoch := st.auditEpoch
  kind := .deleted
  verb := EventKind.deleted.verbFor s.service
  key := op.key
  lifecycle := none
  actor := op.actor
  fieldsChanged := []
  secretFieldsChangedCount := 0
  atMs := tsToDt op.tsMs
  cause := op.cause
  auditDigest := s.computeDigest op.key.ns tombstoneValue (st.nseq + 1)

def commitDelete (op : DeleteCommit) : Except StoreError RecordEvent × MemoryStore :=
  if !op.key.isWholeRecord then
    (.error (.validation "commit_delete requires record-root key (empty field_path)"), s)
  else
    match s.namespaces op.key.ns with
    | none => (.error .notFound, s)
    | some st =>
      match st.records[op.key.key]? with
      | none => (.error .notFound, s)
      | some existing =>
        match versionRefused op.expectedVersion existing.version with
        | some e => (.error e, s)
        | none =>
          let event := s.deleteEvent st existing op
          (.ok event, s.put op.key.ns
            { st with
              records := st.records.erase op.key.key
              events := st.events ++ [event]
              nseq := event.nseq })

variable (record : Record)

/-- What a completion is refused for, the version first. -/
def completeRefused (op : CompleteCommit) : Option StoreError :=
  if record.version ≠ op.expectedVersion then
    some (.versionMismatch op.expectedVersion record.version)
  else if record.lifecycle ≠ some .provisioning then
    some (.validation "commit_complete requires record.lifecycle = Provisioning")
  else if op.lifecycle = .provisioning then
    some (.validation "commit_complete target lifecycle MUST be Active or Failed")
  else none

def completeRecord (op : CompleteCommit) : Record :=
  { record with
    lifecycle := some op.lifecycle
    version := record.version + 1
    nseq := st.nseq + 1 }

def completeEvent (op : CompleteCommit) : RecordEvent where
  nseq := st.nseq + 1
  version := record.version + 1
  auditEpoch := st.auditEpoch
  kind := .completed
  verb := EventKind.completed.verbFor s.service
  key := op.key
  lifecycle := some op.lifecycle
  actor := op.actor
  fieldsChanged := [lifecycleField]
  secretFieldsChangedCount := 0
  atMs := tsToDt op.tsMs
  cause := op.cause
  auditDigest := s.computeDigest op.key.ns record.value (st.nseq + 1)

def commitComplete (op : CompleteCommit) : Except StoreError (Record × RecordEvent) × MemoryStore :=
  match s.namespaces op.key.ns with
  | none => (.error .notFound, s)
  | some st =>
    match st.records[op.key.key]? with
    | none => (.error .notFound, s)
    | some record =>
      match completeRefused record op with
      | some e => (.error e, s)
      | none =>
        let event := s.completeEvent st record op
        let record := completeRecord st record op
        (.ok (record, event), s.put op.key.ns
          { st with
            records := st.records.insert op.key.key record
            events := st.events ++ [event]
            nseq := record.nseq })

/-- The row a reconciliation writes: the lifecycle of the one before stays. -/
def reconcileRecord (op : ReconcileCommit) : Record where
  key := op.key
  value := op.newValue
  version := prevVersion st.records[op.key.key]? + 1
  nseq := st.nseq + 1
  lifecycle := st.records[op.key.key]?.bind Record.lifecycle

def reconcileEvent (op : ReconcileCommit) : RecordEvent :=
  let record := reconcileRecord st op
  { nseq := record.nseq
    version := record.version
    auditEpoch := st.auditEpoch + 1
    kind := .reconciled
    verb := EventKind.reconciled.verbFor s.service
    key := op.key
    lifecycle := record.lifecycle
    actor := .reconciliation
    fieldsChanged := changedTopLevelFields op.oldValue op.newValue
    secretFieldsChangedCount := 0
    atMs := tsToDt op.tsMs
    cause := some "external_edit_detected"
    auditDigest := s.computeDigest op.key.ns record.value record.nseq }

def commitReconcile (op : ReconcileCommit) :
    Except StoreError (Record × RecordEvent) × MemoryStore :=
  let st := s.state op.key.ns
  let record := reconcileRecord st op
  let event := s.reconcileEvent st op
  (.ok (record, event), s.put op.key.ns
    { records := st.records.insert op.key.key record
      events := st.events ++ [event]
      nseq := record.nseq
      auditEpoch := st.auditEpoch + 1 })

end MemoryStore

inductive Commit
  | set (op : SetCommit)
  | delete (op : DeleteCommit)
  | complete (op : CompleteCommit)
  | reconcile (op : ReconcileCommit)

/-- The record a write is for. -/
def Commit.key : Commit → RecordKey
  | .set op => op.key
  | .delete op => op.key
  | .complete op => op.key
  | .reconcile op => op.key

/-- The version a write asks the record to have. -/
def Commit.expected : Commit → Option Nat
  | .set op => op.expectedVersion
  | .delete op => op.expectedVersion
  | .complete op => some op.expectedVersion
  | .reconcile _ => none

/-- The value of a record after an accepted write. -/
def Commit.replay (old : Option PropValue) : Commit → Option PropValue
  | .set op =>
    match op.merge, old with
    | .patch, some v => some (mergePatch v op.newValue)
    | _, _ => some op.newValue
  | .delete _ => none
  | .complete _ => old
  | .reconcile op => some op.newValue

/-- What a store answers to a write: the row that is left, if any, and the event. -/
abbrev CommitResult := Except StoreError (Option Record × RecordEvent)

namespace MemoryStore

def commit (s : MemoryStore) : Commit → CommitResult × MemoryStore
  | .set op =>
    let (r, s') := s.commitSet op
    (r.map fun p => (some p.1, p.2), s')
  | .delete op =>
    let (r, s') := s.commitDelete op
    (r.map fun e => (none, e), s')
  | .complete op =>
    let (r, s') := s.commitComplete op
    (r.map fun p => (some p.1, p.2), s')
  | .reconcile op =>
    let (r, s') := s.commitReconcile op
    (r.map fun p => (some p.1, p.2), s')

def run (s : MemoryStore) (calls : List Commit) : MemoryStore :=
  calls.foldl (fun s c => (s.commit c).2) s

def accepted (s : MemoryStore) : List Commit → List Commit
  | [] => []
  | c :: calls =>
    if (s.commit c).1.isOk then c :: accepted (s.commit c).2 calls
    else accepted (s.commit c).2 calls

/-- How an accepted write changes its namespace. -/
structure Appended (st st' : NamespaceState) (c : Commit) (row : Option Record)
    (ev : RecordEvent) : Prop where
  events : st'.events = st.events ++ [ev]
  nseq : st'.nseq = st.nseq + 1
  evNseq : ev.nseq = st.nseq + 1
  evKey : ev.key = c.key
  epoch : st'.auditEpoch = st.auditEpoch + if ev.kind = .reconciled then 1 else 0
  rows : ∀ k, st'.records[k]? = if k = c.key.key then row else st.records[k]?
  deleted : row = none ↔ ev.kind = .deleted
  matched : ∀ r, row = some r →
    r.version = ev.version ∧ r.nseq = ev.nseq ∧ r.lifecycle = ev.lifecycle
  value : row.map Record.value = c.replay (st.records[c.key.key]?.map Record.value)
  version : ev.version = prevVersion st.records[c.key.key]? + 1

theorem finalValue_eq (op : SetCommit) (existing : Option Record) :
    some (finalValue op.merge existing op.newValue) =
      (Commit.set op).replay (existing.map Record.value) := by
  simp only [Commit.replay]
  cases op.merge <;> cases existing <;> rfl

variable {s s' : MemoryStore} {c : Commit} {ev : RecordEvent}

theorem state_of_some {ns : NamespaceName} {st : NamespaceState} (h : s.namespaces ns = some st) :
    s.state ns = st := by
  rw [state, h, Option.getD_some]

/-- A write is refused and every namespace stands as it did, or it is accepted and appends to its
own namespace. -/
theorem commit_cases (s : MemoryStore) (c : Commit) :
    (∃ e s', s.commit c = (.error e, s') ∧ (∀ ns, s'.state ns = s.state ns)) ∨
    ∃ row ev st', s.commit c = (.ok (row, ev), s.put c.key.ns st') ∧
      Appended (s.state c.key.ns) st' c row ev := by
  cases c with
  | set op =>
    simp only [commit, commitSet]
    split
    · exact .inl ⟨_, _, rfl, fun _ => rfl⟩
    split
    · exact .inl ⟨_, _, rfl, fun ns => s.state_put_state _ ns⟩
    refine .inr ⟨_, _, _, rfl, rfl, rfl, rfl, rfl, ?_, fun _ => Lib.Maps.getElem?_insert_eq _ _ _ _, ?_, ?_, ?_, rfl⟩
    · rw [if_neg]
      · rfl
      · simp only [setEvent]
        split <;> simp
    · simp only [setEvent]
      split <;> simp
    · rintro r ⟨⟩
      exact ⟨rfl, rfl, rfl⟩
    · exact finalValue_eq op _
  | delete =>
    simp only [commit, commitDelete]
    iterate 4
      split
      · exact .inl ⟨_, _, rfl, fun _ => rfl⟩
    next hst _ existing hrow _ _ =>
    refine .inr ⟨_, _, _, rfl, ?_⟩
    simp only [Commit.key, state_of_some hst]
    refine ⟨rfl, rfl, rfl, rfl, rfl, Lib.Maps.getElem?_erase_eq _ _, by simp [deleteEvent], ?_, rfl, ?_⟩
    · rintro r ⟨⟩
    · rw [Commit.key, hrow]
      rfl
  | complete =>
    simp only [commit, commitComplete]
    iterate 3
      split
      · exact .inl ⟨_, _, rfl, fun _ => rfl⟩
    next hst _ record hrow _ _ =>
    refine .inr ⟨_, _, _, rfl, ?_⟩
    simp only [Commit.key, state_of_some hst]
    refine ⟨rfl, rfl, rfl, rfl, rfl, fun _ => Lib.Maps.getElem?_insert_eq _ _ _ _, by simp [completeEvent], ?_, ?_, ?_⟩
    · rintro r ⟨⟩
      exact ⟨rfl, rfl, rfl⟩
    all_goals
      rw [Commit.key, hrow]
      rfl
  | reconcile =>
    refine .inr ⟨_, _, _, rfl, rfl, rfl, rfl, rfl, rfl, fun _ => Lib.Maps.getElem?_insert_eq _ _ _ _, ?_, ?_, rfl, rfl⟩
    · simp [reconcileEvent]
    · rintro r ⟨⟩
      exact ⟨rfl, rfl, rfl⟩

theorem commit_refused {e : StoreError} (h : s.commit c = (.error e, s')) (ns : NamespaceName) :
    s'.state ns = s.state ns := by
  rcases s.commit_cases c with ⟨_, _, hc, hsame⟩ | ⟨_, _, _, hc, -⟩ <;>
    cases h.symm.trans hc
  exact hsame ns

theorem commit_accepted {row : Option Record} (h : s.commit c = (.ok (row, ev), s')) :
    ∃ st', s' = s.put c.key.ns st' ∧ Appended (s.state c.key.ns) st' c row ev := by
  rcases s.commit_cases c with ⟨_, _, hc, -⟩ | ⟨_, _, st', hc, happ⟩ <;>
    cases h.symm.trans hc
  exact ⟨st', rfl, happ⟩

def row (s : MemoryStore) (key : RecordKey) : Option Record :=
  (s.state key.ns).records[key.key]?

def SameRow (a b : RecordKey) : Prop := a.ns = b.ns ∧ a.key = b.key

instance (a b : RecordKey) : Decidable (SameRow a b) := inferInstanceAs (Decidable (_ ∧ _))

theorem SameRow.row_eq {a b : RecordKey} (h : SameRow a b) (s : MemoryStore) : s.row a = s.row b := by
  rw [row, row, h.1, h.2]

theorem row_accepted {row : Option Record} (h : s.commit c = (.ok (row, ev), s'))
    (key : RecordKey) : s'.row key = if SameRow key c.key then row else s.row key := by
  obtain ⟨st', rfl, happ⟩ := commit_accepted h
  by_cases hns : key.ns = c.key.ns
  · have hrow : (s.put c.key.ns st').row key = st'.records[key.key]? := by
      rw [MemoryStore.row, hns, state_put_self]
    rw [hrow, happ.rows]
    by_cases hkey : key.key = c.key.key
    · rw [if_pos hkey, if_pos ⟨hns, hkey⟩]
    · rw [if_neg hkey, if_neg fun hh => hkey hh.2, MemoryStore.row, hns]
  · rw [if_neg fun hh => hns hh.1, MemoryStore.row, state_put_of_ne s hns, MemoryStore.row]

/-- A completion finds the version it is pinned to, still provisioning, and ends that. -/
theorem complete_accepted {op : CompleteCommit} {row : Option Record}
    (h : s.commit (.complete op) = (.ok (row, ev), s')) :
    ∃ record, s.row op.key = some record ∧ record.version = op.expectedVersion ∧
      record.lifecycle = some .provisioning ∧
      ∃ r, row = some r ∧ r.value = record.value ∧ r.lifecycle ≠ some .provisioning := by
  simp only [commit, commitComplete] at h
  iterate 3
    split at h
    · cases h
  next hst _ record hrow _ hok =>
  cases h
  have hrow' : s.row op.key = some record := by rw [MemoryStore.row, state_of_some hst, hrow]
  unfold completeRefused at hok
  iterate 3
    split at hok
    · cases hok
  next hversion hlife htarget =>
  exact ⟨record, hrow', not_ne_iff.mp hversion, not_ne_iff.mp hlife, _, rfl, rfl,
    fun hh => htarget (Option.some.inj hh)⟩

end MemoryStore

def NamespaceState.eventsOf (st : NamespaceState) (k : String) : List RecordEvent :=
  st.events.filter fun e => e.key.key = k

def replayed (log : List Commit) (ns : NamespaceName) (k : String) : Option PropValue :=
  (log.filter fun c => c.key.ns = ns ∧ c.key.key = k).foldl Commit.replay none

/-- Rows, events and counters of one namespace tell the same history. -/
structure NamespaceState.Agrees (st : NamespaceState) (value : String → Option PropValue) :
    Prop where
  counted : st.events.map RecordEvent.nseq = range' 1 st.nseq
  epoch : st.auditEpoch = st.events.countP fun e => e.kind = .reconciled
  live : ∀ k, (∃ r, st.records[k]? = some r) ↔
    ∃ e, (st.eventsOf k).getLast? = some e ∧ e.kind ≠ .deleted
  last : ∀ k r, st.records[k]? = some r → ∃ e, (st.eventsOf k).getLast? = some e ∧
    r.version = e.version ∧ r.nseq = e.nseq ∧ r.lifecycle = e.lifecycle
  value : ∀ k, st.records[k]?.map Record.value = value k

namespace MemoryStore

variable {st st' : NamespaceState} {c : Commit} {ev : RecordEvent} {row : Option Record}

theorem eventsOf_append (h : Appended st st' c row ev) (k : String) :
    st'.eventsOf k = st.eventsOf k ++ if k = c.key.key then [ev] else [] := by
  unfold NamespaceState.eventsOf
  rw [h.events, filter_append, filter_singleton, h.evKey]
  by_cases hk : k = c.key.key
  · rw [if_pos hk, hk, decide_eq_true rfl, cond_true]
  · rw [if_neg hk, decide_eq_false (Ne.symm hk), cond_false]

theorem Appended.counted (h : Appended st st' c row ev)
    (hc : st.events.map RecordEvent.nseq = range' 1 st.nseq) :
    st'.events.map RecordEvent.nseq = range' 1 st'.nseq := by
  rw [h.events, map_append, hc, h.nseq, List.range'_1_concat, map_singleton, h.evNseq,
    Nat.add_comm 1]

/-- An accepted write keeps a namespace in agreement, with its own effect on the value. -/
theorem Appended.agrees (h : Appended st st' c row ev)
    {value : String → Option PropValue} (ha : st.Agrees value) :
    st'.Agrees (fun k => if k = c.key.key then c.replay (value k) else value k) := by
  refine ⟨h.counted ha.counted, ?_, ?_, ?_, ?_⟩
  · rw [h.epoch, h.events, ha.epoch]
    simp
  · intro k
    rw [h.rows, eventsOf_append h]
    by_cases hk : k = c.key.key
    · rw [if_pos hk, if_pos hk, List.getLast?_concat]
      constructor
      · rintro ⟨r, hr⟩
        exact ⟨ev, rfl, fun hd => by rw [h.deleted.mpr hd] at hr; cases hr⟩
      · rintro ⟨e, he, hne⟩
        cases he
        exact Option.ne_none_iff_exists'.mp fun hnone => hne (h.deleted.mp hnone)
    · rw [if_neg hk, if_neg hk, append_nil]
      exact ha.live k
  · intro k r hr
    rw [h.rows] at hr
    rw [eventsOf_append h]
    by_cases hk : k = c.key.key
    · rw [if_pos hk] at hr
      rw [if_pos hk, List.getLast?_concat]
      exact ⟨ev, rfl, h.matched r hr⟩
    · rw [if_neg hk] at hr
      rw [if_neg hk, append_nil]
      exact ha.last k r hr
  · intro k
    rw [h.rows]
    by_cases hk : k = c.key.key
    · rw [if_pos hk, if_pos hk, h.value, ← ha.value, hk]
    · rw [if_neg hk, if_neg hk, ha.value]

theorem replayed_concat (log : List Commit) (c : Commit) (ns : NamespaceName) (k : String) :
    replayed (log ++ [c]) ns k =
      if c.key.ns = ns ∧ c.key.key = k then c.replay (replayed log ns k) else replayed log ns k := by
  unfold replayed
  rw [filter_append, filter_singleton, foldl_append]
  by_cases h : c.key.ns = ns ∧ c.key.key = k
  · rw [if_pos h, decide_eq_true h]
    rfl
  · rw [if_neg h, decide_eq_false h]
    rfl

/-- Every namespace of a store agrees with the accepted writes. -/
def Agrees (s : MemoryStore) (log : List Commit) : Prop :=
  ∀ ns, (s.state ns).Agrees (replayed log ns)

theorem agrees_new (service : String) (digest : NamespaceName → PropValue → Nat → String) :
    (MemoryStore.new service digest).Agrees [] := by
  intro ns
  refine ⟨rfl, rfl, ?_, ?_, ?_⟩
  · simp [MemoryStore.new, state, NamespaceState.new, NamespaceState.eventsOf]
  · intro k r hr
    simp [MemoryStore.new, state, NamespaceState.new] at hr
  · simp [MemoryStore.new, state, NamespaceState.new, replayed]

theorem Agrees.commit {s : MemoryStore} {log : List Commit} (h : s.Agrees log) (c : Commit) :
    (s.commit c).2.Agrees (log ++ if (s.commit c).1.isOk then [c] else []) := by
  rcases s.commit_cases c with ⟨e, _, hc, hsame⟩ | ⟨_, _, _, hc, happ⟩
  · intro ns
    rw [hc, hsame, Except.isOk, Except.toBool, if_neg Bool.false_ne_true, append_nil]
    exact h ns
  intro ns
  rw [hc, Except.isOk, Except.toBool, if_pos rfl]
  by_cases hns : ns = c.key.ns
  · subst hns
    have := happ.agrees (h c.key.ns)
    rw [state_put_self]
    refine { this with value := fun k => ?_ }
    rw [this.value, replayed_concat]
    by_cases hk : k = c.key.key
    · rw [if_pos hk, if_pos ⟨rfl, hk.symm⟩]
    · rw [if_neg hk, if_neg fun hh => hk hh.2.symm]
  · rw [state_put_of_ne s hns]
    refine { h ns with value := fun k => ?_ }
    rw [replayed_concat, if_neg fun hh => hns hh.1.symm]
    exact (h ns).value k

theorem Agrees.run {s : MemoryStore} {log : List Commit} (h : s.Agrees log) (calls : List Commit) :
    (s.run calls).Agrees (log ++ s.accepted calls) := by
  induction calls generalizing s log with
  | nil => rwa [accepted, append_nil]
  | cons c calls ih =>
    have := ih (h.commit c)
    rw [append_assoc] at this
    rw [accepted]
    split
    · next hok => rwa [if_pos hok] at this
    · next hok => rwa [if_neg hok] at this

theorem list_observedNseq (s : MemoryStore) (ns : NamespaceName) :
    (s.list ns).observedNseq = (s.state ns).nseq := by
  unfold list state
  split <;> simp [*, NamespaceState.new]

theorem auditEpoch_eq (s : MemoryStore) (ns : NamespaceName) :
    s.auditEpoch ns = (s.state ns).auditEpoch := by
  unfold auditEpoch state
  cases s.namespaces ns <;> rfl

/-- In every run the events of a namespace are numbered without a gap, the epoch counts the
reconciliations, rows are what events and accepted writes say, and a refused write changes nothing.
-/
theorem events_and_rows_agree (service : String)
    (digest : NamespaceName → PropValue → Nat → String) (calls : List Commit) :
    let s := (MemoryStore.new service digest).run calls
    let log := (MemoryStore.new service digest).accepted calls
    (∀ ns,
      (s.state ns).events.map RecordEvent.nseq = range' 1 (s.list ns).observedNseq ∧
      s.auditEpoch ns = (s.state ns).events.countP (fun e => e.kind = .reconciled) ∧
      ∀ k,
        ((∃ r, (s.state ns).records[k]? = some r) ↔
          ∃ e, ((s.state ns).eventsOf k).getLast? = some e ∧ e.kind ≠ .deleted) ∧
        ∀ r, (s.state ns).records[k]? = some r →
          (∃ e, ((s.state ns).eventsOf k).getLast? = some e ∧
            r.version = e.version ∧ r.nseq = e.nseq ∧ r.lifecycle = e.lifecycle) ∧
          replayed log ns k = some r.value) ∧
    ∀ (c : Commit) (e : StoreError) (s' : MemoryStore), s.commit c = (.error e, s') →
      ∀ ns, s'.state ns = s.state ns := by
  intro s log
  have h : s.Agrees log := (agrees_new service digest).run calls
  constructor
  · intro ns
    refine ⟨?_, ?_, ?_⟩
    · rw [list_observedNseq, (h ns).counted]
    · rw [auditEpoch_eq, (h ns).epoch]
    · intro k
      refine ⟨(h ns).live k, fun r hr => ⟨(h ns).last k r hr, ?_⟩⟩
      rw [← (h ns).value k, hr]
      rfl
  · intro c e s' hc ns
    exact commit_refused hc ns

theorem expected_accepted {s : MemoryStore} {c : Commit} {e : Nat} (hexp : c.expected = some e)
    (hok : (s.commit c).1.isOk = true) : prevVersion (s.row c.key) = e := by
  cases c <;> simp only [commit, commitSet, setRefused, commitDelete, commitComplete,
    completeRefused, versionRefused] at hok <;>
    grind [Commit.expected, Commit.key, MemoryStore.row, state_of_some, prevVersion, Except.map,
      Except.toBool]

theorem row_commit (key : RecordKey) (c : Commit) (s : MemoryStore)
    (hlive : (s.commit c).2.row key ≠ none) : (s.commit c).2.row key = s.row key ∨
      prevVersion (s.row key) < prevVersion ((s.commit c).2.row key) := by
  obtain ⟨e, s', hc, hst⟩ | ⟨row, ev, st', hc, happ⟩ := s.commit_cases c
  · exact .inl (by rw [hc, MemoryStore.row, hst, MemoryStore.row])
  · have hrow := row_accepted hc key
    have hversion := happ.version
    have hmatched := happ.matched
    grind [MemoryStore.row, SameRow, prevVersion]

theorem row_run (key : RecordKey) (calls : List Commit) (s : MemoryStore)
    (hlive : ∀ n, (s.run (calls.take n)).row key ≠ none) : (s.run calls).row key = s.row key ∨
      prevVersion (s.row key) < prevVersion ((s.run calls).row key) := by
  induction calls generalizing s with
  | nil => exact .inl rfl
  | cons c calls ih =>
    have hc := row_commit key c s (hlive 1)
    have hrest := ih (s.commit c).2 fun n => hlive (n + 1)
    obtain h | h := hrest
    · exact h ▸ hc
    · exact .inr (hc.elim (fun hc => hc ▸ h) fun hc => hc.trans h)

/-- A record read and then written back under its version is still the record that was read, when
it was there all the time between. -/
theorem expected_version_guards_record {s : MemoryStore} {c : Commit} {snap : Snapshot Record}
    (hread : s.get c.key = .ok snap) (hexp : c.expected = some snap.value.version)
    {calls : List Commit} (hlive : ∀ n, (s.run (calls.take n)).row c.key ≠ none)
    (hok : ((s.run calls).commit c).1.isOk = true) :
    (s.run calls).row c.key = some snap.value := by
  have hrow : s.row c.key = some snap.value := by grind [get, MemoryStore.row, state_of_some]
  obtain h | h := row_run c.key calls s hlive
  · exact h.trans hrow
  · rw [expected_accepted hexp hok, hrow] at h
    exact absurd h (Nat.lt_irrefl _)

private def setNull (k : String) (expected : Option Nat) : Commit :=
  .set ⟨⟨⟨"dock", by decide⟩, k, []⟩, .null, expected, .replace, none, ⟨"user", by decide⟩, none, 0⟩

theorem expected_version_guards_record_other_set : ∃ snap,
    let s := (MemoryStore.new "" fun _ _ _ => "").run [setNull "a" none]
    s.get (setNull "a" none).key = .ok snap ∧ ((s.run [setNull "b" none]).commit
      (setNull "a" (some 1))).1.isOk = true ∧
      (s.run [setNull "b" none]).row (setNull "a" none).key = some snap.value := by
  have hok : (((MemoryStore.new "" fun _ _ _ => "").run [setNull "a" none, setNull "b" none]).commit
    (setNull "a" (some 1))).1.isOk = true := by decide +kernel
  refine ⟨_, rfl, hok, expected_version_guards_record (c := setNull "a" (some 1)) rfl rfl ?_ hok⟩
  rintro (_ | _ | n) <;> exact Option.some_ne_none _

end MemoryStore

end Cosmix.Props
