/- source: cosmix-lib-props-store/src/memory.rs, sqlite.rs
   digest: The memory store and the SQLite store answer alike. -/

import Cosmix.Lib.JsonMap
import Cosmix.Props.Sqlite

namespace Cosmix.Props

open List
open MemoryStore (versionRefused prevVersion setRecord completeRefused completeRecord)

inductive StoreCall
  | set (op : SetCommit)
  | complete (op : CompleteCommit)
  | delete (op : DeleteCommit)
  | get (key : RecordKey)
  | list (ns : NamespaceName)
  | eventsSince (ns : NamespaceName) (sinceNseq : Nat)

def StoreCall.ns : StoreCall → NamespaceName
  | .set op => op.key.ns
  | .complete op => op.key.ns
  | .delete op => op.key.ns
  | .get key => key.ns
  | .list ns => ns
  | .eventsSince ns _ => ns

inductive StoreAnswer
  | written (record : Record) (event : RecordEvent)
  | deleted (event : RecordEvent)
  | found (snapshot : Snapshot Record)
  | listed (snapshot : Snapshot (List Record))
  | events (events : List RecordEvent)

/-- An event without its digest, which is under a key that each store draws for itself. -/
def RecordEvent.plain (e : RecordEvent) : RecordEvent := { e with auditDigest := "" }

/-- A record under the key of its row. -/
def Record.plain (r : Record) : Record := { r with key := ⟨r.key.ns, r.key.key, []⟩ }

def StoreAnswer.plain : StoreAnswer → StoreAnswer
  | .written r e => .written r.plain e.plain
  | .deleted e => .deleted e.plain
  | .found s => .found ⟨s.value.plain, s.observedNseq⟩
  | .listed s => .listed ⟨s.value.map Record.plain, s.observedNseq⟩
  | .events es => .events (es.map RecordEvent.plain)

abbrev StoreReply := Except StoreError StoreAnswer

/-- What a caller can compare. -/
def plainReply (r : StoreReply) : StoreReply := r.map StoreAnswer.plain

def MemoryStore.answer (s : MemoryStore) : StoreCall → StoreReply × MemoryStore
  | .set op =>
    let (r, s') := s.commitSet op
    (r.map fun p => .written p.1 p.2, s')
  | .complete op =>
    let (r, s') := s.commitComplete op
    (r.map fun p => .written p.1 p.2, s')
  | .delete op =>
    let (r, s') := s.commitDelete op
    (r.map .deleted, s')
  | .get key => ((s.get key).map .found, s)
  | .list ns => (.ok (.listed (s.list ns)), s)
  | .eventsSince ns n => (.ok (.events (s.eventsSince ns n)), s)

def SqliteStore.answer (s : SqliteStore) : StoreCall → StoreReply × SqliteStore
  | .set op =>
    let (r, s') := s.commitSet op
    (r.map fun p => .written p.1 p.2, s')
  | .complete op =>
    let (r, s') := s.commitComplete op
    (r.map fun p => .written p.1 p.2, s')
  | .delete op =>
    let (r, s') := s.commitDelete op
    (r.map .deleted, s')
  | .get key => ((s.get key).map .found, s)
  | .list ns => ((s.list ns).map .listed, s)
  | .eventsSince ns n => ((s.eventsSince ns n).map .events, s)

/-- The answers to calls made one after the other. -/
def MemoryStore.answers (s : MemoryStore) : List StoreCall → List StoreReply
  | [] => []
  | c :: calls => (s.answer c).1 :: answers (s.answer c).2 calls

def SqliteStore.answers (s : SqliteStore) : List StoreCall → List StoreReply
  | [] => []
  | c :: calls => (s.answer c).1 :: answers (s.answer c).2 calls

variable {n m : Nat} {s : SqliteStore}

theorem ofColumn_toColumn (h : n < 2 ^ 63) : ofColumn (toColumn n) = n := by
  have h64 : n < 2 ^ 64 := by omega
  rw [ofColumn, toColumn, Int64.toUInt64_ofNat', UInt64.toNat_ofNat_of_lt' h64]

theorem toColumn_lt (hm : m < 2 ^ 63) (hn : n < 2 ^ 63) : toColumn m < toColumn n ↔ m < n :=
  Int64.ofNat_lt_iff_lt hm hn

theorem lifecycleFromCols_toCols (texts : TextTables) (l : Option Lifecycle) :
    lifecycleFromCols texts (lifecycleToCols l).1 (lifecycleToCols l).2 = .ok l := by
  rcases l with _ | _ | _ | reason <;> rfl

theorem kindFromStr_toStr (texts : TextTables) (k : EventKind) :
    kindFromStr texts (kindToStr k) = .ok k := by
  cases k <;> rfl

/-! The memory store by the state of a namespace: one never written to is as a new one. -/

namespace MemoryStore

theorem get_eq (s : MemoryStore) (key : RecordKey) :
    s.get key = match (s.state key.ns).records[key.key]? with
      | none => .error .notFound
      | some record => .ok ⟨record, (s.state key.ns).nseq⟩ := by
  unfold get state
  cases s.namespaces key.ns with
  | none => simp [NamespaceState.new]
  | some => rfl

theorem values_eq (m : Std.ExtTreeMap String Record compare) : m.values = m.toList.map Prod.snd := by
  have h : m.values = m.foldr (fun _ r l => r :: l) [] := by
    rfl
  rw [h, Std.ExtTreeMap.foldr_eq_foldr_toList]
  induction m.toList with
  | nil => rfl
  | cons a l ih => rw [foldr_cons, ih, map_cons]

theorem list_eq (s : MemoryStore) (ns : NamespaceName) :
    s.list ns = ⟨(s.state ns).records.toList.map Prod.snd, (s.state ns).nseq⟩ := by
  unfold list state
  cases s.namespaces ns with
  | none => simp [NamespaceState.new]
  | some st => exact congrArg (Snapshot.mk · st.nseq) (values_eq st.records)

theorem eventsSince_eq (s : MemoryStore) (ns : NamespaceName) (n : Nat) :
    s.eventsSince ns n = (s.state ns).events.filter fun e => n < e.nseq := by
  unfold eventsSince state
  cases s.namespaces ns with
  | none | some => rfl

theorem commitDelete_eq (s : MemoryStore) (op : DeleteCommit)
    (hwhole : op.key.isWholeRecord = true) :
    s.commitDelete op = match (s.state op.key.ns).records[op.key.key]? with
      | none => (.error .notFound, s)
      | some existing =>
        match versionRefused op.expectedVersion existing.version with
        | some e => (.error e, s)
        | none =>
          let event := s.deleteEvent (s.state op.key.ns) existing op
          (.ok event, s.put op.key.ns
            { s.state op.key.ns with
              records := (s.state op.key.ns).records.erase op.key.key
              events := (s.state op.key.ns).events ++ [event]
              nseq := event.nseq }) := by
  unfold commitDelete
  rw [hwhole]
  cases h : s.namespaces op.key.ns with
  | none => simp [state, h, NamespaceState.new]
  | some => obtain rfl := state_of_some h; rfl

theorem commitComplete_eq (s : MemoryStore) (op : CompleteCommit) :
    s.commitComplete op = match (s.state op.key.ns).records[op.key.key]? with
      | none => (.error .notFound, s)
      | some record =>
        match completeRefused record op with
        | some e => (.error e, s)
        | none =>
          let event := s.completeEvent (s.state op.key.ns) record op
          let record := completeRecord (s.state op.key.ns) record op
          (.ok (record, event), s.put op.key.ns
            { s.state op.key.ns with
              records := (s.state op.key.ns).records.insert op.key.key record
              events := (s.state op.key.ns).events ++ [event]
              nseq := record.nseq }) := by
  unfold commitComplete
  cases h : s.namespaces op.key.ns with
  | none => simp [state, h, NamespaceState.new]
  | some => obtain rfl := state_of_some h; rfl

end MemoryStore

/-- An event that its row gives back. -/
structure EventFits (ns : NamespaceName) (n : Nat) (e : RecordEvent) : Prop where
  key : e.key.ns = ns
  nseq : e.nseq ≤ n
  version : e.version ≤ n
  epoch : e.auditEpoch = 0
  secrets : e.secretFieldsChangedCount = 0
  instant : tsToDt e.atMs = e.atMs

/-- A row that its columns give back. -/
structure RowFits (ns : NamespaceName) (n : Nat) (k : String) (r : Record) : Prop where
  key : r.key = ⟨ns, k, []⟩
  version : r.version ≤ n
  nseq : r.nseq ≤ n
  value : Storable recursionLimit r.value

def liveCols (r : Record) : MetaCols := SqliteStore.metaCols r.version r.nseq r.lifecycle false

/-- The tables of a namespace hold what the memory store has of it, after so many calls. -/
structure Mirrors (s : SqliteStore) (ns : NamespaceName) (n : Nat) (t : NamespaceTables)
    (st : NamespaceState) : Prop where
  bound : st.nseq ≤ n
  nseq : t.nseq = toColumn st.nseq
  epoch : st.auditEpoch = 0 ∧ t.auditEpoch = toColumn 0
  records : ∀ k : String, t.records[k]? = st.records[k]?.map liveCols
  values : ∀ k : String, t.values[k]? = st.records[k]?.map fun r => s.codec.writeValue r.value
  counted : st.events.map RecordEvent.nseq = List.range' 1 st.nseq
  rows : ∀ (k : String) (r : Record), st.records[k]? = some r → RowFits ns st.nseq k r
  events : ∃ es : List RecordEvent, t.events = es.map s.eventRow ∧
    es.map RecordEvent.plain = st.events.map RecordEvent.plain ∧ ∀ e ∈ es, EventFits ns st.nseq e

theorem map_nseq_plain (es : List RecordEvent) :
    (es.map RecordEvent.plain).map RecordEvent.nseq = es.map RecordEvent.nseq := by
  rw [map_map]
  rfl

section

variable {s : SqliteStore} {ns : NamespaceName} {n : Nat} {t : NamespaceTables}
  {st : NamespaceState}

theorem Mirrors.later (h : Mirrors s ns n t st) : Mirrors s ns (n + 1) t st :=
  { h with bound := Nat.le_succ_of_le h.bound }

theorem mirrors_new (s : SqliteStore) (ns : NamespaceName) : Mirrors s ns 0 .new .new where
  bound := Nat.le_refl 0
  nseq := rfl
  epoch := ⟨rfl, rfl⟩
  records k := by simp [NamespaceTables.new, NamespaceState.new]
  values k := by simp [NamespaceTables.new, NamespaceState.new]
  counted := rfl
  rows k r hr := by simp [NamespaceState.new] at hr
  events := ⟨[], rfl, rfl, nofun⟩

theorem toList_column {β : Type} {col : Std.ExtTreeMap String β compare} {f : Record → β}
    (h : ∀ k : String, col[k]? = st.records[k]?.map f) :
    col.toList = st.records.toList.map fun p => (p.1, f p.2) := by
  have hmap : col = st.records.map fun _ r => f r :=
    Std.ExtTreeMap.ext_getElem? fun k => by rw [h, Std.ExtTreeMap.getElem?_map]
  rw [hmap, Std.ExtTreeMap.toList_map]

theorem decodeEvent_eventRow (hc : s.codec.Faithful) {e : RecordEvent} (he : EventFits ns n e)
    (hn : n < 2 ^ 63) : s.decodeEvent ns (s.eventRow e) = .ok e := by
  have hq : e.nseq < 2 ^ 63 := lt_of_le_of_lt he.nseq hn
  have hv : e.version < 2 ^ 63 := lt_of_le_of_lt he.version hn
  obtain ⟨_, _, _, _, _, _, _, _, _, _, _, _,
    digest⟩ := e
  obtain ⟨rfl, -, -, rfl, rfl, hat⟩ := he
  simp only [SqliteStore.decodeEvent, SqliteStore.eventRow, hc.path, hc.names, kindFromStr_toStr,
    lifecycleFromCols_toCols, Actor.new_token, ofColumn_toColumn hq, ofColumn_toColumn hv, hat]
  rfl

variable (h : Mirrors s ns n t st)
include h

theorem Mirrors.ofColumn_nseq (hn : n < 2 ^ 63) : ofColumn t.nseq = st.nseq := by
  rw [h.nseq, ofColumn_toColumn (lt_of_le_of_lt h.bound hn)]

theorem Mirrors.ofColumn_epoch : ofColumn t.auditEpoch = st.auditEpoch := by
  rw [h.epoch.1, h.epoch.2, ofColumn_toColumn (by decide)]

theorem Mirrors.small (hn : n < 2 ^ 63) {k : String} {r : Record}
    (hrow : RowFits ns st.nseq k r) : r.version < 2 ^ 63 ∧ r.nseq < 2 ^ 63 :=
  ⟨lt_of_le_of_lt (hrow.version.trans h.bound) hn,
    lt_of_le_of_lt (hrow.nseq.trans h.bound) hn⟩

theorem Mirrors.readMeta (hn : n < 2 ^ 63) (k : String) : s.readMeta t k =
      .ok (st.records[k]?.map fun r => ⟨r.version, r.nseq, r.lifecycle, false⟩) := by
  rw [SqliteStore.readMeta, h.records]
  cases hr : st.records[k]? with
  | none => rfl
  | some r =>
    obtain ⟨hv, hq⟩ := h.small hn (h.rows k r hr)
    simp only [Option.map_some, liveCols, SqliteStore.metaCols, lifecycleFromCols_toCols,
      ofColumn_toColumn hv, ofColumn_toColumn hq]
    rfl

theorem Mirrors.mappingRead (hc : s.codec.Faithful) (k : String) :
    s.mappingRead t k = .ok (st.records[k]?.map Record.value) := by
  rw [SqliteStore.mappingRead, h.values]
  cases hr : st.records[k]? with
  | none => rfl
  | some r =>
    simp only [Option.map_some, SqliteStore.readText, hc.value _ (h.rows k r hr).value]
    rfl

variable (hn : n < 2 ^ 63) (hc : s.codec.Faithful)
include hn hc

theorem Mirrors.get {key : RecordKey} (ht : s.tables key.ns = some t) :
    s.get key = match st.records[key.key]? with
      | none => .error .notFound
      | some r => .ok ⟨{ r with key := key }, st.nseq⟩ := by
  rw [SqliteStore.get, ht]
  dsimp only
  rw [h.records]
  cases hr : st.records[key.key]? with
  | none => rfl
  | some r =>
    obtain ⟨hv, hq⟩ := h.small hn (h.rows key.key r hr)
    simp only [Option.map_some, liveCols, SqliteStore.metaCols, lifecycleFromCols_toCols,
      h.mappingRead hc, hr, ofColumn_toColumn hv, ofColumn_toColumn hq, h.ofColumn_nseq hn]
    rfl

theorem Mirrors.list (ht : s.tables ns = some t) :
    s.list ns = .ok ⟨st.records.toList.map Prod.snd, st.nseq⟩ := by
  have hrow : ∀ p ∈ st.records.toList, RowFits ns st.nseq p.1 p.2 := fun p hp =>
    h.rows p.1 p.2 (Std.ExtTreeMap.mem_toList_iff_getElem?_eq_some.mp hp)
  have hvalues : s.mappingList t = .ok (st.records.toList.map fun p => (p.1, p.2.value)) := by
    rw [SqliteStore.mappingList, toList_column h.values, mapM_map]
    refine Lib.mapM_ok fun p hp => ?_
    simp only [Function.comp_apply, SqliteStore.readText, hc.value _ (hrow p hp).value]
    rfl
  have hlive : (t.records.toList.filter fun row => row.2.tombstoned == 0) =
      st.records.toList.map fun p => (p.1, liveCols p.2) := by
    rw [toList_column h.records, filter_eq_self]
    intro row hmem
    obtain ⟨p, -, rfl⟩ := mem_map.mp hmem
    rfl
  have hrecords : (st.records.toList.map fun p => (p.1, liveCols p.2)).mapM
      (s.listed ns (st.records.toList.map fun p => (p.1, p.2.value))) =
        .ok (st.records.toList.map Prod.snd) := by
    rw [mapM_map]
    refine Lib.mapM_ok fun p hp => ?_
    have hfit := hrow p hp
    have hlookup : (st.records.toList.map fun p => (p.1, p.2.value)).lookup p.1 =
        some p.2.value := by
      refine Lib.Json.lookup_of_mem ?_ (mem_map.mpr ⟨p, hp, rfl⟩)
      rw [Lib.Json.map_fst_pair, Std.ExtTreeMap.map_fst_toList_eq_keys]
      exact Std.ExtTreeMap.nodup_keys
    obtain ⟨hv, hq⟩ := h.small hn hfit
    simp only [Function.comp_apply, SqliteStore.listed, hlookup, liveCols, SqliteStore.metaCols,
      lifecycleFromCols_toCols, ofColumn_toColumn hv, ofColumn_toColumn hq, ← hfit.key]
    rfl
  rw [SqliteStore.list, ht]
  simp only [hvalues, hlive, bind, Except.bind, hrecords, h.ofColumn_nseq hn]

theorem Mirrors.eventsSince (ht : s.tables ns = some t) {since : Nat} (hs : since < 2 ^ 63) :
    ∃ es, s.eventsSince ns since = .ok es ∧
      es.map RecordEvent.plain =
        (st.events.filter fun e => since < e.nseq).map RecordEvent.plain := by
  obtain ⟨es, hevents, hplain, hfits⟩ := h.events
  have hst : st.nseq < 2 ^ 63 := lt_of_le_of_lt h.bound hn
  have hsmall : ∀ e ∈ es, e.nseq < 2 ^ 63 := fun e he => lt_of_le_of_lt (hfits e he).nseq hst
  -- the numbers run on as in the memory store, so the rows stand in order
  have hnumbers : es.map RecordEvent.nseq = List.range' 1 st.nseq := by
    rw [← map_nseq_plain, hplain, map_nseq_plain, h.counted]
  have hsorted : es.Pairwise fun a b => a.nseq < b.nseq := by
    have := pairwise_lt_range' (s := 1) (n := st.nseq)
    rwa [← hnumbers, pairwise_map] at this
  have hrows : (t.events.filter fun row => toColumn since < row.nseq) =
      (es.filter fun e => since < e.nseq).map s.eventRow := by
    rw [hevents, filter_map]
    refine congrArg (List.map s.eventRow) (filter_congr fun e he => ?_)
    exact decide_eq_decide.mpr (toColumn_lt hs (hsmall e he))
  have hinorder : ((es.filter fun e => since < e.nseq).map s.eventRow).Pairwise
      SqliteStore.byNseq := by
    rw [pairwise_map]
    refine (hsorted.filter _).imp_of_mem fun {a b} ha hb hab => ?_
    have hlt := (toColumn_lt (hsmall a (mem_of_mem_filter ha))
      (hsmall b (mem_of_mem_filter hb))).mpr hab
    exact Int64.le_of_lt hlt
  refine ⟨es.filter fun e => since < e.nseq, ?_, ?_⟩
  · rw [SqliteStore.eventsSince, ht]
    dsimp only
    rw [hrows, hinorder.insertionSort_eq, mapM_map]
    have hok : (es.filter fun e => since < e.nseq).mapM (s.decodeEvent ns ∘ s.eventRow) =
        .ok ((es.filter fun e => since < e.nseq).map id) := Lib.mapM_ok fun e he =>
      decodeEvent_eventRow hc (hfits e (mem_of_mem_filter he)) hst
    rw [hok, map_id]
  · have hkeep : ∀ l : List RecordEvent, (l.filter fun e => since < e.nseq).map RecordEvent.plain =
        (l.map RecordEvent.plain).filter fun e => since < e.nseq := fun l => by
      rw [filter_map]
      rfl
    rw [hkeep, hkeep, hplain]

end

theorem EventFits.mono {ns : NamespaceName} {e : RecordEvent} (h : EventFits ns n e) (hm : n ≤ m) :
    EventFits ns m e :=
  { h with nseq := h.nseq.trans hm, version := h.version.trans hm }

theorem RowFits.mono {ns : NamespaceName} {k : String} {r : Record} (h : RowFits ns n k r)
    (hm : n ≤ m) : RowFits ns m k r :=
  { h with nseq := h.nseq.trans hm, version := h.version.trans hm }

/-- An event under the digest of another store. -/
def RecordEvent.redigest (e : RecordEvent) (digest : String) : RecordEvent :=
  { e with auditDigest := digest }

section

variable {s : SqliteStore} {ns : NamespaceName} {n : Nat} {t : NamespaceTables}
  {st : NamespaceState}

theorem checkVersion_eq (expected : Option Nat) (current : Nat) :
    SqliteStore.checkVersion expected current =
      match versionRefused expected current with
      | some e => .error e
      | none => .ok () := by
  cases expected with
  | none => rfl
  | some =>
    unfold SqliteStore.checkVersion versionRefused
    dsimp only
    split <;> rfl

variable (h : Mirrors s ns n t st)
include h

theorem Mirrors.append {t' : NamespaceTables} {k : String}
    {row : Option Record} {records' : Std.ExtTreeMap String Record compare} {ev : RecordEvent}
    {digest : String} (hnseq : t'.nseq = toColumn (st.nseq + 1))
    (hepoch : t'.auditEpoch = t.auditEpoch)
    (hstate : ∀ j : String, records'[j]? = if j = k then row else st.records[j]?)
    (hrecords : ∀ j : String,
      t'.records[j]? = if j = k then row.map liveCols else t.records[j]?)
    (hvalues : ∀ j : String, t'.values[j]? =
      if j = k then row.map (fun r => s.codec.writeValue r.value) else t.values[j]?)
    (hevents : t'.events = t.events ++ [s.eventRow (ev.redigest digest)])
    (hfits : EventFits ns (st.nseq + 1) ev) (hnumber : ev.nseq = st.nseq + 1)
    (hrow : ∀ r, row = some r → RowFits ns (st.nseq + 1) k r) :
    Mirrors s ns (n + 1) t'
      { st with records := records', events := st.events ++ [ev], nseq := st.nseq + 1 } where
  bound := Nat.succ_le_succ h.bound
  nseq := hnseq
  epoch := ⟨h.epoch.1, hepoch.trans h.epoch.2⟩
  records j := by
    rw [hrecords, hstate, h.records]
    split <;> rfl
  values j := by
    rw [hvalues, hstate, h.values]
    split <;> rfl
  counted := by
    rw [map_append, h.counted, range'_1_concat, map_singleton, hnumber,
      add_comm 1]
  rows j r hr := by
    rw [hstate] at hr
    split at hr
    · next hj => exact hj ▸ hrow r hr
    · exact (h.rows j r hr).mono (Nat.le_succ _)
  events := by
    obtain ⟨es, hes, hplain, hall⟩ := h.events
    refine ⟨es ++ [ev.redigest digest], ?_, ?_, ?_⟩
    · rw [hevents, hes, map_append, map_singleton]
    · rw [map_append, map_append, hplain]
      rfl
    · exact forall_mem_append.mpr ⟨fun e he => (hall e he).mono (Nat.le_succ _),
        forall_mem_singleton.mpr { hfits with }⟩

theorem Mirrors.insertEvent (hn : n + 1 < 2 ^ 63) {t' : NamespaceTables}
    (ht' : t'.events = t.events) {e : RecordEvent} (he : e.nseq = st.nseq + 1) :
    s.insertEvent t' e = .ok { t' with events := t.events ++ [s.eventRow e] } := by
  have hbound := h.bound
  obtain ⟨es, hes, -, hall⟩ := h.events
  have hfree : (t'.events.any fun r => r.nseq == (s.eventRow e).nseq) = false := by
    rw [ht', hes, any_eq_false]
    intro r hr hsame
    obtain ⟨e', he', rfl⟩ := mem_map.mp hr
    have hle := (hall e' he').nseq
    have hcol : toColumn e'.nseq = toColumn e.nseq := eq_of_beq hsame
    have hback := congrArg ofColumn hcol
    rw [ofColumn_toColumn (by omega), ofColumn_toColumn (by omega)] at hback
    omega
  rw [SqliteStore.insertEvent, hfree, if_neg Bool.false_ne_true, ht']

theorem Mirrors.priorValue (hc : s.codec.Faithful) (k : String) :
    s.priorValue t k st.records[k]?.isSome = .ok (st.records[k]?.map Record.value) := by
  rw [SqliteStore.priorValue, h.mappingRead hc]
  cases st.records[k]? <;> rfl

variable {m : MemoryStore} (hn : n + 1 < 2 ^ 63) (hc : s.codec.Faithful)
  (hservice : s.service = m.service)
include hn hc hservice

theorem Mirrors.setBody (op : SetCommit) :
    s.setBody op t =
      match versionRefused op.expectedVersion
        (prevVersion st.records[op.key.key]?) with
      | some e => .error e
      | none =>
        let record := setRecord st op
        let event := (m.setEvent st op).redigest
          (s.computeDigest op.key.ns record.value record.nseq)
        .ok ((record, event),
          { nseq := toColumn (st.nseq + 1)
            auditEpoch := t.auditEpoch
            records := t.records.insert op.key.key (liveCols record)
            values := t.values.insert op.key.key (s.codec.writeValue record.value)
            events := t.events ++ [s.eventRow event] }) := by
  have hprior := h.priorValue hc op.key.key
  have hseq := h.ofColumn_nseq (Nat.lt_of_succ_lt hn)
  rw [SqliteStore.setBody, h.readMeta (Nat.lt_of_succ_lt hn)]
  rcases hr : st.records[op.key.key]? with _ | r
  all_goals
    rw [hr] at hprior
    simp only [bind, Except.bind, Option.map_none, Option.map_some, Option.getD_none,
      Option.getD_some, checkVersion_eq, prevVersion, Option.isSome_none,
      Option.isSome_some, Bool.false_and, Bool.not_false, Bool.and_self, hseq, h.ofColumn_epoch,
      hservice] at hprior ⊢
    cases versionRefused op.expectedVersion _ with
    | some => rfl
    | none =>
      rw [hprior]
      dsimp only
      rw [h.insertEvent hn]
      · simp only [setRecord, MemoryStore.setEvent, hr]
        cases op.merge <;> rfl
      · rfl
      · rfl

theorem Mirrors.deleteBody (op : DeleteCommit) :
    s.deleteBody op t =
      match st.records[op.key.key]? with
      | none => .error .notFound
      | some existing =>
        match versionRefused op.expectedVersion existing.version with
        | some e => .error e
        | none =>
          let event := (m.deleteEvent st existing op).redigest
            (s.computeDigest op.key.ns MemoryStore.tombstoneValue (st.nseq + 1))
          .ok (event,
            { nseq := toColumn (st.nseq + 1)
              auditEpoch := t.auditEpoch
              records := t.records.erase op.key.key
              values := t.values.erase op.key.key
              events := t.events ++ [s.eventRow event] }) := by
  have hread := h.mappingRead hc op.key.key
  rw [SqliteStore.deleteBody, h.readMeta (Nat.lt_of_succ_lt hn)]
  cases hr : st.records[op.key.key]? with
  | none => rfl
  | some r =>
    rw [hr] at hread
    simp only [bind, Except.bind, Option.map_some, checkVersion_eq,
      h.ofColumn_nseq (Nat.lt_of_succ_lt hn), h.ofColumn_epoch, hservice]
    cases versionRefused op.expectedVersion r.version with
    | some => rfl
    | none =>
      rw [hread]
      rw [h.insertEvent hn] <;> rfl

theorem Mirrors.completeBody (op : CompleteCommit) :
    s.completeBody op t =
      match st.records[op.key.key]? with
      | none => .error .notFound
      | some record =>
        match completeRefused record op with
        | some e => .error e
        | none =>
          let event := (m.completeEvent st record op).redigest
            (s.computeDigest op.key.ns record.value (st.nseq + 1))
          let record := completeRecord st record op
          .ok (({ record with key := op.key }, event),
            { nseq := toColumn (st.nseq + 1)
              auditEpoch := t.auditEpoch
              records := t.records.insert op.key.key (liveCols record)
              values := t.values
              events := t.events ++ [s.eventRow event] }) := by
  have hread := h.mappingRead hc op.key.key
  rw [SqliteStore.completeBody, h.readMeta (Nat.lt_of_succ_lt hn)]
  cases hr : st.records[op.key.key]? with
  | none => rfl
  | some r =>
    rw [hr] at hread
    have hread' : ∀ t' : NamespaceTables, t'.values = t.values →
        s.mappingRead t' op.key.key = .ok (some r.value) := by
      intro t' ht'
      have hsame : s.mappingRead t' op.key.key = s.mappingRead t op.key.key := by
        rw [SqliteStore.mappingRead, SqliteStore.mappingRead, ht']
      exact hsame.trans hread
    simp only [bind, Except.bind, Option.map_some, h.ofColumn_nseq (Nat.lt_of_succ_lt hn),
      hservice, Bool.false_eq_true, if_false, completeRefused]
    split
    · rfl
    split
    · rfl
    split
    · rfl
    rw [hread']
    · dsimp only
      rw [h.insertEvent hn]
      · simp only [SqliteStore.bumpNsNseq, SqliteStore.upsertRecordMeta, h.ofColumn_epoch]
        rfl
      · rfl
      · rfl
    · rfl

end

/-- Both stores after so many calls on registered namespaces. -/
structure Related (names : List NamespaceName) (n : Nat) (s : SqliteStore) (m : MemoryStore) :
    Prop where
  service : s.service = m.service
  codec : s.codec.Faithful
  mirrors : ∀ ns ∈ names, ∃ t, s.tables ns = some t ∧ Mirrors s ns n t (m.state ns)

/-- Counters of calls are read from signed columns, and values from their text. -/
def StoreCall.Allowed (names : List NamespaceName) (c : StoreCall) : Prop :=
  c.ns ∈ names ∧
    match c with
    | .set op => Storable recursionLimit op.newValue
    | .eventsSince _ since => since < 2 ^ 63
    | _ => True

section

variable {names : List NamespaceName} {n : Nat} {s : SqliteStore} {m : MemoryStore}

theorem Related.later (h : Related names n s m) : Related names (n + 1) s m where
  __ := h
  mirrors ns hns := by
    obtain ⟨t, ht, hm⟩ := h.mirrors ns hns
    exact ⟨t, ht, hm.later⟩

theorem Related.refused (h : Related names n s m) (ns : NamespaceName) :
    Related names (n + 1) s (m.put ns (m.state ns)) where
  __ := h
  mirrors ns' hns' := by
    obtain ⟨t, ht, hm⟩ := h.mirrors ns' hns'
    rw [MemoryStore.state_put_state]
    exact ⟨t, ht, hm.later⟩

variable {ns : NamespaceName} {t : NamespaceTables} {st : NamespaceState}

theorem Related.put (h : Related names n s m) (hm : Mirrors s ns (n + 1) t st) :
    Related names (n + 1) (s.put ns t) (m.put ns st) where
  __ := h
  mirrors ns' hns' := by
    by_cases hns : ns' = ns
    · subst hns
      rw [MemoryStore.state_put_self]
      exact ⟨t, Function.update_self .., { hm with }⟩
    · obtain ⟨t', ht', hm'⟩ := h.mirrors ns' hns'
      rw [MemoryStore.state_put_of_ne m hns]
      exact ⟨t', (Function.update_of_ne hns ..).trans ht', { hm'.later with }⟩

theorem transaction_of_tables {α : Type} (ht : s.tables ns = some t)
    (body : NamespaceTables → Except StoreError (α × NamespaceTables)) :
    s.transaction ns body =
      match body t with
      | .error e => (.error e, s)
      | .ok (a, t) => (.ok a, s.put ns t) := by
  rcases hbody : body t with e | ⟨a, t⟩ <;> simp only [SqliteStore.transaction, ht, hbody]

/-- One call: the same answer, and the stores stay in step. -/
def Agree (names : List NamespaceName) (n : Nat) (a : StoreReply × SqliteStore)
    (b : StoreReply × MemoryStore) : Prop :=
  plainReply a.1 = plainReply b.1 ∧ Related names n a.2 b.2

theorem wholeRecord_key {key : RecordKey} (h : key.isWholeRecord = true) :
    key = ⟨key.ns, key.key, []⟩ := by
  obtain ⟨_, k, path⟩ := key
  rw [show path = [] from isEmpty_iff.mp h]

theorem prevVersion_le (h : Mirrors s ns n t st) (k : String) :
    prevVersion st.records[k]? ≤ st.nseq := by
  cases hr : st.records[k]? with
  | none => exact Nat.zero_le _
  | some r => exact (h.rows k r hr).version

theorem Mirrors.finalValue (h : Mirrors s ns n t st) {op : SetCommit}
    (hvalue : Storable recursionLimit op.newValue) :
    Storable recursionLimit
      (MemoryStore.finalValue op.merge st.records[op.key.key]? op.newValue) := by
  cases hr : st.records[op.key.key]? with
  | none => cases op.merge <;> exact hvalue
  | some r =>
    cases op.merge with
    | replace => exact hvalue
    | patch => exact (h.rows _ r hr).value.mergePatch hvalue

variable (h : Related names n s m)
include h

theorem Related.set (hn : n + 1 < 2 ^ 63) {op : SetCommit}
    (hns : op.key.ns ∈ names) (hvalue : Storable recursionLimit op.newValue) :
    Agree names (n + 1) (s.answer (.set op)) (m.answer (.set op)) := by
  obtain ⟨t, ht, hm⟩ := h.mirrors _ hns
  simp only [SqliteStore.answer, MemoryStore.answer, SqliteStore.commitSet, MemoryStore.commitSet,
    MemoryStore.setRefused]
  cases hwhole : op.key.isWholeRecord with
  | false => exact ⟨rfl, h.later⟩
  | true =>
    cases MemoryStore.reserved op.newValue with
    | true => exact ⟨rfl, h.refused _⟩
    | false =>
      rw [transaction_of_tables ht, hm.setBody hn h.codec h.service]
      cases versionRefused op.expectedVersion
          (prevVersion (m.state op.key.ns).records[op.key.key]?) with
      | some => exact ⟨rfl, h.refused _⟩
      | none =>
        have hprev := prevVersion_le hm op.key.key
        have hfits : RowFits op.key.ns ((m.state op.key.ns).nseq + 1) op.key.key
            (setRecord (m.state op.key.ns) op) :=
          ⟨wholeRecord_key hwhole, Nat.succ_le_succ hprev, le_rfl, hm.finalValue hvalue⟩
        refine ⟨rfl, h.put (hm.append rfl rfl (Lib.Maps.getElem?_insert_eq _ op.key.key _)
          (Lib.Maps.getElem?_insert_eq _ _ _) (Lib.Maps.getElem?_insert_eq _ _ _) rfl
          ⟨rfl, le_rfl, Nat.succ_le_succ hprev, hm.epoch.1, rfl, tsToDt_tsToDt _⟩ rfl ?_)⟩
        rintro r ⟨⟩
        exact hfits

theorem Related.delete (hn : n + 1 < 2 ^ 63) {op : DeleteCommit} (hns : op.key.ns ∈ names) :
    Agree names (n + 1) (s.answer (.delete op)) (m.answer (.delete op)) := by
  obtain ⟨t, ht, hm⟩ := h.mirrors _ hns
  simp only [SqliteStore.answer, MemoryStore.answer, SqliteStore.commitDelete]
  cases hwhole : op.key.isWholeRecord with
  | false =>
    simp only [MemoryStore.commitDelete, hwhole]
    exact ⟨rfl, h.later⟩
  | true =>
    rw [MemoryStore.commitDelete_eq m op hwhole, transaction_of_tables ht,
      hm.deleteBody hn h.codec h.service]
    cases hr : (m.state op.key.ns).records[op.key.key]? with
    | none => exact ⟨rfl, h.later⟩
    | some r =>
      dsimp only
      cases versionRefused op.expectedVersion r.version with
      | some => exact ⟨rfl, h.later⟩
      | none =>
        have hv := (hm.rows _ r hr).version
        exact ⟨rfl, h.put (hm.append rfl rfl (Lib.Maps.getElem?_erase_eq _ op.key.key)
          (Lib.Maps.getElem?_erase_eq _ _) (Lib.Maps.getElem?_erase_eq _ _) rfl
          ⟨rfl, le_rfl, Nat.succ_le_succ hv, hm.epoch.1, rfl, tsToDt_tsToDt _⟩ rfl
          fun _ h => by cases h)⟩

theorem Related.complete (hn : n + 1 < 2 ^ 63) {op : CompleteCommit} (hns : op.key.ns ∈ names) :
    Agree names (n + 1) (s.answer (.complete op)) (m.answer (.complete op)) := by
  obtain ⟨t, ht, hm⟩ := h.mirrors _ hns
  simp only [SqliteStore.answer, MemoryStore.answer, SqliteStore.commitComplete]
  rw [MemoryStore.commitComplete_eq, transaction_of_tables ht,
    hm.completeBody hn h.codec h.service]
  cases hr : (m.state op.key.ns).records[op.key.key]? with
  | none => exact ⟨rfl, h.later⟩
  | some r =>
    dsimp only
    cases completeRefused r op with
    | some => exact ⟨rfl, h.later⟩
    | none =>
      have hfit := hm.rows _ r hr
      have hrow : RowFits op.key.ns ((m.state op.key.ns).nseq + 1) op.key.key
          (completeRecord (m.state op.key.ns) r op) :=
        ⟨hfit.key, Nat.succ_le_succ hfit.version, le_rfl, hfit.value⟩
      -- the value's text stays where it is
      have hvalues : ∀ j : String, t.values[j]? = if j = op.key.key then
          (some (completeRecord (m.state op.key.ns) r op)).map
            (fun r => s.codec.writeValue r.value) else t.values[j]? := by
        intro j
        split
        · next hj => rw [hj, hm.values, hr]; rfl
        · rfl
      refine ⟨?_, h.put (hm.append rfl rfl (Lib.Maps.getElem?_insert_eq _ op.key.key _)
        (Lib.Maps.getElem?_insert_eq _ _ _) hvalues rfl
        ⟨rfl, le_rfl, Nat.succ_le_succ hfit.version, hm.epoch.1, rfl, tsToDt_tsToDt _⟩
        rfl ?_)⟩
      · simp only [completeRecord, hfit.key]
        rfl
      · rintro r' ⟨⟩
        exact hrow

theorem Related.get (hn : n < 2 ^ 63) {key : RecordKey}
    (hns : key.ns ∈ names) : Agree names (n + 1) (s.answer (.get key)) (m.answer (.get key)) := by
  obtain ⟨t, ht, hm⟩ := h.mirrors _ hns
  refine ⟨?_, h.later⟩
  simp only [SqliteStore.answer, MemoryStore.answer, hm.get hn h.codec ht, MemoryStore.get_eq]
  cases hr : (m.state key.ns).records[key.key]? with
  | none => rfl
  | some r =>
    simp only [plainReply, Except.map, StoreAnswer.plain, Record.plain, (hm.rows _ r hr).key]

theorem Related.list (hn : n < 2 ^ 63) (hns : ns ∈ names) :
    Agree names (n + 1) (s.answer (.list ns)) (m.answer (.list ns)) := by
  obtain ⟨t, ht, hm⟩ := h.mirrors _ hns
  refine ⟨?_, h.later⟩
  simp only [SqliteStore.answer, MemoryStore.answer, hm.list hn h.codec ht, MemoryStore.list_eq]
  rfl

theorem Related.eventsSince (hn : n < 2 ^ 63) (hns : ns ∈ names)
    {since : Nat} (hs : since < 2 ^ 63) :
    Agree names (n + 1) (s.answer (.eventsSince ns since)) (m.answer (.eventsSince ns since)) := by
  obtain ⟨t, ht, hm⟩ := h.mirrors _ hns
  obtain ⟨_, hes, hplain⟩ := hm.eventsSince hn h.codec ht hs
  refine ⟨?_, h.later⟩
  simp only [SqliteStore.answer, MemoryStore.answer, hes, MemoryStore.eventsSince_eq, plainReply,
    Except.map, StoreAnswer.plain, hplain]

theorem Related.call (hn : n + 1 < 2 ^ 63) {c : StoreCall}
    (hc : c.Allowed names) : Agree names (n + 1) (s.answer c) (m.answer c) := by
  obtain ⟨hns, hc⟩ := hc
  cases c with
  | set => exact h.set hn hns hc
  | complete => exact h.complete hn hns
  | delete => exact h.delete hn hns
  | get => exact h.get (Nat.lt_of_succ_lt hn) hns
  | list => exact h.list (Nat.lt_of_succ_lt hn) hns
  | eventsSince => exact h.eventsSince (Nat.lt_of_succ_lt hn) hns hc

theorem Related.answers {calls : List StoreCall}
    (hn : n + calls.length < 2 ^ 63) (hc : ∀ c ∈ calls, c.Allowed names) :
    (s.answers calls).map plainReply = (m.answers calls).map plainReply := by
  induction calls generalizing n s m with
  | nil => rfl
  | cons c calls ih =>
    rw [length_cons] at hn
    obtain ⟨hreply, hnext⟩ := h.call (by omega) (hc c mem_cons_self)
    have hrest := ih hnext (by omega) fun d hd => hc d (mem_cons_of_mem _ hd)
    rw [SqliteStore.answers, MemoryStore.answers, map_cons, map_cons, hreply, hrest]

omit h

end

/-- A fresh SQLite store with these namespaces registered. -/
def SqliteStore.registered (s : SqliteStore) (names : List NamespaceName) : SqliteStore :=
  names.foldl SqliteStore.registerNamespace s

def SqliteStore.Fresh (s : SqliteStore) : Prop := ∀ ns t, s.tables ns = some t → t = .new

theorem SqliteStore.tables_registerNamespace (h : s.Fresh) (ns ns' : NamespaceName) :
    (s.registerNamespace ns).tables ns' = if ns' = ns then some .new else s.tables ns' := by
  unfold registerNamespace
  cases ht : s.tables ns with
  | some t =>
    by_cases heq : ns' = ns
    · rw [if_pos heq, heq, ← h ns t ht]
      exact ht
    · rw [if_neg heq]
  | none => exact Function.update_apply ..

theorem related_registered {m : MemoryStore} (names : List NamespaceName)
    (hservice : s.service = m.service) (hcodec : s.codec.Faithful) (hfresh : s.Fresh)
    (hnew : ∀ ns, m.state ns = .new) {done : List NamespaceName}
    (hdone : ∀ ns ∈ done, s.tables ns = some .new) :
    Related (names ++ done) 0 (s.registered names) m := by
  induction names generalizing s done with
  | nil =>
    refine ⟨hservice, hcodec, fun ns hns => ⟨.new, hdone ns hns, ?_⟩⟩
    rw [hnew]
    exact mirrors_new _ _
  | cons a names ih =>
    have hfields : (s.registerNamespace a).service = s.service ∧
        (s.registerNamespace a).codec = s.codec := by
      unfold SqliteStore.registerNamespace
      cases s.tables a <;> exact ⟨rfl, rfl⟩
    obtain ⟨hs, hc⟩ := hfields
    have htables := SqliteStore.tables_registerNamespace hfresh a
    have hfresh' : (s.registerNamespace a).Fresh := by
      intro ns t ht
      rw [htables] at ht
      split at ht
      · cases ht
        rfl
      · exact hfresh ns t ht
    have hdone' : ∀ ns ∈ a :: done, (s.registerNamespace a).tables ns = some .new := by
      intro ns hns
      rw [htables]
      split
      · rfl
      · next hne => exact hdone ns ((mem_cons.mp hns).resolve_left hne)
    have h := ih (hs.trans hservice) (hc.symm ▸ hcodec) hfresh' hdone'
    exact ⟨h.service, h.codec, fun ns hns => h.mirrors ns (by simp_all; tauto)⟩

/-- The memory store and the SQLite store give the same answers to every sequence of calls on
registered namespaces. -/
theorem stores_answer_alike (service : String)
    (memoryDigest sqliteDigest : NamespaceName → PropValue → Nat → String) (codec : JsonCodec)
    (texts : TextTables) (hcodec : codec.Faithful) (names : List NamespaceName)
    (calls : List StoreCall) (hcalls : ∀ c ∈ calls, c.Allowed names)
    (hlength : calls.length < 2 ^ 63) :
    (((SqliteStore.new service sqliteDigest codec texts).registered names).answers calls).map
        plainReply =
      ((MemoryStore.new service memoryDigest).answers calls).map plainReply := by
  have h : Related (names ++ []) 0
      ((SqliteStore.new service sqliteDigest codec texts).registered names)
      (MemoryStore.new service memoryDigest) :=
    related_registered names rfl hcodec (fun _ _ h => by cases h) (fun _ => rfl) nofun
  rw [append_nil] at h
  exact h.answers (by omega) hcalls

private def accountsName : NamespaceName := ⟨"accounts", by decide⟩

private def accountKey : RecordKey := ⟨accountsName, "a", []⟩

private def setAccount (v : PropValue) : SetCommit where
  key := accountKey
  newValue := v
  expectedVersion := none
  merge := .patch
  lifecycle := none
  actor := ⟨"maild", by decide⟩
  cause := none
  tsMs := 0

private def plainTexts : TextTables := ⟨id, fun c => c.toString, Char.isAlphanum⟩

private def plainCodec : JsonCodec := serdeJson (fun _ => "") (fun _ => none) id

private def freshSqlite : SqliteStore :=
  (SqliteStore.new "maild" (fun _ _ _ => "") plainCodec plainTexts).registered [accountsName]

private def freshMemory : MemoryStore := MemoryStore.new "maild" fun _ _ _ => ""

theorem stores_answer_alike_two :
    (freshSqlite.answers [.set (setAccount (.int 5)), .get accountKey]).map plainReply =
      (freshMemory.answers [.set (setAccount (.int 5)), .get accountKey]).map plainReply := by
  refine stores_answer_alike "maild" _ _ plainCodec plainTexts (serdeJson_faithful _ _ _)
    [accountsName] _ ?_ (by decide)
  intro c hc
  simp only [mem_cons, not_mem_nil, or_false] at hc
  rcases hc with rfl | rfl
  · exact ⟨mem_singleton_self _, .int _ 5⟩
  · exact ⟨mem_singleton_self _, trivial⟩

/-- The first set of a record, and what a get then reads from its text. -/
theorem SqliteStore.get_after_set (hc : s.codec.Faithful) {op : SetCommit}
    (ht : s.tables op.key.ns = some .new) (hwhole : op.key.isWholeRecord = true)
    (hfree : MemoryStore.reserved op.newValue = false) (hany : op.expectedVersion = none)
    {v : PropValue} (hv : s.codec.readValue (s.codec.writeValue op.newValue) = some v) :
    (s.answer (.set op)).2.get op.key = .ok ⟨⟨op.key, v, 1, 1, op.lifecycle⟩, 1⟩ := by
  have hm := mirrors_new s op.key.ns
  have hbody := hm.setBody (by decide) hc (m := MemoryStore.new s.service s.computeDigest) rfl op
  have hfinal : (setRecord .new op).value = op.newValue := by
    rw [setRecord]
    cases op.merge <;> rfl
  have hversion : (setRecord .new op).version = 1 := by
    rfl
  have hone : ofColumn (toColumn 1) = 1 := ofColumn_toColumn (by decide)
  simp only [hany, versionRefused, hfinal] at hbody
  simp only [SqliteStore.answer, SqliteStore.commitSet, hwhole, hfree, Bool.not_true,
    Bool.false_eq_true, if_false, transaction_of_tables ht, hbody, SqliteStore.get, SqliteStore.put,
    Function.update_self, Std.ExtTreeMap.getElem?_insert_self, liveCols, SqliteStore.metaCols,
    lifecycleFromCols_toCols, SqliteStore.mappingRead, SqliteStore.readText, hv, hversion]
  exact congrArg Except.ok (by rw [hone]; rfl)

private def valueOf : StoreReply → Option PropValue
  | .ok (.found snapshot) => some snapshot.value.value
  | _ => none

private theorem reads_signed : plainCodec.readValue (plainCodec.writeValue (.uint 5)) =
    some (.int 5) := by
  have hrange : (Lib.Json.number (5 : UInt64).toNat).InRange :=
    show Lib.Json.Fits (5 : UInt64).toNat by decide
  have hparse := Lib.Json.parse_print hrange (show _ ≤ recursionLimit from Nat.zero_le _)
  have hlt : ((5 : UInt64).toNat : Int) < 2 ^ 63 := by decide
  simp only [plainCodec, serdeJson, PropValue.toJson, String.toList_ofList, hparse,
    PropValue.ofJson, Lib.Json.fold_number, ofJsonCases, if_pos hlt]
  rfl

/-- A small unsigned number comes back from its text as a signed one. -/
theorem unsigned_value_read_signed :
    (freshSqlite.answers [.set (setAccount (.uint 5)), .get accountKey]).map plainReply ≠
      (freshMemory.answers [.set (setAccount (.uint 5)), .get accountKey]).map plainReply := by
  intro h
  have hsql : (freshSqlite.answer (.set (setAccount (.uint 5)))).2.get accountKey =
      .ok ⟨⟨accountKey, .int 5, 1, 1, none⟩, 1⟩ :=
    SqliteStore.get_after_set (serdeJson_faithful _ _ _) (show freshSqlite.tables
      (setAccount (.uint 5)).key.ns = some .new from rfl) rfl rfl rfl reads_signed
  have hlast := (List.cons.inj (List.cons.inj h).2).1
  have hread : valueOf (plainReply
      (((freshSqlite.answer (.set (setAccount (.uint 5)))).2.get accountKey).map .found)) =
        some (.uint 5) := congrArg valueOf hlast
  rw [hsql] at hread
  cases hread

end Cosmix.Props
