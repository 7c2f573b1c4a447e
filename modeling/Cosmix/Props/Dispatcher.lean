/- source: cosmix-lib-props-store/src/dispatcher.rs, bus/mutation.rs
   digest: The fan-out task publishes every event of its namespace once and in order. -/

import Cosmix.Props.Runtime

namespace Cosmix.Props

open List

/-- A field of a schema, as far as the projections read it. -/
structure FieldSchema where
  name : String
  secret : Bool

abbrev PropertySchema := List FieldSchema

/-- The members of a records.changed body; what the source leaves out is none. -/
structure RecordsChangedBody where
  (ns key kind verb : String)
  (nseq version auditEpoch : Nat)
  actor : String
  ts : Int
  fieldsChanged : Option (List String)
  secretFieldsChangedCount : Option Nat
  (lifecycle reason cause : Option String)

structure AuditBody where
  (ns key verb : String)
  (version nseq auditEpoch : Nat)
  actor : String
  atMs : Int
  auditDigest : String
  fieldsChanged : Option (List String)

def Lifecycle.asStateStr : Lifecycle → String
  | .provisioning => "provisioning"
  | .active => "active"
  | .failed _ => "failed"

def Lifecycle.reason : Lifecycle → Option String
  | .failed r => some r
  | _ => none

def serdeKind : EventKind → String
  | .created => "created"
  | .updated => "updated"
  | .deleted => "deleted"
  | .completed => "completed"
  | .reconciled => "reconciled"

def visibleFields (schema : PropertySchema) (e : RecordEvent) : Option (List String) :=
  let visible := e.fieldsChanged.filter fun f => !schema.any fun s => s.name == f && s.secret
  if visible.isEmpty then none else some visible

variable (service : String)

def projectRecordsChanged (schema : PropertySchema) (e : RecordEvent) : RecordsChangedBody :=
  -- only a completion shows the lifecycle it left
  let shown := if e.kind = .completed then e.lifecycle else none
  { ns := e.key.ns.text
    key := e.key.key
    kind := serdeKind e.kind
    verb := e.kind.verbFor service
    nseq := e.nseq
    version := e.version
    auditEpoch := e.auditEpoch
    actor := e.actor.token
    ts := e.atMs
    fieldsChanged := visibleFields schema e
    secretFieldsChangedCount :=
      if 0 < e.secretFieldsChangedCount then some e.secretFieldsChangedCount else none
    lifecycle := shown.map Lifecycle.asStateStr
    reason := shown.bind Lifecycle.reason
    cause := e.cause }

def projectAuditRow (schema : PropertySchema) (e : RecordEvent) : AuditBody where
  ns := e.key.ns.text
  key := e.key.key
  verb := e.kind.verbFor service
  version := e.version
  nseq := e.nseq
  auditEpoch := e.auditEpoch
  actor := e.actor.token
  atMs := e.atMs
  auditDigest := e.auditDigest
  fieldsChanged := visibleFields schema e

def recordsChangedTopic : String := service ++ ".props.records.changed"

def auditTopic : String := service ++ ".props.audit"

inductive Body
  | recordsChanged (body : RecordsChangedBody)
  | audit (body : AuditBody)

/-- What is handed to the publisher: a topic and a body. -/
abbrev Published := String × Body

/-- The dispatcher waits for a permit, is about to read, or to publish the first event read or its
audit row. -/
inductive DispatchPc
  | waiting
  | draining
  | records (e : RecordEvent) (rest : List RecordEvent)
  | audit (e : RecordEvent) (rest : List RecordEvent)
  | stopped

structure Dispatcher where
  cursor : Nat
  pc : DispatchPc
  published : List Published

/-- The calls of a namespace and its dispatcher. -/
structure Live where
  sys : System
  disp : Dispatcher

inductive LiveAct
  | calls (a : Act)
  | dispatch
  | shutdown

namespace Live

variable (rt : Runtime)

/-- The cursor is the event count the dispatcher finds when it is spawned. -/
def spawnDispatcher (sys : System) : Live :=
  ⟨sys, ⟨(sys.store.list rt.spec.name).observedNseq, .waiting, []⟩⟩

def recordsChanged (rt : Runtime) (schema : PropertySchema) (e : RecordEvent) : Published :=
  (recordsChangedTopic rt.service, .recordsChanged (projectRecordsChanged rt.service schema e))

variable (schema : PropertySchema)

def auditRow (e : RecordEvent) : Published :=
  (auditTopic rt.service, .audit (projectAuditRow rt.service schema e))

/-- On to the next event that was read, or to the next read. -/
def next : List RecordEvent → DispatchPc
  | [] => .draining
  | e :: rest => .records e rest

/-- One step of the dispatcher. A publish that fails is only logged. -/
def runDispatcher (l : Live) : Option Live :=
  let d := l.disp
  match d.pc with
  | .waiting =>
    if l.sys.permit then
      some ⟨{ l.sys with permit := false }, { d with pc := .draining }⟩
    else none
  | .draining =>
    match l.sys.store.eventsSince rt.spec.name d.cursor with
    | [] => some ⟨l.sys, { d with pc := .waiting }⟩
    | e :: rest => some ⟨l.sys, { d with pc := .records e rest }⟩
  | .records e rest =>
    some ⟨l.sys, { d with
      pc := .audit e rest, published := d.published ++ [recordsChanged rt schema e] }⟩
  | .audit e rest =>
    some ⟨l.sys, ⟨e.nseq, next rest, d.published ++ [auditRow rt schema e]⟩⟩
  | .stopped => none

def step (rt : Runtime) (schema : PropertySchema) (l : Live) : LiveAct → Option Live
  | .calls a => (l.sys.step rt a).map fun sys => { l with sys }
  | .dispatch => l.runDispatcher rt schema
  | .shutdown =>
    match l.disp.pc with
    | .waiting => some { l with disp := { l.disp with pc := .stopped } }
    | _ => none

def run (l : Live) (acts : List LiveAct) : Option Live :=
  Lib.runFrom (step rt schema) l acts

def bodies (e : RecordEvent) : List Published :=
  [recordsChanged rt schema e, auditRow rt schema e]

end Live

theorem filter_nseq_eq_drop (es : List RecordEvent) (a c : Nat)
    (h : es.map RecordEvent.nseq = range' (a + 1) es.length) :
    (es.filter fun e => c < e.nseq) = es.drop (c - a) := by
  induction es generalizing a with
  | nil => rw [filter_nil, drop_nil]
  | cons e es ih =>
    obtain ⟨he, hes⟩ := cons.inj h
    have hrest := ih (a + 1) hes
    rw [filter_cons, hrest, he]
    by_cases hc : c < a + 1
    · rw [decide_eq_true hc, if_pos rfl, show c - (a + 1) = 0 by omega, show c - a = 0 by omega,
        drop_zero, drop_zero]
    · rw [decide_eq_false hc, if_neg Bool.false_ne_true, show c - a = c - (a + 1) + 1 by omega,
        drop_succ_cons]

/-- The events of a namespace are numbered from one on. -/
def MemoryStore.Counted (s : MemoryStore) (ns : NamespaceName) : Prop :=
  (s.state ns).events.map RecordEvent.nseq = range' 1 (s.state ns).nseq

namespace MemoryStore

variable {s : MemoryStore} {ns : NamespaceName}

theorem Counted.length (h : s.Counted ns) : (s.state ns).events.length = (s.state ns).nseq := by
  have := congrArg List.length h
  rwa [length_map, length_range'] at this

theorem Counted.eventsSince (h : s.Counted ns) (c : Nat) :
    s.eventsSince ns c = (s.state ns).events.drop c := by
  have hfilter : s.eventsSince ns c = (s.state ns).events.filter fun e => c < e.nseq := by
    unfold MemoryStore.eventsSince state
    cases s.namespaces ns <;> rfl
  rw [hfilter, filter_nseq_eq_drop _ 0 c, Nat.sub_zero]
  rw [h.length]
  exact h

theorem Counted.nseq (h : s.Counted ns) {j : Nat}
    {e : RecordEvent} (he : (s.state ns).events[j]? = some e) : e.nseq = j + 1 := by
  have hmap : ((s.state ns).events.map RecordEvent.nseq)[j]? = some e.nseq := by
    rw [getElem?_map, he]
    rfl
  have hlt : j < (s.state ns).nseq := h.length ▸ (List.getElem?_eq_some_iff.mp he).1
  rw [h, getElem?_range' hlt, Option.some.injEq] at hmap
  omega

theorem commit_events {s' : MemoryStore} {c : Commit} {row : Option Record} {ev : RecordEvent}
    (h : s.commit c = (.ok (row, ev), s')) (ns : NamespaceName) (hc : s.Counted ns) :
    s'.Counted ns ∧ (s.state ns).events <+: (s'.state ns).events := by
  obtain ⟨_, rfl, happ⟩ := commit_accepted h
  by_cases hns : ns = c.key.ns
  · subst hns
    rw [Counted, state_put_self, happ.events]
    exact ⟨happ.events ▸ happ.counted hc, prefix_append _ _⟩
  · rw [Counted, state_put_of_ne s hns]
    exact ⟨hc, prefix_refl _⟩

end MemoryStore

namespace System

def Due (s : System) : Prop := ∃ (i : Nat) (p : Proc), s.procs[i]? = some p ∧ p.due = true

theorem procs_after_self {s : System} {i : Nat} {p : Proc} (hp : s.procs[i]? = some p) (e : Effect) :
    (s.after i e).procs[i]? = some e.proc :=
  getElem?_set_self (List.getElem?_eq_some_iff.mp hp).1

/-- A step appends events only with a notification still to come, and takes one back only to leave
a permit. -/
theorem step_events {rt : Runtime} {s s' : System} {a : Act} (ns : NamespaceName)
    (hc : s.store.Counted ns) (h : s.step rt a = some s') :
    s'.store.Counted ns ∧ (s.store.state ns).events <+: (s'.store.state ns).events ∧
      (s'.Due ∨ s'.permit = true ∨
        (s'.store.state ns = s.store.state ns ∧ s'.permit = s.permit ∧ (s.Due → s'.Due))) := by
  rcases step_cases h with ⟨p, rfl, -, -, -⟩ | ⟨i, -, p, e, rfl, hp, hmoved, rfl⟩
  · refine ⟨hc, prefix_refl _, .inr (.inr ⟨rfl, rfl, ?_⟩)⟩
    rintro ⟨j, q, hq, hdue⟩
    exact ⟨j, q, (getElem?_append_left (List.getElem?_eq_some_iff.mp hq).1).trans hq, hdue⟩
  cases hmoved with
  | @quiet _ p' store' same due due' pin fresh checked =>
    refine ⟨?_, ?_, .inr (.inr ⟨same ns, Bool.or_false _, ?_⟩)⟩
    · show store'.Counted ns
      rw [MemoryStore.Counted, same]
      exact hc
    · show _ <+: (store'.state ns).events
      simp only [same, prefix_refl]
    · rintro ⟨j, q, hq, hdue⟩
      refine ⟨j, q, ?_, hdue⟩
      by_cases hj : j = i
      · rw [hj, hp] at hq
        cases hq
        exact absurd hdue (by rw [due]; simp)
      · exact (getElem?_set_ne (Ne.symm hj)).trans hq
  | notify =>
    exact ⟨hc, prefix_refl _, .inr (.inl (Bool.or_true _))⟩
  | set accepted | delete accepted | complete accepted =>
    obtain ⟨hc', hpre⟩ := MemoryStore.commit_events accepted ns hc
    exact ⟨hc', hpre, .inl ⟨i, _, procs_after_self hp _, rfl⟩⟩

end System

namespace Live

def inHand (d : Dispatcher) : List RecordEvent :=
  match d.pc with
  | .records e rest => e :: rest
  | .audit e rest => e :: rest
  | _ => []

/-- The body that went out ahead of its audit row. -/
def ahead (rt : Runtime) (schema : PropertySchema) (d : Dispatcher) : List Published :=
  match d.pc with
  | .audit e _ => [recordsChanged rt schema e]
  | _ => []

/-- A dispatcher has published up to its cursor, and waits only when nothing is left, a permit is
stored, or a notification is due. -/
structure Following (rt : Runtime) (schema : PropertySchema) (c : Nat) (l : Live) : Prop where
  counted : l.sys.store.Counted rt.spec.name
  start_le : c ≤ l.disp.cursor
  cursor_le : l.disp.cursor ≤ (l.sys.store.state rt.spec.name).nseq
  published : l.disp.published =
    (((l.sys.store.state rt.spec.name).events.take l.disp.cursor).drop c).flatMap (bodies rt schema)
      ++ ahead rt schema l.disp
  pending : inHand l.disp <+: (l.sys.store.state rt.spec.name).events.drop l.disp.cursor
  idle : l.disp.pc = .waiting → l.disp.cursor = (l.sys.store.state rt.spec.name).nseq ∨
    l.sys.permit = true ∨ l.sys.Due

variable {rt : Runtime} {schema : PropertySchema} {c : Nat} {l l' : Live} {sys : System}

theorem following_spawn (h : sys.store.Counted rt.spec.name) :
    Following rt schema (sys.store.list rt.spec.name).observedNseq (spawnDispatcher rt sys) := by
  have hcur : (spawnDispatcher rt sys).disp.cursor = (sys.store.state rt.spec.name).nseq :=
    MemoryStore.list_observedNseq _ _
  refine ⟨h, le_rfl, hcur.le, ?_, nil_prefix, fun _ => .inl hcur⟩
  have htake : ((sys.store.state rt.spec.name).events.take
      (sys.store.list rt.spec.name).observedNseq).drop
      (sys.store.list rt.spec.name).observedNseq = [] := by
    rw [drop_eq_nil_iff]
    exact length_take_le _ _
  show [] = flatMap _ (((sys.store.state rt.spec.name).events.take
      (sys.store.list rt.spec.name).observedNseq).drop _) ++ []
  rw [htake]
  rfl

/-- What the calls do leaves the dispatcher behind, but not astray. -/
theorem Following.calls (h : Following rt schema c l) {a : Act}
    (hstep : l.sys.step rt a = some sys) : Following rt schema c { l with sys } := by
  obtain ⟨hc, hpre, hdue⟩ := System.step_events rt.spec.name h.counted hstep
  have hlen := hpre.length_le
  rw [h.counted.length, hc.length] at hlen
  obtain ⟨_, hmore⟩ := hpre
  have hcursor : l.disp.cursor ≤ (l.sys.store.state rt.spec.name).events.length := by
    rw [h.counted.length]
    exact h.cursor_le
  refine ⟨hc, h.start_le, h.cursor_le.trans hlen, ?_, ?_, ?_⟩
  · rw [← hmore, take_append_of_le_length hcursor]
    exact h.published
  · rw [← hmore, drop_append_of_le_length hcursor]
    exact h.pending.trans (prefix_append _ _)
  · intro hw
    rcases hdue with hdue | hpermit | ⟨hsame, hpermit, hkeep⟩
    · exact .inr (.inr hdue)
    · exact .inr (.inl hpermit)
    rw [hsame, hpermit]
    rcases h.idle hw with hcur | hper | hd
    · exact .inl hcur
    · exact .inr (.inl hper)
    · exact .inr (.inr (hkeep hd))

theorem Following.dispatch (h : Following rt schema c l)
    (hstep : l.runDispatcher rt schema = some l') : Following rt schema c l' := by
  obtain ⟨sys, cursor, pc, published⟩ := l
  obtain ⟨hcounted, hstart, hcursor, hpublished, hpending, hidle⟩ := h
  cases pc with
  | waiting =>
    simp only [runDispatcher] at hstep
    split at hstep
    · cases hstep
      exact ⟨hcounted, hstart, hcursor, hpublished, hpending, nofun⟩
    · cases hstep
  | draining =>
    simp only [runDispatcher, hcounted.eventsSince] at hstep
    split at hstep
    · next hnil =>
      cases hstep
      refine ⟨hcounted, hstart, hcursor, hpublished, hpending, fun _ => .inl ?_⟩
      have := drop_eq_nil_iff.mp hnil
      rw [hcounted.length] at this
      exact le_antisymm hcursor this
    · next hcons =>
      cases hstep
      exact ⟨hcounted, hstart, hcursor, hpublished, hcons ▸ prefix_refl _, nofun⟩
  | records =>
    cases hstep
    refine ⟨hcounted, hstart, hcursor, ?_, hpending, nofun⟩
    have hpub : published = _ ++ [] := hpublished
    rw [hpub, append_nil]
    rfl
  | audit e rest =>
    cases hstep
    -- the event is the one at the cursor
    obtain ⟨more, hmore⟩ := hpending
    have hmore' : e :: (rest ++ more) = (sys.store.state rt.spec.name).events.drop cursor := hmore
    have hget : (sys.store.state rt.spec.name).events[cursor]? = some e := by
      rw [← add_zero cursor, ← getElem?_drop, ← hmore']
      rfl
    have hnseq : e.nseq = cursor + 1 := hcounted.nseq hget
    have hlt : cursor < (sys.store.state rt.spec.name).nseq :=
      hcounted.length ▸ (List.getElem?_eq_some_iff.mp hget).1
    have hdrop : (sys.store.state rt.spec.name).events.drop (cursor + 1) = rest ++ more := by
      rw [← drop_drop, ← hmore']
      rfl
    have hstart' : c ≤ cursor := hstart
    refine ⟨hcounted, ?_, ?_, ?_, ?_, ?_⟩
    · show c ≤ e.nseq
      omega
    · show e.nseq ≤ (sys.store.state rt.spec.name).nseq
      omega
    · have hpub : published = _ ++ [recordsChanged rt schema e] := hpublished
      have hahead : ahead rt schema ⟨e.nseq, next rest, published ++ [auditRow rt schema e]⟩ = [] := by
        cases rest <;> rfl
      have htake : ((sys.store.state rt.spec.name).events.take e.nseq).drop c =
          ((sys.store.state rt.spec.name).events.take cursor).drop c ++ [e] := by
        rw [hnseq, take_add_one, hget, drop_append_of_le_length]
        · rfl
        · rw [length_take, hcounted.length]
          omega
      rw [hahead, htake, flatMap_append, hpub, append_nil, append_assoc]
      rfl
    · rw [hnseq, hdrop]
      cases rest with
      | nil => exact nil_prefix
      | cons => exact prefix_append _ _
    · intro hw
      cases rest <;> cases hw
  | stopped => cases hstep

theorem Following.step (h : Following rt schema c l) {a : LiveAct}
    (hstep : l.step rt schema a = some l') : Following rt schema c l' := by
  cases a with
  | calls =>
    obtain ⟨sys, hsys, rfl⟩ := Option.map_eq_some_iff.mp hstep
    exact h.calls hsys
  | dispatch => exact h.dispatch hstep
  | shutdown =>
    obtain ⟨_, _, pc, _⟩ := l
    cases pc with
    | waiting =>
      cases hstep
      exact ⟨h.counted, h.start_le, h.cursor_le, h.published, h.pending, nofun⟩
    | _ => cases hstep

theorem counted_run {digest : NamespaceName → PropValue → Nat → String} {calls : List Commit}
    {acts : List Act}
    (h : System.run rt (.start ((MemoryStore.new rt.service digest).run calls)) acts = some sys)
    (ns : NamespaceName) : sys.store.Counted ns := by
  have hstart : (System.start ((MemoryStore.new rt.service digest).run calls)).store.Counted ns :=
    ((MemoryStore.agrees_new rt.service digest).run calls ns).counted
  exact Lib.runFrom_invariant (P := fun s : System => s.store.Counted ns)
    (fun _ _ _ hc hstep => (System.step_events ns hc hstep).1) hstart h

/-- A dispatcher hands the publisher both bodies of every event since its cursor, in order and once;
when it waits without a permit and no notification is due, it has published every event. -/
theorem dispatcher_publishes_in_order (rt : Runtime) (schema : PropertySchema)
    (digest : NamespaceName → PropValue → Nat → String) (calls : List Commit) (acts₀ : List Act)
    (sys : System)
    (h₀ : System.run rt (.start ((MemoryStore.new rt.service digest).run calls)) acts₀ = some sys)
    (acts : List LiveAct) (l : Live) (h : run rt schema (spawnDispatcher rt sys) acts = some l) :
    let c := (sys.store.list rt.spec.name).observedNseq
    let events := l.sys.store.eventsSince rt.spec.name c
    events.map RecordEvent.nseq = range' (c + 1) events.length ∧
    (∃ n, n ≤ events.length ∧
      (l.disp.published = (events.take n).flatMap (bodies rt schema) ∨
        ∃ e, events[n]? = some e ∧ l.disp.published =
          (events.take n).flatMap (bodies rt schema) ++ [recordsChanged rt schema e])) ∧
    (l.disp.pc = .waiting → l.sys.permit = false → ¬l.sys.Due →
      l.disp.published = events.flatMap (bodies rt schema) ∧
      c + events.length = (l.sys.store.list rt.spec.name).observedNseq) := by
  intro c events
  have hf : Following rt schema c l := Lib.runFrom_invariant
    (fun _ _ _ hl hstep => Following.step hl hstep) (following_spawn (counted_run h₀ _)) h
  have hevents : events = (l.sys.store.state rt.spec.name).events.drop c := hf.counted.eventsSince c
  have hlen : events.length = (l.sys.store.state rt.spec.name).nseq - c := by
    rw [hevents, length_drop, hf.counted.length]
  have hstart := hf.start_le
  have hcursor := hf.cursor_le
  have hpub := hf.published
  rw [drop_take, ← hevents] at hpub
  refine ⟨?_, ⟨l.disp.cursor - c, by omega, ?_⟩, ?_⟩
  · rw [hlen, hevents, map_drop, hf.counted, drop_range', Nat.mul_one, add_comm 1]
  · have hpending := hf.pending
    unfold ahead at hpub
    split at hpub
    · next e rest hpc =>
      refine .inr ⟨e, ?_, hpub⟩
      simp only [inHand, hpc] at hpending
      obtain ⟨more, hmore⟩ := hpending
      rw [hevents, getElem?_drop, show c + (l.disp.cursor - c) = l.disp.cursor + 0 by omega,
        ← getElem?_drop, ← hmore]
      rfl
    · exact .inl (hpub.trans (append_nil _))
  · intro hpc hpermit hdue
    have hcur : l.disp.cursor = (l.sys.store.state rt.spec.name).nseq := by
      rcases hf.idle hpc with hcur | hper | hd
      · exact hcur
      · rw [hpermit] at hper
        cases hper
      · exact absurd hd hdue
    constructor
    · rw [ahead, hpc, append_nil, take_of_length_le (by omega)] at hpub
      exact hpub
    · rw [MemoryStore.list_observedNseq]
      omega

end Live

private def themeRuntime : Runtime where
  service := "desk"
  spec := ⟨⟨"theme", by decide⟩, .singleton "theme", .simple, false, []⟩
  tables := ⟨id, fun _ => "", fun _ => false⟩

private def themeCall : SetCall :=
  ⟨⟨⟨"theme", by decide⟩, "", []⟩, .string "dark", none, .replace, ⟨"desk", by decide⟩, none, 0⟩

namespace Live

/-- One set, one wake-up: both bodies are out when the dispatcher waits again. -/
theorem dispatcher_publishes_one : ∃ l, run themeRuntime [] (spawnDispatcher themeRuntime
        (.start ((MemoryStore.new themeRuntime.service fun _ _ _ => "").run [])))
      (.calls (.set themeCall) :: replicate 4 (.calls (.advance 0 none)) ++
        replicate 5 .dispatch) = some l ∧ l.disp.published.length = 2 ∧ l.disp.published =
      (l.sys.store.eventsSince themeRuntime.spec.name 0).flatMap (bodies themeRuntime []) := by
  obtain ⟨l, hrun, hlen, hpc, hpermit, hprocs⟩ : ∃ l,
      run themeRuntime [] (spawnDispatcher themeRuntime
          (.start ((MemoryStore.new themeRuntime.service fun _ _ _ => "").run [])))
        (.calls (.set themeCall) :: replicate 4 (.calls (.advance 0 none)) ++
          replicate 5 .dispatch) = some l ∧
      l.disp.published.length = 2 ∧ l.disp.pc = .waiting ∧ l.sys.permit = false ∧
      l.sys.procs.map Proc.due = [false] := ⟨_, rfl, rfl, rfl, rfl, rfl⟩
  have hdue : ¬l.sys.Due := by
    rintro ⟨i, p, hp, hd⟩
    have hmem : p.due ∈ l.sys.procs.map Proc.due := mem_map_of_mem (mem_of_getElem? hp)
    rw [hprocs, mem_singleton, hd] at hmem
    cases hmem
  exact ⟨l, hrun, hlen, ((dispatcher_publishes_in_order themeRuntime [] (fun _ _ _ => "") [] []
    _ rfl _ l hrun).2.2 hpc hpermit hdue).1⟩

end Live

end Cosmix.Props
