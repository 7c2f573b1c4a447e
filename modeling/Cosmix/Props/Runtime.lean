/- source: cosmix-lib-props-store/src/runtime.rs, hooks.rs, namespace.rs
   digest: Set and delete calls of one namespace, interleaved at their await points. -/

import Cosmix.Lib.Machine
import Cosmix.Props.Memory

namespace Cosmix.Props

/-- What the standard library knows of texts. -/
structure TextTables where
  debug : String → String
  debugChar : Char → String
  alphanumeric : Char → Bool

def ActorError.display (t : TextTables) : ActorError → String
  | .empty => "actor is empty"
  | .emptySegment => "actor has empty segment"
  | .invalidTokenChar ch => "actor token contains invalid char " ++ t.debugChar ch
  | .invalidUuid segment => "actor segment " ++ t.debug segment ++
      " where an 8-4-4-4-12 hex UUID is required (multi-segment forms are `<token>:<uuid>[:<seq>]`; " ++
      "`daemon:<svc>` takes exactly one suffix)"
  | .invalidSequence => "actor call sequence must be ASCII decimal digits"
  | .tooManySegments => "actor has too many segments"

inductive HookError
  | validation (message : String)
  | hook (message : String)
  deriving DecidableEq

def HookError.message : HookError → String
  | .validation m => m
  | .hook m => m

inductive Cardinality
  | singleton (canonicalKey : String)
  | collection (primaryKeyField : String)
  deriving DecidableEq

inductive NamespaceLifecycle
  | simple | saga
  deriving DecidableEq

/-- What a namespace declares, as far as writes depend on it. -/
structure NamespaceSpec where
  name : NamespaceName
  cardinality : Cardinality
  lifecycle : NamespaceLifecycle
  requireVersion : Bool
  validators : List (PropValue → Except HookError Unit)

inductive RuntimeError
  | hook (e : HookError)
  | store (e : StoreError)
  deriving DecidableEq

structure SetCall where
  key : RecordKey
  value : PropValue
  expectedVersion : Option Nat
  merge : MergeMode
  actor : Actor
  cause : Option String
  tsMs : Int

structure DeleteCall where
  key : RecordKey
  expectedVersion : Option Nat
  actor : Actor
  cause : Option String
  tsMs : Int

structure SetOutcome where
  setEvent : RecordEvent
  completeEvent : Option RecordEvent
  warnings : List String

structure Runtime where
  service : String
  spec : NamespaceSpec
  tables : TextTables

namespace Runtime

def reasonMaxLen : Nat := 256

def asciiGraphic (c : Char) : Bool := '!' ≤ c && c ≤ '~'

/-- A hook's message, made fit for the audit stream. -/
def sanitizeReason (t : TextTables) (s : String) : String := go s.toList ""
where
  go : List Char → String → String
    | [], out => out
    | ch :: rest, out =>
      if reasonMaxLen ≤ out.utf8ByteSize then out.push '…'
      else if ch == '\t' || ch == ' ' || asciiGraphic ch || t.alphanumeric ch then
        go rest (out.push ch)
      else go rest (out.push '?')

def refuse (message : String) : RuntimeError := .hook (.validation message)

variable (rt : Runtime)

/-- A key of another namespace, inside a record, or of the wrong cardinality. -/
def validateKey (key : RecordKey) : Except RuntimeError Unit :=
  if key.ns ≠ rt.spec.name then
    .error (refuse ("key namespace " ++ rt.tables.debug key.ns.text ++
      " does not match runtime namespace " ++ rt.tables.debug rt.spec.name.text))
  else if !key.isWholeRecord then
    .error (refuse "non-empty `field_path` is not supported on set/delete")
  else
    match rt.spec.cardinality with
    | .singleton _ =>
      if !key.key.isEmpty then .error (refuse "Singleton namespace requires empty `key`") else .ok ()
    | .collection _ =>
      if key.key.isEmpty then .error (refuse "Collection namespace requires non-empty `key`")
      else .ok ()

/-- A new or replacing object of a collection carries its key; a patch of a row that is there may
leave it out. -/
def validatePrimaryKey (key : RecordKey) (value : PropValue) (merge : MergeMode)
    (priorExists : Bool) : Except RuntimeError Unit :=
  match rt.spec.cardinality, value with
  | .collection pkField, .object obj =>
    let pkRequired := merge == .replace || (merge == .patch && !priorExists)
    match Fields.get obj pkField with
    | some (.string s) =>
      if s = key.key then .ok ()
      else .error (refuse ("value." ++ rt.tables.debug pkField ++ " must equal record key " ++
        rt.tables.debug key.key))
    | some _ => .error (refuse ("value." ++ rt.tables.debug pkField ++ " must equal record key " ++
        rt.tables.debug key.key))
    | none =>
      if pkRequired then
        .error (refuse ("value must carry " ++ rt.tables.debug pkField ++
          " equal to record key on create/replace"))
      else .ok ()
  | _, _ => .ok ()

/-- The actor of a completion, checked before anything is written. -/
def completeActor : Except RuntimeError (Option Actor) :=
  match rt.spec.lifecycle with
  | .simple => .ok none
  | .saga =>
    match Actor.daemonComplete rt.service with
    | .ok a => .ok (some a)
    | .error e => .error (refuse ("completion actor: " ++ e.display rt.tables))

variable (store : MemoryStore)

/-- The row a call finds before it writes. -/
def prior (key : RecordKey) : Except RuntimeError (Option Record) :=
  match store.get key with
  | .ok snap => .ok (some snap.value)
  | .error .notFound => .ok none
  | .error e => .error (.store e)

def requireVersion (rt : Runtime) (expectedVersion : Option Nat) (message : String) :
    Except RuntimeError Unit :=
  if rt.spec.requireVersion && expectedVersion.isNone then .error (refuse message) else .ok ()

/-- The first validator that fails. -/
def validate (value : PropValue) : List (PropValue → Except HookError Unit) → Except RuntimeError Unit
  | [] => .ok ()
  | validator :: rest =>
    match validator value with
    | .ok () => validate value rest
    | .error e => .error (.hook e)

def startSet (call : SetCall) : Except RuntimeError (Option Actor) := do
  rt.validateKey call.key
  let actor ← rt.completeActor
  rt.requireVersion call.expectedVersion "namespace requires if_version on set"
  let prior ← prior store call.key
  rt.validatePrimaryKey call.key call.value call.merge prior.isSome
  validate call.value rt.spec.validators
  return actor

def startDelete (call : DeleteCall) : Except RuntimeError Unit := do
  rt.validateKey call.key
  rt.requireVersion call.expectedVersion "namespace requires if_version on delete"
  match store.get call.key with
  | .ok _ => .ok ()
  | .error e => .error (.store e)

def initialLifecycle : Option Lifecycle :=
  match rt.spec.lifecycle with
  | .saga => some .provisioning
  | .simple => none

def setCommit (call : SetCall) : SetCommit where
  key := call.key
  newValue := call.value
  expectedVersion := call.expectedVersion
  merge := call.merge
  lifecycle := rt.initialLifecycle
  actor := call.actor
  cause := call.cause
  tsMs := call.tsMs

def deleteCommit (call : DeleteCall) : DeleteCommit where
  key := call.key
  expectedVersion := call.expectedVersion
  actor := call.actor
  cause := call.cause
  tsMs := call.tsMs

/-- The completion is pinned to the version the call's own set produced. -/
def completeCommit (call : SetCall) (record : Record) (lifecycle : Lifecycle) (actor : Actor) :
    CompleteCommit where
  key := call.key
  lifecycle := lifecycle
  expectedVersion := record.version
  actor := actor
  cause := call.cause
  tsMs := call.tsMs

end Runtime

/-- Where a set call stands: what it does next. -/
inductive SetPc
  | start
  | beforeSet (actor : Option Actor)
  | commitSet (actor : Option Actor)
  | notifySet (actor : Option Actor) (record : Record) (event : RecordEvent)
  | afterSet (actor : Option Actor) (record : Record) (event : RecordEvent)
  | commitComplete (actor : Option Actor) (record : Record) (event : RecordEvent)
      (lifecycle : Lifecycle)
  | notifyComplete (event complete : RecordEvent)
  | done (result : Except RuntimeError SetOutcome)

inductive DeletePc
  | start
  | beforeDelete
  | commitDelete
  | notifyDelete (event : RecordEvent)
  | afterDelete (event : RecordEvent)
  | done (result : Except RuntimeError RecordEvent)

inductive Proc
  | set (call : SetCall) (pc : SetPc)
  | delete (call : DeleteCall) (pc : DeletePc)

/-- What a call's step leaves: call, store, whether the dispatcher was notified, and the accepted
write. -/
structure Effect where
  proc : Proc
  store : MemoryStore
  notify : Bool
  committed : Option Commit

namespace Runtime

/-- One step of a set call; the hook's answer is for the steps that wait for one. -/
def stepSet (rt : Runtime) (hook : Option HookError) (store : MemoryStore) (call : SetCall) :
    SetPc → Option Effect
  | .start =>
    match rt.startSet store call with
    | .error e => some ⟨.set call (.done (.error e)), store, false, none⟩
    | .ok actor => some ⟨.set call (.beforeSet actor), store, false, none⟩
  | .beforeSet actor =>
    match hook with
    | some e => some ⟨.set call (.done (.error (.hook e))), store, false, none⟩
    | none => some ⟨.set call (.commitSet actor), store, false, none⟩
  | .commitSet actor =>
    match store.commitSet (rt.setCommit call) with
    | (.error e, store') => some ⟨.set call (.done (.error (.store e))), store', false, none⟩
    | (.ok (record, event), store') =>
      some ⟨.set call (.notifySet actor record event), store', false, some (.set (rt.setCommit call))⟩
  | .notifySet actor record event =>
    some ⟨.set call (.afterSet actor record event), store, true, none⟩
  | .afterSet actor record event =>
    match rt.spec.lifecycle with
    | .simple =>
      let warnings := match hook with
        | none => []
        | some e => [sanitizeReason rt.tables e.message]
      some ⟨.set call (.done (.ok ⟨event, none, warnings⟩)), store, false, none⟩
    | .saga =>
      let lifecycle := match hook with
        | none => Lifecycle.active
        | some e => .failed (sanitizeReason rt.tables e.message)
      some ⟨.set call (.commitComplete actor record event lifecycle), store, false, none⟩
  | .commitComplete actor record event lifecycle =>
    -- without an actor the source would panic; the call was refused at its start
    actor.map fun a =>
      match store.commitComplete (completeCommit call record lifecycle a) with
      | (.error e, store') => ⟨.set call (.done (.error (.store e))), store', false, none⟩
      | (.ok (_, complete), store') =>
        ⟨.set call (.notifyComplete event complete), store', false,
          some (.complete (completeCommit call record lifecycle a))⟩
  | .notifyComplete event complete =>
    some ⟨.set call (.done (.ok ⟨event, some complete, []⟩)), store, true, none⟩
  | .done _ => none

def stepDelete (rt : Runtime) (hook : Option HookError) (store : MemoryStore) (call : DeleteCall) :
    DeletePc → Option Effect
  | .start =>
    match rt.startDelete store call with
    | .error e => some ⟨.delete call (.done (.error e)), store, false, none⟩
    | .ok () => some ⟨.delete call .beforeDelete, store, false, none⟩
  | .beforeDelete =>
    match hook with
    | some e => some ⟨.delete call (.done (.error (.hook e))), store, false, none⟩
    | none => some ⟨.delete call .commitDelete, store, false, none⟩
  | .commitDelete =>
    match store.commitDelete (deleteCommit call) with
    | (.error e, store') => some ⟨.delete call (.done (.error (.store e))), store', false, none⟩
    | (.ok event, store') =>
      some ⟨.delete call (.notifyDelete event), store', false, some (.delete (deleteCommit call))⟩
  | .notifyDelete event => some ⟨.delete call (.afterDelete event), store, true, none⟩
  | .afterDelete event =>
    match hook with
    | some e => some ⟨.delete call (.done (.error (.hook e))), store, false, none⟩
    | none => some ⟨.delete call (.done (.ok event)), store, false, none⟩
  | .done _ => none

def stepProc (rt : Runtime) (hook : Option HookError) (store : MemoryStore) : Proc → Option Effect
  | .set call pc => rt.stepSet hook store call pc
  | .delete call pc => rt.stepDelete hook store call pc

end Runtime

/-- The store, the dispatcher's stored permit, the calls, and the accepted writes with their
callers. -/
structure System where
  store : MemoryStore
  permit : Bool
  procs : List Proc
  trace : List (Nat × Commit)

inductive Act
  | set (call : SetCall)
  | delete (call : DeleteCall)
  | advance (i : Nat) (hook : Option HookError)

namespace System

def start (store : MemoryStore) : System := ⟨store, false, [], []⟩

def add (s : System) (p : Proc) : System := { s with procs := s.procs ++ [p] }

def after (s : System) (i : Nat) (e : Effect) : System where
  store := e.store
  permit := s.permit || e.notify
  procs := s.procs.set i e.proc
  trace := s.trace ++ (e.committed.map (i, ·)).toList

def step (rt : Runtime) (s : System) : Act → Option System
  | .set call => some (s.add (.set call .start))
  | .delete call => some (s.add (.delete call .start))
  | .advance i hook =>
    (s.procs[i]?).bind fun p => (rt.stepProc hook s.store p).map (s.after i)

def run (rt : Runtime) (s : System) (acts : List Act) : Option System :=
  Lib.runFrom (step rt) s acts

end System

namespace Proc

def due : Proc → Bool
  | .set _ (.notifySet ..) => true
  | .set _ (.notifyComplete ..) => true
  | .delete _ (.notifyDelete _) => true
  | _ => false

/-- The record and version an unfinished set call will complete. -/
def pin : Proc → Option (RecordKey × Nat)
  | .set call (.notifySet _ record _) => some (call.key, record.version)
  | .set call (.afterSet _ record _) => some (call.key, record.version)
  | .set call (.commitComplete _ record _ _) => some (call.key, record.version)
  | _ => none

/-- The call has not committed a set. -/
def fresh : Proc → Bool
  | .set _ .start => true
  | .set _ (.beforeSet _) => true
  | .set _ (.commitSet _) => true
  | _ => false

/-- What the checks at its start establish for a set call. -/
structure Passed (rt : Runtime) (call : SetCall) : Prop where
  ns : call.key.ns = rt.spec.name
  primaryKey : ∀ f obj, rt.spec.cardinality = .collection f → call.value = .object obj →
    Fields.get obj f = some (.string call.key.key) ∨
      (Fields.get obj f = none ∧ call.merge = .patch)

/-- A call between its checks and its commit has passed them. -/
def Checked (rt : Runtime) : Proc → Prop
  | .set call (.beforeSet _) => Passed rt call
  | .set call (.commitSet _) => Passed rt call
  | .set call (.notifySet ..) => Passed rt call
  | .set call (.afterSet ..) => Passed rt call
  | .set call (.commitComplete ..) => Passed rt call
  | .delete call .beforeDelete => call.key.ns = rt.spec.name
  | .delete call .commitDelete => call.key.ns = rt.spec.name
  | _ => True

end Proc

/-- The ways a call takes a step: nothing is written, the dispatcher is notified, or one write is
accepted. -/
inductive Moved (rt : Runtime) (store : MemoryStore) : Proc → Effect → Prop
  | quiet {p p' : Proc} {store' : MemoryStore} (same : ∀ ns, store'.state ns = store.state ns)
      (due : p.due = false) (due' : p'.due = false) (pin : p'.pin = none ∨ p'.pin = p.pin)
      (fresh : p'.fresh = true → p.fresh = true) (checked : p.Checked rt → p'.Checked rt) :
      Moved rt store p ⟨p', store', false, none⟩
  | notify {p p' : Proc} (due : p.due = true) (due' : p'.due = false)
      (pin : p'.pin = none ∨ p'.pin = p.pin) (fresh : p'.fresh = false)
      (checked : p.Checked rt → p'.Checked rt) : Moved rt store p ⟨p', store, true, none⟩
  | set {call : SetCall} {actor : Option Actor} {record : Record} {event : RecordEvent}
      {store' : MemoryStore}
      (accepted : store.commit (.set (rt.setCommit call)) = (.ok (some record, event), store')) :
      Moved rt store (.set call (.commitSet actor))
        ⟨.set call (.notifySet actor record event), store', false, some (.set (rt.setCommit call))⟩
  | delete {call : DeleteCall} {event : RecordEvent} {store' : MemoryStore}
      (accepted : store.commit (.delete (Runtime.deleteCommit call)) = (.ok (none, event), store')) :
      Moved rt store (.delete call .commitDelete)
        ⟨.delete call (.notifyDelete event), store', false,
          some (.delete (Runtime.deleteCommit call))⟩
  | complete {call : SetCall} {actor : Actor} {record : Record} {event : RecordEvent}
      {lifecycle : Lifecycle} {row : Record} {event' : RecordEvent} {store' : MemoryStore}
      (accepted : store.commit (.complete (Runtime.completeCommit call record lifecycle actor)) =
        (.ok (some row, event'), store')) :
      Moved rt store (.set call (.commitComplete (some actor) record event lifecycle))
        ⟨.set call (.notifyComplete event event'), store', false,
          some (.complete (Runtime.completeCommit call record lifecycle actor))⟩

namespace Runtime

variable {rt : Runtime} {store : MemoryStore} {hook : Option HookError} {e : Effect}

theorem validateKey_ok {key : RecordKey} (h : rt.validateKey key = .ok ()) :
    key.ns = rt.spec.name := by
  unfold validateKey at h
  split at h
  · cases h
  · next hne => exact not_ne_iff.mp hne

theorem validatePrimaryKey_ok {key : RecordKey} {value : PropValue} {merge : MergeMode}
    {priorExists : Bool} (h : rt.validatePrimaryKey key value merge priorExists = .ok ())
    {f : String} {obj : Fields} (hcard : rt.spec.cardinality = .collection f)
    (hvalue : value = .object obj) :
    Fields.get obj f = some (.string key.key) ∨ (Fields.get obj f = none ∧ merge = .patch) := by
  subst hvalue
  simp only [validatePrimaryKey, hcard] at h
  split at h
  · next hget =>
    split at h
    · next hs => exact .inl (hs ▸ hget)
    · cases h
  · cases h
  · next hget =>
    split at h
    · cases h
    next hreq =>
    refine .inr ⟨hget, ?_⟩
    cases merge with
    | patch => rfl
    | replace => exact absurd rfl hreq

theorem startSet_ok {call : SetCall} {actor : Option Actor}
    (h : rt.startSet store call = .ok actor) : Proc.Passed rt call := by
  simp only [startSet, bind, Except.bind] at h
  split at h
  · cases h
  next hkey =>
  split at h
  · cases h
  split at h
  · cases h
  split at h
  · cases h
  split at h
  · cases h
  next hpk =>
  exact ⟨validateKey_ok hkey, fun f obj => validatePrimaryKey_ok hpk⟩

theorem startDelete_ok {call : DeleteCall} (h : rt.startDelete store call = .ok ()) :
    call.key.ns = rt.spec.name := by
  simp only [startDelete, bind, Except.bind] at h
  split at h
  · cases h
  next hkey => exact validateKey_ok hkey

theorem stepSet_moved {call : SetCall} {pc : SetPc} (h : rt.stepSet hook store call pc = some e) :
    Moved rt store (.set call pc) e := by
  refine Lib.Yields.elim h ?_
  cases pc with simp only [stepSet]
  | start =>
    split
    · exact .quiet (fun _ => rfl) rfl rfl (.inl rfl) nofun fun _ => trivial
    · next hstart =>
      exact .quiet (fun _ => rfl) rfl rfl (.inl rfl) (fun _ => rfl) fun _ => startSet_ok hstart
  | beforeSet =>
    split
    · exact .quiet (fun _ => rfl) rfl rfl (.inl rfl) nofun fun _ => trivial
    · exact .quiet (fun _ => rfl) rfl rfl (.inl rfl) (fun _ => rfl) id
  | commitSet =>
    have hcommit : store.commit (.set (rt.setCommit call)) =
      ((store.commitSet (rt.setCommit call)).1.map fun p => (some p.1, p.2),
        (store.commitSet (rt.setCommit call)).2) := rfl
    split
    · next heq =>
      rw [heq] at hcommit
      exact .quiet (MemoryStore.commit_refused hcommit) rfl rfl (.inl rfl) nofun fun _ => trivial
    · next heq =>
      rw [heq] at hcommit
      exact .set hcommit
  | notifySet =>
    exact .notify rfl rfl (.inr rfl) rfl id
  | afterSet =>
    split
    · exact .quiet (fun _ => rfl) rfl rfl (.inl rfl) nofun fun _ => trivial
    · exact .quiet (fun _ => rfl) rfl rfl (.inr rfl) nofun id
  | commitComplete actor record event lifecycle =>
    cases actor with
    | none => trivial
    | some a =>
      have hcommit : store.commit (.complete (completeCommit call record lifecycle a)) =
        ((store.commitComplete (completeCommit call record lifecycle a)).1.map
            fun p => (some p.1, p.2),
          (store.commitComplete (completeCommit call record lifecycle a)).2) := rfl
      dsimp only [Option.map_some]
      split
      · next heq =>
        rw [heq] at hcommit
        exact .quiet (MemoryStore.commit_refused hcommit) rfl rfl (.inl rfl) nofun fun _ => trivial
      · next complete store' heq =>
        rw [heq] at hcommit
        exact .complete hcommit
  | notifyComplete =>
    exact .notify rfl rfl (.inl rfl) rfl fun _ => trivial
  | done => trivial

theorem stepDelete_moved {call : DeleteCall} {pc : DeletePc}
    (h : rt.stepDelete hook store call pc = some e) : Moved rt store (.delete call pc) e := by
  refine Lib.Yields.elim h ?_
  cases pc with simp only [stepDelete]
  | start =>
    split
    · exact .quiet (fun _ => rfl) rfl rfl (.inl rfl) nofun fun _ => trivial
    · next hstart =>
      exact .quiet (fun _ => rfl) rfl rfl (.inl rfl) nofun fun _ => startDelete_ok hstart
  | beforeDelete =>
    split
    · exact .quiet (fun _ => rfl) rfl rfl (.inl rfl) nofun fun _ => trivial
    · exact .quiet (fun _ => rfl) rfl rfl (.inl rfl) nofun id
  | commitDelete =>
    have hcommit : store.commit (.delete (deleteCommit call)) =
      ((store.commitDelete (deleteCommit call)).1.map fun e => (none, e),
        (store.commitDelete (deleteCommit call)).2) := rfl
    split
    · next heq =>
      rw [heq] at hcommit
      exact .quiet (MemoryStore.commit_refused hcommit) rfl rfl (.inl rfl) nofun fun _ => trivial
    · next heq =>
      rw [heq] at hcommit
      exact .delete hcommit
  | notifyDelete =>
    exact .notify rfl rfl (.inl rfl) rfl fun _ => trivial
  | afterDelete =>
    split
    · exact .quiet (fun _ => rfl) rfl rfl (.inl rfl) nofun fun _ => trivial
    · exact .quiet (fun _ => rfl) rfl rfl (.inl rfl) nofun fun _ => trivial
  | done => trivial

theorem stepProc_moved {p : Proc} (h : rt.stepProc hook store p = some e) : Moved rt store p e := by
  cases p with
  | set => exact stepSet_moved h
  | delete => exact stepDelete_moved h

end Runtime

namespace System

theorem step_cases {rt : Runtime} {s s' : System} {a : Act} (h : s.step rt a = some s') :
    (∃ p, s' = s.add p ∧ p.due = false ∧ p.pin = none ∧ p.Checked rt) ∨
    ∃ i hook p e, a = .advance i hook ∧ s.procs[i]? = some p ∧ Moved rt s.store p e ∧
      s' = s.after i e := by
  cases a with
  | set | delete =>
    cases h
    exact .inl ⟨_, rfl, rfl, rfl, trivial⟩
  | advance i hook =>
    obtain ⟨p, hp, h⟩ := Option.bind_eq_some_iff.mp h
    obtain ⟨e, he, rfl⟩ := Option.map_eq_some_iff.mp h
    exact .inr ⟨i, hook, p, e, rfl, hp, Runtime.stepProc_moved he, rfl⟩

end System

end Cosmix.Props
