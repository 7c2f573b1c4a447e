/- source: cosmix-blobd/src/core/uploads.rs, cosmix-mds/src/blob.rs
   digest: One resumable upload: staging file, row and content store, step by step. -/

import Cosmix.Blobd.Reference
import Cosmix.Blobd.Store

/-! The calls on one session come one after the other under its guard, and are stepped at every
operation on a file, a directory or the database. Each may be refused, and one on the database may
take place and report an error all the same. A crash may come between any two steps: the process
stops, or the machine does and a file keeps only what lies before its unsynced writes. What other
sessions have in the store is given at the start. -/

namespace Cosmix.Blobd.Resumable

open Blobd

abbrev Bytes := List UInt8

/-- The columns of a session that are never written again. -/
structure Job where
  size : Nat
  expected : Option BlobHash
  mime : String
  name : Option String
  size_le : size ≤ maxUploadSize

structure Row where
  offset : Nat
  expiresAt : Int
  state : SessionState
  actualHash : Option BlobHash
  result : Option String
  deriving DecidableEq

def receiptTtlMs : Int := 86400000

structure Attrs where
  mime : String
  name : Option String
  origin : String

/-- A file's bytes. As many of them as are stable are on the disk; without anything dirty all are.
-/
structure Inode where
  content : Bytes
  stable : Nat
  dirty : Bool

namespace Inode

variable (f : Inode)

def setLen (n : Nat) : Inode where
  content := f.content.take n ++ List.replicate (n - f.content.length) 0
  stable := min f.stable n
  dirty := true

def writeAt (pos : Nat) (chunk : Bytes) : Inode where
  content := (f.setLen pos).content ++ chunk ++ f.content.drop (pos + chunk.length)
  stable := min f.stable pos
  dirty := true

def syncAll : Inode where
  content := f.content
  stable := f.content.length
  dirty := false

/-- What a disk may hold of a file after the machine has stopped. -/
def Survives (content : Bytes) : Prop :=
  if f.dirty then
    f.stable ≤ content.length ∧ content.take f.stable = f.content.take f.stable
  else content = f.content

instance (content : Bytes) : Decidable (f.Survives content) :=
  inferInstanceAs (Decidable (if f.dirty = true then
    f.stable ≤ content.length ∧ content.take f.stable = f.content.take f.stable
    else content = f.content))

end Inode

inductive StagingName
  | present
  | removing
  | gone
  deriving DecidableEq

inductive Mode
  | serving
  | restoring
  deriving DecidableEq

inductive Pc
  | down
  | restoring
  | restored
  | idle
  | appendChecked (start stop total : Nat)
  | appendRead (r : Row) (stop : Nat)
  | appendOpened (r : Row) (stop : Nat)
  | writing (r : Row) (stop : Nat) (body : Bytes)
  | synced (r : Row) (stop : Nat) (body : Bytes)
  | rollback
  | truncating (offset : Nat)
  | resyncing
  | prepareRead (r : Row)
  | prepareOpened (r : Row)
  | hashing (r : Row)
  | hashed (r : Row) (hash : BlobHash)
  | announcing (r : Row) (hash : BlobHash)
  | prepared
  | finishing (m : Mode) (r : Row)
  | publishing (m : Mode) (r : Row) (hash : BlobHash)
  | linking (m : Mode) (r : Row) (hash : BlobHash)
  | linked (m : Mode) (r : Row) (hash : BlobHash)
  | settling (m : Mode) (r : Row) (hash : BlobHash)
  | settled (m : Mode) (reference : Reference)
  | cleaned (m : Mode) (reference : Reference)
  | failing (m : Mode) (strict : Bool)
  | unlinking (m : Mode) (strict : Bool)
  | unlinked (m : Mode) (strict : Bool)
  | expiring (m : Mode)
  | expireSync (m : Mode)
  | deleting (m : Mode)
  | restoreRead (r : Row)
  | restoreOpened (r : Row)
  | restoreSync

def Mode.home : Mode → Pc
  | .serving => .idle
  | .restoring => .restored

/-- Where an error leads that is handed on to the caller: opening the store ends with it. -/
def Mode.stop : Mode → Pc
  | .serving => .idle
  | .restoring => .down

/-- What is tidied up with care, and what is tried only. -/
def Mode.onError (m : Mode) (strict : Bool) : Pc := if strict then m.stop else m.home

structure State where
  inode : Inode
  name : StagingName
  /-- The names of the staging inode in the content store, and whether each is on the disk. -/
  links : List (BlobHash × Bool)
  /-- The entries of the content store that have an inode of their own. -/
  cas : BlobHash → Option Bytes
  row : Option Row
  attrs : BlobHash → Option Attrs
  pinned : BlobHash → Bool
  pc : Pc
  /-- Ghost: the appends whose offset update was committed, each with its start. -/
  accepted : List (Nat × Bytes)
  /-- Ghost: the pin rows that this session has added. -/
  added : Nat
  /-- Ghost: the references that commits have returned, new completions marked. -/
  returned : List (Reference × Bool)
  /-- Ghost: a hash was found to differ from the one it must be. -/
  rejected : Bool
  /-- Ghost: the receipt was found to have expired. -/
  lapsed : Bool

/-- How an operation comes out: it may take place and report an error all the same. -/
inductive Outcome
  | ok
  | failed
  | ambiguous
  deriving DecidableEq

/-- What a step meets: clock, bytes, outcome, room in the quota, and an I/O error. -/
structure Env where
  now : Int := 0
  chunk : Bytes := []
  outcome : Outcome := .ok
  room : Bool := true
  permanent : Bool := false

inductive Act
  | append (start stop total : Nat) (now : Int)
  | commit (now : Int)
  | abort (now : Int)
  | status (now : Int)
  | sweep
  | restore (now : Int)
  | openStore
  | go (e : Env)
  | kill
  | crash (content : Bytes) (keepLinks keepName : Bool)

namespace State

variable (s : State)

def moveTo (pc : Pc) : State := { s with pc := pc }

def attempt (o : Outcome) (effect : State → State) (next onError : Pc) : State :=
  match o with
  | .ok => (effect s).moveTo next
  | .failed => s.moveTo onError
  | .ambiguous => (effect s).moveTo onError

def setInode (f : Inode → Inode) : State := { s with inode := f s.inode }

def setRow (f : Row → Row) : State := { s with row := s.row.map f }

def setName (name : StagingName) : State := { s with name := name }

variable (hash : BlobHash)

def entry : Option Bytes :=
  if s.links.any (fun l => l.1 = hash) then some s.inode.content else s.cas hash

def addLink : State := { s with links := (hash, false) :: s.links }

def syncLink : State :=
  { s with links := s.links.map fun l => (l.1, l.2 || l.1 = hash) }

/-- The row has expired and is to be removed with its staging. -/
def lapse (m : Mode) : State :=
  { s with pc := .expiring m, lapsed := s.lapsed || s.row.any fun r => r.state = .complete }

def reject (m : Mode) : State := { s with pc := .failing m false, rejected := true }

/-- Opening the staging file: it must be there, as long as the row says, and have one name. -/
def opens (r : Row) : Bool :=
  s.name = .present && ¬ s.inode.content.length < r.offset && s.links.isEmpty

end State

def Row.expired (r : Row) (now : Int) : Bool := r.expiresAt ≤ now && r.state ≠ .committing

def Row.receipt (r : Row) : Option Reference := r.result.bind Reference.ofText

/-- The row after a failure: a receipt for a day. -/
def Row.fail (now : Int) (r : Row) : Row :=
  { r with state := .failed, expiresAt := now + receiptTtlMs }

section

variable (hashOf : Bytes → BlobHash) (origin : String) (job : Job)

def Row.takes (r : Row) (start stop total : Nat) : Bool :=
  r.state = .active && r.offset = start && total = job.size && start ≤ stop && stop < total

variable (s : State) (hash : BlobHash)

/-- The attributes that a hash has after they have been offered. -/
def offered : Attrs :=
  (s.attrs hash).getD { mime := job.mime, name := job.name, origin := origin }

def referenceOf : Reference where
  hash := hash
  size := job.size
  mime := (offered origin job s hash).mime
  name := (offered origin job s hash).name
  origin := (offered origin job s hash).origin

/-- The offset update of an append: it is for the row as it was read. -/
def State.advance (r : Row) (stop : Nat) (body : Bytes) : State :=
  match s.row with
  | some current =>
    if current.offset = r.offset ∧ current.state = .active then
      { s with row := some { current with offset := stop + 1 }
               accepted := s.accepted ++ [(r.offset, body)] }
    else s
  | none => s

def Row.announce (r : Row) : Row :=
  if r.state = .active then { r with state := .committing, actualHash := some hash } else r

/-- The settlement of a commit, one transaction: attributes, pin, receipt. -/
def State.settle (now : Int) : State :=
  { s with
    attrs := Function.update s.attrs hash (some (offered origin job s hash))
    pinned := Function.update s.pinned hash true
    added := if s.pinned hash then s.added else s.added + 1
    row := s.row.map fun r =>
      if r.state = .committing then
        { r with state := .complete, expiresAt := now + receiptTtlMs
                 result := some (referenceOf origin job s hash).toText }
      else r }

def go (e : Env) : Option State :=
  match s.pc with
  | .down | .restored | .idle => none
  -- upload_append_guarded
  | .appendChecked start stop total =>
    match s.row with
    | none => some (s.moveTo .idle)
    | some r =>
      if r.expiresAt ≤ e.now then
        if r.state = .committing then some (s.moveTo .idle) else some (s.lapse .serving)
      else if r.takes job start stop total then some (s.moveTo (.appendRead r stop))
      else some (s.moveTo .idle)
  | .appendRead r stop =>
    if s.opens r then some (s.moveTo (.appendOpened r stop)) else some (s.moveTo (.failing .serving false))
  | .appendOpened r stop =>
    some (s.attempt e.outcome (·.setInode (·.setLen r.offset)) (.writing r stop []) .idle)
  | .writing r stop body =>
    let remaining := stop + 1 - r.offset - body.length
    if remaining = 0 then
      -- an excess byte, a late end and a sync that fails all roll back
      if e.chunk ≠ [] ∨ r.expiresAt ≤ e.now then some (s.moveTo .rollback)
      else some (s.attempt e.outcome (·.setInode Inode.syncAll) (.synced r stop body) .rollback)
    else if e.chunk = [] then some (s.moveTo .rollback)
    else if e.chunk.length ≤ min remaining 65536 then
      some (s.attempt e.outcome (·.setInode (·.writeAt (r.offset + body.length) e.chunk))
        (.writing r stop (body ++ e.chunk)) .rollback)
    else none
  | .synced r stop body => some (s.attempt e.outcome (·.advance r stop body) .idle .rollback)
  | .rollback =>
    match s.row with
    | none => some (s.moveTo .idle)
    | some r => some (s.attempt e.outcome id (.truncating r.offset) .idle)
  | .truncating offset =>
    some (s.attempt e.outcome (·.setInode (·.setLen offset)) .resyncing .idle)
  | .resyncing => some (s.attempt e.outcome (·.setInode Inode.syncAll) .idle .idle)
  -- prepare_upload_commit
  | .prepareRead r =>
    if r.offset ≠ job.size then some (s.moveTo .idle)
    else if s.opens r then some (s.moveTo (.prepareOpened r))
    else some (s.moveTo (.failing .serving false))
  | .prepareOpened r =>
    some (s.attempt e.outcome (·.setInode (·.setLen r.offset)) (.hashing r) .idle)
  | .hashing r =>
    if e.outcome ≠ .ok then some (s.moveTo .idle)
    else if job.expected.any fun x => x ≠ hashOf s.inode.content then some (s.reject .serving)
    else some (s.moveTo (.hashed r (hashOf s.inode.content)))
  | .hashed r hash =>
    some (s.attempt e.outcome (·.setInode Inode.syncAll) (.announcing r hash) .idle)
  | .announcing r hash =>
    if r.expiresAt ≤ e.now then some (s.lapse .serving)
    else if s.pinned hash || e.room then
      some (s.attempt e.outcome (·.setRow (Row.announce hash)) .prepared .idle)
    else some (s.moveTo (.failing .serving false))
  | .prepared =>
    match s.row with
    | none => some (s.moveTo .idle)
    | some r => some (s.moveTo (.finishing .serving r))
  -- finish_upload_commit
  | .finishing m r =>
    if e.outcome ≠ .ok then some (s.moveTo m.home)
    else match r.actualHash with
      | none => some (s.moveTo m.home)
      | some hash =>
        if s.name = .present ∧ s.inode.content.length = job.size then
          some (s.moveTo (.publishing m r hash))
        else some (s.moveTo (.failing m false))
  | .publishing m r hash =>
    if e.outcome ≠ .ok then some (s.moveTo (if e.permanent then .failing m false else m.home))
    else if hashOf s.inode.content ≠ hash then some (s.reject m)
    else some ((s.setInode Inode.syncAll).moveTo (.linking m r hash))
  | .linking m r hash =>
    if e.outcome ≠ .ok then some (s.moveTo (if e.permanent then .failing m false else m.home))
    else match s.entry hash with
      | some bytes =>
        if hashOf bytes ≠ hash then some (s.reject m) else some (s.moveTo (.linked m r hash))
      | none => some ((s.addLink hash).moveTo (.linked m r hash))
  | .linked m r hash =>
    if e.outcome ≠ .ok then some (s.moveTo (if e.permanent then .failing m false else m.home))
    else some ((s.syncLink hash).moveTo (.settling m r hash))
  | .settling m _ hash =>
    if s.pinned hash || e.room then
      some (s.attempt e.outcome (·.settle origin job hash e.now)
        (.settled m (referenceOf origin job s hash)) m.home)
    else some (s.moveTo (.failing m false))
  | .settled m reference =>
    if s.name = .present ∧ e.outcome = .ok then
      some ((s.setName .removing).moveTo (.cleaned m reference))
    else some (s.moveTo (.cleaned m reference))
  | .cleaned m reference =>
    let s' := if s.name = .removing ∧ e.outcome = .ok then s.setName .gone else s
    match m with
    | .serving => some ({ s' with returned := s.returned ++ [(reference, true)] }.moveTo .idle)
    | .restoring => some (s'.moveTo .restored)
  -- fail_upload
  | .failing m strict =>
    some (s.attempt e.outcome (·.setRow (Row.fail e.now)) (.unlinking m false)
      (m.onError strict))
  | .unlinking m strict =>
    if s.name = .present then
      some (s.attempt e.outcome (·.setName .removing) (.unlinked m strict) (m.onError strict))
    else some (s.moveTo m.home)
  | .unlinked m strict =>
    some (s.attempt e.outcome (·.setName .gone) m.home (m.onError strict))
  -- expire_upload, and the rest of upload_abort
  | .expiring m =>
    if s.name = .present then
      some (s.attempt e.outcome (·.setName .removing) (.expireSync m) m.stop)
    else some (s.moveTo (.deleting m))
  | .expireSync m => some (s.attempt e.outcome (·.setName .gone) (.deleting m) m.stop)
  | .deleting m => some (s.attempt e.outcome (fun s => { s with row := none }) m.home m.stop)
  -- restore_uploads
  | .restoring =>
    match s.row with
    | none => some (s.moveTo .restored)
    | some r =>
      match r.state with
      | .committing => some (s.moveTo (.finishing .restoring r))
      | .active => some (s.moveTo (.restoreRead r))
      | .complete | .failed => some (s.moveTo (.unlinking .restoring true))
  | .restoreRead r =>
    if s.opens r then some (s.moveTo (.restoreOpened r))
    else some (s.moveTo (.failing .restoring true))
  | .restoreOpened r =>
    some (s.attempt e.outcome (·.setInode (·.setLen r.offset)) .restoreSync .down)
  | .restoreSync => some (s.attempt e.outcome (·.setInode Inode.syncAll) .restored .down)

/-- The mode in which the store can take up a session that nobody works on. -/
def State.free : Option Mode :=
  match s.pc with
  | .idle => some .serving
  | .restored => some .restoring
  | _ => none

def step : Act → Option State
  | .go e => go hashOf origin job s e
  | .append start stop total now =>
    match s.pc, s.row with
    | .idle, none => some s
    | .idle, some r =>
      if r.expired now then some (s.lapse .serving)
      else if r.takes job start stop total then some (s.moveTo (.appendChecked start stop total))
      else some s
    | _, _ => none
  | .commit now =>
    match s.pc, s.row with
    | .idle, none => some s
    | .idle, some r =>
      if r.expired now then some (s.lapse .serving)
      else match r.state with
        | .complete =>
          match r.receipt with
          | some reference => some { s with returned := s.returned ++ [(reference, false)] }
          | none => some s
        | .active => some (s.moveTo (.prepareRead r))
        | .committing => some (s.moveTo (.finishing .serving r))
        | .failed => some s
    | _, _ => none
  | .abort now =>
    match s.pc, s.row with
    | .idle, none => some s
    | .idle, some r =>
      if r.state = .committing then some s
      else if r.expiresAt ≤ now then some (s.lapse .serving)
      else if r.state = .complete then some s
      else some (s.moveTo (.expiring .serving))
    | _, _ => none
  -- also the part of a sweep that removes what has expired
  | .status now =>
    match s.free, s.row with
    | some _, none => some s
    | some m, some r => if r.expired now then some (s.lapse m) else some s
    | none, _ => none
  | .sweep =>
    match s.free, s.row with
    | some _, none => some s
    | some m, some r =>
      if r.state = .complete ∨ r.state = .failed then some (s.moveTo (.unlinking m true)) else some s
    | none, _ => none
  | .restore now =>
    match s.pc with
    | .down =>
      some ((s.setRow fun r =>
        if r.state = .failed then { r with expiresAt := min r.expiresAt (now + receiptTtlMs) }
        else r).moveTo .restoring)
    | _ => none
  -- staging without a row is removed last
  | .openStore =>
    match s.pc with
    | .restored =>
      if s.row.isNone ∧ s.name = .present then some ((s.setName .gone).moveTo .idle)
      else some (s.moveTo .idle)
    | _ => none
  | .kill => some (s.moveTo .down)
  | .crash content keepLinks keepName =>
    if s.inode.Survives content then
      some { s with
        inode := Inode.syncAll { s.inode with content := content }
        links := s.links.filter fun l => l.2 || keepLinks
        name := if s.name = .removing then (if keepName then .present else .gone) else s.name
        pc := .down }
    else none

/-- A session as it is created: an empty file, synced, and an active row. -/
def start (cas : BlobHash → Option Bytes) (attrs : BlobHash → Option Attrs)
    (pinned : BlobHash → Bool) (expiresAt : Int) : State where
  inode := ⟨[], 0, false⟩
  name := .present
  links := []
  cas := cas
  row := some ⟨0, expiresAt, .active, none, none⟩
  attrs := attrs
  pinned := pinned
  pc := .idle
  accepted := []
  added := 0
  returned := []
  rejected := false
  lapsed := false

end

end Cosmix.Blobd.Resumable
