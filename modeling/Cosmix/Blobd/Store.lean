/- source: cosmix-blobd/src/core/store.rs, cosmix-blobd/src/core/uploads.rs, cosmix-mds/src/blob.rs
   digest: Pins, quotas, reservations, sessions and the sweep, step by step under their locks. -/

import Cosmix.Lib.Tally

/-! The store is stepped where a thread takes or gives up a lock or touches a file. A thread inside
a lock between two steps is part of the state: the one that reserves holds the lock of the
reservations, one that records a pin that lock and the database, the sweep the database. A session
is worked on by the holder of its guard, which keeps the row it has read. A step refused by the code
leaves the state; one that its thread cannot take is none. What the code does only after some time
may be done at any time. -/

namespace Cosmix.Blobd

open Lib Lib.Tally
open Function (update)

def u64Max : Nat := 2 ^ 64 - 1

def i64Max : Nat := 2 ^ 63 - 1

def maxUploadSize : Nat := 9007199254740991

inductive SessionState
  | active | committing | complete | failed
  deriving DecidableEq, Repr

variable {H : Type} [DecidableEq H]

def isControl (c : Char) : Bool := c.toNat < 0x20 || (0x7f ≤ c.toNat && c.toNat < 0xa0)

/-- The texts that an owner or a key may be. -/
def validText (s : String) : Bool :=
  ¬ s.isEmpty && s.utf8ByteSize ≤ 128 && ¬ s.toList.any isControl

def validCreate (owner : String) (key : Option String) (size : Nat) : Bool :=
  validText owner && key.all validText && size ≤ maxUploadSize

structure Session (H : Type) where
  id : Nat
  owner : String
  key : Option String
  size : Nat
  state : SessionState
  actualHash : Option H
  deriving DecidableEq

structure Pin (H : Type) where
  hash : H
  owner : String
  size : Nat
  deriving DecidableEq

/-- An upload in flight: room admitted and not yet pinned. -/
structure Hold where
  id : Nat
  owner : String
  amount : Nat
  deriving DecidableEq

structure Limits where
  owner : String → Nat
  (total uploadsTotal uploadsPerOwner : Nat)

/-- Terminal receipts and live sessions share this bound. -/
def Limits.receipts (lim : Limits) : Nat := max 1024 (2 * lim.uploadsTotal)

def Session.live (s : Session H) : Bool := s.state = .active || s.state = .committing

def Session.receipt (s : Session H) : Bool := s.state = .complete || s.state = .failed

structure Db (H : Type) where
  pins : List (Pin H) := []
  quota : List (String × Nat) := []
  sessions : List (Session H) := []

variable (holds : List Hold)

def holdCharges (except : Option Nat) : List (String × Nat) :=
  (holds.filter fun h => except ≠ some h.id).map fun h => (h.owner, h.amount)

namespace Db

variable (db : Db H)

def pinCharges : List (String × Nat) := db.pins.map fun p => (p.owner, p.size)

def liveCharges (except : Option Nat) : List (String × Nat) :=
  (db.sessions.filter fun s => s.live && except ≠ some s.id).map fun s => (s.owner, s.size)

def reservationTotals (holds : List Hold) (ephemeral session : Option Nat) : List (String × Nat) :=
  collect u64Max (holdCharges holds ephemeral ++ db.liveCharges session)

end Db

def sumReserved (reserved : List (String × Nat)) : Nat := satTotal u64Max reserved

inductive PinCheck
  | fits | held | quotaOwner | quotaTotal | outOfRange
  deriving DecidableEq

namespace Db

variable (lim : Limits) (db : Db H)

def checkPinCapacity (hash : H) (owner : String) (size : Nat) (reserved : List (String × Nat)) :
    PinCheck :=
  let ownerUsed := get owner db.quota
  let totalUsed := total db.quota
  if i64Max < size then .outOfRange
  else if db.pins.any fun p => p.hash = hash && p.owner = owner then .held
  else if lim.owner owner < satAdd u64Max (satAdd u64Max ownerUsed size) (get owner reserved) then
    .quotaOwner
  else if lim.total < satAdd u64Max (satAdd u64Max totalUsed size) (sumReserved reserved) then
    .quotaTotal
  else if i64Max < satAdd u64Max ownerUsed size ∨ i64Max < satAdd u64Max totalUsed size then
    .outOfRange
  else .fits

def insertPin (hash : H) (owner : String) (size : Nat) : Db H :=
  { db with pins := ⟨hash, owner, size⟩ :: db.pins, quota := put (· + ·) owner size db.quota }

def pinWithCap (hash : H) (owner : String) (size : Nat) (reserved : List (String × Nat)) :
    PinCheck × Db H :=
  match db.checkPinCapacity lim hash owner size reserved with
  | .fits => (.fits, db.insertPin hash owner size)
  | refused => (refused, db)

/-- One pin for each owner. For a fetch the others go on after a refusal by quota; else it undoes
the transaction. -/
def pinOwners (hash : H) (size : Nat) (reserved : List (String × Nat)) (fetch : Bool) :
    List String → Db H → Option (Db H)
  | [], db => some db
  | owner :: owners, db =>
    match db.pinWithCap lim hash owner size reserved with
    | (.fits, db') => pinOwners hash size reserved fetch owners db'
    | (.held, _) => pinOwners hash size reserved fetch owners db
    | (.outOfRange, _) => none
    | (.quotaOwner, _) | (.quotaTotal, _) =>
      if fetch then pinOwners hash size reserved fetch owners db else none

/-- The owner's row deleted, and its size given back; without one, the size of the hash. -/
def unpin (sizeOf : H → Nat) (hash : H) (owner : String) : Db H :=
  match db.pins.find? fun p => p.hash = hash && p.owner = owner with
  | none => db
  | some row =>
    { db with
      pins := db.pins.filter fun p => ¬ (p.hash = hash ∧ p.owner = owner)
      quota := take owner (if 0 < row.size then row.size else sizeOf hash) db.quota }

def setSession (id : Nat) (f : Session H → Session H) : Db H :=
  { db with sessions := db.sessions.map fun s => if s.id = id then f s else s }

def removeSession (id : Nat) : Db H :=
  { db with sessions := db.sessions.filter fun x => x.id ≠ id }

/-- Rows that the sweep finds for a hash it has unlinked, un-accounted and deleted. -/
def dropStray (sizeOf : H → Nat) (hash : H) : Db H :=
  { db with
    pins := db.pins.filter fun p => p.hash ≠ hash
    quota := (db.pins.filter fun p => p.hash = hash).foldl
      (fun quota p => take p.owner (sizeOf hash) quota) db.quota }

/-- The sweep leaves a hash alone that has a pin or that a session is committing. -/
def protects (hash : H) : Bool :=
  db.pins.any (fun p => p.hash = hash) ||
    db.sessions.any fun s => s.state = .committing && s.actualHash = some hash

end Db

/-- A thread inside the lock of the reservations, with what it has read so far. -/
structure Reserving where
  owner : String
  declared : Option Nat
  (ownerReserved totalReserved : Nat)
  ownerUsed : Option Nat := none
  totalUsed : Option Nat := none
  deriving DecidableEq

/-- A pin about to be recorded: the bytes have been seen in the content store. -/
structure Recording (H : Type) where
  hash : H
  owners : List String
  fetch : Bool
  credit : Option Nat
  deriving DecidableEq

/-- Who is inside the database lock between two steps. -/
inductive DbLock (H : Type)
  | free
  | recording (r : Recording H)
  | sweeping (hash : H)
  | swept (hash : H)
  deriving DecidableEq

/-- How far the holder of a session's guard has come. -/
inductive Work (H : Type)
  | begun
  | read (s : Session H)
  | published (s : Session H)

structure State (H : Type) where
  db : Db H := {}
  holds : List Hold := []
  nextHold : Nat := 0
  nextSession : Nat := 0
  reserving : Option Reserving := none
  dbLock : DbLock H := .free
  writers : Nat → Option (Work H) := fun _ => none
  cas : List H := []

inductive RecordKind
  | upload (owner : String) (reservation : Option Nat)
  | fetch (owners : List String) (reservation : Option Nat)
  | pin (owner : String)

inductive Act (H : Type)
  | reserveStart (owner : String) (declared : Option Nat)
  | reserveOwnerUsed
  | reserveTotalUsed
  | reserveFinish
  | dropReservation (id : Nat)
  | putFile (hash : H)
  | recordBegin (kind : RecordKind) (hash : H)
  | recordEnd
  | unpin (hash : H) (owner : String)
  | uploadCreate (owner : String) (key : Option String) (size : Nat)
  | guard (id : Nat)
  | readRow (id : Nat)
  | release (id : Nat)
  | prepareCommit (id : Nat) (hash : H)
  | publish (id : Nat)
  | settleCommit (id : Nat)
  | failUpload (id : Nat)
  | removeUpload (id : Nat)
  | gcCheck (hash : H)
  | gcUnlink
  | gcLeave
  | gcSettle
  | crash

namespace State

variable (s : State H)

def reservedFree : Bool :=
  s.reserving.isNone && match s.dbLock with
    | .recording _ => false
    | _ => true

def dbFree : Bool :=
  match s.dbLock with
  | .free => true
  | _ => false

def charges : List (String × Nat) := holdCharges s.holds none ++ s.db.liveCharges none

end State

/-- What a reservation gets: the declared size if it fits, or all the room there is. -/
def Reserving.amount (lim : Limits) (r : Reserving) (ownerUsed totalUsed : Nat) : Option Nat :=
  match r.declared with
  | some amount =>
    if lim.owner r.owner < satAdd u64Max (satAdd u64Max ownerUsed r.ownerReserved) amount then none
    else if lim.total < satAdd u64Max (satAdd u64Max totalUsed r.totalReserved) amount then none
    else some amount
  | none =>
    some (min (min (lim.owner r.owner - satAdd u64Max ownerUsed r.ownerReserved)
      (lim.total - satAdd u64Max totalUsed r.totalReserved)) i64Max)

/-- The owners that a record tries, in order: the owner of the reservation goes first. -/
def RecordKind.owners (reserver : Option String) : RecordKind → List String
  | .upload owner _ => [owner]
  | .pin owner => [owner]
  | .fetch owners _ =>
    owners.filter (fun o => reserver = some o) ++ owners.filter fun o => reserver ≠ some o

def RecordKind.isFetch : RecordKind → Bool
  | .fetch _ _ => true
  | _ => false

def RecordKind.recording (kind : RecordKind) (hash : H) (credit : Option Hold) : Recording H where
  hash := hash
  owners := kind.owners (credit.map Hold.owner)
  fetch := kind.isFetch
  credit := credit.map Hold.id

/-- The hold of a reservation that covers the size. -/
def reservationCredit (reservation : Option Nat) (size : Nat) : Option (Option Hold) :=
  match reservation with
  | none => some none
  | some id =>
    match holds.find? fun h => h.id = id with
    | none => none
    | some hold => if hold.amount < size then none else some (some hold)

/-- The hold that a record settles. A pin has none; an upload's must be its owner's. -/
def RecordKind.credit (size : Nat) : RecordKind → Option (Option Hold)
  | .pin _ => some none
  | .fetch _ reservation => reservationCredit holds reservation size
  | .upload owner reservation =>
    match reservationCredit holds reservation size with
    | some (some hold) => if hold.owner = owner then some (some hold) else none
    | other => other

namespace Db

variable (lim : Limits) (db : Db H)

def liveCount : Nat := db.sessions.countP Session.live

def ownerLiveCount (owner : String) : Nat :=
  db.sessions.countP fun s => decide (s.owner = owner) && s.live

def receiptCount : Nat := db.sessions.countP Session.receipt

/-- A new session is refused by a count, by the owner's room or by the total. -/
def admitsUpload (holds : List Hold) (owner : String) (size : Nat) : Bool :=
  let reserved := db.reservationTotals holds none none
  decide (db.liveCount < lim.uploadsTotal) &&
  decide (db.ownerLiveCount owner < lim.uploadsPerOwner) &&
  decide (db.receiptCount + db.liveCount < lim.receipts) &&
  decide (satAdd u64Max (satAdd u64Max (get owner db.quota) (get owner reserved)) size ≤
    lim.owner owner) &&
  decide (satAdd u64Max (satAdd u64Max (total db.quota) (sumReserved reserved)) size ≤ lim.total)

end Db

section

variable (lim : Limits) (sizeOf : H → Nat)

def step (s : State H) : Act H → Option (State H)
  | .reserveStart owner declared =>
    if declared.any fun n => i64Max < n then some s
    else if s.reservedFree ∧ s.dbFree then
      let reserved := s.db.reservationTotals s.holds none none
      some { s with reserving := some { owner := owner, declared := declared
                                        ownerReserved := get owner reserved
                                        totalReserved := sumReserved reserved } }
    else none
  | .reserveOwnerUsed =>
    match s.reserving with
    | some r =>
      if s.dbFree then
        some { s with reserving := some { r with ownerUsed := some (get r.owner s.db.quota) } }
      else none
    | none => none
  | .reserveTotalUsed =>
    match s.reserving with
    | some r =>
      if s.dbFree ∧ r.ownerUsed.isSome then
        some { s with reserving := some { r with totalUsed := some (total s.db.quota) } }
      else none
    | none => none
  | .reserveFinish =>
    match s.reserving with
    | some r =>
      match r.ownerUsed, r.totalUsed with
      | some ownerUsed, some totalUsed =>
        match r.amount lim ownerUsed totalUsed with
        | some amount =>
          if u64Max ≤ s.nextHold then some { s with reserving := none }
          else
            some { s with holds := ⟨s.nextHold + 1, r.owner, amount⟩ :: s.holds
                          nextHold := s.nextHold + 1, reserving := none }
        | none => some { s with reserving := none }
      | _, _ => none
    | none => none
  | .dropReservation id =>
    if s.reservedFree then some { s with holds := s.holds.filter fun h => h.id ≠ id } else none
  | .putFile hash => some { s with cas := hash :: s.cas }
  | .recordBegin kind hash =>
    if s.reservedFree ∧ s.dbFree then
      match kind.credit s.holds (sizeOf hash) with
      | none => some s
      | some credit =>
        if hash ∈ s.cas then some { s with dbLock := .recording (kind.recording hash credit) }
        else some s
    else none
  | .recordEnd =>
    match s.dbLock with
    | .recording r =>
      let reserved := s.db.reservationTotals s.holds r.credit none
      match Db.pinOwners lim r.hash (sizeOf r.hash) reserved r.fetch r.owners s.db with
      | some db =>
        some { s with db := db, dbLock := .free
                      holds := s.holds.filter fun h => r.credit ≠ some h.id }
      | none => some { s with dbLock := .free }
    | _ => none
  | .unpin hash owner =>
    if s.dbFree then some { s with db := s.db.unpin sizeOf hash owner } else none
  | .uploadCreate owner key size =>
    if ¬ validCreate owner key size then some s
    else if s.reservedFree ∧ s.dbFree then
      if key.isSome && s.db.sessions.any fun x => x.owner = owner && x.key = key then some s
      else if s.db.admitsUpload lim s.holds owner size then
        some { s with
          db := { s.db with sessions := { id := s.nextSession, owner := owner, key := key
                                          size := size, state := .active, actualHash := none }
                                        :: s.db.sessions }
          nextSession := s.nextSession + 1 }
      else some s
    else none
  | .guard id =>
    if (s.writers id).isNone then
      some { s with writers := update s.writers id (some .begun) }
    else none
  | .readRow id =>
    match s.writers id with
    | some .begun =>
      if s.dbFree then
        match s.db.sessions.find? fun x => x.id = id with
        | some row => some { s with writers := update s.writers id (some (.read row)) }
        | none => some { s with writers := update s.writers id none }
      else none
    | _ => none
  | .release id => some { s with writers := update s.writers id none }
  | .prepareCommit id hash =>
    match s.writers id with
    | some (.read row) =>
      -- the bytes that were hashed are as many as the session declared
      if row.state = .active ∧ row.size = sizeOf hash ∧ s.reservedFree ∧ s.dbFree then
        let reserved := s.db.reservationTotals s.holds none (some id)
        match s.db.checkPinCapacity lim hash row.owner row.size reserved with
        | .fits | .held =>
          some { s with
            db := s.db.setSession id fun x =>
              if x.state = .active then { x with state := .committing, actualHash := some hash }
              else x
            writers := update s.writers id (some .begun) }
        | _ => some s
      else none
    | _ => none
  | .publish id =>
    match s.writers id with
    | some (.read row) =>
      match row.state, row.actualHash with
      | .committing, some hash =>
        some { s with cas := hash :: s.cas
                      writers := update s.writers id (some (.published row)) }
      | _, _ => none
    | _ => none
  | .settleCommit id =>
    match s.writers id with
    | some (.published row) =>
      match row.actualHash with
      | some hash =>
        if s.reservedFree ∧ s.dbFree then
          let reserved := s.db.reservationTotals s.holds none (some id)
          match s.db.pinWithCap lim hash row.owner row.size reserved with
          | (.fits, db) | (.held, db) =>
            some { s with
              db := db.setSession id fun x =>
                if x.state = .committing then { x with state := .complete } else x
              writers := update s.writers id none }
          | _ => some s
        else none
      | none => none
    | _ => none
  | .failUpload id =>
    match s.writers id with
    | some (.read row) | some (.published row) =>
      if row.live ∧ s.reservedFree ∧ s.dbFree then
        some { s with db := s.db.setSession id fun x => { x with state := .failed }
                      writers := update s.writers id none }
      else none
    | _ => none
  | .removeUpload id =>
    match s.writers id with
    | some (.read row) =>
      if row.state ≠ .committing ∧ s.dbFree then
        some { s with db := s.db.removeSession id
                      writers := update s.writers id none }
      else none
    | _ => none
  | .gcCheck hash =>
    if s.dbFree then
      if s.db.protects hash then some s else some { s with dbLock := .sweeping hash }
    else none
  | .gcUnlink =>
    match s.dbLock with
    | .sweeping hash => some { s with cas := s.cas.filter (· ≠ hash), dbLock := .swept hash }
    | _ => none
  | .gcLeave =>
    match s.dbLock with
    | .sweeping _ | .swept _ => some { s with dbLock := .free }
    | _ => none
  | .gcSettle =>
    match s.dbLock with
    | .swept hash => some { s with db := s.db.dropStray sizeOf hash, dbLock := .free }
    | _ => none
  | .crash =>
    some { s with holds := [], nextHold := 0, reserving := none, dbLock := .free
                  writers := fun _ => none }

end

end Cosmix.Blobd
