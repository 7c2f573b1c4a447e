/- source: cosmix-blobd/src/core/store.rs, cosmix-blobd/src/core/uploads.rs
   digest: What a step of the blob store can do; every pin keeps its bytes, whatever the sweep does. -/

import Cosmix.Blobd.Store
import Cosmix.Lib.Machine

/-! The bytes of a pin are seen under the database lock before its row is written, and the sweep
looks for rows and unlinks under the same lock. An upload is not looked at again: its row is marked
as committing before the bytes are published, and the sweep leaves such a hash alone. -/

namespace Cosmix.Blobd

open Lib Lib.Tally

variable {H : Type} [DecidableEq H] (lim : Limits) (sizeOf : H → Nat)

def State.setWriter (s : State H) (id : Nat) (w : Option (Work H)) : State H :=
  { s with writers := Function.update s.writers id w }

def State.startReserving (s : State H) (owner : String) (declared : Option Nat) : Reserving where
  owner := owner
  declared := declared
  ownerReserved := get owner (s.db.reservationTotals s.holds none none)
  totalReserved := sumReserved (s.db.reservationTotals s.holds none none)

def State.newSession (s : State H) (owner : String) (key : Option String) (size : Nat) :
    Session H where
  id := s.nextSession
  owner := owner
  key := key
  size := size
  state := .active
  actualHash := none

def Session.prepared (hash : H) (x : Session H) : Session H :=
  if x.state = .active then { x with state := .committing, actualHash := some hash } else x

def Session.settled (x : Session H) : Session H :=
  if x.state = .committing then { x with state := .complete } else x

def Session.withdrawn (x : Session H) : Session H := { x with state := .failed }

inductive Effect (s : State H) : State H → Prop
  | same : Effect s s
  | startReserving (owner : String) (declared : Option Nat) (hfree : s.reservedFree) :
    Effect s { s with reserving := some (s.startReserving owner declared) }
  | ownerRead (r : Reserving) (hr : s.reserving = some r) :
    Effect s { s with reserving := some { r with ownerUsed := some (get r.owner s.db.quota) } }
  | totalRead (r : Reserving) (hr : s.reserving = some r) :
    Effect s { s with reserving := some { r with totalUsed := some (total s.db.quota) } }
  | stopReserving : Effect s { s with reserving := none }
  | hold (r : Reserving) (ownerUsed totalUsed amount : Nat) (hr : s.reserving = some r)
    (howner : r.ownerUsed = some ownerUsed) (htotal : r.totalUsed = some totalUsed)
    (hamount : r.amount lim ownerUsed totalUsed = some amount) :
    Effect s { s with holds := ⟨s.nextHold + 1, r.owner, amount⟩ :: s.holds
                      nextHold := s.nextHold + 1, reserving := none }
  | dropHold (id : Nat) : Effect s { s with holds := s.holds.filter fun h => h.id ≠ id }
  | file (hash : H) : Effect s { s with cas := hash :: s.cas }
  | startRecord (r : Recording H) (hfree : s.reservedFree) (hmem : r.hash ∈ s.cas) :
    Effect s { s with dbLock := .recording r }
  | record (r : Recording H) (db : Db H) (hlock : s.dbLock = .recording r)
    (hpins : Db.pinOwners lim r.hash (sizeOf r.hash) (s.db.reservationTotals s.holds r.credit none)
      r.fetch r.owners s.db = some db) :
    Effect s { s with db := db, dbLock := .free
                      holds := s.holds.filter fun h => r.credit ≠ some h.id }
  | unlock : Effect s { s with dbLock := .free }
  | unpin (hash : H) (owner : String) (hdb : s.dbFree) :
    Effect s { s with db := s.db.unpin sizeOf hash owner }
  | create (owner : String) (key : Option String) (size : Nat) (hfree : s.reservedFree)
    (hdb : s.dbFree) (hadmits : s.db.admitsUpload lim s.holds owner size) :
    Effect s { s with db := { s.db with sessions := s.newSession owner key size :: s.db.sessions }
                      nextSession := s.nextSession + 1 }
  | beginWork (id : Nat) : Effect s (s.setWriter id (some .begun))
  | readRow (id : Nat) (row : Session H) (hmem : row ∈ s.db.sessions) (hid : row.id = id) :
    Effect s (s.setWriter id (some (.read row)))
  | endWork (id : Nat) : Effect s (s.setWriter id none)
  | prepare (id : Nat) (hash : H) (row : Session H) (hw : s.writers id = some (.read row))
    (hactive : row.state = .active) (hsize : row.size = sizeOf hash) (hdb : s.dbFree) :
    Effect s ({ s with db := s.db.setSession id (Session.prepared hash) }.setWriter id
      (some .begun))
  | publish (id : Nat) (hash : H) (row : Session H) (hw : s.writers id = some (.read row))
    (hstate : row.state = .committing) (hhash : row.actualHash = some hash) :
    Effect s ({ s with cas := hash :: s.cas }.setWriter id (some (.published row)))
  | settle (id : Nat) (hash : H) (row : Session H) (hw : s.writers id = some (.published row))
    (hhash : row.actualHash = some hash) (hfree : s.reservedFree) (hdb : s.dbFree)
    (hfits : s.db.checkPinCapacity lim hash row.owner row.size
      (s.db.reservationTotals s.holds none (some id)) = .fits) :
    Effect s ({ s with
      db := (s.db.insertPin hash row.owner row.size).setSession id Session.settled }.setWriter id
        none)
  | settleHeld (id : Nat) (row : Session H) (hw : s.writers id = some (.published row))
    (hdb : s.dbFree) :
    Effect s ({ s with db := s.db.setSession id Session.settled }.setWriter id none)
  | withdraw (id : Nat) (row : Session H)
    (hw : s.writers id = some (.read row) ∨ s.writers id = some (.published row))
    (hlive : row.live) (hdb : s.dbFree) :
    Effect s ({ s with db := s.db.setSession id Session.withdrawn }.setWriter id none)
  | remove (id : Nat) (hdb : s.dbFree) :
    Effect s ({ s with db := s.db.removeSession id }.setWriter id none)
  | startSweep (hash : H) (hdb : s.dbFree) (hprotects : s.db.protects hash = false) :
    Effect s { s with dbLock := .sweeping hash }
  | unlink (hash : H) (hlock : s.dbLock = .sweeping hash) :
    Effect s { s with cas := s.cas.filter (· ≠ hash), dbLock := .swept hash }
  | settleSweep (hash : H) (hlock : s.dbLock = .swept hash) :
    Effect s { s with db := s.db.dropStray sizeOf hash, dbLock := .free }
  | crash :
    Effect s { s with holds := [], nextHold := 0, reserving := none, dbLock := .free
                      writers := fun _ => none }

variable {lim sizeOf} {s s' : State H}

theorem step_effect {a : Act H} (h : step lim sizeOf s a = some s') : Effect lim sizeOf s s' := by
  refine Yields.elim h ?_
  cases a with
  | reserveStart owner declared =>
    rw [step]
    split
    · exact .same
    · exact .guarded fun hfree => .startReserving owner declared hfree.1
  | reserveOwnerUsed =>
    rw [step]
    split
    · rename_i r hr
      exact .guarded fun _ => .ownerRead r hr
    · trivial
  | reserveTotalUsed =>
    rw [step]
    split
    · rename_i r hr
      exact .guarded fun _ => .totalRead r hr
    · trivial
  | reserveFinish =>
    rw [step]
    split
    · rename_i r hr
      split
      · rename_i ownerUsed totalUsed howner htotal
        split
        · rename_i amount hamount
          split
          · exact .stopReserving
          · exact .hold r ownerUsed totalUsed amount hr howner htotal hamount
        · exact .stopReserving
      · trivial
    · trivial
  | dropReservation id =>
    exact .guarded fun _ => .dropHold id
  | putFile hash =>
    exact .file hash
  | recordBegin kind hash =>
    rw [step]
    split
    · rename_i hfree
      split
      · exact .same
      split
      · rename_i credit _ hmem
        exact .startRecord (kind.recording hash credit) hfree.1 hmem
      · exact .same
    · trivial
  | recordEnd =>
    rw [step]
    split
    · rename_i r hlock
      dsimp only
      split
      · rename_i db hpins
        exact .record r db hlock hpins
      · exact .unlock
    · trivial
  | unpin hash owner =>
    exact .guarded fun hdb => .unpin hash owner hdb
  | uploadCreate owner key size =>
    rw [step]
    split
    · exact .same
    split
    · rename_i hfree
      split
      · exact .same
      split
      · rename_i hadmits
        exact .create owner key size hfree.1 hfree.2 hadmits
      · exact .same
    · trivial
  | guard id =>
    exact .guarded fun _ => .beginWork id
  | readRow id =>
    rw [step]
    split
    · split
      · split
        · rename_i row hfind
          exact .readRow id row (List.mem_of_find?_eq_some hfind)
            (of_decide_eq_true (List.find?_some hfind :))
        · exact .endWork id
      · trivial
    · trivial
  | release id =>
    exact .endWork id
  | prepareCommit id hash =>
    rw [step]
    split
    · rename_i row hw
      split
      · rename_i hcond
        dsimp only
        split
        · exact .prepare id hash row hw hcond.1 hcond.2.1 hcond.2.2.2
        · exact .prepare id hash row hw hcond.1 hcond.2.1 hcond.2.2.2
        · exact .same
      · trivial
    · trivial
  | publish id =>
    rw [step]
    split
    · rename_i row hw
      split
      · rename_i hash hstate hhash
        exact .publish id hash row hw hstate hhash
      · trivial
    · trivial
  | settleCommit id =>
    rw [step]
    split
    · rename_i row hw
      split
      · rename_i hash hhash
        split
        · rename_i hfree
          dsimp only
          rw [Db.pinWithCap]
          cases hcheck : s.db.checkPinCapacity lim hash row.owner row.size
            (s.db.reservationTotals s.holds none (some id)) with
          | fits =>
            exact .settle id hash row hw hhash hfree.1 hfree.2 hcheck
          | held =>
            exact .settleHeld id row hw hfree.2
          | quotaOwner | quotaTotal | outOfRange =>
            exact .same
        · trivial
      · trivial
    · trivial
  | failUpload id =>
    rw [step]
    split
    · rename_i row hw
      exact .guarded fun hok => .withdraw id row (.inl hw) hok.1 hok.2.2
    · rename_i row hw
      exact .guarded fun hok => .withdraw id row (.inr hw) hok.1 hok.2.2
    · trivial
  | removeUpload id =>
    rw [step]
    split
    · exact .guarded fun hok => .remove id hok.2
    · trivial
  | gcCheck hash =>
    rw [step]
    split
    · rename_i hdb
      split
      · exact .same
      · rename_i hprotects
        exact .startSweep hash hdb (Bool.eq_false_iff.mpr hprotects)
    · trivial
  | gcUnlink =>
    rw [step]
    split
    · rename_i hash hlock
      exact .unlink hash hlock
    · trivial
  | gcLeave =>
    rw [step]
    split
    · exact .unlock
    · exact .unlock
    · trivial
  | gcSettle =>
    rw [step]
    split
    · rename_i hash hlock
      exact .settleSweep hash hlock
    · trivial
  | crash =>
    exact .crash

open Lib Lib.Tally List

variable {H : Type} [DecidableEq H] {lim : Limits} {sizeOf : H → Nat}

/-- The row that a worker has read is its session's, and what it published is there. -/
def Rooted (sessions : List (Session H)) (cas : List H) (id : Nat) : Work H → Prop
  | .begun => True
  | .read row => row ∈ sessions ∧ row.id = id
  | .published row => (row ∈ sessions ∧ row.id = id) ∧ row.state = .committing ∧
      ∃ hash ∈ cas, row.actualHash = some hash

omit [DecidableEq H] in
theorem Rooted.mono {sessions sessions' : List (Session H)} {cas cas' : List H} {id : Nat}
    {w : Work H} (h : Rooted sessions cas id w)
    (hrows : ∀ row ∈ sessions, row.id = id → row ∈ sessions') (hcas : cas ⊆ cas') :
    Rooted sessions' cas' id w := by
  cases w with
  | begun => trivial
  | read row => exact ⟨hrows row h.1 h.2, h.2⟩
  | published row =>
    obtain ⟨⟨hmem, hid⟩, hstate, hash, hhash, heq⟩ := h
    exact ⟨⟨hrows row hmem hid, hid⟩, hstate, hash, hcas hhash, heq⟩

/-- What the locks and guards keep. -/
structure Kept (s : State H) : Prop where
  worked : ∀ id w, s.writers id = some w → Rooted s.db.sessions s.cas id w
  recorded : ∀ r, s.dbLock = .recording r → r.hash ∈ s.cas
  unprotected : ∀ hash, s.dbLock = .sweeping hash ∨ s.dbLock = .swept hash →
    s.db.protects hash = false
  pinned : ∀ p ∈ s.db.pins, p.hash ∈ s.cas

namespace Db

variable {db db' : Db H} {hash : H}

theorem protects_eq_false : db.protects hash = false ↔
    (∀ p ∈ db.pins, p.hash ≠ hash) ∧
      ∀ x ∈ db.sessions, x.state = .committing → x.actualHash ≠ some hash := by
  simp [protects]

variable {reserved : List (String × Nat)}

theorem pinOwners_induction {P : Db H → Prop} {size : Nat} {fetch : Bool} {owners : List String}
    (hpin : ∀ db owner, P db → db.checkPinCapacity lim hash owner size reserved = .fits →
      P (db.insertPin hash owner size))
    (hdb : P db) (h : pinOwners lim hash size reserved fetch owners db = some db') : P db' := by
  induction owners generalizing db with
  | nil =>
    cases h
    exact hdb
  | cons owner owners ih =>
    rw [pinOwners, pinWithCap] at h
    cases hcheck : db.checkPinCapacity lim hash owner size reserved with rw [hcheck] at h
    | fits => exact ih (hpin db owner hdb hcheck) h
    | held => exact ih hdb h
    | outOfRange => cases h
    | quotaOwner | quotaTotal =>
      dsimp only at h
      split at h
      · exact ih hdb h
      · cases h

theorem pinOwners_rows {size : Nat} {fetch : Bool}
    {owners : List String} (h : pinOwners lim hash size reserved fetch owners db = some db') :
    (∀ p ∈ db'.pins, p ∈ db.pins ∨ p.hash = hash) ∧ db'.sessions = db.sessions := by
  refine pinOwners_induction
    (P := fun x => (∀ p ∈ x.pins, p ∈ db.pins ∨ p.hash = hash) ∧ x.sessions = db.sessions) ?_
    ⟨fun p hp => .inl hp, rfl⟩ h
  intro x owner hx _
  exact ⟨forall_mem_cons.mpr ⟨.inr rfl, hx.1⟩, hx.2⟩

theorem unpin_sublist (hash : H) (owner : String) :
    (db.unpin sizeOf hash owner).pins.Sublist db.pins := by
  rw [unpin]
  split
  · exact .refl _
  · exact filter_sublist

@[simp] theorem unpin_sessions (hash : H) (owner : String) :
    (db.unpin sizeOf hash owner).sessions = db.sessions := by
  rw [unpin]
  split <;> rfl

omit [DecidableEq H] in
theorem mem_setSession {id : Nat} {f : Session H → Session H} {row : Session H}
    (hmem : row ∈ db.sessions) (hne : row.id ≠ id) : row ∈ (db.setSession id f).sessions :=
  mem_map.mpr ⟨row, hmem, if_neg hne⟩

end Db

variable {s s' : State H}

omit [DecidableEq H] in
theorem State.not_sweeping_of_dbFree (h : s.dbFree) {hash : H} :
    ¬ (s.dbLock = .sweeping hash ∨ s.dbLock = .swept hash) := by
  rw [State.dbFree] at h
  split at h
  · next hfree =>
    rw [hfree]
    rintro (h | h) <;> cases h
  · cases h

variable {w : Option (Work H)}

/-- The holder of a session's guard moves on and changes no row of another session. -/
theorem worked_setWriter (hs : Kept s) {id : Nat} {db : Db H} {cas : List H}
    (hrows : ∀ row ∈ s.db.sessions, row.id ≠ id → row ∈ db.sessions) (hcas : s.cas ⊆ cas)
    (hw : ∀ x, w = some x → Rooted db.sessions cas id x) :
    ∀ j x, Function.update s.writers id w j = some x → Rooted db.sessions cas j x :=
  (Function.forall_update_iff _ fun j w => ∀ x, w = some x → Rooted db.sessions cas j x).mpr
    ⟨hw, fun j hj x hx =>
      (hs.worked j x hx).mono (fun row hmem hid => hrows row hmem (hid ▸ hj)) hcas⟩

theorem Kept.setWriter (hs : Kept s) {id : Nat}
    (hw : ∀ x, w = some x → Rooted s.db.sessions s.cas id x) : Kept (s.setWriter id w) :=
  ⟨worked_setWriter hs (fun _ hmem _ => hmem) (.refl _) hw, hs.recorded,
    hs.unprotected, hs.pinned⟩

/-- A step under the free database lock that keeps the files and gives no pin. -/
theorem Kept.rows (hs : Kept s) (hdb : s.dbFree) {id : Nat} {db : Db H}
    (hrows : ∀ row ∈ s.db.sessions, row.id ≠ id → row ∈ db.sessions) (hpins : db.pins = s.db.pins) (hw : ∀ x, w = some x → Rooted db.sessions s.cas id x) :
    Kept ({ s with db := db }.setWriter id w) := by
  refine ⟨worked_setWriter hs hrows (.refl _) hw, fun r hr => ?_, fun h hh => ?_, ?_⟩
  · exact hs.recorded r hr
  · exact absurd hh (State.not_sweeping_of_dbFree hdb)
  · change ∀ p ∈ db.pins, p.hash ∈ s.cas
    rw [hpins]
    exact hs.pinned

theorem Kept.effect (hs : Kept s) (h : Effect lim sizeOf s s') : Kept s' := by
  cases h with
  | same | startReserving | ownerRead | totalRead | stopReserving | hold | dropHold =>
    exact ⟨hs.worked, hs.recorded, hs.unprotected, hs.pinned⟩
  | file hash =>
    have hsub : s.cas ⊆ hash :: s.cas := subset_cons_self _ _
    exact ⟨fun id w hw => (hs.worked id w hw).mono (fun _ hmem _ => hmem) hsub,
      fun r hr => hsub (hs.recorded r hr), hs.unprotected, fun p hp => hsub (hs.pinned p hp)⟩
  | startRecord r hfree hmem =>
    refine ⟨hs.worked, fun r' hr' => ?_, fun _ hh => hh.elim nofun nofun, hs.pinned⟩
    cases hr'
    exact hmem
  | record r db hlock hpins =>
    obtain ⟨hrows, hsessions⟩ := Db.pinOwners_rows hpins
    refine ⟨?_, nofun, fun _ hh => hh.elim nofun nofun, fun p hp => ?_⟩
    · rw [hsessions]
      exact hs.worked
    · rcases hrows p hp with hold | hnew
      · exact hs.pinned p hold
      · rw [hnew]
        exact hs.recorded r hlock
  | unlock => exact ⟨hs.worked, nofun, fun _ hh => hh.elim nofun nofun, hs.pinned⟩
  | unpin hash owner hdb =>
    refine ⟨?_, hs.recorded, fun _ hh => ?_, fun p hp => ?_⟩
    · simpa using hs.worked
    · exact absurd hh (State.not_sweeping_of_dbFree hdb)
    · exact hs.pinned p ((Db.unpin_sublist hash owner).subset hp)
  | create owner key size hfree hdb =>
    refine ⟨fun id w hw => ?_, hs.recorded, fun _ hh => ?_, hs.pinned⟩
    · exact (hs.worked id w hw).mono (fun _ hmem _ => mem_cons_of_mem _ hmem)
        (.refl _)
    · exact absurd hh (State.not_sweeping_of_dbFree hdb)
  | beginWork =>
    refine hs.setWriter ?_
    rintro x ⟨⟩
    trivial
  | readRow id row hmem hid =>
    refine hs.setWriter ?_
    rintro x ⟨⟩
    exact ⟨hmem, hid⟩
  | endWork => exact hs.setWriter nofun
  | prepare id hash row hw hactive hsize hdb =>
    refine hs.rows hdb (fun _ hmem hne => Db.mem_setSession hmem hne) rfl ?_
    rintro x ⟨⟩
    trivial
  | publish id hash row hw hstate hhash =>
    have hsub : s.cas ⊆ hash :: s.cas := subset_cons_self _ _
    have hrow : row ∈ s.db.sessions ∧ row.id = id := hs.worked id _ hw
    refine ⟨worked_setWriter hs (fun _ hmem _ => hmem) hsub ?_, fun r hr => hsub (hs.recorded r hr),
      hs.unprotected, fun p hp => hsub (hs.pinned p hp)⟩
    rintro x ⟨⟩
    exact ⟨hrow, hstate, hash, mem_cons_self, hhash⟩
  | settle id hash row hw hhash hfree hdb =>
    -- the published bytes have stayed: the row that protects them is still committing
    obtain ⟨-, -, published, hmem, heq⟩ := hs.worked id _ hw
    have hcas : hash ∈ s.cas := by
      rw [hhash] at heq
      rw [Option.some.inj heq]
      exact hmem
    refine ⟨worked_setWriter hs (fun _ hmem hne => Db.mem_setSession hmem hne)
      (.refl _) nofun, hs.recorded, fun _ hh => ?_,
      forall_mem_cons.mpr ⟨hcas, hs.pinned⟩⟩
    exact absurd hh (State.not_sweeping_of_dbFree hdb)
  | settleHeld id row hw hdb | withdraw id row hw hlive hdb =>
    exact hs.rows hdb (fun _ hmem hne => Db.mem_setSession hmem hne) rfl (nofun)
  | remove id hdb =>
    exact hs.rows hdb (fun _ hmem hne => mem_filter.mpr ⟨hmem, decide_eq_true hne⟩) rfl (nofun)
  | startSweep hash hdb hprotects =>
    refine ⟨hs.worked, nofun, fun h hh => ?_, hs.pinned⟩
    rcases hh with hh | hh <;> cases hh
    exact hprotects
  | unlink hash hlock =>
    have hfalse : s.db.protects hash = false := hs.unprotected hash (.inl hlock)
    obtain ⟨hpins, hsessions⟩ := Db.protects_eq_false.mp hfalse
    refine ⟨fun id w hw => ?_, nofun, fun h hh => ?_, fun p hp => ?_⟩
    · have hrooted := hs.worked id w hw
      cases w with
      | begun => trivial
      | read => exact hrooted
      | published row =>
        obtain ⟨hrow, hstate, published, hmem, heq⟩ := hrooted
        have hne : published ≠ hash := by
          rintro rfl
          exact hsessions row hrow.1 hstate heq
        exact ⟨hrow, hstate, published, mem_filter.mpr ⟨hmem, by simpa using hne⟩, heq⟩
    · rcases hh with hh | hh <;> cases hh
      exact hfalse
    · exact mem_filter.mpr ⟨hs.pinned p hp, by simpa using hpins p hp⟩
  | settleSweep =>
    exact ⟨hs.worked, nofun, fun _ hh => hh.elim nofun nofun,
      fun p hp => hs.pinned p (mem_filter.mp hp).1⟩
  | crash => exact ⟨nofun, nofun, fun _ hh => hh.elim nofun nofun, hs.pinned⟩

theorem kept_empty : Kept ({} : State H) where
  worked _ _ hw := nomatch hw
  recorded _ hr := nomatch hr
  unprotected _ hh := hh.elim nofun nofun
  pinned _ hp := nomatch hp

theorem Kept.run {acts : List (Act H)} (hrun : runFrom (step lim sizeOf) {} acts = some s) :
    Kept s :=
  runFrom_invariant (fun _ _ _ hs hstep => hs.effect (step_effect hstep)) kept_empty hrun

/-- Only the sweep takes a file away, and only one that its lock has found unprotected. -/
theorem Kept.unlinked (hs : Kept s) (h : Effect lim sizeOf s s') {hash : H} (hmem : hash ∈ s.cas)
    (hgone : hash ∉ s'.cas) : s.db.protects hash = false := by
  cases h with
  | unlink swept hlock =>
    have heq : hash = swept := by
      by_contra hne
      exact hgone (mem_filter.mpr ⟨hmem, by simpa using hne⟩)
    rw [heq]
    exact hs.unprotected swept (.inl hlock)
  | file | publish => exact absurd (mem_cons_of_mem _ hmem) hgone
  | _ => exact absurd hmem hgone

/-- Each pin has its file, and no step takes away the file of a hash that has a pin or that a
session is committing. -/
theorem acknowledged_pin_never_dangles {acts : List (Act H)}
    (hrun : runFrom (step lim sizeOf) {} acts = some s) :
    (∀ p ∈ s.db.pins, p.hash ∈ s.cas) ∧
    ∀ a s', step lim sizeOf s a = some s' → ∀ hash ∈ s.cas, hash ∉ s'.cas →
      (∀ p ∈ s.db.pins, p.hash ≠ hash) ∧
        ∀ x ∈ s.db.sessions, x.state = .committing → x.actualHash ≠ some hash := by
  have hs : Kept s := Kept.run hrun
  refine ⟨hs.pinned, fun a s' hstep hash hmem hgone => ?_⟩
  exact Db.protects_eq_false.mp (hs.unlinked (step_effect hstep) hmem hgone)

private def smallRoom : Limits where
  owner _ := 100
  total := 200
  uploadsTotal := 4
  uploadsPerOwner := 2

/-- A blob is unpinned, an upload is committed over a crash; the sweep takes the first. -/
private def sweptAfterUnpin : List (Act Nat) :=
  [.putFile 5, .recordBegin (.upload "ann" none) 5, .recordEnd, .gcCheck 5, .unpin 5 "ann",
   .uploadCreate "bob" none 8, .guard 0, .readRow 0, .prepareCommit 0 8, .readRow 0, .publish 0,
   .crash, .gcCheck 8, .guard 0, .readRow 0, .publish 0, .settleCommit 0, .gcCheck 8, .gcCheck 5]

theorem acknowledged_pin_never_dangles_swept :
    (runFrom (step smallRoom id) {} sweptAfterUnpin).map (fun s => (s.db.pins, s.cas, s.dbLock)) =
      some ([⟨8, "bob", 8⟩], [8, 8, 5], .sweeping 5) ∧
    ∀ s, runFrom (step smallRoom id) {} sweptAfterUnpin = some s →
      (∀ p ∈ s.db.pins, p.hash ∈ s.cas) ∧
      ∀ a s', step smallRoom id s a = some s' → ∀ hash ∈ s.cas, hash ∉ s'.cas →
        (∀ p ∈ s.db.pins, p.hash ≠ hash) ∧
          ∀ x ∈ s.db.sessions, x.state = .committing → x.actualHash ≠ some hash :=
  ⟨by decide +kernel, fun _ hrun => acknowledged_pin_never_dangles hrun⟩

end Cosmix.Blobd
