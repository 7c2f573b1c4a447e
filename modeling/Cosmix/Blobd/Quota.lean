/- source: cosmix-blobd/src/core/store.rs, cosmix-blobd/src/core/uploads.rs
   digest: What is used, held and promised stays within the limits; sums that saturate. -/

import Cosmix.Blobd.Sweep
import Mathlib.Data.List.Nodup

/-! Room is given to holds and sessions, and turned into used bytes when a pin is recorded. Whoever
gives room is inside the lock of the reservations; what others do meanwhile gives room back. The
checks saturate: below the largest number a sum that passes is exact, at it every sum passes. -/

namespace Cosmix.Blobd

open Lib Lib.Tally List

variable {H : Type} {lim : Limits} {sizeOf : H → Nat}

def Bounded (lim : Limits) (quota charges : List (String × Nat)) : Prop :=
  (∀ o, get o quota + ofKey o charges ≤ lim.owner o) ∧ total quota + total charges ≤ lim.total

variable {quota charges : List (String × Nat)}

theorem Bounded.mono {quota' charges' : List (String × Nat)} (h : Bounded lim quota charges)
    (hget : ∀ o, get o quota' ≤ get o quota) (htotal : total quota' ≤ total quota)
    (hsub : charges'.Sublist charges) : Bounded lim quota' charges' := by
  refine ⟨fun o => ?_, ?_⟩
  · have h₁ := h.1 o
    have h₂ := hget o
    have h₃ := ofKey_le_of_sublist o hsub
    omega
  · have h₁ := h.2
    have h₂ := total_le_of_sublist hsub
    omega

/-- Another amount for an owner is in bounds when the sums that saturate are. -/
theorem Bounded.grow (hlim : lim.total < u64Max) {quota' charges' : List (String × Nat)}
    (h : Bounded lim quota charges) (owner : String) (n : Nat) {a b : Nat}
    (hget : ∀ o, get o quota' + ofKey o charges' =
      get o quota + ofKey o charges + if o = owner then n else 0)
    (htotal : total quota' + total charges' = total quota + total charges + n)
    (ha : get owner quota + ofKey owner charges ≤ a) (hb : total quota + total charges ≤ b)
    (howner : min (a + n) u64Max ≤ lim.owner owner) (hsum : min (b + n) u64Max ≤ lim.total) :
    Bounded lim quota' charges' := by
  have hnew : total quota' + total charges' ≤ lim.total := by omega
  refine ⟨fun o => ?_, hnew⟩
  by_cases ho : o = owner
  · -- the owner's exact sum is at most the total, so it cannot have reached the cap
    subst ho
    have h₁ := hget o
    have h₂ := get_le_total o quota'
    have h₃ := ofKey_le_total o charges'
    rw [if_pos rfl] at h₁
    omega
  · have h₁ := hget o
    have h₂ := h.1 o
    rw [if_neg ho] at h₁
    omega

theorem Bounded.get_collect (hlim : lim.total < u64Max) (h : Bounded lim quota charges)
    (o : String) : get o (collect u64Max charges) = ofKey o charges := by
  have h₁ := h.2
  have h₂ := ofKey_le_total o charges
  rw [Tally.get_collect (within_of_total (by omega))]
  omega

theorem Bounded.sumReserved_collect (hlim : lim.total < u64Max) (h : Bounded lim quota charges) :
    sumReserved (collect u64Max charges) = total charges := by
  have h₁ := h.2
  rw [sumReserved, satTotal_collect]
  omega

theorem Session.actualHash_settled (x : Session H) : x.settled.actualHash = x.actualHash := by
  rw [settled]
  split <;> rfl

namespace Db

variable {db : Db H}

/-- The rows of a database and its used bytes agree, and its sessions are within the counts. -/
structure Ok (lim : Limits) (sizeOf : H → Nat) (db : Db H) (next : Nat) : Prop where
  used : ∀ o, get o db.quota = ofKey o db.pinCharges
  distinct : db.pins.Pairwise fun p q => ¬ (p.hash = q.hash ∧ p.owner = q.owner)
  honest : ∀ p ∈ db.pins, p.size = sizeOf p.hash
  ids : (db.sessions.map Session.id).Nodup
  below : ∀ x ∈ db.sessions, x.id < next
  sized : ∀ x ∈ db.sessions, ∀ hash, x.actualHash = some hash → x.size = sizeOf hash
  live : db.liveCount ≤ lim.uploadsTotal
  ownerLive : ∀ o, db.ownerLiveCount o ≤ lim.uploadsPerOwner
  receipts : db.sessions.length ≤ lim.receipts

variable {next size : Nat} {hash : H} {owner : String} {f : Session H → Session H}

theorem Ok.eq_of_id (h : Ok lim sizeOf db next) {x y : Session H} (hx : x ∈ db.sessions)
    (hy : y ∈ db.sessions) (hid : x.id = y.id) : x = y :=
  inj_on_of_nodup_map h.ids hx hy hid

theorem receiptCount_add_liveCount : db.receiptCount + db.liveCount = db.sessions.length := by
  have hsplit : ∀ x : Session H, Session.receipt x = !Session.live x := by
    intro x
    cases hx : x.state <;> simp [Session.receipt, Session.live, hx]
  have heq : db.receiptCount = db.sessions.countP fun x => decide ¬ Session.live x = true := by
    exact countP_congr fun x _ => by simp [hsplit x]
  rw [heq, add_comm]
  exact (length_eq_countP_add_countP Session.live).symm

theorem Ok.insertPin (h : Ok lim sizeOf db next)
    (hnew : ∀ p ∈ db.pins, ¬ (p.hash = hash ∧ p.owner = owner)) (hsize : size = sizeOf hash) :
    Ok lim sizeOf (db.insertPin hash owner size) next where
  used o := by
    change get o (put (· + ·) owner size db.quota) = ofKey o ((owner, size) :: db.pinCharges)
    rw [get_put (zero_add size), h.used o, ofKey_cons]
    split <;> omega
  distinct := pairwise_cons.mpr
    ⟨fun p hp hsame => hnew p hp ⟨hsame.1.symm, hsame.2.symm⟩, h.distinct⟩
  honest := forall_mem_cons.mpr ⟨hsize, h.honest⟩
  __ := h

theorem liveCharges_none :
    db.liveCharges none = (db.sessions.filter Session.live).map fun x => (x.owner, x.size) := by
  simp [liveCharges]

theorem charges_map_sublist {sessions : List (Session H)} {p : Session H → Bool}
    (hf : ∀ x ∈ sessions, (f x).live → p x)
    (hkeep : ∀ x, (f x).owner = x.owner ∧ (f x).size = x.size) :
    (((sessions.map f).filter Session.live).map fun x => (x.owner, x.size)).Sublist
      ((sessions.filter p).map fun x => (x.owner, x.size)) := by
  induction sessions with
  | nil => exact .refl _
  | cons x sessions ih =>
    have hrest := ih fun y hy => hf y (mem_cons_of_mem _ hy)
    rw [map_cons]
    by_cases hlive : (f x).live
    · rw [filter_cons_of_pos hlive, filter_cons_of_pos (hf x mem_cons_self hlive),
        map_cons, (hkeep x).1, (hkeep x).2]
      exact hrest.cons_cons _
    · rw [filter_cons_of_neg hlive]
      refine hrest.trans ?_
      exact (sublist_cons_self x sessions).filter p |>.map _

/-- A change of a session's state that keeps its owner and size and makes nothing live. -/
structure Settles (f : Session H → Session H) : Prop where
  id : ∀ x, (f x).id = x.id
  owner : ∀ x, (f x).owner = x.owner
  size : ∀ x, (f x).size = x.size
  live : ∀ x, (f x).live → x.live

theorem settles_withdrawn : Settles (Session.withdrawn (H := H)) where
  id _ := rfl
  owner _ := rfl
  size _ := rfl
  live x h := by simp [Session.withdrawn, Session.live] at h

theorem settles_settled : Settles (Session.settled (H := H)) where
  id x := by rw [Session.settled]; split <;> rfl
  owner x := by rw [Session.settled]; split <;> rfl
  size x := by rw [Session.settled]; split <;> rfl
  live x h := by
    rw [Session.settled] at h
    split at h
    · simp [Session.live] at h
    · exact h

theorem settles_prepared (hash : H) : Settles (Session.prepared hash) where
  id x := by rw [Session.prepared]; split <;> rfl
  owner x := by rw [Session.prepared]; split <;> rfl
  size x := by rw [Session.prepared]; split <;> rfl
  live x h := by
    rw [Session.prepared] at h
    split at h
    · simp [Session.live, ‹x.state = _›]
    · exact h

theorem Settles.at (hf : Settles f) (id : Nat) :
    Settles fun x => if x.id = id then f x else x where
  id x := by split <;> simp [hf.id]
  owner x := by split <;> simp [hf.owner]
  size x := by split <;> simp [hf.size]
  live x h := by
    split at h
    · exact hf.live x h
    · exact h

theorem setSession_charges (hf : Settles f) (id : Nat) :
    ((db.setSession id f).liveCharges none).Sublist (db.liveCharges none) := by
  rw [liveCharges_none, liveCharges_none]
  have hat := hf.at id
  exact charges_map_sublist (fun x _ => hat.live x) fun x => ⟨hat.owner x, hat.size x⟩

theorem Ok.setSession (h : Ok lim sizeOf db next) (hf : Settles f) {id : Nat}
    (hsized : ∀ x ∈ db.sessions, x.id = id → ∀ hash, (f x).actualHash = some hash →
      x.size = sizeOf hash) : Ok lim sizeOf (db.setSession id f) next := by
  have hat := hf.at id
  refine ⟨h.used, h.distinct, h.honest, ?_, ?_, ?_, ?_, ?_, ?_⟩
  · change ((db.sessions.map _).map Session.id).Nodup
    rw [map_map]
    have heq : (Session.id ∘ fun x => if x.id = id then f x else x) = Session.id :=
      funext hat.id
    rw [heq]
    exact h.ids
  · intro x hx
    obtain ⟨y, hy, rfl⟩ := mem_map.mp hx
    rw [hat.id y]
    exact h.below y hy
  · intro x hx hash hhash
    obtain ⟨y, hy, rfl⟩ := mem_map.mp hx
    rw [hat.size y]
    split at hhash
    · exact hsized y hy ‹_› hash hhash
    · exact h.sized y hy hash hhash
  · refine le_trans ?_ h.live
    change (db.sessions.map _).countP _ ≤ _
    rw [countP_map]
    exact countP_mono_left fun x _ => hat.live x
  · intro o
    refine le_trans ?_ (h.ownerLive o)
    change (db.sessions.map _).countP _ ≤ _
    rw [countP_map]
    refine countP_mono_left fun x _ hx => ?_
    obtain ⟨howner, hlive⟩ := Bool.and_eq_true_iff.mp hx
    rw [hat.owner x] at howner
    exact Bool.and_eq_true_iff.mpr ⟨howner, hat.live x hlive⟩
  · change (db.sessions.map _).length ≤ _
    rw [length_map]
    exact h.receipts

theorem Ok.removeSession (h : Ok lim sizeOf db next) (id : Nat) :
    Ok lim sizeOf (db.removeSession id) next := by
  have hsub : (db.removeSession id).sessions.Sublist db.sessions := filter_sublist
  exact ⟨h.used, h.distinct, h.honest, h.ids.sublist (hsub.map _),
    fun x hx => h.below x (hsub.subset hx), fun x hx => h.sized x (hsub.subset hx),
    le_trans (hsub.countP_le) h.live, fun o => le_trans (hsub.countP_le) (h.ownerLive o),
    le_trans hsub.length_le h.receipts⟩

variable [DecidableEq H]

theorem checkPinCapacity_fits {reserved : List (String × Nat)}
    (h : db.checkPinCapacity lim hash owner size reserved = .fits) :
    (∀ p ∈ db.pins, ¬ (p.hash = hash ∧ p.owner = owner)) ∧
      min (get owner db.quota + size + get owner reserved) u64Max ≤ lim.owner owner ∧
      min (total db.quota + size + sumReserved reserved) u64Max ≤ lim.total := by
  rw [checkPinCapacity] at h
  rw [satAdd_satAdd, satAdd_satAdd] at h
  split at h
  · cases h
  split at h
  · cases h
  · split at h
    · cases h
    · split at h
      · cases h
      · rename_i hnone howner htotal
        refine ⟨fun p hp hsame => hnone ?_, Nat.le_of_not_lt howner, Nat.le_of_not_lt htotal⟩
        exact any_eq_true.mpr ⟨p, hp, by simpa using hsame⟩

variable {charges : List (String × Nat)}

theorem insertPin_bounded (hlim : lim.total < u64Max) (h : Bounded lim db.quota charges)
    (hfits : db.checkPinCapacity lim hash owner size (collect u64Max charges) = .fits) :
    Bounded lim (db.insertPin hash owner size).quota charges := by
  obtain ⟨-, howner, htotal⟩ := checkPinCapacity_fits hfits
  rw [h.get_collect hlim] at howner
  rw [h.sumReserved_collect hlim] at htotal
  refine h.grow hlim owner size (fun o => ?_) ?_ le_rfl le_rfl ?_ ?_
  · change get o (put (· + ·) owner size db.quota) + _ = _
    rw [get_put (zero_add size)]
    split <;> omega
  · change total (put (· + ·) owner size db.quota) + _ = _
    rw [total_put]
    omega
  · omega
  · omega

theorem ofKey_filter {pins : List (Pin H)} {row : Pin H}
    (hdistinct : pins.Pairwise fun p q => ¬ (p.hash = q.hash ∧ p.owner = q.owner))
    (hmem : row ∈ pins) (o : String) :
    ofKey o ((pins.filter fun p => ¬ (p.hash = row.hash ∧ p.owner = row.owner)).map
      fun p => (p.owner, p.size)) + (if o = row.owner then row.size else 0) =
    ofKey o (pins.map fun p => (p.owner, p.size)) := by
  induction pins with
  | nil => cases hmem
  | cons p pins ih =>
    obtain ⟨hp, hpins⟩ := pairwise_cons.mp hdistinct
    rcases mem_cons.mp hmem with rfl | hmem
    · have hrest : (pins.filter fun p => ¬ (p.hash = row.hash ∧ p.owner = row.owner)) = pins :=
        filter_eq_self.mpr fun q hq => decide_eq_true fun hsame =>
          hp q hq ⟨hsame.1.symm, hsame.2.symm⟩
      rw [filter_cons_of_neg (by simp), hrest]
      rw [map_cons, ofKey_cons, add_comm]
    · have hother : decide (¬ (p.hash = row.hash ∧ p.owner = row.owner)) = true :=
        decide_eq_true (hp row hmem)
      rw [filter_cons, if_pos hother, map_cons, map_cons, ofKey_cons, ofKey_cons,
        add_assoc, ih hpins hmem]

variable (h : Ok lim sizeOf db next)
include h

theorem unpin_eq (hash : H) (owner : String) :
    db.unpin sizeOf hash owner = db ∨ ∃ row ∈ db.pins, row.hash = hash ∧ row.owner = owner ∧
      db.unpin sizeOf hash owner = { db with
        pins := db.pins.filter fun p => ¬ (p.hash = hash ∧ p.owner = owner)
        quota := take owner row.size db.quota } := by
  rw [unpin]
  split
  · exact .inl rfl
  rename_i row hfind
  have hmem : row ∈ db.pins := mem_of_find?_eq_some hfind
  have hrow : row.hash = hash ∧ row.owner = owner := by
    simpa using find?_some hfind
  have hsize : (if 0 < row.size then row.size else sizeOf hash) = row.size := by
    have hhonest := h.honest row hmem
    rw [hrow.1] at hhonest
    split <;> omega
  rw [hsize]
  exact .inr ⟨row, hmem, hrow.1, hrow.2, rfl⟩

theorem Ok.size_le_used {row : Pin H} (hmem : row ∈ db.pins) :
    row.size ≤ get row.owner db.quota := by
  have hsplit := ofKey_filter h.distinct hmem row.owner
  rw [if_pos rfl] at hsplit
  have hused := h.used row.owner
  rw [pinCharges] at hused
  omega

theorem Ok.unpin (hash : H) (owner : String) : Ok lim sizeOf (db.unpin sizeOf hash owner) next := by
  rcases unpin_eq h hash owner with heq | ⟨row, hmem, rfl, rfl, heq⟩
  · rw [heq]
    exact h
  rw [heq]
  refine ⟨fun o => ?_, h.distinct.filter _, fun p hp => h.honest p (mem_filter.mp hp).1,
    h.ids, h.below, h.sized, h.live, h.ownerLive, h.receipts⟩
  have hsplit := ofKey_filter h.distinct hmem o
  have hused := h.used o
  rw [pinCharges] at hused
  change get o (take row.owner row.size db.quota) = ofKey o (List.map _ (List.filter _ db.pins))
  rw [get_take]
  split at hsplit
  · rw [if_pos ‹_›]
    omega
  · rw [if_neg ‹_›]
    omega

theorem unpin_quota (hash : H) (owner : String) :
    (∀ o, get o (db.unpin sizeOf hash owner).quota ≤ get o db.quota) ∧
      total (db.unpin sizeOf hash owner).quota ≤ total db.quota := by
  rcases unpin_eq h hash owner with heq | ⟨row, hmem, rfl, rfl, heq⟩
  · rw [heq]
    exact ⟨fun _ => le_rfl, le_rfl⟩
  rw [heq]
  refine ⟨fun o => ?_, ?_⟩
  · rw [get_take]
    split <;> omega
  · have htake := total_take (h.size_le_used hmem)
    change total (take row.owner row.size db.quota) ≤ _
    omega

omit h

theorem dropStray_eq (h : db.protects hash = false) : db.dropStray sizeOf hash = db := by
  have hpins := (protects_eq_false.mp h).1
  have hkeep : (db.pins.filter fun p => p.hash ≠ hash) = db.pins :=
    filter_eq_self.mpr fun p hp => decide_eq_true (hpins p hp)
  have hnone : (db.pins.filter fun p => p.hash = hash) = [] :=
    filter_eq_nil_iff.mpr fun p hp => by simpa using hpins p hp
  rw [dropStray, hkeep, hnone]
  rfl

theorem pinOwners_ok (hlim : lim.total < u64Max) {db' : Db H}
    {fetch : Bool} {owners : List String} (hok : Ok lim sizeOf db next)
    (hbounded : Bounded lim db.quota charges)
    (h : pinOwners lim hash (sizeOf hash) (collect u64Max charges) fetch owners db = some db') :
    Ok lim sizeOf db' next ∧ Bounded lim db'.quota charges := by
  refine pinOwners_induction
    (P := fun x => Ok lim sizeOf x next ∧ Bounded lim x.quota charges) ?_ ⟨hok, hbounded⟩ h
  intro x owner hx hfits
  exact ⟨hx.1.insertPin (checkPinCapacity_fits hfits).1 rfl, insertPin_bounded hlim hx.2 hfits⟩

end Db

section

variable {holds : List Hold}

theorem holdCharges_none : holdCharges holds none = holds.map fun h => (h.owner, h.amount) := by
  simp [holdCharges]

end

variable {r : Reserving}

theorem Reserving.amount_fits {ownerUsed totalUsed n : Nat}
    (h : r.amount lim ownerUsed totalUsed = some n) :
    n = 0 ∨ min (ownerUsed + r.ownerReserved + n) u64Max ≤ lim.owner r.owner ∧
      min (totalUsed + r.totalReserved + n) u64Max ≤ lim.total := by
  rw [Reserving.amount] at h
  split at h
  · rw [satAdd_satAdd, satAdd_satAdd] at h
    split at h
    · cases h
    split at h
    · cases h
    · cases h
      exact .inr ⟨Nat.le_of_not_lt ‹_›, Nat.le_of_not_lt ‹_›⟩
  · have heq := Option.some.inj h
    rw [satAdd, satAdd] at heq
    omega

section

variable {s s' : State H}

/-- What a thread that reserves has read covers what there is. -/
structure Covered (s : State H) (r : Reserving) : Prop where
  ownerReserved : ofKey r.owner s.charges ≤ r.ownerReserved
  totalReserved : total s.charges ≤ r.totalReserved
  ownerUsed : ∀ n, r.ownerUsed = some n → get r.owner s.db.quota ≤ n
  totalUsed : ∀ n, r.totalUsed = some n → total s.db.quota ≤ n

structure Shrinks (s s' : State H) : Prop where
  used : ∀ o, get o s'.db.quota ≤ get o s.db.quota
  total : total s'.db.quota ≤ total s.db.quota
  charges : s'.charges.Sublist s.charges

theorem Covered.shrink (h : Covered s r) (hs : Shrinks s s') : Covered s' r where
  ownerReserved := le_trans (ofKey_le_of_sublist _ hs.charges) h.ownerReserved
  totalReserved := le_trans (total_le_of_sublist hs.charges) h.totalReserved
  ownerUsed n hn := le_trans (hs.used _) (h.ownerUsed n hn)
  totalUsed n hn := le_trans hs.total (h.totalUsed n hn)

structure Solvent (lim : Limits) (sizeOf : H → Nat) (s : State H) : Prop where
  ok : s.db.Ok lim sizeOf s.nextSession
  bounded : Bounded lim s.db.quota s.charges
  exclusive : ∀ r, s.dbLock = .recording r → s.reserving = none
  covered : ∀ r, s.reserving = some r → Covered s r

theorem Shrinks.of_rows (hquota : s'.db.quota = s.db.quota) (hholds : s'.holds.Sublist s.holds)
    (hlive : (s'.db.liveCharges none).Sublist (s.db.liveCharges none)) : Shrinks s s' where
  used o := le_of_eq (by rw [hquota])
  total := le_of_eq (by rw [hquota])
  charges := by
    rw [State.charges, State.charges, holdCharges_none, holdCharges_none]
    exact (hholds.map _).append hlive

theorem Shrinks.of_same (hdb : s'.db = s.db) (hholds : s'.holds = s.holds) : Shrinks s s' :=
  .of_rows (by rw [hdb]) (by rw [hholds]) (by rw [hdb])

theorem State.reserving_of_reservedFree (h : s.reservedFree) : s.reserving = none :=
  Option.isNone_iff_eq_none.mp (Bool.and_eq_true_iff.mp h).1

theorem State.not_recording_of_reservedFree (h : s.reservedFree) (r : Recording H) :
    s.dbLock ≠ .recording r := by
  intro hlock
  have hfree := (Bool.and_eq_true_iff.mp h).2
  rw [hlock] at hfree
  cases hfree

theorem Solvent.grow (hok : s'.db.Ok lim sizeOf s'.nextSession)
    (hbounded : Bounded lim s'.db.quota s'.charges) (hnone : s'.reserving = none) :
    Solvent lim sizeOf s' where
  ok := hok
  bounded := hbounded
  exclusive _ _ := hnone
  covered r hr := by
    rw [hnone] at hr
    cases hr

theorem admitsUpload_iff {db : Db H} {holds : List Hold} {owner : String} {size : Nat}
    (h : db.admitsUpload lim holds owner size) :
    db.liveCount < lim.uploadsTotal ∧ db.ownerLiveCount owner < lim.uploadsPerOwner ∧
      db.sessions.length < lim.receipts ∧
      min (get owner db.quota + get owner (db.reservationTotals holds none none) + size) u64Max ≤
        lim.owner owner ∧
      min (total db.quota + sumReserved (db.reservationTotals holds none none) + size) u64Max ≤
        lim.total := by
  rw [Db.admitsUpload] at h
  simpa [satAdd_satAdd, Db.receiptCount_add_liveCount, and_assoc] using h

section

variable (h : Solvent lim sizeOf s)
include h

/-- Whatever gives room back keeps the store solvent, also while someone reserves. -/
theorem Solvent.shrink (hok : s'.db.Ok lim sizeOf s'.nextSession)
    (hs : Shrinks s s') (hlock : ∀ r, s'.dbLock = .recording r → s'.reserving = none)
    (hreserving : ∀ r, s'.reserving = some r → s.reserving = some r) : Solvent lim sizeOf s' where
  ok := hok
  bounded := h.bounded.mono hs.used hs.total hs.charges
  exclusive := hlock
  covered r hr := (h.covered r (hreserving r hr)).shrink hs

theorem Solvent.reread {r' : Reserving} (hr : s.reserving = some r)
    (hcovered : Covered s r') : Solvent lim sizeOf { s with reserving := some r' } := by
  refine ⟨h.ok, h.bounded, fun x hx => ?_, fun x hx => ?_⟩
  · cases (h.exclusive x hx).symm.trans hr
  · cases hx
    exact { hcovered with }

variable (hlim : lim.total < u64Max)
include hlim

theorem Solvent.startReserving (hfree : s.reservedFree) (owner : String) (declared : Option Nat) :
    Solvent lim sizeOf { s with reserving := some (s.startReserving owner declared) } where
  ok := h.ok
  bounded := h.bounded
  exclusive r hr := absurd hr (State.not_recording_of_reservedFree hfree r)
  covered r hr := by
    cases hr
    exact ⟨le_of_eq (h.bounded.get_collect hlim owner).symm,
      le_of_eq (h.bounded.sumReserved_collect hlim).symm, nofun,
      nofun⟩

theorem Solvent.hold (hr : s.reserving = some r) {ownerUsed totalUsed n : Nat}
    (howner : r.ownerUsed = some ownerUsed) (htotal : r.totalUsed = some totalUsed)
    (hamount : r.amount lim ownerUsed totalUsed = some n) (id next : Nat) :
    Solvent lim sizeOf { s with holds := ⟨id, r.owner, n⟩ :: s.holds, nextHold := next
                                reserving := none } := by
  have hcovered := h.covered r hr
  have hcharges : State.charges { s with holds := ⟨id, r.owner, n⟩ :: s.holds, nextHold := next
                                         reserving := none } = (r.owner, n) :: s.charges := by
    rfl
  refine Solvent.grow h.ok ?_ rfl
  change Bounded lim s.db.quota (State.charges _)
  rw [hcharges]
  rcases Reserving.amount_fits hamount with rfl | ⟨hle, hsum⟩
  · refine ⟨fun o => ?_, ?_⟩
    · rw [ofKey_cons, ite_self, zero_add]
      exact h.bounded.1 o
    · rw [total_cons, zero_add]
      exact h.bounded.2
  · refine h.bounded.grow hlim r.owner n (fun o => ?_) ?_ (a := ownerUsed + r.ownerReserved)
      (b := totalUsed + r.totalReserved) ?_ ?_ hle hsum
    · simp only [ofKey_cons]
      omega
    · rw [total_cons]
      omega
    · have h₁ := hcovered.ownerReserved
      have h₂ := hcovered.ownerUsed ownerUsed howner
      omega
    · have h₁ := hcovered.totalReserved
      have h₂ := hcovered.totalUsed totalUsed htotal
      omega

theorem Solvent.create (hfree : s.reservedFree) {owner : String} {size : Nat}
    (hadmits : s.db.admitsUpload lim s.holds owner size) (key : Option String) :
    Solvent lim sizeOf { s with
      db := { s.db with sessions := s.newSession owner key size :: s.db.sessions }
      nextSession := s.nextSession + 1 } := by
  obtain ⟨hlive, howner, hreceipts, hle, hsum⟩ := admitsUpload_iff hadmits
  have hget := h.bounded.get_collect hlim owner
  have htotal := h.bounded.sumReserved_collect hlim
  refine Solvent.grow ?_ ?_ (State.reserving_of_reservedFree hfree)
  · refine ⟨h.ok.used, h.ok.distinct, h.ok.honest, ?_, ?_, ?_, ?_, ?_, hreceipts⟩
    · refine nodup_cons.mpr ⟨fun hmem => ?_, h.ok.ids⟩
      obtain ⟨x, hx, hid⟩ := mem_map.mp hmem
      exact lt_irrefl _ (hid ▸ h.ok.below x hx)
    · exact forall_mem_cons.mpr
        ⟨Nat.lt_succ_self _, fun x hx => Nat.lt_succ_of_lt (h.ok.below x hx)⟩
    · exact forall_mem_cons.mpr ⟨nofun, h.ok.sized⟩
    · rw [Db.liveCount, countP_cons]
      change s.db.liveCount + _ ≤ _
      split <;> omega
    · intro o
      rw [Db.ownerLiveCount, countP_cons]
      change s.db.ownerLiveCount o + _ ≤ _
      have hold := h.ok.ownerLive o
      split
      · rename_i hnew
        have ho : owner = o := of_decide_eq_true (Bool.and_eq_true_iff.mp hnew).1
        subst ho
        omega
      · omega
  · have hcharges : Db.liveCharges { s.db with
        sessions := s.newSession owner key size :: s.db.sessions } none =
        (owner, size) :: s.db.liveCharges none := by
      rfl
    change Bounded lim s.db.quota (holdCharges s.holds none ++ Db.liveCharges _ none)
    rw [hcharges]
    refine h.bounded.grow hlim owner size (fun o => ?_) ?_ le_rfl le_rfl ?_ ?_
    · simp only [State.charges, ofKey_append, ofKey_cons]
      omega
    · rw [State.charges, total_append, total_append, total_cons]
      omega
    · rw [← hget]
      exact hle
    · rw [← htotal]
      exact hsum

variable [DecidableEq H]

theorem Solvent.record {r : Recording H} {db : Db H} (hlock : s.dbLock = .recording r)
    (hpins : Db.pinOwners lim r.hash (sizeOf r.hash) (s.db.reservationTotals s.holds r.credit none)
      r.fetch r.owners s.db = some db) :
    Solvent lim sizeOf { s with db := db, dbLock := .free
                                holds := s.holds.filter fun x => r.credit ≠ some x.id } := by
  have hsub : (holdCharges s.holds r.credit ++ s.db.liveCharges none).Sublist s.charges := by
    rw [State.charges, holdCharges_none]
    exact (filter_sublist.map _).append (.refl _)
  have hrest := h.bounded.mono (fun _ => le_rfl) le_rfl hsub
  obtain ⟨hok, hbounded⟩ := Db.pinOwners_ok hlim h.ok hrest hpins
  refine Solvent.grow hok ?_ (h.exclusive r hlock)
  rw [State.charges, holdCharges_none, Db.liveCharges, (Db.pinOwners_rows hpins).2]
  exact hbounded

variable (hkept : Kept s)
include hkept

theorem Solvent.settle {id : Nat} {hash : H} {row : Session H} (hw : s.writers id = some (.published row))
    (hhash : row.actualHash = some hash) (hfree : s.reservedFree)
    (hfits : s.db.checkPinCapacity lim hash row.owner row.size
      (s.db.reservationTotals s.holds none (some id)) = .fits) :
    Solvent lim sizeOf ({ s with
      db := (s.db.insertPin hash row.owner row.size).setSession id Session.settled }.setWriter id
        none) := by
  obtain ⟨⟨hmem, hid⟩, hstate, -⟩ := hkept.worked id _ hw
  have hsize : row.size = sizeOf hash := h.ok.sized row hmem hash hhash
  -- the room that is checked leaves out what this session was promised
  have hsub : (holdCharges s.holds none ++ s.db.liveCharges (some id)).Sublist s.charges := by
    refine (List.Sublist.refl _).append ?_
    rw [Db.liveCharges_none]
    refine List.Sublist.map _ (monotone_filter_right _ fun x hx => ?_)
    exact (Bool.and_eq_true_iff.mp hx).1
  have hrest := h.bounded.mono (fun _ => le_rfl) le_rfl hsub
  refine Solvent.grow ?_ ?_ (State.reserving_of_reservedFree hfree)
  · exact (h.ok.insertPin (Db.checkPinCapacity_fits hfits).1 hsize).setSession Db.settles_settled
      fun x hx _ => x.actualHash_settled ▸ h.ok.sized x hx
  · refine (Db.insertPin_bounded hlim hrest hfits).mono (fun _ => le_rfl) le_rfl ?_
    refine (List.Sublist.refl _).append ?_
    rw [Db.liveCharges_none]
    have hat := Db.settles_settled.at (H := H) id
    refine Db.charges_map_sublist (fun x hx hlive => ?_) fun x => ⟨hat.owner x, hat.size x⟩
    have hne : x.id ≠ id := by
      intro heq
      have hrow : x = row := h.ok.eq_of_id hx hmem (heq.trans hid.symm)
      rw [if_pos heq, Session.settled, hrow, if_pos hstate] at hlive
      simp [Session.live] at hlive
    simpa [Ne.symm hne] using hat.live x hlive

omit hlim in
theorem Solvent.prepare {id : Nat} {hash : H}
    {row : Session H} (hw : s.writers id = some (.read row)) (hsize : row.size = sizeOf hash) :
    Solvent lim sizeOf ({ s with db := s.db.setSession id (Session.prepared hash) }.setWriter id
      (some .begun)) := by
  obtain ⟨hmem, hid⟩ := hkept.worked id _ hw
  refine h.shrink ?_ (.of_rows rfl (.refl _)
    (Db.setSession_charges (Db.settles_prepared hash) id)) h.exclusive fun _ hr => hr
  refine h.ok.setSession (Db.settles_prepared hash) fun x hx heq found hfound => ?_
  have hrow : x = row := h.ok.eq_of_id hx hmem (heq.trans hid.symm)
  rw [Session.prepared] at hfound
  split at hfound
  · rw [← Option.some.inj hfound, hrow]
    exact hsize
  · exact h.ok.sized x hx found hfound

theorem Solvent.effect (he : Effect lim sizeOf s s') : Solvent lim sizeOf s' := by
  cases he with
  | same => exact h
  | startReserving owner declared hfree => exact h.startReserving hlim hfree owner declared
  | ownerRead r hr =>
    exact h.reread hr { h.covered r hr with
      ownerUsed := fun n hn => le_of_eq (Option.some.inj hn) }
  | totalRead r hr =>
    exact h.reread hr { h.covered r hr with
      totalUsed := fun n hn => le_of_eq (Option.some.inj hn) }
  | stopReserving => exact Solvent.grow h.ok h.bounded rfl
  | hold r ownerUsed totalUsed amount hr howner htotal hamount =>
    exact h.hold hlim hr howner htotal hamount _ _
  | dropHold =>
    exact h.shrink h.ok (.of_rows rfl filter_sublist (.refl _)) h.exclusive
      fun _ hr => hr
  | file | beginWork | readRow | endWork | publish =>
    exact h.shrink h.ok (.of_same rfl rfl) h.exclusive fun _ hr => hr
  | startRecord r hfree =>
    have hnone : s.reserving = none := State.reserving_of_reservedFree hfree
    exact Solvent.grow h.ok h.bounded hnone
  | record r db hlock hpins => exact h.record hlim hlock hpins
  | unlock | startSweep | unlink =>
    exact h.shrink h.ok (.of_same rfl rfl) (nofun) fun _ hr => hr
  | unpin hash owner =>
    obtain ⟨hused, htotal⟩ := Db.unpin_quota h.ok hash owner
    refine h.shrink (h.ok.unpin hash owner) ⟨hused, htotal, ?_⟩ h.exclusive fun _ hr => hr
    rw [State.charges, State.charges, Db.liveCharges, Db.liveCharges, Db.unpin_sessions]
  | create owner key size hfree hdb hadmits => exact h.create hlim hfree hadmits key
  | prepare id hash row hw hactive hsize => exact h.prepare hkept hw hsize
  | settle id hash row hw hhash hfree hdb hfits => exact h.settle hlim hkept hw hhash hfree hfits
  | settleHeld id =>
    refine h.shrink ?_ (.of_rows rfl (.refl _)
      (Db.setSession_charges Db.settles_settled id)) h.exclusive fun _ hr => hr
    exact h.ok.setSession Db.settles_settled fun x hx _ => x.actualHash_settled ▸ h.ok.sized x hx
  | withdraw id =>
    refine h.shrink ?_ (.of_rows rfl (.refl _)
      (Db.setSession_charges Db.settles_withdrawn id)) h.exclusive fun _ hr => hr
    exact h.ok.setSession Db.settles_withdrawn fun x hx _ found hfound => h.ok.sized x hx found hfound
  | remove id =>
    exact h.shrink (h.ok.removeSession id) (.of_rows rfl (.refl _)
      ((filter_sublist.filter _).map _)) h.exclusive fun _ hr => hr
  | settleSweep hash hlock =>
    rw [Db.dropStray_eq (hkept.unprotected hash (.inr hlock))]
    exact h.shrink h.ok (.of_same rfl rfl) (nofun) fun _ hr => hr
  | crash =>
    exact h.shrink h.ok (.of_rows rfl (nil_sublist _) (.refl _))
      (nofun) nofun

end

theorem solvent_empty : Solvent lim sizeOf ({} : State H) where
  ok :=
    { used := fun _ => rfl
      distinct := .nil
      honest := nofun
      ids := nodup_nil
      below := nofun
      sized := nofun
      live := Nat.zero_le _
      ownerLive := fun _ => Nat.zero_le _
      receipts := Nat.zero_le _ }
  bounded := ⟨fun _ => Nat.zero_le _, Nat.zero_le _⟩
  exclusive _ hr := nomatch hr
  covered _ hr := nomatch hr

variable [DecidableEq H]

theorem Solvent.run (hlim : lim.total < u64Max) {acts : List (Act H)}
    (hrun : runFrom (step lim sizeOf) {} acts = some s) : Solvent lim sizeOf s := by
  have hboth : Kept s ∧ Solvent lim sizeOf s := by
    refine runFrom_invariant (P := fun s => Kept s ∧ Solvent lim sizeOf s) ?_
      ⟨kept_empty, solvent_empty⟩ hrun
    intro t a t' ht hstep
    have he : Effect lim sizeOf t t' := step_effect hstep
    exact ⟨ht.1.effect he, ht.2.effect hlim ht.1 he⟩
  exact hboth.2

/-- With a total limit below the largest number, used bytes are what the pins recorded, and within
the limits with holds and live sessions. -/
theorem quotas_never_overspent (hlim : lim.total < u64Max) {acts : List (Act H)}
    (hrun : runFrom (step lim sizeOf) {} acts = some s) :
    (∀ o, get o s.db.quota = ofKey o s.db.pinCharges) ∧
    (∀ o, get o s.db.quota + ofKey o (holdCharges s.holds none) + ofKey o (s.db.liveCharges none) ≤
      lim.owner o) ∧
    total s.db.quota + total (holdCharges s.holds none) + total (s.db.liveCharges none) ≤
      lim.total ∧
    s.db.liveCount ≤ lim.uploadsTotal ∧ (∀ o, s.db.ownerLiveCount o ≤ lim.uploadsPerOwner) ∧
    s.db.receiptCount + s.db.liveCount ≤ lim.receipts := by
  have h : Solvent lim sizeOf s := Solvent.run hlim hrun
  refine ⟨h.ok.used, fun o => ?_, ?_, h.ok.live, h.ok.ownerLive, ?_⟩
  · have hle := h.bounded.1 o
    rw [State.charges, ofKey_append] at hle
    omega
  · have hle := h.bounded.2
    rw [State.charges, total_append] at hle
    omega
  · rw [Db.receiptCount_add_liveCount]
    exact h.ok.receipts

end

private def plainLimits (owner total : Nat) : Limits where
  owner _ := owner
  total := total
  uploadsTotal := 4
  uploadsPerOwner := 2

private def reserves (owner : String) (declared : Option Nat) : List (Act Nat) :=
  [.reserveStart owner declared, .reserveOwnerUsed, .reserveTotalUsed, .reserveFinish]

/-- A session takes eight, a blob of five is reserved and put, and one without a size gets the rest.
-/
private def filledUp : List (Act Nat) :=
  [.uploadCreate "ann" none 8] ++ reserves "ann" (some 6) ++
    [.putFile 5, .recordBegin (.upload "ann" (some 1)) 5, .recordEnd] ++ reserves "ann" none

theorem quotas_never_overspent_filled :
    (plainLimits 20 30).total < u64Max ∧
    (runFrom (step (plainLimits 20 30) id) {} filledUp).map
      (fun s => (s.db.quota, s.holds, s.db.liveCharges none)) =
        some ([("ann", 5)], [⟨2, "ann", 7⟩], [("ann", 8)]) ∧
    ∀ s, runFrom (step (plainLimits 20 30) id) {} filledUp = some s →
      (∀ o, get o s.db.quota = ofKey o s.db.pinCharges) ∧
      (∀ o, get o s.db.quota + ofKey o (holdCharges s.holds none) +
        ofKey o (s.db.liveCharges none) ≤ (plainLimits 20 30).owner o) ∧
      total s.db.quota + total (holdCharges s.holds none) + total (s.db.liveCharges none) ≤
        (plainLimits 20 30).total ∧
      s.db.liveCount ≤ (plainLimits 20 30).uploadsTotal ∧
      (∀ o, s.db.ownerLiveCount o ≤ (plainLimits 20 30).uploadsPerOwner) ∧
      s.db.receiptCount + s.db.liveCount ≤ (plainLimits 20 30).receipts :=
  ⟨by decide, by decide +kernel, fun _ hrun => quotas_never_overspent (by decide) hrun⟩

/-- At the largest limit the sums saturate: three reservations of the largest size are given. -/
private def overspent : List (Act Nat) :=
  reserves "ann" (some i64Max) ++ reserves "ann" (some i64Max) ++ reserves "ann" (some i64Max)

theorem saturated_limit_overspent :
    ∃ s, runFrom (step (plainLimits u64Max u64Max) id) {} overspent = some s ∧
      (plainLimits u64Max u64Max).owner "ann" < get "ann" s.db.quota +
        ofKey "ann" (holdCharges s.holds none) + ofKey "ann" (s.db.liveCharges none) ∧
      (plainLimits u64Max u64Max).total < total s.db.quota + total (holdCharges s.holds none) +
        total (s.db.liveCharges none) := by
  have hmap : (runFrom (step (plainLimits u64Max u64Max) id) {} overspent).map
      (fun s => (s.db.quota, holdCharges s.holds none, s.db.liveCharges none)) =
        some ([], [("ann", i64Max), ("ann", i64Max), ("ann", i64Max)], []) := by
    decide +kernel
  obtain ⟨s, hrun, heq⟩ := Option.map_eq_some_iff.mp hmap
  obtain ⟨hquota, hholds, hlive⟩ := Prod.mk.inj heq |>.imp id Prod.mk.inj
  refine ⟨s, hrun, ?_, ?_⟩
  · rw [hquota, hholds, hlive]
    decide
  · rw [hquota, hholds, hlive]
    decide

end Cosmix.Blobd
