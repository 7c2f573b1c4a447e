/- source: cosmix-blobd/src/core/store.rs
   digest: The reference an upload returns, against the stat right after it. -/

import Cosmix.Blobd.Upload

namespace Cosmix.Blobd.Attributes

open Lib Lib.Tally
open Function (update)
open Resumable (Attrs)

structure Store where
  db : Db BlobHash := {}
  holds : List Hold := []
  nextHold : Nat := 0
  cas : List BlobHash := []
  attrs : BlobHash → Option Attrs := fun _ => none

structure PutOutcome where
  reference : Reference
  newlyPinned : Bool

structure StatInfo where
  present : Bool
  size : Option Nat
  mime : Option String
  name : Option String
  pins : List String
  origin : Option String

inductive Call
  /-- No hash: the source is refused. The length is that of the opened file. -/
  | put (source : Option BlobHash) (length : Nat) (mime name : Option String) (path owner : String)
  | recordUpload (hash : BlobHash) (size : Nat) (mime : String) (name : Option String) (owner : String)
  | recordFetch (hash : BlobHash) (size : Nat) (mime sourceNode : String) (owners : List String)
  | pin (hash : BlobHash) (owner : String)
  | unpin (hash : BlobHash) (owner : String)
  | gc (referenced old : BlobHash → Bool) (dryRun : Bool)
  /-- The bytes of an upload or of a fetch have been received. -/
  | received (hash : BlobHash)

/-- What a store is opened with; `sizeOf` is the length of the bytes that have a hash. -/
structure Options where
  origin : String
  lim : Limits
  sniff : String → String
  sizeOf : BlobHash → Nat

namespace Store

variable (opt : Options) (s : Store)

def stat (index : BlobHash → Option Nat) (hash : BlobHash) : StatInfo where
  present := decide (hash ∈ s.cas)
  size := if hash ∈ s.cas then some (opt.sizeOf hash) else index hash
  mime := (s.attrs hash).map Attrs.mime
  name := (s.attrs hash).bind Attrs.name
  pins := ((s.db.pins.filter (·.hash = hash)).map Pin.owner).mergeSort
  origin := (s.attrs hash).map Attrs.origin

def reserveUpload (owner : String) (declared : Nat) : Option (Nat × Store) :=
  let reserved := s.db.reservationTotals s.holds none none
  let r : Reserving := { owner := owner, declared := some declared
                         ownerReserved := get owner reserved, totalReserved := sumReserved reserved }
  if i64Max < declared then none
  else (r.amount opt.lim (get owner s.db.quota) (total s.db.quota)).bind fun amount =>
    if u64Max ≤ s.nextHold then none
    else some (s.nextHold + 1, { s with holds := ⟨s.nextHold + 1, owner, amount⟩ :: s.holds
                                        nextHold := s.nextHold + 1 })

def dropHold (id : Option Nat) : Store := { s with holds := s.holds.filter fun h => id ≠ some h.id }

variable (hash : BlobHash)

/-- The row of a hash after one was offered: an old row stays. -/
def insertOrIgnore (row : Attrs) : Store :=
  { s with attrs := update s.attrs hash (some ((s.attrs hash).getD row)) }

def recordUploadReserved (size : Nat) (mime : String) (name : Option String)
    (owner : String) (reservation : Option Nat) : Option (PutOutcome × Store) :=
  ((RecordKind.upload owner reservation).credit s.holds size).bind fun credit =>
    if hash ∉ s.cas then none
    else
      let row := (s.attrs hash).getD ⟨mime, name, opt.origin⟩
      let reserved := s.db.reservationTotals s.holds (credit.map Hold.id) none
      let out (db : Db BlobHash) (pinned : Bool) : PutOutcome × Store :=
        (⟨⟨hash, size, row.mime, row.name, opt.origin⟩, pinned⟩,
          { s.insertOrIgnore hash ⟨mime, name, opt.origin⟩ with db := db }.dropHold
            (credit.map Hold.id))
      match s.db.pinWithCap opt.lim hash owner size reserved with
      | (.fits, db) => some (out db true)
      | (.held, db) => some (out db false)
      | _ => none

def put (source : Option BlobHash) (length : Nat) (mime name : Option String) (path owner : String) :
    Option PutOutcome × Store :=
  match source, s.reserveUpload opt owner length with
  | some hash, some (id, s₁) =>
    let s₂ := { s₁ with cas := hash :: s₁.cas }
    match s₂.recordUploadReserved opt hash (opt.sizeOf hash)
        (mime.getD (opt.sniff (name.getD path))) name owner (some id) with
    | some (out, s₃) => (some out, s₃.dropHold (some id))
    | none => (none, s₂.dropHold (some id))
  | _, _ => (none, s)

def recordFetch (size : Nat) (mime sourceNode : String) (owners : List String) : Store :=
  if hash ∉ s.cas then s
  else
    match Db.pinOwners opt.lim hash size (s.db.reservationTotals s.holds none none) true owners s.db with
    | some db => { s.insertOrIgnore hash ⟨mime, none, sourceNode⟩ with db := db }
    | none => s

def pin (owner : String) : Store :=
  if hash ∉ s.cas then s
  else { s with db := (s.db.pinWithCap opt.lim hash owner (opt.sizeOf hash)
                        (s.db.reservationTotals s.holds none none)).2 }

def sweep (referenced old : BlobHash → Bool) (dryRun : Bool) (hash : BlobHash) : Store :=
  if referenced hash || s.db.protects hash || !old hash || dryRun then s
  else { s with cas := s.cas.filter (· ≠ hash), db := s.db.dropStray opt.sizeOf hash
                attrs := update s.attrs hash none }

def gc (referenced old : BlobHash → Bool) (dryRun : Bool) : Store :=
  s.cas.foldl (fun s hash => s.sweep opt referenced old dryRun hash) s

def step : Call → Option PutOutcome × Store
  | .put source length mime name path owner => s.put opt source length mime name path owner
  | .recordUpload hash size mime name owner =>
    match s.recordUploadReserved opt hash size mime name owner none with
    | some (out, s') => (some out, s')
    | none => (none, s)
  | .recordFetch hash size mime sourceNode owners =>
    (none, s.recordFetch opt hash size mime sourceNode owners)
  | .pin hash owner => (none, s.pin opt hash owner)
  | .unpin hash owner => (none, { s with db := s.db.unpin opt.sizeOf hash owner })
  | .gc referenced old dryRun => (none, s.gc opt referenced old dryRun)
  | .received hash => (none, { s with cas := hash :: s.cas })

def run (calls : List Call) : Store := calls.foldl (fun s c => (s.step opt c).2) s

/-- The reference of an upload says of the hash what a stat does. -/
def Matches (index : BlobHash → Option Nat) (r : Reference) : Prop :=
  let info := s.stat opt index r.hash
  info.size = some r.size ∧ info.mime = some r.mime ∧ info.name = r.name ∧
    info.origin = some r.origin

/-- A row of the hash, if there is one, has the store's own origin. -/
def Native : Prop := ∀ row, s.attrs hash = some row → row.origin = opt.origin

end Store

/-- The size that comes with a hash is the length of its bytes. -/
def Call.Honest (opt : Options) : Call → Prop
  | .recordUpload hash size _ _ _ => size = opt.sizeOf hash
  | .recordFetch hash size _ _ _ => size = opt.sizeOf hash
  | _ => True

/-- The hash of the bytes that an upload is about. -/
def Call.uploads : Call → Option BlobHash
  | .put source _ _ _ _ _ => source
  | .recordUpload hash _ _ _ _ => some hash
  | _ => none

/-- A call of a run that uploads a hash with success, in the store that it finds. -/
def Uploads (opt : Options) (calls : List Call) (s : Store) (hash : BlobHash) (r : Reference)
    (s' : Store) : Prop :=
  ∃ before c after out, calls = before ++ c :: after ∧ s = Store.run opt {} before ∧
    c.uploads = some hash ∧ s.step opt c = (some out, s') ∧ out.reference = r

variable {opt : Options} {s s' : Store} {out : PutOutcome} {hash : BlobHash} {size : Nat}
  {mime owner : String} {name : Option String} {reservation : Option Nat}

theorem recordUploadReserved_ok
    (h : s.recordUploadReserved opt hash size mime name owner reservation = some (out, s')) :
    hash ∈ s.cas ∧ s'.cas = s.cas ∧
      s'.attrs = (s.insertOrIgnore hash ⟨mime, name, opt.origin⟩).attrs ∧
      out.reference = ⟨hash, size, ((s.attrs hash).getD ⟨mime, name, opt.origin⟩).mime,
        ((s.attrs hash).getD ⟨mime, name, opt.origin⟩).name, opt.origin⟩ := by
  obtain ⟨credit, -, h⟩ := Option.bind_eq_some_iff.mp h
  split at h
  · cases h
  next hmem =>
    dsimp only at h
    split at h
    · cases h
      exact ⟨not_not.mp hmem, rfl, rfl, rfl⟩
    · cases h
      exact ⟨not_not.mp hmem, rfl, rfl, rfl⟩
    · cases h

theorem matches_iff (index : BlobHash → Option Nat)
    (h : s.recordUploadReserved opt hash size mime name owner reservation = some (out, s'))
    (hsize : size = opt.sizeOf hash) : s'.Matches opt index out.reference ↔ s.Native opt hash := by
  obtain ⟨hmem, hcas, hattrs, href⟩ := recordUploadReserved_ok h
  rw [href, Store.Matches, Store.stat, hcas, hattrs, Store.Native]
  cases hrow : s.attrs hash with
  | none => simp [Store.insertOrIgnore, hrow, hmem, hsize]
  | some row => simp [Store.insertOrIgnore, hrow, hmem, hsize]

theorem reserveUpload_attrs {id length : Nat} (h : s.reserveUpload opt owner length = some (id, s')) :
    s'.attrs = s.attrs := by
  rw [Store.reserveUpload] at h
  split at h
  · cases h
  obtain ⟨_, -, h⟩ := Option.bind_eq_some_iff.mp h
  split at h <;> cases h
  rfl

theorem step_matches_iff (index : BlobHash → Option Nat) {c : Call} (hc : c.Honest opt)
    (hhash : c.uploads = some hash) (h : s.step opt c = (some out, s')) :
    s'.Matches opt index out.reference ↔ s.Native opt hash := by
  cases c with
  | put =>
    cases hhash
    rw [Store.step] at h
    unfold Store.put at h
    split at h
    · next hsource hreserve =>
      cases hsource
      dsimp only at h
      split at h
      · next hrecord =>
        cases h
        have hiff := matches_iff index hrecord rfl
        rwa [Store.Native, reserveUpload_attrs hreserve] at hiff
      · cases h
    · cases h
  | recordUpload =>
    cases hhash
    rw [Store.step] at h
    split at h
    · next hrecord =>
      cases h
      exact matches_iff index hrecord hc
    · cases h
  | recordFetch | pin | unpin | gc | received => cases hhash

/-- References that uploads return match a stat exactly when each upload finds no row, or one of the
store's own origin. -/
theorem upload_references_match_iff (opt : Options) (index : BlobHash → Option Nat)
    (calls : List Call) (hhonest : ∀ c ∈ calls, c.Honest opt) :
    (∀ s hash r s', Uploads opt calls s hash r s' → s'.Matches opt index r) ↔
      ∀ s hash r s', Uploads opt calls s hash r s' → s.Native opt hash := by
  have hiff : ∀ {s hash r s'}, Uploads opt calls s hash r s' →
      (s'.Matches opt index r ↔ s.Native opt hash) := by
    rintro s hash r s' ⟨before, c, after, out, rfl, -, hhash, hstep, rfl⟩
    exact step_matches_iff index (hhonest c (by simp)) hhash hstep
  exact forall₄_congr fun s hash r s' => forall_congr' hiff

private def blob : BlobHash := ⟨List.replicate 32 0, rfl⟩

private def here : Options where
  origin := "here"
  lim := ⟨fun _ => 9, 9, 0, 0⟩
  sniff _ := "application/octet-stream"
  sizeOf _ := 1

private def fetched : List Call :=
  [.received blob, .recordFetch blob 1 "text/plain" "there" ["ann"],
    .recordUpload blob 1 "text/plain" none "bob"]

theorem upload_references_match_iff_fetched :
    (∀ s hash r s', Uploads here fetched s hash r s' → s'.Matches here (fun _ => none) r) ↔
      ∀ s hash r s', Uploads here fetched s hash r s' → s.Native here hash :=
  upload_references_match_iff here (fun _ => none) fetched (by simp [fetched, Call.Honest, here])

/-- The reference names the node; the row the one that the bytes came from. -/
theorem fetched_reference_differs : ∃ s r s', Uploads here fetched s blob r s' ∧
    r.origin = "here" ∧ (s'.stat here (fun _ => none) r.hash).origin = some "there" ∧
      ¬s'.Matches here (fun _ => none) r := by
  refine ⟨_, ⟨blob, 1, "text/plain", none, "here"⟩, _, ⟨fetched.take 2, _, [], ⟨_, true⟩, rfl, rfl,
    rfl, rfl, rfl⟩, rfl, rfl, fun h => absurd h.2.2.2 (by decide +kernel)⟩

end Cosmix.Blobd.Attributes
