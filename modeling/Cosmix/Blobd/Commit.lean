/- source: cosmix-blobd/src/core/uploads.rs, cosmix-mds/src/blob.rs
   digest: A commit publishes the accepted bytes once, over crashes between any steps. -/

import Cosmix.Blobd.Upload
import Cosmix.Lib.Machine

/-! The offset in the row says how many bytes have been accepted; these stand at the front of the
staging file, on the disk. From the announcement of the commit on nothing writes to the file, so the
work can be taken up from any point at which it was left. -/

namespace Cosmix.Blobd.Resumable

open Lib List

/-- Pieces that follow each other from one position to another, without gap or overlap. -/
def Tiles : Nat → List (Nat × Bytes) → Nat → Prop
  | pos, [], stop => pos = stop
  | pos, piece :: pieces, stop => piece.1 = pos ∧ Tiles (pos + piece.2.length) pieces stop

variable {pieces : List (Nat × Bytes)}

theorem Tiles.length {pos stop : Nat} (h : Tiles pos pieces stop) :
    pos + (pieces.flatMap Prod.snd).length = stop := by
  induction pieces generalizing pos with
  | nil => exact h
  | cons piece pieces ih =>
    have hrest := ih h.2
    rw [flatMap_cons, length_append]
    omega

theorem Tiles.snoc {pos stop : Nat} (h : Tiles pos pieces stop)
    (body : Bytes) : Tiles pos (pieces ++ [(stop, body)]) (stop + body.length) := by
  induction pieces generalizing pos with
  | nil =>
    cases h
    exact ⟨rfl, rfl⟩
  | cons piece pieces ih => exact ⟨h.1, ih h.2⟩

namespace Inode

variable (f : Inode)

theorem setLen_content {n : Nat} (h : n ≤ f.content.length) :
    (f.setLen n).content = f.content.take n := by
  have hzero : n - f.content.length = 0 := by omega
  rw [setLen, hzero, replicate_zero, append_nil]

theorem length_setLen (n : Nat) : (f.setLen n).content.length = n := by
  rw [setLen, length_append, length_take, length_replicate]
  omega

theorem writeAt_content {pos : Nat} (h : f.content.length = pos) (chunk : Bytes) :
    (f.writeAt pos chunk).content = f.content ++ chunk := by
  rw [writeAt, setLen_content f (le_of_eq h.symm), take_of_length_le (le_of_eq h),
    drop_of_length_le (by omega), append_nil]

end Inode

theorem Job.size_lt (job : Job) : job.size < 2 ^ 64 :=
  lt_of_le_of_lt job.size_le (by decide)

theorem Row.receipt_toText {r : Row} {reference : Reference} (hsize : reference.size < 2 ^ 64)
    (hresult : r.result = some reference.toText) : r.receipt = some reference := by
  rw [Row.receipt, hresult, Option.bind_some, Reference.ofText_toText hsize]

structure View where
  inode : Inode
  links : List (BlobHash × Bool)
  cas : BlobHash → Option Bytes
  accepted : List (Nat × Bytes)
  added : Nat
  returned : List (Reference × Bool)
  rejected : Bool

def State.view (s : State) : View where
  inode := s.inode
  links := s.links
  cas := s.cas
  accepted := s.accepted
  added := s.added
  returned := s.returned
  rejected := s.rejected

namespace View

variable (hashOf : Bytes → BlobHash) (job : Job) (v : View)

def bytes : Bytes := v.accepted.flatMap Prod.snd

/-- All bytes are there, and a hash is theirs and the one that was asked for. -/
structure Verified (hash : BlobHash) : Prop where
  tiles : Tiles 0 v.accepted job.size
  hash_eq : hash = hashOf v.bytes
  expected : ∀ x, job.expected = some x → hash = x

/-- The accepted bytes are in the content store to stay. -/
def Stored (hash : BlobHash) : Prop :=
  (hash, true) ∈ v.links ∧ v.inode.content = v.bytes ∧ v.inode.dirty = false ∨
    (∀ l ∈ v.links, l.1 ≠ hash) ∧ v.cas hash = some v.bytes

structure Settled (reference : Reference) : Prop where
  verified : v.Verified hashOf job reference.hash
  size_eq : reference.size = job.size
  stored : v.Stored reference.hash
  returned : ∀ x ∈ v.returned, x.1 = reference
  added : v.added ≤ 1
  accepted : v.rejected = false

def Unsettled : Prop := v.added = 0 ∧ v.returned = []

/-- All bytes are there, and no commit of them can succeed. -/
def Doomed : Prop :=
  Tiles 0 v.accepted job.size ∧
    ((∃ x, job.expected = some x ∧ x ≠ hashOf v.bytes) ∨
      ∃ b, v.cas (hashOf v.bytes) = some b ∧ hashOf b ≠ hashOf v.bytes)

structure RowOk (r : Row) : Prop where
  tiles : Tiles 0 v.accepted r.offset
  le : r.offset ≤ job.size
  active : r.state = .active → v.links = [] ∧ r.offset ≤ v.inode.stable ∧
    v.inode.content.take r.offset = v.bytes ∧ v.Unsettled
  committing : r.state = .committing → v.inode.content = v.bytes ∧ v.inode.dirty = false ∧
    (∃ hash, r.actualHash = some hash ∧ v.Verified hashOf job hash ∧ ∀ l ∈ v.links, l.1 = hash) ∧
    v.Unsettled
  complete : r.state = .complete → ∃ reference, r.receipt = some reference ∧
    v.Settled hashOf job reference
  failed : r.state = .failed → v.Unsettled

structure Core (row : Option Row) (lapsed : Bool) : Prop where
  rowOk : ∀ r, row = some r → v.RowOk hashOf job r
  gone : row = none → v.Unsettled ∨ lapsed = true ∧ ∃ reference, v.Settled hashOf job reference
  doomed : v.rejected = true → v.Doomed hashOf job
  exclusive : ∀ l ∈ v.links, v.cas l.1 = none
  stable : v.inode.stable ≤ v.inode.content.length
  /-- No bytes in the content store have the hash of others. -/
  ideal : ∀ hash b, v.cas hash = some b → ∀ b', hashOf b' = hashOf b → b' = b

variable (row : Option Row)

def Active (r : Row) : Prop := row = some r ∧ r.state = .active

def Committing (r : Row) : Prop := row = some r ∧ r.state = .committing

/-- What a call knows where it is: nothing but it changes the row. -/
def PcOk (lapsed : Bool) : Pc → Prop
  | .appendRead r stop | .appendOpened r stop =>
    Active row r ∧ r.offset ≤ stop ∧ stop < job.size
  | .writing r stop body => (Active row r ∧ r.offset ≤ stop ∧ stop < job.size) ∧
    v.inode.content = v.bytes ++ body ∧ r.offset + body.length ≤ stop + 1
  | .synced r stop body => (Active row r ∧ r.offset ≤ stop ∧ stop < job.size) ∧
    v.inode.content = v.bytes ++ body ∧ r.offset + body.length = stop + 1 ∧
    v.inode.stable = v.inode.content.length
  | .rollback => ∃ r, Active row r
  | .truncating offset => ∃ r, Active row r ∧ r.offset = offset
  | .prepareRead r | .restoreRead r | .restoreOpened r => Active row r
  | .prepareOpened r => Active row r ∧ r.offset = job.size
  | .hashing r => Active row r ∧ r.offset = job.size ∧ v.inode.content = v.bytes
  | .hashed r hash => Active row r ∧ v.inode.content = v.bytes ∧ v.Verified hashOf job hash
  | .announcing r hash => Active row r ∧ v.inode.content = v.bytes ∧ v.Verified hashOf job hash ∧
    v.inode.dirty = false
  | .prepared => ∃ r, Committing row r
  | .finishing _ r => Committing row r
  | .publishing _ r hash | .linking _ r hash => Committing row r ∧ r.actualHash = some hash
  | .linked _ r hash => Committing row r ∧ r.actualHash = some hash ∧
    ((∃ l ∈ v.links, l.1 = hash) ∨ (∀ l ∈ v.links, l.1 ≠ hash) ∧ v.cas hash = some v.bytes)
  | .settling _ r hash => Committing row r ∧ r.actualHash = some hash ∧ v.Stored hash
  | .settled _ reference | .cleaned _ reference =>
    ∃ r, row = some r ∧ r.state = .complete ∧ r.receipt = some reference
  | .failing _ _ => ∃ r, Active row r ∨ Committing row r
  | .expiring _ | .expireSync _ | .deleting _ =>
    ∀ r, row = some r → r.state ≠ .committing ∧ (r.state = .complete → lapsed = true)
  | .down | .restoring | .restored | .idle | .appendChecked _ _ _ | .resyncing | .unlinking _ _
  | .unlinked _ _ | .restoreSync => True

variable {hashOf job v} {row : Option Row} {r : Row} {lapsed : Bool}

theorem length_bytes {n : Nat} (h : Tiles 0 v.accepted n) : v.bytes.length = n := by
  have hlength := h.length
  rw [zero_add] at hlength
  exact hlength

theorem Core.lapse (h : v.Core hashOf job row lapsed) (complete : Bool) :
    v.Core hashOf job row (lapsed || complete) where
  rowOk := h.rowOk
  gone hnone := (h.gone hnone).imp_right fun hlapsed => ⟨by rw [hlapsed.1, Bool.true_or], hlapsed.2⟩
  doomed := h.doomed
  exclusive := h.exclusive
  stable := h.stable
  ideal := h.ideal

variable {f : Inode} {hash : BlobHash} {reference : Reference} {content : Bytes}

theorem Verified.congr {v' : View} (h : v.Verified hashOf job hash) (heq : v'.accepted = v.accepted) :
    v'.Verified hashOf job hash := by
  have hbytes : v'.bytes = v.bytes := congrArg (flatMap Prod.snd) heq
  exact ⟨heq ▸ h.tiles, hbytes ▸ h.hash_eq, h.expected⟩

section

variable (htiles : Tiles 0 v.accepted r.offset) (hle : r.offset ≤ job.size)
include htiles hle

theorem RowOk.ofActive (hstate : r.state = .active) (hok : v.links = [] ∧ r.offset ≤ v.inode.stable ∧
    v.inode.content.take r.offset = v.bytes ∧ v.Unsettled) : v.RowOk hashOf job r := by
  refine ⟨htiles, hle, fun _ => hok, ?_, ?_, fun _ => hok.2.2.2⟩ <;> simp [hstate]

theorem RowOk.ofCommitting (hstate : r.state = .committing) (hhash : r.actualHash = some hash)
    (hcontent : v.inode.content = v.bytes) (hclean : v.inode.dirty = false)
    (hverified : v.Verified hashOf job hash) (hlinks : ∀ l ∈ v.links, l.1 = hash)
    (hunsettled : v.Unsettled) : v.RowOk hashOf job r := by
  refine ⟨htiles, hle, ?_, fun _ => ?_, ?_, fun _ => hunsettled⟩
  · simp [hstate]
  · exact ⟨hcontent, hclean, ⟨hash, hhash, hverified, hlinks⟩, hunsettled⟩
  · simp [hstate]

theorem RowOk.ofComplete (hstate : r.state = .complete) (hreceipt : r.receipt = some reference)
    (hsettled : v.Settled hashOf job reference) : v.RowOk hashOf job r := by
  refine ⟨htiles, hle, ?_, ?_, fun _ => ⟨reference, hreceipt, hsettled⟩, ?_⟩ <;> simp [hstate]

end

theorem Core.ofRow (h : v.RowOk hashOf job r) (hdoomed : v.rejected = true → v.Doomed hashOf job)
    (hexclusive : ∀ l ∈ v.links, v.cas l.1 = none) (hstable : v.inode.stable ≤ v.inode.content.length)
    (hideal : ∀ hash b, v.cas hash = some b → ∀ b', hashOf b' = hashOf b → b' = b) :
    v.Core hashOf job (some r) lapsed :=
  ⟨fun _ hr => Option.some.inj hr ▸ h, nofun, hdoomed, hexclusive, hstable, hideal⟩

variable (h : v.Core hashOf job row lapsed)
include h

section

variable (hactive : Active row r)
include hactive

theorem Core.setInode (hoffset : r.offset ≤ f.stable) (hstable : f.stable ≤ f.content.length)
    (htake : f.content.take r.offset = v.bytes) :
    ({ v with inode := f } : View).Core hashOf job row lapsed := by
  obtain ⟨rfl, hstate⟩ := hactive
  have hr := h.rowOk r rfl
  obtain ⟨hlinks, -, -, hunsettled⟩ := hr.active hstate
  exact .ofRow (.ofActive hr.tiles hr.le hstate ⟨hlinks, hoffset, htake, hunsettled⟩) h.doomed h.exclusive
    hstable h.ideal

theorem Core.setLen : ({ v with inode := v.inode.setLen r.offset } : View).Core hashOf job row lapsed ∧
    (v.inode.setLen r.offset).content = v.bytes := by
  have hr := h.rowOk r hactive.1
  obtain ⟨-, hoffset, htake, -⟩ := hr.active hactive.2
  have hstable := h.stable
  have hcontent : (v.inode.setLen r.offset).content = v.bytes := by
    rw [Inode.setLen_content _ (by omega), htake]
  have hlength : (v.inode.setLen r.offset).content.length = r.offset := Inode.length_setLen _ _
  refine ⟨h.setInode hactive (Nat.le_min.mpr ⟨hoffset, le_rfl⟩) ?_ ?_, hcontent⟩
  · rw [hlength]
    exact min_le_right _ _
  · rw [hcontent]
    exact take_of_length_le (le_of_eq (length_bytes hr.tiles))

theorem Core.writeAt {body : Bytes} (hcontent : v.inode.content = v.bytes ++ body) (chunk : Bytes) :
    ({ v with inode := v.inode.writeAt (r.offset + body.length) chunk } : View).Core hashOf job row
        lapsed ∧
      (v.inode.writeAt (r.offset + body.length) chunk).content = v.bytes ++ (body ++ chunk) := by
  have hr := h.rowOk r hactive.1
  have hbytes := length_bytes hr.tiles
  obtain ⟨-, hoffset, -, -⟩ := hr.active hactive.2
  have hlength : v.inode.content.length = r.offset + body.length := by
    rw [hcontent, length_append, hbytes]
  have hwrite : (v.inode.writeAt (r.offset + body.length) chunk).content =
      v.bytes ++ (body ++ chunk) := by
    rw [Inode.writeAt_content _ hlength, hcontent, append_assoc]
  refine ⟨h.setInode hactive (Nat.le_min.mpr ⟨hoffset, by omega⟩) ?_ ?_, hwrite⟩
  · rw [hwrite, length_append, length_append]
    exact le_trans (min_le_right _ _) (by omega)
  · rw [hwrite, take_left' hbytes]

theorem Core.advance {stop : Nat} {body : Bytes} (hle : r.offset ≤ stop) (hstop : stop < job.size)
    (hcontent : v.inode.content = v.bytes ++ body) (hbody : r.offset + body.length = stop + 1)
    (hstable : v.inode.stable = v.inode.content.length) :
    ({ v with accepted := v.accepted ++ [(r.offset, body)] } : View).Core hashOf job
      (some { r with offset := stop + 1 }) lapsed := by
  have hr := h.rowOk r hactive.1
  obtain ⟨hlinks, -, -, hunsettled⟩ := hr.active hactive.2
  have hbytes : ({ v with accepted := v.accepted ++ [(r.offset, body)] } : View).bytes =
      v.bytes ++ body := by
    simp [View.bytes]
  have htiles : Tiles 0 (v.accepted ++ [(r.offset, body)]) (stop + 1) := by
    rw [← hbody]
    exact hr.tiles.snoc body
  have hlength : v.inode.content.length = stop + 1 := by
    rw [hcontent, length_append, length_bytes hr.tiles, hbody]
  refine .ofRow (.ofActive htiles hstop hactive.2 ⟨hlinks, ?_, ?_, hunsettled⟩) (fun hrejected => ?_)
    h.exclusive h.stable h.ideal
  · rw [hstable, hlength]
  · rw [hbytes, hcontent, take_of_length_le]
    rw [← hcontent, hlength]
  · -- a session that was rejected had all its bytes
    have hall := length_bytes (h.doomed hrejected).1
    rw [length_bytes hr.tiles] at hall
    omega

theorem Core.announce (hcontent : v.inode.content = v.bytes) (hverified : v.Verified hashOf job hash)
    (hclean : v.inode.dirty = false) : v.Core hashOf job (some (r.announce hash)) lapsed := by
  have hr := h.rowOk r hactive.1
  obtain ⟨hlinks, -, -, hunsettled⟩ := hr.active hactive.2
  rw [Row.announce, if_pos hactive.2]
  exact .ofRow (.ofCommitting hr.tiles hr.le rfl rfl hcontent hclean hverified
    (hlinks ▸ forall_mem_nil _) hunsettled) h.doomed h.exclusive h.stable h.ideal

end

theorem Core.unsettled (hlive : Active row r ∨ Committing row r) : v.Unsettled := by
  rcases hlive with ⟨hrow, hstate⟩ | ⟨hrow, hstate⟩
  · exact ((h.rowOk r hrow).active hstate).2.2.2
  · exact ((h.rowOk r hrow).committing hstate).2.2.2

theorem Core.fail (hlive : Active row r ∨ Committing row r) (now : Int) :
    v.Core hashOf job (some (r.fail now)) lapsed := by
  have hr := h.rowOk r (hlive.elim And.left And.left)
  exact .ofRow ⟨hr.tiles, hr.le, nofun, nofun, nofun, fun _ => h.unsettled hlive⟩ h.doomed h.exclusive
    h.stable h.ideal

theorem Core.delete
    (hok : ∀ r, row = some r → r.state ≠ .committing ∧ (r.state = .complete → lapsed = true)) :
    v.Core hashOf job none lapsed := by
  refine ⟨nofun, fun _ => ?_, h.doomed, h.exclusive, h.stable, h.ideal⟩
  cases hrow : row with
  | none => exact h.gone hrow
  | some r =>
    obtain ⟨hcommitting, hlapsed⟩ := hok r hrow
    have hr := h.rowOk r hrow
    cases hstate : r.state with
    | active => exact .inl (hr.active hstate).2.2.2
    | committing => exact absurd hstate hcommitting
    | complete =>
      obtain ⟨reference, -, hsettled⟩ := hr.complete hstate
      exact .inr ⟨hlapsed hstate, reference, hsettled⟩
    | failed => exact .inl (hr.failed hstate)

theorem Core.not_rejected (hverified : v.Verified hashOf job hash) (hstored : v.Stored hash) : v.rejected = false := by
  by_contra hrejected
  obtain ⟨-, ⟨x, hx, hne⟩ | ⟨b, hb, hne⟩⟩ := h.doomed (Bool.not_eq_false _ ▸ hrejected)
  · exact hne ((hverified.expected x hx).symm.trans hverified.hash_eq)
  rw [← hverified.hash_eq] at hb
  rcases hstored with ⟨hlink, -, -⟩ | ⟨-, hcas⟩
  · have hnone := h.exclusive _ hlink
    rw [hb] at hnone
    cases hnone
  · rw [hb] at hcas
    exact hne (congrArg hashOf (Option.some.inj hcas))

theorem Core.reject (hlive : Active row r ∨ Committing row r) (hdoomed : v.Doomed hashOf job) :
    ({ v with rejected := true } : View).Core hashOf job row lapsed := by
  obtain rfl : row = some r := hlive.elim And.left And.left
  have hr := h.rowOk r rfl
  refine .ofRow ⟨hr.tiles, hr.le, hr.active, fun hstate => ?_, fun hstate => ?_, hr.failed⟩
    (fun _ => hdoomed) h.exclusive h.stable h.ideal
  · obtain ⟨hcontent, hclean, ⟨hash, hhash, hverified, hlinks⟩, hunsettled⟩ := hr.committing hstate
    exact ⟨hcontent, hclean, ⟨hash, hhash, hverified.congr rfl, hlinks⟩, hunsettled⟩
  · rcases hlive with hlive | hlive <;> cases hstate.symm.trans hlive.2

section

variable (hcommitting : Committing row r)
include hcommitting

theorem Core.committing (hhash : r.actualHash = some hash) :
    v.inode.content = v.bytes ∧ v.inode.dirty = false ∧ v.Verified hashOf job hash ∧
      (∀ l ∈ v.links, l.1 = hash) ∧ v.Unsettled := by
  obtain ⟨hcontent, hclean, ⟨hash', hhash', hverified, hlinks⟩, hunsettled⟩ :=
    (h.rowOk r hcommitting.1).committing hcommitting.2
  obtain rfl : hash' = hash := Option.some.inj (hhash'.symm.trans hhash)
  exact ⟨hcontent, hclean, hverified, hlinks, hunsettled⟩

theorem Core.addLink (hhash : r.actualHash = some hash) (hnone : v.cas hash = none) :
    ({ v with links := (hash, false) :: v.links } : View).Core hashOf job row lapsed := by
  obtain ⟨hcontent, hclean, hverified, hlinks, hunsettled⟩ := h.committing hcommitting hhash
  obtain ⟨rfl, hstate⟩ := hcommitting
  have hr := h.rowOk r rfl
  exact .ofRow (.ofCommitting hr.tiles hr.le hstate hhash hcontent hclean (hverified.congr rfl)
    (forall_mem_cons.mpr ⟨rfl, hlinks⟩) hunsettled) h.doomed
    (forall_mem_cons.mpr ⟨hnone, h.exclusive⟩) h.stable h.ideal

theorem Core.syncLink (hash : BlobHash) :
    ({ v with links := v.links.map fun l => (l.1, l.2 || l.1 = hash) } : View).Core hashOf job row
      lapsed := by
  obtain ⟨rfl, hstate⟩ := hcommitting
  have hr := h.rowOk r rfl
  obtain ⟨hcontent, hclean, ⟨hash', hhash', hverified, hlinks⟩, hunsettled⟩ := hr.committing hstate
  exact .ofRow (.ofCommitting hr.tiles hr.le hstate hhash' hcontent hclean (hverified.congr rfl)
    (forall_mem_map.mpr hlinks) hunsettled) h.doomed (forall_mem_map.mpr h.exclusive)
    h.stable h.ideal

/-- What is linked, or was there under the hash, is the accepted bytes. -/
theorem Core.stored (hlinked : (∃ l ∈ v.links, l.1 = hash) ∨
      (∀ l ∈ v.links, l.1 ≠ hash) ∧ v.cas hash = some v.bytes) :
    ({ v with links := v.links.map fun l => (l.1, l.2 || l.1 = hash) } : View).Stored hash := by
  obtain ⟨hcontent, hclean, -, -⟩ := (h.rowOk r hcommitting.1).committing hcommitting.2
  refine hlinked.imp (fun ⟨l, hl, heq⟩ => ⟨?_, hcontent, hclean⟩) fun ⟨hne, hcas⟩ =>
    ⟨forall_mem_map.mpr hne, hcas⟩
  refine mem_map.mpr ⟨l, hl, ?_⟩
  simp [heq]

theorem Core.settle (reference : Reference) (hhash : r.actualHash = some reference.hash)
    (hsize : reference.size = job.size) (hstored : v.Stored reference.hash) {added : Nat}
    (hadded : added ≤ 1) (expiresAt : Int) : ({ v with added := added } : View).Core hashOf job
      (some { r with state := .complete, expiresAt := expiresAt
                     result := some reference.toText }) lapsed := by
  have hr := h.rowOk r hcommitting.1
  obtain ⟨-, -, hverified, -, -, hreturned⟩ := h.committing hcommitting hhash
  have hlt : reference.size < 2 ^ 64 := hsize ▸ job.size_lt
  refine .ofRow (.ofComplete hr.tiles hr.le rfl (Row.receipt_toText hlt rfl) ?_) h.doomed h.exclusive h.stable
    h.ideal
  exact ⟨hverified.congr rfl, hsize, hstored, hreturned ▸ forall_mem_nil _, hadded,
    h.not_rejected hverified hstored⟩

end

theorem Core.replay (hrow : row = some r) (hstate : r.state = .complete)
    (hreceipt : r.receipt = some reference) (fresh : Bool) :
    ({ v with returned := v.returned ++ [(reference, fresh)] } : View).Core hashOf job row
      lapsed := by
  subst hrow
  have hr := h.rowOk r rfl
  obtain ⟨_, hreceipt', hsettled⟩ := hr.complete hstate
  rw [hreceipt] at hreceipt'
  cases hreceipt'
  refine .ofRow (.ofComplete hr.tiles hr.le hstate hreceipt ?_) h.doomed h.exclusive h.stable h.ideal
  exact ⟨hsettled.verified.congr rfl, hsettled.size_eq, hsettled.stored,
    forall_mem_append.mpr ⟨hsettled.returned, forall_mem_singleton.mpr rfl⟩,
    hsettled.added, hsettled.accepted⟩

omit h

/-- The bytes before the last sync are there after a crash, and all when nothing was dirty. -/
theorem take_survives (h : f.Survives content) {n : Nat} (hn : n ≤ f.stable)
    (hstable : f.stable ≤ f.content.length) :
    n ≤ content.length ∧ content.take n = f.content.take n := by
  rw [Inode.Survives] at h
  split at h
  · refine ⟨le_trans hn h.1, ?_⟩
    have hmin : min n f.stable = n := min_eq_left hn
    calc content.take n = (content.take f.stable).take n := by rw [take_take, hmin]
      _ = (f.content.take f.stable).take n := by rw [h.2]
      _ = f.content.take n := by rw [take_take, hmin]
  · rw [h]
    exact ⟨le_trans hn hstable, rfl⟩

theorem eq_of_survives (h : f.Survives content) (hclean : f.dirty = false) :
    content = f.content := by
  rw [Inode.Survives, hclean] at h
  exact h

def afterCrash (v : View) (content : Bytes) (keep : Bool) : View :=
  { v with inode := Inode.syncAll { v.inode with content := content }
           links := v.links.filter fun l => l.2 || keep }

theorem Settled.crash (h : v.Settled hashOf job reference) (hcontent : v.inode.Survives content)
    (keep : Bool) : (v.afterCrash content keep).Settled hashOf job reference := by
  refine ⟨h.verified.congr rfl, h.size_eq, ?_, h.returned, h.added, h.accepted⟩
  refine h.stored.imp (fun ⟨hlink, heq, hclean⟩ => ⟨?_, ?_, rfl⟩) fun ⟨hne, hcas⟩ => ⟨?_, hcas⟩
  · exact mem_filter.mpr ⟨hlink, rfl⟩
  · exact (eq_of_survives hcontent hclean).trans heq
  · intro l hl
    exact hne l (mem_filter.mp hl).1

theorem Core.crash (h : v.Core hashOf job row lapsed) (hcontent : v.inode.Survives content)
    (keep : Bool) : (v.afterCrash content keep).Core hashOf job row lapsed where
  rowOk r hrow := by
    have hr := h.rowOk r hrow
    refine ⟨hr.tiles, hr.le, fun hstate => ?_, fun hstate => ?_, fun hstate => ?_, hr.failed⟩
    · obtain ⟨hlinks, hoffset, htake, hunsettled⟩ := hr.active hstate
      obtain ⟨hle, heq⟩ := take_survives hcontent hoffset h.stable
      refine ⟨?_, hle, heq.trans htake, hunsettled⟩
      rw [afterCrash, hlinks]
      rfl
    · obtain ⟨heq, hclean, ⟨hash, hhash, hverified, hlinks⟩, hunsettled⟩ := hr.committing hstate
      refine ⟨(eq_of_survives hcontent hclean).trans heq, rfl,
        ⟨hash, hhash, hverified.congr rfl, fun l hl => ?_⟩, hunsettled⟩
      exact hlinks l (mem_filter.mp hl).1
    · obtain ⟨reference, hreceipt, hsettled⟩ := hr.complete hstate
      exact ⟨reference, hreceipt, hsettled.crash hcontent keep⟩
  gone hnone := (h.gone hnone).imp_right fun ⟨hlapsed, reference, hsettled⟩ =>
    ⟨hlapsed, reference, hsettled.crash hcontent keep⟩
  doomed := h.doomed
  exclusive l hl := h.exclusive l (mem_filter.mp hl).1
  stable := le_rfl
  ideal := h.ideal

/-- A sync is a crash that loses nothing. -/
theorem Core.sync (h : v.Core hashOf job row lapsed) :
    ({ v with inode := v.inode.syncAll } : View).Core hashOf job row lapsed := by
  have hself : v.inode.Survives v.inode.content := by
    rw [Inode.Survives]
    split
    · exact ⟨h.stable, rfl⟩
    · rfl
  have hlinks : (v.links.filter fun l => l.2 || true) = v.links :=
    filter_eq_self.mpr fun l _ => Bool.or_true l.2
  have hcrash := h.crash hself true
  rwa [afterCrash, hlinks] at hcrash

theorem Core.congr (h : v.Core hashOf job (some r) lapsed) {r' : Row}
    (hoffset : r'.offset = r.offset) (hstate : r'.state = r.state)
    (hhash : r'.actualHash = r.actualHash) (hresult : r'.result = r.result) :
    v.Core hashOf job (some r') lapsed := by
  obtain ⟨htiles, hle, hactive, hcommitting, hcomplete, hfailed⟩ := h.rowOk r rfl
  rw [← hoffset] at htiles hle hactive
  rw [← hstate] at hactive hcommitting hcomplete hfailed
  rw [← hhash] at hcommitting
  rw [Row.receipt, ← hresult] at hcomplete
  exact .ofRow ⟨htiles, hle, hactive, hcommitting, hcomplete, hfailed⟩ h.doomed h.exclusive h.stable h.ideal

theorem pcOk_home (m : Mode) : v.PcOk hashOf job row lapsed m.home := by
  cases m <;> trivial

theorem pcOk_stop (m : Mode) : v.PcOk hashOf job row lapsed m.stop := by
  cases m <;> trivial

theorem pcOk_onError (m : Mode) (strict : Bool) :
    v.PcOk hashOf job row lapsed (m.onError strict) := by
  cases strict
  · exact pcOk_home m
  · exact pcOk_stop m

end View

section

variable (hashOf : Bytes → BlobHash) (origin : String) (job : Job)

structure Inv (s : State) : Prop where
  core : s.view.Core hashOf job s.row s.lapsed
  pc : s.view.PcOk hashOf job s.row s.lapsed s.pc

variable {hashOf origin job} {s s' : State}

theorem Inv.moveTo (h : s.view.Core hashOf job s.row s.lapsed) {pc : Pc}
    (hpc : s.view.PcOk hashOf job s.row s.lapsed pc) : Inv hashOf job (s.moveTo pc) :=
  ⟨h, hpc⟩

theorem Inv.attempt {effect : State → State} {o : Outcome} {next onError : Pc}
    (h : s.view.Core hashOf job s.row s.lapsed)
    (heffect : (effect s).view.Core hashOf job (effect s).row (effect s).lapsed)
    (hnext : (effect s).view.PcOk hashOf job (effect s).row (effect s).lapsed next)
    (hfailed : s.view.PcOk hashOf job s.row s.lapsed onError)
    (hambiguous : (effect s).view.PcOk hashOf job (effect s).row (effect s).lapsed onError) :
    Inv hashOf job (s.attempt o effect next onError) := by
  cases o with
  | ok => exact .moveTo heffect hnext
  | failed => exact .moveTo h hfailed
  | ambiguous => exact .moveTo heffect hambiguous

variable {r : Row} {stop : Nat} {e : Env} {hash : BlobHash} {m : Mode} {reference : Reference}
  {now : Int}

theorem Inv.lapse (h : Inv hashOf job s) (hrow : s.row = some r) (hstate : r.state ≠ .committing) :
    Inv hashOf job (s.lapse m) := by
  refine ⟨h.core.lapse _, fun r' hr' => ?_⟩
  obtain rfl : r = r' := Option.some.inj (hrow.symm.trans hr')
  refine ⟨hstate, fun hcomplete => ?_⟩
  change (s.lapsed || s.row.any _) = true
  rw [hrow, Option.any_some, decide_eq_true hcomplete, Bool.or_true]

theorem not_committing_of_expired (h : r.expired now = true) : r.state ≠ .committing :=
  of_decide_eq_true (Bool.and_eq_true_iff.mp h).2

theorem Inv.at (h : Inv hashOf job s) {pc : Pc} (hpc : s.pc = pc) :
    s.view.PcOk hashOf job s.row s.lapsed pc :=
  hpc ▸ h.pc

theorem pcOk_publishing (hcommitting : View.Committing s.row r) (m : Mode) (permanent : Bool) :
    s.view.PcOk hashOf job s.row s.lapsed (if permanent then .failing m false else m.home) := by
  cases permanent
  · exact View.pcOk_home m
  · exact ⟨r, .inr hcommitting⟩

theorem entry_eq : s.entry hash =
    if ∃ l ∈ s.links, l.1 = hash then some s.inode.content else s.cas hash := by
  simp only [State.entry, any_eq_true, decide_eq_true_eq]

theorem entry_some {b : Bytes} (h : s.entry hash = some b) :
    (∃ l ∈ s.links, l.1 = hash) ∧ b = s.inode.content ∨
      (∀ l ∈ s.links, l.1 ≠ hash) ∧ s.cas hash = some b := by
  rw [entry_eq] at h
  split at h
  · next hany => exact .inl ⟨hany, (Option.some.inj h).symm⟩
  · next hnone => exact .inr ⟨fun l hl heq => hnone ⟨l, hl, heq⟩, h⟩

section

variable (h : Inv hashOf job s)
include h

theorem inv_appendChecked {start total : Nat} (hpc : s.pc = .appendChecked start stop total) :
    Yields (Inv hashOf job) (go hashOf origin job s e) := by
  simp only [go, hpc]
  split
  · exact .moveTo h.core trivial
  rename_i hrow
  split
  · split
    · exact .moveTo h.core trivial
    · rename_i hstate
      exact h.lapse hrow hstate
  · split
    · rename_i htakes
      simp only [Row.takes, Bool.and_eq_true, decide_eq_true_eq] at htakes
      obtain ⟨⟨⟨⟨hstate, hoffset⟩, htotal⟩, hle⟩, hlt⟩ := htakes
      exact .moveTo h.core ⟨⟨hrow, hstate⟩, by omega, by omega⟩
    · exact .moveTo h.core trivial

theorem inv_writing {body : Bytes} (hpc : s.pc = .writing r stop body) :
    Yields (Inv hashOf job) (go hashOf origin job s e) := by
  obtain ⟨⟨hactive, hle, hlt⟩, hcontent, hbody⟩ := h.at hpc
  simp only [go, hpc]
  split
  · split
    · exact .moveTo h.core ⟨r, hactive⟩
    · refine .attempt h.core h.core.sync ⟨⟨hactive, hle, hlt⟩, hcontent, by omega, rfl⟩ ⟨r, hactive⟩
        ⟨r, hactive⟩
  · split
    · exact .moveTo h.core ⟨r, hactive⟩
    · split
      · obtain ⟨hnew, heq⟩ := h.core.writeAt hactive hcontent e.chunk
        refine .attempt h.core hnew ⟨⟨hactive, hle, hlt⟩, heq, ?_⟩ ⟨r, hactive⟩ ⟨r, hactive⟩
        rw [length_append]
        omega
      · trivial

theorem inv_synced {body : Bytes} (hpc : s.pc = .synced r stop body) :
    Yields (Inv hashOf job) (go hashOf origin job s e) := by
  obtain ⟨⟨hactive, hle, hlt⟩, hcontent, hbody, hstable⟩ := h.at hpc
  simp only [go, hpc]
  have hnew := h.core.advance hactive hle hlt hcontent hbody hstable
  have heq : s.advance r stop body =
      { s with row := some { r with offset := stop + 1 }
               accepted := s.accepted ++ [(r.offset, body)] } := by
    rw [State.advance, hactive.1]
    exact if_pos ⟨rfl, hactive.2⟩
  refine .attempt h.core ?_ trivial ⟨r, hactive⟩ ?_
  · rw [heq]
    exact hnew
  · rw [heq]
    exact ⟨_, rfl, hactive.2⟩

theorem inv_hashing (hpc : s.pc = .hashing r) :
    Yields (Inv hashOf job) (go hashOf origin job s e) := by
  obtain ⟨hactive, hsize, hcontent⟩ := h.at hpc
  have htiles : Tiles 0 s.view.accepted job.size := hsize ▸ (h.core.rowOk r hactive.1).tiles
  have hhash : hashOf s.inode.content = hashOf s.view.bytes := congrArg hashOf hcontent
  simp only [go, hpc]
  split
  · exact .moveTo h.core trivial
  split
  · rename_i hany
    obtain ⟨x, hx, hne⟩ := (Option.any_eq_true _ _).mp hany
    have hdoomed : s.view.Doomed hashOf job :=
      ⟨htiles, .inl ⟨x, hx, fun heq => of_decide_eq_true hne (heq.trans hhash.symm)⟩⟩
    exact ⟨h.core.reject (.inl hactive) hdoomed, r, .inl hactive⟩
  · rename_i hany
    refine .moveTo h.core ⟨hactive, hcontent, htiles, hhash, fun x hx => ?_⟩
    by_contra hne
    apply hany
    rw [hx]
    exact decide_eq_true (Ne.symm hne)

theorem inv_announcing (hpc : s.pc = .announcing r hash) :
    Yields (Inv hashOf job) (go hashOf origin job s e) := by
  obtain ⟨hactive, hcontent, hverified, hclean⟩ := h.at hpc
  simp only [go, hpc]
  split
  · exact h.lapse hactive.1 (by simp [hactive.2])
  split
  · have hrow : (s.setRow (Row.announce hash)).row = some (r.announce hash) := by
      change s.row.map _ = _
      rw [hactive.1]
      rfl
    refine .attempt h.core ?_ ?_ trivial trivial
    · rw [hrow]
      exact h.core.announce hactive hcontent hverified hclean
    · rw [hrow]
      refine ⟨_, rfl, ?_⟩
      rw [Row.announce, if_pos hactive.2]
  · exact .moveTo h.core ⟨r, .inl hactive⟩

theorem inv_publishing (hpc : s.pc = .publishing m r hash) :
    Yields (Inv hashOf job) (go hashOf origin job s e) := by
  obtain ⟨hcommitting, hhash⟩ := h.at hpc
  obtain ⟨hcontent, -, hverified, -⟩ := h.core.committing hcommitting hhash
  simp only [go, hpc]
  split
  · exact .moveTo h.core (pcOk_publishing hcommitting m e.permanent)
  split
  · -- the file has not changed since it was hashed
    rename_i hne
    exact absurd ((congrArg hashOf hcontent).trans hverified.hash_eq.symm) hne
  · exact .moveTo h.core.sync ⟨hcommitting, hhash⟩

theorem inv_linking (hpc : s.pc = .linking m r hash) :
    Yields (Inv hashOf job) (go hashOf origin job s e) := by
  obtain ⟨hcommitting, hhash⟩ := h.at hpc
  obtain ⟨hcontent, -, hverified, -⟩ := h.core.committing hcommitting hhash
  simp only [go, hpc]
  split
  · exact .moveTo h.core (pcOk_publishing hcommitting m e.permanent)
  split
  · rename_i b hentry
    split
    · -- an entry that is corrupt is not the staging file
      rename_i hne
      rcases entry_some hentry with ⟨-, heq⟩ | ⟨-, hcas⟩
      · rw [heq] at hne
        exact absurd ((congrArg hashOf hcontent).trans hverified.hash_eq.symm) hne
      have hdoomed : s.view.Doomed hashOf job := by
        refine ⟨hverified.tiles, .inr ⟨b, ?_, ?_⟩⟩
        · rw [← hverified.hash_eq]
          exact hcas
        · rw [← hverified.hash_eq]
          exact hne
      exact ⟨h.core.reject (.inr hcommitting) hdoomed, r, .inr hcommitting⟩
    · rename_i heq
      refine .moveTo h.core ⟨hcommitting, hhash, ?_⟩
      rcases entry_some hentry with ⟨hlink, -⟩ | ⟨hne, hcas⟩
      · exact .inl hlink
      have hsame : hashOf s.view.bytes = hashOf b :=
        hverified.hash_eq.symm.trans (not_not.mp heq).symm
      have hbytes : s.view.bytes = b := h.core.ideal hash b hcas _ hsame
      exact .inr ⟨hne, hbytes ▸ hcas⟩
  · rename_i hentry
    have hnone : s.cas hash = none := by
      rw [State.entry] at hentry
      split at hentry
      · cases hentry
      · exact hentry
    exact ⟨h.core.addLink hcommitting hhash hnone, hcommitting, hhash,
      .inl ⟨_, mem_cons_self, rfl⟩⟩

theorem inv_linked (hpc : s.pc = .linked m r hash) :
    Yields (Inv hashOf job) (go hashOf origin job s e) := by
  obtain ⟨hcommitting, hhash, hlinked⟩ := h.at hpc
  simp only [go, hpc]
  split
  · exact .moveTo h.core (pcOk_publishing hcommitting m e.permanent)
  · exact ⟨h.core.syncLink hcommitting hash, hcommitting, hhash,
      h.core.stored hcommitting hlinked⟩

theorem inv_settling (hpc : s.pc = .settling m r hash) :
    Yields (Inv hashOf job) (go hashOf origin job s e) := by
  obtain ⟨hcommitting, hhash, hstored⟩ := h.at hpc
  have hunsettled := h.core.unsettled (.inr hcommitting)
  simp only [go, hpc]
  split
  · have hadded : (if s.pinned hash then s.added else s.added + 1) ≤ 1 := by
      have hzero : s.added = 0 := hunsettled.1
      split <;> omega
    have hrow : (s.settle origin job hash e.now).row =
        some { r with state := .complete, expiresAt := e.now + receiptTtlMs
                      result := some (referenceOf origin job s hash).toText } := by
      change s.row.map _ = _
      rw [hcommitting.1, Option.map_some, if_pos hcommitting.2]
    have hnew := h.core.settle hcommitting (referenceOf origin job s hash) hhash rfl hstored hadded
      (e.now + receiptTtlMs)
    refine .attempt h.core ?_ ?_ (View.pcOk_home m) (View.pcOk_home m)
    · rw [hrow]
      exact hnew
    · rw [hrow]
      exact ⟨_, rfl, rfl, Row.receipt_toText job.size_lt rfl⟩
  · exact .moveTo h.core ⟨r, .inr hcommitting⟩

theorem inv_cleaned (hpc : s.pc = .cleaned m reference) :
    Yields (Inv hashOf job) (go hashOf origin job s e) := by
  obtain ⟨r, hrow, hstate, hreceipt⟩ := h.at hpc
  have hnew := h.core.replay hrow hstate hreceipt true
  simp only [go, hpc]
  cases m with
  | serving =>
    refine ⟨?_, trivial⟩
    split <;> exact hnew
  | restoring =>
    refine ⟨?_, trivial⟩
    split <;> exact h.core

theorem inv_failing {strict : Bool} (hpc : s.pc = .failing m strict) :
    Yields (Inv hashOf job) (go hashOf origin job s e) := by
  obtain ⟨r, hlive⟩ := h.at hpc
  have hrow : s.row = some r := hlive.elim And.left And.left
  have hnew := h.core.fail hlive e.now
  simp only [go, hpc]
  refine .attempt h.core ?_ trivial (View.pcOk_onError m strict) (View.pcOk_onError m strict)
  change s.view.Core hashOf job (s.row.map (Row.fail e.now)) s.lapsed
  rw [hrow]
  exact hnew

theorem inv_prepareRead (hpc : s.pc = .prepareRead r) :
    Yields (Inv hashOf job) (go hashOf origin job s e) := by
  have hactive : View.Active s.row r := h.at hpc
  simp only [go, hpc]
  split
  · exact .moveTo h.core trivial
  rename_i hsize
  split
  · exact .moveTo h.core ⟨hactive, not_not.mp hsize⟩
  · exact .moveTo h.core ⟨r, .inl hactive⟩

theorem inv_finishing (hpc : s.pc = .finishing m r) :
    Yields (Inv hashOf job) (go hashOf origin job s e) := by
  have hcommitting : View.Committing s.row r := h.at hpc
  simp only [go, hpc]
  split
  · exact .moveTo h.core (View.pcOk_home m)
  split
  · exact .moveTo h.core (View.pcOk_home m)
  · rename_i hhash
    split
    · exact .moveTo h.core ⟨hcommitting, hhash⟩
    · exact .moveTo h.core ⟨r, .inr hcommitting⟩

theorem inv_restoring (hpc : s.pc = .restoring) :
    Yields (Inv hashOf job) (go hashOf origin job s e) := by
  simp only [go, hpc]
  split
  · exact .moveTo h.core trivial
  rename_i hrow
  split
  · rename_i hstate
    exact .moveTo h.core ⟨hrow, hstate⟩
  · rename_i hstate
    exact .moveTo h.core ⟨hrow, hstate⟩
  · exact .moveTo h.core trivial
  · exact .moveTo h.core trivial

theorem inv_go : Yields (Inv hashOf job) (go hashOf origin job s e) := by
  cases hpc : s.pc with
  | down | restored | idle =>
    simp only [go, hpc]
    trivial
  | appendChecked => exact inv_appendChecked h hpc
  | appendRead r =>
    have hok := h.at hpc
    simp only [go, hpc]
    split
    · exact .moveTo h.core hok
    · exact .moveTo h.core ⟨r, .inl hok.1⟩
  | appendOpened =>
    have hok := h.at hpc
    simp only [go, hpc]
    obtain ⟨hnew, heq⟩ := h.core.setLen hok.1
    refine .attempt h.core hnew ⟨hok, ?_, ?_⟩ trivial trivial
    · rw [append_nil]
      exact heq
    · exact Nat.le_succ_of_le hok.2.1
  | writing => exact inv_writing h hpc
  | synced => exact inv_synced h hpc
  | rollback =>
    obtain ⟨r, hactive⟩ := h.at hpc
    simp only [go, hpc, hactive.1]
    exact .attempt h.core h.core ⟨r, hactive, rfl⟩ trivial trivial
  | truncating =>
    obtain ⟨r, hactive, rfl⟩ := h.at hpc
    simp only [go, hpc]
    exact .attempt h.core (h.core.setLen hactive).1 trivial trivial trivial
  | resyncing | restoreSync =>
    simp only [go, hpc]
    exact .attempt h.core h.core.sync trivial trivial trivial
  | prepareRead => exact inv_prepareRead h hpc
  | prepareOpened =>
    have hok := h.at hpc
    simp only [go, hpc]
    obtain ⟨hnew, heq⟩ := h.core.setLen hok.1
    exact .attempt h.core hnew ⟨hok.1, hok.2, heq⟩ trivial trivial
  | hashing => exact inv_hashing h hpc
  | hashed =>
    obtain ⟨hactive, hcontent, hverified⟩ := h.at hpc
    simp only [go, hpc]
    exact .attempt h.core h.core.sync ⟨hactive, hcontent, ⟨hverified.tiles, hverified.hash_eq,
      hverified.expected⟩, rfl⟩ trivial trivial
  | announcing => exact inv_announcing h hpc
  | prepared =>
    obtain ⟨r, hcommitting⟩ := h.at hpc
    simp only [go, hpc, hcommitting.1]
    exact .moveTo h.core hcommitting
  | finishing => exact inv_finishing h hpc
  | publishing => exact inv_publishing h hpc
  | linking => exact inv_linking h hpc
  | linked => exact inv_linked h hpc
  | settling => exact inv_settling h hpc
  | settled =>
    have hok := h.at hpc
    simp only [go, hpc]
    split
    · exact ⟨h.core, hok⟩
    · exact .moveTo h.core hok
  | cleaned => exact inv_cleaned h hpc
  | failing => exact inv_failing h hpc
  | unlinking m strict =>
    simp only [go, hpc]
    split
    · exact .attempt h.core h.core trivial (View.pcOk_onError m strict)
        (View.pcOk_onError m strict)
    · exact .moveTo h.core (View.pcOk_home m)
  | unlinked m strict =>
    simp only [go, hpc]
    exact .attempt h.core h.core (View.pcOk_home m) (View.pcOk_onError m strict)
      (View.pcOk_onError m strict)
  | expiring m =>
    have hok := h.at hpc
    simp only [go, hpc]
    split
    · exact .attempt h.core h.core hok (View.pcOk_stop m) (View.pcOk_stop m)
    · exact .moveTo h.core hok
  | expireSync m =>
    have hok := h.at hpc
    simp only [go, hpc]
    exact .attempt h.core h.core hok (View.pcOk_stop m) (View.pcOk_stop m)
  | deleting m =>
    have hok := h.at hpc
    simp only [go, hpc]
    exact .attempt h.core (h.core.delete hok) (View.pcOk_home m) (View.pcOk_stop m)
      (View.pcOk_stop m)
  | restoring => exact inv_restoring h hpc
  | restoreRead r =>
    have hok := h.at hpc
    simp only [go, hpc]
    split
    · exact .moveTo h.core hok
    · exact .moveTo h.core ⟨r, .inl hok⟩
  | restoreOpened =>
    have hok := h.at hpc
    simp only [go, hpc]
    exact .attempt h.core (h.core.setLen hok).1 trivial trivial trivial

end

theorem inv_commit (h : Inv hashOf job s) :
    Yields (Inv hashOf job) (step hashOf origin job s (.commit now)) := by
  rw [step]
  split
  · exact h
  · rename_i hpc hrow
    split
    · rename_i hexpired
      exact h.lapse hrow (not_committing_of_expired hexpired)
    split
    · rename_i hstate
      split
      · rename_i hreceipt
        refine ⟨h.core.replay hrow hstate hreceipt false, ?_⟩
        rw [hpc]
        trivial
      · exact h
    · rename_i hstate
      exact .moveTo h.core ⟨hrow, hstate⟩
    · rename_i hstate
      exact .moveTo h.core ⟨hrow, hstate⟩
    · exact h
  · trivial

theorem inv_abort (h : Inv hashOf job s) :
    Yields (Inv hashOf job) (step hashOf origin job s (.abort now)) := by
  rw [step]
  split
  · exact h
  · rename_i r hpc hrow
    split
    · exact h
    rename_i hstate
    split
    · exact h.lapse hrow hstate
    split
    · exact h
    · rename_i hcomplete
      refine .moveTo h.core fun r' hr' => ?_
      obtain rfl : r = r' := Option.some.inj (hrow.symm.trans hr')
      exact ⟨hstate, fun heq => absurd heq hcomplete⟩
  · trivial

theorem inv_step (h : Inv hashOf job s) {a : Act}
    (hstep : step hashOf origin job s a = some s') : Inv hashOf job s' := by
  refine Yields.elim hstep ?_
  cases a with
  | go => exact inv_go h
  | append start stop total now =>
    rw [step]
    split
    · exact h
    · rename_i hrow
      split
      · rename_i hexpired
        exact h.lapse hrow (not_committing_of_expired hexpired)
      · split
        · exact .moveTo h.core trivial
        · exact h
    · trivial
  | commit => exact inv_commit h
  | abort => exact inv_abort h
  | status now =>
    rw [step]
    split
    · exact h
    · rename_i hrow
      split
      · rename_i hexpired
        exact h.lapse hrow (not_committing_of_expired hexpired)
      · exact h
    · trivial
  | sweep =>
    rw [step]
    split
    · exact h
    · split
      · exact .moveTo h.core trivial
      · exact h
    · trivial
  | restore =>
    rw [step]
    split
    · refine ⟨?_, trivial⟩
      change s.view.Core hashOf job (s.row.map _) s.lapsed
      have hcore := h.core
      rcases hrow : s.row with _ | r <;> rw [hrow] at hcore
      · exact hcore
      · rw [Option.map_some]
        split
        · exact hcore.congr rfl rfl rfl rfl
        · exact hcore
    · trivial
  | openStore =>
    rw [step]
    split
    · split <;> exact ⟨h.core, trivial⟩
    · trivial
  | kill =>
    exact ⟨h.core, trivial⟩
  | crash content keepLinks keepName =>
    rw [step]
    split
    · rename_i hsurvives
      exact ⟨h.core.crash hsurvives keepLinks, trivial⟩
    · trivial

variable {attrs : BlobHash → Option Attrs} {cas : BlobHash → Option Bytes} {pinned : BlobHash → Bool}

theorem inv_start {expiresAt : Int}
    (hideal : ∀ hash b, cas hash = some b → ∀ b', hashOf b' = hashOf b → b' = b) :
    Inv hashOf job (start cas attrs pinned expiresAt) := by
  refine ⟨⟨fun r hr => ?_, nofun, nofun,
    nofun, le_rfl, hideal⟩, trivial⟩
  cases hr
  exact ⟨rfl, Nat.zero_le _, fun _ => ⟨rfl, le_rfl, rfl, rfl, rfl⟩,
    nofun, nofun, nofun⟩

theorem entry_of_stored (h : s.view.Stored hash) : s.entry hash = some s.view.bytes := by
  rcases h with ⟨hlink, hcontent, -⟩ | ⟨hne, hcas⟩
  · rw [entry_eq, if_pos ⟨_, hlink, rfl⟩]
    exact congrArg some hcontent
  · rw [entry_eq, if_neg fun ⟨l, hl, heq⟩ => hne l hl heq]
    exact hcas

theorem Inv.settled (h : Inv hashOf job s) (hnot : ¬ s.view.Unsettled) :
    ∃ reference, s.view.Settled hashOf job reference ∧
      (∀ r, s.row = some r → r.state = .complete ∧ r.receipt = some reference) ∧
      (s.row = none → s.lapsed = true) := by
  cases hrow : s.row with
  | none =>
    obtain ⟨hlapsed, reference, hsettled⟩ := (h.core.gone hrow).resolve_left hnot
    exact ⟨reference, hsettled, nofun, fun _ => hlapsed⟩
  | some r =>
    have hr := h.core.rowOk r hrow
    cases hstate : r.state with
    | active => exact absurd (hr.active hstate).2.2.2 hnot
    | committing => exact absurd (hr.committing hstate).2.2.2 hnot
    | failed => exact absurd (hr.failed hstate) hnot
    | complete =>
      obtain ⟨reference, hreceipt, hsettled⟩ := hr.complete hstate
      exact ⟨reference, hsettled, fun r' hr' => Option.some.inj hr' ▸ ⟨hstate, hreceipt⟩, nofun⟩

theorem commit_replays (hpc : s.pc = .idle) (hrow : s.row = some r) (hstate : r.state = .complete)
    (hreceipt : r.receipt = some reference) (hnow : now < r.expiresAt) :
    step hashOf origin job s (.commit now) =
      some { s with returned := s.returned ++ [(reference, false)] } := by
  have hexpired : r.expired now = false := by
    rw [Row.expired, decide_eq_false (Int.not_le.mpr hnow), Bool.false_and]
  simp only [step, hpc, hrow, hexpired, hstate, hreceipt, Bool.false_eq_true, if_false]

/-- Over every run of calls, errors and crashes: a commit returns the accepted bytes and their hash,
and its receipt again until that expires; at most one pin is added, none after a failed
verification. -/
theorem commit_returns_accepted_bytes {expiresAt : Int}
    (hideal : ∀ hash b, cas hash = some b → ∀ b', hashOf b' = hashOf b → b' = b) {acts : List Act}
    (hrun : runFrom (step hashOf origin job) (start cas attrs pinned expiresAt) acts = some s) :
    (∀ reference fresh, (reference, fresh) ∈ s.returned →
      (s.entry reference.hash = some (s.accepted.flatMap Prod.snd) ∧
        Tiles 0 s.accepted job.size ∧ (s.accepted.flatMap Prod.snd).length = job.size ∧
        reference.size = job.size ∧ reference.hash = hashOf (s.accepted.flatMap Prod.snd) ∧
        ∀ x, job.expected = some x → reference.hash = x) ∧
      (∀ r now, s.row = some r → s.pc = .idle → now < r.expiresAt →
        step hashOf origin job s (.commit now) =
          some { s with returned := s.returned ++ [(reference, false)] }) ∧
      (s.row = none → s.lapsed = true)) ∧
    s.added ≤ 1 ∧ (s.rejected = true → s.added = 0) := by
  have h : Inv hashOf job s :=
    runFrom_invariant (fun _ _ _ ht hstep => inv_step ht hstep) (inv_start hideal) hrun
  refine ⟨fun reference fresh hmem => ?_, ?_, fun hrejected => ?_⟩
  · obtain ⟨reference', hsettled, hreceipt, hgone⟩ := h.settled fun hunsettled =>
      ne_nil_of_mem hmem hunsettled.2
    obtain rfl : reference = reference' := hsettled.returned _ hmem
    refine ⟨⟨entry_of_stored hsettled.stored, hsettled.verified.tiles,
      View.length_bytes hsettled.verified.tiles, hsettled.size_eq, hsettled.verified.hash_eq,
      hsettled.verified.expected⟩, fun r now hrow hpc hnow => ?_, hgone⟩
    obtain ⟨hstate, hr⟩ := hreceipt r hrow
    exact commit_replays hpc hrow hstate hr hnow
  · by_cases hadded : s.added = 0
    · omega
    · obtain ⟨reference, hsettled, -⟩ := h.settled fun hunsettled => hadded hunsettled.1
      exact hsettled.added
  · by_contra hadded
    obtain ⟨reference, hsettled, -⟩ := h.settled fun hunsettled => hadded hunsettled.1
    have haccepted : s.rejected = false := hsettled.accepted
    rw [hrejected] at haccepted
    cases haccepted

end

/-- A hash that is the first bytes. -/
private def firstBytes (b : Bytes) : BlobHash :=
  ⟨(b ++ replicate 32 0).take 32, by simp⟩

private def threeBytes : Job where
  size := 3
  expected := some (firstBytes [1, 2, 3])
  mime := "text/plain"
  name := none
  size_le := by decide

/-- Two appends, the second sent again after a crash; a commit left, recovered on opening, and asked
for again. -/
private def resumed : List Act :=
  [.append 0 1 3 5, .go {}, .go {}, .go {}, .go { chunk := [1, 2] }, .go {}, .go {},
   .append 2 2 3 5, .go {}, .go {}, .go {}, .go { chunk := [9] }, .crash [1, 2, 9] false false,
   .restore 6, .go {}, .go {}, .go {}, .go {}, .openStore,
   .append 2 2 3 6, .go {}, .go {}, .go {}, .go { chunk := [3] }, .go {}, .go {},
   .commit 7, .go {}, .go {}, .go {}, .go {}, .go {}, .kill,
   .restore 8, .go {}, .go {}, .go {}, .go {}, .go {}, .go {}, .go {}, .go {}, .openStore,
   .commit 9]

theorem commit_returns_accepted_bytes_resumed : (runFrom (step firstBytes "alpha" threeBytes)
      (start (fun _ => none) (fun _ => none) (fun _ => false) 100) resumed).map
        (fun s => (s.returned.map fun x => (x.1.hash, x.2), s.accepted, s.added)) =
      some ([(firstBytes [1, 2, 3], false)], [(0, [1, 2]), (2, [3])], 1) ∧
    ∀ s, runFrom (step firstBytes "alpha" threeBytes)
      (start (fun _ => none) (fun _ => none) (fun _ => false) 100) resumed = some s →
    (∀ reference fresh, (reference, fresh) ∈ s.returned →
      (s.entry reference.hash = some (s.accepted.flatMap Prod.snd) ∧
        Tiles 0 s.accepted threeBytes.size ∧
        (s.accepted.flatMap Prod.snd).length = threeBytes.size ∧ reference.size = threeBytes.size ∧
        reference.hash = firstBytes (s.accepted.flatMap Prod.snd) ∧
        ∀ x, threeBytes.expected = some x → reference.hash = x) ∧
      (∀ r now, s.row = some r → s.pc = .idle → now < r.expiresAt →
        step firstBytes "alpha" threeBytes s (.commit now) =
          some { s with returned := s.returned ++ [(reference, false)] }) ∧
      (s.row = none → s.lapsed = true)) ∧
    s.added ≤ 1 ∧ (s.rejected = true → s.added = 0) :=
  ⟨by decide +kernel, fun _ hrun => commit_returns_accepted_bytes (fun _ _ h => by cases h) hrun⟩

end Cosmix.Blobd.Resumable
