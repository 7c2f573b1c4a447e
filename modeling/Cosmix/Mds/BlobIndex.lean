/- source: cosmix-mds/src/blob_index.rs, cosmix-mds/src/blob.rs, cosmix-mds/src/container.rs,
     cosmix-mds/src/rebuild.rs
   digest: Reference counts count the items; the collector and the files that items need. -/

import Cosmix.Lib.Machine
import Mathlib.Data.List.Basic

/-! The tables change under the write gate; files are put without it. A put of stored bytes writes
nothing, so the collector, which looks at the row only, may take the file before the addition that
follows. One addition of the three looks at the file again. -/

namespace Cosmix.Mds

open Lib
open Function (update update_of_ne)

variable {B H : Type} [DecidableEq H]

/-- An item of a set; the row of its reference has the same fields but the last. -/
structure Item (H : Type) where
  (set id : Nat)
  hash : H
  receivedAt : Int
  deriving DecidableEq

structure BlobRow where
  (refcount lastSeen : Int)
  deriving DecidableEq

structure World (B H : Type) where
  files : H → Option B
  rows : H → Option BlobRow
  (refs items : List (Item H))
  /-- Who has put which bytes. -/
  puts : List (Nat × H)
  /-- What the first passes have found, with the time of the row. -/
  candidates : List (H × Int)

inductive Addition
  | item | staging | memberships
  deriving DecidableEq

def Addition.looks : Addition → Bool
  | .item => true
  | .staging | .memberships => false

inductive Act (B H : Type)
  | put (caller : Nat) (bytes : B)
  | add (caller : Nat) (how : Addition) (item : Item H) (now : Int)
  /-- The removal of the last membership of an item; no other removal touches an item. -/
  | remove (item : Item H)
  | deleteSet (set : Nat)
  | rebuildIndex
  | pass1 (found : List (H × Int))
  | pass2 (candidate : H × Int) (crash : Bool)

namespace World

variable (hashOf : B → H) (w : World B H)

/-- Bytes that are stored already are not written again, and no row is touched. -/
def putBlob (caller : Nat) (bytes : B) : World B H :=
  { w with
    files := update w.files (hashOf bytes) (some ((w.files (hashOf bytes)).getD bytes))
    puts := (caller, hashOf bytes) :: w.puts }

def addBlobRef (item : Item H) (now : Int) : World B H :=
  let refcount := ((w.rows item.hash).map BlobRow.refcount).getD 0
  { w with
    rows := update w.rows item.hash (some ⟨refcount + 1, now⟩)
    refs := item :: w.refs }

def addItem (how : Addition) (item : Item H) (now : Int) : World B H :=
  if how.looks && (w.files item.hash).isNone then w
  else { w.addBlobRef item now with items := item :: w.items }

/-- The transaction of a removal fails where the reference is missing. -/
def removeItem (item : Item H) : World B H :=
  if item ∈ w.refs then
    { w with
      rows := update w.rows item.hash
        ((w.rows item.hash).map fun r => { r with refcount := r.refcount - 1 })
      refs := w.refs.erase item
      items := w.items.erase item }
  else w

def countOf (items : List (Item H)) (hash : H) : Nat := items.countP fun i => i.hash = hash

def deleteSet (set : Nat) : World B H :=
  let impact := w.refs.filter fun i => i.set = set
  if impact.all fun i => (w.rows i.hash).isSome then
    { w with
      rows := fun hash =>
        (w.rows hash).map fun r => { r with refcount := r.refcount - countOf impact hash }
      refs := w.refs.filter fun i => i.set ≠ set
      items := w.items.filter fun i => i.set ≠ set }
  else w

/-- The upsert of one scanned item. -/
def reindex (rows : H → Option BlobRow) (item : Item H) : H → Option BlobRow :=
  update rows item.hash <| some <| match rows item.hash with
    | some r => ⟨r.refcount + 1, max r.lastSeen item.receivedAt⟩
    | none => ⟨1, item.receivedAt⟩

def rebuildIndex : World B H :=
  { w with rows := w.items.foldl reindex fun _ => none, refs := w.items }

/-- A candidate of the first pass: a row without references, with its time. -/
def Collectable (candidate : H × Int) : Prop :=
  w.rows candidate.1 = some ⟨0, candidate.2⟩

instance (w : World B H) (candidate : H × Int) : Decidable (w.Collectable candidate) :=
  inferInstanceAs (Decidable (_ = _))

/-- A crash comes after the file is gone and before the row is deleted. -/
def pass2Apply (candidate : H × Int) (crash : Bool) : World B H :=
  match w.rows candidate.1 with
  | none => w
  | some row =>
    if 0 < row.refcount then w
    else if row.lastSeen ≠ candidate.2 then w
    else
      let rows := if row.refcount = 0 then update w.rows candidate.1 none else w.rows
      match w.files candidate.1 with
      | none => { w with rows }
      | some _ =>
        if crash then { w with files := update w.files candidate.1 none }
        else { w with files := update w.files candidate.1 none, rows }

/-- An addition follows a put of its caller, and names an item that no set has. -/
def step : Act B H → Option (World B H)
  | .put caller bytes => some (w.putBlob hashOf caller bytes)
  | .add caller how item now =>
    if (caller, item.hash) ∈ w.puts ∧ item.id ∉ w.items.map Item.id then some (w.addItem how item now) else none
  | .remove item => if item ∈ w.items then some (w.removeItem item) else none
  | .deleteSet set => some (w.deleteSet set)
  | .rebuildIndex => some w.rebuildIndex
  | .pass1 found =>
    if ∀ c ∈ found, w.Collectable c then some { w with candidates := found ++ w.candidates } else none
  | .pass2 candidate crash =>
    if candidate ∈ w.candidates then some (w.pass2Apply candidate crash) else none

def start : World B H := ⟨fun _ => none, fun _ => none, [], [], [], []⟩

def refcount (w : World B H) (hash : H) : Int := ((w.rows hash).map BlobRow.refcount).getD 0

/-- An addition that does not look at the file of its blob would find it. -/
def FileThere : Act B H → Prop
  | .add _ how item _ => how.looks ∨ (w.files item.hash).isSome
  | _ => True

instance (w : World B H) (a : Act B H) : Decidable (w.FileThere a) := by
  cases a <;> unfold FileThere <;> infer_instance

/-- The references are the items, the counts count them, and the file of every item is there. -/
structure Inv (w : World B H) : Prop where
  refs : w.refs = w.items
  counts : ∀ hash, w.refcount hash = countOf w.items hash
  files : ∀ hash bytes, w.files hash = some bytes → hashOf bytes = hash
  kept : ∀ item ∈ w.items, (w.files item.hash).isSome

variable {hashOf} {w : World B H}

theorem countOf_cons (item : Item H) (items : List (Item H)) (hash : H) :
    countOf (item :: items) hash = countOf items hash + if item.hash = hash then 1 else 0 := by
  simp [countOf, List.countP_cons]

variable {item : Item H}

theorem Inv.not_mem_of_refcount (h : w.Inv hashOf) (hzero : w.refcount item.hash ≤ 0) :
    item ∉ w.items := by
  intro hitem
  have hpos : 0 < countOf w.items item.hash := List.countP_pos_iff.mpr ⟨item, hitem, by simp⟩
  have hcount := h.counts item.hash
  omega

theorem Inv.rows_isSome (h : w.Inv hashOf) (hitem : item ∈ w.items) :
    (w.rows item.hash).isSome := by
  by_contra hnone
  rw [Option.not_isSome_iff_eq_none] at hnone
  exact h.not_mem_of_refcount (by simp [refcount, hnone]) hitem

theorem Inv.putBlob (h : w.Inv hashOf) (caller : Nat) (bytes : B) :
    (w.putBlob hashOf caller bytes).Inv hashOf := by
  refine ⟨h.refs, h.counts, (Function.forall_update_iff _ fun hash o => ∀ bytes, o = some bytes →
    hashOf bytes = hash).mpr ⟨fun b hb => ?_, fun hash _ => h.files hash⟩, fun item hitem => ?_⟩
  · cases hfile : w.files (hashOf bytes) with (rw [hfile] at hb; cases hb)
    | none => rfl
    | some => exact h.files _ _ hfile
  · by_cases heq : item.hash = hashOf bytes
    · simp [World.putBlob, heq]
    · simpa [World.putBlob, update_of_ne heq] using h.kept item hitem

theorem Inv.addItem (h : w.Inv hashOf) {how : Addition} (now : Int)
    (hfile : how.looks ∨ (w.files item.hash).isSome) : (w.addItem how item now).Inv hashOf := by
  unfold World.addItem
  split
  · exact h
  rename_i hlooked
  have hthere : (w.files item.hash).isSome := by
    rcases hfile with hlooks | hthere
    · simpa [hlooks, Option.isSome_iff_ne_none] using hlooked
    · exact hthere
  refine ⟨congrArg (item :: ·) h.refs, fun hash => ?_, h.files,
    List.forall_mem_cons.mpr ⟨hthere, h.kept⟩⟩
  rw [countOf_cons, Int.natCast_add, ← h.counts hash]
  by_cases heq : item.hash = hash
  · simp [refcount, addBlobRef, heq]
  · simp [refcount, addBlobRef, heq, update_of_ne (Ne.symm heq)]

theorem Inv.removeItem (h : w.Inv hashOf) (hitem : item ∈ w.items) :
    (w.removeItem item).Inv hashOf := by
  unfold World.removeItem
  rw [if_pos (h.refs ▸ hitem)]
  refine ⟨congrArg (·.erase item) h.refs, fun hash => ?_, h.files,
    fun i hi => h.kept i (List.mem_of_mem_erase hi)⟩
  have hcount := h.counts hash
  rw [countOf, (List.perm_cons_erase hitem).countP_eq, ← countOf, countOf_cons] at hcount
  by_cases heq : item.hash = hash
  · subst heq
    obtain ⟨row, hrow⟩ := Option.isSome_iff_exists.mp (h.rows_isSome hitem)
    simp only [refcount, Function.update_self, hrow, Option.map_some, Option.getD_some, if_true] at hcount ⊢
    omega
  · simpa only [refcount, update_of_ne (Ne.symm heq), heq, if_false, Nat.add_zero] using hcount

theorem Inv.deleteSet (h : w.Inv hashOf) (set : Nat) : (w.deleteSet set).Inv hashOf := by
  unfold World.deleteSet
  dsimp only
  split
  · refine ⟨congrArg _ h.refs, fun hash => ?_, h.files, fun i hi => h.kept i (List.mem_of_mem_filter hi)⟩
    have hcount := h.counts hash
    have hsplit : countOf w.items hash = countOf (w.items.filter fun i => i.set = set) hash +
        countOf (w.items.filter fun i => i.set ≠ set) hash := by
      simpa [countOf] using
        List.countP_eq_countP_filter_add w.items (fun i => i.hash = hash) fun i => i.set = set
    rw [refcount] at hcount ⊢
    simp only [h.refs]
    rcases hrow : w.rows hash with _ | row
    all_goals
      rw [hrow] at hcount
      simp only [Option.map_none, Option.map_some, Option.getD_none, Option.getD_some] at hcount ⊢
      omega
  · exact h

theorem refcount_reindex (items : List (Item H)) (rows : H → Option BlobRow) (hash : H) :
    (((items.foldl reindex rows) hash).map BlobRow.refcount).getD 0 =
      ((rows hash).map BlobRow.refcount).getD 0 + countOf items hash := by
  induction items generalizing rows with
  | nil => simp [countOf]
  | cons item items ih =>
    rw [List.foldl_cons, ih, countOf_cons]
    by_cases heq : item.hash = hash
    · subst heq
      cases hrow : rows item.hash <;> simp [reindex, hrow] <;> omega
    · simp [reindex, heq, update_of_ne (Ne.symm heq)]

variable (h : w.Inv hashOf)
include h

theorem Inv.rebuildIndex : w.rebuildIndex.Inv hashOf := by
  refine ⟨rfl, fun hash => ?_, h.files, h.kept⟩
  have hscan := refcount_reindex w.items (fun _ => none) hash
  simpa [refcount, World.rebuildIndex] using hscan

theorem Inv.deleteRow {hash : H} (hzero : w.refcount hash = 0) :
    ({ w with rows := update w.rows hash none } : World B H).Inv hashOf := by
  refine ⟨h.refs, fun other => ?_, h.files, h.kept⟩
  by_cases heq : other = hash
  · subst heq
    simpa [refcount, ← h.counts] using hzero.symm
  · simpa [refcount, update_of_ne heq] using h.counts other

theorem Inv.unlink {hash : H} (hzero : w.refcount hash = 0) :
    ({ w with files := update w.files hash none } : World B H).Inv hashOf := by
  refine ⟨h.refs, h.counts, (Function.forall_update_iff _ fun hash o => ∀ bytes, o = some bytes →
    hashOf bytes = hash).mpr ⟨nofun, fun hash _ => h.files hash⟩, fun item hitem => ?_⟩
  by_cases heq : item.hash = hash
  · exact absurd hitem (h.not_mem_of_refcount (heq ▸ Int.le_of_eq hzero))
  · simpa [update_of_ne heq] using h.kept item hitem

theorem Inv.pass2Apply (candidate : H × Int) (crash : Bool) :
    (w.pass2Apply candidate crash).Inv hashOf := by
  unfold World.pass2Apply
  cases hrow : w.rows candidate.1 with
  | none => exact h
  | some row =>
    have hcount : row.refcount = countOf w.items candidate.1 := by
      simpa [refcount, hrow] using h.counts candidate.1
    dsimp only
    split
    · exact h
    have hzero : row.refcount = 0 := by omega
    have hcounted : w.refcount candidate.1 = 0 := by simp [refcount, hrow, hzero]
    split
    · exact h
    cases w.files candidate.1 with
    | none => exact h.deleteRow hcounted
    | some =>
      cases crash
      · exact (h.unlink hcounted).deleteRow hcounted
      · exact h.unlink hcounted

theorem Inv.step {a : Act B H} (hfile : w.FileThere a) {w' : World B H}
    (hstep : w.step hashOf a = some w') : w'.Inv hashOf := by
  refine Yields.elim hstep ?_
  cases a with
  | put caller bytes => exact h.putBlob caller bytes
  | add caller how item now => exact .guarded fun _ => h.addItem now hfile
  | remove => exact .guarded fun hitem => h.removeItem hitem
  | deleteSet set => exact h.deleteSet set
  | rebuildIndex => exact h.rebuildIndex
  | pass1 => exact .guarded fun _ => { h with }
  | pass2 candidate crash => exact .guarded fun _ => h.pass2Apply candidate crash

omit h

end World

section

variable (hashOf : B → H)

end

private def upload : Item Nat := ⟨1, 2, 7, 30⟩

end Cosmix.Mds
