/- source: cosmix-edit-core/src/buffer.rs
   digest: Undo and redo by composed inverses; the requests a buffer serves, and its runs. -/

import Cosmix.EditCore.Buffer

namespace Cosmix.EditCore

open Cosmix.Lib.Weave (seg)

inductive LaneSel
  | own | all
  | lane (o : Origin)
  deriving DecidableEq

structure Composed (P : Type) where
  range : Range
  payload : P
  member : Nat
  deriving DecidableEq

section

variable {P : Type}

/-- An older item through a newer member, with the side each edit lay on. -/
def throughMember (r : Range) : List RawEdit → Option (Range × List Bool)
  | [] => some (r, [])
  | e :: es => do
    let (r', left) ← transformRaw r e .throughFirst
    let (r'', sides) ← throughMember r' es
    some (r'', left :: sides)

/-- The newer item reads first: by start, emptiness and side. Non-empty items at one start overlap.
-/
def takeNew (old : Composed P × List Bool) (new : Nat × Composed P) : Option Bool :=
  let o := old.1.range
  let n := new.2.range
  if o.start ≠ n.start then some (n.start < o.start)
  else
    match rangeIsEmpty o, rangeIsEmpty n with
    | true, true => some ((old.2[new.1]?).getD false)
    | true, false => some false
    | false, true => some true
    | false, false => none

/-- Merging one older item, and whatever follows it, with the newer items. -/
def mergeOne (rev : Nat) (old : Composed P × List Bool)
    (rest : List (Nat × Composed P) → Except (Nat × Nat) (List (Composed P))) :
    List (Nat × Composed P) → Except (Nat × Nat) (List (Composed P))
  | [] => do
    let tail ← rest []
    .ok (old.1 :: tail)
  | n :: ns =>
    match takeNew old n with
    | none => .error (old.1.member, rev)
    | some true => do
      let tail ← mergeOne rev old rest ns
      .ok (n.2 :: tail)
    | some false => do
      let tail ← rest (n :: ns)
      .ok (old.1 :: tail)

def mergeMember (rev : Nat) : List (Composed P × List Bool) → List (Nat × Composed P) →
    Except (Nat × Nat) (List (Composed P))
  | [] => fun new => .ok (new.map Prod.snd)
  | o :: os => mergeOne rev o (mergeMember rev os)

def olderThrough (rev : Nat) (edits : List RawEdit) (it : Composed P) :
    Except (Nat × Nat) (Composed P × List Bool) :=
  match throughMember it.range edits with
  | some (r, sides) => .ok ({ it with range := r }, sides)
  | none => .error (it.member, rev)

/-- Older items go through a member's edits; its inverse items, in reverse order, are merged in. -/
def composeMember (items : List (Composed P)) (member : Nat × List RawEdit × List P) :
    Except (Nat × Nat) (List (Composed P)) := do
  let (rev, edits, payloads) := member
  let old ← items.mapM (olderThrough rev edits)
  let new := (((postRangesRaw edits).zip payloads).map fun i =>
    (⟨i.1, i.2, rev⟩ : Composed P)).zipIdx.reverse.map fun i => (i.2, i.1)
  mergeMember rev old new

/-- The inverses of a group's entries in reading order, in final coordinates. The error names member
and entry. -/
def composeMembers (members : List (Nat × List RawEdit × List P)) :
    Except (Nat × Nat) (List (Composed P)) :=
  members.foldlM composeMember []

end

/-- One entry of the history an undo transforms through, as raw edits. -/
structure Red where
  entry : LogEntry
  edits : List RawEdit
  deriving DecidableEq

/-- An inverse item carried forward: its range and the length it restores. -/
abbrev Carried := Range × Nat

def excludeEdits (inv : List Carried) (edits : List RawEdit) : Option (List RawEdit) :=
  let seq := inv.reverse.map fun i => (⟨i.1.start, i.1.stop - i.1.start, i.2⟩ : RawEdit)
  edits.mapM fun ed => do
    let r ← transformThrough ⟨ed.p, ed.p + ed.dd⟩ seq .selfFirst
    some ⟨r.start, ed.dd, ed.ii⟩

def carryThrough (inv : List Carried) (edits : List RawEdit) : Option (List Carried) :=
  inv.mapM fun i => do
    let r ← transformThrough i.1 edits .throughFirst
    some (r, i.2)

/-- The entries after a group as if it had never been applied. -/
def excludeFrom : List Carried → List Red → Option (List Red)
  | _, [] => some []
  | inv, s :: rest => do
    let edits ← excludeEdits inv s.edits
    let inv' ← carryThrough inv s.edits
    let out ← excludeFrom inv' rest
    some (⟨s.entry, edits⟩ :: out)

/-- Rewrites the entries after a group for an undo or redo that cancels against it. -/
def exclude (group rest : List Red) : Option (List Red) :=
  match composeMembers (group.map fun r => (r.entry.rev, r.edits, r.edits.map RawEdit.dd)) with
  | .error _ => none
  | .ok inv => excludeFrom (inv.map fun c => (c.range, c.payload)) rest

def EntryKind.target : EntryKind → Option Group
  | .undo of => some of
  | .redo of => some of
  | .edit => none
  | .reload => none

def findWhole (red : List Red) (of : Group) : Option Nat :=
  let n := of.last - of.first + 1
  match red.findIdx? fun r => r.entry.rev == of.first with
  | none => none
  | some pos =>
    let g := (red.drop pos).take n
    if pos + n ≤ red.length ∧
        ((g.map fun r => r.entry.rev).zip (List.range' of.first (of.last + 1 - of.first))).all
          (fun i => i.1 == i.2) then some pos
    else none

/-- An undo or redo cancels against its targets in the list; every other entry is appended. -/
def reduceStep (red : List Red) (entry : LogEntry) : List Red :=
  let plain := red ++ [⟨entry, entry.edits.map RawEdit.of⟩]
  match entry.kind.target with
  | none => plain
  | some of =>
    match findWhole red of with
    | none => plain
    | some pos =>
      let n := of.last - of.first + 1
      match exclude ((red.drop pos).take n) (red.drop (pos + n)) with
      | some rest => red.take pos ++ rest
      | none => plain

/-- An undo or redo item: current range, text it restores, text it expects to remove, member. -/
structure UndoItem where
  range : Range
  (restore expect : Str)
  member : Nat
  deriving DecidableEq

namespace Buffer

variable (b : Buffer)

def top (o : Origin) (redo : Bool) : Option Group :=
  let l := b.log.lane o
  if redo then l.redo.getLast? else l.undo.getLast?

/-- The lane whose top group has the highest rev, the later one on a tie. -/
def newestLane (redo : Bool) : Option Origin :=
  (b.log.lanes.keys.foldl (fun (best : Option (Nat × Origin)) o =>
    match b.top o redo, best with
    | some g, some (end', _) => if g.last ≥ end' then some (g.last, o) else best
    | some g, none => some (g.last, o)
    | none, _ => best) none).map Prod.snd

variable (sel : LaneSel) (caller : Origin)

def laneFor (redo : Bool) : Origin :=
  match sel with
  | .own => caller
  | .lane o => o
  | .all => (b.newestLane redo).getD caller

def pickLane (redo : Bool) : Except CoreError Origin :=
  let lane := b.laneFor sel caller redo
  if (b.top lane redo).isSome then .ok lane
  else
    let name := match sel with
      | .all => "*"
      | _ => lane.toString
    let (reason, what) := if redo then (Reason.nothingToRedo, "redo") else (.nothingToUndo, "undo")
    .error (((CoreError.new .notFound reason s!"nothing to {what} in lane {name}").withStr
      "lane" name).withNum "rev" b.rev)

def undoConflict (b : Buffer) (lane : Origin) (member : Nat) (entry : Option LogEntry) : CoreError :=
  (match entry with
    | some e => ((b.conflict .undoConflict
        s!"undoing rev {member} conflicts with rev {e.rev} by {e.origin.toString}").withNum
          "intervening_rev" e.rev).withStr "intervening_origin" e.origin.toString
    | none => b.conflict .undoConflict
        s!"undoing rev {member} conflicts with later edits to the same text").withStr
      "lane" lane.toString

def entry (rev : Nat) : Option LogEntry :=
  (b.log.after (rev - 1)).head?.filter fun e => e.rev == rev

/-- The history an undo of a group ending at a rev transforms through. -/
def reducedAfter (last : Nat) : List Red := (b.log.after last).foldl reduceStep []

def memberOf (e : LogEntry) : Nat × List RawEdit × List (Str × Str) :=
  (e.rev, e.edits.map RawEdit.of,
    e.edits.zipIdx.map fun i => ((e.deleted[i.2]?).getD Str.empty, i.1.insert))

def throughRed (lane : Origin) (items : List UndoItem) (r : Red) :
    Except CoreError (List UndoItem) :=
  items.mapM fun it =>
    match transformThrough it.range r.edits .throughFirst with
    | some range => .ok { it with range }
    | none => .error (b.undoConflict lane it.member (some r.entry))

def checkUnion (b : Buffer) (lane : Origin) : Nat → List UndoItem → Except CoreError Unit
  | _, [] => .ok ()
  | maxE, it :: rest =>
    if it.range.start < maxE then .error (b.undoConflict lane it.member none)
    else checkUnion b lane (if rangeIsEmpty it.range then maxE else it.range.stop) rest

/-- Every item must still find exactly the text it removes. -/
def checkExpected (b : Buffer) (lane : Origin) : List UndoItem → Except CoreError Unit
  | [] => .ok ()
  | it :: rest =>
    if b.text.read it.range ≠ it.expect then .error (b.undoConflict lane it.member none)
    else checkExpected b lane rest

def groupEntries (group : Group) : List LogEntry :=
  (b.log.after (group.first - 1)).takeWhile fun e => e.rev ≤ group.last

/-- The group's inverse in current coordinates, in reading order, verified against the current text.
-/
def composeInverse (group : Group) (lane : Origin) : Except CoreError (List UndoItem) :=
  if group.first ≤ b.oldestRev then
    .error ((b.conflict .historyTrimmed
      s!"rev {group.first} is older than the retained history").withNum "oldest_rev" b.oldestRev)
  else
    match composeMembers ((b.groupEntries group).map memberOf) with
    | .error (member, rev) => .error (b.undoConflict lane member (b.entry rev))
    | .ok composed => do
      let items := composed.map fun c =>
        (⟨c.range, c.payload.1, c.payload.2, c.member⟩ : UndoItem)
      let items ← (b.reducedAfter group.last).foldlM (b.throughRed lane) items
      b.checkUnion lane 0 items
      b.checkExpected lane items
      .ok items

def undoPlan (redo : Bool) : Except CoreError (Origin × Group × List Resolved) := do
  let lane ← b.pickLane sel caller redo
  let group := (b.top lane redo).getD ⟨0, 0⟩
  let items ← b.composeInverse group lane
  .ok (lane, group, items.zipIdx.map fun i =>
    ⟨i.1.range.start, i.1.range.stop, i.1.restore, i.2⟩)

def undoCommit (lane : Origin) (group : Group) (caller : Origin) (via : Via) (nowMs : Nat)
    (redo : Bool) (opId : Option OpId) : Commit where
  origin := caller
  lane := lane
  kind := if redo then .redo group else .undo group
  via := via
  nowMs := nowMs
  opId := opId
  coalesce := false
  cursor := none
  rebased := false

variable (via : Via) (nowMs : Nat)

def undoRedo (redo : Bool) (opId : Option OpId) : Except CoreError (Buffer × Applied) := do
  let (lane, group, resolved) ← b.undoPlan sel caller redo
  b.commitTxn resolved (undoCommit lane group caller via nowMs redo opId)

def undo : Except CoreError (Buffer × Applied) :=
  b.undoRedo sel caller via nowMs false none

def redo : Except CoreError (Buffer × Applied) :=
  b.undoRedo sel caller via nowMs true none

/-- The largest number, from a bound down, that passes a test. -/
def backTo (p : Nat → Bool) : Nat → Nat
  | 0 => 0
  | n + 1 => if p (n + 1) then n + 1 else backTo p n

def commonFront : List UInt8 → List UInt8 → Nat
  | a :: as, b :: bs => if a = b then commonFront as bs + 1 else 0
  | _, _ => 0

/-- The substring between two offsets; the source's slice panics off a char boundary. -/
def substr (s : Str) (lo hi : Nat) : Str :=
  if h : s.isCharBoundary lo = true ∧ s.isCharBoundary hi = true ∧ lo ≤ hi then
    ⟨seg s.bytes lo hi, Lib.Coding.coded_seg s.valid h.1 h.2.1 h.2.2⟩
  else Str.empty

/-- The one span in which a new text differs, and the replacement. `none` when they are the same. -/
def differing (cur : Text) (new : Str) : Option Resolved :=
  let pre := backTo (fun n => cur.isCharBoundary n && new.isCharBoundary n)
    (commonFront cur.bytes new.bytes)
  if pre = cur.len ∧ pre = new.len then none
  else
    let room := min cur.len new.len - pre
    let suf := backTo (fun n => cur.isCharBoundary (cur.len - n) && new.isCharBoundary (new.len - n))
      (min room (commonFront cur.bytes.reverse new.bytes.reverse))
    some ⟨pre, cur.len - suf, substr new pre (new.len - suf), 0⟩

def reloadCommit : Commit where
  origin := Origin.disk
  lane := Origin.disk
  kind := .reload
  via := via
  nowMs := nowMs
  opId := none
  coalesce := false
  cursor := none
  rebased := false

/-- Common front and back kept; one reload entry in the disk lane. `none` when identical. -/
def reloadMinimal (newText : Str) (via : Via) (nowMs : Nat) :
    Except CoreError (Option (Buffer × Applied)) :=
  match differing b.text newText with
  | none => .ok none
  | some item => (b.commitTxn [item] (reloadCommit via nowMs)).map some

def setSelections (origin : Origin) (sels : List Selection) : Except CoreError Buffer :=
  if sels.length > maxSelectionsPerOrigin then
    .error ((limit s!"{sels.length} selections exceed the {maxSelectionsPerOrigin} per origin").withNum
      "limit" maxSelectionsPerOrigin)
  else do
    sels.forM fun s => do
      let _ ← b.checkOffset s.anchor
      let _ ← b.checkOffset s.head
      Except.ok ()
    if sels.isEmpty then .ok { b with selections := b.selections.erase origin }
    else if !b.selections.contains origin && b.selections.size ≥ maxSelectionOrigins then
      .error ((limit s!"{maxSelectionOrigins} origins already hold selections").withNum
        "limit" maxSelectionOrigins)
    else .ok { b with selections := b.selections.insert origin sels }

def anchorOf (name : String) (spec : AnchorSpec) : Except CoreError NamedAnchor :=
  match spec.pos, spec.range with
  | some pos, none => do
    let o ← b.resolvePos pos
    .ok ⟨name, ⟨o, spec.bias.getD .before, none⟩, none⟩
  | none, some range => do
    let r ← b.resolveRange range
    .ok ⟨name, ⟨r.start, .after, none⟩, some ⟨r.stop, .before, none⟩⟩
  | _, _ => .error (invalid .badArgs "anchor.set takes exactly one of `at` or `range`")

def replaceAnchor (anchor : NamedAnchor) : List NamedAnchor → List NamedAnchor
  | [] => []
  | a :: rest => if a.name = anchor.name then anchor :: rest else a :: replaceAnchor anchor rest

def anchorSet (name : String) (spec : AnchorSpec) : Except CoreError Buffer :=
  if !isValidName name then
    .error (invalid .badName s!"anchor name \"{name}\" must match ^[A-Za-z0-9._-]\x7b1,64\x7d$")
  else do
    let anchor ← b.anchorOf name spec
    if (b.anchor name).isSome then .ok { b with anchors := replaceAnchor anchor b.anchors }
    else if b.anchors.length ≥ maxAnchors then
      .error ((limit s!"{maxAnchors} anchors already set").withNum "limit" maxAnchors)
    else .ok { b with anchors := b.anchors ++ [anchor] }

def anchorClear (name : String) : Buffer × Bool :=
  let anchors := b.anchors.filter fun a => a.name ≠ name
  ({ b with anchors }, anchors.length ≠ b.anchors.length)

def markSaved : Buffer := { b with savedRev := some b.rev }

end Buffer

inductive Request
  | apply (req : TxnRequest) (origin : Origin) (via : Via) (nowMs : Nat)
  | undoRedo (sel : LaneSel) (caller : Origin) (via : Via) (nowMs : Nat) (redo : Bool)
      (opId : Option OpId)
  | reload (newText : Str) (via : Via) (nowMs : Nat)
  | setSelections (origin : Origin) (sels : List Selection)
  | anchorSet (name : String) (spec : AnchorSpec)
  | anchorClear (name : String)
  | markSaved
  deriving DecidableEq

def Buffer.step (b : Buffer) : Request → Buffer
  | .apply req origin via nowMs =>
    match b.apply req origin via nowMs with
    | .ok r => r.1
    | .error _ => b
  | .undoRedo sel caller via nowMs redo opId =>
    match b.undoRedo sel caller via nowMs redo opId with
    | .ok r => r.1
    | .error _ => b
  | .reload newText via nowMs =>
    match b.reloadMinimal newText via nowMs with
    | .ok (some r) => r.1
    | _ => b
  | .setSelections origin sels =>
    match b.setSelections origin sels with
    | .ok b' => b'
    | .error _ => b
  | .anchorSet name spec =>
    match b.anchorSet name spec with
    | .ok b' => b'
    | .error _ => b
  | .anchorClear name => (b.anchorClear name).1
  | .markSaved => b.markSaved

def Buffer.run (b : Buffer) (rs : List Request) : Buffer := rs.foldl Buffer.step b

/-- What holds of a fresh buffer and is kept by every call holds after every run. -/
theorem Buffer.run_induction {Q : Buffer → Prop} (b : Buffer) (h : Q b)
    (hstep : ∀ b r, Q b → Q (b.step r)) (rs : List Request) : Q (b.run rs) := by
  induction rs generalizing b with
  | nil => exact h
  | cons r rs ih => exact ih (b.step r) (hstep b r h)

namespace Buffer

variable {b b' : Buffer} {items : List Resolved} {r : Buffer × Applied} {req : TxnRequest}
  {via : Via} {nowMs : Nat}

theorem checkOffset_ok {o x : Nat} (h : b.checkOffset o = .ok x) :
    x = o ∧ b.text.isCharBoundary o = true := by
  unfold checkOffset at h
  split at h
  · cases h
  split at h
  · cases h
  · next hb => exact ⟨(Except.ok.inj h).symm, by simpa using hb⟩

theorem ordered_ok {s e : Nat} {r : Range} (h : ordered s e = .ok r) : r = ⟨s, e⟩ ∧ s ≤ e := by
  unfold ordered at h
  split at h
  · cases h
  · exact ⟨(Except.ok.inj h).symm, by omega⟩

theorem commitTxn_ok {c : Commit} (h : b.commitTxn items c = .ok r) :
    ∃ sim prepared cursor, b.text.simulate (sequenceOf items) = .ok sim ∧
      b.placeCursor c (sequenceOf items) sim.finalLines = .ok cursor ∧
      b.text.prepare (sequenceOf items) = .ok prepared ∧
      r = b.record c (deletedOf b.text items) prepared cursor := by
  obtain ⟨sim, hsim, h⟩ := Lib.bind_eq_ok.mp h
  obtain ⟨cursor, hcursor, h⟩ := Lib.bind_eq_ok.mp h
  obtain ⟨prepared, hprepared, h⟩ := Lib.bind_eq_ok.mp h
  exact ⟨sim, prepared, cursor, hsim, hcursor, hprepared, (Except.ok.inj h).symm⟩

theorem apply_ok {origin : Origin} (h : b.apply req origin via nowMs = .ok r) :
    ∃ items, b.resolveTxn req = .ok items ∧
      b.commitTxn items (b.applyCommit req origin via nowMs) = .ok r :=
  Lib.bind_eq_ok.mp h

theorem reloadMinimal_ok {newText : Str} (h : b.reloadMinimal newText via nowMs = .ok (some r)) :
    ∃ item, differing b.text newText = some item ∧
      b.commitTxn [item] (reloadCommit via nowMs) = .ok r := by
  unfold reloadMinimal at h
  split at h
  · cases h
  next item hitem =>
  refine ⟨item, hitem, ?_⟩
  cases hc : b.commitTxn [item] (reloadCommit via nowMs) with
  | error =>
    rw [hc] at h
    exact absurd h (by simp [Except.map])
  | ok =>
    rw [hc] at h
    simp only [Except.map, Except.ok.injEq, Option.some.injEq] at h
    rw [h]

/-- A call that concerns anchors, selections or the saved mark only. -/
inductive PointCall (b : Buffer) : Buffer → Prop
  | setSelections {origin : Origin} {sels : List Selection} {b' : Buffer}
      (h : b.setSelections origin sels = .ok b') : PointCall b b'
  | anchorSet {name : String} {spec : AnchorSpec} {b' : Buffer}
      (h : b.anchorSet name spec = .ok b') : PointCall b b'
  | anchorClear (name : String) : PointCall b (b.anchorClear name).1
  | markSaved : PointCall b b.markSaved

private theorem forM_ok {sels : List Selection} {u : Unit} (h : (sels.forM fun s => do
      let _ ← b.checkOffset s.anchor
      let _ ← b.checkOffset s.head
      Except.ok ()) = .ok u) :
    ∀ s ∈ sels, (∃ o, b.checkOffset s.anchor = .ok o) ∧ ∃ o, b.checkOffset s.head = .ok o := by
  induction sels with
  | nil => simp
  | cons s sels ih =>
    obtain ⟨_, hs, h⟩ := Lib.bind_eq_ok.mp h
    obtain ⟨x, hx, hs⟩ := Lib.bind_eq_ok.mp hs
    obtain ⟨y, hy, -⟩ := Lib.bind_eq_ok.mp hs
    intro s' hs'
    rcases List.mem_cons.mp hs' with rfl | hs'
    · exact ⟨⟨x, hx⟩, y, hy⟩
    · exact ih h s' hs'

theorem setSelections_ok {origin : Origin} {sels : List Selection}
    (h : b.setSelections origin sels = .ok b') :
    (∀ s ∈ sels, (∃ o, b.checkOffset s.anchor = .ok o) ∧ ∃ o, b.checkOffset s.head = .ok o) ∧
      (b' = { b with selections := b.selections.erase origin } ∨
        b' = { b with selections := b.selections.insert origin sels }) := by
  unfold setSelections at h
  split at h
  · cases h
  obtain ⟨_, hall, h⟩ := Lib.bind_eq_ok.mp h
  refine ⟨forM_ok hall, ?_⟩
  split at h
  · exact .inl (Except.ok.inj h).symm
  split at h
  · cases h
  · exact .inr (Except.ok.inj h).symm

theorem anchorSet_ok {name : String} {spec : AnchorSpec} (h : b.anchorSet name spec = .ok b') :
    ∃ anchor, b.anchorOf name spec = .ok anchor ∧
      (b' = { b with anchors := replaceAnchor anchor b.anchors } ∨
        b' = { b with anchors := b.anchors ++ [anchor] }) := by
  unfold anchorSet at h
  split at h
  · cases h
  obtain ⟨anchor, hanchor, h⟩ := Lib.bind_eq_ok.mp h
  refine ⟨anchor, hanchor, ?_⟩
  split at h
  · exact .inl (Except.ok.inj h).symm
  split at h
  · cases h
  · exact .inr (Except.ok.inj h).symm

theorem PointCall.fixed (h : PointCall b b') :
    b'.text = b.text ∧ b'.log = b.log ∧ b'.rev = b.rev := by
  cases h with
  | setSelections h =>
    rcases (setSelections_ok h).2 with rfl | rfl
    · exact ⟨rfl, rfl, rfl⟩
    · exact ⟨rfl, rfl, rfl⟩
  | anchorSet h =>
    obtain ⟨_, -, rfl | rfl⟩ := anchorSet_ok h
    · exact ⟨rfl, rfl, rfl⟩
    · exact ⟨rfl, rfl, rfl⟩
  | anchorClear | markSaved => exact ⟨rfl, rfl, rfl⟩

/-- What a call asks to commit: the items it resolved to and how they are to be recorded. -/
inductive CommitBy (b : Buffer) : List Resolved → Commit → Prop
  | apply {req : TxnRequest} {items : List Resolved} (origin : Origin) (via : Via) (nowMs : Nat)
      (h : b.resolveTxn req = .ok items) : CommitBy b items (b.applyCommit req origin via nowMs)
  | undoRedo {sel : LaneSel} {redo : Bool} {lane : Origin} {group : Group} {items : List Resolved}
      (caller : Origin) (via : Via) (nowMs : Nat) (opId : Option OpId)
      (h : b.undoPlan sel caller redo = .ok (lane, group, items)) :
      CommitBy b items (undoCommit lane group caller via nowMs redo opId)
  | reload {newText : Str} {item : Resolved} (via : Via) (nowMs : Nat)
      (h : differing b.text newText = some item) : CommitBy b [item] (reloadCommit via nowMs)

/-- Every call is refused or a no-op, concerns points only, or commits one transaction. -/
theorem step_cases (b : Buffer) (r : Request) : b.step r = b ∨ PointCall b (b.step r) ∨
      ∃ items c a, CommitBy b items c ∧ b.commitTxn items c = .ok (b.step r, a) := by
  cases r with
  | apply req origin via nowMs =>
    simp only [step]
    split
    · next res hres =>
      obtain ⟨items, hitems, hc⟩ := apply_ok hres
      exact .inr (.inr ⟨items, _, res.2, .apply origin via nowMs hitems, hc⟩)
    · exact .inl rfl
  | undoRedo sel caller via nowMs redo opId =>
    simp only [step]
    split
    · next res hres =>
      obtain ⟨⟨_, _, items⟩, hplan, hc⟩ := Lib.bind_eq_ok.mp hres
      exact .inr (.inr ⟨items, _, res.2, .undoRedo caller via nowMs opId hplan, hc⟩)
    · exact .inl rfl
  | reload newText via nowMs =>
    simp only [step]
    split
    · next res hres =>
      obtain ⟨item, hitem, hc⟩ := reloadMinimal_ok hres
      exact .inr (.inr ⟨[item], _, res.2, .reload via nowMs hitem, hc⟩)
    · exact .inl rfl
  | setSelections =>
    simp only [step]
    split
    · next hb' => exact .inr (.inl (.setSelections hb'))
    · exact .inl rfl
  | anchorSet =>
    simp only [step]
    split
    · next hb' => exact .inr (.inl (.anchorSet hb'))
    · exact .inl rfl
  | anchorClear name => exact .inr (.inl (.anchorClear name))
  | markSaved => exact .inr (.inl .markSaved)

theorem resolveTxn_latest (hcas : req.cas = .latest) (hops : req.ops.isEmpty = false)
    (hitems : b.resolveItems req.ops none = .ok items) (hcount : req.ops.length ≤ maxOpsPerTxn)
    (hsize : (items.map fun r => r.text.len).sum ≤ maxRequestTextBytes) :
    b.resolveTxn req = .ok items := by
  unfold Buffer.resolveTxn
  rw [hops, hcas]
  simp only [Buffer.rebaseFrom, Bool.false_eq_true, if_false, bind, Except.bind, hitems]
  rw [if_neg (by omega), if_neg (by omega)]

end Buffer

theorem Letters.checkOffset {b : Buffer} (h : Letters b.text.bytes) {o : Nat} (ho : o ≤ b.len) :
    b.checkOffset o = .ok o := by
  unfold Buffer.checkOffset
  rw [if_neg (by omega), if_neg (by rw [Text.isCharBoundary, h.boundary ho]; decide)]

end Cosmix.EditCore
