/- source: cosmix-edit-core/src/buffer.rs, anchor.rs, pos.rs, history.rs
   digest: Anchors, log and undo lanes; the buffer facade: resolving, rebasing, committing. -/

import Cosmix.EditCore.Text

namespace Cosmix.EditCore

inductive NamedPos
  | atStart | atEnd
  deriving DecidableEq

inductive PosSpec
  | offset (o : Nat)
  | named (n : NamedPos)
  | lineCol (line : Nat) (col : Option Nat)
  | anchor (name : String)
  deriving DecidableEq

inductive RangeSpec
  | offsets (s e : Nat)
  | span (start stop : PosSpec)
  | lines (a b : Nat)
  | anchor (name : String)
  | all
  deriving DecidableEq

inductive Bias
  | before | after
  deriving DecidableEq

structure Anchor where
  offset : Nat
  bias : Bias
  /-- Set when a delete strictly spanning the anchor collapsed it. -/
  collapsedRev : Option Nat
  deriving DecidableEq

structure NamedAnchor where
  name : String
  start : Anchor
  stop : Option Anchor
  deriving DecidableEq

/-- Exactly one of a position and a range. -/
structure AnchorSpec where
  pos : Option PosSpec
  range : Option RangeSpec
  bias : Option Bias
  deriving DecidableEq

/-- Direction preserved; a caret when both ends agree. -/
structure Selection where
  (anchor head : Nat)
  deriving DecidableEq

/-- Map one point through one applied edit: the new offset and whether it collapsed. -/
def mapPoint (a : Nat) (bias : Bias) (edit : Edit) : Nat × Bool :=
  let p := edit.offset
  let dd := edit.delete
  let ii := edit.insert.len
  if a < p ∨ (dd = 0 ∧ a > p) then
    -- before the edit, or after a pure insert
    if a < p then (a, false) else (a + ii, false)
  else if a = p then
    match bias with
    | .before => (a, false)
    | .after => (a + ii, false)
  else if a < p + dd then
    -- strictly inside the deleted span: collapse to its start
    (p, true)
  else (a - dd + ii, false)

/-- Map a point through a whole applied sequence; collapsed if any step collapsed it. -/
def mapThrough (a : Nat) (bias : Bias) (edits : List Edit) : Nat × Bool :=
  edits.foldl (fun r e =>
    let n := mapPoint r.1 bias e
    (n.1, r.2 || n.2)) (a, false)

def Anchor.moved (a : Anchor) (dest : Nat × Bool) (rev : Nat) : Anchor :=
  { a with offset := dest.1, collapsedRev := if dest.2 then some rev else a.collapsedRev }

/-- Map an anchor through a sequence. A range does not expand; its start never passes its end. -/
def NamedAnchor.map (n : NamedAnchor) (edits : List Edit) (rev : Nat) : NamedAnchor :=
  match n.stop with
  | none => { n with start := n.start.moved (mapThrough n.start.offset n.start.bias edits) rev }
  | some stop =>
    let sb := if n.start.offset = stop.offset then Bias.before else Bias.after
    let s := mapThrough n.start.offset sb edits
    let e := mapThrough stop.offset .before edits
    { n with
      start := n.start.moved (min s.1 e.1, s.2) rev
      stop := some (stop.moved e rev) }

def Selection.map (s : Selection) (edits : List Edit) (bias : Bias) : Selection :=
  ⟨(mapThrough s.anchor bias edits).1, (mapThrough s.head bias edits).1⟩

def isValidName (name : String) : Bool :=
  name ≠ "" && name.utf8ByteSize ≤ 64 &&
    name.toList.all fun c => c.isAlphanum || c == '.' || c == '_' || c == '-'

/-- Revs undone together: a contiguous range, both ends included. -/
structure Group where
  (first last : Nat)
  deriving DecidableEq

inductive EntryKind
  | edit
  | undo (of : Group)
  | redo (of : Group)
  | reload
  deriving DecidableEq

/-- An operation id, only recorded and echoed; a client's has its run and a counter. -/
inductive OpId
  | generated (run seq : Nat)
  | other (text : String)
  deriving DecidableEq

structure LogEntry where
  rev : Nat
  (origin lane : Origin)
  kind : EntryKind
  edits : List Edit
  deleted : List Str
  via : Via
  opId : Option OpId
  timeMs : Nat
  deriving DecidableEq

/-- The stacks of one lane, top last. -/
structure Lane where
  (undo redo : List Group)
  deriving DecidableEq

def Lane.empty : Lane := ⟨[], []⟩

abbrev Lanes := Std.ExtTreeMap Origin Lane compare

/-- The retained suffix plus per-lane stacks. -/
structure OpLog where
  entries : List LogEntry
  lanes : Lanes
  textBytes : Nat
  base : Nat

def OpLog.empty : OpLog := ⟨[], ∅, 0, 0⟩

def entryTextBytes (e : LogEntry) : Nat :=
  (e.edits.map fun x => x.insert.len).sum + (e.deleted.map Str.len).sum

namespace OpLog

variable (log : OpLog)

def oldestRev : Nat := log.base

/-- Drops the oldest entries beyond a retention limit, and whether any was. -/
def trim : List LogEntry → Nat → Nat → List LogEntry × Nat × Nat × Bool
  | [], bytes, base => ([], bytes, base, false)
  | old :: rest, bytes, base =>
    if (old :: rest).length > logMaxEntries ∨ bytes > logMaxTextBytes then
      let r := trim rest (bytes - entryTextBytes old) old.rev
      (r.1, r.2.1, r.2.2.1, true)
    else (old :: rest, bytes, base, false)

/-- Undo reach is exactly the retained suffix: groups that start at or before the base go. -/
def retainGroups (base : Nat) (l : Lane) : Lane :=
  ⟨l.undo.filter (·.first > base), l.redo.filter (·.first > base)⟩

/-- Appends an entry and trims; also the new oldest rev if anything was trimmed. -/
def push (entry : LogEntry) : OpLog × Option Nat :=
  let r := trim (log.entries ++ [entry]) (log.textBytes + entryTextBytes entry) log.base
  if r.2.2.2 then
    let lanes := (log.lanes.map fun _ l => retainGroups r.2.2.1 l).filter
      fun _ l => !l.undo.isEmpty || !l.redo.isEmpty
    (⟨r.1, lanes, r.2.1, r.2.2.1⟩, some r.2.2.1)
  else (⟨r.1, log.lanes, r.2.1, r.2.2.1⟩, none)

/-- Entries strictly after a rev, found by index since revs are contiguous. -/
def after (rev : Nat) : List LogEntry :=
  match log.entries.head? with
  | some first => log.entries.drop (rev + 1 - first.rev)
  | none => log.entries

def lane (o : Origin) : Lane := (log.lanes[o]?).getD Lane.empty

end OpLog

open Cosmix.Lib.Weave (seg)

inductive OpSpec
  | insert (pos : PosSpec) (text : Str)
  | delete (range : RangeSpec)
  | replace (range : RangeSpec) (text : Str)
  deriving DecidableEq

inductive Cas
  | latest
  | expectRev (r : Nat)
  | baseRev (b : Nat)
  deriving DecidableEq

structure TxnRequest where
  ops : List OpSpec
  cas : Cas
  coalesce : Bool
  /-- Post-edit coordinates; replaces the editing origin's selections with one caret. -/
  cursor : Option PosSpec
  opId : Option OpId
  deriving DecidableEq

structure Applied where
  (rev baseRev : Nat)
  kind : EntryKind
  edits : List Edit
  changed : List Range
  rebased : Bool
  opId : Option OpId
  (insertedBytes deletedBytes : Nat)
  /-- Set when this apply trimmed history: the new oldest retained rev. -/
  historyTrimmedTo : Option Nat
  deriving DecidableEq

/-- Selections by origin, Rust's `BTreeMap<Origin, Vec<Selection>>`. -/
abbrev Selections := Std.ExtTreeMap Origin (List Selection) compare

structure Buffer where
  text : Text
  log : OpLog
  rev : Nat
  savedRev : Option Nat
  anchors : List NamedAnchor
  selections : Selections

structure Resolved where
  (s e : Nat)
  text : Str
  idx : Nat
  deriving DecidableEq

def Resolved.range (r : Resolved) : Range := ⟨r.s, r.e⟩

structure Commit where
  (origin lane : Origin)
  kind : EntryKind
  via : Via
  nowMs : Nat
  opId : Option OpId
  coalesce : Bool
  cursor : Option PosSpec
  rebased : Bool

/-- Whether an edit continues the previous one as one typing (or deleting) run. -/
def contiguous (prev next : Edit) : Bool :=
  let pureInsert := fun e : Edit => e.delete == 0 && !e.insert.isEmpty
  let pureDelete := fun e : Edit => e.delete > 0 && e.insert.isEmpty
  if pureInsert prev && pureInsert next then next.offset == prev.offset + prev.insert.len
  else if pureDelete prev && pureDelete next then
    next.offset + next.delete == prev.offset || next.offset == prev.offset
  else false

def checkOverlap (items : List Resolved) : Except CoreError Unit :=
  match firstOverlap (items.map Resolved.range) with
  | some r => .error (invalid .overlapInTxn
      s!"op at [{r.start}, {r.stop}) overlaps another op in the same request")
  | none => .ok ()

def canonical (items : List Resolved) : List Resolved :=
  canonicalSort (fun r => (r.range, r.idx)) items

inductive Seg
  | base (r : Range)
  | ins (s : Str)

def Seg.len : Seg → Nat
  | .base r => r.stop - r.start
  | .ins s => s.len

def Seg.bytes (t : Text) : Seg → List UInt8
  | .base r => seg t.bytes r.start r.stop
  | .ins s => s.bytes

structure PostView where
  text : Text
  segs : List (Nat × Seg)
  len : Nat

namespace PostView

def place : Nat → List Seg → List (Nat × Seg) × Nat
  | post, [] => ([], post)
  | post, s :: rest =>
    if s.len > 0 then
      let r := place (post + s.len) rest
      ((post, s) :: r.1, r.2)
    else place post rest

/-- The segments from a position on; the sequence comes in reading order. -/
def cut (t : Text) : Nat → List Edit → List Seg
  | pos, [] => [.base ⟨pos, t.len⟩]
  | pos, e :: rest => .base ⟨pos, e.offset⟩ :: .ins e.insert :: cut t (e.offset + e.delete) rest

protected def new (t : Text) (seq : List Edit) : PostView :=
  let r := place 0 (cut t 0 seq.reverse)
  ⟨t, r.1, r.2⟩

/-- The segment that holds an offset: the last one that starts at or before it. -/
def isCharBoundary (v : PostView) (o : Nat) : Bool :=
  if o ≥ v.len then o == v.len
  else
    match (v.segs.takeWhile (·.1 ≤ o)).getLast? with
    | some (start, .base r) => v.text.isCharBoundary (r.start + (o - start))
    | some (start, .ins s) => s.isCharBoundary (o - start)
    | none => false

variable (v : PostView)

/-- Positions just after the newlines of a segment, in post coordinates. -/
def segStarts (start : Nat) : Seg → List Nat
  | .base r => (v.text.startsIn r.start r.stop).map fun p => start + (p - r.start)
  | .ins s => lineStartsFrom start s.bytes

def lineStart (line : Nat) : Option Nat :=
  if line = 1 then some 0
  else (v.segs.flatMap fun s => v.segStarts s.1 s.2)[line - 2]?

def scalarsFrom (start : Nat) : List (List UInt8) :=
  v.segs.flatMap fun s =>
    if s.1 + s.2.len ≤ start then []
    else Lib.Coding.words utf8 ((s.2.bytes v.text).drop (start - s.1))

def walk : Nat → Nat → List (List UInt8) → Option Nat
  | off, 0, _ => some off
  | _, _ + 1, [] => none
  | off, k + 1, c :: cs => if c = [newline] then none else walk (off + c.length) k cs

def afterCols (start cols : Nat) : Option Nat :=
  walk start cols (v.scalarsFrom start)

end PostView

namespace Buffer

def withText (text : Text) : Buffer :=
  { text, log := OpLog.empty, rev := 0, savedRev := none, anchors := [], selections := ∅ }

def len (b : Buffer) : Nat := b.text.len

def lineCount (b : Buffer) : Nat := b.text.lineCount

def oldestRev (b : Buffer) : Nat := b.log.oldestRev

variable (b : Buffer)

def checkOffset (o : Nat) : Except CoreError Nat :=
  if o > b.len then
    .error (((invalid .offsetOutOfRange s!"offset {o} is past the end ({b.len})").withNum "offset" o).withNum
      "bytes" b.len)
  else if !b.text.isCharBoundary o then
    .error ((invalid .notCharBoundary s!"offset {o} is inside a UTF-8 sequence").withNum "offset" o)
  else .ok o

def checkLine (line : Nat) : Except CoreError Unit :=
  if line = 0 ∨ line > b.lineCount then
    .error (((invalid .lineOutOfRange s!"line {line} is outside 1..={b.lineCount}").withNum
      "line" line).withNum "lines" b.lineCount)
  else .ok ()

def unknownAnchor (name : String) : CoreError :=
  (CoreError.new .notFound .unknownAnchor s!"no anchor named \"{name}\"").withStr "name" name

def anchor (name : String) : Option NamedAnchor :=
  b.anchors.find? fun a => a.name == name

def resolvePos : PosSpec → Except CoreError Nat
  | .offset o => b.checkOffset o
  | .named .atStart => .ok 0
  | .named .atEnd => .ok b.len
  | .lineCol line col => do
    b.checkLine line
    let col := col.getD 1
    match b.text.lineColOffset line col with
    | some o => .ok o
    | none => .error (((invalid .colOutOfRange s!"col {col} is past the end of line {line}").withNum
        "line" line).withNum "col" col)
  | .anchor name =>
    match b.anchor name with
    | some a => .ok a.start.offset
    | none => .error (unknownAnchor name)

def ordered (s e : Nat) : Except CoreError Range :=
  if s > e then .error (invalid .badArgs s!"range start {s} is after its end {e}") else .ok ⟨s, e⟩

def resolveRange : RangeSpec → Except CoreError Range
  | .offsets s e => do
    let s ← b.checkOffset s
    let e ← b.checkOffset e
    ordered s e
  | .span start stop => do
    let s ← b.resolvePos start
    let e ← b.resolvePos stop
    ordered s e
  | .lines a z => do
    b.checkLine a
    b.checkLine z
    if a > z then
      .error ((invalid .lineOutOfRange s!"lines [{a}, {z}] are reversed").withNum "line" a)
    else
      .ok ⟨(b.text.lineStart a).getD 0, (b.text.lineStart (z + 1)).getD b.len⟩
  | .anchor name =>
    match b.anchor name with
    | some a => .ok ⟨a.start.offset, (a.stop.map Anchor.offset).getD a.start.offset⟩
    | none => .error (unknownAnchor name)
  | .all => .ok ⟨0, b.len⟩

def conflict (b : Buffer) (reason : Reason) (msg : String) : CoreError :=
  (CoreError.new .conflict reason msg).withNum "rev" b.rev

/-- Which rev a request's offsets belong to, when it is not the current one. -/
def rebaseFrom : Cas → Except CoreError (Option Nat)
  | .latest => .ok none
  | .expectRev r =>
    if r ≠ b.rev then
      .error (b.conflict .staleRev s!"expect_rev {r} is stale: buffer is at rev {b.rev}")
    else .ok none
  | .baseRev base =>
    if base > b.rev then
      .error ((invalid .baseRevInFuture
        s!"base_rev {base} is newer than the buffer (rev {b.rev})").withNum "rev" b.rev)
    else if base < b.oldestRev then
      .error ((b.conflict .historyTrimmed
        s!"base_rev {base} is older than the retained history (oldest rev {b.oldestRev})").withNum
          "oldest_rev" b.oldestRev)
    else .ok (if base < b.rev then some base else none)

def offsetsOnly : OpSpec → Bool
  | .insert (.offset _) _ => true
  | .insert _ _ => false
  | .delete (.offsets _ _) => true
  | .delete _ => false
  | .replace (.offsets _ _) _ => true
  | .replace _ _ => false

def resolveOp : OpSpec → Except CoreError (Range × Str)
  | .insert pos text => do
    let p ← b.resolvePos pos
    .ok (⟨p, p⟩, text)
  | .delete range => do
    let r ← b.resolveRange range
    .ok (r, Str.empty)
  | .replace range text => do
    let r ← b.resolveRange range
    .ok (r, text)

def offsetOp : OpSpec → Range × Str
  | .insert (.offset p) text => (⟨p, p⟩, text)
  | .insert _ text => (⟨0, 0⟩, text)
  | .delete (.offsets s e) => (⟨s, e⟩, Str.empty)
  | .delete _ => (⟨0, 0⟩, Str.empty)
  | .replace (.offsets s e) text => (⟨s, e⟩, text)
  | .replace _ text => (⟨0, 0⟩, text)

/-- Length of the text at an earlier rev, from the net size of every later entry. -/
def histLen (base : Nat) : Int :=
  ((b.log.after base).flatMap LogEntry.edits).foldl
    (fun (n : Int) e => n + ((e.delete : Int) - (e.insert.len : Int))) (b.len : Int)

def historicOp (histLen : Int) (base : Nat) (op : OpSpec × Nat) : Except CoreError Resolved :=
  let (r, text) := offsetOp op.1
  if (r.stop : Int) > histLen ∨ (r.start : Int) > histLen then
    .error ((invalid .offsetOutOfRange
      s!"offset {max r.start r.stop} is past the end of rev {base} ({histLen} bytes)").withNum
        "offset" (max r.start r.stop))
  else if r.start > r.stop then
    .error (invalid .badArgs s!"range start {r.start} is after its end {r.stop}")
  else .ok ⟨r.start, r.stop, text, op.2⟩

def rebaseRange (base : Nat) (item : Range) : Except CoreError Range :=
  (b.log.after base).foldlM (fun r entry =>
    match transformThrough r (entry.edits.map RawEdit.of) .throughFirst with
    | some r' => .ok r'
    | none => .error (((b.conflict .overlap
        s!"base_rev {base}: range [{item.start}, {item.stop}) overlaps rev {entry.rev} by {entry.origin.toString}").withNum
          "intervening_rev" entry.rev).withStr "intervening_origin" entry.origin.toString)) item

def rebaseItem (base : Nat) (item : Resolved) : Except CoreError Resolved := do
  let r ← b.rebaseRange base item.range
  let _ ← b.checkOffset r.start
  let _ ← b.checkOffset r.stop
  .ok { item with s := r.start, e := r.stop }

def resolveItems (ops : List OpSpec) : Option Nat → Except CoreError (List Resolved)
  | none => do
    let items ← ops.zipIdx.mapM fun op => do
      let (r, text) ← b.resolveOp op.1
      Except.ok (⟨r.start, r.stop, text, op.2⟩ : Resolved)
    checkOverlap items
    .ok items
  | some base => do
    let items ← ops.zipIdx.mapM (historicOp (b.histLen base) base)
    checkOverlap items
    items.mapM (b.rebaseItem base)

variable (req : TxnRequest)

/-- Validates and resolves a request to base ranges in the current text. -/
def resolveTxn : Except CoreError (List Resolved) :=
  if req.ops.isEmpty then .error (invalid .badArgs "a transaction needs at least one op")
  else if (match req.cas with
      | .baseRev _ => !req.ops.all offsetsOnly
      | _ => false) then
    .error (invalid .baseRevNeedsOffsets "base_rev requests take byte offsets only")
  else do
    let rebase ← b.rebaseFrom req.cas
    let items ← b.resolveItems req.ops rebase
    if req.ops.length > maxOpsPerTxn then
      .error ((limit s!"{req.ops.length} ops exceed the {maxOpsPerTxn}-op limit").withNum
        "limit" maxOpsPerTxn)
    else
      let inserted := (items.map fun r => r.text.len).sum
      if inserted > maxRequestTextBytes then
        .error ((CoreError.new .resourceLimit .tooLarge
          s!"{inserted} inserted bytes exceed the {maxRequestTextBytes}-byte request limit").withNum
            "limit" maxRequestTextBytes)
      else .ok items

def resolvePost (p : PosSpec) (seq : List Edit) (finalLines : Nat) : Except CoreError Nat :=
  let view := PostView.new b.text seq
  match p with
  | .offset o =>
    if o > view.len then
      .error ((invalid .offsetOutOfRange
        s!"cursor {o} is past the end of the edited text ({view.len})").withNum "offset" o)
    else if !view.isCharBoundary o then
      .error ((invalid .notCharBoundary s!"cursor {o} is inside a UTF-8 sequence").withNum "offset" o)
    else .ok o
  | .named .atStart => .ok 0
  | .named .atEnd => .ok view.len
  | .lineCol line col =>
    if line = 0 ∨ line > finalLines then
      .error ((invalid .lineOutOfRange
        s!"cursor line {line} is outside 1..={finalLines}").withNum "line" line)
    else
      let col := col.getD 1
      let start := (view.lineStart line).getD view.len
      match if col ≥ 1 then view.afterCols start (col - 1) else none with
      | some o => .ok o
      | none => .error (((invalid .colOutOfRange
          s!"cursor col {col} is past the end of line {line}").withNum "line" line).withNum "col" col)
  | .anchor name =>
    match b.anchor name with
    | some a => .ok (a.map seq (b.rev + 1)).start.offset
    | none => .error (unknownAnchor name)

def coalesces (c : Commit) (seq : List Edit) : Bool :=
  c.coalesce && c.kind == .edit &&
    match seq, ((b.log.lane c.lane).undo).getLast?, b.log.entries.getLast? with
    | [e], some g, some prev =>
      g.last == b.rev && prev.rev == b.rev && prev.kind == .edit && prev.lane == c.lane &&
        match prev.edits with
        | [p] => contiguous p e
        | _ => false
    | _, _, _ => false

def recordIn (l : Lane) (kind : EntryKind) (newRev : Nat) (coalesced : Bool) : Lane :=
  match kind with
  | .edit | .reload =>
    match l.undo.getLast?, coalesced with
    | some g, true => ⟨l.undo.dropLast ++ [⟨g.first, newRev⟩], []⟩
    | _, _ => ⟨l.undo ++ [⟨newRev, newRev⟩], []⟩
  | .undo _ => ⟨l.undo.dropLast, l.redo ++ [⟨newRev, newRev⟩]⟩
  | .redo _ => ⟨l.undo ++ [⟨newRev, newRev⟩], l.redo.dropLast⟩

/-- The selection's bias: the editing origin's own selections follow its text. -/
def selectionBias (owner editing : Origin) : Bias := if owner = editing then .after else .before

def placeCursor (c : Commit) (seq : List Edit) (finalLines : Nat) : Except CoreError (Option Nat) :=
  match c.cursor with
  | none => .ok none
  | some p => do
    let at' ← b.resolvePost p seq finalLines
    if !b.selections.contains c.origin && b.selections.size ≥ maxSelectionOrigins then
      .error ((limit s!"{maxSelectionOrigins} origins already hold selections").withNum
        "limit" maxSelectionOrigins)
    else .ok (some at')

def sequenceOf (items : List Resolved) : List Edit :=
  (canonical items).map fun r => ⟨r.s, r.e - r.s, r.text⟩

def deletedOf (t : Text) (items : List Resolved) : List Str :=
  (canonical items).map fun r => t.read r.range

/-- Phase 2: text, anchors, selections, lane stacks and log, once nothing can refuse. -/
def record (c : Commit) (deleted : List Str) (prepared : Prepared b.text)
    (cursor : Option Nat) : Buffer × Applied :=
  let seq := prepared.sequence
  let newRev := b.rev + 1
  let selections := b.selections.map fun o sels =>
    sels.map fun s => s.map seq (selectionBias o c.origin)
  let lane := recordIn (b.log.lane c.lane) c.kind newRev (b.coalesces c seq)
  let entry : LogEntry := ⟨newRev, c.origin, c.lane, c.kind, seq, deleted, c.via, c.opId, c.nowMs⟩
  let pushed := OpLog.push { b.log with lanes := b.log.lanes.insert c.lane lane } entry
  ({ text := b.text.commit prepared
     log := pushed.1
     rev := newRev
     savedRev := b.savedRev
     anchors := b.anchors.map fun a => a.map seq newRev
     selections := match cursor with
       | some at' => selections.insert c.origin [⟨at', at'⟩]
       | none => selections },
   { rev := newRev
     baseRev := b.rev
     kind := c.kind
     edits := seq
     changed := ((postRanges seq).filter fun r => !rangeIsEmpty r).insertionSort
       fun a z => a.start ≤ z.start
     rebased := c.rebased
     opId := c.opId
     insertedBytes := (seq.map fun e => e.insert.len).sum
     deletedBytes := (seq.map Edit.delete).sum
     historyTrimmedTo := pushed.2 })

def commitTxn (items : List Resolved) (c : Commit) : Except CoreError (Buffer × Applied) := do
  let seq := sequenceOf items
  let sim ← b.text.simulate seq
  let cursor ← b.placeCursor c seq sim.finalLines
  let prepared ← b.text.prepare seq
  .ok (b.record c (deletedOf b.text items) prepared cursor)

def applyCommit (origin : Origin) (via : Via) (nowMs : Nat) : Commit where
  origin := origin
  lane := origin
  kind := .edit
  via := via
  nowMs := nowMs
  opId := req.opId
  coalesce := req.coalesce
  cursor := req.cursor
  rebased := match req.cas with
    | .baseRev base => base < b.rev
    | _ => false

def apply (origin : Origin) (via : Via) (nowMs : Nat) : Except CoreError (Buffer × Applied) := do
  let items ← b.resolveTxn req
  b.commitTxn items (b.applyCommit req origin via nowMs)

end Buffer

end Cosmix.EditCore
