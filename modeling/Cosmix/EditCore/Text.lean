/- source: cosmix-edit-core/src/text.rs, limits.rs, error.rs, origin.rs
   digest: What is refused; the text with its line index, its simulation and its commit. -/

import Mathlib.Data.String.Basic
import Std.Data.ExtTreeMap
import Cosmix.EditCore.Ot
import Cosmix.Lib.Machine

namespace Cosmix.EditCore

def maxBufferBytes : Nat := 64 * 1048576
def maxLines : Nat := 2000000
def maxRequestTextBytes : Nat := 1048576
def maxOpsPerTxn : Nat := 10000
def logMaxEntries : Nat := 100000
def logMaxTextBytes : Nat := 32 * 1048576
def maxAnchors : Nat := 1024
def maxSelectionOrigins : Nat := 64
def maxSelectionsPerOrigin : Nat := 16

def usizeMax : Nat := 18446744073709551615

inductive OriginKind
  | human | agent | tool
  deriving DecidableEq

def OriginKind.rank : OriginKind → Nat
  | .human => 0
  | .agent => 1
  | .tool => 2

/-- Who made an edit, and the name of an undo lane. -/
@[ext] structure Origin where
  kind : OriginKind
  label : String
  deriving DecidableEq

namespace Origin

/-- The derived order: by kind, then by label. -/
instance : Ord Origin :=
  ⟨compareLex (compareOn fun o => o.kind.rank) (compareOn fun o => o.label)⟩

private theorem compare_def (a b : Origin) :
    compare a b = (compare a.kind.rank b.kind.rank).then (compare a.label b.label) := rfl

instance : Std.LawfulEqOrd Origin where
  compare_self {a} := by
    rw [compare_def, Std.ReflOrd.compare_self, Std.ReflOrd.compare_self]
    rfl
  eq_of_compare {a b} h := by
    rw [compare_def, Ordering.then_eq_eq] at h
    obtain ⟨hk, hl⟩ := h
    have hk' := Std.LawfulEqOrd.eq_of_compare hk
    ext
    · revert hk'
      cases a.kind <;> cases b.kind <;> simp [OriginKind.rank]
    · rw [Std.LawfulEqOrd.eq_of_compare hl]

instance : Std.TransOrd Origin :=
  inferInstanceAs (Std.TransCmp
    (compareLex (compareOn fun o : Origin => o.kind.rank) (compareOn fun o : Origin => o.label)))

protected def toString (o : Origin) : String :=
  (match o.kind with
    | .human => "human:"
    | .agent => "agent:"
    | .tool => "tool:") ++ o.label

def disk : Origin := ⟨.tool, "disk"⟩

end Origin

/-- Broker-attested headers of the request behind a log entry. -/
structure Via where
  from' : Option String
  brokerOrigin : String
  (brokerPeer brokerService : Option String)
  deriving DecidableEq

inductive ErrorCode
  | invalidArgument | notFound | conflict | resourceLimit | internal
  deriving DecidableEq

/-- The reasons the core gives; each is the lower-case word of the wire form. -/
inductive Reason
  | badArgs | notCharBoundary | lineOutOfRange | colOutOfRange | offsetOutOfRange | overlapInTxn
  | baseRevNeedsOffsets | baseRevInFuture | badName
  | unknownAnchor | nothingToUndo | nothingToRedo
  | staleRev | overlap | historyTrimmed | undoConflict
  | tooLarge | tooManyLines | limit | outOfMemory
  deriving DecidableEq

inductive ContextValue
  | num (n : Nat)
  | str (s : String)
  deriving DecidableEq

structure CoreError where
  code : ErrorCode
  reason : Option Reason
  message : String
  context : List (String × ContextValue)
  deriving DecidableEq

namespace CoreError

protected def new (code : ErrorCode) (reason : Reason) (message : String) : CoreError :=
  ⟨code, some reason, message, []⟩

/-- One more context field; the keys of one refusal are distinct. -/
protected def withNum (e : CoreError) (key : String) (value : Nat) : CoreError :=
  { e with context := e.context ++ [(key, .num value)] }

@[inherit_doc CoreError.withNum]
protected def withStr (e : CoreError) (key : String) (value : String) : CoreError :=
  { e with context := e.context ++ [(key, .str value)] }

end CoreError

def invalid (reason : Reason) (msg : String) : CoreError :=
  CoreError.new .invalidArgument reason msg

def limit (msg : String) : CoreError := CoreError.new .resourceLimit .limit msg

def oom (what : String) : CoreError :=
  CoreError.new .resourceLimit .outOfMemory s!"out of memory: {what}"

def tooLarge (len : Nat) : CoreError :=
  (CoreError.new .resourceLimit .tooLarge
    s!"text would reach {len} bytes (limit {maxBufferBytes})").withNum "limit" maxBufferBytes

def tooManyLines (lines : Nat) : CoreError :=
  (CoreError.new .resourceLimit .tooManyLines
    s!"text would reach {lines} lines (limit {maxLines})").withNum "limit" maxLines

/-- RESOURCE_LIMIT for arithmetic beyond the machine word. -/
def overflow : CoreError :=
  CoreError.new .resourceLimit .tooLarge "size arithmetic overflowed"

def internal (msg : String) : CoreError := ⟨.internal, none, msg, []⟩

open Cosmix.Lib.Weave List
open Cosmix.Lib.Coding (Coded boundary coded_splice boundary_splice_left)

/-! The gap buffer is modelled by the bytes it holds. Memory reservation, which can only
    refuse, is left out. -/

def lineStartsFrom : Nat → List UInt8 → List Nat
  | _, [] => []
  | off, b :: bs =>
    if b == newline then (off + 1) :: lineStartsFrom (off + 1) bs
    else lineStartsFrom (off + 1) bs

def lineStarts (bs : List UInt8) : List Nat := 0 :: lineStartsFrom 0 bs

/-- Length of the longest front whose members satisfy a test, on a partitioned list. -/
def partitionPoint (p : Nat → Bool) (l : List Nat) : Nat := (l.takeWhile p).length

def spliceLines (starts : List Nat) (e : Edit) : List Nat :=
  let stop := e.offset + e.delete
  let lo := partitionPoint (· ≤ e.offset) starts
  let hi := partitionPoint (· ≤ stop) starts
  starts.take lo ++ lineStartsFrom e.offset e.insert.bytes ++
    (starts.drop hi).map fun s => s - e.delete + e.insert.len

/-- The text of a buffer: UTF-8 bytes within the limits, and their line index. -/
@[ext] structure Text where
  bytes : List UInt8
  starts : List Nat
  valid : Coded utf8 bytes
  indexed : starts = lineStarts bytes
  fits : bytes.length ≤ maxBufferBytes
  fitsLines : starts.length ≤ maxLines

namespace Text

protected def new : Text where
  bytes := []
  starts := [0]
  valid := Lib.Coding.coded_nil
  indexed := rfl
  fits := Nat.zero_le _
  fitsLines := by decide

def fromText (s : Str) : Except CoreError Text :=
  if h : s.len > maxBufferBytes then .error (tooLarge s.len)
  else if h' : (lineStarts s.bytes).length > maxLines then .error (tooManyLines (maxLines + 1))
  else .ok ⟨s.bytes, lineStarts s.bytes, s.valid, rfl, Nat.le_of_not_lt h, Nat.le_of_not_lt h'⟩

variable (t : Text)

def len : Nat := t.bytes.length

def lineCount : Nat := t.starts.length

def lineStart (line : Nat) : Option Nat :=
  if line = 0 then none else t.starts[line - 1]?

def lineEnd (line : Nat) : Option Nat := do
  let _ ← t.lineStart line
  pure (match t.starts[line]? with
    | some next => next - 1
    | none => t.len)

def isCharBoundary (o : Nat) : Bool := boundary utf8 t.bytes o

def newlinesIn (a b : Nat) : Nat :=
  partitionPoint (· ≤ b) t.starts - partitionPoint (· ≤ a) t.starts

def startsIn (a b : Nat) : List Nat :=
  (t.starts.take (partitionPoint (· ≤ b) t.starts)).drop (partitionPoint (· ≤ a) t.starts)

/-- The range as a string. Off char boundaries cut scalar values are dropped, and callers refuse. -/
def read (r : Range) : Str :=
  if h : t.isCharBoundary r.start = true ∧ t.isCharBoundary r.stop = true ∧ r.start ≤ r.stop then
    ⟨seg t.bytes r.start r.stop, Lib.Coding.coded_seg t.valid h.1 h.2.1 h.2.2⟩
  else Str.empty

/-- Byte offset so many scalar values after a line's start, not crossing its newline. -/
def lineColOffset (line col : Nat) : Option Nat := do
  let start ← t.lineStart line
  let stop ← t.lineEnd line
  if col = 0 then none
  else
    let words := Lib.Coding.words utf8 (seg t.bytes start stop)
    if col - 1 ≤ words.length then some (start + (words.take (col - 1)).flatten.length) else none

end Text

structure Simulation where
  (peakLen peakLines finalLen finalLines : Nat)
  deriving DecidableEq

structure SimState where
  (prevOffset len lines peakLen peakLines : Nat)
  deriving DecidableEq

namespace Text

def simStep (t : Text) (st : SimState) (e : Edit) : Except CoreError SimState :=
  let stop := e.offset + e.delete
  if stop > usizeMax then .error overflow
  else if stop > st.prevOffset ∨ stop > t.len then
    .error (internal
      s!"edit sequence is not canonical at offset {e.offset} (delete {e.delete})")
  else if !t.isCharBoundary e.offset || !t.isCharBoundary stop then
    .error (internal s!"edit [{e.offset}, {stop}) is not on char boundaries")
  else if st.len < e.delete then .error overflow
  else
    let len := st.len - e.delete + e.insert.len
    let removed := t.newlinesIn e.offset stop
    if st.lines < removed then .error overflow
    else
      let lines := st.lines - removed + countNewlines e.insert.bytes
      .ok ⟨e.offset, len, lines, max st.peakLen len, max st.peakLines lines⟩

/-- The phase-1 simulation: validates the sequence's shape and computes its peaks. -/
def simulate (t : Text) (sequence : List Edit) : Except CoreError Simulation := do
  let st ← sequence.foldlM t.simStep ⟨usizeMax, t.len, t.lineCount, t.len, t.lineCount⟩
  if st.peakLen > maxBufferBytes then .error (tooLarge st.peakLen)
  else if st.peakLines > maxLines then .error (tooManyLines st.peakLines)
  else .ok ⟨st.peakLen, st.peakLines, st.len, st.lines⟩

end Text

theorem lineStartsFrom_append (off : Nat) (u v : List UInt8) :
    lineStartsFrom off (u ++ v) = lineStartsFrom off u ++ lineStartsFrom (off + u.length) v := by
  induction u generalizing off with
  | nil => rfl
  | cons b u ih =>
    have hlen : off + 1 + u.length = off + (b :: u).length := by
      rw [length_cons]
      omega
    simp only [cons_append, lineStartsFrom, ih, hlen]
    split <;> rfl

variable {off s n m : Nat} {bs u : List UInt8} {e : Edit} {t : Text} {st : SimState}
  {seq : List Edit}

theorem newline_of_mem_lineStartsFrom (h : s ∈ lineStartsFrom off bs) :
    ∃ i, s = off + i + 1 ∧ bs[i]? = some newline := by
  induction bs generalizing off with
  | nil => simp [lineStartsFrom] at h
  | cons b bs ih =>
    have hlater : s ∈ lineStartsFrom (off + 1) bs →
        ∃ i, s = off + i + 1 ∧ (b :: bs)[i]? = some newline := by
      intro hs
      obtain ⟨i, hi, hget⟩ := ih hs
      exact ⟨i + 1, by omega, by simpa using hget⟩
    rw [lineStartsFrom] at h
    split at h
    · next hb =>
      rcases mem_cons.mp h with rfl | h
      · exact ⟨0, by omega, by simpa using hb⟩
      · exact hlater h
    · exact hlater h

theorem mem_lineStartsFrom (h : s ∈ lineStartsFrom off bs) : off < s ∧ s ≤ off + bs.length := by
  obtain ⟨i, rfl, hget⟩ := newline_of_mem_lineStartsFrom h
  have := (List.getElem?_eq_some_iff.mp hget).1
  omega

theorem boundary_of_mem_lineStarts (h : Coded utf8 bs) (hs : s ∈ lineStarts bs) :
    boundary utf8 bs s = true := by
  rcases mem_cons.mp hs with rfl | hs
  · exact Lib.Coding.boundary_zero h
  · obtain ⟨i, rfl, hi⟩ := newline_of_mem_lineStartsFrom hs
    rw [zero_add]
    exact boundary_after_newline h hi

theorem pairwise_lineStartsFrom (off : Nat) (bs : List UInt8) :
    (lineStartsFrom off bs).Pairwise (· < ·) := by
  induction bs generalizing off with
  | nil => exact .nil
  | cons b bs ih =>
    rw [lineStartsFrom]
    split
    · refine pairwise_cons.mpr ⟨?_, ih _⟩
      intro s hs
      exact (mem_lineStartsFrom hs).1
    · exact ih _

theorem pairwise_lineStarts (bs : List UInt8) : (lineStarts bs).Pairwise (· < ·) := by
  refine pairwise_cons.mpr ⟨?_, pairwise_lineStartsFrom 0 bs⟩
  intro s hs
  exact (mem_lineStartsFrom hs).1

theorem length_lineStartsFrom (off : Nat) (bs : List UInt8) :
    (lineStartsFrom off bs).length = countNewlines bs := by
  induction bs generalizing off with
  | nil => rfl
  | cons b bs ih =>
    rw [lineStartsFrom, countNewlines, countP_cons]
    split
    · rw [length_cons, ih]
      rfl
    · rw [ih]
      rfl

theorem length_lineStarts (bs : List UInt8) : (lineStarts bs).length = countNewlines bs + 1 := by
  rw [lineStarts, length_cons, length_lineStartsFrom]

theorem lineStartsFrom_shift {del ins : Nat} (h : del ≤ off) (bs : List UInt8) :
    (lineStartsFrom off bs).map (fun s => s - del + ins) = lineStartsFrom (off - del + ins) bs := by
  induction bs generalizing off with
  | nil => rfl
  | cons b bs ih =>
    have hoff : off + 1 - del + ins = off - del + ins + 1 := by omega
    have := ih (show del ≤ off + 1 by omega)
    rw [hoff] at this
    simp only [lineStartsFrom]
    split
    · rw [map_cons, this, hoff]
    · exact this

theorem lineStarts_append (u v : List UInt8) :
    lineStarts (u ++ v) = lineStarts u ++ lineStartsFrom u.length v := by
  rw [lineStarts, lineStartsFrom_append, zero_add]
  rfl

private theorem takeWhile_lineStarts (u v : List UInt8) :
    (lineStarts (u ++ v)).takeWhile (· ≤ u.length) = lineStarts u := by
  have hfront : ∀ s ∈ lineStarts u, decide (s ≤ u.length) = true := by
    intro s hs
    rcases mem_cons.mp hs with rfl | hs
    · simp
    · have := mem_lineStartsFrom hs
      exact decide_eq_true (by omega)
  have hback : (lineStartsFrom u.length v).takeWhile (· ≤ u.length) = [] := by
    cases hv : lineStartsFrom u.length v with
    | nil => rfl
    | cons s =>
      have := mem_lineStartsFrom (hv ▸ mem_cons_self : s ∈ lineStartsFrom u.length v)
      rw [takeWhile_cons_of_neg]
      simpa using this.1
  rw [lineStarts_append, takeWhile_append_of_pos hfront, hback, append_nil]

theorem partitionPoint_lineStarts (bs : List UInt8) (h : n ≤ bs.length) :
    (lineStarts bs).take (partitionPoint (· ≤ n) (lineStarts bs)) = lineStarts (bs.take n) ∧
      (lineStarts bs).drop (partitionPoint (· ≤ n) (lineStarts bs)) =
        lineStartsFrom n (bs.drop n) := by
  have htake := takeWhile_lineStarts (bs.take n) (bs.drop n)
  have hsplit := lineStarts_append (bs.take n) (bs.drop n)
  rw [take_append_drop, length_take_of_le h] at htake hsplit
  rw [partitionPoint, htake, hsplit]
  exact ⟨take_left, drop_left⟩

theorem partitionPoint_eq (bs : List UInt8) (h : n ≤ bs.length) :
    partitionPoint (· ≤ n) (lineStarts bs) = countNewlines (bs.take n) + 1 := by
  have htake := congrArg List.length (partitionPoint_lineStarts bs h).1
  rw [length_lineStarts] at htake
  rw [← htake, length_take, min_eq_left]
  exact (takeWhile_sublist _).length_le

theorem lineStarts_splice (bs : List UInt8) (e : Edit) (h : e.offset + e.delete ≤ bs.length) :
    lineStarts (splice bs e.item) = spliceLines (lineStarts bs) e := by
  have hoff : e.offset ≤ bs.length := by omega
  simp only [spliceLines, (partitionPoint_lineStarts bs hoff).1, (partitionPoint_lineStarts bs h).2]
  rw [lineStartsFrom_shift (Nat.le_add_left _ _), Nat.add_sub_cancel, splice, Edit.item]
  simp only [lineStarts, lineStartsFrom_append, length_append, length_take_of_le hoff,
    zero_add, cons_append, Str.len]

theorem countNewlines_append (u v : List UInt8) :
    countNewlines (u ++ v) = countNewlines u + countNewlines v := countP_append

theorem Text.newlinesIn_eq (t : Text) {a b : Nat} (hab : a ≤ b) (hb : b ≤ t.bytes.length) :
    t.newlinesIn a b = countNewlines (seg t.bytes a b) := by
  have hsplit : t.bytes.take b = t.bytes.take a ++ seg t.bytes a b := by
    have := seg_append_seg t.bytes (Nat.zero_le a) hab
    simpa [seg] using this.symm
  rw [newlinesIn, t.indexed, partitionPoint_eq _ hb, partitionPoint_eq _ (hab.trans hb), hsplit,
    countNewlines_append]
  omega

def applySeq (bs : List UInt8) (seq : List Edit) : List UInt8 :=
  seq.foldl (fun u e => splice u e.item) bs

def peakOf (f : List UInt8 → Nat) (bs : List UInt8) : List Edit → Nat
  | [] => f bs
  | e :: es => max (f bs) (peakOf f (splice bs e.item) es)

def lineTotal (bs : List UInt8) : Nat := countNewlines bs + 1

/-- The canonical shape on this text: read backwards a chain, every end on a char boundary. -/
def Admissible (t : Text) (seq : List Edit) : Prop :=
  Chain 0 t.len (seq.map Edit.item).reverse ∧
    ∀ e ∈ seq, t.isCharBoundary e.offset = true ∧ t.isCharBoundary (e.offset + e.delete) = true

instance (t : Text) (seq : List Edit) : Decidable (Admissible t seq) :=
  inferInstanceAs (Decidable (_ ∧ _))

theorem chain_reverse_cons {hi : Nat} {es : List Edit} :
    Chain 0 hi ((e :: es).map Edit.item).reverse ↔
      Chain 0 e.offset (es.map Edit.item).reverse ∧ e.offset + e.delete ≤ hi := by
  rw [map_cons, reverse_cons, chain_append_cons_iff]
  constructor
  · rintro ⟨h₁, -, h₂⟩
    exact ⟨h₁, h₂⟩
  · rintro ⟨h₁, h₂⟩
    exact ⟨h₁, Nat.le_add_right _ _, h₂⟩

/-- The state measures the text so far, which still has the original front up to the last step. -/
private structure Tracks (t : Text) (u : List UInt8) (m : Nat) (st : SimState) : Prop where
  len : st.len = u.length
  lines : st.lines = lineTotal u
  front : u.take m = t.bytes.take m
  within : m ≤ u.length
  inside : m ≤ t.len
  bound : m = min st.prevOffset t.len

private theorem take_of_take_eq {v : List UInt8} (h : u.take m = v.take m) (hn : n ≤ m) :
    u.take n = v.take n := by
  have := congrArg (take n) h
  rwa [take_take, take_take, min_eq_left hn] at this

private theorem simStep_ok (h : Tracks t u m st) (hstop : e.offset + e.delete ≤ m)
    (hb : t.isCharBoundary e.offset = true ∧ t.isCharBoundary (e.offset + e.delete) = true) :
    ∃ st', t.simStep st e = .ok st' ∧ Tracks t (splice u e.item) e.offset st' ∧
      st'.peakLen = max st.peakLen (splice u e.item).length ∧
      st'.peakLines = max st.peakLines (lineTotal (splice u e.item)) := by
  have hlen := h.len
  have hwithin := h.within
  have hinside : m ≤ t.bytes.length := h.inside
  have hbound := h.bound
  have hfit : t.bytes.length ≤ maxBufferBytes := t.fits
  have htop : e.offset + e.delete ≤ usizeMax := by
    have : maxBufferBytes ≤ usizeMax := by decide
    omega
  have hseg : seg u e.offset (e.offset + e.delete) = seg t.bytes e.offset (e.offset + e.delete) := by
    have hcut := take_of_take_eq h.front hstop
    have := congrArg (drop e.offset) hcut
    simpa only [seg, drop_take] using this
  have hnl : t.newlinesIn e.offset (e.offset + e.delete) =
      countNewlines (seg u e.offset (e.offset + e.delete)) := by
    rw [t.newlinesIn_eq (Nat.le_add_right _ _) (by omega), hseg]
  have hsplit : u = u.take e.offset ++ (seg u e.offset (e.offset + e.delete) ++
      u.drop (e.offset + e.delete)) := by
    rw [seg, Nat.add_sub_cancel_left, ← drop_drop, take_append_drop, take_append_drop]
  have hcount : countNewlines u = countNewlines (u.take e.offset) +
      (countNewlines (seg u e.offset (e.offset + e.delete)) +
        countNewlines (u.drop (e.offset + e.delete))) := by
    conv_lhs => rw [hsplit]
    rw [countNewlines_append, countNewlines_append]
  have hlen' : (splice u e.item).length = st.len - e.delete + e.insert.len := by
    simp only [splice, Edit.item, length_append, length_take, length_drop, Str.len]
    omega
  have hlines' : lineTotal (splice u e.item) =
      st.lines - t.newlinesIn e.offset (e.offset + e.delete) + countNewlines e.insert.bytes := by
    rw [h.lines]
    simp only [lineTotal, splice, Edit.item, countNewlines_append]
    omega
  refine ⟨⟨e.offset, (splice u e.item).length, lineTotal (splice u e.item),
    max st.peakLen (splice u e.item).length, max st.peakLines (lineTotal (splice u e.item))⟩,
    ?_, ⟨rfl, rfl, ?_, ?_, ?_, ?_⟩, rfl, rfl⟩
  · have hno : ¬ (e.offset + e.delete > st.prevOffset ∨ e.offset + e.delete > t.len) := by
      omega
    have hlines : ¬ st.lines < t.newlinesIn e.offset (e.offset + e.delete) := by
      rw [h.lines, lineTotal]
      omega
    simp only [Text.simStep]
    rw [if_neg (by omega), if_neg hno, if_neg (by simp [hb.1, hb.2]), if_neg (by omega),
      if_neg hlines, hlen', hlines']
  · have hoff : (u.take e.offset).length = e.offset := by
      rw [length_take]
      omega
    rw [← take_of_take_eq h.front (show e.offset ≤ m by omega), splice, Edit.item,
      append_assoc, take_left' hoff]
  · omega
  · omega
  · simp only [Text.len]
    omega

private theorem le_peakOf (f : List UInt8 → Nat) (bs : List UInt8) (seq : List Edit) :
    f bs ≤ peakOf f bs seq := by
  cases seq with
  | nil => exact le_rfl
  | cons => exact le_max_left _ _

private theorem foldlM_simStep_ok (h : Tracks t u m st) (hc : Chain 0 m (seq.map Edit.item).reverse)
    (hb : ∀ e ∈ seq, t.isCharBoundary e.offset = true ∧
      t.isCharBoundary (e.offset + e.delete) = true) (hpl : u.length ≤ st.peakLen)
    (hpn : lineTotal u ≤ st.peakLines) :
    ∃ st', seq.foldlM t.simStep st = .ok st' ∧ st'.len = (applySeq u seq).length ∧
      st'.lines = lineTotal (applySeq u seq) ∧
      st'.peakLen = max st.peakLen (peakOf List.length u seq) ∧
      st'.peakLines = max st.peakLines (peakOf lineTotal u seq) := by
  induction seq generalizing u m st with
  | nil =>
    refine ⟨st, rfl, h.len, h.lines, ?_, ?_⟩
    · exact (max_eq_left hpl).symm
    · exact (max_eq_left hpn).symm
  | cons e es ih =>
    obtain ⟨hes, hstop⟩ := chain_reverse_cons.mp hc
    obtain ⟨st₁, hst₁, htr, hl, hn⟩ := simStep_ok h hstop (hb e mem_cons_self)
    obtain ⟨st₂, hst₂, h₁, h₂, h₃, h₄⟩ := ih htr hes
      (fun e' he' => hb e' (mem_cons_of_mem _ he')) (hl ▸ le_max_right _ _)
      (hn ▸ le_max_right _ _)
    refine ⟨st₂, ?_, h₁, h₂, ?_, ?_⟩
    · rw [foldlM_cons, hst₁]
      exact hst₂
    · rw [peakOf]
      have := le_peakOf List.length (splice u e.item) es
      omega
    · rw [peakOf]
      have := le_peakOf lineTotal (splice u e.item) es
      omega

private theorem tracks_init (t : Text) :
    Tracks t t.bytes t.len ⟨usizeMax, t.len, t.lineCount, t.len, t.lineCount⟩ where
  len := rfl
  lines := by
    rw [lineTotal, Text.lineCount, t.indexed, length_lineStarts]
  front := rfl
  within := le_rfl
  inside := le_rfl
  bound := by
    have h₁ : t.len ≤ maxBufferBytes := t.fits
    have h₂ : maxBufferBytes ≤ usizeMax := by decide
    show t.len = min usizeMax t.len
    omega

/-- On a canonical sequence the simulation can only meet the two limits. -/
theorem Text.simulate_admissible (h : Admissible t seq) : t.simulate seq =
      if peakOf List.length t.bytes seq > maxBufferBytes then
        .error (tooLarge (peakOf List.length t.bytes seq))
      else if peakOf lineTotal t.bytes seq > maxLines then
        .error (tooManyLines (peakOf lineTotal t.bytes seq))
      else .ok ⟨peakOf List.length t.bytes seq, peakOf lineTotal t.bytes seq,
        (applySeq t.bytes seq).length, lineTotal (applySeq t.bytes seq)⟩ := by
  have htr := tracks_init t
  have hlines : lineTotal t.bytes = t.lineCount := htr.lines.symm
  obtain ⟨_, hst, h₁, h₂, h₃, h₄⟩ := foldlM_simStep_ok htr h.1 h.2 le_rfl
    (le_of_eq hlines)
  replace h₃ := h₃.trans (max_eq_right (le_peakOf List.length t.bytes seq))
  replace h₄ := h₄.trans (max_eq_right (hlines.symm.trans_le (le_peakOf lineTotal t.bytes seq)))
  rw [Text.simulate, hst]
  simp only [← h₁, ← h₂, ← h₃, ← h₄]
  rfl

private theorem foldlM_simStep_shape {st' : SimState} (h : seq.foldlM t.simStep st = .ok st') :
    Chain 0 (min st.prevOffset t.len) (seq.map Edit.item).reverse ∧
      ∀ e ∈ seq, t.isCharBoundary e.offset = true ∧
        t.isCharBoundary (e.offset + e.delete) = true := by
  induction seq generalizing st with
  | nil => exact ⟨Nat.zero_le _, by simp⟩
  | cons e es ih =>
    rw [foldlM_cons] at h
    obtain ⟨st₁, hstep, h⟩ := Lib.bind_eq_ok.mp h
    obtain ⟨hc, hb⟩ := ih h
    simp only [Text.simStep] at hstep
    iterate 5
      split at hstep
      · cases hstep
    next hbound _ _ =>
    cases hstep
    simp only [Bool.or_eq_true, Bool.not_eq_true', not_or, Bool.not_eq_false] at hbound
    refine ⟨chain_reverse_cons.mpr ⟨?_, by omega⟩, forall_mem_cons.mpr ⟨hbound, hb⟩⟩
    exact hc.weaken_right (min_le_left _ _)

/-- Phase 1 accepts exactly the canonical sequences whose peaks stay within the limits. -/
theorem Text.simulate_ok_iff : (∃ sim, t.simulate seq = .ok sim) ↔ Admissible t seq ∧
      peakOf List.length t.bytes seq ≤ maxBufferBytes ∧ peakOf lineTotal t.bytes seq ≤ maxLines := by
  constructor
  · rintro ⟨_, hsim⟩
    have hadm : Admissible t seq := by
      obtain ⟨_, hst, -⟩ := Lib.bind_eq_ok.mp hsim
      obtain ⟨hc, hb⟩ := foldlM_simStep_shape hst
      exact ⟨hc.weaken_right (min_le_right _ _), hb⟩
    rw [Text.simulate_admissible hadm] at hsim
    split at hsim
    · cases hsim
    split at hsim
    · cases hsim
    next h₁ h₂ => exact ⟨hadm, Nat.le_of_not_lt h₁, Nat.le_of_not_lt h₂⟩
  · rintro ⟨hadm, h₁, h₂⟩
    rw [Text.simulate_admissible hadm, if_neg (not_lt.mpr h₁), if_neg (not_lt.mpr h₂)]
    exact ⟨_, rfl⟩

theorem applySeq_eq_weave (h : Chain 0 bs.length (seq.map Edit.item).reverse) :
    applySeq bs seq = weave bs 0 bs.length (seq.map Edit.item).reverse := by
  rw [← foldr_splice bs h, foldr_reverse, foldl_map, applySeq]

private theorem lineStarts_applySeq (h : Chain 0 m (seq.map Edit.item).reverse)
    (hm : m ≤ bs.length) :
    seq.foldl spliceLines (lineStarts bs) = lineStarts (applySeq bs seq) := by
  induction seq generalizing bs m with
  | nil => rfl
  | cons e es ih =>
    obtain ⟨hes, hstop⟩ := chain_reverse_cons.mp h
    have hlen : e.offset ≤ (splice bs e.item).length := by
      simp only [splice, Edit.item, length_append, length_take]
      omega
    rw [foldl_cons, ← lineStarts_splice bs e (by omega), ih hes hlen]
    rfl

/-- Steps that are each on char boundaries of the text they are applied to. -/
def OnBoundaries : List UInt8 → List Edit → Prop
  | _, [] => True
  | u, e :: es => boundary utf8 u e.offset = true ∧ boundary utf8 u (e.offset + e.delete) = true ∧
    OnBoundaries (splice u e.item) es

/-- Canonical steps go from right to left, so each finds the boundaries of the text at the start. -/
theorem onBoundaries_of_chain (hbs : Coded utf8 bs) (hc : Chain 0 m (seq.map Edit.item).reverse)
    (hb : ∀ e ∈ seq, boundary utf8 bs e.offset = true ∧
      boundary utf8 bs (e.offset + e.delete) = true) : OnBoundaries bs seq := by
  induction seq generalizing bs m with
  | nil => trivial
  | cons e es ih =>
    obtain ⟨hes, -⟩ := chain_reverse_cons.mp hc
    obtain ⟨⟨h₁, h₂⟩, hb⟩ := forall_mem_cons.mp hb
    refine ⟨h₁, h₂, ih (coded_splice hbs h₁ h₂ e.insert.valid) hes fun x hx => ?_⟩
    have hspan := hes.mem (x := x.item) (by simpa using ⟨x, hx, rfl⟩)
    exact ⟨(boundary_splice_left hbs h₁ h₂ e.insert.valid (hspan.2.1.trans hspan.2.2)).trans
      (hb x hx).1, (boundary_splice_left hbs h₁ h₂ e.insert.valid hspan.2.2).trans (hb x hx).2⟩

theorem onBoundaries_append {fs : List Edit} :
    OnBoundaries bs (seq ++ fs) ↔ OnBoundaries bs seq ∧ OnBoundaries (applySeq bs seq) fs := by
  induction seq generalizing bs with
  | nil => simp [OnBoundaries, applySeq]
  | cons e es ih => simp [OnBoundaries, ih, applySeq, and_assoc]

theorem coded_applySeq (hbs : Coded utf8 bs) (h : OnBoundaries bs seq) :
    Coded utf8 (applySeq bs seq) := by
  induction seq generalizing bs with
  | nil => exact hbs
  | cons e es ih => exact ih (coded_splice hbs h.1 h.2.1 e.insert.valid) h.2.2

theorem length_splice (h : e.offset + e.delete ≤ bs.length) :
    (splice bs e.item).length = bs.length + e.insert.len - e.delete := by
  have hlen : (splice bs e.item).length =
      min e.offset bs.length + e.insert.len + (bs.length - (e.offset + e.delete)) := by
    simp only [splice, length_append, length_take, length_drop]
    rfl
  omega

theorem le_peakOf_applySeq (f : List UInt8 → Nat) (bs : List UInt8) (seq : List Edit) :
    f (applySeq bs seq) ≤ peakOf f bs seq := by
  induction seq generalizing bs with
  | nil => exact le_rfl
  | cons e es ih => exact (ih (splice bs e.item)).trans (le_max_right _ _)

/-- Proof that phase 1 succeeded for exactly this sequence on this text. -/
structure Prepared (t : Text) where
  sequence : List Edit
  admissible : Admissible t sequence
  fits : (applySeq t.bytes sequence).length ≤ maxBufferBytes
  fitsLines : lineTotal (applySeq t.bytes sequence) ≤ maxLines

namespace Text

def prepare (t : Text) (sequence : List Edit) : Except CoreError (Prepared t) :=
  match h : t.simulate sequence with
  | .error e => .error e
  | .ok sim =>
    have hok := simulate_ok_iff.mp ⟨sim, h⟩
    .ok ⟨sequence, hok.1, (le_peakOf_applySeq _ _ _).trans hok.2.1,
      (le_peakOf_applySeq _ _ _).trans hok.2.2⟩

/-- Phase 2. It cannot fail: what it needs came with phase 1. -/
def commit (t : Text) (p : Prepared t) : Text where
  bytes := applySeq t.bytes p.sequence
  starts := p.sequence.foldl spliceLines t.starts
  valid := coded_applySeq t.valid (onBoundaries_of_chain t.valid p.admissible.1 p.admissible.2)
  indexed := by
    rw [t.indexed]
    exact lineStarts_applySeq p.admissible.1 le_rfl
  fits := p.fits
  fitsLines := by
    rw [t.indexed, lineStarts_applySeq p.admissible.1 le_rfl, length_lineStarts]
    exact p.fitsLines

theorem prepare_ok {t : Text} {seq : List Edit} {p : Prepared t} (h : t.prepare seq = .ok p) :
    p.sequence = seq := by
  unfold prepare at h
  split at h
  · cases h
  · cases h
    rfl

theorem prepare_of_simulate {t : Text} {seq : List Edit} {sim : Simulation}
    (h : t.simulate seq = .ok sim) : ∃ p, t.prepare seq = .ok p := by
  unfold prepare
  split
  · next h' => exact absurd (h.symm.trans h') (by simp)
  · exact ⟨_, rfl⟩

end Text

/-- One-byte characters, none of them a newline. -/
def Letters (bs : List UInt8) : Prop := ∀ x ∈ bs, isContinuation x = false ∧ x ≠ newline

namespace Letters

variable {bs : List UInt8}

theorem boundary (h : Letters bs) {o : Nat} (ho : o ≤ bs.length) :
    Lib.Coding.boundary utf8 bs o = true := by
  unfold Lib.Coding.boundary
  cases hx : bs[o]? with
  | none =>
    have := getElem?_eq_none_iff.mp hx
    exact beq_iff_eq.mpr (by omega)
  | some x =>
    show (!isContinuation x) = true
    rw [(h x (mem_of_getElem? hx)).1]
    rfl

theorem replicate (n : Nat) : Letters (replicate n 97) := by
  intro x hx
  rw [eq_of_mem_replicate hx]
  exact ⟨by decide, by decide⟩

theorem lineTotal (h : Letters bs) : EditCore.lineTotal bs = 1 := by
  have hnone : countNewlines bs = 0 := by
    rw [countNewlines, countP_eq_zero]
    intro x hx
    simpa using (h x hx).2
  rw [EditCore.lineTotal, hnone]

theorem splice (h : Letters bs) {e : Edit} (he : Letters e.insert.bytes) :
    Letters (splice bs e.item) := by
  intro x hx
  rcases mem_append.mp hx with hx | hx
  · rcases mem_append.mp hx with hx | hx
    · exact h x (mem_of_mem_take hx)
    · exact he x hx
  · exact h x (mem_of_mem_drop hx)

theorem applySeq (h : Letters bs) {seq : List Edit} (hseq : ∀ e ∈ seq, Letters e.insert.bytes) :
    Letters (EditCore.applySeq bs seq) ∧ peakOf EditCore.lineTotal bs seq = 1 := by
  induction seq generalizing bs with
  | nil => exact ⟨h, h.lineTotal⟩
  | cons e es ih =>
    obtain ⟨hletters, hpeak⟩ := ih (h.splice (hseq e mem_cons_self))
      (fun x hx => hseq x (mem_cons_of_mem _ hx))
    refine ⟨hletters, ?_⟩
    rw [peakOf, hpeak, h.lineTotal]
    rfl

theorem admissible {t : Text} (h : Letters t.bytes) {seq : List Edit}
    (hc : Chain 0 t.len (seq.map Edit.item).reverse) : Admissible t seq := by
  refine ⟨hc, ?_⟩
  intro e he
  obtain ⟨-, hle, hstop⟩ := hc.mem (mem_reverse.mpr (mem_map_of_mem he))
  have hstop' : e.offset + e.delete ≤ t.bytes.length := hstop
  exact ⟨h.boundary (by omega), h.boundary hstop'⟩

theorem read {t : Text} (h : Letters t.bytes) {lo hi : Nat} (hle : lo ≤ hi)
    (hhi : hi ≤ t.len) : (t.read ⟨lo, hi⟩).bytes = seg t.bytes lo hi := by
  have hlo' : t.isCharBoundary lo = true := h.boundary (hle.trans hhi)
  have hhi' : t.isCharBoundary hi = true := h.boundary hhi
  rw [Text.read, dif_pos ⟨hlo', hhi', hle⟩]

end Letters

def Text.letters (n : Nat) (h : n ≤ maxBufferBytes) : Text where
  bytes := replicate n 97
  starts := lineStarts (replicate n 97)
  valid := by
    refine ⟨replicate n 'a', ?_⟩
    induction n with
    | zero => rfl
    | succ n ih =>
      rw [replicate_succ, replicate_succ, flatMap_cons, ← ih (by omega)]
      rfl
  indexed := rfl
  fits := by rwa [length_replicate]
  fitsLines := by
    have hone : lineTotal (replicate n 97) = 1 := (Letters.replicate n).lineTotal
    rw [length_lineStarts]
    unfold lineTotal at hone
    rw [hone]
    decide

end Cosmix.EditCore
