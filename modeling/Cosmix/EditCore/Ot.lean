/- source: cosmix-edit-core/src/text.rs, ot.rs
   digest: UTF-8 strings that carry their validity; edits, and ranges through them. -/

import Cosmix.Lib.Coding
import Mathlib.Data.List.Sort
import Mathlib.Algebra.Order.BigOperators.Group.List
import Mathlib.Algebra.Order.Group.Nat

namespace Cosmix.EditCore

open Cosmix.Lib.Coding List

/-- A UTF-8 continuation byte, the test of text.rs. -/
def isContinuation (b : UInt8) : Bool := b &&& 0xc0 == 0x80

private theorem isContinuation_ofNat (n : Nat) (h : n < 256) :
    isContinuation (UInt8.ofNat n) = decide (0x80 ≤ n ∧ n < 0xc0) := by
  have hfin : ∀ k : Fin 256, isContinuation (UInt8.ofNat k) = decide (0x80 ≤ k.val ∧ k.val < 0xc0) := by
    set_option maxRecDepth 4000 in decide
  exact hfin ⟨n, h⟩

private theorem isContinuation_tail (n : Nat) : isContinuation (UInt8.ofNat (n % 64 + 128)) = true := by
  rw [isContinuation_ofNat _ (by omega)]
  exact decide_eq_true (by omega)

private theorem isContinuation_lead {n : Nat} (h : 192 ≤ n) (hn : n < 256) :
    isContinuation (UInt8.ofNat n) = false := by
  rw [isContinuation_ofNat _ hn]
  exact decide_eq_false (by omega)

/-- UTF-8 as a self-synchronising code over the Unicode scalar values. -/
def utf8 : Code Char UInt8 where
  encode := String.utf8EncodeChar
  cont := isContinuation
  lead := by
    intro c
    unfold String.utf8EncodeChar
    dsimp only
    generalize c.val.toNat = v
    split
    · refine ⟨_, _, rfl, ?_, by simp⟩
      rw [isContinuation_ofNat _ (by omega)]
      exact decide_eq_false (by omega)
    split
    · refine ⟨_, _, rfl, isContinuation_lead (by omega) (by omega), ?_⟩
      simp only [mem_cons, not_mem_nil, or_false, forall_eq, isContinuation_tail]
    split <;> refine ⟨_, _, rfl, isContinuation_lead (by omega) (by omega), ?_⟩ <;>
      simp only [mem_cons, not_mem_nil, or_false, forall_eq_or_imp, forall_eq,
        isContinuation_tail, and_self]

/-- A Rust string: its bytes, which are valid UTF-8. -/
@[ext] structure Str where
  bytes : List UInt8
  valid : Coded utf8 bytes

namespace Str

instance : DecidableEq Str := fun a b =>
  decidable_of_iff (a.bytes = b.bytes) Str.ext_iff.symm

def ofChars (cs : List Char) : Str := ⟨cs.flatMap String.utf8EncodeChar, cs, rfl⟩

def empty : Str := ⟨[], coded_nil⟩

instance : Inhabited Str := ⟨empty⟩

def len (s : Str) : Nat := s.bytes.length

def isEmpty (s : Str) : Bool := s.bytes.isEmpty

def isCharBoundary (s : Str) (o : Nat) : Bool := boundary utf8 s.bytes o

theorem isEmpty_iff {s : Str} : s.isEmpty = true ↔ s.bytes = [] := List.isEmpty_iff

end Str

def newline : UInt8 := 10

def countNewlines (bs : List UInt8) : Nat := bs.countP (· == newline)

private theorem ofNat_ne_newline {n : Nat} (h₁ : 192 ≤ n) (h₂ : n < 256) :
    UInt8.ofNat n ≠ newline := by
  intro he
  have := congrArg UInt8.toNat he
  rw [UInt8.toNat_ofNat', show newline.toNat = 10 from rfl] at this
  omega

private theorem encode_eq_newline (c : Char) (h : (utf8.encode c).head? = some newline) :
    utf8.encode c = [newline] := by
  change (String.utf8EncodeChar c).head? = some newline at h
  change String.utf8EncodeChar c = [newline]
  unfold String.utf8EncodeChar at h ⊢
  dsimp only at h ⊢
  generalize c.val.toNat = v at h ⊢
  split at h
  · next hv => rw [if_pos hv, Option.some.inj h]
  split at h
  · exact absurd (Option.some.inj h) (ofNat_ne_newline (by omega) (by omega))
  split at h
  · exact absurd (Option.some.inj h) (ofNat_ne_newline (by omega) (by omega))
  · exact absurd (Option.some.inj h) (ofNat_ne_newline (by omega) (by omega))

theorem boundary_after_newline {bs : List UInt8} (h : Coded utf8 bs) {o : Nat}
    (ho : bs[o]? = some newline) : boundary utf8 bs (o + 1) = true := by
  have hb : boundary utf8 bs o = true := by
    rw [boundary, ho]
    rfl
  obtain ⟨-, cs, hcs⟩ := coded_split h hb
  have hlt : o < bs.length := (List.getElem?_eq_some_iff.mp ho).1
  have hhead : (cs.flatMap utf8.encode)[0]? = some newline := by
    rw [← hcs, List.getElem?_drop, add_zero, ho]
  cases cs with
  | nil => simp at hhead
  | cons c cs =>
    have hone : utf8.encode c = [newline] := by
      refine encode_eq_newline c ?_
      obtain ⟨b, tl, hc, -, -⟩ := utf8.lead c
      rw [flatMap_cons, hc] at hhead
      rw [hc]
      simpa using hhead
    have hsplit : bs = (bs.take o ++ [newline]) ++ cs.flatMap utf8.encode := by
      rw [flatMap_cons, hone] at hcs
      rw [append_assoc, ← hcs, take_append_drop]
    have := boundary_append (C := utf8) (u := bs.take o ++ [newline]) ⟨cs, rfl⟩
    rw [← hsplit, length_append, length_take, min_eq_left hlt.le] at this
    exact this

open Cosmix.Lib.Weave (Span Item)

/-- A byte range; Rust's `Range<usize>`, whose end is called stop here. -/
abbrev Range := Span

variable (r : Range)

def rangeIsEmpty : Bool := decide (r.stop ≤ r.start)

/-- One applied step, in the sequential coordinates valid when it applied. -/
@[ext] structure Edit where
  (offset delete : Nat)
  insert : Str
  deriving DecidableEq

inductive Priority
  | throughFirst | selfFirst
  deriving DecidableEq

/-- An edit reduced to its shape: offset, deleted length, inserted length. -/
structure RawEdit where
  (p dd ii : Nat)
  deriving DecidableEq

def RawEdit.of (e : Edit) : RawEdit := ⟨e.offset, e.delete, e.insert.len⟩

/-- Transform a range through a later edit; whether the edit lies to its left. `none` is `Overlap`.
-/
def transformRaw (through : RawEdit) (prio : Priority) : Option (Range × Bool) :=
  let s := r.start
  let e := r.stop
  let p := through.p
  let dd := through.dd
  let ii := through.ii
  let pe := p + dd
  if pe < s ∨ (pe = s ∧ dd > 0) then
    some (⟨s - dd + ii, e - dd + ii⟩, true)
  else if p > e ∨ (p = e ∧ dd > 0) then
    some (⟨s, e⟩, false)
  else if dd = 0 ∧ p = s ∧ s = e then
    match prio with
    | .throughFirst => some (⟨s + ii, e + ii⟩, true)
    | .selfFirst => some (⟨s, e⟩, false)
  else if dd = 0 ∧ p = s ∧ s < e then
    some (⟨s + ii, e + ii⟩, true)
  else if dd = 0 ∧ p = e ∧ e > s then
    some (⟨s, e⟩, false)
  else
    none

def transformRange (through : Edit) (prio : Priority) : Option Range :=
  (transformRaw r (RawEdit.of through) prio).map Prod.fst

def transformThrough (through : List RawEdit) (prio : Priority) : Option Range :=
  through.foldlM (fun r e => (transformRaw r e prio).map Prod.fst) r

/-- Each edit's inserted span after the sequence. An overlap, only asserted against in debug builds,
leaves it. -/
def postRangesRaw : List RawEdit → List Range
  | [] => []
  | e :: later =>
    later.foldl (fun r l => ((transformRaw r l .throughFirst).map Prod.fst).getD r)
      ⟨e.p, e.p + e.ii⟩ :: postRangesRaw later

def postRanges (edits : List Edit) : List Range := postRangesRaw (edits.map RawEdit.of)

/-- The scan's order: by start, points before non-empty ranges at one start. -/
def scanLe (a b : Range) : Prop :=
  a.start < b.start ∨ (a.start = b.start ∧ (a.start < a.stop → b.start < b.stop))

instance : DecidableRel scanLe := fun _ _ => inferInstanceAs (Decidable (_ ∨ _))

def overlapScan : Nat → List Range → Option Range
  | _, [] => none
  | maxE, r :: rest =>
    if r.start < maxE then some r
    else overlapScan (if r.stop > r.start then max maxE r.stop else maxE) rest

def firstOverlap (items : List Range) : Option Range :=
  overlapScan 0 (items.insertionSort scanLe)

/-- Application order: start descending, then the non-empty range, then inserts in reverse. -/
def canonicalCmp (a b : Range × Nat) : Ordering :=
  (compare b.1.start a.1.start).then
    ((compare (decide (b.1.stop > b.1.start)) (decide (a.1.stop > a.1.start))).then
      (compare b.2 a.2))

def canonicalLe (a b : Range × Nat) : Prop := (canonicalCmp a b).isLE = true

instance : DecidableRel canonicalLe := fun _ _ => inferInstanceAs (Decidable (_ = true))

def canonicalSort {γ : Type} (key : γ → Range × Nat) (l : List γ) : List γ :=
  l.insertionSort fun a b => canonicalLe (key a) (key b)

/-- The server's application order: item index and sequential edit. `none` for overlapping items or
a reversed range. -/
def txnSequence (items : List (Range × Str)) : Option (List (Nat × Edit)) :=
  if (items.any fun i => decide (i.1.start > i.1.stop)) ∨
      (firstOverlap (items.map Prod.fst)).isSome then
    none
  else
    let order := canonicalSort (fun i => (i.1.1, i.2)) items.zipIdx
    some (order.map fun i => (i.2, ⟨i.1.1.start, i.1.1.stop - i.1.1.start, i.1.2⟩))

/-- Transform a range through a base-coordinate transaction: items are judged at its original
position, shifts summed. -/
def transformThroughSet (items : List (Range × Nat)) (prio : Priority) : Option Range := do
  let shift ← items.foldlM (fun (d : Int × Int) item => do
    let (t, _) ← transformRaw r ⟨item.1.start, item.1.stop - item.1.start, item.2⟩ prio
    pure (d.1 + ((t.start : Int) - r.start), d.2 + ((t.stop : Int) - r.stop))) (0, 0)
  let start := (r.start : Int) + shift.1
  let stop := (r.stop : Int) + shift.2
  if start < 0 ∨ stop < start then none else some ⟨start.toNat, stop.toNat⟩

theorem transformRaw_throughFirst {r : Range} (hr : r.start ≤ r.stop) (y : RawEdit) :
    transformRaw r y .throughFirst =
      if y.p + y.dd ≤ r.start then some (⟨r.start - y.dd + y.ii, r.stop - y.dd + y.ii⟩, true)
      else if r.stop ≤ y.p then some (r, false) else none := by
  obtain ⟨s, e⟩ := r
  obtain ⟨p, dd, ii⟩ := y
  simp only [transformRaw] at hr ⊢
  by_cases h₁ : p + dd ≤ s
  · rw [if_pos h₁]
    by_cases h₂ : p + dd < s ∨ (p + dd = s ∧ dd > 0)
    · rw [if_pos h₂]
    have hdd : dd = 0 := by omega
    have hp : p = s := by omega
    subst hdd hp
    rw [if_neg h₂, if_neg (by omega)]
    by_cases h₃ : p = e
    · simp [h₃]
    · have : p < e := by omega
      simp [this]
  · rw [if_neg h₁, if_neg (by omega)]
    by_cases h₂ : e ≤ p
    · rw [if_pos h₂]
      by_cases h₃ : p > e ∨ (p = e ∧ dd > 0)
      · rw [if_pos h₃]
      · rw [if_neg h₃, if_neg (by omega), if_neg (by omega), if_pos (by omega)]
    · rw [if_neg h₂, if_neg (by omega), if_neg (by omega), if_neg (by omega), if_neg (by omega)]

open Cosmix.Lib.Weave

variable {α : Type}

def rawOf (x : Item α) : RawEdit := ⟨x.start, x.stop - x.start, x.text.length⟩

def Edit.item (e : Edit) : Item UInt8 := ⟨⟨e.offset, e.offset + e.delete⟩, e.insert.bytes⟩

theorem rawOf_item (e : Edit) : rawOf e.item = RawEdit.of e := by
  simp [rawOf, Edit.item, RawEdit.of, Str.len]

theorem Span.moveBy_zero : r.moveBy 0 = r := by
  simp [Span.moveBy]

variable {r : Range} {y : Item α} {lo hi : Nat} {ys : List (Item α)} {a b : Range × Nat}
  {items : List (Range × Str)}

theorem Span.moveBy_moveBy (hr : r.start ≤ r.stop) {j : Int} (hj : 0 ≤ r.start + j) (k : Int) :
    (r.moveBy j).moveBy k = r.moveBy (j + k) := by
  simp only [Span.moveBy, Span.mk.injEq]
  omega

theorem transformRaw_through (hr : r.start ≤ r.stop) (hy : y.start ≤ y.stop) :
    transformRaw r (rawOf y) .throughFirst = if y.stop ≤ r.start then some (r.moveBy (gain y), true)
      else if r.stop ≤ y.start then some (r, false) else none := by
  have hend : y.start + (y.stop - y.start) = y.stop := by omega
  rw [transformRaw_throughFirst hr, rawOf, hend]
  by_cases h : y.stop ≤ r.start
  · rw [if_pos h, if_pos h]
    simp only [Span.moveBy, gain, Option.some.injEq, Prod.mk.injEq, Span.mk.injEq, and_true]
    omega
  · rw [if_neg h, if_neg h]

theorem moveBy_proper (hr : r.start ≤ r.stop) (k : Int) :
    (r.moveBy k).start ≤ (r.moveBy k).stop := by
  simp only [Span.moveBy]
  omega

/-- A range that went through the rest of a chain is as clear of its first item as it was. -/
theorem transformRaw_chain (hc : Chain lo hi (y :: ys)) (hr : r.start ≤ r.stop) :
    transformRaw (r.moveBy (drift ys r.start)) (rawOf y) .throughFirst = if Clear r y.toSpan then
        some (r.moveBy (drift (y :: ys) r.start), decide (y.stop ≤ r.start)) else none := by
  obtain ⟨h₁, h₂, h₃⟩ := hc
  rcases Nat.lt_or_ge r.start y.stop with hlt | hle
  · -- nothing of the chain lies left of the range, so it has not moved yet
    have hzero : ∀ y' ∈ y :: ys, r.start < y'.stop := by
      intro y' hy'
      rcases mem_cons.mp hy' with rfl | hy'
      · exact hlt
      · have := h₃.mem hy'
        omega
    have hiff : Clear r y.toSpan ↔ r.stop ≤ y.start := by
      unfold Clear
      omega
    rw [drift_eq_zero fun y' hy' => hzero y' (mem_cons_of_mem _ hy'), drift_eq_zero hzero,
      Span.moveBy_zero, transformRaw_through hr h₂, if_neg (by omega),
      decide_eq_false (by omega)]
    exact if_congr hiff.symm rfl rfl
  · have hbound := le_add_drift h₃ hle
    have hmoved : y.stop ≤ (r.moveBy (drift ys r.start)).start := by
      simp only [Span.moveBy]
      omega
    rw [transformRaw_through (moveBy_proper hr _) h₂, if_pos hmoved,
      if_pos (show Clear r y.toSpan from .inl hle),
      drift_cons_of_le hle, Span.moveBy_moveBy hr (by omega), Int.add_comm,
      decide_eq_true hle]

theorem postRangesRaw_append (es : List RawEdit) (e : RawEdit) : postRangesRaw (es ++ [e]) =
      (postRangesRaw es).map (fun r => ((transformRaw r e .throughFirst).map Prod.fst).getD r) ++
        [⟨e.p, e.p + e.ii⟩] := by
  induction es with
  | nil => rfl
  | cons x es ih =>
    rw [cons_append, postRangesRaw, ih, foldl_append]
    rfl

theorem clear_comm {a b : Range} : Clear a b ↔ Clear b a := by
  exact or_comm

private theorem overlapScan_eq_none {m : Nat} {l : List Range}
    (hp : ∀ r ∈ l, r.start ≤ r.stop) (hs : l.Pairwise scanLe) :
    overlapScan m l = none ↔ (∀ r ∈ l, m ≤ r.start) ∧ l.Pairwise fun a b => a.stop ≤ b.start := by
  induction l generalizing m with
  | nil => simp [overlapScan]
  | cons r l ih =>
    obtain ⟨hr, hl⟩ := pairwise_cons.mp hs
    have hr' := hp r mem_cons_self
    have ih' := ih (m := if r.stop > r.start then max m r.stop else m)
      (fun x hx => hp x (mem_cons_of_mem _ hx)) hl
    simp only [overlapScan]
    by_cases hlt : r.start < m
    · rw [if_pos hlt]
      simp only [reduceCtorEq, false_iff, not_and]
      intro hall
      exact absurd (hall r mem_cons_self) (by omega)
    · rw [if_neg hlt, ih', pairwise_cons]
      have hstart : ∀ x ∈ l, r.start ≤ x.start := by
        intro x hx
        rcases hr x hx with h | h
        · exact h.le
        · exact h.1.le
      constructor
      · rintro ⟨h₁, h₂⟩
        refine ⟨?_, ?_, h₂⟩
        · intro x hx
          rcases mem_cons.mp hx with rfl | hx
          · omega
          · have := hstart x hx
            omega
        · intro x hx
          have hmax := h₁ x hx
          have := hstart x hx
          split at hmax <;> omega
      · rintro ⟨h₁, h₂, h₃⟩
        refine ⟨?_, h₃⟩
        intro x hx
        have := h₂ x hx
        split
        · exact Nat.max_le.mpr ⟨by omega, by omega⟩
        · omega

private theorem pairwise_scan (l : List Range) : (l.insertionSort scanLe).Pairwise scanLe := by
  have : Std.Total scanLe := ⟨by unfold scanLe; omega⟩
  have : IsTrans Range scanLe := ⟨by unfold scanLe; omega⟩
  exact pairwise_insertionSort scanLe l

private theorem stop_le_start_of_clear {a b : Range} (hb : b.start ≤ b.stop) (hs : scanLe a b)
    (hc : Clear a b) : a.stop ≤ b.start := by
  unfold scanLe at hs
  unfold Clear at hc
  omega

theorem firstOverlap_eq_none {l : List Range} (hp : ∀ r ∈ l, r.start ≤ r.stop) :
    firstOverlap l = none ↔ l.Pairwise Clear := by
  have hperm := perm_insertionSort scanLe l
  have hp' : ∀ r ∈ l.insertionSort scanLe, r.start ≤ r.stop := by
    intro r hr
    exact hp r (hperm.mem_iff.mp hr)
  have hsymm : ∀ {a b : Range}, Clear a b → Clear b a := fun h => clear_comm.mp h
  rw [firstOverlap, overlapScan_eq_none hp' (pairwise_scan l), ← hperm.pairwise_iff hsymm]
  constructor
  · rintro ⟨-, h⟩
    exact h.imp fun hab => .inr hab
  · intro h
    refine ⟨fun r _ => Nat.zero_le _, ?_⟩
    refine (h.and (pairwise_scan l)).imp_of_mem ?_
    rintro a b - hb ⟨hc, hs⟩
    exact stop_le_start_of_clear (hp' b hb) hs hc

theorem canonicalLe_iff : canonicalLe a b ↔ b.1.start < a.1.start ∨ (b.1.start = a.1.start ∧
        ((b.1.stop ≤ b.1.start ∧ a.1.start < a.1.stop) ∨
          ((b.1.start < b.1.stop ↔ a.1.start < a.1.stop) ∧ b.2 ≤ a.2))) := by
  unfold canonicalLe canonicalCmp
  rcases Nat.lt_trichotomy b.1.start a.1.start with h | h | h
  · simp [Nat.compare_eq_lt.mpr h, h]
  · have hstart : compare b.1.start a.1.start = .eq := Nat.compare_eq_eq.mpr h
    rw [hstart, Ordering.eq_then]
    by_cases hb : b.1.start < b.1.stop <;> by_cases ha : a.1.start < a.1.stop
    · have : compare (decide (b.1.stop > b.1.start)) (decide (a.1.stop > a.1.start)) = .eq := by
        simp [hb, ha]
      rw [this, Ordering.eq_then, Nat.isLE_compare]
      omega
    · have : compare (decide (b.1.stop > b.1.start)) (decide (a.1.stop > a.1.start)) = .gt := by
        simp [hb, ha]
        decide
      rw [this, Ordering.gt_then]
      simp only [Ordering.isLE_gt, Bool.false_eq_true, false_iff]
      omega
    · have : compare (decide (b.1.stop > b.1.start)) (decide (a.1.stop > a.1.start)) = .lt := by
        simp [hb, ha]
        decide
      rw [this, Ordering.lt_then]
      simp only [Ordering.isLE_lt, true_iff]
      omega
    · have : compare (decide (b.1.stop > b.1.start)) (decide (a.1.stop > a.1.start)) = .eq := by
        simp [hb, ha]
      rw [this, Ordering.eq_then, Nat.isLE_compare]
      omega
  · simp [Nat.compare_eq_gt.mpr h]
    omega

theorem canonicalLe_antisymm (h₁ : canonicalLe a b) (h₂ : canonicalLe b a) : a.2 = b.2 := by
  rw [canonicalLe_iff] at h₁ h₂
  omega

theorem scanLe_of_canonicalLe (h : canonicalLe b a) : scanLe a.1 b.1 := by
  rw [canonicalLe_iff] at h
  unfold scanLe
  omega

section

variable {γ δ : Type} (key : γ → Range × Nat)

theorem perm_canonicalSort (l : List γ) : (canonicalSort key l).Perm l :=
  perm_insertionSort _ l

theorem pairwise_canonicalSort (l : List γ) :
    (canonicalSort key l).Pairwise fun a b => canonicalLe (key a) (key b) := by
  have : Std.Total fun a b : γ => canonicalLe (key a) (key b) :=
    ⟨by simp only [canonicalLe_iff]; omega⟩
  have : IsTrans γ fun a b : γ => canonicalLe (key a) (key b) :=
    ⟨by simp only [canonicalLe_iff]; omega⟩
  exact pairwise_insertionSort _ l

theorem chain_of_pairwise {lo hi : Nat} {l : List (Item α)} (hlo : ∀ x ∈ l, lo ≤ x.start)
    (hle : lo ≤ hi) (hhi : ∀ x ∈ l, x.stop ≤ hi) (hp : ∀ x ∈ l, x.start ≤ x.stop)
    (hs : l.Pairwise fun a b => scanLe a.toSpan b.toSpan)
    (hc : l.Pairwise fun a b => Clear a.toSpan b.toSpan) : Chain lo hi l := by
  induction l generalizing lo with
  | nil => exact hle
  | cons x l ih =>
    obtain ⟨hs₁, hs₂⟩ := pairwise_cons.mp hs
    obtain ⟨hc₁, hc₂⟩ := pairwise_cons.mp hc
    refine ⟨hlo x mem_cons_self, hp x mem_cons_self, ?_⟩
    apply ih
    · intro y hy
      exact stop_le_start_of_clear (hp y (mem_cons_of_mem _ hy)) (hs₁ y hy) (hc₁ y hy)
    · exact hhi x mem_cons_self
    · exact fun y hy => hhi y (mem_cons_of_mem _ hy)
    · exact fun y hy => hp y (mem_cons_of_mem _ hy)
    · exact hs₂
    · exact hc₂

/-- Ranges that are clear of each other read as a chain in reverse application order. -/
theorem chain_canonicalSort {l : List γ} (f : γ → Item α) (hf : ∀ x, (f x).toSpan = (key x).1)
    {hi : Nat} (hhi : ∀ x ∈ l, (key x).1.stop ≤ hi) (hp : ∀ x ∈ l, (key x).1.start ≤ (key x).1.stop)
    (hc : l.Pairwise fun a b => Clear (key a).1 (key b).1) :
    Chain 0 hi ((canonicalSort key l).reverse.map f) := by
  have hperm : (canonicalSort key l).reverse.Perm l :=
    (reverse_perm _).trans (perm_canonicalSort key l)
  have hmem : ∀ {x : Item α}, x ∈ (canonicalSort key l).reverse.map f →
      ∃ z ∈ l, x.toSpan = (key z).1 := by
    intro x hx
    obtain ⟨z, hz, rfl⟩ := mem_map.mp hx
    exact ⟨z, hperm.mem_iff.mp hz, hf z⟩
  have hsymm : ∀ {a b : γ}, Clear (key a).1 (key b).1 → Clear (key b).1 (key a).1 :=
    fun h => clear_comm.mp h
  refine chain_of_pairwise (fun _ _ => Nat.zero_le _) (Nat.zero_le _) ?_ ?_ ?_ ?_
  · intro x hx
    obtain ⟨z, hz, he⟩ := hmem hx
    rw [he]
    exact hhi z hz
  · intro x hx
    obtain ⟨z, hz, he⟩ := hmem hx
    rw [he]
    exact hp z hz
  · rw [pairwise_map, pairwise_reverse]
    refine (pairwise_canonicalSort key l).imp ?_
    intro a b h
    rw [hf, hf]
    exact scanLe_of_canonicalLe h
  · rw [pairwise_map]
    have := (hperm.pairwise_iff hsymm).mpr hc
    refine this.imp ?_
    intro a b h
    rw [hf, hf]
    exact h

end

variable {α : Type} {r : Range} {lo hi : Nat} {ys : List (Item α)}

/-- A range goes through a canonical sequence exactly when it is clear of every step, and moves by
the drift of those on its left. -/
theorem transformThrough_chain (hc : Chain lo hi ys) (hr : r.start ≤ r.stop) :
    transformThrough r (ys.reverse.map rawOf) .throughFirst =
      if ∀ y ∈ ys, Clear r y.toSpan then some (r.moveBy (drift ys r.start)) else none := by
  induction ys generalizing lo with
  | nil => simp [transformThrough, drift_nil, Span.moveBy_zero]
  | cons y ys ih =>
    have hstep : transformThrough r ((y :: ys).reverse.map rawOf) .throughFirst =
        (transformThrough r (ys.reverse.map rawOf) .throughFirst).bind fun r' =>
          (transformRaw r' (rawOf y) .throughFirst).map Prod.fst := by
      simp [transformThrough]
    rw [hstep, ih hc.2.2]
    simp only [forall_mem_cons]
    by_cases hall : ∀ y' ∈ ys, Clear r y'.toSpan
    · rw [if_pos hall, Option.bind_some, transformRaw_chain hc hr]
      by_cases hy : Clear r y.toSpan
      · rw [if_pos hy, if_pos ⟨hy, hall⟩, Option.map_some]
      · rw [if_neg hy, if_neg fun h => hy h.1, Option.map_none]
    · rw [if_neg hall, if_neg fun h => hall h.2, Option.bind_none]

private theorem sum_shifts (hr : r.start ≤ r.stop) (hp : ∀ y ∈ ys, y.start ≤ y.stop) (d : Int) :
    (ys.map fun y => (y.toSpan, y.text.length)).foldlM (fun (d : Int × Int) item => do
      let (t, _) ← transformRaw r ⟨item.1.start, item.1.stop - item.1.start, item.2⟩ .throughFirst
      pure (d.1 + ((t.start : Int) - r.start), d.2 + ((t.stop : Int) - r.stop))) (d, d) =
      if ∀ y ∈ ys, Clear r y.toSpan then some (d + drift ys r.start, d + drift ys r.start)
      else none := by
  induction ys generalizing d with
  | nil => simp [drift_nil]
  | cons y ys ih =>
    obtain ⟨hy, hys⟩ := forall_mem_cons.mp hp
    have hraw : transformRaw r ⟨y.start, y.stop - y.start, y.text.length⟩ .throughFirst = _ :=
      transformRaw_through hr hy
    rw [map_cons, foldlM_cons, hraw]
    simp only [forall_mem_cons]
    by_cases hleft : y.stop ≤ r.start
    · have hclear : Clear r y.toSpan := .inl hleft
      have hstart : ((r.moveBy (gain y)).start : Int) - r.start = gain y := by
        simp only [Span.moveBy, gain]
        omega
      have hstop : ((r.moveBy (gain y)).stop : Int) - r.stop = gain y := by
        simp only [Span.moveBy, gain]
        omega
      rw [if_pos hleft, drift_cons_of_le hleft, ← Int.add_assoc]
      simp only [hclear, true_and]
      rw [← ih hys (d + gain y)]
      simp only [Option.bind_eq_bind, Option.bind_some, Option.pure_def, hstart, hstop]
    · rw [if_neg hleft, drift_cons_of_lt (by omega)]
      by_cases hright : r.stop ≤ y.start
      · have hclear : Clear r y.toSpan := .inr hright
        simp only [hclear, true_and]
        rw [if_pos hright, ← ih hys d]
        simp
      · have hclear : ¬ Clear r y.toSpan := not_or.mpr ⟨hleft, hright⟩
        rw [if_neg hright, if_neg fun h => hclear h.1]
        rfl

theorem transformThroughSet_chain (hc : Chain lo hi ys) {zs : List (Item α)} (hperm : zs.Perm ys)
    (hr : r.start ≤ r.stop) :
    transformThroughSet r (zs.map fun y => (y.toSpan, y.text.length)) .throughFirst =
      if ∀ y ∈ ys, Clear r y.toSpan then some (r.moveBy (drift ys r.start)) else none := by
  have hp : ∀ y ∈ zs, y.start ≤ y.stop := fun y hy => (hc.mem (hperm.mem_iff.mp hy)).2.1
  have hdrift : drift zs r.start = drift ys r.start :=
    ((hperm.filter _).map gain).sum_eq
  have hlow := le_add_drift (hc.weaken_left (Nat.zero_le lo)) (Nat.zero_le r.start)
  rw [transformThroughSet, sum_shifts hr hp, hdrift]
  simp only [hperm.mem_iff]
  split_ifs with hall
  · simp only [Option.bind_eq_bind, Option.bind_some, Int.zero_add]
    rw [if_neg (by omega)]
    rfl
  · rfl

variable {items : List (Range × Str)} {seq : List (Nat × Edit)}

/-- A transaction's steps, read backwards, are a chain of its items. -/
theorem txnSequence_chain (h : txnSequence items = some seq) :
    ∃ hi, ∃ ys : List (Item UInt8), Lib.Weave.Chain 0 hi ys ∧ (items.map fun i => ⟨i.1, i.2.bytes⟩).Perm ys ∧
      (seq.map fun s => RawEdit.of s.2) = ys.reverse.map rawOf := by
  unfold txnSequence at h
  split at h
  · cases h
  rename_i hok
  cases h
  obtain ⟨hrev, hfree⟩ := not_or.mp hok
  have hproper : ∀ i ∈ items, i.1.start ≤ i.1.stop := by
    simpa [any_eq_true] using hrev
  have hclear : (items.map Prod.fst).Pairwise Clear := by
    refine (firstOverlap_eq_none ?_).mp (by simpa using hfree)
    exact forall_mem_map.mpr hproper
  let key : (Range × Str) × Nat → Range × Nat := fun i => (i.1.1, i.2)
  let item : (Range × Str) × Nat → Item UInt8 := fun i => ⟨i.1.1, i.1.2.bytes⟩
  have hperm := perm_canonicalSort key items.zipIdx
  refine ⟨(items.map fun i => i.1.stop).sum, (canonicalSort key items.zipIdx).reverse.map item,
    chain_canonicalSort key item (fun _ => rfl) (fun i hi => ?_) (fun i hi => ?_) ?_, ?_, ?_⟩
  · exact le_sum_of_mem (mem_map_of_mem (fst_mem_of_mem_zipIdx hi))
  · exact hproper i.1 (fst_mem_of_mem_zipIdx hi)
  · rwa [← zipIdx_map_fst 0 items, map_map, pairwise_map] at hclear
  · have hback := (((reverse_perm _).trans hperm).map item).symm
    rwa [show item = (fun i : Range × Str => ⟨i.1, i.2.bytes⟩) ∘ Prod.fst from rfl, ← map_map,
      zipIdx_map_fst] at hback
  · rw [← map_reverse, reverse_reverse, map_map, map_map]
    rfl

/-- Rebasing through the steps of a transaction, as the server does, and through its items as a set,
as a client does, agree. -/
theorem sequential_eq_set (h : txnSequence items = some seq) (hr : r.start ≤ r.stop) :
    transformThrough r (seq.map fun s => RawEdit.of s.2) .throughFirst =
      transformThroughSet r (items.map fun i => (i.1, i.2.len)) .throughFirst := by
  obtain ⟨hi, ys, hc, hperm, hseq⟩ := txnSequence_chain h
  have hset := transformThroughSet_chain hc hperm hr
  rw [map_map] at hset
  rw [hseq, transformThrough_chain hc hr]
  exact hset.symm

/-- An insert after a deletion, with another insert where the deletion begins. -/
theorem sequential_eq_set_tie :
    ∃ seq, txnSequence [(⟨10, 20⟩, Str.empty), (⟨10, 10⟩, Str.ofChars ['P'])] = some seq ∧
      transformThrough ⟨20, 20⟩ (seq.map fun s => RawEdit.of s.2) .throughFirst = some ⟨11, 11⟩ := by
  have hseq : txnSequence [(⟨10, 20⟩, Str.empty), (⟨10, 10⟩, Str.ofChars ['P'])] =
      some [(0, ⟨10, 10, Str.empty⟩), (1, ⟨10, 0, Str.ofChars ['P']⟩)] := by decide +kernel
  refine ⟨_, hseq, ?_⟩
  rw [sequential_eq_set hseq (Nat.le_refl 20)]
  decide +kernel

end Cosmix.EditCore
