/- digest: Chains of replacements on a list, applied in sequence and moved through one another. -/

import Mathlib.Algebra.Order.Ring.Int
import Mathlib.Algebra.BigOperators.Group.List.Basic

namespace Cosmix.Lib.Weave

open List

variable {α : Type}

@[ext] structure Span where
  (start stop : Nat)
  deriving DecidableEq, Repr

@[ext] structure Item (α : Type) extends Span where
  text : List α
  deriving DecidableEq

def seg (t : List α) (lo hi : Nat) : List α := (t.drop lo).take (hi - lo)

@[simp] theorem seg_self (t : List α) (lo : Nat) : seg t lo lo = [] := by
  simp [seg]

variable {lo hi : Nat} {xs : List (Item α)}

theorem length_seg (t : List α) (h : hi ≤ t.length) : (seg t lo hi).length = hi - lo := by
  simp only [seg, length_take, length_drop]
  omega

theorem seg_zero_length (t : List α) : seg t 0 t.length = t := by
  simp [seg]

theorem seg_append_seg (t : List α) {mid : Nat} (h₁ : lo ≤ mid) (h₂ : mid ≤ hi) :
    seg t lo mid ++ seg t mid hi = seg t lo hi := by
  have hd : t.drop mid = (t.drop lo).drop (mid - lo) := by
    rw [drop_drop, Nat.add_sub_cancel' h₁]
  have hlen : hi - lo = (mid - lo) + (hi - mid) := by omega
  rw [seg, seg, seg, hd, hlen, take_add]

theorem seg_append_of_le_length (u v : List α) (lo : Nat) (h : hi ≤ u.length) :
    seg (u ++ v) lo hi = seg u lo hi := by
  by_cases hlo : lo ≤ hi
  · rw [seg, drop_append_of_le_length (hlo.trans h), take_append_of_le_length, seg]
    rw [length_drop]
    omega
  · have : hi - lo = 0 := by omega
    simp [seg, this]

theorem seg_append_of_length_le (u v : List α) (hi : Nat) (h : u.length ≤ lo) :
    seg (u ++ v) lo hi = seg v (lo - u.length) (hi - u.length) := by
  rw [seg, drop_append, drop_eq_nil_of_le h]
  congr 1
  omega

/-- Items in reading order inside a window, none overlapping the next. -/
def Chain : Nat → Nat → List (Item α) → Prop
  | lo, hi, [] => lo ≤ hi
  | lo, hi, x :: xs => lo ≤ x.start ∧ x.start ≤ x.stop ∧ Chain x.stop hi xs

instance decidableChain : (lo hi : Nat) → (xs : List (Item α)) → Decidable (Chain lo hi xs)
  | lo, hi, [] => inferInstanceAs (Decidable (lo ≤ hi))
  | lo, hi, x :: xs =>
    have := decidableChain x.stop hi xs
    inferInstanceAs (Decidable (lo ≤ x.start ∧ x.start ≤ x.stop ∧ Chain x.stop hi xs))

/-- The window of a text with every item of a chain replaced at once. -/
def weave (t : List α) : Nat → Nat → List (Item α) → List α
  | lo, hi, [] => seg t lo hi
  | lo, hi, x :: xs => seg t lo x.start ++ x.text ++ weave t x.stop hi xs

def splice (t : List α) (x : Item α) : List α :=
  t.take x.start ++ x.text ++ t.drop x.stop

variable (h : Chain lo hi xs)
include h

theorem Chain.le : lo ≤ hi := by
  induction xs generalizing lo with
  | nil => exact h
  | cons x xs ih =>
    obtain ⟨h₁, h₂, h₃⟩ := h
    exact (h₁.trans h₂).trans (ih h₃)

theorem Chain.weaken_left {lo' : Nat} (hle : lo' ≤ lo) : Chain lo' hi xs := by
  cases xs with
  | nil => exact hle.trans h
  | cons => exact ⟨hle.trans h.1, h.2⟩

theorem Chain.weaken_right {hi' : Nat} (hle : hi ≤ hi') : Chain lo hi' xs := by
  induction xs generalizing lo with
  | nil => exact le_trans h hle
  | cons x xs ih => exact ⟨h.1, h.2.1, ih h.2.2⟩

theorem Chain.mem {x : Item α} (hx : x ∈ xs) : lo ≤ x.start ∧ x.start ≤ x.stop ∧ x.stop ≤ hi := by
  induction xs generalizing lo with
  | nil => simp at hx
  | cons y ys ih =>
    obtain ⟨h₁, h₂, h₃⟩ := h
    rcases mem_cons.mp hx with rfl | hx
    · exact ⟨h₁, h₂, h₃.le⟩
    · obtain ⟨k₁, k₂, k₃⟩ := ih h₃ hx
      exact ⟨by omega, k₂, k₃⟩

omit h

theorem chain_append_cons_iff {ys : List (Item α)} {x : Item α} : Chain lo hi (xs ++ x :: ys) ↔
      Chain lo x.start xs ∧ x.start ≤ x.stop ∧ Chain x.stop hi ys := by
  induction xs generalizing lo with
  | nil => exact Iff.rfl
  | cons y xs ih =>
    simp only [cons_append, Chain, ih]
    tauto

theorem weave_skip (t : List α) {mid : Nat} (h₁ : lo ≤ mid) (h₂ : Chain mid hi xs) :
    weave t lo hi xs = seg t lo mid ++ weave t mid hi xs := by
  cases xs with
  | nil => exact (seg_append_seg t h₁ h₂).symm
  | cons => simp only [weave, ← seg_append_seg t h₁ h₂.1, append_assoc]

/-- Applying a chain from its last item to its first replaces all items at once. -/
theorem foldr_splice (t : List α) (h : Chain 0 t.length xs) :
    xs.foldr (fun x u => splice u x) t = weave t 0 t.length xs := by
  induction xs with
  | nil => simp [weave, seg_zero_length]
  | cons x xs ih =>
    obtain ⟨-, h₂, h₃⟩ := h
    have hx : x.stop ≤ t.length := h₃.le
    have hlen : (seg t 0 x.stop).length = x.stop := by simp [length_seg t hx]
    rw [foldr_cons, ih (h₃.weaken_left (Nat.zero_le _)), weave_skip t (Nat.zero_le _) h₃, splice]
    congr 1
    · rw [take_append_of_le_length (by omega), ← seg_append_seg t (Nat.zero_le _) h₂,
        take_left' (by rw [length_seg t (h₂.trans hx), Nat.sub_zero])]
    · rw [drop_left' hlen]

variable {α : Type}

/-- How much an item changes the length of a text. -/
def gain (y : Item α) : Int := y.text.length - (y.stop - y.start : Nat)

def Span.moveBy (k : Int) (x : Span) : Span := ⟨(x.start + k).toNat, (x.stop + k).toNat⟩

def Item.moveBy (k : Int) (x : Item α) : Item α := ⟨x.toSpan.moveBy k, x.text⟩

def covered (t : List α) (x : Item α) : List α := seg t x.start x.stop

/-- The item that takes back an item of a text. -/
def Item.inverse (t : List α) (y : Item α) : Item α :=
  ⟨⟨y.start, y.start + y.text.length⟩, covered t y⟩

def Clear (x y : Span) : Prop := y.stop ≤ x.start ∨ x.stop ≤ y.start

instance (x y : Span) : Decidable (Clear x y) := inferInstanceAs (Decidable (_ ∨ _))

/-- How far the items left of a position move it. -/
def drift (ys : List (Item α)) (pos : Nat) : Int :=
  ((ys.filter fun y => decide (y.stop ≤ pos)).map gain).sum

variable {lo mid hi n : Nat} {t : List α} {x y : Item α} {xs ys : List (Item α)}

theorem drift_nil (n : Nat) : drift ([] : List (Item α)) n = 0 := rfl

theorem drift_cons_of_le (h : y.stop ≤ n) (ys : List (Item α)) :
    drift (y :: ys) n = gain y + drift ys n := by
  simp [drift, h]

theorem drift_cons_of_lt (h : n < y.stop) (ys : List (Item α)) :
    drift (y :: ys) n = drift ys n := by
  simp [drift, not_le.mpr h]

theorem drift_eq_zero (h : ∀ y ∈ ys, n < y.stop) : drift ys n = 0 := by
  induction ys with
  | nil => rfl
  | cons y ys ih =>
    rw [drift_cons_of_lt (h y mem_cons_self)]
    exact ih fun y' hy' => h y' (mem_cons_of_mem _ hy')

theorem le_add_drift (hy : Chain lo hi ys) (hn : lo ≤ n) : (lo : Int) ≤ n + drift ys n := by
  induction ys generalizing lo with
  | nil => simpa [drift_nil] using hn
  | cons y ys ih =>
    obtain ⟨h₁, h₂, h₃⟩ := hy
    rcases Nat.lt_or_ge n y.stop with hlt | hle
    · have hzero : drift (y :: ys) n = 0 := by
        refine drift_eq_zero fun y' hy' => ?_
        rcases mem_cons.mp hy' with rfl | hy'
        · exact hlt
        · have := h₃.mem hy'
          omega
      omega
    · have := ih h₃ hle
      rw [drift_cons_of_le hle, gain]
      omega

theorem weave_append (hx : Chain lo mid xs) (hy : Chain mid hi ys) :
    weave t lo hi (xs ++ ys) = weave t lo mid xs ++ weave t mid hi ys := by
  induction xs generalizing lo with
  | nil => exact weave_skip t hx hy
  | cons x xs ih => simp only [cons_append, weave, ih hx.2.2, append_assoc]

theorem Chain.split (h : Chain lo hi xs) (hlo : lo ≤ y.start) (hhi : y.stop ≤ hi)
    (hclear : ∀ x ∈ xs, Clear x.toSpan y.toSpan) :
    ∃ us vs, xs = us ++ vs ∧ Chain lo y.start us ∧ Chain y.stop hi vs ∧
      ∀ x ∈ us, x.start < y.stop := by
  induction xs generalizing lo with
  | nil => exact ⟨[], [], rfl, hlo, hhi, nofun⟩
  | cons x xs ih =>
    obtain ⟨h₁, h₂, h₃⟩ := h
    obtain ⟨hx, hxs⟩ := forall_mem_cons.mp hclear
    by_cases hright : y.stop ≤ x.start
    · exact ⟨[], x :: xs, rfl, hlo, ⟨hright, h₂, h₃⟩, nofun⟩
    · obtain ⟨us, vs, rfl, hus, hvs, hleft⟩ := ih h₃ (hx.resolve_left hright) hxs
      exact ⟨x :: us, vs, rfl, ⟨h₁, h₂, hus⟩, hvs,
        forall_mem_cons.mpr ⟨Nat.lt_of_not_le hright, hleft⟩⟩

section

variable (hstop : y.stop ≤ t.length) (hy : y.start ≤ y.stop)
include hstop hy

theorem length_take_start : (t.take y.start).length = y.start :=
  length_take_of_le (hy.trans hstop)

theorem seg_splice_left (hle : hi ≤ y.start) : seg (splice t y) lo hi = seg t lo hi := by
  have hlen := length_take_start hstop hy
  conv_rhs => rw [← take_append_drop y.start t]
  rw [splice, append_assoc, seg_append_of_le_length _ _ _ (by omega),
    seg_append_of_le_length _ _ _ (by omega)]

theorem seg_splice_self : seg (splice t y) y.start (y.start + y.text.length) = y.text := by
  have hlen := length_take_start hstop hy
  rw [splice, append_assoc, seg_append_of_length_le _ _ _ hlen.le, hlen, Nat.sub_self,
    Nat.add_sub_cancel_left, seg_append_of_le_length _ _ _ le_rfl, seg_zero_length]

theorem seg_splice_right (hle : y.stop ≤ lo) (hlo : lo ≤ hi) :
    seg (splice t y) (lo - (y.stop - y.start) + y.text.length)
      (hi - (y.stop - y.start) + y.text.length) = seg t lo hi := by
  have hlen : (t.take y.start ++ y.text).length = y.start + y.text.length := by
    rw [length_append, length_take_start hstop hy]
  conv_rhs => rw [← take_append_drop y.stop t]
  rw [splice, seg_append_of_length_le _ _ _ (by omega), hlen,
    seg_append_of_length_le _ _ _ (by simp; omega), length_take, min_eq_left hstop]
  congr 1 <;> omega

theorem length_splice_eq : (splice t y).length = t.length - (y.stop - y.start) + y.text.length := by
  rw [splice, length_append, length_append, length_take_start hstop hy, length_drop]
  omega

theorem weave_splice_left (h : Chain lo y.start xs) :
    weave (splice t y) lo y.start xs = weave t lo y.start xs := by
  induction xs generalizing lo with
  | nil => exact seg_splice_left hstop hy le_rfl
  | cons x xs ih =>
    rw [weave, weave, ih h.2.2, seg_splice_left hstop hy (h.2.1.trans h.2.2.le)]

omit hstop in
theorem moveBy_gain (hle : y.stop ≤ x.start) (hx : x.start ≤ x.stop) :
    (x.moveBy (gain y)).toSpan = ⟨x.start - (y.stop - y.start) + y.text.length,
      x.stop - (y.stop - y.start) + y.text.length⟩ := by
  simp only [Item.moveBy, Span.moveBy, gain, Span.mk.injEq]
  omega

theorem splice_right (h : Chain lo t.length xs) (hle : y.stop ≤ lo) :
    Chain (lo - (y.stop - y.start) + y.text.length) (splice t y).length
        (xs.map (Item.moveBy (gain y))) ∧
      weave (splice t y) (lo - (y.stop - y.start) + y.text.length) (splice t y).length
        (xs.map (Item.moveBy (gain y))) = weave t lo t.length xs := by
  induction xs generalizing lo with
  | nil =>
    have hlo : lo ≤ t.length := h
    rw [length_splice_eq hstop hy]
    exact ⟨Nat.add_le_add_right (Nat.sub_le_sub_right hlo _) _,
      seg_splice_right hstop hy hle hlo⟩
  | cons x xs ih =>
    obtain ⟨h₁, h₂, h₃⟩ := h
    obtain ⟨hchain, hweave⟩ := ih h₃ (hle.trans (h₁.trans h₂))
    rw [map_cons, weave, weave, Chain, moveBy_gain hy (hle.trans h₁) h₂,
      seg_splice_right hstop hy hle h₁, hweave]
    exact ⟨⟨by simp only; omega, by simp only; omega, hchain⟩, rfl⟩

/-- Items left of the span, the one that takes the replacement back, and those right of it, moved,
do to the new text what they did to the old one. -/
theorem weave_splice (hx : Chain 0 y.start xs) (hz : Chain y.stop t.length ys) :
    Chain 0 (splice t y).length (xs ++ y.inverse t :: ys.map (Item.moveBy (gain y))) ∧
      weave (splice t y) 0 (splice t y).length
          (xs ++ y.inverse t :: ys.map (Item.moveBy (gain y))) = weave t 0 t.length (xs ++ ys) := by
  obtain ⟨hchain, hweave⟩ := splice_right hstop hy hz le_rfl
  rw [show y.stop - (y.stop - y.start) = y.start by omega] at hchain hweave
  have hinv : Chain y.start (splice t y).length (y.inverse t :: ys.map (Item.moveBy (gain y))) :=
    ⟨le_rfl, Nat.le_add_right _ _, hchain⟩
  refine ⟨chain_append_cons_iff.mpr ⟨hx, hinv.2⟩, ?_⟩
  rw [weave_append hx hinv, weave_append hx (hz.weaken_left hy), weave_splice_left hstop hy hx,
    weave_skip t hy hz, weave]
  simp only [Item.inverse, seg_self, nil_append, hweave]
  rfl

end

end Cosmix.Lib.Weave
