/- digest: Self-synchronising codes: boundaries, cutting and splicing. -/

import Cosmix.Lib.Splice

namespace Cosmix.Lib.Coding

open Cosmix.Lib.Weave (Item splice seg)
open List

/-- A code whose words start with one lead letter and go on in continuation letters. -/
structure Code (σ β : Type) where
  encode : σ → List β
  cont : β → Bool
  lead : ∀ c, ∃ b bs, encode c = b :: bs ∧ cont b = false ∧ ∀ x ∈ bs, cont x = true

variable {σ β : Type} (C : Code σ β)

/-- A list of letters that encodes some sequence of symbols. -/
def Coded (bs : List β) : Prop := ∃ cs : List σ, bs = cs.flatMap C.encode

/-- A position where no word is cut: a lead letter or the end stands there. -/
def boundary (bs : List β) (o : Nat) : Bool :=
  match bs[o]? with
  | some b => !C.cont b
  | none => o == bs.length

/-- The words of a list: every lead letter starts a new one. -/
def words : List β → List (List β)
  | [] => []
  | b :: bs =>
    match words bs with
    | [] => [[b]]
    | w :: ws => if (bs.head?.map C.cont).getD false then (b :: w) :: ws else [b] :: w :: ws

variable {C}

theorem coded_nil : Coded C [] := ⟨[], rfl⟩

variable {u v bs : List β} {lo hi : Nat} {x : Item β}

theorem coded_append (hu : Coded C u) (hv : Coded C v) : Coded C (u ++ v) := by
  obtain ⟨cs, rfl⟩ := hu
  obtain ⟨ds, rfl⟩ := hv
  exact ⟨cs ++ ds, by rw [flatMap_append]⟩

variable {o : Nat}

theorem boundary_le (h : boundary C bs o = true) : o ≤ bs.length := by
  unfold boundary at h
  split at h
  · next hb => exact (List.getElem?_eq_some_iff.mp hb).1.le
  · exact (beq_iff_eq.mp h).le

theorem boundary_length (bs : List β) : boundary C bs bs.length = true := by
  simp [boundary]

theorem boundary_append (hv : Coded C v) : boundary C (u ++ v) u.length = true := by
  obtain ⟨cs, rfl⟩ := hv
  cases cs with
  | nil => simp [boundary]
  | cons c =>
    obtain ⟨b, _, hc, hb, -⟩ := C.lead c
    simp [boundary, hc, hb]

theorem boundary_append_left (h : o < u.length) : boundary C (u ++ v) o = boundary C u o := by
  rw [boundary, boundary, getElem?_append_left h, getElem?_eq_getElem h]

theorem boundary_append_right (h : u.length ≤ o) :
    boundary C (u ++ v) o = boundary C v (o - u.length) := by
  have hend : (o == (u ++ v).length) = (o - u.length == v.length) := by
    rw [length_append, Bool.eq_iff_iff, beq_iff_eq, beq_iff_eq]
    omega
  rw [boundary, boundary, getElem?_append_right h, hend]

theorem boundary_seg (hhi : hi ≤ bs.length) (ho : o < hi - lo) :
    boundary C (seg bs lo hi) o = boundary C bs (lo + o) := by
  have hget : (seg bs lo hi)[o]? = bs[lo + o]? := by
    rw [seg, getElem?_take_of_lt ho, getElem?_drop]
  have hlt : lo + o < bs.length := by omega
  rw [boundary, boundary, hget, getElem?_eq_getElem hlt]

variable (h : Coded C bs)
include h

theorem boundary_zero : boundary C bs 0 = true :=
  boundary_append h (u := [])

theorem coded_split (ho : boundary C bs o = true) : Coded C (bs.take o) ∧ Coded C (bs.drop o) := by
  obtain ⟨cs, rfl⟩ := h
  induction cs generalizing o with
  | nil => simp [coded_nil]
  | cons c cs ih =>
    obtain ⟨b, tl, hc, hb, htl⟩ := C.lead c
    rcases Nat.eq_zero_or_pos o with rfl | hpos
    · exact ⟨coded_nil, c :: cs, rfl⟩
    -- a boundary inside the first word would be a continuation letter
    have hlen : (C.encode c).length ≤ o := by
      by_contra hlt
      obtain ⟨k, rfl⟩ := Nat.exists_eq_succ_of_ne_zero hpos.ne'
      have hk : k < tl.length := by
        rw [hc, length_cons] at hlt
        omega
      have hcont := htl _ (List.getElem_mem hk)
      simp [boundary, hc, getElem?_append_left hk, getElem?_eq_getElem hk, hcont] at ho
    rw [flatMap_cons, boundary_append_right hlen] at ho
    obtain ⟨h₁, h₂⟩ := ih ho
    rw [flatMap_cons, take_append, drop_append, take_of_length_le hlen, drop_eq_nil_of_le hlen]
    exact ⟨coded_append ⟨[c], by simp⟩ h₁, h₂⟩

theorem coded_seg (hlo : boundary C bs lo = true) (hhi : boundary C bs hi = true)
    (hle : lo ≤ hi) : Coded C (seg bs lo hi) := by
  have hpre := (coded_split h hhi).1
  have hb : boundary C (bs.take hi) lo = true := by
    rcases Nat.lt_or_eq_of_le hle with hlt | rfl
    · unfold boundary at hlo ⊢
      have hget : (bs.take hi)[lo]? = bs[lo]? := by simp [hlt]
      rw [hget]
      have hlt' : lo < bs.length := lt_of_lt_of_le hlt (boundary_le hhi)
      rw [getElem?_eq_getElem hlt'] at hlo ⊢
      exact hlo
    · have := boundary_length (C := C) (bs.take lo)
      rwa [length_take, min_eq_left (boundary_le hhi)] at this
  have hseg : seg bs lo hi = (bs.take hi).drop lo := by
    rw [seg, drop_take]
  rw [hseg]
  exact (coded_split hpre hb).2

theorem coded_splice (h₁ : boundary C bs x.start = true)
    (h₂ : boundary C bs x.stop = true) (ht : Coded C x.text) : Coded C (splice bs x) :=
  coded_append (coded_append (coded_split h h₁).1 ht) (coded_split h h₂).2

theorem boundary_splice_left (h₁ : boundary C bs x.start = true)
    (h₂ : boundary C bs x.stop = true) (ht : Coded C x.text) (hle : o ≤ x.start) :
    boundary C (splice bs x) o = boundary C bs o := by
  have hlen : (bs.take x.start).length = x.start := by
    rw [length_take, min_eq_left (boundary_le h₁)]
  rcases Nat.lt_or_eq_of_le hle with hlt | rfl
  · conv_rhs => rw [← take_append_drop x.start bs]
    rw [splice, append_assoc, boundary_append_left (by omega),
      boundary_append_left (by omega)]
  · have hsplit := boundary_append (coded_append ht (coded_split h h₂).2) (u := bs.take x.start)
    rwa [hlen, ← append_assoc, ← h₁] at hsplit

omit h in
theorem boundary_splice_right (hx : x.start ≤ x.stop) (hstop : x.stop ≤ bs.length)
    (hle : x.stop ≤ o) :
    boundary C (splice bs x) (o - (x.stop - x.start) + x.text.length) = boundary C bs o := by
  have hlen : (bs.take x.start ++ x.text).length = x.start + x.text.length := by
    rw [length_append, length_take, min_eq_left (hx.trans hstop)]
  conv_rhs => rw [← take_append_drop x.stop bs]
  rw [splice, boundary_append_right (by omega), boundary_append_right (by simp; omega), hlen,
    length_take, min_eq_left hstop]
  congr 1
  omega

omit h

theorem words_cons_of_not_cont {b : β} (h : (bs.head?.map C.cont).getD false = false) :
    words C (b :: bs) = [b] :: words C bs := by
  rw [words]
  split
  · next hw => rw [hw]
  · next hw => rw [hw, if_neg (by simp [h])]

private theorem words_lead {b : β} {tl rest : List β} (htl : ∀ x ∈ tl, C.cont x = true)
    (hrest : (rest.head?.map C.cont).getD false = false) :
    words C (b :: (tl ++ rest)) = (b :: tl) :: words C rest := by
  induction tl generalizing b with
  | nil => exact words_cons_of_not_cont hrest
  | cons x tl ih =>
    have hx := htl x mem_cons_self
    rw [cons_append, words, ih fun y hy => htl y (mem_cons_of_mem _ hy)]
    simp [hx]

theorem words_flatMap (cs : List σ) : words C (cs.flatMap C.encode) = cs.map C.encode := by
  induction cs with
  | nil => rfl
  | cons c cs ih =>
    obtain ⟨b, _, hc, -, htl⟩ := C.lead c
    have hrest : ((cs.flatMap C.encode).head?.map C.cont).getD false = false := by
      cases cs with
      | nil => rfl
      | cons d =>
        obtain ⟨_, _, hd, hb', -⟩ := C.lead d
        simp [hd, hb']
    rw [flatMap_cons, hc, cons_append, words_lead htl hrest, ih, map_cons, hc]

theorem words_append (hu : Coded C u) (hv : Coded C v) :
    words C (u ++ v) = words C u ++ words C v := by
  obtain ⟨_, rfl⟩ := hu
  obtain ⟨_, rfl⟩ := hv
  rw [← flatMap_append, words_flatMap, words_flatMap, words_flatMap, map_append]

theorem boundary_take_words (h : Coded C bs) (k : Nat) :
    boundary C bs ((words C bs).take k).flatten.length = true := by
  obtain ⟨cs, rfl⟩ := h
  have hsplit : cs.flatMap C.encode =
      ((cs.take k).map C.encode).flatten ++ (cs.drop k).flatMap C.encode := by
    rw [← flatMap_def, ← flatMap_append, take_append_drop]
  rw [words_flatMap, ← map_take]
  nth_rewrite 1 [hsplit]
  exact boundary_append ⟨cs.drop k, rfl⟩

theorem boundary_of_seg (hhi : boundary C bs hi = true) (hle : lo ≤ hi)
    (ho : boundary C (seg bs lo hi) o = true) : boundary C bs (lo + o) = true := by
  have hlen : (seg bs lo hi).length = hi - lo := Weave.length_seg bs (boundary_le hhi)
  rcases Nat.lt_or_ge o (hi - lo) with hlt | hge
  · rwa [boundary_seg (boundary_le hhi) hlt] at ho
  · have hbound := boundary_le ho
    have hend : lo + o = hi := by omega
    rwa [hend]

end Cosmix.Lib.Coding
