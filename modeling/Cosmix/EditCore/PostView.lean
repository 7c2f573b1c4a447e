/- source: cosmix-edit-core/src/buffer.rs
   digest: The view that places a cursor before the commit agrees with the text after it. -/

import Cosmix.EditCore.Undo

namespace Cosmix.EditCore

open Cosmix.Lib.Weave List
open Cosmix.Lib.Coding

/-- A segment cut from the text at char boundaries, or an inserted string. -/
def SegOk (t : Text) : Seg → Prop
  | .base r => r.start ≤ r.stop ∧ t.isCharBoundary r.start = true ∧ t.isCharBoundary r.stop = true
  | .ins _ => True

variable {t : Text} {s : Seg}

theorem SegOk.length (h : SegOk t s) : (s.bytes t).length = s.len := by
  cases s with
  | base => exact length_seg _ (boundary_le h.2.2)
  | ins => rfl

theorem SegOk.coded (h : SegOk t s) : Coded utf8 (s.bytes t) := by
  cases s with
  | base => exact coded_seg t.valid h.2.1 h.2.2 h.1
  | ins s => exact s.valid

def spreadBytes (t : Text) (segs : List (Nat × Seg)) : List UInt8 :=
  segs.flatMap fun s => s.2.bytes t

/-- Non-empty segments laid one after the other from a position on. -/
def Spread (t : Text) : Nat → List (Nat × Seg) → Prop
  | _, [] => True
  | post, s :: rest => s.1 = post ∧ 0 < s.2.len ∧ SegOk t s.2 ∧ Spread t (post + s.2.len) rest

theorem spread_cons {post start : Nat} {rest : List (Nat × Seg)} :
    Spread t post ((start, s) :: rest) ↔
      start = post ∧ 0 < s.len ∧ SegOk t s ∧ Spread t (post + s.len) rest := Iff.rfl

theorem Spread.coded {post : Nat} {segs : List (Nat × Seg)} (h : Spread t post segs) :
    Coded utf8 (spreadBytes t segs) := by
  induction segs generalizing post with
  | nil => exact coded_nil
  | cons s rest ih => exact coded_append h.2.2.1.coded (ih h.2.2.2)

namespace PostView

variable {t : Text} {seq : List Edit} {post o start : Nat} {segs : List (Nat × Seg)}

theorem place_spec {l : List Seg} (h : ∀ s ∈ l, SegOk t s) (post : Nat) :
    Spread t post (place post l).1 ∧ spreadBytes t (place post l).1 = l.flatMap (Seg.bytes t) ∧
      (place post l).2 = post + (l.flatMap (Seg.bytes t)).length := by
  induction l generalizing post with
  | nil => exact ⟨trivial, rfl, rfl⟩
  | cons s rest ih =>
    have hs := h s mem_cons_self
    have hrest := ih fun x hx => h x (mem_cons_of_mem _ hx)
    rw [place, flatMap_cons, length_append, hs.length]
    by_cases hpos : s.len > 0
    · obtain ⟨h₁, h₂, h₃⟩ := hrest (post + s.len)
      rw [if_pos hpos]
      refine ⟨⟨rfl, hpos, hs, h₁⟩, ?_, ?_⟩
      · rw [← h₂]
        rfl
      · rw [h₃]
        omega
    · obtain ⟨h₁, h₂, h₃⟩ := hrest post
      have hnil : s.bytes t = [] := eq_nil_of_length_eq_zero (by rw [hs.length]; omega)
      rw [if_neg hpos, hnil]
      refine ⟨h₁, h₂, ?_⟩
      omega

/-- Cutting the text at a chain of edits and putting their texts in between is weaving. -/
theorem cut_spec {es : List Edit} {pos : Nat} (hc : Chain pos t.len (es.map Edit.item))
    (hpos : t.isCharBoundary pos = true) (hb : ∀ e ∈ es, t.isCharBoundary e.offset = true ∧
      t.isCharBoundary (e.offset + e.delete) = true) : (∀ s ∈ cut t pos es, SegOk t s) ∧
      (cut t pos es).flatMap (Seg.bytes t) = weave t.bytes pos t.len (es.map Edit.item) := by
  induction es generalizing pos with
  | nil =>
    constructor
    · intro s hs
      rw [mem_singleton.mp hs]
      exact ⟨hc, hpos, boundary_length _⟩
    · exact append_nil _
  | cons e es ih =>
    obtain ⟨h₁, -, h₃⟩ := hc
    have he := hb e mem_cons_self
    obtain ⟨hok, hbytes⟩ := ih h₃ he.2 fun x hx => hb x (mem_cons_of_mem _ hx)
    constructor
    · intro s hs
      rcases mem_cons.mp hs with rfl | hs
      · exact ⟨h₁, hpos, he.1⟩
      rcases mem_cons.mp hs with rfl | hs
      · trivial
      · exact hok s hs
    · rw [cut, flatMap_cons, flatMap_cons, ← append_assoc]
      exact congrArg _ hbytes

theorem new_spec (h : Admissible t seq) : Spread t 0 (PostView.new t seq).segs ∧
      spreadBytes t (PostView.new t seq).segs = applySeq t.bytes seq ∧
      (PostView.new t seq).len = (applySeq t.bytes seq).length := by
  have hchain := h.1
  rw [← map_reverse] at hchain
  obtain ⟨hok, hcut⟩ := cut_spec hchain (boundary_zero t.valid) (by
    intro e he
    exact h.2 e (mem_reverse.mp he))
  obtain ⟨h₁, h₂, h₃⟩ := place_spec hok 0
  have hweave : (cut t 0 seq.reverse).flatMap (Seg.bytes t) = applySeq t.bytes seq := by
    rw [hcut, applySeq_eq_weave h.1, map_reverse]
    rfl
  rw [hweave] at h₂ h₃
  exact ⟨h₁, h₂, by rw [PostView.new, h₃, zero_add]⟩

theorem spread_boundary (h : Spread t post segs) (hpost : post ≤ o)
    (ho : o < post + (spreadBytes t segs).length) : (match (segs.takeWhile (·.1 ≤ o)).getLast? with
      | some (start, .base r) => t.isCharBoundary (r.start + (o - start))
      | some (start, .ins s) => s.isCharBoundary (o - start)
      | none => false) = boundary utf8 (spreadBytes t segs) (o - post) := by
  induction segs generalizing post with
  | nil => exact absurd ho (by simp [spreadBytes]; omega)
  | cons s rest ih =>
    obtain ⟨start, s⟩ := s
    obtain ⟨rfl, hpos, hok, hrest⟩ := spread_cons.mp h
    have hlen := hok.length
    have hbytes : spreadBytes t ((start, s) :: rest) = s.bytes t ++ spreadBytes t rest := rfl
    have hkeep : ((start, s) :: rest).takeWhile (·.1 ≤ o) =
        (start, s) :: rest.takeWhile (·.1 ≤ o) :=
      takeWhile_cons_of_pos (decide_eq_true hpost)
    rw [hkeep, hbytes]
    rw [hbytes, length_append] at ho
    by_cases hin : o < start + s.len
    · -- the offset lies in this segment, so the next ones start after it
      have hnone : rest.takeWhile (·.1 ≤ o) = [] := by
        cases rest with
        | nil => rfl
        | cons x =>
          apply takeWhile_cons_of_neg
          have hx : x.1 = start + s.len := hrest.1
          simpa [hx] using hin
      rw [hnone, boundary_append_left (by omega)]
      cases s with
      | base =>
        simp only [Seg.len] at hin
        exact (boundary_seg (boundary_le hok.2.2) (by omega)).symm
      | ins => rfl
    · have hsome : rest.takeWhile (·.1 ≤ o) ≠ [] := by
        cases rest with
        | nil => simp [spreadBytes] at ho; omega
        | cons x =>
          have hx : x.1 = start + s.len := hrest.1
          have hle : x.1 ≤ o := by omega
          simp [hle]
      have hlater := ih hrest (show start + s.len ≤ o by omega) (by omega)
      obtain ⟨x, xs, hxs⟩ := exists_cons_of_ne_nil hsome
      rw [hxs] at hlater
      rw [hxs, getLast?_cons_cons, hlater, boundary_append_right (by omega)]
      congr 1
      omega

theorem isCharBoundary_iff (h : Admissible t seq) :
    (PostView.new t seq).isCharBoundary o = boundary utf8 (applySeq t.bytes seq) o := by
  obtain ⟨hspread, hbytes, hlen⟩ := new_spec h
  unfold isCharBoundary
  rw [hlen]
  by_cases ho : o ≥ (applySeq t.bytes seq).length
  · rw [if_pos ho, boundary, List.getElem?_eq_none ho]
  · have := spread_boundary hspread (Nat.zero_le o) (by rw [hbytes]; omega)
    rw [if_neg ho]
    rwa [hbytes] at this

theorem startsIn_eq (t : Text) {a z : Nat} (haz : a ≤ z) (hz : z ≤ t.len) :
    t.startsIn a z = lineStartsFrom a (seg t.bytes a z) := by
  have hpre : t.bytes.take z = t.bytes.take a ++ seg t.bytes a z := by
    have := seg_append_seg t.bytes (Nat.zero_le a) haz
    simpa [seg] using this.symm
  have hlen : (t.bytes.take a).length = a := by
    rw [length_take]
    simp only [Text.len] at hz
    omega
  have ha : a ≤ t.bytes.length := haz.trans hz
  unfold Text.startsIn
  rw [t.indexed, (partitionPoint_lineStarts t.bytes hz).1, partitionPoint_eq t.bytes ha, hpre]
  rw [lineStarts, lineStartsFrom_append, hlen, zero_add, drop_succ_cons,
    ← length_lineStartsFrom 0, drop_left]

theorem segStarts_eq {v : PostView} (h : Spread v.text post segs) :
    (segs.flatMap fun s => v.segStarts s.1 s.2) = lineStartsFrom post (spreadBytes v.text segs) := by
  induction segs generalizing post with
  | nil => rfl
  | cons s rest ih =>
    obtain ⟨start, s⟩ := s
    obtain ⟨rfl, hpos, hok, hrest⟩ := spread_cons.mp h
    have hhead : v.segStarts start s = lineStartsFrom start (s.bytes v.text) := by
      cases s with
      | base r =>
        rw [segStarts, startsIn_eq _ hok.1 (boundary_le hok.2.2), Seg.bytes]
        have hshift : (lineStartsFrom r.start (seg v.text.bytes r.start r.stop)).map
            (fun p => p - r.start + start) =
              lineStartsFrom start (seg v.text.bytes r.start r.stop) := by
          rw [lineStartsFrom_shift le_rfl, Nat.sub_self, zero_add]
        rw [← hshift]
        apply map_congr_left
        intro p hp
        omega
      | ins => rfl
    have hbytes : spreadBytes v.text ((start, s) :: rest) =
        s.bytes v.text ++ spreadBytes v.text rest := rfl
    rw [flatMap_cons, ih hrest, hhead, hbytes, lineStartsFrom_append, hok.length]

/-- From a boundary on, the view lists the scalar values of the text after the sequence. -/
theorem scalars_eq (h : Spread t post segs)
    (hb : boundary utf8 (spreadBytes t segs) (start - post) = true) :
    (segs.flatMap fun s => if s.1 + s.2.len ≤ start then []
      else words utf8 ((s.2.bytes t).drop (start - s.1))) =
      words utf8 ((spreadBytes t segs).drop (start - post)) := by
  induction segs generalizing post with
  | nil => simp [spreadBytes, words]
  | cons s rest ih =>
    obtain ⟨first, s⟩ := s
    obtain ⟨rfl, hpos, hok, hrest⟩ := spread_cons.mp h
    have hlen := hok.length
    have hbytes : spreadBytes t ((first, s) :: rest) = s.bytes t ++ spreadBytes t rest := rfl
    rw [hbytes] at hb
    rw [flatMap_cons, hbytes]
    by_cases hskip : first + s.len ≤ start
    · rw [boundary_append_right (by omega), hlen] at hb
      have hsub : start - first - s.len = start - (first + s.len) := by omega
      rw [hsub] at hb
      have hgone : (s.bytes t).drop (start - first) = [] := drop_eq_nil_of_le (by omega)
      rw [if_pos hskip, ih hrest hb, drop_append, hgone, hlen, hsub]
      rfl
    · have hrestb : boundary utf8 (spreadBytes t rest) (start - (first + s.len)) = true := by
        rw [Nat.sub_eq_zero_of_le (by omega)]
        exact boundary_zero hrest.coded
      rw [boundary_append_left (by omega)] at hb
      rw [if_neg hskip, ih hrest hrestb, Nat.sub_eq_zero_of_le (show start ≤ first + s.len by omega),
        drop_zero, drop_append_of_le_length (by omega),
        words_append (coded_split hok.coded hb).2 hrest.coded]

/-- Walking counts off words of the line, up to the newline or the end that follows them. -/
theorem walk_line {line rest : List (List UInt8)} (hline : [newline] ∉ line)
    (hrest : ∀ w ∈ rest.head?, w = [newline]) (off cols : Nat) : walk off cols (line ++ rest) =
      if cols ≤ line.length then some (off + (line.take cols).flatten.length) else none := by
  induction line generalizing off cols with
  | nil =>
    match cols, rest with
    | 0, _ | _ + 1, [] => rfl
    | _ + 1, w :: _ => simp [walk, hrest w rfl]
  | cons w line ih =>
    cases cols with
    | zero => rfl
    | succ =>
      obtain ⟨hw, hline⟩ := not_or.mp (mt mem_cons.mpr hline)
      rw [cons_append, walk, if_neg (Ne.symm hw), ih hline]
      simp [add_assoc]

variable {line : Nat} (p : Prepared t)

theorem lineStart_eq (hline : line ≠ 0) :
    (PostView.new t p.sequence).lineStart line = (t.commit p).lineStart line := by
  obtain ⟨hspread, hbytes, -⟩ := new_spec p.admissible
  rw [lineStart, segStarts_eq hspread, Text.lineStart, if_neg hline, (t.commit p).indexed]
  match line, hline with
  | 1, _ => rfl
  | n + 2, _ => exact congrArg (fun bs => (lineStartsFrom 0 bs)[n]?) hbytes

theorem afterCols_eq (hb : (t.commit p).isCharBoundary start = true) (cols : Nat) :
    (PostView.new t p.sequence).afterCols start cols =
      walk start cols (words utf8 ((t.commit p).bytes.drop start)) := by
  obtain ⟨hspread, hbytes, -⟩ := new_spec p.admissible
  have hb : boundary utf8 (applySeq t.bytes p.sequence) start = true := hb
  rw [← hbytes] at hb
  have hscalars : (PostView.new t p.sequence).scalarsFrom start =
      words utf8 ((spreadBytes t (PostView.new t p.sequence).segs).drop start) :=
    scalars_eq hspread hb
  rw [afterCols, hscalars, hbytes]
  rfl

end PostView

theorem mem_lineStarts_of_newline {bs : List UInt8} {o : Nat} (h : bs[o]? = some newline) :
    o + 1 ∈ lineStarts bs := by
  obtain ⟨ho, hget⟩ := List.getElem?_eq_some_iff.mp h
  have hlen : (bs.take o).length = o := length_take_of_le ho.le
  rw [← take_append_drop o bs, drop_eq_getElem_cons ho, hget, lineStarts,
    lineStartsFrom_append, hlen, zero_add]
  simp [lineStartsFrom]

theorem mem_of_mem_words {bs w : List UInt8} {x : UInt8} (h : Coded utf8 bs)
    (hw : w ∈ words utf8 bs) (hx : x ∈ w) : x ∈ bs := by
  obtain ⟨_, rfl⟩ := h
  rw [words_flatMap] at hw
  obtain ⟨c, hc, rfl⟩ := mem_map.mp hw
  exact mem_flatMap.mpr ⟨c, hc, hx⟩

section

variable {line start : Nat} (h : t.lineStart line = some start)
include h

theorem lineStart_get : line ≠ 0 ∧ (lineStarts t.bytes)[line - 1]? = some start := by
  unfold Text.lineStart at h
  split at h
  · cases h
  · next hpos => exact ⟨hpos, by rwa [t.indexed] at h⟩

theorem lineStart_boundary : t.isCharBoundary start = true :=
  boundary_of_mem_lineStarts t.valid (mem_of_getElem? (lineStart_get h).2)

theorem lineStart_lt {line' start' : Nat}
    (h' : t.lineStart line' = some start') (hlt : line < line') : start < start' := by
  obtain ⟨hpos, hget⟩ := lineStart_get h
  obtain ⟨-, hget'⟩ := lineStart_get h'
  obtain ⟨h₁, rfl⟩ := List.getElem?_eq_some_iff.mp hget
  obtain ⟨h₂, rfl⟩ := List.getElem?_eq_some_iff.mp hget'
  exact pairwise_iff_getElem.mp (pairwise_lineStarts t.bytes) _ _ h₁ h₂ (by omega)

omit h in
theorem exists_lineStart (h : ¬ (line = 0 ∨ line > t.lineCount)) :
    ∃ start, t.lineStart line = some start := by
  simp only [Text.lineCount] at h
  exact ⟨_, (if_neg (by omega)).trans (getElem?_eq_getElem (by omega))⟩

theorem lineStart_of_newline {o : Nat} (hle : start ≤ o) (ho : t.bytes[o]? = some newline) :
    ∃ next, t.starts[line]? = some next ∧ next ≤ o + 1 := by
  obtain ⟨j, hj⟩ := mem_iff_getElem?.mp (mem_lineStarts_of_newline ho)
  rw [← t.indexed] at hj
  have hline : t.lineStart (j + 1) = some (o + 1) := hj
  have hlt : line < j + 1 := by
    by_contra hge
    rcases Nat.eq_or_lt_of_le (Nat.le_of_not_lt hge) with heq | hlt
    · rw [heq, h] at hline
      have := Option.some.inj hline
      omega
    · have := lineStart_lt hline h hlt
      omega
  have hin := (List.getElem?_eq_some_iff.mp hj).1
  have hnext : t.lineStart (line + 1) = some (t.starts[line]) := getElem?_eq_getElem (by omega)
  refine ⟨_, hnext, ?_⟩
  rcases Nat.eq_or_lt_of_le (Nat.le_of_lt_succ hlt) with rfl | hlt
  · exact (Option.some.inj (hnext.symm.trans hline)).le
  · exact (lineStart_lt hnext hline (Nat.succ_lt_succ hlt)).le

theorem lineEnd_spec :
    ∃ stop, t.lineEnd line = some stop ∧ start ≤ stop ∧ t.isCharBoundary stop = true ∧
      newline ∉ seg t.bytes start stop ∧ (t.bytes[stop]? = some newline ∨ stop = t.len) := by
  have hfree : ∀ {stop}, (∀ next, t.starts[line]? = some next → stop < next) →
      newline ∉ seg t.bytes start stop := by
    intro stop hstop hmem
    obtain ⟨i, hi⟩ := mem_iff_getElem?.mp hmem
    rw [seg, getElem?_take, getElem?_drop] at hi
    split at hi
    · obtain ⟨next, hnext, hle⟩ := lineStart_of_newline h (Nat.le_add_right start i) hi
      have := hstop next hnext
      omega
    · cases hi
  unfold Text.lineEnd
  rw [h]
  cases hnext : t.starts[line]? with
  | none =>
    refine ⟨t.len, rfl, boundary_le (lineStart_boundary h), boundary_length _, hfree ?_, .inr rfl⟩
    simp [hnext]
  | some next =>
    have hlt : start < next := 
      lineStart_lt h (show t.lineStart (line + 1) = some next from hnext) (Nat.lt_succ_self _)
    have hmem := mem_of_getElem? hnext
    rw [t.indexed] at hmem
    rcases mem_cons.mp hmem with rfl | hmem
    · omega
    obtain ⟨i, rfl, hi⟩ := newline_of_mem_lineStartsFrom hmem
    refine ⟨i, by simp, by omega, ?_, hfree ?_, .inl hi⟩
    · rw [Text.isCharBoundary, boundary, hi]
      rfl
    · intro next hnext'
      cases hnext.symm.trans hnext'
      omega

/-- Columns are counted off in the rest of the text, up to the newline of the line. -/
theorem lineColOffset_eq_walk {col : Nat} (hcol : col ≠ 0) : t.lineColOffset line col =
      PostView.walk start (col - 1) (words utf8 (t.bytes.drop start)) := by
  obtain ⟨stop, hstop, hle, hb, hfree, hend⟩ := lineEnd_spec h
  have hline := coded_seg t.valid (lineStart_boundary h) hb hle
  have hsplit : t.bytes.drop start = seg t.bytes start stop ++ t.bytes.drop stop := by
    rw [← Nat.add_sub_cancel' hle, ← drop_drop, Nat.add_sub_cancel' hle, seg, take_append_drop]
  have hrest : ∀ w ∈ (words utf8 (t.bytes.drop stop)).head?, w = [newline] := by
    rcases hend with hnl | rfl
    · obtain ⟨hlt, hget⟩ := List.getElem?_eq_some_iff.mp hnl
      have hnext := (coded_split t.valid (boundary_after_newline t.valid hnl)).2
      have hone : Coded utf8 [newline] := ⟨['\n'], rfl⟩
      rw [drop_eq_getElem_cons hlt, hget, ← singleton_append, words_append hone hnext]
      rintro w ⟨⟩
      rfl
    · simp [Text.len, words]
  rw [hsplit, words_append hline (coded_split t.valid hb).2, PostView.walk_line ?_ hrest]
  · simp [Text.lineColOffset, h, hstop, hcol]
  · intro hmem
    exact hfree (mem_of_mem_words hline hmem mem_cons_self)

end

namespace Buffer

variable {b : Buffer} (after : Buffer)

/-- A position resolved before a commit is the one that the buffer has after it. -/
theorem resolvePost_eq (p : Prepared b.text) (htext : after.text = b.text.commit p)
    (hanchors : after.anchors = b.anchors.map fun a => a.map p.sequence (b.rev + 1)) (pos : PosSpec) :
    (b.resolvePost pos p.sequence after.lineCount).toOption = (after.resolvePos pos).toOption := by
  have hlen : (PostView.new b.text p.sequence).len = after.len := by
    rw [len, htext]
    exact (PostView.new_spec p.admissible).2.2
  cases pos with
  | offset o =>
    have hb : (PostView.new b.text p.sequence).isCharBoundary o = after.text.isCharBoundary o := by
      rw [htext]
      exact PostView.isCharBoundary_iff p.admissible
    simp only [resolvePost, hlen, hb, resolvePos, checkOffset]
    split_ifs <;> rfl
  | named n =>
    cases n with
    | atStart => rfl
    | atEnd => exact congrArg some hlen
  | lineCol line col =>
    simp only [resolvePost, resolvePos, checkLine]
    by_cases hline : line = 0 ∨ line > after.lineCount
    · rw [if_pos hline, if_pos hline]
      rfl
    obtain ⟨start, hstart⟩ := exists_lineStart hline
    have hview : (PostView.new b.text p.sequence).lineStart line = some start := by
      rw [PostView.lineStart_eq p (by omega), ← htext, hstart]
    have hcols : (if col.getD 1 ≥ 1 then (PostView.new b.text p.sequence).afterCols start
        (col.getD 1 - 1) else none) = after.text.lineColOffset line (col.getD 1) := by
      split
      · rw [lineColOffset_eq_walk hstart (by omega), htext]
        refine PostView.afterCols_eq p ?_ _
        rw [← htext]
        exact lineStart_boundary hstart
      · obtain ⟨stop, hstop, -⟩ := lineEnd_spec hstart
        simp [Text.lineColOffset, hstart, hstop, show col.getD 1 = 0 by omega]
    rw [if_neg hline, if_neg hline, hview, Option.getD_some, hcols]
    cases after.text.lineColOffset line (col.getD 1) <;> rfl
  | anchor name =>
    have hname : ∀ a : NamedAnchor, (a.map p.sequence (b.rev + 1)).name = a.name := by
      intro a
      rw [NamedAnchor.map]
      cases a.stop <;> rfl
    have hfind : after.anchor name = (b.anchor name).map fun a => a.map p.sequence (b.rev + 1) := by
      rw [anchor, hanchors, find?_map]
      simp only [Function.comp_def, hname]
      rfl
    simp only [resolvePost, resolvePos, hfind]
    cases b.anchor name <;> rfl

theorem ok_iff_of_toOption {ε α : Type} {x y : Except ε α} (h : x.toOption = y.toOption) (a : α) :
    x = .ok a ↔ y = .ok a := by
  cases x <;> cases y <;> simp_all [Except.toOption]

/-- Where a position is found before a sequence is committed, with the line count of phase 1. -/
theorem resolvePost_iff (p : Prepared b.text) {sim : Simulation}
    (hsim : b.text.simulate p.sequence = .ok sim) (htext : after.text = b.text.commit p)
    (hanchors : after.anchors = b.anchors.map fun a => a.map p.sequence (b.rev + 1)) (pos : PosSpec)
    (o : Nat) :
    b.resolvePost pos p.sequence sim.finalLines = .ok o ↔ after.resolvePos pos = .ok o := by
  have hlines : sim.finalLines = after.lineCount := by
    rw [Text.simulate_admissible p.admissible] at hsim
    split at hsim
    · cases hsim
    split at hsim
    · cases hsim
    cases hsim
    rw [lineCount, htext, Text.lineCount, (b.text.commit p).indexed, length_lineStarts]
    rfl
  rw [hlines]
  exact ok_iff_of_toOption (resolvePost_eq after p htext hanchors pos) o

/-- A cursor is placed where the committed buffer finds the position, and refused when that refuses
it. -/
theorem resolvePost_agrees {items : List Resolved} {c : Commit} {r : Buffer × Applied}
    {sim : Simulation} (hsim : b.text.simulate (sequenceOf items) = .ok sim)
    (hcommit : b.commitTxn items c = .ok r) (pos : PosSpec) (o : Nat) :
    b.resolvePost pos (sequenceOf items) sim.finalLines = .ok o ↔ r.1.resolvePos pos = .ok o := by
  obtain ⟨_, p, _, -, -, hprep, rfl⟩ := commitTxn_ok hcommit
  rw [← Text.prepare_ok hprep] at hsim ⊢
  exact resolvePost_iff _ p hsim rfl rfl pos o

private def typedLine : List Resolved := [⟨0, 0, Str.ofChars ['a', '\n'], 0⟩]

/-- The second line, before the newline that makes it is put in. -/
theorem resolvePost_agrees_newline :
    ∃ r, (withText Text.new).commitTxn typedLine (reloadCommit ⟨none, "local", none, none⟩ 0) =
      .ok r ∧ r.1.resolvePos (.lineCol 2 none) = .ok 2 := by
  have hsim : (withText Text.new).text.simulate (sequenceOf typedLine) = .ok ⟨2, 2, 2, 2⟩ := by
    decide +kernel
  obtain ⟨r, hr⟩ : ∃ r, (withText Text.new).commitTxn typedLine
    (reloadCommit ⟨none, "local", none, none⟩ 0) = .ok r := ⟨_, rfl⟩
  exact ⟨r, hr, (resolvePost_agrees hsim hr _ _).mp (by decide +kernel)⟩

end Buffer

end Cosmix.EditCore
