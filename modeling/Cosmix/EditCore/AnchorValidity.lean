/- source: cosmix-edit-core/src/anchor.rs, buffer.rs
   digest: Anchors and selections stay on char boundaries; how far mapping is monotone. -/

import Cosmix.EditCore.PostView

namespace Cosmix.EditCore

open Cosmix.Lib.Weave List
open Cosmix.Lib (bind_eq_ok)
open Cosmix.Lib.Coding

variable {e : Edit} {a m z : Nat} {seq : List Edit} {t : Text} {b : Buffer}

theorem mapPoint_boundary {bs : List UInt8} (h : Coded utf8 bs) (bias : Bias)
    (h₁ : boundary utf8 bs e.offset = true) (h₂ : boundary utf8 bs (e.offset + e.delete) = true)
    (ha : boundary utf8 bs a = true) :
    boundary utf8 (splice bs e.item) (mapPoint a bias e).1 = true := by
  have hleft : ∀ {o : Nat}, boundary utf8 bs o = true → o ≤ e.offset →
      boundary utf8 (splice bs e.item) o = true := by
    intro o ho hle
    exact (boundary_splice_left h h₁ h₂ e.insert.valid hle).trans ho
  have hright : ∀ {o : Nat}, boundary utf8 bs o = true → e.offset + e.delete ≤ o →
      boundary utf8 (splice bs e.item) (o - e.delete + e.insert.len) = true := by
    intro o ho hle
    have := boundary_splice_right (Nat.le_add_right e.offset e.delete) (boundary_le h₂) hle
      (C := utf8) (x := e.item)
    rwa [show e.item.stop - e.item.start = e.delete from Nat.add_sub_cancel_left _ _, ho] at this
  simp only [mapPoint]
  by_cases hout : a < e.offset ∨ (e.delete = 0 ∧ a > e.offset)
  · rw [if_pos hout]
    by_cases hlt : a < e.offset
    · rw [if_pos hlt]
      exact hleft ha (le_of_lt hlt)
    · rw [if_neg hlt]
      have := hright ha (by omega)
      rwa [show a - e.delete = a by omega] at this
  · rw [if_neg hout]
    by_cases heq : a = e.offset
    · rw [if_pos heq]
      cases bias with
      | before => exact hleft ha (le_of_eq heq)
      | after =>
        have := hright h₂ le_rfl
        rwa [Nat.add_sub_cancel, ← heq] at this
    · rw [if_neg heq]
      by_cases hin : a < e.offset + e.delete
      · rw [if_pos hin]
        exact hleft h₁ le_rfl
      · rw [if_neg hin]
        exact hright ha (by omega)

theorem mapThrough_cons (a : Nat) (bias : Bias) (e : Edit) (es : List Edit) :
    (mapThrough a bias (e :: es)).1 = (mapThrough (mapPoint a bias e).1 bias es).1 := by
  have hflag : ∀ (es : List Edit) (a : Nat) (c c' : Bool),
      (es.foldl (fun r e => ((mapPoint r.1 bias e).1, r.2 || (mapPoint r.1 bias e).2)) (a, c)).1 =
        (es.foldl (fun r e => ((mapPoint r.1 bias e).1, r.2 || (mapPoint r.1 bias e).2)) (a, c')).1 := by
    intro es
    induction es with
    | nil =>
      intro a c c'
      rfl
    | cons e es ih =>
      intro a c c'
      exact ih _ _ _
  exact hflag es _ _ _

theorem mapThrough_boundary {bs : List UInt8} (h : Coded utf8 bs) (hes : OnBoundaries bs seq)
    (bias : Bias) (ha : boundary utf8 bs a = true) :
    boundary utf8 (applySeq bs seq) (mapThrough a bias seq).1 = true := by
  induction seq generalizing bs a with
  | nil => exact ha
  | cons e es ih =>
    obtain ⟨h₁, h₂, hes⟩ := hes
    rw [mapThrough_cons]
    exact ih (coded_splice h h₁ h₂ e.insert.valid) hes (mapPoint_boundary h bias h₁ h₂ ha)

theorem mapThrough_before_mono (h : a ≤ z) (seq : List Edit) :
    (mapThrough a .before seq).1 ≤ (mapThrough z .before seq).1 := by
  induction seq generalizing a z with
  | nil => exact h
  | cons e es ih =>
    rw [mapThrough_cons, mapThrough_cons]
    refine ih ?_
    simp only [mapPoint]
    split_ifs <;> omega

/-- A step replaces the text that starts at one point and ends after another. -/
def SwallowsAt (e : Edit) (a z : Nat) : Prop :=
  0 < e.insert.len ∧ e.offset = a ∧ a < z ∧ z < a + e.delete

theorem mapPoint_after_of_le (h : e.offset + e.delete ≤ a) :
    (mapPoint a .after e).1 = a - e.delete + e.insert.len := by
  simp only [mapPoint]
  split_ifs <;> simp only <;> omega

theorem mapThrough_after_lt (hc : Chain 0 m (seq.map Edit.item).reverse) (ha : m ≤ a) (h : a < z) :
    (mapThrough a .after seq).1 < (mapThrough z .after seq).1 := by
  induction seq generalizing m a z with
  | nil => exact h
  | cons e es ih =>
    obtain ⟨hes, hstop⟩ := chain_reverse_cons.mp hc
    rw [mapThrough_cons, mapThrough_cons, mapPoint_after_of_le (by omega),
      mapPoint_after_of_le (show e.offset + e.delete ≤ z by omega)]
    exact ih hes (by omega) (by omega)

/-- One step keeps the order of two points unless it swallows the second but not the first. -/
theorem mapPoint_after_mono (h : a ≤ z) (hs : ¬ SwallowsAt e a z) :
    (mapPoint a .after e).1 ≤ (mapPoint z .after e).1 := by
  unfold SwallowsAt at hs
  simp only [mapPoint]
  split_ifs <;> simp only <;> omega

theorem mapPoint_after_swallowed (hs : SwallowsAt e a z) :
    (mapPoint a .after e).1 = a + e.insert.len ∧ (mapPoint z .after e).1 = a := by
  obtain ⟨hins, hoff, hlt, hin⟩ := hs
  simp only [mapPoint]
  constructor <;> split_ifs <;> simp only <;> omega

/-- A later step lies before this one: it swallows mapped points as it does the points. -/
theorem swallowsAt_mapPoint (h : a ≤ z) {x : Edit} (hx : x.offset + x.delete ≤ e.offset) :
    SwallowsAt x (mapPoint a .after e).1 (mapPoint z .after e).1 ↔ SwallowsAt x a z := by
  have hbefore : ∀ y, y < e.offset → (mapPoint y .after e).1 = y := by
    intro y hy
    simp only [mapPoint]
    rw [if_pos (.inl hy), if_pos hy]
  have hafter : ∀ y, e.offset ≤ y → e.offset ≤ (mapPoint y .after e).1 := by
    intro y hy
    simp only [mapPoint]
    split_ifs <;> simp only <;> omega
  rcases Nat.lt_or_ge z e.offset with hz | hz
  · rw [hbefore z hz, hbefore a (by omega)]
  have := hafter z hz
  constructor <;> rintro ⟨-, h₁, -, h₂⟩ <;> omega

/-- With bias after, two points keep their order exactly when no step puts text for a range from the
first to beyond the second. -/
theorem mapThrough_after_mono_iff (hc : Chain 0 m (seq.map Edit.item).reverse) (h : a ≤ z) :
    (mapThrough a .after seq).1 ≤ (mapThrough z .after seq).1 ↔ ∀ e ∈ seq, ¬ SwallowsAt e a z := by
  induction seq generalizing m a z with
  | nil => simpa [mapThrough] using h
  | cons e es ih =>
    obtain ⟨hes, -⟩ := chain_reverse_cons.mp hc
    rw [mapThrough_cons, mapThrough_cons]
    by_cases hs : SwallowsAt e a z
    · obtain ⟨h₁, h₂⟩ := mapPoint_after_swallowed hs
      have hlt := mapThrough_after_lt hes (le_of_eq hs.2.1)
        (show a < a + e.insert.len from Nat.lt_add_of_pos_right hs.1)
      rw [h₁, h₂]
      constructor
      · omega
      · intro hall
        exact absurd hs (hall e mem_cons_self)
    · rw [ih hes (mapPoint_after_mono h hs)]
      have hspan : ∀ x ∈ es, x.offset + x.delete ≤ e.offset := by
        intro x hx
        exact (hes.mem (x := x.item) (by simpa using ⟨x, hx, rfl⟩)).2.2
      rw [forall_mem_cons, and_iff_right hs]
      exact forall₂_congr fun x hx => not_congr (swallowsAt_mapPoint h (hspan x hx))

/-- An anchor's ends are char boundaries, in order. -/
structure NamedAnchor.Valid (t : Text) (n : NamedAnchor) : Prop where
  start : t.isCharBoundary n.start.offset = true
  stop : ∀ z, n.stop = some z → t.isCharBoundary z.offset = true ∧ n.start.offset ≤ z.offset

structure Selection.Valid (t : Text) (s : Selection) : Prop where
  anchor : t.isCharBoundary s.anchor = true
  head : t.isCharBoundary s.head = true

structure PointsOk (b : Buffer) : Prop where
  anchors : ∀ n ∈ b.anchors, n.Valid b.text
  selections : ∀ (o : Origin) (sels : List Selection), b.selections[o]? = some sels → ∀ s ∈ sels, s.Valid b.text

theorem mapThrough_commit (p : Prepared t) (bias : Bias) (ha : t.isCharBoundary a = true) :
    (t.commit p).isCharBoundary (mapThrough a bias p.sequence).1 = true :=
  mapThrough_boundary t.valid (onBoundaries_of_chain t.valid p.admissible.1 p.admissible.2) bias ha

theorem NamedAnchor.Valid.map {n : NamedAnchor} (h : n.Valid t) (p : Prepared t) (rev : Nat) :
    (n.map p.sequence rev).Valid (t.commit p) := by
  unfold NamedAnchor.map
  cases hstop : n.stop with
  | none => exact ⟨mapThrough_commit p _ h.start, nofun⟩
  | some stop =>
    have hs := fun sb => mapThrough_commit p sb h.start
    have he := mapThrough_commit p .before (h.stop stop hstop).1
    constructor
    · simp only [Anchor.moved]
      rcases Nat.le_total (mapThrough n.start.offset
        (if n.start.offset = stop.offset then Bias.before else Bias.after) p.sequence).1
        (mapThrough stop.offset .before p.sequence).1 with hle | hle
      · rw [min_eq_left hle]
        exact hs _
      · rw [Nat.min_eq_right hle]
        exact he
    · intro z hz
      cases hz
      exact ⟨he, min_le_right _ _⟩

theorem Selection.Valid.map {s : Selection} (h : s.Valid t) (p : Prepared t) (bias : Bias) :
    (s.map p.sequence bias).Valid (t.commit p) :=
  ⟨mapThrough_commit p bias h.anchor, mapThrough_commit p bias h.head⟩

namespace Buffer

variable {b : Buffer} {o line start : Nat} {t : Text}

theorem anchor_valid (h : ∀ n ∈ b.anchors, n.Valid b.text) {name : String} {n : NamedAnchor}
    (hn : b.anchor name = some n) : n.Valid b.text :=
  h n (List.mem_of_find?_eq_some hn)

theorem lineColOffset_boundary {col : Nat} (h : t.lineColOffset line col = some o) :
    t.isCharBoundary o = true := by
  unfold Text.lineColOffset at h
  cases hstart : t.lineStart line with
  | none => simp [hstart] at h
  | some =>
    have hb := lineStart_boundary hstart
    obtain ⟨_, hstop, hle, hb', -⟩ := lineEnd_spec hstart
    simp only [hstart, hstop, Option.bind_eq_bind, Option.bind_some] at h
    split at h
    · cases h
    split at h
    · rw [← Option.some.inj h]
      exact boundary_of_seg hb' hle (boundary_take_words (coded_seg t.valid hb hb' hle) _)
    · cases h

theorem resolvePos_boundary (h : ∀ n ∈ b.anchors, n.Valid b.text) {p : PosSpec} (hp : b.resolvePos p = .ok o) :
    b.text.isCharBoundary o = true := by
  cases p with
  | offset =>
    obtain ⟨rfl, hb⟩ := checkOffset_ok hp
    exact hb
  | named n =>
    cases n with
    | atStart =>
      cases hp
      exact boundary_zero b.text.valid
    | atEnd =>
      cases hp
      exact boundary_length _
  | lineCol =>
    obtain ⟨_, -, hp⟩ := bind_eq_ok.mp hp
    dsimp only at hp
    split at hp
    · next hx =>
      cases hp
      exact lineColOffset_boundary hx
    · cases hp
  | anchor =>
    simp only [resolvePos] at hp
    split at hp
    · next hn =>
      cases hp
      exact (anchor_valid h hn).start
    · cases hp

theorem resolveRange_boundary (h : ∀ n ∈ b.anchors, n.Valid b.text) {spec : RangeSpec} {r : Range}
    (hr : b.resolveRange spec = .ok r) : r.start ≤ r.stop ∧
      b.text.isCharBoundary r.start = true ∧ b.text.isCharBoundary r.stop = true := by
  cases spec with
  | offsets =>
    obtain ⟨x, hx, hr⟩ := bind_eq_ok.mp hr
    obtain ⟨y, hy, hr⟩ := bind_eq_ok.mp hr
    obtain ⟨rfl, hle⟩ := ordered_ok hr
    obtain ⟨rfl, hs⟩ := checkOffset_ok hx
    obtain ⟨rfl, he⟩ := checkOffset_ok hy
    exact ⟨hle, hs, he⟩
  | span =>
    obtain ⟨x, hx, hr⟩ := bind_eq_ok.mp hr
    obtain ⟨y, hy, hr⟩ := bind_eq_ok.mp hr
    obtain ⟨rfl, hle⟩ := ordered_ok hr
    exact ⟨hle, resolvePos_boundary h hx, resolvePos_boundary h hy⟩
  | lines a z =>
    obtain ⟨_, ha, hr⟩ := bind_eq_ok.mp hr
    obtain ⟨_, hz, hr⟩ := bind_eq_ok.mp hr
    split at hr
    · cases hr
    next haz =>
    cases hr
    -- the check of the first line leaves a start for it
    obtain ⟨first, hfirst⟩ : ∃ first, b.text.lineStart a = some first := by
      unfold checkLine at ha
      split at ha
      · cases ha
      · next hno => exact exists_lineStart hno
    have hb := lineStart_boundary hfirst
    rw [hfirst]
    cases hlast : b.text.lineStart (z + 1) with
    | none => exact ⟨boundary_le hb, hb, boundary_length _⟩
    | some =>
      exact ⟨(lineStart_lt hfirst hlast (by omega)).le, hb, lineStart_boundary hlast⟩
  | anchor =>
    simp only [resolveRange] at hr
    split at hr
    · next n hn =>
      cases hr
      have hv := anchor_valid h hn
      cases hstop : n.stop with
      | none => exact ⟨by simp, hv.start, by simpa using hv.start⟩
      | some stop =>
        have := hv.stop stop hstop
        exact ⟨by simpa using this.2, hv.start, by simpa using this.1⟩
    · cases hr
  | all =>
    cases hr
    exact ⟨Nat.zero_le _, boundary_zero b.text.valid, boundary_length _⟩

theorem placeCursor_boundary (h : PointsOk b) (p : Prepared b.text) {sim : Simulation}
    (hsim : b.text.simulate p.sequence = .ok sim) {c : Commit}
    (hc : b.placeCursor c p.sequence sim.finalLines = .ok (some o)) :
    (b.text.commit p).isCharBoundary o = true := by
  unfold placeCursor at hc
  split at hc
  · cases hc
  obtain ⟨x, hx, hc⟩ := bind_eq_ok.mp hc
  split at hc
  · cases hc
  · cases hc
    rw [resolvePost_iff { b with
      text := b.text.commit p, anchors := b.anchors.map fun a => a.map p.sequence (b.rev + 1) }
      p hsim rfl rfl] at hx
    refine resolvePos_boundary (forall_mem_map.mpr fun n hn => ?_) hx
    exact (h.anchors n hn).map p _

theorem anchorOf_valid (h : PointsOk b) {name : String} {spec : AnchorSpec} {n : NamedAnchor}
    (hn : b.anchorOf name spec = .ok n) : n.Valid b.text := by
  unfold anchorOf at hn
  split at hn
  · obtain ⟨o, ho, hn⟩ := bind_eq_ok.mp hn
    cases hn
    exact ⟨resolvePos_boundary h.anchors ho, nofun⟩
  · obtain ⟨r, hr, hn⟩ := bind_eq_ok.mp hn
    cases hn
    obtain ⟨hle, h₁, h₂⟩ := resolveRange_boundary h.anchors hr
    constructor
    · exact h₁
    · intro z hz
      cases hz
      exact ⟨h₂, hle⟩
  · cases hn

theorem mem_replaceAnchor {n x : NamedAnchor} {l : List NamedAnchor}
    (h : x ∈ replaceAnchor n l) : x = n ∨ x ∈ l := by
  induction l with
  | nil => cases h
  | cons a rest ih =>
    rw [replaceAnchor] at h
    split at h
    · rcases mem_cons.mp h with h | h
      · exact .inl h
      · exact .inr (mem_cons_of_mem _ h)
    · rcases mem_cons.mp h with rfl | h
      · exact .inr mem_cons_self
      · exact (ih h).imp id (mem_cons_of_mem _)

end Buffer

open Buffer

/-- A commit maps every point to a valid one and places the cursor on a valid one. -/
theorem PointsOk.record (h : PointsOk b) {c : Commit} {deleted : List Str} {p : Prepared b.text}
    {cursor : Option Nat}
    (hcursor : ∀ o, cursor = some o → (b.text.commit p).isCharBoundary o = true) :
    PointsOk (b.record c deleted p cursor).1 := by
  have hmapped : ∀ (o : Origin) (sels : List Selection),
      (b.selections.map fun o' l => l.map fun s => s.map p.sequence (selectionBias o' c.origin))[o]? =
        some sels → ∀ s ∈ sels, s.Valid (b.text.commit p) := by
    intro o sels hsels s hs
    rw [Std.ExtTreeMap.getElem?_map] at hsels
    obtain ⟨old, hold, rfl⟩ := Option.map_eq_some_iff.mp hsels
    obtain ⟨s₀, hs₀, rfl⟩ := mem_map.mp hs
    exact (h.selections o old hold s₀ hs₀).map p _
  constructor
  · exact forall_mem_map.mpr fun n hn => (h.anchors n hn).map p _
  · cases cursor with
    | none => exact hmapped
    | some x =>
      intro o sels hsels s hs
      simp only [Buffer.record, Std.ExtTreeMap.getElem?_insert] at hsels
      split at hsels
      · cases hsels
        rw [mem_singleton.mp hs]
        exact ⟨hcursor x rfl, hcursor x rfl⟩
      · exact hmapped o sels hsels s hs

theorem PointsOk.commitTxn (h : PointsOk b) {items : List Resolved} {c : Commit}
    {r : Buffer × Applied} (hc : b.commitTxn items c = .ok r) : PointsOk r.1 := by
  obtain ⟨_, p, _, hsim, hcursor, hprep, rfl⟩ := commitTxn_ok hc
  apply h.record
  rintro o rfl
  rw [← Text.prepare_ok hprep] at hsim hcursor
  exact placeCursor_boundary h p hsim hcursor

theorem PointsOk.pointCall {b' : Buffer} (h : PointsOk b) (hp : PointCall b b') : PointsOk b' := by
  cases hp with
  | setSelections hok =>
    obtain ⟨hall, rfl | rfl⟩ := setSelections_ok hok
    · refine ⟨h.anchors, ?_⟩
      intro o sels hsels
      rw [Std.ExtTreeMap.getElem?_erase] at hsels
      split at hsels
      · cases hsels
      · exact h.selections o sels hsels
    · refine ⟨h.anchors, ?_⟩
      intro o sels hsels
      rw [Std.ExtTreeMap.getElem?_insert] at hsels
      split at hsels
      · cases hsels
        intro s hs
        obtain ⟨⟨x, hx⟩, y, hy⟩ := hall s hs
        exact ⟨(checkOffset_ok hx).2, (checkOffset_ok hy).2⟩
      · exact h.selections o sels hsels
  | anchorSet hok =>
    obtain ⟨n, hn, rfl | rfl⟩ := anchorSet_ok hok
    · refine ⟨?_, h.selections⟩
      intro x hx
      rcases mem_replaceAnchor hx with rfl | hx
      · exact anchorOf_valid h hn
      · exact h.anchors x hx
    · exact ⟨forall_mem_append.mpr ⟨h.anchors, forall_mem_singleton.mpr
        (anchorOf_valid h hn)⟩, h.selections⟩
  | anchorClear =>
    refine ⟨?_, h.selections⟩
    intro x hx
    exact h.anchors x (mem_filter.mp hx).1
  | markSaved => exact ⟨h.anchors, h.selections⟩

theorem PointsOk.step (h : PointsOk b) (r : Request) : PointsOk (b.step r) := by
  rcases step_cases b r with hsame | hpoint | ⟨items, c, a, -, hcommit⟩
  · rwa [hsame]
  · exact h.pointCall hpoint
  · exact h.commitTxn hcommit

theorem PointsOk.withText (t : Text) : PointsOk (Buffer.withText t) := by
  refine ⟨nofun, fun o sels hsels => ?_⟩
  simp [Buffer.withText] at hsels

theorem PointsOk.run (t : Text) (rs : List Request) : PointsOk ((Buffer.withText t).run rs) :=
  Buffer.run_induction _ (PointsOk.withText t) (fun _ r h => h.step r) rs

/-- In every reachable buffer anchors and selections are valid; mapping keeps the order of points
with bias before, and with bias after exactly when no step replaces a range from the first to beyond
the second. -/
theorem run_points_valid (t : Text) (rs : List Request) :
    let b := (Buffer.withText t).run rs
    (∀ n ∈ b.anchors, (n.start.offset ≤ b.len ∧ b.text.isCharBoundary n.start.offset = true) ∧
        ∀ z, n.stop = some z → (z.offset ≤ b.len ∧ b.text.isCharBoundary z.offset = true) ∧
          n.start.offset ≤ z.offset) ∧
      (∀ (o : Origin) (sels : List Selection), b.selections[o]? = some sels → ∀ s ∈ sels,
        (s.anchor ≤ b.len ∧ b.text.isCharBoundary s.anchor = true) ∧
          (s.head ≤ b.len ∧ b.text.isCharBoundary s.head = true)) ∧
      ∀ items c b' applied, b.commitTxn items c = .ok (b', applied) → ∀ a z, a ≤ z →
        (mapThrough a .before applied.edits).1 ≤ (mapThrough z .before applied.edits).1 ∧
          ((mapThrough a .after applied.edits).1 ≤ (mapThrough z .after applied.edits).1 ↔
            ∀ e ∈ applied.edits, ¬ SwallowsAt e a z) := by
  intro b
  have h : PointsOk b := PointsOk.run t rs
  have hle : ∀ {o : Nat}, b.text.isCharBoundary o = true →
      o ≤ b.len ∧ b.text.isCharBoundary o = true := by
    intro o ho
    exact ⟨boundary_le ho, ho⟩
  refine ⟨?_, ?_, ?_⟩
  · intro n hn
    refine ⟨hle (h.anchors n hn).start, ?_⟩
    intro z hz
    obtain ⟨h₁, h₂⟩ := (h.anchors n hn).stop z hz
    exact ⟨hle h₁, h₂⟩
  · intro o sels hsels s hs
    have hv := h.selections o sels hsels s hs
    exact ⟨hle hv.anchor, hle hv.head⟩
  · intro items c b' applied hc a z haz
    obtain ⟨_, p, _, -, -, -, hr⟩ := commitTxn_ok hc
    have hedits : applied.edits = p.sequence := congrArg (fun r => r.2.edits) hr
    rw [hedits]
    exact ⟨mapThrough_before_mono haz _, mapThrough_after_mono_iff p.admissible.1 haz⟩

/-- A point before two replaced characters goes after the new text, one between them before it. -/
theorem replace_crosses_after_points : (do
      let t ← Text.fromText (Str.ofChars ['a', 'b', 'c'])
      let r ← (Buffer.withText t).apply
        ⟨[.replace (.offsets 0 2) (Str.ofChars ['x', 'y'])], .latest, false, none, none⟩
        ⟨.agent, "a"⟩ ⟨none, "local", none, none⟩ 0
      pure ((mapThrough 0 .after r.2.edits).1, (mapThrough 1 .after r.2.edits).1) :
      Except CoreError (Nat × Nat)).toOption = some (2, 0) := by
  decide +kernel

end Cosmix.EditCore
