/- source: cosmix-edit-core/src/buffer.rs, ot.rs
   digest: A rebased range is on char boundaries exactly when it was at its base, over the same bytes. -/

import Cosmix.EditCore.Inverse
import Cosmix.EditCore.Rebase

namespace Cosmix.EditCore

open Cosmix.Lib.Weave List
open Cosmix.Lib.Coding

/-- What stands in a range, and whether its ends cut a character. -/
structure SameIn (u v : List UInt8) (r r' : Range) : Prop where
  low : boundary utf8 v r'.start = boundary utf8 u r.start
  high : boundary utf8 v r'.stop = boundary utf8 u r.stop
  bytes : seg v r'.start r'.stop = seg u r.start r.stop
  inside : r'.stop ≤ v.length
  proper : r'.start ≤ r'.stop

variable {u : List UInt8} {e : Edit} {r r' : Range} {es fs : List Edit}

theorem transformRaw_same (hu : Coded utf8 u) (h₁ : boundary utf8 u e.offset = true)
    (h₂ : boundary utf8 u (e.offset + e.delete) = true) (hr : r.start ≤ r.stop)
    (hin : r.stop ≤ u.length) {left : Bool}
    (h : transformRaw r (RawEdit.of e) .throughFirst = some (r', left)) :
    SameIn u (splice u e.item) r r' := by
  have hstop : e.item.stop ≤ u.length := boundary_le h₂
  have hspan : e.item.start ≤ e.item.stop := Nat.le_add_right _ _
  have hsize : e.item.stop - e.item.start = e.delete := Nat.add_sub_cancel_left _ _
  have hlen := length_splice (boundary_le h₂)
  have hproper := (transformRaw_size hr h).1
  rw [transformRaw_throughFirst hr] at h
  split_ifs at h with hleft hright
  · cases h
    have hlow := boundary_splice_right (C := utf8) hspan hstop hleft
    have hhigh := boundary_splice_right (C := utf8) hspan hstop (hleft.trans hr)
    have hbytes := seg_splice_right hstop hspan hleft hr
    rw [hsize] at hlow hhigh hbytes
    refine ⟨hlow, hhigh, hbytes, ?_, hproper⟩
    dsimp only [RawEdit.of]
    omega
  · cases h
    have hright : r.stop ≤ e.offset := hright
    have hkept : r.stop ≤ (splice u e.item).length := by
      have : e.offset + e.delete ≤ u.length := hstop
      omega
    exact ⟨boundary_splice_left hu h₁ h₂ e.insert.valid (hr.trans hright),
      boundary_splice_left hu h₁ h₂ e.insert.valid hright,
      seg_splice_left hstop hspan hright, hkept, hr⟩

theorem transformThrough_same (hu : Coded utf8 u) (hes : OnBoundaries u es) (hr : r.start ≤ r.stop)
    (hin : r.stop ≤ u.length) (h : transformThrough r (es.map RawEdit.of) .throughFirst = some r') :
    SameIn u (applySeq u es) r r' := by
  induction es generalizing u r with
  | nil =>
    cases h
    exact ⟨rfl, rfl, rfl, hin, hr⟩
  | cons e es ih =>
    obtain ⟨h₁, h₂, hes⟩ := hes
    obtain ⟨_, _, hraw, hrest⟩ := transformThrough_cons h
    have hmid := transformRaw_same hu h₁ h₂ hr hin hraw
    have hend := ih (coded_splice hu h₁ h₂ e.insert.valid) hes hmid.proper hmid.inside hrest
    exact ⟨hend.low.trans hmid.low, hend.high.trans hmid.high, hend.bytes.trans hmid.bytes,
      hend.inside, hend.proper⟩

theorem foldl_sizes (hes : OnBoundaries u es) (n : Int) :
    es.foldl (fun (n : Int) e => n + ((e.delete : Int) - (e.insert.len : Int))) n =
      n + u.length - (applySeq u es).length := by
  induction es generalizing u n with
  | nil => simp [applySeq]
  | cons e es ih =>
    obtain ⟨-, h₂, hes⟩ := hes
    have hstop := boundary_le h₂
    have hlen := length_splice hstop
    have hrest := ih hes (n + ((e.delete : Int) - (e.insert.len : Int)))
    rw [foldl_cons, hrest, show applySeq u (e :: es) = applySeq (splice u e.item) es from rfl]
    omega

section

variable {texts : Nat → List UInt8} {b : Buffer} {base : Nat}

theorem Leads.trail {G : List LogEntry} {n : Nat} (h : Leads texts G)
    (hrevs : G.map LogEntry.rev = range' (n + 1) G.length) :
    OnBoundaries (texts n) (G.flatMap LogEntry.edits) ∧
      applySeq (texts n) (G.flatMap LogEntry.edits) = texts (n + G.length) := by
  induction G generalizing n with
  | nil => exact ⟨trivial, rfl⟩
  | cons e G ih =>
    obtain ⟨he, hrest⟩ := cons.inj hrevs
    obtain ⟨hcoded, hfaith, hnext⟩ := h e mem_cons_self
    rw [he, Nat.add_sub_cancel] at hcoded hfaith hnext
    obtain ⟨htrail, hend⟩ := ih (fun x hx => h x (mem_cons_of_mem _ hx)) hrest
    rw [hnext] at htrail hend
    rw [flatMap_cons, length_cons, add_comm G.length, ← add_assoc, ← hend, onBoundaries_append]
    exact ⟨⟨onBoundaries_of_chain hcoded hfaith.chain hfaith.bounds, htrail⟩, foldl_append⟩

variable (hrec : Recorded texts b) (hlog : LogOk b) (hold : b.oldestRev ≤ base)
  (hnew : base ≤ b.rev)
include hrec hlog hold hnew

theorem Recorded.trail : OnBoundaries (texts base) ((b.log.after base).flatMap LogEntry.edits) ∧
      applySeq (texts base) ((b.log.after base).flatMap LogEntry.edits) = b.text.bytes := by
  have hold : b.log.base ≤ base := hold
  have hrevs := revs_drop hlog.revs (base - b.log.base)
  rw [Nat.add_sub_cancel' hold] at hrevs
  have hend : base + (b.log.entries.drop (base - b.log.base)).length = b.rev := by
    rw [length_drop]
    have := hlog.top
    omega
  have htrail := (hrec.leads hlog fun e he => mem_of_mem_drop he).trail hrevs
  rwa [hend, hrec.now, ← hlog.after_eq hold] at htrail

theorem histLen_eq : b.histLen base = (texts base).length := by
  obtain ⟨hes, hend⟩ := hrec.trail hlog hold hnew
  rw [Buffer.histLen, foldl_sizes hes, hend, Buffer.len, Text.len]
  omega

/-- A range that overlaps no later edit holds the same bytes now, cut or not as it was. -/
theorem rebaseRange_same (hr : r.start ≤ r.stop) (hin : r.stop ≤ (texts base).length)
    (h : b.rebaseRange base r = .ok r') : SameIn (texts base) b.text.bytes r r' := by
  obtain ⟨hes, hend⟩ := hrec.trail hlog hold hnew
  have hthrough := Buffer.foldlM_transform_ok h
  rw [← map_flatMap] at hthrough
  have hsame := transformThrough_same (hrec.coded base hnew) hes hr hin hthrough
  rwa [hend] at hsame

end

/-- Refused for cutting a character exactly under a condition, and else a success. -/
def CutIff {α : Type} (p : Prop) (x : Except CoreError α) : Prop :=
  (p ∧ ∃ e, x = .error e ∧ e.reason = some .notCharBoundary) ∨ (¬ p ∧ ∃ y, x = .ok y)

section

variable {α β : Type} {p q : Prop} {x : Except CoreError α}

theorem CutIff.ok (y : α) : CutIff False (.ok y) := .inr ⟨id, y, rfl⟩

theorem CutIff.bind {f : α → Except CoreError β} (hx : CutIff p x)
    (hf : ∀ y, x = .ok y → CutIff q (f y)) : CutIff (p ∨ q) (x >>= f) := by
  rcases hx with ⟨hp, e, rfl, he⟩ | ⟨hp, y, rfl⟩
  · exact .inl ⟨.inl hp, e, rfl, he⟩
  · rw [or_iff_right hp]
    exact hf y rfl

theorem CutIff.mapM {f : β → Except CoreError α} {bad : β → Prop} {l : List β}
    (h : ∀ a ∈ l, CutIff (bad a) (f a)) : CutIff (∃ a ∈ l, bad a) (l.mapM f) := by
  induction l with
  | nil =>
    rw [show (∃ a ∈ ([] : List β), bad a) ↔ False by simp]
    exact CutIff.ok []
  | cons a l ih =>
    obtain ⟨ha, hl⟩ := forall_mem_cons.mp h
    rw [exists_mem_cons_iff, ← or_false (∃ x ∈ l, bad x), mapM_cons]
    exact ha.bind fun c _ => (ih hl).bind fun cs _ => CutIff.ok (c :: cs)

end

namespace Buffer

variable {b : Buffer}

/-- One of the item's ends is inside a character. -/
def Cuts (u : List UInt8) (x : Resolved) : Prop :=
  boundary utf8 u x.s = false ∨ boundary utf8 u x.e = false

theorem checkOffset_cut {o : Nat} (ho : o ≤ b.len) :
    CutIff (boundary utf8 b.text.bytes o = false) (b.checkOffset o) := by
  unfold checkOffset
  rw [if_neg (by omega), Text.isCharBoundary]
  cases boundary utf8 b.text.bytes o with
  | false => exact .inl ⟨rfl, _, rfl, rfl⟩
  | true => exact .inr ⟨by decide, o, rfl⟩

theorem rebaseItem_cut {u : List UInt8} {base : Nat} {x : Resolved}
    (h : b.rebaseRange base x.range = .ok r') (hsame : SameIn u b.text.bytes x.range r') :
    CutIff (Cuts u x) (b.rebaseItem base x) := by
  have hchecks := (checkOffset_cut (hsame.proper.trans hsame.inside)).bind fun _ _ =>
    (checkOffset_cut hsame.inside).bind fun _ _ =>
      CutIff.ok ({ x with s := r'.start, e := r'.stop } : Resolved)
  rw [or_false, hsame.low, hsame.high] at hchecks
  rw [rebaseItem, h]
  exact hchecks

theorem resolveOp_cut {op : OpSpec} (hop : offsetsOnly op = true) (idx : Nat)
    (hle : (offsetOp op).1.start ≤ (offsetOp op).1.stop) (hin : (offsetOp op).1.stop ≤ b.len) :
    CutIff (Cuts b.text.bytes (requestedItem (op, idx))) (do
      let (r, text) ← b.resolveOp op
      Except.ok (⟨r.start, r.stop, text, idx⟩ : Resolved)) := by
  -- a range is checked at both ends before it is found to be in order
  have hrange : ∀ {s e : Nat}, s ≤ e → e ≤ b.len →
      CutIff (boundary utf8 b.text.bytes s = false ∨ boundary utf8 b.text.bytes e = false)
        (b.resolveRange (.offsets s e)) := by
    intro s e hse he
    rw [← or_false (boundary utf8 b.text.bytes e = false)]
    refine (checkOffset_cut (hse.trans he)).bind fun s' hs' => (checkOffset_cut he).bind fun e' he' => ?_
    rw [(checkOffset_ok hs').1, (checkOffset_ok he').1, ordered, if_neg (by omega)]
    exact CutIff.ok _
  match op, hop with
  | .insert (.offset p) text, _ =>
    have := ((checkOffset_cut hin).bind fun p _ => CutIff.ok ((⟨p, p⟩ : Range), text)).bind
      fun found _ => CutIff.ok (⟨found.1.start, found.1.stop, found.2, idx⟩ : Resolved)
    rw [or_false, or_false, ← or_self (_ = false)] at this
    exact this
  | .delete (.offsets s e), _ =>
    have := ((hrange hle hin).bind fun r _ => CutIff.ok (r, Str.empty)).bind
      fun found _ => CutIff.ok (⟨found.1.start, found.1.stop, found.2, idx⟩ : Resolved)
    rw [or_false, or_false] at this
    exact this
  | .replace (.offsets s e) text, _ =>
    have := ((hrange hle hin).bind fun r _ => CutIff.ok (r, text)).bind
      fun found _ => CutIff.ok (⟨found.1.start, found.1.stop, found.2, idx⟩ : Resolved)
    rw [or_false, or_false] at this
    exact this

variable {items : List Resolved}

theorem checkOverlap_of_clear (hp : ∀ x ∈ items, x.s ≤ x.e)
    (hc : items.Pairwise fun x y => Clear x.range y.range) : checkOverlap items = .ok () := by
  have hnone : firstOverlap (items.map Resolved.range) = none :=
    (firstOverlap_eq_none (forall_mem_map.mpr hp)).mpr (pairwise_map.mpr hc)
  rw [checkOverlap, hnone]

theorem read_bytes {x : Resolved} (hle : x.s ≤ x.e) (hs : b.checkOffset x.s = .ok x.s)
    (he : b.checkOffset x.e = .ok x.e) :
    (b.text.read x.range).bytes = seg b.text.bytes x.s x.e := by
  rw [Text.read, dif_pos ⟨(checkOffset_ok hs).2, (checkOffset_ok he).2, hle⟩]
  rfl

section

variable {texts : Nat → List UInt8} {base : Nat} {req : TxnRequest}
  (hrec : Recorded texts b) (hlog : LogOk b) (hold : b.oldestRev ≤ base) (hnew : base ≤ b.rev)
  (hin : ∀ x ∈ requested req.ops, x.s ≤ x.e ∧ x.e ≤ (texts base).length)
include hrec hlog hold hnew hin

theorem historicOps_requested :
    req.ops.zipIdx.mapM (historicOp (b.histLen base) base) = .ok (requested req.ops) := by
  refine Lib.mapM_ok fun op hop => ?_
  obtain ⟨hle, hend⟩ := hin _ (mem_map_of_mem hop)
  simp only [requestedItem] at hle hend
  rw [historicOp, histLen_eq hrec hlog hold hnew]
  dsimp only
  rw [if_neg (by omega), if_neg (by omega)]
  rfl

variable (hops : ∀ op ∈ req.ops, offsetsOnly op = true)
include hops

theorem resolveItems_cut (hfree : ∀ x ∈ requested req.ops, ∃ r', b.rebaseRange base x.range = .ok r')
    (hclear : (requested req.ops).Pairwise fun x y => Clear x.range y.range) :
    CutIff (∃ x ∈ requested req.ops, Cuts (texts base) x)
      (b.resolveItems req.ops (if base < b.rev then some base else none)) := by
  have hoverlap := checkOverlap_of_clear (fun x hx => (hin x hx).1) hclear
  split_ifs with hlt
  · rw [resolveItems, historicOps_requested hrec hlog hold hnew hin]
    simp only [bind, Except.bind, hoverlap]
    refine CutIff.mapM fun x hx => ?_
    obtain ⟨r', hr'⟩ := hfree x hx
    exact rebaseItem_cut hr' (rebaseRange_same hrec hlog hold hnew (hin x hx).1 (hin x hx).2 hr')
  · have hbase : base = b.rev := by omega
    subst hbase
    rw [hrec.now] at hin ⊢
    have hitems := CutIff.mapM (l := req.ops.zipIdx) fun op hop =>
      resolveOp_cut (b := b) (hops op.1 (fst_mem_of_mem_zipIdx hop)) op.2
        (hin _ (mem_map_of_mem hop)).1 (hin _ (mem_map_of_mem hop)).2
    have hiff : (∃ x ∈ requested req.ops, Cuts b.text.bytes x) ↔
        (∃ op ∈ req.ops.zipIdx, Cuts b.text.bytes (requestedItem (op.1, op.2))) ∨ False := by
      simp [requested]
    rw [hiff]
    refine hitems.bind fun found hfound => ?_
    rw [(resolveOps_requested hops hfound).1, hoverlap]
    exact CutIff.ok _

theorem resolveItems_bytes
    (h : b.resolveItems req.ops (if base < b.rev then some base else none) = .ok items) :
    List.Forall₂ (fun x x' => (b.text.read x'.range).bytes = seg (texts base) x.s x.e)
      (requested req.ops) items := by
  split_ifs at h with hlt
  · rw [resolveItems, historicOps_requested hrec hlog hold hnew hin] at h
    obtain ⟨_, hfound, h⟩ := Lib.bind_eq_ok.mp h
    obtain ⟨-, -, h⟩ := Lib.bind_eq_ok.mp h
    cases hfound
    refine ((forall₂_and_left _ _).mpr ⟨hin, mapM_forall₂ h⟩).imp fun x x' hx => ?_
    obtain ⟨⟨hle, hend⟩, hx⟩ := hx
    obtain ⟨r', hr', hx⟩ := Lib.bind_eq_ok.mp hx
    obtain ⟨s, hs, hx⟩ := Lib.bind_eq_ok.mp hx
    obtain ⟨e, he, hx⟩ := Lib.bind_eq_ok.mp hx
    cases hx
    have hsame := rebaseRange_same hrec hlog hold hnew hle hend hr'
    obtain rfl := (checkOffset_ok hs).1
    obtain rfl := (checkOffset_ok he).1
    exact (read_bytes hsame.proper hs he).trans hsame.bytes
  · have hbase : base = b.rev := by omega
    subst hbase
    obtain ⟨found, hfound, h⟩ := Lib.bind_eq_ok.mp h
    obtain ⟨-, -, h⟩ := Lib.bind_eq_ok.mp h
    cases h
    obtain ⟨heq, hall⟩ := resolveOps_requested hops hfound
    rw [← heq, hrec.now]
    refine forall₂_same.mpr fun x hx => ?_
    obtain ⟨hle, hlands⟩ := hall x hx
    exact read_bytes hle hlands.low hlands.high

/-- A request whose ranges overlap no later edit is refused for cutting a character exactly when it
cuts one at its base; accepted, it removes the bytes that stood there. -/
theorem rebase_boundaries_exact (hcas : req.cas = .baseRev base)
    (hfree : ∀ x ∈ requested req.ops, ∃ r', b.rebaseRange base x.range = .ok r')
    (hclear : (requested req.ops).Pairwise fun x y => Clear x.range y.range) :
    (∀ x ∈ requested req.ops, ∀ r', b.rebaseRange base x.range = .ok r' →
      b.text.isCharBoundary r'.start = boundary utf8 (texts base) x.s ∧
        b.text.isCharBoundary r'.stop = boundary utf8 (texts base) x.e) ∧
      ((∃ e, b.resolveTxn req = .error e ∧ e.reason = some .notCharBoundary) ↔
        ∃ x ∈ requested req.ops, Cuts (texts base) x) ∧ ∀ items, b.resolveTxn req = .ok items →
        List.Forall₂ (fun x x' => (b.text.read x'.range).bytes = seg (texts base) x.s x.e)
          (requested req.ops) items := by
  have hfrom : b.rebaseFrom req.cas = .ok (if base < b.rev then some base else none) := by
    rw [hcas, rebaseFrom, if_neg (by omega), if_neg (by omega)]
  have hall : (req.ops.all offsetsOnly) = true := all_eq_true.mpr hops
  refine ⟨fun x hx r' hr' => ?_, ?_, fun items h => ?_⟩
  · have hsame := rebaseRange_same hrec hlog hold hnew (hin x hx).1 (hin x hx).2 hr'
    exact ⟨hsame.low, hsame.high⟩
  · unfold resolveTxn
    rw [hfrom, hcas]
    simp only [hall, bind, Except.bind]
    rcases resolveItems_cut hrec hlog hold hnew hin hops hfree hclear with
      ⟨hcut, e, he, hreason⟩ | ⟨hcut, items, hitems⟩
    · have hne : req.ops.isEmpty = false := by
        obtain ⟨x, hx, -⟩ := hcut
        cases hreq : req.ops with
        | nil => simp [requested, hreq] at hx
        | cons => rfl
      refine iff_of_true ⟨e, ?_, hreason⟩ hcut
      simp [hne, he]
    · refine iff_of_false ?_ hcut
      rintro ⟨e, he, hreason⟩
      rw [hitems] at he
      dsimp only at he
      split_ifs at he
      all_goals
        cases he
        cases hreason
  · obtain ⟨-, rebase, hrebase, hitems⟩ := resolveTxn_base hcas h
    rw [hfrom] at hrebase
    cases hrebase
    exact resolveItems_bytes hrec hlog hold hnew hin hops hitems

end

end Buffer

private def deletion : TxnRequest := ⟨[.delete (.offsets 0 1)], .baseRev 0, false, none, none⟩

/-- A letter is deleted at its base after another was typed before it. -/
theorem rebase_boundaries_exact_typed : ∃ b texts items, Buffer.resolveTxn b deletion = .ok items ∧
      List.Forall₂ (fun x x' => (b.text.read x'.range).bytes = seg texts x.s x.e)
        (Buffer.requested deletion.ops) items := by
  let t := Text.letters 2 (by decide)
  let rs : List Request := [.apply ⟨[.insert (.offset 0) (Str.ofChars ['A'])], .latest, false, none,
    none⟩ ⟨.agent, "b"⟩ ⟨none, "local", none, none⟩ 0]
  have hfree : ∀ x ∈ Buffer.requested deletion.ops,
      ∃ r', ((Buffer.withText t).run rs).rebaseRange 0 x.range = .ok r' := by
    intro x hx
    rw [mem_singleton.mp hx]
    exact ⟨⟨1, 2⟩, by decide +kernel⟩
  have hok : ((Buffer.withText t).run rs).resolveTxn deletion = .ok [⟨1, 2, Str.empty, 0⟩] := by
    decide +kernel
  have h := Buffer.rebase_boundaries_exact (Recorded.run t rs) (LogOk.run t rs) (by decide +kernel)
    (by decide +kernel) (by decide +kernel) (by decide +kernel) rfl hfree (by decide +kernel)
  exact ⟨_, _, _, hok, h.2.2 _ hok⟩

end Cosmix.EditCore
