/- source: cosmix-edit-core/src/buffer.rs, history.rs
   digest: Undo and redo in one lane walk through its texts exactly, up to the size limits. -/

import Cosmix.EditCore.SingleLane

namespace Cosmix.EditCore

open Cosmix.Lib.Weave List
open Str (ofChars)
open Buffer (sequenceOf deletedOf laneAfter recordIn lane_ok commitTxn_ok withText step_cases
  pickLane undoRedo)
open Cosmix.Lib.Coding

section

variable {texts : Nat → List UInt8} {b : Buffer} {g : Group} {sel : LaneSel} {caller : Origin}
  {redo : Bool}

theorem composeInverse_nav (hlog : LogOk b) (hrec : Recorded texts b) {es : List LogEntry}
    (hlen : es.length = b.rev) (hdrop : b.log.entries = es.drop b.log.base) {S R : List Group}
    (hnav : Nav texts es (S ++ [g]) R) (hbase : b.log.base < g.first) (lane : Origin) :
    ∃ items xs, b.composeInverse g lane = .ok items ∧
      List.Forall₂ (Restores b.text.bytes) items xs ∧
      TakesBack (texts (g.first - 1)) b.text.bytes xs := by
  obtain ⟨es₀, G, B, hes, -, hG, hB, htext, hg⟩ := hnav.left.top
  have hpos := length_pos_iff.mpr hG.ne_nil
  have hfirst : g.first = es₀.length + 1 := by rw [hg]
  have hlast : g.last = es₀.length + G.length := by rw [hg, length_append]
  have hsum := congrArg List.length hes
  simp only [length_append] at hsum
  have hgroup : b.groupEntries g = G := by
    rw [hlog.groupEntries_eq hbase, hdrop, drop_drop, hes,
      show b.log.base + (g.first - 1 - b.log.base) = es₀.length by omega, drop_left,
      show g.last + 1 - g.first = G.length by omega, take_left]
  have hrest : b.log.after g.last = B := by
    rw [hlog.after_eq (by omega), hdrop, drop_drop, hes,
      show b.log.base + (g.last - b.log.base) = es₀.length + G.length by omega,
      ← append_assoc, drop_left' (by rw [length_append])]
  apply composeInverse_plain hlog hrec hbase
  · omega
  · omega
  · rw [hgroup]
    exact hG
  · rw [Buffer.reducedAfter, hrest]
    exact foldl_balanced hB (by simp)
  · rw [← hrec.now, ← hlen, htext, hg]

variable {items : List Resolved}

theorem commitTxn_tooLarge {c : Commit} (hadm : Admissible b.text (sequenceOf items))
    (hbig : maxBufferBytes < peakOf List.length b.text.bytes (sequenceOf items)) :
    b.commitTxn items c =
      .error (tooLarge (peakOf List.length b.text.bytes (sequenceOf items))) := by
  have hsim := Text.simulate_admissible hadm
  rw [if_pos hbig] at hsim
  unfold Buffer.commitTxn
  simp only [hsim]
  rfl

/-- A canonical sequence without a cursor commits, or meets one of the two limits on its way. -/
theorem commitTxn_admissible {c : Commit} (hcursor : c.cursor = none)
    (hadm : Admissible b.text (sequenceOf items)) : (∃ r, b.commitTxn items c = .ok r ∧
        r.1.text.bytes = applySeq b.text.bytes (sequenceOf items)) ∨
      (maxBufferBytes < peakOf List.length b.text.bytes (sequenceOf items) ∧ b.commitTxn items c =
          .error (tooLarge (peakOf List.length b.text.bytes (sequenceOf items)))) ∨
      (maxLines < peakOf lineTotal b.text.bytes (sequenceOf items) ∧ b.commitTxn items c =
          .error (tooManyLines (peakOf lineTotal b.text.bytes (sequenceOf items)))) := by
  have hcommit : b.commitTxn items c = (do
      let sim ← b.text.simulate (sequenceOf items)
      let cursor ← b.placeCursor c (sequenceOf items) sim.finalLines
      let prepared ← b.text.prepare (sequenceOf items)
      .ok (b.record c (deletedOf b.text items) prepared cursor)) := rfl
  have hsim := Text.simulate_admissible hadm
  by_cases hbig : peakOf List.length b.text.bytes (sequenceOf items) > maxBufferBytes
  · exact .inr (.inl ⟨hbig, commitTxn_tooLarge hadm hbig⟩)
  rw [if_neg hbig] at hsim
  by_cases hmany : peakOf lineTotal b.text.bytes (sequenceOf items) > maxLines
  · rw [if_pos hmany] at hsim
    refine .inr (.inr ⟨hmany, ?_⟩)
    rw [hcommit, hsim]
    rfl
  rw [if_neg hmany] at hsim
  obtain ⟨p, hp⟩ := Text.prepare_of_simulate hsim
  have hplace : ∀ n, b.placeCursor c (sequenceOf items) n = .ok none := by
    intro n
    rw [Buffer.placeCursor, hcursor]
  refine .inl ⟨b.record c (deletedOf b.text items) p none, ?_, ?_⟩
  · rw [hcommit, hsim]
    show (do
      let cursor ← b.placeCursor c (sequenceOf items) _
      let prepared ← b.text.prepare (sequenceOf items)
      Except.ok (b.record c (deletedOf b.text items) prepared cursor)) = _
    rw [hplace, hp]
    rfl
  · show applySeq b.text.bytes p.sequence = _
    rw [Text.prepare_ok hp]

theorem pickLane_ok {lane : Origin} (h : b.pickLane sel caller redo = .ok lane) :
    b.laneFor sel caller redo = lane ∧ ∃ g, b.top lane redo = some g := by
  simp only [pickLane] at h
  by_cases htop : (b.top (b.laneFor sel caller redo) redo).isSome = true
  · rw [if_pos htop] at h
    cases h
    exact ⟨rfl, Option.isSome_iff_exists.mp htop⟩
  · rw [if_neg htop] at h
    cases h

theorem undoPlan_ok {lane : Origin} {resolved : List Resolved}
    (h : b.undoPlan sel caller redo = .ok (lane, g, resolved)) :
    b.laneFor sel caller redo = lane ∧ b.top lane redo = some g ∧
      ∃ items, b.composeInverse g lane = .ok items ∧ resolved = resolvedOf items := by
  obtain ⟨_, hlane, h⟩ := Lib.bind_eq_ok.mp h
  obtain ⟨items, hitems, h⟩ := Lib.bind_eq_ok.mp h
  cases h
  obtain ⟨hfor, g, hg⟩ := pickLane_ok hlane
  rw [hg] at hitems ⊢
  exact ⟨hfor, rfl, items, hitems, rfl⟩

variable {items : List UndoItem}

theorem undoPlan_of_top (hg : b.top (b.laneFor sel caller redo) redo = some g)
    (hitems : b.composeInverse g (b.laneFor sel caller redo) = .ok items) :
    b.undoPlan sel caller redo = .ok (b.laneFor sel caller redo, g, resolvedOf items) := by
  have hpick : b.pickLane sel caller redo = .ok (b.laneFor sel caller redo) := by
    simp only [pickLane]
    rw [if_pos (by rw [hg]; rfl)]
  unfold Buffer.undoPlan
  rw [hpick]
  show (do
    let items ← b.composeInverse ((b.top (b.laneFor sel caller redo) redo).getD ⟨0, 0⟩)
      (b.laneFor sel caller redo)
    Except.ok (_, _, resolvedOf items)) = _
  rw [hg, Option.getD_some, hitems]
  rfl

theorem plan_applies {xs : List (Item UInt8)} {t : List UInt8}
    (hitems : List.Forall₂ (Restores b.text.bytes) items xs) (hback : TakesBack t b.text.bytes xs) :
    Admissible b.text (sequenceOf (resolvedOf items)) ∧
      applySeq b.text.bytes (sequenceOf (resolvedOf items)) = t := by
  have hseq := sequenceOf_resolvedOf hitems hback.chain
  have hchain : Chain 0 b.text.len
      ((sequenceOf (resolvedOf items)).map Edit.item).reverse := by
    rw [hseq]
    exact hback.chain
  refine ⟨⟨hchain, ?_⟩, ?_⟩
  · intro e he
    have hmem : e.item ∈ xs := by
      rw [← hseq]
      exact mem_reverse.mpr (mem_map_of_mem he)
    exact hback.bounds e.item hmem
  · rw [applySeq_eq_weave hchain, hseq]
    exact hback.back

end

/-- The stacks of a lane nest over the whole history, of which the log retains the end. -/
def Navigable (texts : Nat → List UInt8) (o : Origin) (b : Buffer) : Prop :=
  ∃ es : List LogEntry, es.length = b.rev ∧ b.log.entries = es.drop b.log.base ∧
    Nav texts es (b.log.lane o).undo (b.log.lane o).redo

variable {b : Buffer}

theorem LogOk.record_lane (h : LogOk b) (c : Commit) (deleted : List Str) (p : Prepared b.text)
    (cursor : Option Nat) : ∃ k ≤ b.log.entries.length + 1,
      (b.record c deleted p cursor).1.log.entries =
        (b.log.entries ++ [b.entryOf c deleted p.sequence]).drop k ∧
      (b.record c deleted p cursor).1.log.base = b.log.base + k ∧
      ∀ o, ∃ l, l = (if c.lane = o then b.laneAfter c p.sequence else b.log.lane o) ∧
        ((b.record c deleted p cursor).1.log.lane o = l ∨
          (b.record c deleted p cursor).1.log.lane o = OpLog.retainGroups (b.log.base + k) l) := by
  obtain ⟨k, hk, _, rfl, hentries, hbase, -, -, -, hlanes⟩ := h.record_log c deleted p cursor
  refine ⟨k, hk, hentries, hbase, ?_⟩
  intro o
  refine ⟨_, rfl, ?_⟩
  have hinsert : ((b.log.lanes.insert c.lane (b.laneAfter c p.sequence))[o]?).getD Lane.empty =
      if c.lane = o then b.laneAfter c p.sequence else b.log.lane o := by
    simp only [Std.ExtTreeMap.getElem?_insert, Std.LawfulEqCmp.compare_eq_iff_eq]
    split <;> rfl
  rw [OpLog.lane, hlanes, ← hinsert]
  by_cases hzero : k = 0
  · rw [if_pos hzero]
    exact .inl rfl
  rw [if_neg hzero, Std.ExtTreeMap.getElem?_filter', Std.ExtTreeMap.getElem?_map, hbase]
  refine .inr ?_
  cases (b.log.lanes.insert c.lane (b.laneAfter c p.sequence))[o]? with
  | none => rfl
  | some l =>
    simp only [Option.map_some]
    by_cases hkeep : (!(OpLog.retainGroups (b.log.base + k) l).undo.isEmpty ||
        !(OpLog.retainGroups (b.log.base + k) l).redo.isEmpty) = true
    · rw [Option.filter_some, if_pos hkeep]
      rfl
    -- a lane with nothing left is removed
    rw [Option.filter_some, if_neg hkeep]
    simp only [Bool.or_eq_true, Bool.not_eq_true', not_or, Bool.not_eq_false,
      List.isEmpty_iff] at hkeep
    exact congrArg₂ Lane.mk hkeep.1.symm hkeep.2.symm

section

variable {texts : Nat → List UInt8} {o : Origin} {b : Buffer} {c : Commit} {deleted : List Str}
  {seq : List Edit} {es : List LogEntry}

theorem rev_entryOf (hlen : es.length = b.rev) : (b.entryOf c deleted seq).rev = es.length + 1 :=
  congrArg (· + 1) hlen.symm

theorem target_of_plain (hkind : c.kind = .edit ∨ c.kind = .reload) : c.kind.target = none := by
  rcases hkind with h | h <;> rw [h] <;> rfl

theorem nav_edit (hlen : es.length = b.rev) (hdrop : b.log.entries = es.drop b.log.base)
    (hnav : Nav texts es (b.log.lane c.lane).undo (b.log.lane c.lane).redo)
    (hkind : c.kind = .edit ∨ c.kind = .reload) (hlead : Leads texts [b.entryOf c deleted seq]) :
    Nav texts (es ++ [b.entryOf c deleted seq]) (b.laneAfter c seq).undo
      (b.laneAfter c seq).redo := by
  have htarget : (b.entryOf c deleted seq).kind.target = none := target_of_plain hkind
  by_cases hco : b.coalesces c seq = true
  · obtain ⟨hck, u, g, prev, x, y, hu, hlast, hprev, -, -, hx, hy, hxy⟩ :=
      Buffer.coalesces_spec hco
    have hlane : b.laneAfter c seq = ⟨u ++ [⟨g.first, b.rev + 1⟩], []⟩ := by
      simp only [laneAfter, recordIn, hck, hco, hu, getLast?_concat, dropLast_concat]
    have hprev' : es.getLast? = some prev := by
      rw [hdrop, getLast?_drop] at hprev
      split at hprev
      · cases hprev
      · exact hprev
    rw [hlane, ← hlen]
    rw [hu] at hnav
    exact hnav.coalesce (hlast.trans hlen.symm) hprev' hx hy hxy (rev_entryOf hlen) hlead htarget
  · have hlane : b.laneAfter c seq =
        ⟨(b.log.lane c.lane).undo ++ [⟨b.rev + 1, b.rev + 1⟩], []⟩ := by
      rw [Bool.not_eq_true] at hco
      unfold laneAfter
      rw [hco]
      rcases hkind with h | h <;> rw [h] <;>
        cases hlast : (b.log.lane c.lane).undo.getLast? <;> simp only [recordIn, hlast]
    rw [hlane, ← hlen]
    exact hnav.edit (rev_entryOf hlen) hlead htarget

variable {redo : Bool} {g : Group}

theorem top_cases (h : b.top o redo = some g) :
    ∃ S R, redo = false ∧ b.log.lane o = ⟨S ++ [g], R⟩ ∨ redo = true ∧ b.log.lane o = ⟨R, S ++ [g]⟩ := by
  cases redo with
  | false => exact (getLast?_eq_some_iff.mp h).imp fun S hS => ⟨_, .inl ⟨rfl, congrArg (Lane.mk · _) hS⟩⟩
  | true => exact (getLast?_eq_some_iff.mp h).imp fun S hS => ⟨_, .inr ⟨rfl, congrArg (Lane.mk _) hS⟩⟩

theorem top_bounds (hlog : LogOk b) (h : b.top o redo = some g) :
    b.log.base < g.first ∧ g.first ≤ g.last ∧ g.last ≤ b.rev := by
  cases redo with
  | false => exact (lane_ok hlog o).undo.mem (mem_of_getLast? h)
  | true => exact (lane_ok hlog o).redo.mem (mem_of_getLast? h)

theorem apart_of_top {S R : List Group} (h : LaneOk b.log b.rev o ⟨S ++ [g], R⟩) :
    ∀ g' ∈ S ++ R, ¬ (g'.first ≤ g.first ∧ g.first ≤ g'.last) := by
  obtain ⟨hS, -, hle, -⟩ := stacked_append_singleton.mp h.undo
  intro g' hg'
  rcases mem_append.mp hg' with hmem | hmem
  · have := hS.mem hmem
    omega
  · have hd := h.apart g (by simp) g' hmem
    unfold Group.Disjoint at hd
    omega

theorem nav_undoRedo (hlog : LogOk b) (hlen : es.length = b.rev)
    (hnav : Nav texts es (b.log.lane o).undo (b.log.lane o).redo) (hc : c.lane = o)
    (hkind : c.kind = if redo then .redo g else .undo g) (htop : b.top o redo = some g)
    (hlead : Leads texts [b.entryOf c deleted seq])
    (htext : texts (b.rev + 1) = texts (g.first - 1)) :
    Nav texts (es ++ [b.entryOf c deleted seq]) (b.laneAfter c seq).undo
      (b.laneAfter c seq).redo := by
  have htarget : (b.entryOf c deleted seq).kind.target = some g := by
    show c.kind.target = some g
    rw [hkind]
    cases redo <;> rfl
  have hok := lane_ok hlog o
  have hrev := @rev_entryOf b c deleted seq es hlen
  rw [← hlen] at htext
  obtain ⟨S, R, ⟨rfl, hl⟩ | ⟨rfl, hl⟩⟩ := top_cases htop <;> rw [hl] at hnav hok
  · have hlane : b.laneAfter c seq = ⟨S, R ++ [⟨b.rev + 1, b.rev + 1⟩]⟩ := by
      simp only [laneAfter, recordIn, hkind, hc, hl, dropLast_concat]
      rfl
    rw [hlane, ← hlen]
    exact hnav.pop hrev hlead htarget (apart_of_top hok) htext
  · have hlane : b.laneAfter c seq = ⟨R ++ [⟨b.rev + 1, b.rev + 1⟩], S⟩ := by
      simp only [laneAfter, recordIn, hkind, hc, hl, dropLast_concat]
      rfl
    rw [hlane, ← hlen]
    exact (hnav.swap.pop hrev hlead htarget (apart_of_top hok.swap) htext).swap

theorem Navigable.plan (hlog : LogOk b) (hrec : Recorded texts b) (hnav : Navigable texts o b)
    (htop : b.top o redo = some g) : ∃ items xs, b.composeInverse g o = .ok items ∧
      List.Forall₂ (Restores b.text.bytes) items xs ∧
      TakesBack (texts (g.first - 1)) b.text.bytes xs := by
  obtain ⟨_, hlen, hdrop, hnav⟩ := hnav
  have hbase := (top_bounds hlog htop).1
  obtain ⟨S, R, ⟨-, hl⟩ | ⟨-, hl⟩⟩ := top_cases htop <;> rw [hl] at hnav
  · exact composeInverse_nav hlog hrec hlen hdrop hnav hbase o
  · exact composeInverse_nav hlog hrec hlen hdrop hnav.swap hbase o

/-- The stacks still nest after a commit if they did before anything was trimmed. -/
theorem Navigable.record (hlog : LogOk b) (hnav : Navigable texts o b) {p : Prepared b.text}
    {cursor : Option Nat} (hlead : Leads texts [b.entryOf c deleted p.sequence])
    (hpast : ∀ r, Targets (b.entryOf c deleted p.sequence) r → r < b.rev + 1)
    (halone : ∀ e ∈ (b.record c deleted p cursor).1.log.entries, e.lane = o)
    (hsame : c.lane = o → ∀ es : List LogEntry, es.length = b.rev →
      b.log.entries = es.drop b.log.base → Nav texts es (b.log.lane o).undo (b.log.lane o).redo →
      Nav texts (es ++ [b.entryOf c deleted p.sequence]) (b.laneAfter c p.sequence).undo
        (b.laneAfter c p.sequence).redo) : Navigable texts o (b.record c deleted p cursor).1 := by
  obtain ⟨es, hlen, hdrop, hnav⟩ := hnav
  obtain ⟨k, hk, hentries, hbase, hlanes⟩ := hlog.record_lane c deleted p cursor
  have htop := hlog.top
  have hle : b.log.base ≤ es.length := by omega
  refine ⟨es ++ [b.entryOf c deleted p.sequence], ?_, ?_, ?_⟩
  · rw [length_append, hlen]
    rfl
  · rw [hentries, hbase, ← drop_drop, drop_append_of_le_length hle, ← hdrop]
  by_cases hc : c.lane = o
  · obtain ⟨l, hl, hcase⟩ := hlanes o
    rw [if_pos hc] at hl
    have hnew := hsame hc es hlen hdrop hnav
    rw [← hl] at hnew
    rcases hcase with hcase | hcase <;> rw [hcase]
    · exact hnew
    · exact hnew.retain _
  · -- an entry of another lane was trimmed at once, and everything before it
    have hall : k = b.log.entries.length + 1 := by
      by_contra hne
      refine hc (halone (b.entryOf c deleted p.sequence) ?_)
      rw [hentries, drop_append_of_le_length (by omega)]
      simp
    have hok := lane_ok (hlog.record c deleted p cursor) o
    have hrev : (b.record c deleted p cursor).1.rev = b.rev + 1 := rfl
    have hnil : ∀ gs : List Group, Stacked (b.record c deleted p cursor).1.log.base
        (b.record c deleted p cursor).1.rev gs → gs = [] := by
      intro gs hgs
      apply eq_nil_iff_forall_not_mem.mpr
      intro g hg
      have := hgs.mem hg
      omega
    rw [hnil _ hok.undo, hnil _ hok.redo]
    exact hnav.other (rev_entryOf hlen) hlead hpast

end

variable {r : Buffer × Applied}

/-- A commit in the lane, or one that was trimmed at once, keeps the stacks nested. -/
theorem Navigable.commit {texts texts' : Nat → List UInt8} {o : Origin} (hlog : LogOk b)
    (hrec : Recorded texts b) (hnav : Navigable texts o b) {items : List Resolved} {c : Commit} (hby : Buffer.CommitBy b items c) (hcommit : b.commitTxn items c = .ok r)
    (halone : ∀ e ∈ r.1.log.entries, e.lane = o) (htexts : ∀ n ≤ b.rev, texts' n = texts n)
    (hnew : texts' (b.rev + 1) = r.1.text.bytes) : Navigable texts' o r.1 := by
  obtain ⟨_, p, cursor, -, -, hprep, rfl⟩ := commitTxn_ok hcommit
  have hseq : p.sequence = sequenceOf items := Text.prepare_ok hprep
  replace hnew : texts' (b.rev + 1) = applySeq b.text.bytes p.sequence := hnew
  have hnow : texts' b.rev = b.text.bytes := (htexts _ le_rfl).trans hrec.now
  have hlead : Leads texts' [b.entryOf c (deletedOf b.text items) p.sequence] := by
    intro e he
    rw [mem_singleton.mp he]
    show Coded utf8 (texts' b.rev) ∧ Faithful (texts' b.rev) _ ∧
      texts' (b.rev + 1) = applySeq (texts' b.rev) p.sequence
    rw [hnow]
    exact ⟨b.text.valid, Buffer.faithful_entryOf hseq c, hnew⟩
  have hold : Navigable texts' o b := by
    obtain ⟨es, hlen, hdrop, hnav⟩ := hnav
    exact ⟨es, hlen, hdrop, hnav.congr fun n hn => htexts n (by omega)⟩
  have hplain : c.kind = .edit ∨ c.kind = .reload → Navigable texts' o
      (b.record c (deletedOf b.text items) p cursor).1 := by
    intro hkind
    refine hold.record hlog hlead ?_ halone ?_
    · rintro r ⟨of, hof, -⟩
      cases (target_of_plain hkind).symm.trans hof
    · intro hc es hlen hdrop hnav
      rw [← hc] at hnav
      exact nav_edit hlen hdrop hnav hkind hlead
  cases hby with
  | apply => exact hplain (.inl rfl)
  | reload => exact hplain (.inr rfl)
  | @undoRedo sel redo lane g _ caller via nowMs opId h =>
    obtain ⟨-, htop, its, hits, rfl⟩ := undoPlan_ok h
    have hbounds := top_bounds hlog htop
    refine hold.record hlog hlead ?_ halone ?_
    · rintro r ⟨of, hof, rfl⟩
      have hfirst : of.first = g.first := by
        cases redo with
        | false | true => exact congrArg Group.first (Option.some.inj hof).symm
      omega
    · intro hc es hlen hdrop hnav'
      have hc' : lane = o := hc
      subst hc'
      apply nav_undoRedo hlog hlen hnav' rfl rfl htop hlead
      -- the commit applies the inverse that the preflight composed
      obtain ⟨items', xs, hitems', hrestores, hback⟩ := hnav.plan hlog hrec htop
      rw [hits] at hitems'
      cases hitems'
      rw [hnew, hseq, (plan_applies hrestores hback).2, htexts _ (by omega)]

/-- In a run whose log only ever holds entries of one lane, the stacks of that lane nest. -/
theorem Navigable.run (t : Text) (rs : List Request) (o : Origin)
    (halone : ∀ qs, qs <+: rs → ∀ e ∈ ((withText t).run qs).log.entries, e.lane = o) :
    Navigable ((withText t).textAt rs) o ((withText t).run rs) := by
  induction rs using List.reverseRecOn with
  | nil => exact ⟨[], rfl, rfl, ⟨rfl, by simp [Leads], .bottom _, .bottom _, by simp, by simp⟩⟩
  | append_singleton rs q ih =>
    replace ih := ih fun qs hqs => halone qs (hqs.trans (prefix_append rs [q]))
    have hlog := LogOk.run t rs
    have hrec := Recorded.run t rs
    have hold : ∀ r ≤ ((withText t).run rs).rev,
        (withText t).textAt (rs ++ [q]) r = (withText t).textAt rs r := by
      intro r hr
      rw [Buffer.textAt_append, if_pos hr]
    have hsame : ∀ {b' : Buffer}, b'.log = ((withText t).run rs).log →
        b'.rev = ((withText t).run rs).rev →
        Navigable ((withText t).textAt (rs ++ [q])) o b' := by
      intro b' hb hr
      obtain ⟨es, hlen, hdrop, hnav⟩ := ih
      rw [← hb] at hdrop hnav
      rw [← hr] at hlen
      exact ⟨es, hlen, hdrop, hnav.congr fun n hn => hold n (by omega)⟩
    have hend := halone (rs ++ [q]) (prefix_refl _)
    rw [Buffer.run_append] at hend ⊢
    rcases step_cases ((withText t).run rs) q with
      heq | hpoint | ⟨items, c, a, hby, hcommit⟩
    · rw [show Buffer.run _ [q] = _ from heq]
      exact hsame rfl rfl
    · exact hsame hpoint.fixed.2.1 hpoint.fixed.2.2
    · refine ih.commit hlog hrec hby hcommit hend hold ?_
      rw [Buffer.textAt_append, if_neg (by omega)]

/-- Every group of a redo stack is one entry of the log, an undo. -/
def RedoOk (b : Buffer) : Prop :=
  ∀ o, ∀ g ∈ (b.log.lane o).redo,
    g.last = g.first ∧ ∃ e ∈ b.log.entries, e.rev = g.first ∧ ∃ of, e.kind = .undo of

theorem mem_redo_laneAfter {c : Commit} {seq : List Edit} {g : Group}
    (hg : g ∈ (b.laneAfter c seq).redo) :
    g ∈ (b.log.lane c.lane).redo ∨ g = ⟨b.rev + 1, b.rev + 1⟩ ∧ ∃ of, c.kind = .undo of := by
  unfold laneAfter at hg
  cases hk : c.kind with
  | edit | reload =>
    simp only [hk, recordIn] at hg
    split at hg <;> cases hg
  | undo of =>
    simp only [hk] at hg
    rcases mem_append.mp hg with hg | hg
    · exact .inl hg
    · exact .inr ⟨mem_singleton.mp hg, of, rfl⟩
  | redo =>
    simp only [hk] at hg
    exact .inl ((dropLast_sublist _).subset hg)

theorem RedoOk.record (hlog : LogOk b) (h : RedoOk b) (c : Commit) (deleted : List Str)
    (p : Prepared b.text) (cursor : Option Nat) : RedoOk (b.record c deleted p cursor).1 := by
  intro o g hg
  have hlog' := hlog.record c deleted p cursor
  have hbounds := (lane_ok hlog' o).redo.mem hg
  obtain ⟨k, -, hentries, hbase, hlanes⟩ := hlog.record_lane c deleted p cursor
  obtain ⟨l, hl, hcase⟩ := hlanes o
  have hgl : g ∈ l.redo := by
    rcases hcase with hcase | hcase
    · rwa [hcase] at hg
    · rw [hcase] at hg
      exact mem_of_mem_filter hg
  -- the entry stands in the log, and was not trimmed since its group was not
  have hkeep : ∀ e ∈ b.log.entries ++ [b.entryOf c deleted p.sequence], e.rev = g.first →
      e ∈ (b.record c deleted p cursor).1.log.entries := by
    intro e he hrev
    rw [hentries]
    have hrevs := revs_append hlog.revs (e := b.entryOf c deleted p.sequence)
      (by rw [← hlog.top]; rfl)
    apply mem_drop_of_rev hrevs he
    omega
  have hcases : g ∈ (b.log.lane o).redo ∨ g = ⟨b.rev + 1, b.rev + 1⟩ ∧ ∃ of, c.kind = .undo of := by
    rw [hl] at hgl
    split at hgl
    · next hc =>
      rw [← hc]
      exact mem_redo_laneAfter hgl
    · exact .inl hgl
  rcases hcases with hold | ⟨rfl, of, hof⟩
  · obtain ⟨hone, e, he, hrev, hkind⟩ := h o g hold
    exact ⟨hone, e, hkeep e (mem_append_left _ he) hrev, hrev, hkind⟩
  · exact ⟨rfl, b.entryOf c deleted p.sequence, hkeep _ (by simp) rfl, rfl, of, hof⟩

theorem RedoOk.run (t : Text) (rs : List Request) : RedoOk ((withText t).run rs) := by
  refine (Buffer.run_induction (Q := fun b => LogOk b ∧ RedoOk b) _
    ⟨LogOk.withText t, ?_⟩ ?_ rs).2
  · intro o g hg
    cases hg
  rintro b r ⟨hlog, h⟩
  refine ⟨hlog.step r, ?_⟩
  rcases step_cases b r with hsame | hpoint | ⟨items, c, a, -, hcommit⟩
  · rwa [hsame]
  · unfold RedoOk
    rw [hpoint.fixed.2.1]
    exact h
  · obtain ⟨_, p, cursor, -, -, -, hb⟩ := commitTxn_ok hcommit
    have hrecord := h.record hlog c (deletedOf b.text items) p cursor
    rwa [← hb] at hrecord

theorem redo_nil_of_apply (hlog : LogOk b) {req : TxnRequest} {o : Origin} {via : Via} {nowMs : Nat} (h : b.apply req o via nowMs = .ok r) : (r.1.log.lane o).redo = [] := by
  obtain ⟨items, -, hcommit⟩ := Buffer.apply_ok h
  obtain ⟨_, p, cursor, -, -, -, rfl⟩ := commitTxn_ok hcommit
  obtain ⟨k, -, -, -, hlanes⟩ := hlog.record_lane (b.applyCommit req o via nowMs)
    (deletedOf b.text items) p cursor
  obtain ⟨l, hl, hcase⟩ := hlanes o
  rw [if_pos (show (b.applyCommit req o via nowMs).lane = o from rfl)] at hl
  have hnil : l.redo = [] := by
    rw [hl]
    simp only [laneAfter, recordIn, Buffer.applyCommit]
    split <;> rfl
  rcases hcase with hcase | hcase
  · rw [hcase, hnil]
  · rw [hcase, OpLog.retainGroups, hnil]
    rfl

private def typist : Origin := ⟨.agent, "a"⟩

private def localVia : Via := ⟨none, "local", none, none⟩

/-- While only one lane has entries in the log, undo and redo lead to the text before the top group,
up to the size limits. What a redo takes back is an undo; an edit empties the redo stack. -/
theorem single_lane_navigation (t : Text) (rs : List Request) (o : Origin)
    (halone : ∀ qs, qs <+: rs → ∀ e ∈ ((withText t).run qs).log.entries, e.lane = o) :
    let b := (withText t).run rs
    (∀ sel caller via nowMs redo opId g, b.laneFor sel caller redo = o → b.top o redo = some g →
      (redo = true → g.last = g.first ∧
        ∃ e ∈ b.log.entries, e.rev = g.first ∧ ∃ of, e.kind = .undo of) ∧
      ∃ plan, b.undoPlan sel caller redo = .ok (o, g, plan) ∧
        ((∃ r, b.undoRedo sel caller via nowMs redo opId = .ok r ∧
            r.1.text.bytes = (withText t).textAt rs (g.first - 1)) ∨
          (maxBufferBytes < peakOf List.length b.text.bytes (sequenceOf plan) ∧
            b.undoRedo sel caller via nowMs redo opId =
              .error (tooLarge (peakOf List.length b.text.bytes (sequenceOf plan)))) ∨
          (maxLines < peakOf lineTotal b.text.bytes (sequenceOf plan) ∧
            b.undoRedo sel caller via nowMs redo opId =
              .error (tooManyLines (peakOf lineTotal b.text.bytes (sequenceOf plan)))))) ∧
      ∀ req via nowMs r, b.apply req o via nowMs = .ok r → (r.1.log.lane o).redo = [] := by
  intro b
  have hlog : LogOk b := LogOk.run t rs
  have hrec := Recorded.run t rs
  have hnav := Navigable.run t rs o halone
  refine ⟨?_, fun req via nowMs r => redo_nil_of_apply hlog⟩
  intro sel caller via nowMs redo opId g hlane htop
  constructor
  · rintro rfl
    exact RedoOk.run t rs o g (mem_of_getLast? htop)
  obtain ⟨items, xs, hitems, hrestores, hback⟩ := hnav.plan hlog hrec htop
  obtain ⟨hadm, happlied⟩ := plan_applies hrestores hback
  have hplan : b.undoPlan sel caller redo = .ok (o, g, resolvedOf items) := by
    have := undoPlan_of_top (b := b) (show b.top (b.laneFor sel caller redo) redo = some g by
      rw [hlane]; exact htop) (by rw [hlane]; exact hitems)
    rwa [hlane] at this
  have hundo : b.undoRedo sel caller via nowMs redo opId =
      b.commitTxn (resolvedOf items) (Buffer.undoCommit o g caller via nowMs redo opId) := by
    unfold undoRedo
    rw [hplan]
    rfl
  refine ⟨resolvedOf items, hplan, ?_⟩
  rw [hundo, ← happlied]
  exact commitTxn_admissible rfl hadm

/-- One letter typed into an empty buffer, and taken back. -/
theorem single_lane_navigation_typed : ∃ plan, ((withText (Text.letters 0 (Nat.zero_le _))).run
      [.apply ⟨[.insert (.offset 0) (ofChars ['b'])], .latest, true, none, none⟩ typist localVia
        0]).undoPlan .own typist false = .ok (typist, ⟨1, 1⟩, plan) := by
  have halone : ∀ qs, qs <+: [Request.apply ⟨[.insert (.offset 0) (ofChars ['b'])], .latest, true,
      none, none⟩ typist localVia 0] →
      ∀ e ∈ ((withText (Text.letters 0 (Nat.zero_le _))).run qs).log.entries,
        e.lane = typist := by
    intro qs hqs
    rcases prefix_cons_iff.mp hqs with rfl | ⟨_, rfl, hys⟩
    · decide +kernel
    · rw [prefix_nil.mp hys]
      decide +kernel
  obtain ⟨-, plan, hplan, -⟩ := (single_lane_navigation _ _ typist halone).1 .own typist localVia 1
    false none ⟨1, 1⟩ rfl (by decide +kernel)
  exact ⟨plan, hplan⟩

/-- Whatever other lanes hold, taking back the newest rev leads to the text before it, up to the size
limits. -/
theorem newest_rev_taken_back (t : Text) (rs : List Request) {b : Buffer}
    (hb : b = (withText t).run rs) {sel : LaneSel} {caller : Origin} {redo : Bool} {g : Group}
    (htop : b.top (b.laneFor sel caller redo) redo = some g) (hg : g.first = b.rev) (via : Via)
    (nowMs : Nat) (opId : Option OpId) : ∃ plan,
      b.undoPlan sel caller redo = .ok (b.laneFor sel caller redo, g, plan) ∧
        ((∃ r, b.undoRedo sel caller via nowMs redo opId = .ok r ∧
            r.1.text.bytes = (withText t).textAt rs (b.rev - 1)) ∨
          maxBufferBytes < peakOf List.length b.text.bytes (sequenceOf plan) ∨
          maxLines < peakOf lineTotal b.text.bytes (sequenceOf plan)) := by
  have hlog : LogOk b := hb ▸ LogOk.run t rs
  have hrec : Recorded ((withText t).textAt rs) b := hb ▸ Recorded.run t rs
  obtain ⟨hbase, hle, hlast⟩ := top_bounds hlog htop
  have hsingle : g.last = b.rev := by omega
  have hgroup : Typing (b.groupEntries g) := by
    have := congrArg List.length (hlog.groupEntries_revs hbase hlast)
    rw [length_map, length_range', hsingle, hg, Nat.add_sub_cancel_left] at this
    obtain ⟨e, he⟩ := length_eq_one_iff.mp this
    exact he ▸ .single e
  have hrest : b.reducedAfter g.last = [] := by
    rw [Buffer.reducedAfter, hlog.after_eq (by omega), drop_of_length_le (by have := hlog.top; omega)]
    rfl
  obtain ⟨items, xs, hitems, hrestores, hback⟩ := composeInverse_plain hlog hrec hbase hle hlast
    hgroup hrest (hsingle ▸ hrec.now) (b.laneFor sel caller redo)
  obtain ⟨hadm, happlied⟩ := plan_applies hrestores hback
  have hplan := undoPlan_of_top htop hitems
  refine ⟨resolvedOf items, hplan, ?_⟩
  unfold undoRedo
  rw [hplan, ← hg, ← happlied]
  exact (commitTxn_admissible rfl hadm).imp_right (Or.imp And.left And.left)

private def typedTwice : List Request := [typist, ⟨.agent, "b"⟩].map fun o =>
  .apply ⟨[.insert (.offset 0) (ofChars ['b'])], .latest, false, none, none⟩ o localVia 0

theorem newest_rev_taken_back_other_lane : ∃ plan, ((withText (Text.letters 0 (Nat.zero_le _))).run
    typedTwice).undoPlan .own ⟨.agent, "b"⟩ false = .ok (⟨.agent, "b"⟩, ⟨2, 2⟩, plan) := by
  obtain ⟨plan, hplan, -⟩ := @newest_rev_taken_back (Text.letters 0 (Nat.zero_le _)) typedTwice _ rfl
    .own ⟨.agent, "b"⟩ false ⟨2, 2⟩ (by decide +kernel) (by decide +kernel) localVia 0 none
  exact ⟨plan, hplan⟩

section

private def swapEnds : TxnRequest :=
  ⟨[.delete (.offsets (maxBufferBytes - 1) maxBufferBytes),
    .insert (.offset 0) (ofChars ['b'])], .latest, false, none, none⟩

private def swapItems : List Resolved :=
  [⟨maxBufferBytes - 1, maxBufferBytes, Str.empty, 0⟩, ⟨0, 0, ofChars ['b'], 1⟩]

private def swapSeq : List Edit := [⟨maxBufferBytes - 1, 1, Str.empty⟩, ⟨0, 0, ofChars ['b']⟩]

private theorem sequenceOf_swapItems : sequenceOf swapItems = swapSeq := by decide +kernel

private def swapEntry (s : Str) : LogEntry :=
  ⟨1, typist, typist, .edit, swapSeq, [s, Str.empty], localVia, none, 0⟩

private def backItems (s : Str) : List UndoItem :=
  [⟨⟨0, 1⟩, Str.empty, ofChars ['b'], 1⟩, ⟨⟨maxBufferBytes, maxBufferBytes⟩, s, Str.empty, 1⟩]

variable {b : Buffer}

private theorem swap_resolves (h : Letters b.text.bytes) (hlen : b.len = maxBufferBytes) :
    b.resolveTxn swapEnds = .ok swapItems := by
  have hlow := h.checkOffset (o := maxBufferBytes - 1) (by omega)
  have hhigh := h.checkOffset (o := maxBufferBytes) (by omega)
  have hzero := h.checkOffset (o := 0) (by omega)
  have hdel : b.resolveOp (.delete (.offsets (maxBufferBytes - 1) maxBufferBytes)) =
      .ok (⟨maxBufferBytes - 1, maxBufferBytes⟩, Str.empty) := by
    simp only [Buffer.resolveOp, Buffer.resolveRange, hlow, hhigh]
    rfl
  have hins : b.resolveOp (.insert (.offset 0) (ofChars ['b'])) =
      .ok (⟨0, 0⟩, ofChars ['b']) := by
    simp only [Buffer.resolveOp, Buffer.resolvePos, hzero]
    rfl
  have hitems : b.resolveItems swapEnds.ops none = .ok swapItems := by
    simp only [Buffer.resolveItems, swapEnds, zipIdx_cons, mapM_cons, hdel, hins]
    rfl
  exact Buffer.resolveTxn_latest rfl rfl hitems (by decide) (by decide)

private theorem letters_swapSeq : ∀ e ∈ swapSeq, Letters e.insert.bytes := by
  intro e he x hx
  rcases mem_cons.mp he with rfl | he
  · cases hx
  · rw [mem_singleton.mp he] at hx
    rw [mem_singleton.mp (show x ∈ [98] from hx)]
    decide

private theorem swap_fits {t : Text} (h : Letters t.bytes) (hlen : t.len = maxBufferBytes) :
    Admissible t swapSeq ∧ peakOf List.length t.bytes swapSeq = maxBufferBytes ∧
      peakOf lineTotal t.bytes swapSeq = 1 ∧
      (applySeq t.bytes swapSeq).length = maxBufferBytes := by
  have hlen' : t.bytes.length = maxBufferBytes := hlen
  have hone : (splice t.bytes (Edit.item ⟨maxBufferBytes - 1, 1, Str.empty⟩)).length =
      maxBufferBytes - 1 := by
    rw [length_splice, hlen']
    · rfl
    · rw [hlen']
      decide
  have htwo : (applySeq t.bytes swapSeq).length = maxBufferBytes := by
    show (splice (splice t.bytes (Edit.item ⟨maxBufferBytes - 1, 1, Str.empty⟩))
      (Edit.item ⟨0, 0, ofChars ['b']⟩)).length = _
    rw [length_splice, hone]
    · rfl
    · rw [hone]
      decide
  refine ⟨h.admissible ?_, ?_, (h.applySeq letters_swapSeq).2, htwo⟩
  · rw [hlen]
    decide
  · show max t.bytes.length (max _ (applySeq t.bytes swapSeq).length) = _
    rw [hone, hlen', htwo]
    decide

private def fullLog : OpLog :=
  (OpLog.push { OpLog.empty with
    lanes := OpLog.empty.lanes.insert typist ⟨[⟨1, 1⟩], []⟩ } (swapEntry (ofChars ['a']))).1

private theorem back_composes (hlog : b.log = fullLog) (h : Letters b.text.bytes)
    (hlen : b.len = maxBufferBytes) (hfirst : b.text.read ⟨0, 1⟩ = ofChars ['b']) :
    b.undoPlan .own typist false = .ok (typist, ⟨1, 1⟩, resolvedOf (backItems (ofChars ['a']))) := by
  have htop : b.top typist false = some ⟨1, 1⟩ := by
    rw [Buffer.top, hlog]
    decide +kernel
  have hgroup : b.groupEntries ⟨1, 1⟩ = [swapEntry (ofChars ['a'])] := by
    rw [Buffer.groupEntries, hlog]
    rfl
  have hrest : b.reducedAfter 1 = [] := by
    rw [Buffer.reducedAfter, hlog]
    rfl
  have hend : b.text.read ⟨maxBufferBytes, maxBufferBytes⟩ = Str.empty := by
    apply Str.ext
    rw [h.read le_rfl (le_of_eq hlen.symm)]
    rfl
  apply undoPlan_of_top htop
  unfold Buffer.composeInverse
  rw [if_neg (by rw [Buffer.oldestRev, hlog]; decide +kernel), hgroup, hrest]
  show (do
    b.checkExpected typist (backItems (ofChars ['a']))
    Except.ok (backItems (ofChars ['a']))) = _
  have hexpected : b.checkExpected typist (backItems (ofChars ['a'])) = .ok () := by
    simp only [backItems, Buffer.checkExpected, hfirst, hend]
    rfl
  rw [hexpected]
  rfl

private theorem swap_records {t : Text} (h : Letters t.bytes) (hlen : t.len = maxBufferBytes)
    (hlast : t.read ⟨maxBufferBytes - 1, maxBufferBytes⟩ = ofChars ['a']) :
    ∃ b', (withText t).step (.apply swapEnds typist localVia 0) = b' ∧ b'.log = fullLog ∧
      b'.text.bytes = applySeq t.bytes swapSeq := by
  obtain ⟨hadm, hpeak, hlines, -⟩ := swap_fits h hlen
  have hread : t.read ⟨0, 0⟩ = Str.empty := by
    apply Str.ext
    rw [h.read le_rfl (Nat.zero_le _)]
    rfl
  have hdeleted : deletedOf t swapItems = [ofChars ['a'], Str.empty] := by
    rw [← hlast, ← hread]
    rfl
  rw [← sequenceOf_swapItems] at hadm hpeak hlines
  rcases commitTxn_admissible (b := withText t)
    (c := (withText t).applyCommit swapEnds typist localVia 0) rfl hadm with
    ⟨r, hr, htext⟩ | ⟨hbig, -⟩ | ⟨hbig, -⟩
  · have happly : (withText t).apply swapEnds typist localVia 0 = .ok r := by
      rw [Buffer.apply, swap_resolves (b := withText t) h hlen]
      exact hr
    refine ⟨r.1, by simp only [Buffer.step, happly], ?_, by rw [htext]; rfl⟩
    obtain ⟨_, p, _, -, -, hprep, rfl⟩ := commitTxn_ok hr
    have hseq : p.sequence = swapSeq := (Text.prepare_ok hprep).trans sequenceOf_swapItems
    show (OpLog.push _ (Buffer.entryOf _ _ (deletedOf t swapItems) p.sequence)).1 = _
    rw [hdeleted, hseq]
    rfl
  · rw [show peakOf _ (withText t).text.bytes _ = _ from hpeak] at hbig
    exact absurd hbig (lt_irrefl _)
  · rw [show peakOf _ (withText t).text.bytes _ = _ from hlines] at hbig
    exact absurd hbig (by decide)

private theorem back_refused {u : Text} (h : Letters u.bytes) (hlen : u.len = maxBufferBytes)
    (hb : b.text = u) (c : Commit) : b.commitTxn (resolvedOf (backItems (ofChars ['a']))) c =
      .error (tooLarge (maxBufferBytes + 1)) := by
  subst hb
  have hlen' : b.text.bytes.length = maxBufferBytes := hlen
  have hseq : sequenceOf (resolvedOf (backItems (ofChars ['a']))) =
      [⟨maxBufferBytes, 0, ofChars ['a']⟩, ⟨0, 1, Str.empty⟩] := by decide +kernel
  have hone : (splice b.text.bytes
      (Edit.item ⟨maxBufferBytes, 0, ofChars ['a']⟩)).length = maxBufferBytes + 1 := by
    rw [length_splice, hlen']
    · rfl
    · rw [hlen']
      decide
  have hpeak : peakOf List.length b.text.bytes
      (sequenceOf (resolvedOf (backItems (ofChars ['a'])))) = maxBufferBytes + 1 := by
    rw [hseq, peakOf, peakOf, peakOf, hone, length_splice, hone, hlen']
    · decide
    · rw [hone]
      decide
  rw [← hpeak]
  apply commitTxn_tooLarge
  · apply h.admissible
    rw [hlen]
    decide
  · rw [hpeak]
    decide

private theorem exists_letters {n : Nat} (hpos : 0 < n) (hn : n ≤ maxBufferBytes) :
    ∃ t : Text, Letters t.bytes ∧ t.len = n ∧ t.read ⟨n - 1, n⟩ = ofChars ['a'] := by
  have hlen : (Text.letters n hn).len = n := length_replicate
  refine ⟨Text.letters n hn, Letters.replicate n, hlen, ?_⟩
  apply Str.ext
  rw [(Letters.replicate n).read (Nat.sub_le _ _) (le_of_eq hlen.symm)]
  show seg (List.replicate n 97) (n - 1) n = [97]
  rw [seg, drop_replicate, take_replicate, show min (n - (n - 1)) (n - (n - 1)) = 1 by omega]
  rfl

/-- A full buffer: undoing an exchange of its last letter puts that back first, and is refused. -/
theorem full_buffer_undo_refused :
    ∃ (t : Text) (rs : List Request) (o : Origin) (via : Via) (g : Group),
      (∀ qs, qs <+: rs → ∀ e ∈ ((withText t).run qs).log.entries, e.lane = o) ∧
      ((withText t).run rs).log.base = 0 ∧ ((withText t).run rs).top o false = some g ∧
      ((withText t).run rs).undo .own o via 0 = .error (tooLarge (maxBufferBytes + 1)) := by
  obtain ⟨t, hletters, hlen, hlast⟩ := exists_letters (n := maxBufferBytes) (by decide) le_rfl
  obtain ⟨b, hstep, hlog, htext⟩ := swap_records hletters hlen hlast
  have hrun : (withText t).run [.apply swapEnds typist localVia 0] = b := hstep
  have hb : Letters b.text.bytes := by
    rw [htext]
    exact (hletters.applySeq letters_swapSeq).1
  have hblen : b.text.len = maxBufferBytes := by
    show b.text.bytes.length = _
    rw [htext]
    exact (swap_fits hletters hlen).2.2.2
  have hfirst : b.text.read ⟨0, 1⟩ = ofChars ['b'] := by
    apply Str.ext
    rw [hb.read (by omega) (by rw [hblen]; decide), htext]
    rfl
  have hplan := back_composes hlog hb hblen hfirst
  refine ⟨t, [.apply swapEnds typist localVia 0], typist, localVia, ⟨1, 1⟩, ?_, ?_, ?_, ?_⟩
  · intro qs hqs e he
    rcases prefix_cons_iff.mp hqs with rfl | ⟨ys, rfl, hys⟩
    · cases he
    rw [prefix_nil.mp hys] at he
    rw [hrun, hlog] at he
    rw [mem_singleton.mp (show e ∈ [swapEntry (ofChars ['a'])] from he)]
    rfl
  · rw [hrun, hlog]
    rfl
  · rw [hrun]
    exact (undoPlan_ok hplan).2.1
  · rw [hrun]
    unfold Buffer.undo undoRedo
    rw [hplan]
    exact back_refused hb hblen rfl _

end
end Cosmix.EditCore
