/- source: cosmix-edit-core/src/buffer.rs
   digest: The undo preflight passes on a chain that leads back, and its commit applies the chain. -/

import Cosmix.EditCore.Compose

namespace Cosmix.EditCore

open Cosmix.Lib.Weave List
open Cosmix.Lib.Coding

theorem canonicalSort_reading {γ : Type} (key : γ → Range × Nat) {l : List γ}
    (hidx : l.Pairwise fun a b => (key a).2 < (key b).2)
    (hchain : l.Pairwise fun a b => (key a).1.stop ≤ (key b).1.start)
    (hproper : ∀ a ∈ l, (key a).1.start ≤ (key a).1.stop) : canonicalSort key l = l.reverse := by
  have hperm : (canonicalSort key l).Perm l.reverse :=
    (perm_canonicalSort key l).trans (reverse_perm l).symm
  apply List.Perm.eq_of_pairwise _ (pairwise_canonicalSort key l) _ hperm
  · intro a b ha hb h₁ h₂
    -- one index, so one place
    have hsame := canonicalLe_antisymm h₁ h₂
    have ha' : a ∈ l := (perm_canonicalSort key l).mem_iff.mp ha
    have hb' : b ∈ l := mem_reverse.mp hb
    have hnodup : (l.map fun x => (key x).2).Nodup := by
      rw [nodup_iff_pairwise_ne, pairwise_map]
      exact hidx.imp fun h => ne_of_lt h
    exact inj_on_of_nodup_map hnodup ha' hb' hsame
  · rw [pairwise_reverse]
    refine (hidx.and hchain).imp_of_mem ?_
    rintro a b ha hb ⟨h₁, h₂⟩
    have h₃ := hproper a ha
    rw [canonicalLe_iff]
    omega

theorem Chain.pairwise {α : Type} {lo hi : Nat} {xs : List (Item α)} (h : Chain lo hi xs) :
    xs.Pairwise fun a b => a.stop ≤ b.start := by
  induction xs generalizing lo with
  | nil => exact .nil
  | cons x xs ih =>
    refine pairwise_cons.mpr ⟨?_, ih h.2.2⟩
    intro y hy
    exact (h.2.2.mem hy).1

/-- An undo item restores the text of an item and expects what the item covers. -/
def Restores (t : List UInt8) (it : UndoItem) (x : Item UInt8) : Prop :=
  it.range = x.toSpan ∧ it.restore.bytes = x.text ∧ it.expect.bytes = covered t x

def resolvedOf (items : List UndoItem) : List Resolved :=
  items.zipIdx.map fun i => ⟨i.1.range.start, i.1.range.stop, i.1.restore, i.2⟩

section

variable {t : List UInt8} {items : List UndoItem} {xs : List (Item UInt8)}

theorem map_resolvedOf {γ : Type} (f : Resolved → γ) (g : UndoItem → γ)
    (hfg : ∀ it n, f ⟨it.range.start, it.range.stop, it.restore, n⟩ = g it) :
    (resolvedOf items).map f = items.map g := by
  have hfst : items.zipIdx.map Prod.fst = items := zipIdx_map_fst 0 items
  conv_rhs => rw [← hfst]
  rw [resolvedOf, map_map, map_map]
  apply map_congr_left
  intro i _
  exact hfg i.1 i.2

theorem sequenceOf_resolvedOf (h : List.Forall₂ (Restores t) items xs) {hi : Nat}
    (hc : Chain 0 hi xs) : ((Buffer.sequenceOf (resolvedOf items)).map Edit.item).reverse = xs := by
  have hranges : (resolvedOf items).map Resolved.range = xs.map Item.toSpan := by
    rw [map_resolvedOf Resolved.range UndoItem.range (fun _ _ => rfl)]
    clear hc
    induction h with
    | nil => rfl
    | cons hab _ ih => rw [map_cons, map_cons, ih, hab.1]
  have hproper : ∀ r ∈ resolvedOf items, r.range.start ≤ r.range.stop := by
    intro r hr
    have hmem : r.range ∈ xs.map Item.toSpan := hranges ▸ mem_map_of_mem hr
    obtain ⟨x, hx, hxr⟩ := mem_map.mp hmem
    rw [← hxr]
    exact (hc.mem hx).2.1
  have hsort : canonical (resolvedOf items) = (resolvedOf items).reverse := by
    apply canonicalSort_reading
    · have hsnd : (resolvedOf items).map Resolved.idx = List.range' 0 items.length := by
        rw [resolvedOf, map_map]
        exact zipIdx_map_snd 0 items
      have := pairwise_lt_range' (s := 0) (n := items.length)
      rwa [← hsnd, pairwise_map] at this
    · have := (Chain.pairwise hc)
      rw [← pairwise_map (f := Item.toSpan) (R := fun a b => a.stop ≤ b.start), ← hranges,
        pairwise_map] at this
      exact this
    · exact hproper
  have hitem : ∀ r ∈ resolvedOf items,
      (⟨r.s, r.e - r.s, r.text⟩ : Edit).item = ⟨r.range, r.text.bytes⟩ := by
    intro r hr
    have hle : r.s ≤ r.e := hproper r hr
    simp only [Edit.item, Nat.add_sub_cancel' hle]
    rfl
  rw [Buffer.sequenceOf, hsort, map_reverse, map_reverse, reverse_reverse, map_map]
  rw [map_congr_left (g := fun r => (⟨r.range, r.text.bytes⟩ : Item UInt8)) hitem,
    map_resolvedOf _ (fun it => (⟨it.range, it.restore.bytes⟩ : Item UInt8)) (fun _ _ => rfl)]
  clear hranges hproper hsort hitem hc
  induction h with
  | nil => rfl
  | cons hab _ ih => rw [map_cons, ih, hab.1, hab.2.1]

namespace Buffer

theorem checkUnion_ok (b : Buffer) (lane : Origin) (h : List.Forall₂ (Restores t) items xs)
    {lo hi : Nat} (hc : Chain lo hi xs) : b.checkUnion lane lo items = .ok () := by
  induction h generalizing lo with
  | nil => rfl
  | cons hab _ ih =>
    obtain ⟨h₁, h₂, h₃⟩ := hc
    rw [checkUnion, hab.1, if_neg (not_lt.mpr h₁)]
    split
    · exact ih (h₃.weaken_left (h₁.trans h₂))
    · exact ih h₃

theorem checkExpected_ok (b : Buffer) (lane : Origin)
    (h : List.Forall₂ (Restores b.text.bytes) items xs) {lo hi : Nat} (hc : Chain lo hi xs)
    (hb : ∀ x ∈ xs, b.text.isCharBoundary x.start = true ∧ b.text.isCharBoundary x.stop = true) :
    b.checkExpected lane items = .ok () := by
  induction h generalizing lo with
  | nil => rfl
  | @cons it x _ _ hab _ ih =>
    obtain ⟨-, h₂, h₃⟩ := hc
    obtain ⟨hs, he⟩ := hb x mem_cons_self
    have hread : b.text.read it.range = it.expect := by
      apply Str.ext
      rw [hab.1, Text.read, dif_pos ⟨hs, he, h₂⟩, hab.2.2]
      rfl
    rw [checkExpected, if_neg (by rw [hread]; simp)]
    exact ih h₃ fun y hy => hb y (mem_cons_of_mem _ hy)

end Buffer

end

theorem takeWhile_rev {es : List LogEntry} {base : Nat}
    (hrev : es.map LogEntry.rev = List.range' (base + 1) es.length) (m : Nat) :
    es.takeWhile (fun e => decide (e.rev ≤ m)) = es.take (m - base) := by
  induction es generalizing base with
  | nil => simp
  | cons e es ih =>
    obtain ⟨he, hes⟩ := List.cons.inj hrev
    rcases Nat.lt_or_ge base m with hlt | hge
    · have hle : e.rev ≤ m := by omega
      rw [takeWhile_cons_of_pos (by simpa using hle), ih hes,
        show m - base = (m - (base + 1)) + 1 by omega, take_succ_cons]
    · have hlt : ¬ e.rev ≤ m := by omega
      rw [takeWhile_cons_of_neg (by simpa using hlt), show m - base = 0 by omega, take_zero]

namespace LogOk

variable {b : Buffer}

theorem after_eq (h : LogOk b) {r : Nat} (hr : b.log.base ≤ r) :
    b.log.after r = b.log.entries.drop (r - b.log.base) := by
  have hrevs := h.revs
  unfold OpLog.after
  cases hes : b.log.entries with
  | nil => simp
  | cons e =>
    rw [hes] at hrevs
    have he : e.rev = b.log.base + 1 := (List.cons.inj hrevs).1
    simp only [head?_cons]
    congr 1
    omega

theorem groupEntries_eq (h : LogOk b) {g : Group} (hg : b.log.base < g.first) : b.groupEntries g =
      (b.log.entries.drop (g.first - 1 - b.log.base)).take (g.last + 1 - g.first) := by
  have hdrop := revs_drop h.revs (g.first - 1 - b.log.base)
  rw [Buffer.groupEntries, h.after_eq (by omega), takeWhile_rev hdrop]
  congr 1
  omega

theorem groupEntries_revs (h : LogOk b) {g : Group} (hg : b.log.base < g.first)
    (hlast : g.last ≤ b.rev) :
    (b.groupEntries g).map LogEntry.rev = List.range' g.first (g.last + 1 - g.first) := by
  have htop := h.top
  rw [h.groupEntries_eq hg, map_take, revs_drop h.revs, length_drop,
    take_range'_of_length_ge (by omega)]
  congr 1
  omega

end LogOk

/-- What a payload of the undo preflight stands for. -/
def Texts (p : Str × Str) (u v : List UInt8) : Prop := p.1.bytes = u ∧ p.2.bytes = v

theorem payloads_memberOf {u : List UInt8} {e : LogEntry} (h : Faithful u e) :
    Payloads Texts u (Buffer.memberOf e).2.2 e.edits := by
  refine forall₂_iff_get.mpr ⟨by simp [Buffer.memberOf], ?_⟩
  intro i h₁ h₂
  have hget : (e.deleted[i]?).map Str.bytes = some (covered u (e.edits.get ⟨i, h₂⟩).item) := by
    rw [← getElem?_map, h.deleted, getElem?_map, getElem?_eq_getElem h₂]
    rfl
  obtain ⟨d, hd, hbytes⟩ := Option.map_eq_some_iff.mp hget
  simp only [Buffer.memberOf, get_eq_getElem, getElem_map, getElem_zipIdx, zero_add, hd]
  exact ⟨hbytes, rfl⟩

variable {b : Buffer} {texts : Nat → List UInt8}

theorem Recorded.leads (h : Recorded texts b)
    (hlog : LogOk b) {G : List LogEntry} (hG : ∀ e ∈ G, e ∈ b.log.entries) : Leads texts G := by
  intro e he
  have hbound := rev_bounds hlog.revs (hG e he)
  have htop := hlog.top
  exact ⟨h.coded _ (by omega), h.entry e (hG e he)⟩

theorem mem_groupEntries {g : Group} {e : LogEntry} (h : e ∈ b.groupEntries g) :
    e ∈ b.log.entries := by
  have hmem := (takeWhile_sublist _).subset h
  unfold OpLog.after at hmem
  split at hmem
  · exact mem_of_mem_drop hmem
  · exact hmem

/-- When history after a group reduces to nothing, the preflight yields the chain back to its start.
-/
theorem composeInverse_plain (hlog : LogOk b)
    (hrec : Recorded texts b) {g : Group} (hfirst : b.log.base < g.first) (hle : g.first ≤ g.last)
    (hlast : g.last ≤ b.rev) (hG : Typing (b.groupEntries g)) (hred : b.reducedAfter g.last = [])
    (htext : texts g.last = b.text.bytes) (lane : Origin) :
    ∃ items xs, b.composeInverse g lane = .ok items ∧
      List.Forall₂ (Restores b.text.bytes) items xs ∧
      TakesBack (texts (g.first - 1)) b.text.bytes xs := by
  have hrevs := hlog.groupEntries_revs hfirst hlast
  have hlen : (b.groupEntries g).length = g.last + 1 - g.first := by
    simpa using congrArg List.length hrevs
  have hfst : g.first - 1 + 1 = g.first := by omega
  have hend : g.first - 1 + (b.groupEntries g).length = g.last := by omega
  have hlead := hrec.leads hlog fun _ => mem_groupEntries (b := b) (g := g)
  have hpay : ∀ e ∈ b.groupEntries g,
      Payloads Texts (texts (e.rev - 1)) (Buffer.memberOf e).2.2 e.edits := by
    intro e he
    exact payloads_memberOf (hlead e he).2.1
  rw [← hlen, ← hfst] at hrevs
  obtain ⟨out, xs, hout, hstands, hback, -⟩ := composeMembers_typing hG hlead hpay hrevs
  rw [hend, htext] at hstands hback
  let items : List UndoItem := out.map fun c => ⟨c.range, c.payload.1, c.payload.2, c.member⟩
  have hitems : List.Forall₂ (Restores b.text.bytes) items xs := by
    rw [forall₂_map_left_iff]
    refine hstands.imp ?_
    intro c x hcx
    exact ⟨hcx.1, hcx.2.1, hcx.2.2⟩
  refine ⟨items, xs, ?_, hitems, hback⟩
  have hcompose : composeMembers ((b.groupEntries g).map Buffer.memberOf) = .ok out := hout
  unfold Buffer.composeInverse
  rw [if_neg (show ¬ g.first ≤ b.oldestRev from not_le.mpr hfirst), hcompose, hred]
  show (do b.checkUnion lane 0 items; b.checkExpected lane items; Except.ok items) = _
  rw [b.checkUnion_ok lane hitems hback.chain]
  rw [b.checkExpected_ok lane hitems hback.chain hback.bounds]
  rfl

end Cosmix.EditCore
