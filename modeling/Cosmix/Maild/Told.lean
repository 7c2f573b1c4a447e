/- source: maild/src/imap/op/{idle,expunge,mv}.rs, maild/src/imap/session.rs
   digest: A session's record of what its client was told is right while readings agree with it. -/

import Cosmix.Maild.Mailbox
import Mathlib.Data.List.TakeWhile

namespace Cosmix.Maild

open Cosmix.Lib List
open Client (hearAll hear)

section

variable {l t uids : List Nat} {ok : Bool}

/-- The list stays ahead of the numbers still to come, so `t` behind it is not touched. -/
theorem hear_dropped (gone : Nat → Bool) (l t : List Nat) (ok : Bool) : hearAll ⟨l ++ t, ok⟩
        ((l.zipIdx.reverse.filter fun x => gone x.1).map fun x => .expunge (x.2 + 1)) =
      ⟨l.filter (fun u => !gone u) ++ t, ok⟩ := by
  induction l using List.reverseRecOn generalizing t with
  | nil => rfl
  | append_singleton l u ih =>
    rw [zipIdx_append]
    by_cases hu : gone u
    · have herase : hear ⟨l ++ u :: t, ok⟩ (.expunge (l.length + 1)) = ⟨l ++ t, ok⟩ := by
        simp [hear, eraseIdx_append_of_length_le]
      simpa [hu, hearAll, herase] using ih t
    · simpa [hu] using ih (u :: t)

/-- Numbers in ascending order, each with the UID at its place in the list. -/
structure Placed (l : List Nat) (pairs : List (Nat × Nat)) : Prop where
  ascending : pairs.Pairwise fun p q => p.1 < q.1
  place : ∀ p ∈ pairs, 1 ≤ p.1 ∧ l[p.1 - 1]? = some p.2

theorem Placed.sublist {pairs pairs' : List (Nat × Nat)} (h : Placed l pairs)
    (hsub : pairs'.Sublist pairs) : Placed l pairs' :=
  ⟨h.ascending.sublist hsub, fun p hp => h.place p (hsub.subset hp)⟩

theorem eq_of_ascending {xs ys : List Nat} (hx : xs.Pairwise (· < ·)) (hy : ys.Pairwise (· < ·))
    (h : ∀ n, n ∈ xs ↔ n ∈ ys) : xs = ys :=
  List.Perm.eq_of_pairwise (fun _ _ _ _ hab hba => absurd hba (Nat.lt_asymm hab)) hx hy
    ((perm_ext_iff_of_nodup (hx.imp ne_of_lt) (hy.imp ne_of_lt)).mpr h)

theorem hear_expunge {pairs : List (Nat × Nat)} (hp : Placed l pairs) (hl : l.Pairwise (· < ·)) :
    hearAll ⟨l, ok⟩ (expungeLines (pairs.map Prod.fst)) =
      ⟨l.filter (· ∉ pairs.map Prod.snd), ok⟩ := by
  have hnumbers : pairs.map Prod.fst =
      (l.zipIdx.filter fun x => x.1 ∈ pairs.map Prod.snd).map fun x => x.2 + 1 := by
    refine eq_of_ascending (pairwise_map.mpr hp.ascending) ?_ fun n => ?_
    · have hidx : (l.zipIdx.map Prod.snd).Pairwise (· < ·) := by
        rw [zipIdx_map_snd]
        exact pairwise_lt_range'
      rw [pairwise_map] at hidx ⊢
      exact (hidx.sublist filter_sublist).imp Nat.succ_lt_succ
    · simp only [mem_map, mem_filter, decide_eq_true_eq, Prod.exists, mk_mem_zipIdx_iff_getElem?]
      constructor
      · rintro ⟨n, u, hin, rfl⟩
        obtain ⟨hpos, hat⟩ := hp.place _ hin
        exact ⟨u, n - 1, ⟨hat, n, u, hin, rfl⟩, Nat.sub_add_cancel hpos⟩
      · rintro ⟨u, i, ⟨hi, n, u', hin, rfl⟩, rfl⟩
        obtain ⟨hpos, hat⟩ := hp.place _ hin
        have heq : i = n - 1 := (getElem?_inj (List.getElem?_eq_some_iff.mp hi).1
          (hl.imp ne_of_lt)).mp (hi.trans hat.symm)
        exact ⟨n, u', hin, by rw [heq]; exact (Nat.sub_add_cancel hpos).symm⟩
  have hsort : sortByKey id (pairs.map Prod.fst) = pairs.map Prod.fst :=
    List.Pairwise.insertionSort_eq (pairwise_map.mpr (hp.ascending.imp le_of_lt))
  have hdrop := hear_dropped (fun u => u ∈ pairs.map Prod.snd) l [] ok
  rw [expungeLines, hsort, hnumbers]
  simpa [Function.comp_def] using hdrop

end

/-- The queued events bring the view to the mailbox's UIDs. UIDs from `lo` on are not in the view;
those from `hi` on are not given out. -/
inductive Sync : Nat → List Nat → Queue → List Nat → Nat → Prop
  | done {lo hi : Nat} (view : List Nat) (h : lo ≤ hi) : Sync lo view [] view hi
  | known {lo hi seq : Nat} {view us uids : List Nat} {q : Queue} (h : seq ∈ view)
    (rest : Sync lo view q uids hi) : Sync lo view ((.itemAdded seq, us) :: q) uids hi
  | added {lo hi seq : Nat} {view uids : List Nat} {q : Queue} (h : lo ≤ seq)
    (rest : Sync (seq + 1) (view ++ [seq]) q uids hi) :
    Sync lo view ((.itemAdded seq, view ++ [seq]) :: q) uids hi
  | removed {lo hi seq : Nat} {view us uids : List Nat} {q : Queue}
    (rest : Sync lo (view.filter (· ≠ seq)) q uids hi) :
    Sync lo view ((.itemRemoved seq, us) :: q) uids hi
  | other {lo hi : Nat} {e : ContainerEvent} {view us uids : List Nat} {q : Queue}
    (h : e = .flagsChanged ∨ e = .itemMoved) (rest : Sync lo view q uids hi) :
    Sync lo view ((e, us) :: q) uids hi

section

variable {lo mid hi : Nat} {view uids uids' : List Nat} {q q' : Queue}

theorem Sync.mono (h : Sync mid view q uids hi) (hlo : lo ≤ mid) : Sync lo view q uids hi := by
  induction h generalizing lo with
  | done view h => exact .done view (hlo.trans h)
  | known h _ ih => exact .known h (ih hlo)
  | added h rest => exact .added (hlo.trans h) rest
  | removed _ ih => exact .removed (ih hlo)
  | other h _ ih => exact .other h (ih hlo)

theorem Sync.append (h : Sync lo view q uids mid) (h' : Sync mid uids q' uids' hi) :
    Sync lo view (q ++ q') uids' hi := by
  induction h with
  | done view h => exact h'.mono h
  | known h _ ih => exact .known h (ih h')
  | added h _ ih => exact .added h (ih h')
  | removed _ ih => exact .removed (ih h')
  | other h _ ih => exact .other h (ih h')

theorem Sync.covers (h : Sync lo view q uids hi) : lo ≤ hi ∧ ∀ u ∈ uids, u < lo → u ∈ view := by
  induction h with
  | done view h => exact ⟨h, fun u hu _ => hu⟩
  | known _ _ ih | other _ _ ih => exact ih
  | added => exact ⟨by omega, fun u hu hlt => by
      grind⟩
  | removed _ ih => exact ⟨ih.1, fun u hu hlt => (mem_filter.mp (ih.2 u hu hlt)).1⟩

/-- Events older than a snapshot change nothing after it, when it has the messages added among them.
-/
theorem Sync.of_stale (hadded : ∀ note ∈ q, ∀ seq, note.1 = .itemAdded seq → seq ∈ uids)
    (hremoved : ∀ note ∈ q, ∀ seq, note.1 = .itemRemoved seq → seq ∉ uids) :
    Sync hi uids q uids hi := by
  induction q with
  | nil => exact .done uids le_rfl
  | cons note q ih =>
    have hrest := ih (fun n hn => hadded n (mem_cons_of_mem note hn))
      fun n hn => hremoved n (mem_cons_of_mem note hn)
    obtain ⟨e, us⟩ := note
    cases e with
    | itemAdded seq => exact .known (hadded _ mem_cons_self seq rfl) hrest
    | itemRemoved seq =>
      have hnot := hremoved _ mem_cons_self seq rfl
      refine .removed ?_
      rwa [filter_eq_self.mpr fun u hu => by simpa using ne_of_mem_of_not_mem hu hnot]
    | flagsChanged => exact .other (.inl rfl) hrest
    | itemMoved => exact .other (.inr rfl) hrest

theorem Sync.removals {us : List Nat} (h : Sync lo (view.filter (· ∉ us)) q uids hi)
    (reading : List Nat) :
    Sync lo view (us.map (fun u => (.itemRemoved u, reading)) ++ q) uids hi := by
  induction us generalizing view with
  | nil => simpa using h
  | cons u us ih =>
    refine .removed (ih ?_)
    rw [filter_filter]
    grind

end

namespace Mailbox

variable {b b' : Mailbox} {events : List ContainerEvent}

theorem Sound.uids_remove (hb : b.Sound) (items : List ItemId) :
    (b.removeMemberships items).1.uids = b.uids.filter (· ∉
      (b.members.filter fun h => h.id ∈ items).map EmailHandle.uid) := by
  rw [uids, uids, filter_map]
  congr 1
  refine filter_congr fun h hh => ?_
  have hiff : h.id ∈ items ↔ ∃ h' ∈ b.members, h'.id ∈ items ∧ h'.uid = h.uid := by
    refine ⟨fun hin => ⟨h, hh, hin, rfl⟩, ?_⟩
    rintro ⟨h', hh', hin, heq⟩
    exact Option.some.inj ((hb.given h' hh').symm.trans (heq ▸ hb.given h hh)) ▸ hin
  simp [hiff]

/-- The events of a commit lead from the UIDs before it to those after it. -/
theorem Commits.sync (h : b.Commits events b') (hb : b.Sound) :
    Sync b.nextSeq b.uids (events.map fun e => (e, b'.uids)) b'.uids b'.nextSeq := by
  cases h with
  | same => exact .done _ le_rfl
  | stored =>
    rw [uids_storeKeywords]
    exact .other (.inl rfl) (.done _ le_rfl)
  | removed items moves hmoves =>
    have hquiet : ∀ us reading : List Nat,
        Sync b.nextSeq us (moves.map fun e => (e, reading)) us b.nextSeq := by
      intro us reading
      induction moves with
      | nil => exact .done us le_rfl
      | cons e moves ih =>
        exact .other (.inr (hmoves e mem_cons_self))
          (ih fun x hx => hmoves x (mem_cons_of_mem e hx))
    have hrem := Sync.removals
      (hquiet (b.uids.filter (· ∉ (b.members.filter fun h => h.id ∈ items).map EmailHandle.uid))
        (b.removeMemberships items).1.uids) (b.removeMemberships items).1.uids
    rw [← hb.uids_remove] at hrem
    simpa [removeMemberships, Function.comp_def] using hrem
  | inserted item keywords tags h =>
    obtain ⟨rfl, rfl⟩ := insertMembership_eq h
    have huids : uids ⟨b.members ++ [⟨item, b.nextSeq, keywords, tags⟩], b.nextSeq + 1,
        Function.update b.given b.nextSeq (some item)⟩ = b.uids ++ [b.nextSeq] := by simp [uids]
    rw [huids]
    exact .added le_rfl (.done _ le_rfl)

theorem Commits.old_or_new (h : b.Commits events b') (hb : b.Sound) :
    b.nextSeq ≤ b'.nextSeq ∧ ∀ u ∈ b'.uids, u < b.nextSeq → u ∈ b.uids := (h.sync hb).covers

theorem Commits.removed_gone (h : b.Commits events b') (hb : b.Sound) {seq : Nat}
    (hseq : .itemRemoved seq ∈ events) : seq ∉ b'.uids ∧ seq < b.nextSeq := by
  cases h with
  | same => cases hseq
  | stored => simp [storeKeywords] at hseq
  | removed items moves hmoves =>
    obtain hseq | hseq := mem_append.mp hseq
    · obtain ⟨h, hh, heq⟩ := mem_map.mp hseq
      cases heq
      rw [hb.uids_remove]
      exact ⟨by grind, hb.below _ (mem_map_of_mem (mem_filter.mp hh).1)⟩
    · cases hmoves _ hseq
  | inserted item keywords tags h =>
    obtain ⟨-, rfl⟩ := insertMembership_eq h
    simp at hseq

end Mailbox

/-- The view has every message of the mailbox below a bound, and none from it on. -/
def Covers (b : Mailbox) (view : List Nat) : Prop :=
  ∃ lo ≤ b.nextSeq, (∀ v ∈ view, v < lo) ∧ ∀ u ∈ b.uids, u < lo → u ∈ view

/-- The queued removals have left the mailbox. -/
def Departed (b : Mailbox) (q : Queue) : Prop :=
  ∀ note ∈ q, ∀ seq, note.1 = .itemRemoved seq → seq ∉ b.uids ∧ seq < b.nextSeq

/-- The rows done and to be done stand in the view; what was moved has left the mailbox. -/
structure Moving (b : Mailbox) (view : List Nat) (left : List Row) (moved : List (Nat × Nat)) :
    Prop where
  placed : Placed view (moved ++ left.map fun row => (row.hit.msn, row.hit.uid))
  departed : ∀ p ∈ moved, p.2 ∉ b.uids

/-- What a session that is at a job knows about the mailbox. -/
def JobFits (b : Mailbox) (view : List Nat) : Job → Prop
  | .ready => Covers b view
  | .rows verb _ left moved => Covers b view ∧ (verb = .move → Moving b view left moved)
  | .expunging targets => Covers b view ∧ Placed view (targets.map fun t => (t.1, t.2.2)) ∧
    ∀ t ∈ targets, b.given t.2.2 = some t.2.1
  | .subscribed q => Covers b view ∧ Departed b q
  | .idle q true => Covers b view ∧ Departed b q
  | .idle q false => Departed b q ∧ ∃ lo, (∀ v ∈ view, v < lo) ∧ Sync lo view q b.uids b.nextSeq

/-- The client's list is the session's record of it. -/
structure Coherent (b : Mailbox) (s : Session) : Prop where
  heard : s.client = ⟨s.viewUids, true⟩
  ascending : s.viewUids.Pairwise (· < ·)
  job : JobFits b s.viewUids s.job

variable {view : List Nat}

theorem JobFits.covers {b : Mailbox} {job : Job} (h : JobFits b view job) : Covers b view := by
  cases job with
  | ready => exact h
  | rows | expunging | subscribed => exact h.1
  | idle q lagged =>
    cases lagged with
    | true => exact h.1
    | false =>
      obtain ⟨-, lo, hlt, hsync⟩ := h
      exact ⟨lo, hsync.covers.1, hlt, hsync.covers.2⟩

section

variable {b b' : Mailbox} {events : List ContainerEvent} {view : List Nat} {s : Session}

theorem Covers.commit (h : Covers b view) (hb : b.Sound) (hc : b.Commits events b') :
    Covers b' view := by
  obtain ⟨lo, hlo, hlt, hin⟩ := h
  obtain ⟨hle, hold⟩ := hc.old_or_new hb
  exact ⟨lo, hlo.trans hle, hlt, fun u hu hul => hin u (hold u hu (hul.trans_le hlo)) hul⟩

theorem Departed.commit {q : Queue} (h : Departed b q) (hb : b.Sound) (hc : b.Commits events b') :
    Departed b' (q ++ events.map fun e => (e, b'.uids)) := by
  obtain ⟨hle, hold⟩ := hc.old_or_new hb
  intro note hnote seq hseq
  obtain hnote | hnote := mem_append.mp hnote
  · obtain ⟨hnot, hlt⟩ := h note hnote seq hseq
    exact ⟨fun hin => hnot (hold seq hin hlt), hlt.trans_le hle⟩
  obtain ⟨e, he, rfl⟩ := mem_map.mp hnote
  have hin : .itemRemoved seq ∈ events := by rwa [← hseq]
  obtain ⟨hnot, hlt⟩ := hc.removed_gone hb hin
  exact ⟨hnot, hlt.trans_le hle⟩

theorem Coherent.commit (h : Coherent b s) (hb : b.Sound) (hc : b.Commits events b') :
    Coherent b' (s.notify (events.map fun e => (e, b'.uids))) := by
  obtain ⟨hheard, hasc, hjob⟩ := h
  refine ⟨hheard, hasc, ?_⟩
  have hcov := hjob.covers.commit hb hc
  unfold Session.notify
  cases hj : s.job with rw [hj] at hjob
  | ready => exact hcov
  | rows =>
    refine ⟨hcov, fun hmove => ⟨(hjob.2 hmove).placed, fun p hp hin => ?_⟩⟩
    obtain ⟨lo, hlo, hlt, -⟩ := hjob.1
    have hplace := ((hjob.2 hmove).placed.place p (mem_append_left _ hp)).2
    exact (hjob.2 hmove).departed p hp ((hc.old_or_new hb).2 _ hin
      ((hlt _ (mem_of_getElem? hplace)).trans_le hlo))
  | expunging => exact ⟨hcov, hjob.2.1, fun t ht => hc.given_mono hb (hjob.2.2 t ht)⟩
  | subscribed => exact ⟨hcov, hjob.2.commit hb hc⟩
  | idle q lagged =>
    cases lagged with
    | true => exact ⟨hcov, hjob.2.commit hb hc⟩
    | false =>
      obtain ⟨hdep, lo, hlt, hsync⟩ := hjob
      exact ⟨hdep.commit hb hc, lo, hlt, hsync.append (hc.sync hb)⟩

end

def Job.listening : Job → Bool
  | .subscribed _ => true
  | .idle _ _ => true
  | _ => false

section

variable {b b' : Mailbox} {s s' : Session} {events : List ContainerEvent}

theorem notify_deaf (h : s.job.listening = false) (notes : Queue) : s.notify notes = s := by
  obtain ⟨_, _, _, _, job⟩ := s
  cases job <;> first | rfl | cases h

/-- EXPUNGE and MOVE report: the UIDs at the numbers leave the list and the record alike. -/
theorem Coherent.expunged (h : Coherent b s) {pairs : List (Nat × Nat)}
    (hplaced : Placed s.viewUids pairs) (hgone : ∀ p ∈ pairs, p.2 ∉ b.uids) :
    Coherent b (s.expunged (pairs.map Prod.fst) (pairs.map Prod.snd)) := by
  obtain ⟨lo, hlo, hlt, hin⟩ := h.job.covers
  refine ⟨?_, h.ascending.sublist filter_sublist, lo, hlo, fun v hv =>
    hlt v (mem_filter.mp hv).1, fun u hu hul => mem_filter.mpr ⟨hin u hu hul, ?_⟩⟩
  · rw [Session.expunged, h.heard]
    exact hear_expunge hplaced h.ascending
  · simp only [decide_eq_true_eq, mem_map, not_exists, not_and]
    rintro p hp rfl
    exact hgone p hp hu

variable {verb : Verb} {moved : List (Nat × Nat)}

theorem Coherent.finish (h : Coherent b s) {byNumber : Bool} {left : List Row} (hjob : s.job = .rows verb byNumber left moved) :
    Coherent b (s.finish verb moved) := by
  have hfits := h.job
  rw [hjob] at hfits
  unfold Session.finish
  split_ifs with hmove
  · exact h.expunged ((hfits.2 hmove).placed.sublist (sublist_append_left ..))
      (hfits.2 hmove).departed
  · exact ⟨h.heard, h.ascending, hfits.1⟩

/-- The lines of a difference bring the list to the snapshot: what is new in it stands above the view. -/
theorem hear_diffLines (hb : b.Sound) (hview : view.Pairwise (· < ·))
    (hcov : Covers b view) : hearAll ⟨view, true⟩ (diffLines view b.uids) = ⟨b.uids, true⟩ := by
  obtain ⟨lo, -, hlt, hin⟩ := hcov
  have hdrop := hear_dropped (fun u => u ∉ b.uids) view [] true
  have hkept : view.filter (fun u => !decide (u ∉ b.uids)) = b.uids.filter (· < lo) := by
    refine eq_of_ascending (hview.sublist filter_sublist)
      (hb.ascending.sublist filter_sublist) fun u => ?_
    simp only [mem_filter, Bool.not_eq_true', decide_eq_false_iff_not, not_not, decide_eq_true_eq]
    exact ⟨fun h => ⟨h.2, hlt u h.1⟩, fun h => ⟨hin u h.1 h.2, h.1⟩⟩
  have hsplit : b.uids = b.uids.filter (· < lo) ++ b.uids.filter (lo ≤ ·) := by
    refine eq_of_ascending hb.ascending (pairwise_append.mpr ⟨hb.ascending.sublist filter_sublist,
      hb.ascending.sublist filter_sublist, fun u hu v hv => ?_⟩) fun u => ?_
    · exact (of_decide_eq_true (mem_filter.mp hu).2).trans_le (of_decide_eq_true (mem_filter.mp hv).2)
    · simp only [mem_append, mem_filter, decide_eq_true_eq, ← and_or_left, lt_or_ge, and_true]
  rw [append_nil, append_nil, hkept] at hdrop
  rw [diffLines, hearAll, foldl_append]
  change hearAll (hearAll _ _) _ = _
  rw [hdrop]
  split_ifs with hnew
  · have hnext : b.uids.filter (fun u => (b.uids.filter (· < lo)).all (· < u)) =
        b.uids.filter (lo ≤ ·) := by
      refine filter_congr fun u hu => Bool.eq_iff_iff.mpr ?_
      simp only [all_eq_true, mem_filter, decide_eq_true_eq]
      exact ⟨fun h => not_lt.mp fun hul => lt_irrefl u (h u ⟨hu, hul⟩),
        fun h x hx => hx.2.trans_le h⟩
    have hlen := congrArg List.length hsplit
    rw [length_append] at hlen
    simp only [hearAll, hear, hnext, foldl_cons, foldl_nil]
    rw [take_of_length_le (by omega), ← hsplit]
  · have hnone : b.uids.filter (lo ≤ ·) = [] := filter_eq_nil_iff.mpr fun u hu hul => by
      have hmem : u ∈ view := by
        by_contra hnot
        exact hnew (any_eq_true.mpr ⟨u, hu, decide_eq_true hnot⟩)
      exact absurd (hlt u hmem) (not_lt.mpr (of_decide_eq_true hul))
    rw [hnone, append_nil] at hsplit
    exact congrArg (Client.mk · true) hsplit.symm

theorem Coherent.realigned (h : Coherent b s) (hb : b.Sound) {q : Queue} (hdep : Departed b q)
    (hadded : ∀ note ∈ q, ∀ seq, note.1 = .itemAdded seq → seq ∈ b.uids) :
    Coherent b (s.realigned b.uids q) := by
  refine ⟨?_, hb.ascending, hdep, b.nextSeq, hb.below, ?_⟩
  · rw [Session.realigned, h.heard]
    exact hear_diffLines hb h.ascending h.job.covers
  · exact .of_stale hadded fun note hnote seq hseq => (hdep note hnote seq hseq).1

theorem getElem?_takeWhile (hview : view.Pairwise (· < ·)) {seq : Nat}
    (h : seq ∈ view) : view[(view.takeWhile (· < seq)).length]? = some seq := by
  induction view with
  | nil => cases h
  | cons u view ih =>
    obtain ⟨hu, hrest⟩ := pairwise_cons.mp hview
    obtain rfl | h := mem_cons.mp h
    · simp
    · simpa [hu seq h] using ih hrest h

theorem Coherent.event (h : Coherent b s) {note : ContainerEvent × List Nat} {q : Queue}
    (hjob : s.job = .idle (note :: q) false) : Coherent b { s with
      viewUids := (translateEvent note s.viewUids).1
      client := s.client.hearAll (translateEvent note s.viewUids).2
      job := .idle q false } := by
  obtain ⟨hheard, hasc, hfits⟩ := h
  rw [hjob] at hfits
  obtain ⟨hdep, lo, hlt, hsync⟩ := hfits
  have hdep' : Departed b q := fun n hn => hdep n (mem_cons_of_mem note hn)
  rw [hheard]
  cases hsync with
  | known hseq rest =>
    simp only [translateEvent, getElem?_takeWhile hasc hseq]
    exact ⟨rfl, hasc, hdep', lo, hlt, rest⟩
  | @added _ _ seq _ _ _ hle rest =>
    have hnew : ∀ v ∈ s.viewUids, v < seq := fun v hv => (hlt v hv).trans_le hle
    have hall : s.viewUids.takeWhile (· < seq) = s.viewUids :=
      takeWhile_eq_self_iff.mpr fun v hv => decide_eq_true (hnew v hv)
    have hfilter : s.viewUids.filter (fun u => s.viewUids.all (· < u)) = [] :=
      filter_eq_nil_iff.mpr fun u hu hlt => by
        have := all_eq_true.mp hlt u hu
        simp at this
    have hbelow : (s.viewUids.all (· < seq)) = true :=
      all_eq_true.mpr fun v hv => decide_eq_true (hnew v hv)
    simp only [translateEvent, hall, getElem?_length, insertIdx_length_self]
    refine ⟨?_, pairwise_append.mpr ⟨hasc, pairwise_singleton .., fun v hv =>
      forall_mem_singleton.mpr (hnew v hv)⟩, hdep', seq + 1, forall_mem_append.mpr
      ⟨fun v hv => (hnew v hv).le.trans_lt (Nat.lt_succ_self seq),
        forall_mem_singleton.mpr (Nat.lt_succ_self seq)⟩, rest⟩
    simp [hearAll, hear, hfilter, hbelow]
  | @removed _ _ seq _ _ _ _ rest =>
    have herase : s.viewUids.filter (· ≠ seq) = s.viewUids.erase seq :=
      (filter_congr fun v _ => Bool.eq_iff_iff.mpr (by simp)).trans
        (List.Nodup.erase_eq_filter (hasc.imp ne_of_lt) seq).symm
    rw [herase] at rest
    simp only [translateEvent]
    have hlt' : ∀ v ∈ s.viewUids.erase seq, v < lo := fun v hv => hlt v (mem_of_mem_erase hv)
    have hasc' := hasc.sublist (erase_sublist (a := seq))
    rw [erase_eq_eraseIdx] at rest hlt' hasc'
    cases hidx : s.viewUids.idxOf? seq with
    | none =>
      rw [hidx] at rest
      exact ⟨rfl, hasc, hdep', lo, hlt, rest⟩
    | some =>
      rw [hidx] at rest hlt' hasc'
      refine ⟨?_, hasc', hdep', lo, hlt', rest⟩
      obtain ⟨hi, -⟩ := idxOf?_eq_some_iff.mp hidx
      simp [hearAll, hear, Nat.succ_le_of_lt hi]
  | other he rest =>
    obtain rfl | rfl := he <;> exact ⟨rfl, hasc, hdep', lo, hlt, rest⟩

theorem placed_rows (hb : b.Sound) {hits : List Resolved} (hhits : Hits b.sequenceMap.entries hits) :
    Placed b.uids ((hits.filterMap fun r => (b.membership r.itemId).map (Row.mk r)).map fun row =>
      (row.hit.msn, row.hit.uid)) := by
  refine ⟨?_, fun p hp => ?_⟩
  · rw [pairwise_map, pairwise_filterMap]
    refine hhits.ascending.imp fun {r r'} hlt row hrow row' hrow' => ?_
    obtain ⟨-, -, rfl⟩ := Option.map_eq_some_iff.mp hrow
    obtain ⟨-, -, rfl⟩ := Option.map_eq_some_iff.mp hrow'
    exact hlt
  · obtain ⟨_, hrow, rfl⟩ := mem_map.mp hp
    obtain ⟨r, hr, hrow⟩ := mem_filterMap.mp hrow
    obtain ⟨-, -, rfl⟩ := Option.map_eq_some_iff.mp hrow
    exact ⟨(hhits.rows r hr).pos, (hb.row (hhits.rows r hr)).1⟩

variable (h : Coherent b s)
include h

theorem Coherent.command (hb : b.Sound)
    (hread : verb = .move → b.uids = s.viewUids) (byNumber : Bool) (set : SeqSet) :
    Coherent b (s.command b verb byNumber set) := by
  refine ⟨h.heard, h.ascending, h.job.covers, fun hmove => ⟨?_, nofun⟩⟩
  change Placed s.viewUids _
  rw [← hread hmove]
  split_ifs
  · exact placed_rows hb resolveMsn_hits
  · exact placed_rows hb (resolveUid_hits 0)

theorem Coherent.expunge (hb : b.Sound) (hread : b.uids = s.viewUids)
    (set : Option SeqSet) : Coherent b (s.expunge b set) := by
  refine ⟨h.heard, h.ascending, ?_⟩
  unfold Session.expunge
  dsimp only
  split_ifs
  · exact h.job.covers
  have hidx : (b.members.zipIdx.map Prod.snd).Pairwise (· < ·) := by
    rw [zipIdx_map_snd]
    exact pairwise_lt_range'
  rw [pairwise_map] at hidx
  refine ⟨h.job.covers, ⟨?_, fun p hp => ?_⟩, fun t ht => ?_⟩
  · rw [pairwise_map, pairwise_map]
    exact (hidx.sublist filter_sublist).imp Nat.succ_lt_succ
  · rw [map_map] at hp
    obtain ⟨x, hx, rfl⟩ := mem_map.mp hp
    have hat := mem_zipIdx_iff_getElem?.mp (mem_filter.mp hx).1
    refine ⟨Nat.le_add_left .., ?_⟩
    change s.viewUids[x.2]? = some x.1.uid
    rw [← hread, Mailbox.uids, getElem?_map, hat]
    rfl
  · obtain ⟨x, hx, rfl⟩ := mem_map.mp ht
    exact hb.given _ (mem_of_getElem? (mem_zipIdx_iff_getElem?.mp (mem_filter.mp hx).1))

theorem Coherent.doRow (hb : b.Sound) {byNumber : Bool} {row : Row} {left : List Row}
    (hjob : s.job = .rows verb byNumber (row :: left) moved) (accepted : Bool)
    (hsame : verb = .move → ∀ m ∈ b.membership row.hit.itemId, m.uid = row.hit.uid)
    (hstep : s.doRow b verb byNumber row left moved accepted = (b', events, s')) : Coherent b' s' := by
  have hc : b.Commits events b' := by
    have := commits_doRow b s verb byNumber row left moved accepted
    rwa [hstep] at this
  -- the session is at its rows, so the commit of this very row leaves it as it is
  have hafter : Coherent b' s := notify_deaf (s := s) (by rw [hjob]; rfl) _ ▸ h.commit hb hc
  have hfits := hafter.job
  rw [hjob] at hfits
  have hfinish : Coherent b' (s.finish verb moved) := hafter.finish hjob
  have hnext : verb ≠ .move → Coherent b' { s with job := .rows verb byNumber left moved } :=
    fun hne => ⟨hafter.heard, hafter.ascending, hfits.1, fun hmove => absurd hmove hne⟩
  unfold Session.doRow at hstep
  split at hstep
  · split_ifs at hstep <;> cases hstep <;> exact hnext nofun
  · cases hstep
    exact hnext nofun
  · dsimp only at hstep
    split_ifs at hstep <;> cases hstep
    · exact hfinish
    · exact hnext nofun
    · exact hnext nofun
    · exact hfinish
  · split_ifs at hstep <;> cases hstep
    · exact hnext nofun
    · exact hfinish
  · rename_i m hm
    split_ifs at hstep <;> cases hstep
    · obtain ⟨hplaced, hdeparted⟩ := hfits.2 rfl
      have huid : m.uid = row.hit.uid := hsame rfl m hm
      refine ⟨hafter.heard, hafter.ascending, hfits.1, fun _ => ⟨?_, fun p hp => ?_⟩⟩
      · rw [huid, append_assoc]
        exact hplaced
      · obtain hp | hp := mem_append.mp hp
        · exact hdeparted p hp
        · have hin := List.mem_of_find?_eq_some hm
          have hleft := hb.uids_remove [m.id]
          exact fun hmem => by
            have := hleft ▸ hmem
            grind
    · exact hfinish
  · cases hstep
    exact hfinish

theorem Coherent.expungeWrite (hb : b.Sound)
    {targets : List (Nat × ItemId × Nat)} (hjob : s.job = .expunging targets) :
    Coherent (b.removeMemberships (targets.map fun t => t.2.1)).1
      (s.expunged (targets.map Prod.fst) (targets.map fun t => t.2.2)) := by
  have hafter : Coherent (b.removeMemberships (targets.map fun t => t.2.1)).1 s :=
    notify_deaf (s := s) (by rw [hjob]; rfl) _ ▸ h.commit hb (b.commits_remove _)
  have hfits := h.job
  rw [hjob] at hfits
  have hgone := hafter.expunged hfits.2.1 fun p hp hin => by
    obtain ⟨t, ht, rfl⟩ := mem_map.mp hp
    obtain ⟨m, hm, huid⟩ := mem_map.mp hin
    obtain ⟨hm, hnot⟩ := mem_filter.mp hm
    have hid := (huid ▸ hb.given m hm).symm.trans (hfits.2.2 t ht)
    exact of_decide_eq_true hnot (Option.some.inj hid ▸ mem_map_of_mem ht)
  simpa [Function.comp_def] using hgone

omit h

end

structure Told (w : World) : Prop where
  box : w.box.Sound
  sessions : ∀ i, Coherent w.box (w.sessions i)

end Cosmix.Maild
