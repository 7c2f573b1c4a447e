/- source: cosmix-edit-core/src/history.rs, buffer.rs
   digest: The op log is a contiguous suffix that records the texts; lane stacks are disjoint groups of it. -/

import Cosmix.EditCore.Undo

namespace Cosmix.EditCore

open List

/-- Groups in strictly increasing order, disjoint, after the first bound up to the second. -/
def Stacked : Nat → Nat → List Group → Prop
  | lo, hi, [] => lo ≤ hi
  | lo, hi, g :: gs => lo < g.first ∧ g.first ≤ g.last ∧ Stacked g.last hi gs

variable {lo hi : Nat} {gs : List Group} {g : Group} {b : Buffer}

theorem Stacked.le (h : Stacked lo hi gs) : lo ≤ hi := by
  induction gs generalizing lo with
  | nil => exact h
  | cons g gs ih =>
    have := ih h.2.2
    have := h.1
    have := h.2.1
    omega

theorem Stacked.mem (h : Stacked lo hi gs) (hg : g ∈ gs) :
    lo < g.first ∧ g.first ≤ g.last ∧ g.last ≤ hi := by
  induction gs generalizing lo with
  | nil => simp at hg
  | cons x gs ih =>
    obtain ⟨h₁, h₂, h₃⟩ := h
    rcases mem_cons.mp hg with rfl | hg
    · exact ⟨h₁, h₂, h₃.le⟩
    · have := ih h₃ hg
      exact ⟨by omega, this.2⟩

theorem Stacked.raise {lo' hi' : Nat} (h : Stacked lo hi gs) (hlo : lo' ≤ lo) (hhi : hi ≤ hi') :
    Stacked lo' hi' gs := by
  induction gs generalizing lo lo' with
  | nil => exact le_trans hlo (le_trans h hhi)
  | cons g gs ih => exact ⟨lt_of_le_of_lt hlo h.1, h.2.1, ih h.2.2 le_rfl⟩

theorem stacked_append_singleton :
    Stacked lo hi (gs ++ [g]) ↔ Stacked lo (g.first - 1) gs ∧ 0 < g.first ∧ g.first ≤ g.last ∧
      g.last ≤ hi := by
  induction gs generalizing lo with
  | nil =>
    simp only [nil_append, Stacked]
    omega
  | cons x gs ih =>
    simp only [cons_append, Stacked, ih]
    tauto

theorem Stacked.sublist {gs' : List Group} (hsub : gs'.Sublist gs) (h : Stacked lo hi gs) :
    Stacked lo hi gs' := by
  induction hsub generalizing lo with
  | slnil => exact h
  | cons g _ ih =>
    have := h.1
    have := h.2.1
    exact (ih h.2.2).raise (by omega) le_rfl
  | cons_cons g _ ih => exact ⟨h.1, h.2.1, ih h.2.2⟩

theorem Stacked.above {lo' : Nat} (h : Stacked lo hi gs) (hle : lo' ≤ hi)
    (hgs : ∀ g ∈ gs, lo' < g.first) : Stacked lo' hi gs := by
  cases gs with
  | nil => exact hle
  | cons g => exact ⟨hgs g mem_cons_self, h.2⟩

def Group.Disjoint (a b : Group) : Prop := a.last < b.first ∨ b.last < a.first

theorem Stacked.pairwise (h : Stacked lo hi gs) : gs.Pairwise Group.Disjoint := by
  induction gs generalizing lo with
  | nil => exact .nil
  | cons g gs ih =>
    refine pairwise_cons.mpr ⟨?_, ih h.2.2⟩
    intro x hx
    exact .inl (h.2.2.mem hx).1

def OpLog.groups (log : OpLog) : List Group :=
  log.lanes.toList.flatMap fun l => l.2.undo ++ l.2.redo

def OpLog.Names (log : OpLog) (o : Origin) (g : Group) : Prop :=
  ∀ r, g.first ≤ r → r ≤ g.last → ∃ e ∈ log.entries, e.rev = r ∧ e.lane = o

def OpLog.Typed (log : OpLog) (g : Group) : Prop :=
  g.first < g.last → ∀ e ∈ log.entries, g.first ≤ e.rev → e.rev ≤ g.last →
    e.kind = .edit ∧ e.edits.length = 1

/-- The stacks of one lane over a log that ends at a rev. -/
structure LaneOk (log : OpLog) (rev : Nat) (o : Origin) (l : Lane) : Prop where
  undo : Stacked log.base rev l.undo
  redo : Stacked log.base rev l.redo
  named : ∀ g ∈ l.undo ++ l.redo, log.Names o g
  typed : ∀ g ∈ l.undo ++ l.redo, log.Typed g
  apart : ∀ g ∈ l.undo, ∀ h ∈ l.redo, Group.Disjoint g h

structure LogOk (b : Buffer) : Prop where
  revs : b.log.entries.map LogEntry.rev = range' (b.log.base + 1) b.log.entries.length
  top : b.rev = b.log.base + b.log.entries.length
  bytes : b.log.textBytes = (b.log.entries.map entryTextBytes).sum
  count : b.log.entries.length ≤ logMaxEntries
  size : b.log.textBytes ≤ logMaxTextBytes
  lanes : ∀ o l, b.log.lanes[o]? = some l → LaneOk b.log b.rev o l

theorem OpLog.trim_spec {es : List LogEntry} {bytes base : Nat}
    (hrev : es.map LogEntry.rev = range' (base + 1) es.length)
    (hbytes : bytes = (es.map entryTextBytes).sum) : ∃ k ≤ es.length, trim es bytes base =
        (es.drop k, ((es.drop k).map entryTextBytes).sum, base + k, decide (0 < k)) ∧
      (es.drop k).length ≤ logMaxEntries ∧
      ((es.drop k).map entryTextBytes).sum ≤ logMaxTextBytes := by
  induction es generalizing bytes base with
  | nil =>
    refine ⟨0, le_rfl, ?_, Nat.zero_le _, Nat.zero_le _⟩
    simp [trim, hbytes]
  | cons old rest ih =>
    obtain ⟨hold, hrest⟩ := cons.inj hrev
    rw [map_cons, sum_cons] at hbytes
    by_cases hover : (old :: rest).length > logMaxEntries ∨ bytes > logMaxTextBytes
    · obtain ⟨k, hk, htrim, hcount, hsize⟩ :=
        ih hrest (show bytes - entryTextBytes old = _ by omega)
      refine ⟨k + 1, Nat.succ_le_succ hk, ?_, hcount, hsize⟩
      rw [trim, if_pos hover, hold, htrim]
      simp only [drop_succ_cons]
      congr 3
      omega
    · rw [not_or] at hover
      refine ⟨0, Nat.zero_le _, ?_, ?_, ?_⟩
      · rw [trim, if_neg (by omega)]
        simp [hbytes]
      · exact Nat.le_of_not_lt hover.1
      · rw [drop_zero, map_cons, sum_cons, ← hbytes]
        exact Nat.le_of_not_lt hover.2

/-- Pushing an entry keeps an end of a log; lanes change only when it was trimmed. -/
theorem OpLog.push_spec {log : OpLog} {entry : LogEntry}
    (hrev : (log.entries ++ [entry]).map LogEntry.rev =
      range' (log.base + 1) (log.entries ++ [entry]).length)
    (hbytes : log.textBytes = (log.entries.map entryTextBytes).sum) :
    ∃ k ≤ (log.entries ++ [entry]).length, ∃ log', log.push entry =
        (log', if k = 0 then none else some (log.base + k)) ∧
      log'.entries = (log.entries ++ [entry]).drop k ∧ log'.base = log.base + k ∧
      log'.textBytes = (log'.entries.map entryTextBytes).sum ∧
      log'.entries.length ≤ logMaxEntries ∧ log'.textBytes ≤ logMaxTextBytes ∧
      log'.lanes = if k = 0 then log.lanes else
        (log.lanes.map fun _ l => retainGroups log'.base l).filter
          fun _ l => !l.undo.isEmpty || !l.redo.isEmpty := by
  have hsum : log.textBytes + entryTextBytes entry =
      ((log.entries ++ [entry]).map entryTextBytes).sum := by
    rw [hbytes, map_append, sum_append, map_singleton, sum_singleton]
  obtain ⟨k, hk, htrim, hcount, hsize⟩ := trim_spec hrev hsum
  refine ⟨k, hk, (log.push entry).1, ?_⟩
  rcases Nat.eq_zero_or_pos k with rfl | hpos
  · simp only [push, htrim]
    exact ⟨rfl, rfl, rfl, rfl, hcount, hsize, rfl⟩
  · have hne : k ≠ 0 := ne_of_gt hpos
    simp only [push, htrim, hpos, if_neg hne]
    exact ⟨rfl, rfl, rfl, rfl, hcount, hsize, rfl⟩

section

variable {es : List LogEntry} {base : Nat} {e : LogEntry}
  (hrev : es.map LogEntry.rev = range' (base + 1) es.length)
include hrev

theorem eq_of_rev_eq {e' : LogEntry}
    (he : e ∈ es) (he' : e' ∈ es) (h : e.rev = e'.rev) : e = e' := by
  have hnodup : (es.map LogEntry.rev).Nodup := by
    rw [hrev]
    exact nodup_range'
  exact inj_on_of_nodup_map hnodup he he' h

theorem rev_bounds (he : e ∈ es) : base < e.rev ∧ e.rev ≤ base + es.length := by
  have hmem : e.rev ∈ range' (base + 1) es.length := by
    rw [← hrev]
    exact mem_map_of_mem he
  rw [mem_range'_1] at hmem
  omega

theorem mem_drop_of_rev {k : Nat} (he : e ∈ es) (hk : base + k < e.rev) : e ∈ es.drop k := by
  have hsplit : e ∈ es.take k ++ es.drop k := by rwa [take_append_drop]
  rcases mem_append.mp hsplit with hfront | hback
  · have hmem : e.rev ∈ (es.map LogEntry.rev).take k := by
      rw [← map_take]
      exact mem_map_of_mem hfront
    rw [hrev] at hmem
    obtain ⟨i, hi, heq⟩ := mem_take_iff_getElem.mp hmem
    rw [getElem_range'] at heq
    omega
  · exact hback

theorem revs_append (he : e.rev = base + es.length + 1) :
    (es ++ [e]).map LogEntry.rev = range' (base + 1) (es ++ [e]).length := by
  rw [map_append, length_append, map_singleton, length_singleton, range'_1_concat]
  congr 2
  omega

theorem revs_drop (k : Nat) :
    (es.drop k).map LogEntry.rev = range' (base + k + 1) (es.drop k).length := by
  rw [map_drop, hrev, drop_range', length_drop]
  congr 1
  omega

omit hrev

end

section

variable {log log' : OpLog} {rev : Nat} {o : Origin} {l : Lane} {g : Group} {entry : LogEntry}
  {u r : List Group}

theorem LaneOk.mem (h : LaneOk log rev o l) (hg : g ∈ l.undo ++ l.redo) :
    g.first ≤ g.last ∧ g.last ≤ rev := by
  rcases mem_append.mp hg with hg | hg
  · exact (h.undo.mem hg).2
  · exact (h.redo.mem hg).2

theorem LaneOk.sublist (h : LaneOk log rev o l) {l' : Lane} (hu : l'.undo.Sublist l.undo)
    (hr : l'.redo.Sublist l.redo) : LaneOk log rev o l' := by
  have hsub := hu.append hr
  constructor
  · exact h.undo.sublist hu
  · exact h.redo.sublist hr
  · intro g hg
    exact h.named g (hsub.subset hg)
  · intro g hg
    exact h.typed g (hsub.subset hg)
  · intro g hg g' hg'
    exact h.apart g (hu.subset hg) g' (hr.subset hg')

theorem LaneOk.empty (h : log.base ≤ rev) : LaneOk log rev o Lane.empty := by
  constructor <;> simp [Lane.empty, Stacked, h]

theorem LaneOk.congr (h : LaneOk log rev o l) (hentries : log'.entries = log.entries)
    (hbase : log'.base = log.base) : LaneOk log' rev o l := by
  cases log
  cases hentries
  cases hbase
  exact ⟨h.undo, h.redo, h.named, h.typed, h.apart⟩

theorem LaneOk.extend (h : LaneOk log rev o l) (hentry : entry.rev = rev + 1)
    (hentries : log'.entries = log.entries ++ [entry]) (hbase : log'.base = log.base) :
    LaneOk log' (rev + 1) o l := by
  constructor
  · rw [hbase]
    exact h.undo.raise le_rfl (Nat.le_succ _)
  · rw [hbase]
    exact h.redo.raise le_rfl (Nat.le_succ _)
  · intro g hg r hr₁ hr₂
    obtain ⟨e, he, hrev⟩ := h.named g hg r hr₁ hr₂
    refine ⟨e, ?_, hrev⟩
    rw [hentries]
    exact mem_append_left _ he
  · intro g hg hlt e he h₁ h₂
    rw [hentries] at he
    rcases mem_append.mp he with he | he
    · exact h.typed g hg hlt e he h₁ h₂
    · rw [mem_singleton.mp he] at h₂
      have := h.mem hg
      omega
  · exact h.apart

theorem LaneOk.retain (h : LaneOk log rev o l)
    (hrev : log.entries.map LogEntry.rev = range' (log.base + 1) log.entries.length)
    {k : Nat} (hk : log.base + k ≤ rev) (hentries : log'.entries = log.entries.drop k)
    (hbase : log'.base = log.base + k) : LaneOk log' rev o (OpLog.retainGroups log'.base l) := by
  have hsub : LaneOk log rev o (OpLog.retainGroups log'.base l) :=
    h.sublist filter_sublist filter_sublist
  have hlater : ∀ g ∈ (OpLog.retainGroups log'.base l).undo ++
      (OpLog.retainGroups log'.base l).redo, log'.base < g.first := by
    intro g hg
    rcases mem_append.mp hg with hg | hg
    · simpa using (mem_filter.mp hg).2
    · simpa using (mem_filter.mp hg).2
  constructor
  · apply hsub.undo.above (by omega)
    intro g hg
    exact hlater g (mem_append_left _ hg)
  · apply hsub.redo.above (by omega)
    intro g hg
    exact hlater g (mem_append_right _ hg)
  · intro g hg r hr₁ hr₂
    obtain ⟨e, he, her, hlane⟩ := hsub.named g hg r hr₁ hr₂
    have := hlater g hg
    refine ⟨e, ?_, her, hlane⟩
    rw [hentries]
    exact mem_drop_of_rev hrev he (by omega)
  · intro g hg hlt e he h₁ h₂
    rw [hentries] at he
    exact hsub.typed g hg hlt e (mem_of_mem_drop he) h₁ h₂
  · exact hsub.apart

theorem Group.Disjoint.symm {a b : Group} (h : a.Disjoint b) : b.Disjoint a := Or.symm h

theorem LaneOk.swap (h : LaneOk log rev o ⟨u, r⟩) : LaneOk log rev o ⟨r, u⟩ := by
  have hmem : r ++ u ⊆ u ++ r := perm_append_comm.subset
  constructor
  · exact h.redo
  · exact h.undo
  · intro g hg
    exact h.named g (hmem hg)
  · intro g hg
    exact h.typed g (hmem hg)
  · intro g hg g' hg'
    exact (h.apart g' hg' g hg).symm

theorem LaneOk.pushUndo (h : LaneOk log rev o ⟨u, r⟩) (hstack : Stacked log.base rev (u ++ [g]))
    (hnamed : log.Names o g) (htyped : log.Typed g) (hapart : ∀ g' ∈ r, g.Disjoint g') :
    LaneOk log rev o ⟨u ++ [g], r⟩ := by
  have hall : ∀ {P : Group → Prop}, (∀ x ∈ u ++ r, P x) → P g → ∀ x ∈ (u ++ [g]) ++ r, P x := by
    simp only [forall_mem_append, forall_mem_singleton]
    tauto
  constructor
  · exact hstack
  · exact h.redo
  · exact hall h.named hnamed
  · exact hall h.typed htyped
  · exact forall_mem_append.mpr ⟨h.apart, forall_mem_singleton.mpr hapart⟩

theorem LaneOk.newest (h : LaneOk log rev o ⟨u, r⟩) (hentry : entry.rev = rev + 1)
    (hlane : entry.lane = o) (hentries : log'.entries = log.entries ++ [entry])
    (hbase : log'.base = log.base) : LaneOk log' (rev + 1) o ⟨u ++ [⟨rev + 1, rev + 1⟩], r⟩ := by
  apply (h.extend hentry hentries hbase).pushUndo
  · rw [hbase]
    exact stacked_append_singleton.mpr ⟨h.undo, Nat.succ_pos _, le_rfl, le_rfl⟩
  · intro x hx₁ hx₂
    refine ⟨entry, ?_, ?_, hlane⟩
    · rw [hentries]
      exact mem_append_right _ (mem_singleton_self _)
    · rw [hentry]
      exact le_antisymm hx₁ hx₂
  · intro hlt
    exact absurd hlt (lt_irrefl _)
  · intro g' hg'
    exact .inr (Nat.lt_succ_of_le (h.redo.mem hg').2.2)

/-- A coalesced edit extends the top group, which ended at the entry before. -/
theorem LaneOk.coalesced (h : LaneOk log rev o ⟨u ++ [g], []⟩) (hlast : g.last = rev)
    (hend : rev = log.base + log.entries.length)
    (hrev : log.entries.map LogEntry.rev = range' (log.base + 1) log.entries.length)
    {prev : LogEntry} (hprev : prev ∈ log.entries) (hprevRev : prev.rev = rev)
    (hprevEdit : prev.kind = .edit ∧ prev.edits.length = 1) (hentry : entry.rev = rev + 1)
    (hlane : entry.lane = o) (hedit : entry.kind = .edit ∧ entry.edits.length = 1)
    (hentries : log'.entries = log.entries ++ [entry]) (hbase : log'.base = log.base) :
    LaneOk log' (rev + 1) o ⟨u ++ [⟨g.first, rev + 1⟩], []⟩ := by
  have htop : g ∈ (u ++ [g]) ++ [] := by simp
  obtain ⟨hu, hpos, hle, -⟩ := stacked_append_singleton.mp h.undo
  have hbelow : LaneOk log rev o ⟨u, []⟩ :=
    h.sublist (sublist_append_left _ _) (.refl _)
  apply (hbelow.extend hentry hentries hbase).pushUndo
  · rw [hbase]
    exact stacked_append_singleton.mpr ⟨hu, hpos, by simp; omega, le_rfl⟩
  · intro x hx₁ hx₂
    rw [hentries]
    rcases Nat.lt_or_ge rev x with hx | hx
    · exact ⟨entry, by simp, by simp at hx₂; omega, hlane⟩
    · obtain ⟨e, he, her⟩ := h.named g htop x hx₁ (by omega)
      exact ⟨e, mem_append_left _ he, her⟩
  · intro _ e he h₁ h₂
    rw [hentries] at he
    rcases mem_append.mp he with he | he
    · -- an older entry of the run: typed already, or the run was the previous entry alone
      have hbound := rev_bounds hrev he
      rcases Nat.lt_or_ge g.first g.last with hrun | hsingle
      · exact h.typed g htop hrun e he h₁ (by omega)
      · rw [eq_of_rev_eq hrev he hprev (by simp at h₁; omega)]
        exact hprevEdit
    · rw [mem_singleton.mp he]
      exact hedit
  · simp

end

namespace Buffer

variable {b : Buffer}

theorem coalesces_spec {c : Commit} {seq : List Edit} (h : b.coalesces c seq = true) :
    c.kind = .edit ∧ ∃ u g prev x y, (b.log.lane c.lane).undo = u ++ [g] ∧ g.last = b.rev ∧
      b.log.entries.getLast? = some prev ∧ prev.rev = b.rev ∧ prev.kind = .edit ∧
      prev.edits = [x] ∧ seq = [y] ∧ contiguous x y = true := by
  unfold coalesces at h
  rw [Bool.and_eq_true, Bool.and_eq_true] at h
  obtain ⟨⟨-, hkind⟩, h⟩ := h
  split at h
  · next e g prev hg hprev =>
    simp only [Bool.and_eq_true, beq_iff_eq] at h hkind
    obtain ⟨⟨⟨⟨hlast, hrev⟩, hedit⟩, -⟩, hone⟩ := h
    obtain ⟨u, hu⟩ := getLast?_eq_some_iff.mp hg
    split at hone
    · next p hp => exact ⟨hkind, u, g, prev, p, e, hu, hlast, hprev, hrev, hedit, hp, rfl, hone⟩
    · cases hone
  · cases h

theorem lane_ok (h : LogOk b) (o : Origin) : LaneOk b.log b.rev o (b.log.lane o) := by
  unfold OpLog.lane
  cases hl : b.log.lanes[o]? with
  | none =>
    have := h.top
    exact LaneOk.empty (by omega)
  | some l => exact h.lanes o l hl

theorem recordIn_ok (h : LogOk b) {c : Commit} {entry : LogEntry} {log' : OpLog}
    (hentry : entry.rev = b.rev + 1) (hlane : entry.lane = c.lane) (hkind : entry.kind = c.kind)
    (hentries : log'.entries = b.log.entries ++ [entry]) (hbase : log'.base = b.log.base) :
    LaneOk log' (b.rev + 1) c.lane
      (recordIn (b.log.lane c.lane) c.kind (b.rev + 1) (b.coalesces c entry.edits)) := by
  have hold := lane_ok h c.lane
  -- a group of its own, over any part of the old stacks
  have hnew : ∀ u r : List Group, u.Sublist (b.log.lane c.lane).undo →
      r.Sublist (b.log.lane c.lane).redo →
      LaneOk log' (b.rev + 1) c.lane ⟨u ++ [⟨b.rev + 1, b.rev + 1⟩], r⟩ ∧
        LaneOk log' (b.rev + 1) c.lane ⟨u, r ++ [⟨b.rev + 1, b.rev + 1⟩]⟩ := by
    intro u r hu hr
    have hsub : LaneOk b.log b.rev c.lane ⟨u, r⟩ := hold.sublist hu hr
    exact ⟨hsub.newest hentry hlane hentries hbase,
      (hsub.swap.newest hentry hlane hentries hbase).swap⟩
  have hedit : LaneOk log' (b.rev + 1) c.lane
      (recordIn (b.log.lane c.lane) .edit (b.rev + 1) (b.coalesces c entry.edits)) := by
    unfold recordIn
    dsimp only
    split
    · next g hg hco =>
      obtain ⟨hck, u, g', _, x, y, hu, hlast, hprev, hprevRev, hprevKind, hx, hy, -⟩ :=
        coalesces_spec hco
      have hgg : g' = g := by
        rw [hu, getLast?_concat] at hg
        exact Option.some.inj hg
      subst hgg
      have htop : LaneOk b.log b.rev c.lane ⟨u ++ [g'], []⟩ :=
        hold.sublist (by rw [hu]) (nil_sublist _)
      rw [hu, dropLast_concat]
      exact htop.coalesced hlast h.top h.revs (mem_of_getLast? hprev) hprevRev
        ⟨hprevKind, by rw [hx]; rfl⟩ hentry hlane ⟨hkind.trans hck, by rw [hy]; rfl⟩ hentries hbase
    · exact (hnew _ _ (.refl _) (nil_sublist _)).1
  cases c.kind with
  | edit | reload => exact hedit
  | undo => exact (hnew _ _ (dropLast_sublist _) (.refl _)).2
  | redo => exact (hnew _ _ (.refl _) (dropLast_sublist _)).1

end Buffer

open Buffer

def Buffer.entryOf (b : Buffer) (c : Commit) (deleted : List Str) (seq : List Edit) : LogEntry :=
  ⟨b.rev + 1, c.origin, c.lane, c.kind, seq, deleted, c.via, c.opId, c.nowMs⟩

def Buffer.laneAfter (b : Buffer) (c : Commit) (seq : List Edit) : Lane :=
  recordIn (b.log.lane c.lane) c.kind (b.rev + 1) (b.coalesces c seq)

/-- After a commit: the entry at the end; other lanes only with a trimmed front. -/
theorem LogOk.record_log (h : LogOk b) (c : Commit) (deleted : List Str)
    (prepared : Prepared b.text) (cursor : Option Nat) :
    ∃ k ≤ b.log.entries.length + 1, ∃ log', (b.record c deleted prepared cursor).1.log = log' ∧
      log'.entries = (b.log.entries ++ [b.entryOf c deleted prepared.sequence]).drop k ∧
      log'.base = b.log.base + k ∧ log'.textBytes = (log'.entries.map entryTextBytes).sum ∧
      log'.entries.length ≤ logMaxEntries ∧ log'.textBytes ≤ logMaxTextBytes ∧
      log'.lanes = if k = 0 then b.log.lanes.insert c.lane (b.laneAfter c prepared.sequence) else
        ((b.log.lanes.insert c.lane (b.laneAfter c prepared.sequence)).map
          fun _ l => OpLog.retainGroups log'.base l).filter
            fun _ l => !l.undo.isEmpty || !l.redo.isEmpty := by
  let log₁ : OpLog :=
    { b.log with lanes := b.log.lanes.insert c.lane (b.laneAfter c prepared.sequence) }
  have hrev : (log₁.entries ++ [b.entryOf c deleted prepared.sequence]).map LogEntry.rev =
      range' (log₁.base + 1) (log₁.entries ++ [b.entryOf c deleted prepared.sequence]).length :=
    revs_append h.revs (by rw [← h.top]; rfl)
  obtain ⟨k, hk, log', hpush, hrest⟩ := OpLog.push_spec hrev h.bytes
  refine ⟨k, ?_, log', congrArg Prod.fst hpush, hrest⟩
  rwa [length_append] at hk

theorem LogOk.record (h : LogOk b) (c : Commit) (deleted : List Str) (prepared : Prepared b.text)
    (cursor : Option Nat) : LogOk (b.record c deleted prepared cursor).1 := by
  obtain ⟨k, hk, _, rfl, hentries, hbase, hbytes, hcount, hsize, hlanes⟩ :=
    h.record_log c deleted prepared cursor
  have hentry : (b.entryOf c deleted prepared.sequence).rev = b.rev + 1 := rfl
  have hrev := revs_append h.revs (hentry.trans (congrArg Nat.succ h.top))
  -- the log with the entry and nothing trimmed yet
  let log₂ : OpLog := { b.log with
    entries := b.log.entries ++ [b.entryOf c deleted prepared.sequence] }
  have huntrimmed : ∀ o l,
      (b.log.lanes.insert c.lane (b.laneAfter c prepared.sequence))[o]? = some l →
        LaneOk log₂ (b.rev + 1) o l := by
    intro o l hl
    simp only [Std.ExtTreeMap.getElem?_insert, Std.LawfulEqCmp.compare_eq_iff_eq] at hl
    split at hl
    · next ho =>
      subst ho
      rw [← Option.some.inj hl]
      exact recordIn_ok h hentry rfl rfl (show log₂.entries = b.log.entries ++ [_] from rfl) rfl
    · exact (h.lanes o l hl).extend hentry rfl rfl
  have hnew : (b.record c deleted prepared cursor).1.rev = b.rev + 1 := rfl
  have htop := h.top
  constructor
  · rw [hentries, hbase]
    exact revs_drop hrev k
  · rw [hentries, length_drop, length_append, length_singleton]
    omega
  · exact hbytes
  · exact hcount
  · exact hsize
  · intro o l hl
    rw [hlanes] at hl
    split at hl
    · next hzero =>
      subst hzero
      exact (huntrimmed o l hl).congr hentries hbase
    rw [Std.ExtTreeMap.getElem?_filter', Std.ExtTreeMap.getElem?_map] at hl
    obtain ⟨hl, -⟩ := Option.filter_eq_some_iff.mp hl
    obtain ⟨l₀, hl₀, rfl⟩ := Option.map_eq_some_iff.mp hl
    apply (huntrimmed o l₀ hl₀).retain hrev ?_ hentries hbase
    show b.log.base + k ≤ b.rev + 1
    omega

theorem LogOk.step (h : LogOk b) (r : Request) : LogOk (b.step r) := by
  rcases step_cases b r with hsame | hpoint | ⟨items, c, a, -, hcommit⟩
  · rwa [hsame]
  · obtain ⟨-, hlog, hrev⟩ := hpoint.fixed
    obtain ⟨h₁, h₂, h₃, h₄, h₅, h₆⟩ := h
    constructor <;> rw [hlog] <;> try rw [hrev]
    all_goals assumption
  · obtain ⟨_, prepared, cursor, -, -, -, hb⟩ := commitTxn_ok hcommit
    have hrecord := h.record c (deletedOf b.text items) prepared cursor
    rwa [← hb] at hrecord

theorem LogOk.withText (t : Text) : LogOk (Buffer.withText t) := by
  constructor <;> simp [Buffer.withText, OpLog.empty]

theorem LogOk.run (t : Text) (rs : List Request) : LogOk ((Buffer.withText t).run rs) :=
  Buffer.run_induction _ (LogOk.withText t) (fun _ r h => h.step r) rs

theorem LogOk.disjoint_of_ne (h : LogOk b) {o o' : Origin} (hne : o ≠ o') {g' : Group}
    (hle : g.first ≤ g.last) (hle' : g'.first ≤ g'.last) (hg : b.log.Names o g)
    (hg' : b.log.Names o' g') : g.Disjoint g' := by
  unfold Group.Disjoint
  by_contra hover
  -- a rev both groups hold
  obtain ⟨r, hr₁, hr₂, hr₃, hr₄⟩ :
      ∃ r, g.first ≤ r ∧ r ≤ g.last ∧ g'.first ≤ r ∧ r ≤ g'.last :=
    ⟨max g.first g'.first, by omega, by omega, by omega, by omega⟩
  obtain ⟨e, he, herev, helane⟩ := hg r hr₁ hr₂
  obtain ⟨e', he', herev', helane'⟩ := hg' r hr₃ hr₄
  have hsame : e = e' := eq_of_rev_eq h.revs he he' (herev.trans herev'.symm)
  exact hne (helane.symm.trans ((congrArg LogEntry.lane hsame).trans helane'))

theorem LogOk.groups_disjoint (h : LogOk b) : b.log.groups.Pairwise Group.Disjoint := by
  unfold OpLog.groups
  rw [pairwise_flatMap]
  constructor
  · rintro ⟨o, l⟩ hl
    have hok := h.lanes o l (Std.ExtTreeMap.mem_toList_iff_getElem?_eq_some.mp hl)
    exact pairwise_append.mpr ⟨hok.undo.pairwise, hok.redo.pairwise, hok.apart⟩
  · refine Std.ExtTreeMap.distinct_keys_toList.imp_of_mem ?_
    rintro ⟨o, l⟩ ⟨o', l'⟩ hl hl' hne g hg g' hg'
    have hok := h.lanes o l (Std.ExtTreeMap.mem_toList_iff_getElem?_eq_some.mp hl)
    have hok' := h.lanes o' l' (Std.ExtTreeMap.mem_toList_iff_getElem?_eq_some.mp hl')
    have hdiff : o ≠ o' := by
      rintro rfl
      exact hne Std.ReflCmp.compare_self
    exact h.disjoint_of_ne hdiff (hok.mem hg).1 (hok'.mem hg').1 (hok.named g hg)
      (hok'.named g' hg')

/-- In every reachable buffer the log is the revs after its base, within its limits, and the stacks
are ascending disjoint groups of entries of their lane, coalesced ones of single edits. -/
theorem Buffer.run_log_and_stacks (t : Text) (rs : List Request) :
    let b := (Buffer.withText t).run rs
    b.log.entries.map LogEntry.rev = range' (b.log.base + 1) (b.rev - b.log.base) ∧
      b.log.base ≤ b.rev ∧
      b.log.textBytes = (b.log.entries.map entryTextBytes).sum ∧
      b.log.entries.length ≤ logMaxEntries ∧ b.log.textBytes ≤ logMaxTextBytes ∧
      (∀ o l, b.log.lanes[o]? = some l →
        Stacked b.log.base b.rev l.undo ∧ Stacked b.log.base b.rev l.redo ∧
        ∀ g ∈ l.undo ++ l.redo, b.log.Names o g ∧ b.log.Typed g) ∧
      b.log.groups.Pairwise Group.Disjoint := by
  intro b
  have h : LogOk b := LogOk.run t rs
  have htop := h.top
  refine ⟨?_, by omega, h.bytes, h.count, h.size, ?_, h.groups_disjoint⟩
  · rw [h.revs, htop, Nat.add_sub_cancel_left]
  · intro o l hl
    have hok := h.lanes o l hl
    refine ⟨hok.undo, hok.redo, ?_⟩
    intro g hg
    exact ⟨hok.named g hg, hok.typed g hg⟩

open Cosmix.Lib.Weave
open Cosmix.Lib.Coding

/-- An entry describes a change: canonical steps, and the deleted texts that stood there. -/
structure Faithful (u : List UInt8) (e : LogEntry) : Prop where
  chain : Chain 0 u.length (e.edits.map Edit.item).reverse
  bounds : ∀ x ∈ e.edits, boundary utf8 u x.offset = true ∧
    boundary utf8 u (x.offset + x.delete) = true
  deleted : e.deleted.map Str.bytes = e.edits.map fun x => seg u x.offset (x.offset + x.delete)

/-- The text a run had at a rev: the first one of the run at that rev or later. -/
def Buffer.textAt (b : Buffer) : List Request → Nat → List UInt8
  | [], _ => b.text.bytes
  | q :: qs, r => if r ≤ b.rev then b.text.bytes else (b.step q).textAt qs r

/-- The retained entries lead from each text to the next, up to the current one. -/
structure Recorded (texts : Nat → List UInt8) (b : Buffer) : Prop where
  now : texts b.rev = b.text.bytes
  coded : ∀ r ≤ b.rev, Coded utf8 (texts r)
  entry : ∀ e ∈ b.log.entries, Faithful (texts (e.rev - 1)) e ∧
    texts e.rev = applySeq (texts (e.rev - 1)) e.edits

namespace Buffer

theorem step_rev (b : Buffer) (r : Request) :
    ((b.step r).text = b.text ∧ (b.step r).log = b.log ∧ (b.step r).rev = b.rev) ∨
      (b.step r).rev = b.rev + 1 := by
  rcases step_cases b r with hsame | hpoint | ⟨_, c, a, -, hcommit⟩
  · rw [hsame]
    exact .inl ⟨rfl, rfl, rfl⟩
  · exact .inl hpoint.fixed
  · obtain ⟨_, _, _, -, -, -, hb⟩ := commitTxn_ok hcommit
    exact .inr (congrArg (fun x => x.1.rev) hb)

theorem rev_le_step (b : Buffer) (r : Request) : b.rev ≤ (b.step r).rev := by
  rcases step_rev b r with ⟨-, -, h⟩ | h
  · exact le_of_eq h.symm
  · omega

theorem run_append (b : Buffer) (rs rs' : List Request) : b.run (rs ++ rs') = (b.run rs).run rs' :=
  foldl_append

theorem textAt_append (b : Buffer) (rs : List Request) (q : Request) (r : Nat) :
    b.textAt (rs ++ [q]) r =
      if r ≤ (b.run rs).rev then b.textAt rs r else ((b.run rs).step q).text.bytes := by
  induction rs generalizing b with
  | nil =>
    rfl
  | cons x rs ih =>
    have hrun : b.run (x :: rs) = (b.step x).run rs := rfl
    have hmono : b.rev ≤ ((b.step x).run rs).rev :=
      run_induction (Q := fun b' => b.rev ≤ b'.rev) _ (rev_le_step b x)
        (fun b' q' h => h.trans (rev_le_step b' q')) rs
    rw [cons_append, textAt, textAt, ih, hrun]
    by_cases hr : r ≤ b.rev
    · rw [if_pos hr, if_pos (hr.trans hmono), if_pos hr]
    · rw [if_neg hr, if_neg hr]

theorem faithful_entryOf {b : Buffer} {items : List Resolved} {p : Prepared b.text}
    (hp : p.sequence = sequenceOf items) (c : Commit) :
    Faithful b.text.bytes (b.entryOf c (deletedOf b.text items) p.sequence) := by
  constructor
  · exact p.admissible.1
  · exact p.admissible.2
  · have hbounds := p.admissible.2
    simp only [entryOf, hp, sequenceOf, deletedOf, map_map] at hbounds ⊢
    apply map_congr_left
    intro x hx
    have hx' := hbounds _ (mem_map_of_mem hx)
    simp only [Function.comp_apply]
    by_cases hle : x.s ≤ x.e
    · rw [Nat.add_sub_cancel' hle] at hx' ⊢
      rw [Text.read, dif_pos ⟨hx'.1, hx'.2, hle⟩]
      rfl
    -- a reversed range removes nothing
    rw [Text.read, dif_neg fun h => hle h.2.2, show x.e - x.s = 0 by omega, add_zero, seg_self]
    rfl

end Buffer

open Buffer

theorem Recorded.congr {texts texts' : Nat → List UInt8} {b b' : Buffer} (h : Recorded texts b)
    (hlog : LogOk b) (hsame : b'.text = b.text ∧ b'.log = b.log ∧ b'.rev = b.rev)
    (htexts : ∀ r ≤ b.rev, texts' r = texts r) : Recorded texts' b' := by
  obtain ⟨h₁, h₂, h₃⟩ := hsame
  constructor
  · rw [h₃, htexts _ le_rfl, h₁]
    exact h.now
  · intro r hr
    rw [h₃] at hr
    rw [htexts r hr]
    exact h.coded r hr
  · intro e he
    rw [h₂] at he
    have hbound := rev_bounds hlog.revs he
    have htop := hlog.top
    rw [htexts _ (show e.rev - 1 ≤ b.rev by omega), htexts _ (show e.rev ≤ b.rev by omega)]
    exact h.entry e he

theorem Recorded.commit {texts texts' : Nat → List UInt8} {b : Buffer} (h : Recorded texts b)
    (hlog : LogOk b) {items : List Resolved} {c : Commit} {r : Buffer × Applied}
    (hcommit : b.commitTxn items c = .ok r) (htexts : ∀ n ≤ b.rev, texts' n = texts n)
    (hnew : texts' (b.rev + 1) = r.1.text.bytes) : Recorded texts' r.1 := by
  obtain ⟨_, p, cursor, -, -, hprep, rfl⟩ := commitTxn_ok hcommit
  have hseq : p.sequence = sequenceOf items := Text.prepare_ok hprep
  obtain ⟨k, -, log', hlog', hentries, -⟩ := hlog.record_log c (deletedOf b.text items) p cursor
  constructor
  · exact hnew
  · intro n hn
    rcases Nat.lt_or_ge b.rev n with hlt | hle
    · have hn' : n = b.rev + 1 := le_antisymm hn hlt
      rw [hn', hnew]
      exact Text.valid _
    · rw [htexts n hle]
      exact h.coded n hle
  · intro e he
    rw [hlog', hentries] at he
    rcases mem_append.mp (mem_of_mem_drop he) with he | he
    · have hbound := rev_bounds hlog.revs he
      have htop := hlog.top
      rw [htexts _ (show e.rev - 1 ≤ b.rev by omega), htexts _ (show e.rev ≤ b.rev by omega)]
      exact h.entry e he
    · rw [mem_singleton.mp he]
      have hold : texts' ((b.entryOf c (deletedOf b.text items) p.sequence).rev - 1) =
          b.text.bytes := by
        rw [← h.now, ← htexts b.rev le_rfl]
        rfl
      rw [hold]
      exact ⟨faithful_entryOf hseq c, hnew⟩

/-- In every run the log leads through the texts the run had. -/
theorem Recorded.run (t : Text) (rs : List Request) :
    Recorded ((Buffer.withText t).textAt rs) ((Buffer.withText t).run rs) := by
  induction rs using reverseRecOn with
  | nil =>
    constructor
    · rfl
    · intro r hr
      exact t.valid
    · intro e he
      cases he
  | append_singleton rs q ih =>
    have hlog := LogOk.run t rs
    have hold : ∀ r ≤ ((Buffer.withText t).run rs).rev,
        (Buffer.withText t).textAt (rs ++ [q]) r = (Buffer.withText t).textAt rs r := by
      intro r hr
      rw [textAt_append, if_pos hr]
    rw [run_append]
    rcases step_cases ((Buffer.withText t).run rs) q with hsame | hpoint | ⟨items, c, a, -, hcommit⟩
    · exact ih.congr hlog (by rw [show Buffer.run _ [q] = _ from hsame]; exact ⟨rfl, rfl, rfl⟩) hold
    · exact ih.congr hlog hpoint.fixed hold
    · refine ih.commit hlog hcommit hold ?_
      rw [textAt_append, if_neg (by omega)]

end Cosmix.EditCore
