/- source: cosmix-edit-core/src/buffer.rs, history.rs
   digest: In one lane the stacks nest over the log. -/

import Cosmix.EditCore.Inverse

namespace Cosmix.EditCore

open Cosmix.Lib.Weave List
open Cosmix.Lib.Coding

/-- An entry takes back or brings back the group that starts at a rev. -/
def Targets (e : LogEntry) (r : Nat) : Prop := ∃ of, e.kind.target = some of ∧ of.first = r

def plainRed (e : LogEntry) : Red := ⟨e, e.edits.map RawEdit.of⟩

/-- Entries of a whole group, composable. -/
structure Whole (G : List LogEntry) (of : Group) : Prop where
  le : of.first ≤ of.last
  revs : G.map LogEntry.rev = range' of.first (of.last + 1 - of.first)
  composes : ∃ inv, composeMembers (G.map fun e =>
    (e.rev, e.edits.map RawEdit.of, (e.edits.map RawEdit.of).map RawEdit.dd)) = .ok inv

/-- History made of groups followed, after more such history, by the entry that cancels them. -/
inductive Balanced : List LogEntry → Prop
  | nil : Balanced []
  | pair {B₁ G B₂ : List LogEntry} {c : LogEntry} {of : Group} (h₁ : Balanced B₁)
      (h₂ : Balanced B₂) (hG : Whole G of) (hc : c.kind.target = some of)
      (hfree : ∀ e ∈ G ++ B₂, ∀ x ∈ G, ¬ Targets e x.rev) : Balanced (B₁ ++ (G ++ (B₂ ++ [c])))

theorem Balanced.append {B B' : List LogEntry} (h : Balanced B) (h' : Balanced B') :
    Balanced (B ++ B') := by
  induction h' with
  | nil => rwa [append_nil]
  | pair _ h₂ hG hc hfree ih₁ =>
    rw [← append_assoc]
    exact .pair ih₁ h₂ hG hc hfree

variable {red : List Red}

theorem reduceStep_plain {e : LogEntry} (h : ∀ r ∈ red, ¬ Targets e r.entry.rev) :
    reduceStep red e = red ++ [plainRed e] := by
  unfold reduceStep
  cases htarget : e.kind.target with
  | none => rfl
  | some of =>
    have hnone : red.findIdx? (fun r => r.entry.rev == of.first) = none := by
      rw [findIdx?_eq_none_iff]
      intro r hr
      rw [beq_eq_false_iff_ne]
      intro heq
      exact h r hr ⟨of, htarget, heq.symm⟩
    simp only [findWhole, hnone]
    rfl

variable {G : List LogEntry}

theorem foldl_plain (hred : ∀ e ∈ G, ∀ r ∈ red, ¬ Targets e r.entry.rev)
    (hG : ∀ e ∈ G, ∀ x ∈ G, ¬ Targets e x.rev) :
    G.foldl reduceStep red = red ++ G.map plainRed := by
  induction G generalizing red with
  | nil => simp
  | cons e G ih =>
    rw [foldl_cons, reduceStep_plain (hred e mem_cons_self), ih, map_cons,
      append_assoc, singleton_append]
    · intro e' he'
      exact forall_mem_append.mpr ⟨hred e' (mem_cons_of_mem _ he'),
        forall_mem_singleton.mpr (hG e' (mem_cons_of_mem _ he') e mem_cons_self)⟩
    · intro e' he' x hx
      exact hG e' (mem_cons_of_mem _ he') x (mem_cons_of_mem _ hx)

/-- The entry that takes back a whole group at the end of the list removes it. -/
theorem reduceStep_cancel {c : LogEntry} {of : Group} (hG : Whole G of)
    (hc : c.kind.target = some of) (hred : ∀ r ∈ red, r.entry.rev ≠ of.first) :
    reduceStep (red ++ G.map plainRed) c = red := by
  have hle := hG.le
  have hrevs := hG.revs
  have hlen : G.length = of.last - of.first + 1 := by
    have := congrArg List.length hrevs
    rw [length_map, length_range'] at this
    omega
  have hfind : findWhole (red ++ G.map plainRed) of = some red.length := by
    have hnone : red.findIdx? (fun r => r.entry.rev == of.first) = none := by
      rw [findIdx?_eq_none_iff]
      intro r hr
      exact beq_eq_false_iff_ne.mpr (hred r hr)
    have hhead : (G.map plainRed).findIdx? (fun r => r.entry.rev == of.first) = some 0 := by
      cases G with
      | nil => cases hlen
      | cons e =>
        rw [show of.last + 1 - of.first = (of.last - of.first) + 1 by omega] at hrevs
        have he : e.rev = of.first := (cons.inj hrevs).1
        simp [findIdx?_cons, plainRed, he]
    have hzip : ((G.map fun e => (plainRed e).entry.rev).zip
        (range' of.first (of.last + 1 - of.first))).all (fun i => i.1 == i.2) = true := by
      have hsame : ∀ l : List Nat, (l.zip l).all (fun i => i.1 == i.2) = true := by
        intro l
        induction l with
        | nil => rfl
        | cons n l ih => simpa using ih
      rw [show (G.map fun e => (plainRed e).entry.rev) = G.map LogEntry.rev from rfl, hrevs]
      exact hsame _
    simp only [findWhole, findIdx?_append, hnone, hhead, Option.none_or, Option.map_some,
      zero_add, drop_left, length_append, length_map, ← hlen]
    rw [take_of_length_le (by rw [length_map]), map_map]
    exact if_pos ⟨le_rfl, hzip⟩
  obtain ⟨inv, hinv⟩ := hG.composes
  have hexclude : exclude (G.map plainRed) [] = some [] := by
    rw [exclude, map_map]
    erw [hinv]
    rfl
  unfold reduceStep
  simp only [hc, hfind, ← hlen, drop_left]
  rw [take_of_length_le (by rw [length_map]),
    drop_eq_nil_of_le (by rw [length_append, length_map]), hexclude]
  simp

/-- Balanced history leaves no trace. -/
theorem foldl_balanced {B : List LogEntry} (h : Balanced B)
    (hred : ∀ e ∈ B, ∀ r ∈ red, ¬ Targets e r.entry.rev) : B.foldl reduceStep red = red := by
  induction h generalizing red with
  | nil => rfl
  | @pair B₁ G B₂ c of _ _ hG hc hfree ih₁ ih₂ =>
    have hmem : ∀ {e : LogEntry}, e ∈ B₁ ∨ e ∈ G ∨ e ∈ B₂ ∨ e = c →
        ∀ r ∈ red, ¬ Targets e r.entry.rev := by
      intro e he
      apply hred
      simpa using he
    rw [foldl_append, ih₁ fun e he => hmem (.inl he), foldl_append,
      foldl_plain (fun e he => hmem (.inr (.inl he)))
        (fun e he => hfree e (mem_append_left _ he)), foldl_append, ih₂]
    · apply reduceStep_cancel hG hc
      intro r hr heq
      exact hmem (.inr (.inr (.inr rfl))) r hr ⟨of, hc, heq.symm⟩
    · intro e he
      exact forall_mem_append.mpr ⟨hmem (.inr (.inr (.inl he))),
        forall_mem_map.mpr (hfree e (mem_append_right _ he))⟩

/-- The groups of a stack in the log; after each, history cancels out up to the next, and the text
is as after it. -/
inductive Nest (texts : Nat → List UInt8) : List LogEntry → List Group → Prop
  | bottom (es : List LogEntry) : Nest texts es []
  | group {es G B : List LogEntry} {gs : List Group} (h : Nest texts es gs) (hG : Typing G)
      (hB : Balanced B) (htext : texts (es ++ (G ++ B)).length = texts (es ++ G).length) :
      Nest texts (es ++ (G ++ B)) (gs ++ [⟨es.length + 1, (es ++ G).length⟩])

section

variable {texts : Nat → List UInt8} {es : List LogEntry} {gs S R : List Group} {g : Group}
  {e : LogEntry} {texts' : Nat → List UInt8}

theorem Nest.congr (h : Nest texts es gs)
    (hsame : ∀ n ≤ es.length, texts' n = texts n) : Nest texts' es gs := by
  induction h with
  | bottom es => exact .bottom es
  | @group es G B gs _ hG hB htext ih =>
    simp only [length_append] at hsame htext
    refine .group (ih fun n hn => hsame n (by omega)) hG hB ?_
    simp only [length_append]
    rw [hsame _ le_rfl, hsame _ (by omega), htext]

theorem Nest.extend {X : List LogEntry} (h : Nest texts es gs) (hX : Balanced X)
    (htext : texts (es ++ X).length = texts es.length) : Nest texts (es ++ X) gs := by
  cases h with
  | bottom => exact .bottom _
  | @group es G B gs h hG hB htext' =>
    rw [append_assoc, append_assoc]
    refine .group h hG (hB.append hX) ?_
    rw [← htext', ← htext]
    simp only [append_assoc]

theorem Nest.top (h : Nest texts es (gs ++ [g])) :
    ∃ es₀ G B, es = es₀ ++ (G ++ B) ∧ Nest texts es₀ gs ∧ Typing G ∧ Balanced B ∧
      texts es.length = texts (es₀ ++ G).length ∧ g = ⟨es₀.length + 1, (es₀ ++ G).length⟩ := by
  generalize hl : gs ++ [g] = l at h
  cases h with
  | bottom => exact absurd hl (by simp)
  | @group es₀ G B gs' h hG hB htext =>
    obtain ⟨rfl, hg⟩ := append_inj' hl rfl
    exact ⟨es₀, G, B, rfl, h, hG, hB, htext, singleton_inj.mp hg⟩

theorem Typing.ne_nil (h : Typing G) : G ≠ [] := by
  cases h <;> simp

theorem Typing.whole (h : Typing G) (hlead : Leads texts G) {first : Nat}
    (hrev : G.map LogEntry.rev = range' (first + 1) G.length) :
    Whole G ⟨first + 1, first + G.length⟩ := by
  have hpos : 0 < G.length := length_pos_iff.mpr h.ne_nil
  have hpay : ∀ e ∈ G, Payloads (fun (_ : Nat) _ _ => True) (texts (e.rev - 1))
      ((e.edits.map RawEdit.of).map RawEdit.dd) e.edits := by
    intro e _
    rw [Payloads, forall₂_map_left_iff, forall₂_map_left_iff, forall₂_same]
    intro _ _
    trivial
  obtain ⟨out, -, hout, -⟩ := composeMembers_typing h hlead hpay hrev
  constructor
  · show first + 1 ≤ first + G.length
    omega
  · rw [hrev]
    congr 1
    show G.length = first + G.length + 1 - (first + 1)
    omega
  · exact ⟨out, hout⟩

/-- Two stacks nested over one log, with nothing in it taking back a group they still hold. -/
structure Nav (texts : Nat → List UInt8) (es : List LogEntry) (S R : List Group) : Prop where
  revs : es.map LogEntry.rev = range' 1 es.length
  leads : Leads texts es
  left : Nest texts es S
  right : Nest texts es R
  past : ∀ e ∈ es, ∀ r, Targets e r → r < e.rev
  free : ∀ e ∈ es, ∀ r, Targets e r → ∀ g ∈ S ++ R, ¬ (g.first ≤ r ∧ r ≤ g.last)

theorem Nav.swap (h : Nav texts es S R) : Nav texts es R S := by
  refine ⟨h.revs, h.leads, h.right, h.left, h.past, ?_⟩
  intro e he r hr g hg
  exact h.free e he r hr g (mem_append.mpr (mem_append.mp hg).symm)

theorem Nav.rev_le (h : Nav texts es S R) (he : e ∈ es) : e.rev ≤ es.length := by
  have hrevs : es.map LogEntry.rev = range' (0 + 1) es.length := h.revs
  have := rev_bounds hrevs he
  omega

theorem Nav.snoc (h : Nav texts es S R) (hrev : e.rev = es.length + 1) (hlead : Leads texts [e])
    {S' R' : List Group} (hleft : Nest texts (es ++ [e]) S') (hright : Nest texts (es ++ [e]) R')
    (hgroups : ∀ g ∈ S' ++ R', ∀ r < es.length, g.first ≤ r → r ≤ g.last →
      ∃ g₀ ∈ S ++ R, g₀.first ≤ r ∧ r ≤ g₀.last)
    (hnew : ∀ r, Targets e r → r < e.rev ∧ ∀ g ∈ S' ++ R', ¬ (g.first ≤ r ∧ r ≤ g.last)) :
    Nav texts (es ++ [e]) S' R' := by
  have hrevs : es.map LogEntry.rev = range' (0 + 1) es.length := h.revs
  refine ⟨revs_append hrevs (by omega), forall_mem_append.mpr ⟨h.leads, hlead⟩, hleft, hright,
    forall_mem_append.mpr ⟨h.past, forall_mem_singleton.mpr fun r hr => (hnew r hr).1⟩,
    forall_mem_append.mpr ⟨?_, forall_mem_singleton.mpr fun r hr => (hnew r hr).2⟩⟩
  intro x hx r hr g hg hin
  have := h.past x hx r hr
  have := h.rev_le hx
  obtain ⟨g₀, hg₀, hin₀⟩ := hgroups g hg r (by omega) hin.1 hin.2
  exact h.free x hx r hr g₀ hg₀ hin₀

theorem not_targets (h : e.kind.target = none) (r : Nat) : ¬ Targets e r := by
  rintro ⟨_, hof, -⟩
  rw [h] at hof
  cases hof

theorem Nest.push (h : Nest texts es gs) (e : LogEntry) :
    Nest texts (es ++ [e]) (gs ++ [⟨es.length + 1, es.length + 1⟩]) := by
  have := h.group (.single e) .nil rfl
  simpa using this

theorem Nav.edit (h : Nav texts es S R) (hrev : e.rev = es.length + 1) (hlead : Leads texts [e])
    (hkind : e.kind.target = none) :
    Nav texts (es ++ [e]) (S ++ [⟨es.length + 1, es.length + 1⟩]) [] := by
  refine h.snoc hrev hlead (h.left.push e) (.bottom _) ?_ fun r hr => absurd hr (not_targets hkind r)
  intro g hg r hr hfirst hlast
  rw [append_nil] at hg
  rcases mem_append.mp hg with hg | hg
  · exact ⟨g, mem_append_left _ hg, hfirst, hlast⟩
  · rw [mem_singleton.mp hg] at hfirst
    dsimp only at hfirst
    omega

theorem Nav.congr (h : Nav texts es S R)
    (hsame : ∀ n ≤ es.length, texts' n = texts n) : Nav texts' es S R := by
  refine ⟨h.revs, ?_, h.left.congr hsame, h.right.congr hsame, h.past, h.free⟩
  intro e he
  have := h.rev_le he
  rw [hsame _ this, hsame (e.rev - 1) (by omega)]
  exact h.leads e he

theorem Nav.coalesce (h : Nav texts es (S ++ [g]) R) (hlast : g.last = es.length) {prev : LogEntry}
    {x y : Edit} (hprev : es.getLast? = some prev) (hx : prev.edits = [x]) (hy : e.edits = [y])
    (hxy : contiguous x y = true) (hrev : e.rev = es.length + 1) (hlead : Leads texts [e])
    (hkind : e.kind.target = none) :
    Nav texts (es ++ [e]) (S ++ [⟨g.first, es.length + 1⟩]) [] := by
  obtain ⟨es₀, G, B, hes, hnest, hG, hB, -, hg⟩ := h.left.top
  have hnil : B = [] := by
    have hlen := congrArg List.length hes
    rw [hg] at hlast
    simp only [length_append] at hlen hlast
    exact eq_nil_of_length_eq_zero (by omega)
  rw [hnil, append_nil] at hes
  -- the run ends in the previous entry
  obtain ⟨G₀, hG₀⟩ : ∃ G₀, G = G₀ ++ [prev] := by
    rw [hes, getLast?_append_of_ne_nil _ hG.ne_nil] at hprev
    exact getLast?_eq_some_iff.mp hprev
  have hrun : Typing (G ++ [e]) := by
    rw [hG₀] at hG ⊢
    exact .extend hG hx hy hxy
  have hleft : Nest texts (es ++ [e]) (S ++ [⟨g.first, es.length + 1⟩]) := by
    have := hnest.group hrun .nil (by rw [append_nil])
    rw [append_nil, ← append_assoc, ← hes, length_append] at this
    rw [hg]
    exact this
  refine h.snoc hrev hlead hleft (.bottom _) ?_ fun r hr => absurd hr (not_targets hkind r)
  intro g' hg' r hr hfirst' hlast'
  rw [append_nil] at hg'
  rcases mem_append.mp hg' with hg' | hg'
  · exact ⟨g', by simp [hg'], hfirst', hlast'⟩
  · rw [mem_singleton.mp hg'] at hfirst'
    exact ⟨g, by simp, hfirst', by omega⟩

/-- Taking the top group back leaves balanced history and a group on the other stack. -/
theorem Nav.pop (h : Nav texts es (S ++ [g]) R) {c : LogEntry} (hrev : c.rev = es.length + 1)
    (hlead : Leads texts [c]) (hc : c.kind.target = some g)
    (hapart : ∀ g' ∈ S ++ R, ¬ (g'.first ≤ g.first ∧ g.first ≤ g'.last))
    (htext : texts (es.length + 1) = texts (g.first - 1)) :
    Nav texts (es ++ [c]) S (R ++ [⟨es.length + 1, es.length + 1⟩]) := by
  obtain ⟨es₀, G, B, hes, hnest, hG, hB, -, hg⟩ := h.left.top
  have hmem : G ++ B ⊆ es := hes ▸ subset_append_right _ _
  have hrevG : G.map LogEntry.rev = range' (es₀.length + 1) G.length := by
    have hrevs := h.revs
    rw [hes, map_append, map_append] at hrevs
    have htake := congrArg (fun l => (l.drop es₀.length).take G.length) hrevs
    rw [drop_left' (by rw [length_map]), take_left' (by rw [length_map]),
      drop_range', take_range'_of_length_ge (by simp)] at htake
    rw [htake]
    congr 1
    omega
  have hwhole : Whole G g := by
    rw [hg, length_append]
    exact hG.whole (fun e he => h.leads e (hmem (mem_append_left _ he))) hrevG
  have hfirst : g.first = es₀.length + 1 := by rw [hg]
  have hlast : g.last = es₀.length + G.length := by rw [hg, length_append]
  have hin : ∀ x ∈ G, g.first ≤ x.rev ∧ x.rev ≤ g.last := by
    intro x hx
    have := rev_bounds hrevG hx
    omega
  have hbalanced : Balanced (G ++ (B ++ [c])) := by
    have := Balanced.pair .nil hB hwhole hc (by
      intro e he x hx htarget
      exact h.free e (hmem he) x.rev htarget g (by simp) (hin x hx))
    simpa using this
  have hle : g.first ≤ es.length := by
    have := length_pos_iff.mpr hG.ne_nil
    have hlen := congrArg List.length hes
    simp only [length_append] at hlen
    omega
  have hcr : ∀ r, Targets c r → r = g.first := by
    rintro r ⟨of, hof, rfl⟩
    rw [hc] at hof
    rw [Option.some.inj hof]
  refine h.snoc hrev hlead ?_ (h.right.push c) ?_ ?_
  · have hsplit : es ++ [c] = es₀ ++ (G ++ (B ++ [c])) := by
      rw [hes]
      simp only [append_assoc]
    have hlen : (es₀ ++ (G ++ (B ++ [c]))).length = es.length + 1 := by
      rw [← hsplit, length_append, length_singleton]
    rw [hsplit]
    apply hnest.extend hbalanced
    rw [hlen, htext, hfirst, Nat.add_sub_cancel]
  · intro g' hg' r hr hfirst' hlast'
    rw [← append_assoc] at hg'
    rcases mem_append.mp hg' with hold | hown
    · refine ⟨g', ?_, hfirst', hlast'⟩
      simp only [mem_append] at hold ⊢
      tauto
    · rw [mem_singleton.mp hown] at hfirst'
      dsimp only at hfirst'
      omega
  · intro r hr
    rw [hcr r hr, ← append_assoc]
    refine ⟨by omega, forall_mem_append.mpr ⟨hapart, forall_mem_singleton.mpr ?_⟩⟩
    dsimp only
    omega

theorem Nest.first_le (h : Nest texts es gs) (hg : g ∈ gs) : g.first ≤ es.length := by
  induction h with
  | bottom => cases hg
  | @group es G B gs _ hG _ _ ih =>
    have hpos := length_pos_iff.mpr hG.ne_nil
    simp only [length_append]
    rcases mem_append.mp hg with hg | hg
    · have := ih hg
      omega
    · rw [mem_singleton.mp hg]
      show es.length + 1 ≤ _
      omega

theorem Nest.retain (h : Nest texts es gs) (base : Nat) :
    Nest texts es (gs.filter (·.first > base)) := by
  induction h with
  | bottom es => exact .bottom es
  | @group es G B gs h hG hB htext ih =>
    rw [filter_append]
    by_cases hkeep : es.length + 1 > base
    · rw [filter_cons_of_pos (by simpa using hkeep)]
      exact .group ih hG hB htext
    have hgone : gs.filter (·.first > base) = [] := by
      rw [filter_eq_nil_iff]
      intro g hg
      have := h.first_le hg
      rw [decide_eq_true_eq]
      omega
    rw [hgone, filter_cons_of_neg (by simpa using hkeep)]
    exact .bottom _

theorem Nav.retain (h : Nav texts es S R) (base : Nat) :
    Nav texts es (S.filter (·.first > base)) (R.filter (·.first > base)) := by
  refine ⟨h.revs, h.leads, h.left.retain base, h.right.retain base, h.past, ?_⟩
  intro e he r hr g hg
  apply h.free e he r hr g
  rw [← filter_append] at hg
  exact mem_of_mem_filter hg

theorem Nav.other (h : Nav texts es S R) (hrev : e.rev = es.length + 1) (hlead : Leads texts [e])
    (hpast : ∀ r, Targets e r → r < e.rev) : Nav texts (es ++ [e]) [] [] := by
  exact h.snoc hrev hlead (.bottom _) (.bottom _) nofun fun r hr => ⟨hpast r hr, nofun⟩

end

end Cosmix.EditCore
