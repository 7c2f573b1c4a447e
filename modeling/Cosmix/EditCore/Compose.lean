/- source: cosmix-edit-core/src/buffer.rs
   digest: A group's inverses compose to one chain back to where the group started. -/

import Cosmix.EditCore.LogInvariant

namespace Cosmix.EditCore

open Cosmix.Lib.Weave List
open Cosmix.Lib.Coding

variable {P α : Type}

theorem mergeMember_nil (rev : Nat) (old : List (Composed P × List Bool)) :
    mergeMember rev old [] = .ok (old.map Prod.fst) := by
  induction old with
  | nil => rfl
  | cons o os ih =>
    show (do let tail ← mergeMember rev os []; Except.ok (o.1 :: tail)) = _
    rw [ih]
    rfl

variable {o : Composed P × List Bool} {n : Nat × Composed P} {β γ : Type}
  {os : List (Composed P × List Bool)} {ns : List (Nat × Composed P)} {out : List (Composed P)}

theorem mergeMember_new {rev : Nat} (h : takeNew o n = some true)
    (hout : mergeMember rev (o :: os) ns = .ok out) :
    mergeMember rev (o :: os) (n :: ns) = .ok (n.2 :: out) := by
  rw [mergeMember] at hout ⊢
  rw [mergeOne, h]
  rw [hout]
  rfl

theorem mergeMember_old {rev : Nat} (h : takeNew o n = some false)
    (hout : mergeMember rev os (n :: ns) = .ok out) :
    mergeMember rev (o :: os) (n :: ns) = .ok (o.1 :: out) := by
  rw [mergeMember, mergeOne, h]
  rw [hout]
  rfl

theorem takeNew_left (hn : n.2.range.start ≤ n.2.range.stop)
    (hle : n.2.range.stop ≤ o.1.range.start) (hside : (o.2[n.1]?).getD false = true) :
    takeNew o n = some true := by
  unfold takeNew
  by_cases heq : o.1.range.start = n.2.range.start
  · have hempty : rangeIsEmpty n.2.range = true := decide_eq_true (by omega)
    simp only [heq, ne_eq, hempty, hside]
    cases rangeIsEmpty o.1.range <;> rfl
  · simp only [ne_eq, heq]
    exact congrArg some (decide_eq_true (by omega))

theorem takeNew_right (ho : o.1.range.start ≤ o.1.range.stop)
    (hle : o.1.range.stop ≤ n.2.range.start) (hside : (o.2[n.1]?).getD false = false) :
    takeNew o n = some false := by
  unfold takeNew
  by_cases heq : o.1.range.start = n.2.range.start
  · have hempty : rangeIsEmpty o.1.range = true := decide_eq_true (by omega)
    simp only [heq, ne_eq, hempty, hside]
    cases rangeIsEmpty n.2.range <;> rfl
  · simp only [ne_eq, heq]
    exact congrArg some (decide_eq_false (by omega))

variable {l : List β}

private theorem forall₂_imp_mem {R S : β → γ → Prop} {m : List γ}
    (h : List.Forall₂ R l m) (hS : ∀ a, ∀ b ∈ m, R a b → S a b) : List.Forall₂ S l m := by
  induction h with
  | nil => exact List.Forall₂.nil
  | cons hab _ ih =>
    refine List.Forall₂.cons (hS _ _ mem_cons_self hab) (ih ?_)
    intro a b hb
    exact hS a b (mem_cons_of_mem _ hb)

private theorem exists_of_forall₂ {R : β → γ → Prop} {m : List γ}
    (h : List.Forall₂ R l m) {a : β} (ha : a ∈ l) : ∃ b ∈ m, R a b := by
  induction h with
  | nil => cases ha
  | cons hab _ ih =>
    rcases mem_cons.mp ha with rfl | ha
    · exact ⟨_, mem_cons_self, hab⟩
    · obtain ⟨b, hb, hR⟩ := ih ha
      exact ⟨b, mem_cons_of_mem _ hb, hR⟩

/-- One item of the member reads between the older items on its left and those on its right. -/
theorem mergeMember_between (rev : Nat) {os' : List (Composed P × List Bool)}
    (hleft : ∀ o ∈ os, takeNew o n = some false) (hright : ∀ o ∈ os', takeNew o n = some true) :
    mergeMember rev (os ++ os') [n] = .ok (os.map Prod.fst ++ n.2 :: os'.map Prod.fst) := by
  induction os with
  | nil =>
    cases os' with
    | nil => rfl
    | cons o => exact mergeMember_new (hright o mem_cons_self) (mergeMember_nil rev _)
  | cons o os ih =>
    obtain ⟨ho, hos⟩ := forall_mem_cons.mp hleft
    exact mergeMember_old ho (ih hos)

/-- Items of one text that lead back to another. -/
structure TakesBack (t u : List UInt8) (xs : List (Item UInt8)) : Prop where
  chain : Chain 0 u.length xs
  bounds : ∀ x ∈ xs, boundary utf8 u x.start = true ∧ boundary utf8 u x.stop = true
  back : weave u 0 u.length xs = t

variable {x : Item UInt8}

theorem TakesBack.refl (t : List UInt8) : TakesBack t t [] :=
  ⟨Nat.zero_le _, nofun, seg_zero_length t⟩

section

variable (good : P → List UInt8 → List UInt8 → Prop)

/-- A composed item stands for an item of a text: what it restores and what it covers. -/
def Stands (t : List UInt8) (c : Composed P) (x : Item UInt8) : Prop :=
  c.range = x.toSpan ∧ good c.payload x.text (covered t x)

def Payloads (t : List UInt8) (ps : List P) (es : List Edit) : Prop :=
  List.Forall₂ (fun p e => good p (covered t e.item) e.insert.bytes) ps es

def Composed.moveBy (k : Int) (c : Composed P) : Composed P := { c with range := c.range.moveBy k }

/-- An item of a member after one of the member's later edits. -/
def Composed.through (e : RawEdit) (c : Composed P) : Composed P :=
  { c with range := ((transformRaw c.range e .throughFirst).map Prod.fst).getD c.range }

def ownItems (rev : Nat) (es : List RawEdit) (ps : List P) : List (Composed P) :=
  ((postRangesRaw es).zip ps).map fun i => ⟨i.1, i.2, rev⟩

variable {good} {t u : List UInt8} {y : Edit} {p : P} {xs zs : List (Item UInt8)}
  {items rest : List (Composed P)} (hu : Coded utf8 u) (hin : boundary utf8 u y.offset = true)
  (hout : boundary utf8 u (y.offset + y.delete) = true)

section

include hu hin hout

/-- The inverse of one more edit joins the items, between those left and those right of the edit. -/
theorem TakesBack.insert (h : TakesBack t u (xs ++ zs)) (hx : Chain 0 y.offset xs)
    (hz : Chain (y.offset + y.delete) u.length zs) :
    TakesBack t (splice u y.item) (xs ++ y.item.inverse u :: zs.map (Item.moveBy (gain y.item))) := by
  have hle : y.item.start ≤ y.item.stop := Nat.le_add_right _ _
  have hstop : y.item.stop ≤ u.length := boundary_le hout
  obtain ⟨hchain, hweave⟩ := weave_splice hstop hle hx hz
  refine ⟨hchain, ?_, hweave.trans h.back⟩
  obtain ⟨hbx, hbz⟩ := forall_mem_append.mp h.bounds
  rw [forall_mem_append, forall_mem_cons, forall_mem_map]
  have hleft : ∀ {o : Nat}, o ≤ y.offset → boundary utf8 (splice u y.item) o = boundary utf8 u o :=
    fun ho => boundary_splice_left hu hin hout y.insert.valid ho
  refine ⟨fun x hmem => ?_, ⟨?_, ?_⟩, fun z hmem => ?_⟩
  · obtain ⟨-, h₁, h₂⟩ := hx.mem hmem
    rw [hleft (h₁.trans h₂), hleft h₂]
    exact hbx x hmem
  · exact (hleft le_rfl).trans hin
  · have := boundary_splice_right (C := utf8) hle hstop le_rfl
    rw [Nat.sub_sub_self hle] at this
    exact this.trans hout
  · obtain ⟨h₁, h₂, -⟩ := hz.mem hmem
    rw [moveBy_gain hle h₁ h₂, boundary_splice_right hle hstop h₁,
      boundary_splice_right hle hstop (h₁.trans h₂)]
    exact hbz z hmem

omit hu hin

theorem Stands.left {c : Composed P} (h : Stands good u c x)
    (hle : x.stop ≤ y.offset) : Stands good (splice u y.item) c x := by
  refine ⟨h.1, ?_⟩
  rw [covered, seg_splice_left (boundary_le hout) (Nat.le_add_right _ _) hle]
  exact h.2

theorem Stands.right {c : Composed P} (h : Stands good u c x)
    (hle : y.offset + y.delete ≤ x.start) (hx : x.start ≤ x.stop) :
    Stands good (splice u y.item) (c.moveBy (gain y.item)) (x.moveBy (gain y.item)) := by
  have hspan : y.item.start ≤ y.item.stop := Nat.le_add_right _ _
  refine ⟨congrArg (Span.moveBy _) h.1, ?_⟩
  rw [covered, moveBy_gain hspan hle hx, seg_splice_right (boundary_le hout) hspan hle hx]
  exact h.2

theorem stands_rights (h : List.Forall₂ (Stands good u) rest zs)
    (hz : Chain (y.offset + y.delete) u.length zs) :
    List.Forall₂ (Stands good (splice u y.item)) (rest.map (Composed.moveBy (gain y.item)))
      (zs.map (Item.moveBy (gain y.item))) := by
  rw [forall₂_map_left_iff, forall₂_map_right_iff]
  refine forall₂_imp_mem h fun c z hmem hc => ?_
  obtain ⟨h₁, h₂, -⟩ := hz.mem hmem
  exact hc.right hout h₁ h₂

theorem stands_inverse (hp : good p (covered u y.item) y.insert.bytes) (rev : Nat) :
    Stands good (splice u y.item) ⟨⟨y.offset, y.offset + y.insert.len⟩, p, rev⟩
      (y.item.inverse u) := by
  refine ⟨rfl, ?_⟩
  rw [show covered (splice u y.item) (y.item.inverse u) = y.insert.bytes from
    seg_splice_self (boundary_le hout) (Nat.le_add_right _ _)]
  exact hp

theorem composeMember_single (hitems : List.Forall₂ (Stands good u) items xs)
    (hrest : List.Forall₂ (Stands good u) rest zs) (hx : Chain 0 y.offset xs)
    (hz : Chain (y.offset + y.delete) u.length zs) (hleft : ∀ x ∈ xs, x.start < y.offset + y.delete)
    (hp : good p (covered u y.item) y.insert.bytes) (rev : Nat) :
    ∃ out, composeMember (items ++ rest) (rev, [RawEdit.of y], [p]) = .ok out ∧
      List.Forall₂ (Stands good (splice u y.item)) out
        (xs ++ y.item.inverse u :: zs.map (Item.moveBy (gain y.item))) := by
  have hspan : y.item.start ≤ y.item.stop := Nat.le_add_right _ _
  have hspans : ∀ c ∈ items, c.range.start ≤ c.range.stop ∧ c.range.stop ≤ y.item.start ∧
      c.range.start < y.item.stop := by
    intro c hc
    obtain ⟨x, hmem, hstands⟩ := exists_of_forall₂ hitems hc
    rw [hstands.1]
    exact ⟨(hx.mem hmem).2.1, (hx.mem hmem).2.2, hleft x hmem⟩
  have hspans' : ∀ c ∈ rest, y.item.stop ≤ c.range.start ∧ c.range.start ≤ c.range.stop := by
    intro c hc
    obtain ⟨z, hmem, hstands⟩ := exists_of_forall₂ hrest hc
    rw [hstands.1]
    exact ⟨(hz.mem hmem).1, (hz.mem hmem).2.1⟩
  have hold : items.mapM (olderThrough rev [RawEdit.of y]) = .ok (items.map (·, [false])) := by
    refine Lib.mapM_ok fun c hc => ?_
    obtain ⟨h₁, h₂, h₃⟩ := hspans c hc
    rw [olderThrough, throughMember, ← rawOf_item, transformRaw_through h₁ hspan,
      if_neg (not_le.mpr h₃), if_pos h₂]
    rfl
  have hold' : rest.mapM (olderThrough rev [RawEdit.of y]) =
      .ok (rest.map fun c => (c.moveBy (gain y.item), [true])) := by
    refine Lib.mapM_ok fun c hc => ?_
    obtain ⟨h₁, h₂⟩ := hspans' c hc
    rw [olderThrough, throughMember, ← rawOf_item, transformRaw_through h₂ hspan, if_pos h₁]
    rfl
  let own : Composed P := ⟨⟨y.offset, y.offset + y.insert.len⟩, p, rev⟩
  have hbefore : ∀ o ∈ items.map (·, [false]), takeNew o (0, own) = some false := by
    rw [forall_mem_map]
    intro c hc
    obtain ⟨h₁, h₂, -⟩ := hspans c hc
    exact takeNew_right h₁ h₂ rfl
  have hafter : ∀ o ∈ rest.map fun c => (c.moveBy (gain y.item), [true]),
      takeNew o (0, own) = some true := by
    rw [forall_mem_map]
    intro c hc
    have h₁ : y.offset + y.delete ≤ c.range.start := (hspans' c hc).1
    refine takeNew_left (Nat.le_add_right _ _) ?_ rfl
    simp only [own, Composed.moveBy, Span.moveBy, gain, Edit.item, Str.len]
    omega
  refine ⟨items ++ own :: rest.map (Composed.moveBy (gain y.item)), ?_, ?_⟩
  · have hmerge := mergeMember_between rev hbefore hafter
    rw [map_map, map_map] at hmerge
    show ((items ++ rest).mapM _ >>= fun old => mergeMember rev old _) = _
    rw [mapM_append, hold, hold']
    refine hmerge.trans ?_
    rw [show items.map (Prod.fst ∘ (·, [false])) = items from map_id items]
    rfl
  · refine rel_append ?_ (.cons (stands_inverse hout hp rev) (stands_rights hout hrest hz))
    exact forall₂_imp_mem hitems fun c x hmem hc => hc.left hout (hx.mem hmem).2.2

end

theorem length_postRangesRaw (es : List RawEdit) : (postRangesRaw es).length = es.length := by
  induction es with
  | nil => rfl
  | cons e es ih => rw [postRangesRaw, length_cons, length_cons, ih]

theorem ownItems_append (rev : Nat) {es : List RawEdit} {ps : List P}
    (hlen : es.length = ps.length) (e : RawEdit) (p : P) : ownItems rev (es ++ [e]) (ps ++ [p]) =
      (ownItems rev es ps).map (Composed.through e) ++ [⟨⟨e.p, e.p + e.ii⟩, p, rev⟩] := by
  have hlen' : ((postRangesRaw es).map fun r =>
      ((transformRaw r e .throughFirst).map Prod.fst).getD r).length = ps.length := by
    rw [length_map, length_postRangesRaw, hlen]
  rw [ownItems, ownItems, postRangesRaw_append, zip_append hlen', map_append,
    zip_map_left, map_map, map_map]
  rfl

/-- The inverses of a canonical sequence, read from left to right, lead back to its text. -/
theorem ownItems_takesBack {rs : List Edit} {qs : List P} {lo : Nat}
    (hu : Coded utf8 u) (hc : Chain lo u.length (rs.map Edit.item)) (hb : OnBoundaries u rs.reverse)
    (hps : Payloads good u qs rs) (rev : Nat) :
    ∃ xs, List.Forall₂ (Stands good (applySeq u rs.reverse))
        (ownItems rev (rs.reverse.map RawEdit.of) qs.reverse).reverse xs ∧
      TakesBack u (applySeq u rs.reverse) xs ∧ Chain lo (applySeq u rs.reverse).length xs ∧
      ∀ i j, j ≤ lo → seg (applySeq u rs.reverse) i j = seg u i j := by
  induction hps generalizing lo with
  | nil => exact ⟨[], .nil, .refl u, hc, fun _ _ _ => rfl⟩
  | @cons q e qs rs hq hqs ih =>
    obtain ⟨h₁, h₂, h₃⟩ := hc
    rw [reverse_cons, onBoundaries_append] at hb
    obtain ⟨hb, hin, hout, -⟩ := hb
    obtain ⟨xs, hstands, hback, hchain, hsame⟩ := ih h₃ hb
    have hcoded := coded_applySeq hu hb
    have hend : applySeq u (e :: rs).reverse = splice (applySeq u rs.reverse) e.item := by
      rw [reverse_cons, applySeq, foldl_append]
      rfl
    have hq' : good q (covered (applySeq u rs.reverse) e.item) e.insert.bytes := by
      rwa [covered, hsame _ _ le_rfl]
    have hback : TakesBack u (applySeq u rs.reverse) ([] ++ xs) := hback
    have hback' := hback.insert hcoded hin hout (Nat.zero_le _) hchain
    refine ⟨_, ?_, hend ▸ hback', ?_, ?_⟩
    · rw [hend, reverse_cons, reverse_cons, map_append, map_singleton,
        ownItems_append rev (by simpa using hqs.length_eq.symm), reverse_append,
        ← map_reverse]
      refine .cons (stands_inverse hout hq' rev) ?_
      have hmove : ∀ c ∈ (ownItems rev (rs.reverse.map RawEdit.of) qs.reverse).reverse,
          c.through (RawEdit.of e) = c.moveBy (gain e.item) := by
        intro c hc
        obtain ⟨x, hmem, hstand⟩ := exists_of_forall₂ hstands hc
        obtain ⟨hle, hx, -⟩ := hchain.mem hmem
        rw [← rawOf_item, Composed.through, Composed.moveBy, hstand.1, transformRaw_through hx h₂,
          if_pos hle]
        rfl
      rw [map_congr_left hmove]
      exact stands_rights hout hstands hchain
    · rw [hend]
      exact ⟨h₁, hback'.chain.2⟩
    · intro i j hj
      rw [hend, seg_splice_left (boundary_le hout) h₂ (hj.trans h₁)]
      exact hsame i j (hj.trans (h₁.trans h₂))

theorem composeMember_nil (rev : Nat) (es : List RawEdit) (ps : List P) :
    composeMember [] (rev, es, ps) = .ok (ownItems rev es ps).reverse := by
  show Except.ok (((ownItems rev es ps).zipIdx.reverse.map fun i => (i.2, i.1)).map Prod.snd) = _
  rw [map_map, map_reverse]
  exact congrArg (fun l => Except.ok (List.reverse l)) (zipIdx_map_fst 0 _)

end

/-- An undo group: one entry, or a run of single edits each continuing the one before. -/
inductive Typing : List LogEntry → Prop
  | single (e : LogEntry) : Typing [e]
  | extend {G : List LogEntry} {prev e : LogEntry} {x y : Edit} (h : Typing (G ++ [prev]))
      (hprev : prev.edits = [x]) (he : e.edits = [y]) (hxy : contiguous x y = true) :
      Typing ((G ++ [prev]) ++ [e])

/-- Where inverse items of a run stand: after what was typed, or where all was deleted. -/
def AtEdit (x : Edit) (zs : List (Item UInt8)) : Prop :=
  (x.delete = 0 → ∀ z ∈ zs, z.stop ≤ x.offset + x.insert.len) ∧
    (x.insert.len = 0 → ∀ z ∈ zs, z.start = x.offset ∧ z.stop = x.offset)

theorem contiguous_cases {x y : Edit} (h : contiguous x y = true) :
    (x.delete = 0 ∧ y.delete = 0 ∧ 0 < y.insert.len ∧ y.offset = x.offset + x.insert.len) ∨
      (x.insert.len = 0 ∧ y.insert.len = 0 ∧ 0 < y.delete ∧
        (y.offset + y.delete = x.offset ∨ y.offset = x.offset)) := by
  have hempty : ∀ s : Str, s.isEmpty = true ↔ s.len = 0 := by
    intro s
    exact Str.isEmpty_iff.trans length_eq_zero_iff.symm
  unfold contiguous at h
  simp only [Bool.and_eq_true, beq_iff_eq, decide_eq_true_eq] at h
  split at h
  · next hins =>
    obtain ⟨⟨hx, -⟩, hy, hne⟩ := hins
    left
    refine ⟨hx, hy, Nat.pos_of_ne_zero fun h0 => ?_, by simpa using h⟩
    rw [(hempty _).mpr h0] at hne
    cases hne
  split at h
  · next hdel =>
    obtain ⟨⟨-, hx⟩, hy, hye⟩ := hdel
    right
    refine ⟨(hempty _).mp hx, (hempty _).mp hye, hy, by simpa using h⟩
  · cases h

theorem AtEdit.clear {x y : Edit} {zs : List (Item UInt8)} (h : AtEdit x zs)
    (hxy : contiguous x y = true) : ∀ z ∈ zs, Clear z.toSpan y.item.toSpan := by
  intro z hmem
  unfold Clear
  simp only [Edit.item]
  rcases contiguous_cases hxy with ⟨hx, hy₁, -, hoff⟩ | ⟨hx, -, -, hoff⟩
  · have := h.1 hx z hmem
    omega
  · have := h.2 hx z hmem
    omega

theorem AtEdit.next {x y : Edit} (u : List UInt8) {zs vs : List (Item UInt8)}
    (h : AtEdit x (zs ++ vs)) (hxy : contiguous x y = true)
    (hz : ∀ z ∈ zs, z.start < y.offset + y.delete) (hv : ∀ v ∈ vs, y.offset + y.delete ≤ v.start) :
    AtEdit y (zs ++ y.item.inverse u :: vs.map (Item.moveBy (gain y.item))) := by
  have hgain : gain y.item = (y.insert.len : Int) - y.delete := by
    simp only [gain, Edit.item, Nat.add_sub_cancel_left]
    rfl
  unfold AtEdit at h ⊢
  simp only [forall_mem_append, forall_mem_cons, forall_mem_map, Item.inverse,
    Item.moveBy, Span.moveBy, hgain] at h ⊢
  simp only [Edit.item]
  rcases contiguous_cases hxy with ⟨hx, hy₁, hy₂, hoff⟩ | ⟨hx, hy₁, hy₂, hoff⟩
  · obtain ⟨hzs, hvs⟩ := h.1 hx
    refine ⟨fun _ => ⟨fun z hmem => ?_, le_rfl, fun v hmem => ?_⟩, by omega⟩
    · have := hzs z hmem
      omega
    · have := hvs v hmem
      omega
  · obtain ⟨hzs, hvs⟩ := h.2 hx
    refine ⟨by omega, fun _ => ⟨fun z hmem => ?_, ⟨trivial, ?_⟩, fun v hmem => ?_⟩⟩
    · have := hzs z hmem
      have := hz z hmem
      omega
    · exact congrArg (y.offset + ·) hy₁
    · have := hvs v hmem
      have := hv v hmem
      omega

section

variable {good : P → List UInt8 → List UInt8 → Prop} {texts : Nat → List UInt8}

/-- The entries of a list lead from text to text, and carry payloads. -/
def Leads (texts : Nat → List UInt8) (G : List LogEntry) : Prop :=
  ∀ e ∈ G, Coded utf8 (texts (e.rev - 1)) ∧ Faithful (texts (e.rev - 1)) e ∧
    texts e.rev = applySeq (texts (e.rev - 1)) e.edits

/-- Composing a group always succeeds, and takes its last text back to the one before it. -/
theorem composeMembers_typing {pay : LogEntry → List P} {G : List LogEntry} (hG : Typing G)
    (hlead : Leads texts G) (hpay : ∀ e ∈ G, Payloads good (texts (e.rev - 1)) (pay e) e.edits)
    {first : Nat} (hrev : G.map LogEntry.rev = List.range' (first + 1) G.length) :
    ∃ out xs, composeMembers (G.map fun e => (e.rev, e.edits.map RawEdit.of, pay e)) = .ok out ∧
      List.Forall₂ (Stands good (texts (first + G.length))) out xs ∧
      TakesBack (texts first) (texts (first + G.length)) xs ∧
      ∀ e x, G.getLast? = some e → e.edits = [x] → AtEdit x xs := by
  induction hG with
  | single e =>
    have hn : e.rev = first + 1 := by simpa using hrev
    obtain ⟨hcoded, hfaith, htext⟩ := hlead e mem_cons_self
    have hps := hpay e mem_cons_self
    rw [hn, Nat.add_sub_cancel] at hcoded hfaith htext hps
    have hbounds := onBoundaries_of_chain hcoded hfaith.chain hfaith.bounds
    have hchain := hfaith.chain
    rw [← map_reverse] at hchain
    rw [← reverse_reverse e.edits] at hbounds
    obtain ⟨xs, hstands, hback, -, -⟩ := ownItems_takesBack hcoded hchain hbounds
      (forall₂_reverse_iff.mpr hps) e.rev
    rw [reverse_reverse] at hback hstands
    rw [reverse_reverse, ← htext] at hstands
    rw [← htext] at hback
    refine ⟨_, xs, ?_, hstands, hback, ?_⟩
    · show composeMember [] (e.rev, e.edits.map RawEdit.of, pay e) >>= _ = _
      rw [composeMember_nil]
      rfl
    · intro e' x he' hx
      rw [getLast?_singleton, Option.some.injEq] at he'
      subst he'
      rw [hx] at hps hstands
      obtain ⟨p, _, -, hnil, hp⟩ := forall₂_cons_right_iff.mp hps
      cases hnil
      rw [hp] at hstands
      obtain ⟨z, _, hz, hnil, rfl⟩ := forall₂_cons_left_iff.mp hstands
      cases hnil
      have hspan : (⟨x.offset, x.offset + x.insert.len⟩ : Range) = z.toSpan := hz.1
      constructor
      · intro _ z' hz'
        rw [mem_singleton.mp hz', ← hspan]
      · intro h0 z' hz'
        rw [mem_singleton.mp hz', ← hspan, h0]
        exact ⟨rfl, rfl⟩
  | @extend G prev e x y h hprev he hxy ih =>
    have hlen : ((G ++ [prev]) ++ [e]).length = (G ++ [prev]).length + 1 := by
      rw [length_append, length_singleton]
    rw [hlen, map_append, range'_1_concat] at hrev
    obtain ⟨hfront, hlast⟩ := append_inj' hrev rfl
    have hn : e.rev = first + (G ++ [prev]).length + 1 := by
      have := singleton_inj.mp hlast
      omega
    obtain ⟨out, xs, hout, hstands, hback, hat⟩ := ih
      (fun e' he' => hlead e' (mem_append_left _ he'))
      (fun e' he' => hpay e' (mem_append_left _ he')) hfront
    have hmem : e ∈ (G ++ [prev]) ++ [e] := mem_append_right _ (mem_singleton_self _)
    obtain ⟨hcoded, hfaith, htext⟩ := hlead e hmem
    have hps := hpay e hmem
    rw [hn, Nat.add_sub_cancel] at hcoded hfaith htext hps
    rw [he] at htext hps
    obtain ⟨p, _, hp, hnil, hpe⟩ := forall₂_cons_right_iff.mp hps
    obtain ⟨hy₁, hy₂⟩ := hfaith.bounds y (by rw [he]; exact mem_cons_self)
    have hedit := hat prev x (getLast?_concat ..) hprev
    -- the items so far stand on both sides of the edit
    obtain ⟨us, vs, rfl, hus, hvs, hleft⟩ := hback.chain.split (y := y.item) (Nat.zero_le _)
      (boundary_le hy₂) (hedit.clear hxy)
    obtain ⟨out', hout', hstands'⟩ := composeMember_single hy₂
      (forall₂_take_append _ _ _ hstands) (forall₂_drop_append _ _ _ hstands)
      hus hvs hleft hp e.rev
    rw [take_append_drop] at hout'
    rw [hlen, ← add_assoc, htext]
    refine ⟨out', _, ?_, hstands', hback.insert hcoded hy₁ hy₂ hus hvs, ?_⟩
    · unfold composeMembers at hout ⊢
      rw [map_append, foldlM_append, hout]
      show composeMember _ (e.rev, e.edits.map RawEdit.of, pay e) >>= _ = _
      rw [he, hpe]
      exact hout'.symm ▸ rfl
    · intro e' x' he' hx'
      rw [getLast?_concat, Option.some.injEq] at he'
      rw [← he', he] at hx'
      rw [← singleton_inj.mp hx']
      exact hedit.next _ hxy hleft fun v hv => (hvs.mem hv).1

end

end Cosmix.EditCore
