/- source: cosmix-edit-core/src/buffer.rs, ot.rs, text.rs
   digest: A rebased transaction keeps its shape; only inserts brought together may swap. -/

import Cosmix.EditCore.Undo
import Mathlib.Data.List.Pairwise

namespace Cosmix.EditCore

open Cosmix.Lib.Weave List
open Cosmix.Lib (bind_eq_ok)

section

variable {x y x' y' : Range} {e : RawEdit} {es : List RawEdit}

theorem transformRaw_size {left : Bool} (hx : x.start ≤ x.stop)
    (h : transformRaw x e .throughFirst = some (x', left)) :
    x'.start ≤ x'.stop ∧ x'.start + x.stop = x'.stop + x.start := by
  rw [transformRaw_throughFirst hx] at h
  split_ifs at h
  · cases h
    dsimp only
    omega
  · cases h
    omega

theorem transformRaw_apart {left left' : Bool} (hx : x.start ≤ x.stop) (hy : y.start ≤ y.stop)
    (h : x.stop ≤ y.start) (hx' : transformRaw x e .throughFirst = some (x', left))
    (hy' : transformRaw y e .throughFirst = some (y', left')) : x'.stop ≤ y'.start := by
  rw [transformRaw_throughFirst hx] at hx'
  rw [transformRaw_throughFirst hy] at hy'
  split_ifs at hx' hy'
  all_goals
    cases hx'
    cases hy'
    try dsimp only
    omega

theorem transformThrough_cons (h : transformThrough x (e :: es) .throughFirst = some x') :
    ∃ mid left, transformRaw x e .throughFirst = some (mid, left) ∧
      transformThrough mid es .throughFirst = some x' := by
  obtain ⟨mid, hmid, hrest⟩ := Option.bind_eq_some_iff.mp h
  obtain ⟨⟨mid, left⟩, hraw, rfl⟩ := Option.map_eq_some_iff.mp hmid
  exact ⟨mid, left, hraw, hrest⟩

theorem transformThrough_size (hx : x.start ≤ x.stop)
    (h : transformThrough x es .throughFirst = some x') :
    x'.start ≤ x'.stop ∧ x'.start + x.stop = x'.stop + x.start := by
  induction es generalizing x with
  | nil =>
    cases h
    exact ⟨hx, add_comm _ _⟩
  | cons e es ih =>
    obtain ⟨mid, left, hraw, hrest⟩ := transformThrough_cons h
    have hmid := transformRaw_size hx hraw
    have hend := ih hmid.1 hrest
    exact ⟨hend.1, by omega⟩

theorem transformThrough_apart (hx : x.start ≤ x.stop) (hy : y.start ≤ y.stop)
    (h : x.stop ≤ y.start) (hx' : transformThrough x es .throughFirst = some x')
    (hy' : transformThrough y es .throughFirst = some y') : x'.stop ≤ y'.start := by
  induction es generalizing x y with
  | nil =>
    cases hx'
    cases hy'
    exact h
  | cons e es ih =>
    obtain ⟨_, _, hrawX, hrestX⟩ := transformThrough_cons hx'
    obtain ⟨_, _, hrawY, hrestY⟩ := transformThrough_cons hy'
    exact ih (transformRaw_size hx hrawX).1 (transformRaw_size hy hrawY).1
      (transformRaw_apart hx hy h hrawX hrawY) hrestX hrestY

end

namespace Buffer

def requestedItem (op : OpSpec × Nat) : Resolved :=
  ⟨(offsetOp op.1).1.start, (offsetOp op.1).1.stop, (offsetOp op.1).2, op.2⟩

/-- The items a request names, in the coordinates of its base. -/
def requested (ops : List OpSpec) : List Resolved := ops.zipIdx.map requestedItem

/-- Where an item comes to lie when its range goes through later edits. -/
structure Lands (b : Buffer) (es : List RawEdit) (x x' : Resolved) : Prop where
  range : transformThrough x.range es .throughFirst = some x'.range
  text : x'.text = x.text
  idx : x'.idx = x.idx
  low : b.checkOffset x'.s = .ok x'.s
  high : b.checkOffset x'.e = .ok x'.e

variable {b : Buffer}

theorem mapM_forall₂ {ε α β : Type} {f : α → Except ε β} {l : List α} {l' : List β}
    (h : l.mapM f = .ok l') : List.Forall₂ (fun a c => f a = .ok c) l l' := by
  induction l generalizing l' with
  | nil =>
    cases h
    exact .nil
  | cons a l ih =>
    rw [mapM_cons] at h
    obtain ⟨c, hc, h⟩ := bind_eq_ok.mp h
    obtain ⟨_, hcs, h⟩ := bind_eq_ok.mp h
    cases h
    exact .cons hc (ih hcs)

variable {items : List Resolved}

theorem clear_of_checkOverlap (hp : ∀ x ∈ items, x.s ≤ x.e)
    {u : Unit} (h : checkOverlap items = .ok u) : items.Pairwise fun x y => Clear x.range y.range := by
  unfold checkOverlap at h
  split at h
  · cases h
  rename_i hnone
  rw [← pairwise_map (f := Resolved.range)]
  refine (firstOverlap_eq_none fun r hr => ?_).mp hnone
  obtain ⟨x, hx, rfl⟩ := mem_map.mp hr
  exact hp x hx

theorem foldlM_transform_ok {err : LogEntry → CoreError} {entries : List LogEntry} {r r' : Range}
    (h : entries.foldlM (fun r entry =>
      match transformThrough r (entry.edits.map RawEdit.of) .throughFirst with
      | some r' => Except.ok r'
      | none => .error (err entry)) r = .ok r') :
    transformThrough r (entries.flatMap fun entry => entry.edits.map RawEdit.of) .throughFirst =
      some r' := by
  induction entries generalizing r with
  | nil =>
    cases h
    rfl
  | cons entry entries ih =>
    rw [foldlM_cons] at h
    obtain ⟨mid, hmid, h⟩ := bind_eq_ok.mp h
    split at hmid
    · rename_i hsome
      cases hmid
      rw [flatMap_cons, transformThrough, foldlM_append]
      exact Option.bind_eq_some_iff.mpr ⟨mid, hsome, ih h⟩
    · cases hmid

variable {base : Nat}

theorem Lands.of_rebaseItem {x x' : Resolved} (h : b.rebaseItem base x = .ok x') :
    Lands b ((b.log.after base).flatMap fun entry => entry.edits.map RawEdit.of) x x' := by
  obtain ⟨r, hr, h⟩ := bind_eq_ok.mp h
  obtain ⟨lo, hlo, h⟩ := bind_eq_ok.mp h
  obtain ⟨hi, hhi, h⟩ := bind_eq_ok.mp h
  cases h
  rw [(checkOffset_ok hlo).1] at hlo
  rw [(checkOffset_ok hhi).1] at hhi
  exact ⟨foldlM_transform_ok hr, rfl, rfl, hlo, hhi⟩

theorem resolveRange_offsets {lo hi : Nat} {r : Range}
    (h : b.resolveRange (.offsets lo hi) = .ok r) :
    r = ⟨lo, hi⟩ ∧ lo ≤ hi ∧ b.checkOffset lo = .ok lo ∧ b.checkOffset hi = .ok hi := by
  obtain ⟨s, hs, hrest⟩ := bind_eq_ok.mp h
  obtain ⟨e, he, hordered⟩ := bind_eq_ok.mp hrest
  obtain rfl := (checkOffset_ok hs).1
  obtain rfl := (checkOffset_ok he).1
  obtain ⟨rfl, hle⟩ := ordered_ok hordered
  exact ⟨rfl, hle, hs, he⟩

theorem resolveOp_offsets {op : OpSpec} {found : Range × Str} (hop : offsetsOnly op = true)
    (h : b.resolveOp op = .ok found) : offsetOp op = found ∧ found.1.start ≤ found.1.stop ∧
      b.checkOffset found.1.start = .ok found.1.start ∧
      b.checkOffset found.1.stop = .ok found.1.stop := by
  match op, hop with
  | .insert (.offset p) text, _ =>
    obtain ⟨o, ho, heq⟩ := bind_eq_ok.mp h
    have hp : b.checkOffset p = .ok o := ho
    obtain rfl := (checkOffset_ok hp).1
    cases heq
    exact ⟨rfl, le_rfl, hp, hp⟩
  | .delete (.offsets lo hi), _ | .replace (.offsets lo hi) _, _ =>
    obtain ⟨r, hr, heq⟩ := bind_eq_ok.mp h
    cases heq
    obtain ⟨rfl, hle, hlo, hhi⟩ := resolveRange_offsets hr
    exact ⟨rfl, hle, hlo, hhi⟩

theorem mapM_eq_map {ε α β : Type} {f : α → Except ε β} {g : α → β} {P : β → Prop} {l : List α}
    {l' : List β} (hf : ∀ a ∈ l, ∀ c, f a = .ok c → c = g a ∧ P c) (h : l.mapM f = .ok l') :
    l' = l.map g ∧ ∀ c ∈ l', P c := by
  have hpairs := (forall₂_and_left l l').mpr ⟨fun a ha => hf a ha, mapM_forall₂ h⟩
  clear h hf
  induction hpairs with
  | nil => exact ⟨rfl, nofun⟩
  | cons hc _ ih =>
    obtain ⟨rfl, hp⟩ := hc.1 _ hc.2
    exact ⟨by rw [ih.1, map_cons], forall_mem_cons.mpr ⟨hp, ih.2⟩⟩

theorem resolveOps_requested {ops : List OpSpec} (hops : ∀ op ∈ ops, offsetsOnly op = true)
    (h : (ops.zipIdx.mapM fun op => do
      let (r, text) ← b.resolveOp op.1
      Except.ok (⟨r.start, r.stop, text, op.2⟩ : Resolved)) = .ok items) :
    items = requested ops ∧ ∀ x ∈ items, x.s ≤ x.e ∧ Lands b [] x x :=
  mapM_eq_map (g := requestedItem) (fun op hop x hx => by
    obtain ⟨⟨r, _⟩, hr, hx⟩ := bind_eq_ok.mp hx
    obtain ⟨hoff, hle, hlo, hhi⟩ := resolveOp_offsets (hops op.1 (fst_mem_of_mem_zipIdx hop)) hr
    cases hx
    exact ⟨by rw [requestedItem, hoff], hle, rfl, rfl, rfl, hlo, hhi⟩) h

theorem resolveItems_lands {ops : List OpSpec} {base : Option Nat}
    (hops : ∀ op ∈ ops, offsetsOnly op = true) (h : b.resolveItems ops base = .ok items) :
    ∃ es, List.Forall₂ (Lands b es) (requested ops) items ∧ (∀ x ∈ requested ops, x.s ≤ x.e) ∧
      (requested ops).Pairwise fun x y => Clear x.range y.range := by
  cases base with
  | none =>
    obtain ⟨found, hfound, hrest⟩ := bind_eq_ok.mp h
    obtain ⟨u, hcheck, heq⟩ := bind_eq_ok.mp hrest
    cases heq
    obtain ⟨heq, hall⟩ := resolveOps_requested hops hfound
    rw [← heq]
    exact ⟨[], forall₂_same.mpr fun x hx => (hall x hx).2, fun x hx => (hall x hx).1,
      clear_of_checkOverlap (fun x hx => (hall x hx).1) hcheck⟩
  | some =>
    obtain ⟨found, hfound, hrest⟩ := bind_eq_ok.mp h
    obtain ⟨u, hcheck, hrebase⟩ := bind_eq_ok.mp hrest
    obtain ⟨heq, hall⟩ := mapM_eq_map (g := requestedItem) (P := fun x => x.s ≤ x.e) (fun op _ x hx => by
      unfold historicOp at hx
      dsimp only at hx
      split at hx
      · cases hx
      split at hx
      · cases hx
      · cases hx
        exact ⟨rfl, by dsimp only; omega⟩) hfound
    rw [requested, ← heq]
    exact ⟨_, (mapM_forall₂ hrebase).imp fun _ _ => Lands.of_rebaseItem, hall,
      clear_of_checkOverlap hall hcheck⟩

variable {req : TxnRequest}

theorem resolveTxn_base (hcas : req.cas = .baseRev base) (h : b.resolveTxn req = .ok items) :
    (∀ op ∈ req.ops, offsetsOnly op = true) ∧
      ∃ rebase, b.rebaseFrom req.cas = .ok rebase ∧ b.resolveItems req.ops rebase = .ok items := by
  unfold resolveTxn at h
  rw [hcas] at h ⊢
  dsimp only at h
  split at h
  · cases h
  split at h
  · cases h
  rename_i hoffsets
  simp only [Bool.not_eq_true', Bool.not_eq_false] at hoffsets
  obtain ⟨rebase, hrebase, hrest⟩ := bind_eq_ok.mp h
  obtain ⟨_, hfound, hlimits⟩ := bind_eq_ok.mp hrest
  split at hlimits
  · cases hlimits
  split at hlimits
  · cases hlimits
  · cases hlimits
    exact ⟨all_eq_true.mp hoffsets, rebase, hrebase, hfound⟩

def readingOrder (items : List Resolved) : List Resolved := (canonical items).reverse

def itemOf (x : Resolved) : Item UInt8 := ⟨x.range, x.text.bytes⟩

/-- One item reads before another. -/
def ReadsBefore (items : List Resolved) (x y : Resolved) : Prop :=
  (readingOrder items).idxOf x < (readingOrder items).idxOf y

instance (items : List Resolved) (x y : Resolved) : Decidable (ReadsBefore items x y) :=
  inferInstanceAs (Decidable (_ < _))

variable {items : List Resolved} {x y x' y' : Resolved}

theorem sequenceOf_items (hp : ∀ x ∈ items, x.s ≤ x.e) :
    ((sequenceOf items).map Edit.item).reverse = (readingOrder items).map itemOf := by
  rw [readingOrder, map_reverse, sequenceOf, map_map]
  refine congrArg _ (map_congr_left fun x hx => ?_)
  have hle := hp x ((perm_canonicalSort _ _).mem_iff.mp hx)
  simp only [Function.comp_apply, Edit.item, itemOf, Resolved.range]
  rw [Nat.add_sub_cancel' hle]

theorem chain_readingOrder (hp : ∀ x ∈ items, x.s ≤ x.e)
    (hc : items.Pairwise fun x y => Clear x.range y.range) {hi : Nat} (hhi : ∀ x ∈ items, x.e ≤ hi) :
    Chain 0 hi ((readingOrder items).map itemOf) :=
  chain_canonicalSort _ itemOf (fun _ => rfl) hhi hp hc

theorem applySeq_sequenceOf (hp : ∀ x ∈ items, x.s ≤ x.e)
    (hc : items.Pairwise fun x y => Clear x.range y.range) {t : List UInt8}
    (hhi : ∀ x ∈ items, x.e ≤ t.length) :
    applySeq t (sequenceOf items) = weave t 0 t.length ((readingOrder items).map itemOf) := by
  have hchain := chain_readingOrder hp hc hhi
  rw [← sequenceOf_items hp] at hchain ⊢
  exact applySeq_eq_weave hchain

theorem readsBefore_iff (hx : x ∈ items) (hy : y ∈ items) (hne : x.idx ≠ y.idx) :
    ReadsBefore items x y ↔ canonicalLe (y.range, y.idx) (x.range, x.idx) := by
  have hperm : (readingOrder items).Perm items :=
    (reverse_perm _).trans (perm_canonicalSort _ _)
  have hsorted : (readingOrder items).Pairwise fun x y =>
      canonicalLe (y.range, y.idx) (x.range, x.idx) :=
    pairwise_reverse.mpr (pairwise_canonicalSort _ _)
  have hlx := idxOf_lt_length_of_mem (hperm.mem_iff.mpr hx)
  have hly := idxOf_lt_length_of_mem (hperm.mem_iff.mpr hy)
  have hbefore : ∀ {x y : Resolved} (hlx : (readingOrder items).idxOf x < (readingOrder items).length)
      (hly : (readingOrder items).idxOf y < (readingOrder items).length),
      (readingOrder items).idxOf x < (readingOrder items).idxOf y →
      canonicalLe (y.range, y.idx) (x.range, x.idx) := fun hlx hly hlt => by
    have hle := pairwise_iff_getElem.mp hsorted _ _ hlx hly hlt
    rwa [getElem_idxOf, getElem_idxOf] at hle
  refine ⟨hbefore hlx hly, fun hle => ?_⟩
  rcases Nat.lt_trichotomy ((readingOrder items).idxOf x) ((readingOrder items).idxOf y) with
    hlt | heq | hgt
  · exact hlt
  · rw [idxOf_inj (hperm.mem_iff.mpr hx)] at heq
    exact absurd (congrArg Resolved.idx heq) hne
  · exact absurd (canonicalLe_antisymm (hbefore hly hlx hgt) hle) hne

theorem requested_idx {ops : List OpSpec} {i : Nat} (h : (requested ops)[i]? = some x) : x.idx = i := by
  rw [requested, getElem?_map, getElem?_zipIdx] at h
  obtain ⟨_, hop, rfl⟩ := Option.map_eq_some_iff.mp h
  obtain ⟨_, -, rfl⟩ := Option.map_eq_some_iff.mp hop
  exact zero_add i

/-- Only inserts from different places of the base that come to one offset may swap. -/
theorem Lands.order {es : List RawEdit} (hx : x.s ≤ x.e) (hy : y.s ≤ y.e)
    (hclear : Clear x.range y.range) (hlx : Lands b es x x') (hly : Lands b es y y')
    (hne : x.idx ≠ y.idx) : canonicalLe (y'.range, y'.idx) (x'.range, x'.idx) ↔
      if x.s = x.e ∧ y.s = y.e ∧ x.s ≠ y.s ∧ x'.s = y'.s then x.idx < y.idx
      else canonicalLe (y.range, y.idx) (x.range, x.idx) := by
  obtain ⟨hpx, hsx⟩ := transformThrough_size hx hlx.range
  obtain ⟨hpy, hsy⟩ := transformThrough_size hy hly.range
  have hxy : x.e ≤ y.s → x'.e ≤ y'.s := fun h =>
    transformThrough_apart hx hy h hlx.range hly.range
  have hyx : y.e ≤ x.s → y'.e ≤ x'.s := fun h =>
    transformThrough_apart hy hx h hly.range hlx.range
  rw [hlx.idx, hly.idx, canonicalLe_iff, canonicalLe_iff]
  simp only [Resolved.range, Clear] at *
  split_ifs <;> omega

/-- A rebased request keeps its ranges apart, and its texts read as in the base, except that inserts
which a deletion brought to one offset read in request order. -/
theorem rebase_keeps_shape_and_order
    (hcas : req.cas = .baseRev base) (h : b.resolveTxn req = .ok items) :
    (items.Pairwise fun x y => Clear x.range y.range) ∧
      (∀ msg, b.text.simulate (sequenceOf items) ≠ .error (internal msg)) ∧
      applySeq b.text.bytes (sequenceOf items) =
        weave b.text.bytes 0 b.text.bytes.length ((readingOrder items).map itemOf) ∧
      (∀ t : List UInt8, (∀ x ∈ requested req.ops, x.e ≤ t.length) →
        applySeq t (sequenceOf (requested req.ops)) =
          weave t 0 t.length ((readingOrder (requested req.ops)).map itemOf)) ∧
      ∀ (i j : Nat) (x y x' y' : Resolved), (requested req.ops)[i]? = some x →
        (requested req.ops)[j]? = some y → items[i]? = some x' → items[j]? = some y' → i ≠ j →
        x'.text = x.text ∧ (ReadsBefore items x' y' ↔
            if x.s = x.e ∧ y.s = y.e ∧ x.s ≠ y.s ∧ x'.s = y'.s then i < j
            else ReadsBefore (requested req.ops) x y) := by
  obtain ⟨hops, _, -, hitems⟩ := resolveTxn_base hcas h
  obtain ⟨es, hlands, hp, hc⟩ := resolveItems_lands hops hitems
  obtain ⟨hlen, hget⟩ := forall₂_iff_get.mp hlands
  have hat : ∀ {i : Nat} {x x' : Resolved}, (requested req.ops)[i]? = some x → items[i]? = some x' →
      Lands b es x x' ∧ x ∈ requested req.ops ∧ x' ∈ items := by
    intro i x x' hx hx'
    obtain ⟨hi, rfl⟩ := List.getElem?_eq_some_iff.mp hx
    obtain ⟨hi', rfl⟩ := List.getElem?_eq_some_iff.mp hx'
    exact ⟨hget i hi hi', List.getElem_mem hi, List.getElem_mem hi'⟩
  have hfrom : ∀ x' ∈ items, ∃ x ∈ requested req.ops, Lands b es x x' := by
    intro x' hx'
    obtain ⟨i, hi, rfl⟩ := getElem_of_mem hx'
    exact ⟨_, List.getElem_mem (hlen ▸ hi), hget i (hlen ▸ hi) hi⟩
  have hproper : ∀ x' ∈ items, x'.s ≤ x'.e := fun x' hx' =>
    have ⟨x, hx, hl⟩ := hfrom x' hx'
    (transformThrough_size (hp x hx) hl.range).1
  have hinside : ∀ x' ∈ items, x'.e ≤ b.text.len := fun x' hx' =>
    have ⟨_, _, hl⟩ := hfrom x' hx'
    Lib.Coding.boundary_le (checkOffset_ok hl.high).2
  have hclear : items.Pairwise fun x y => Clear x.range y.range := by
    refine pairwise_iff_getElem.mpr fun i j hi hj hlt => ?_
    have hbase := pairwise_iff_getElem.mp hc i j (hlen ▸ hi) (hlen ▸ hj) hlt
    have hli := hget i (hlen ▸ hi) hi
    have hlj := hget j (hlen ▸ hj) hj
    have hpi := hp _ (List.getElem_mem (hlen ▸ hi))
    have hpj := hp _ (List.getElem_mem (hlen ▸ hj))
    exact hbase.imp (fun hle => transformThrough_apart hpj hpi hle hlj.range hli.range)
      fun hle => transformThrough_apart hpi hpj hle hli.range hlj.range
  have hadm : Admissible b.text (sequenceOf items) := by
    refine ⟨sequenceOf_items hproper ▸ chain_readingOrder hproper hclear hinside, fun e he => ?_⟩
    obtain ⟨x', hx', rfl⟩ := mem_map.mp he
    have hin := (perm_canonicalSort _ _).mem_iff.mp hx'
    obtain ⟨_, -, hl⟩ := hfrom x' hin
    rw [Nat.add_sub_cancel' (hproper x' hin)]
    exact ⟨(checkOffset_ok hl.low).2, (checkOffset_ok hl.high).2⟩
  refine ⟨hclear, fun msg => ?_, applySeq_sequenceOf hproper hclear hinside,
    fun t ht => applySeq_sequenceOf hp hc ht, fun i j x y x' y' hx hy hx' hy' hne => ?_⟩
  · rw [Text.simulate_admissible hadm]
    split_ifs <;> simp [internal, tooLarge, tooManyLines, CoreError.withNum]
  · obtain ⟨hlx, hmx, hmx'⟩ := hat hx hx'
    obtain ⟨hly, hmy, hmy'⟩ := hat hy hy'
    have hidx : x.idx ≠ y.idx := by
      rwa [requested_idx hx, requested_idx hy]
    have hidx' : x'.idx ≠ y'.idx := by
      rwa [hlx.idx, hly.idx]
    have hsymm : Std.Symm fun x y : Resolved => Clear x.range y.range := ⟨fun _ _ => clear_comm.mp⟩
    have hbase := hc.forall hmx hmy fun heq => hidx (congrArg Resolved.idx heq)
    refine ⟨hlx.text, ?_⟩
    rw [readsBefore_iff hmx' hmy' hidx', readsBefore_iff hmx hmy hidx,
      Lands.order (hp x hmx) (hp y hmy) hbase hlx hly hidx, requested_idx hx, requested_idx hy]

end Buffer

/-- Two letters typed where a deletion brought their places together. -/
theorem rebase_keeps_shape_and_order_typed :
    ∃ b items, Buffer.resolveTxn b ⟨[.insert (.offset 0) (Str.ofChars ['A']),
      .insert (.offset 2) (Str.ofChars ['B'])], .baseRev 0, false, none, none⟩ = .ok items ∧
      items.Pairwise fun x y => Clear x.range y.range :=
  have h : (((Buffer.withText (Text.letters 2 (by decide))).step (.apply ⟨[.delete (.offsets 0 2)],
      .latest, false, none, none⟩ ⟨.agent, "b"⟩ ⟨none, "local", none, none⟩ 0)).resolveTxn
      ⟨[.insert (.offset 0) (Str.ofChars ['A']), .insert (.offset 2) (Str.ofChars ['B'])], .baseRev 0,
        false, none, none⟩) = .ok [⟨0, 0, Str.ofChars ['A'], 0⟩, ⟨0, 0, Str.ofChars ['B'], 1⟩] := by
    decide +kernel
  ⟨_, _, h, (Buffer.rebase_keeps_shape_and_order rfl h).1⟩

/-- Two inserts named last first: the text between them is deleted meanwhile, and they swap. -/
theorem rebased_inserts_swap : (do
      let t ← Text.fromText (Str.ofChars ['x', 'y'])
      let ops := [OpSpec.insert (.offset 2) (Str.ofChars ['B']), .insert (.offset 0) (Str.ofChars ['A'])]
      let via : Via := ⟨none, "local", none, none⟩
      let atBase ← (Buffer.withText t).apply ⟨ops, .latest, false, none, none⟩ ⟨.agent, "a"⟩ via 0
      let cut ← (Buffer.withText t).apply ⟨[.delete (.offsets 0 2)], .latest, false, none, none⟩
        ⟨.agent, "b"⟩ via 0
      let rebased ← cut.1.apply ⟨ops, .baseRev 0, false, none, none⟩ ⟨.agent, "a"⟩ via 0
      pure (atBase.1.text.bytes, rebased.1.text.bytes) :
      Except CoreError (List UInt8 × List UInt8)).toOption = some ([65, 120, 121, 66], [66, 65]) := by
  decide +kernel

end Cosmix.EditCore
