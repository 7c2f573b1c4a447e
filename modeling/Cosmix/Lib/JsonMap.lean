/- digest: JSON objects as unordered maps, with ordered keys as normal form. -/

import Cosmix.Lib.JsonRoundTrip

namespace Cosmix.Lib.Json

open List

/-- What a JSON value is, with an object as a map from keys. -/
inductive Tree
  | null
  | bool (b : Bool)
  | number (n : Int)
  | string (s : String)
  | array (items : List Tree)
  | object (members : String → Option Tree)

def meaningCases : Cases Tree where
  null := .null
  bool := .bool
  number := .number
  string := .string
  array := .array
  object members := .object fun k => members.lookup k

def meaning : Json → Tree := fold meaningCases

def byKey (a b : String × Json) : Prop := a.1 ≤ b.1

instance : DecidableRel byKey := fun a b => inferInstanceAs (Decidable (a.1 ≤ b.1))

instance : Std.Total byKey := ⟨fun a b => le_total a.1 b.1⟩

instance : IsTrans (String × Json) byKey := ⟨fun _ _ _ => le_trans⟩

def sortedCases : Cases Json where
  null := .null
  bool := .bool
  number := .number
  string := .string
  array := .array
  object members := .object (members.insertionSort byKey)

/-- The value with the members of every object in the order of their keys. -/
def sorted : Json → Json := fold sortedCases

section

variable {β γ : Type} {l : List (String × β)} {k : String}

theorem mem_of_lookup {v : β} (h : l.lookup k = some v) : (k, v) ∈ l := by
  obtain ⟨front, _, rfl, -⟩ := List.lookup_eq_some_iff.mp h
  exact mem_append_right front mem_cons_self

theorem lookup_of_mem (hl : (l.map Prod.fst).Nodup) {v : β}
    (h : (k, v) ∈ l) : l.lookup k = some v := by
  induction l with
  | nil => cases h
  | cons m l ih =>
    obtain ⟨k', _⟩ := m
    obtain ⟨hnot, hl⟩ := nodup_cons.mp hl
    rw [lookup_cons]
    rcases mem_cons.mp h with heq | hmem
    · cases heq
      rw [beq_self_eq_true]
    have hk : k ≠ k' := by
      rintro rfl
      exact hnot (mem_map.mpr ⟨_, hmem, rfl⟩)
    rw [beq_eq_false_iff_ne.mpr hk]
    exact ih hl hmem

theorem lookup_map (f : β → γ) (l : List (String × β)) (k : String) :
    (l.map fun m => (m.1, f m.2)).lookup k = (l.lookup k).map f := by
  induction l with
  | nil => rfl
  | cons m l ih =>
    rw [map_cons, lookup_cons, lookup_cons, ih]
    cases k == m.1 <;> rfl

theorem lookup_eq_some_iff (hl : (l.map Prod.fst).Nodup) {v : β} :
    l.lookup k = some v ↔ (k, v) ∈ l :=
  ⟨mem_of_lookup, lookup_of_mem hl⟩

theorem lookup_perm {l' : List (String × β)} (hl : (l.map Prod.fst).Nodup) (hp : l.Perm l')
    (k : String) : l.lookup k = l'.lookup k := by
  have hl' : (l'.map Prod.fst).Nodup := (hp.map Prod.fst).nodup_iff.mp hl
  ext v
  rw [lookup_eq_some_iff hl, lookup_eq_some_iff hl', hp.mem_iff]

end

theorem map_fst_pair {β γ : Type} (f : β → γ) (l : List (String × β)) :
    (l.map fun m => (m.1, f m.2)).map Prod.fst = l.map Prod.fst := by
  rw [map_map]
  rfl

variable (items : List Json)

@[simp] theorem distinct_array : Distinct (.array items) ↔ ∀ v ∈ items, Distinct v := by
  have h : Distinct (.array items) = ∀ p ∈ items.map Distinct, p := fold_array distinctCases items
  rw [h]
  exact forall_mem_map

variable (members : List (String × Json))

@[simp] theorem distinct_object : Distinct (.object members) ↔
      (members.map Prod.fst).Nodup ∧ ∀ m ∈ members, Distinct m.2 := by
  have h : Distinct (.object members) = (((members.map fun m => (m.1, Distinct m.2)).map
      Prod.fst).Nodup ∧ ∀ p ∈ members.map fun m => (m.1, Distinct m.2), p.2) :=
    fold_object distinctCases members
  rw [h, map_fst_pair]
  exact and_congr_right' forall_mem_map

theorem sorted_array : sorted (.array items) = .array (items.map sorted) :=
  fold_array sortedCases items

theorem sorted_object : sorted (.object members) =
      .object ((members.map fun m => (m.1, sorted m.2)).insertionSort byKey) :=
  fold_object sortedCases members

theorem meaning_array : meaning (.array items) = .array (items.map meaning) :=
  fold_array meaningCases items

theorem meaning_object :
    meaning (.object members) = .object fun k => (members.lookup k).map meaning := by
  have h : meaning (.object members) =
      .object fun k => (members.map fun m => (m.1, meaning m.2)).lookup k :=
    fold_object meaningCases members
  rw [h]
  exact congrArg Tree.object (funext fun k => lookup_map meaning members k)

variable {v : Json}

theorem meaning_sorted (h : Distinct v) : meaning (sorted v) = meaning v := by
  induction v using nested with
  | null | bool | number | string => rfl
  | array items ih =>
    rw [distinct_array] at h
    rw [sorted_array, meaning_array, meaning_array, map_map]
    exact congrArg Tree.array (map_congr_left fun v hv => ih v hv (h v hv))
  | object members ih =>
    rw [distinct_object] at h
    rw [sorted_object, meaning_object, meaning_object]
    refine congrArg Tree.object (funext fun k => ?_)
    have hnodup : ((members.map fun m => (m.1, sorted m.2)).map Prod.fst).Nodup := by
      rw [map_fst_pair]
      exact h.1
    have hperm := (perm_insertionSort byKey (members.map fun m => (m.1, sorted m.2))).symm
    rw [← lookup_perm hnodup hperm, lookup_map]
    cases hk : members.lookup k with
    | none => rfl
    | some v =>
      have hmem := mem_of_lookup hk
      exact congrArg some (ih (k, v) hmem (h.2 (k, v) hmem))

/-- Values that are the same, with objects as maps, have the same sorted form. -/
theorem sorted_eq_of_meaning (a b : Json) (ha : Distinct a) (hb : Distinct b)
    (h : meaning a = meaning b) : sorted a = sorted b := by
  induction a using nested generalizing b with
  | null | bool | number | string =>
    cases b <;> simp_all [meaning, meaningCases, sorted, sortedCases]
  | array xs ih =>
    cases b with
    | array ys =>
      rw [distinct_array] at ha hb
      rw [meaning_array, meaning_array, Tree.array.injEq] at h
      rw [sorted_array, sorted_array]
      refine congrArg Json.array ?_
      -- item by item
      induction xs generalizing ys with
      | nil =>
        cases ys with
        | nil => rfl
        | cons => cases h
      | cons x xs ihs =>
        cases ys with
        | nil => cases h
        | cons y ys =>
          obtain ⟨hxy, htail⟩ := List.cons.inj h
          rw [map_cons, map_cons,
            ih x mem_cons_self y (ha x mem_cons_self) (hb y mem_cons_self) hxy,
            ihs (fun v hv => ih v (mem_cons_of_mem _ hv))
              (fun v hv => ha v (mem_cons_of_mem _ hv)) ys
              (fun v hv => hb v (mem_cons_of_mem _ hv)) htail]
    | _ => simp [meaning, meaningCases] at h
  | object ms ih =>
    cases b with
    | object ns =>
      rw [distinct_object] at ha hb
      rw [meaning_object, meaning_object, Tree.object.injEq] at h
      have heq := congrFun h
      rw [sorted_object, sorted_object]
      refine congrArg Json.object ?_
      have hnodup : ∀ l : List (String × Json), (l.map Prod.fst).Nodup →
          ((l.map fun m => (m.1, sorted m.2)).map Prod.fst).Nodup := fun l hl => by
        rwa [map_fst_pair]
      have hms := hnodup ms ha.1
      have hns := hnodup ns hb.1
      -- the same members, so the same list once sorted
      have hlookup : ∀ k, (ms.lookup k).map sorted = (ns.lookup k).map sorted := by
        intro k
        have hk := heq k
        cases hv : ms.lookup k with
        | none =>
          rw [hv] at hk
          rw [Option.map_eq_none_iff.mp hk.symm]
        | some =>
          rw [hv] at hk
          obtain ⟨w, hw, hvw⟩ := Option.map_eq_some_iff.mp hk.symm
          have hv := mem_of_lookup hv
          rw [hw, Option.map_some, Option.map_some,
            ih _ hv w (ha.2 _ hv) (hb.2 _ (mem_of_lookup hw)) hvw.symm]
      have hperm : (ms.map fun m => (m.1, sorted m.2)).Perm (ns.map fun m => (m.1, sorted m.2)) := by
        refine (perm_ext_iff_of_nodup hms.of_map hns.of_map).mpr fun p => ?_
        rw [← lookup_eq_some_iff hms, ← lookup_eq_some_iff hns, lookup_map, lookup_map, hlookup]
      have hp₁ := perm_insertionSort byKey (ms.map fun m => (m.1, sorted m.2))
      have hp₂ := perm_insertionSort byKey (ns.map fun m => (m.1, sorted m.2))
      refine List.Perm.eq_of_pairwise ?_ (pairwise_insertionSort byKey _)
        (pairwise_insertionSort byKey _) ((hp₁.trans hperm).trans hp₂.symm)
      intro p q hp hq hpq hqp
      have hkey : p.1 = q.1 := le_antisymm hpq hqp
      have hp' := hp₁.mem_iff.mp hp
      have hq' := hperm.mem_iff.mpr (hp₂.mem_iff.mp hq)
      exact inj_on_of_nodup_map hms hp' hq' hkey
    | _ => simp [meaning, meaningCases] at h

theorem inRange_sorted (h : InRange v) : InRange (sorted v) := by
  induction v using nested with
  | null | bool | string => trivial
  | number => exact h
  | array items ih =>
    rw [inRange_array] at h
    rw [sorted_array, inRange_array]
    exact forall_mem_map.mpr fun v hv => ih v hv (h v hv)
  | object members ih =>
    rw [inRange_object] at h
    rw [sorted_object, inRange_object]
    intro m hm
    obtain ⟨m', hm', rfl⟩ := mem_map.mp ((perm_insertionSort byKey _).mem_iff.mp hm)
    exact ih m' hm' (h m' hm')

theorem distinct_sorted (h : Distinct v) : Distinct (sorted v) := by
  induction v using nested with
  | null | bool | number | string => trivial
  | array items ih =>
    rw [distinct_array] at h
    rw [sorted_array, distinct_array]
    exact forall_mem_map.mpr fun v hv => ih v hv (h v hv)
  | object members ih =>
    rw [distinct_object] at h
    rw [sorted_object, distinct_object]
    have hperm := perm_insertionSort byKey (members.map fun m => (m.1, sorted m.2))
    constructor
    · rw [(hperm.map Prod.fst).nodup_iff, map_fst_pair]
      exact h.1
    · intro m hm
      obtain ⟨m', hm', rfl⟩ := mem_map.mp (hperm.mem_iff.mp hm)
      exact ih m' hm' (h.2 m' hm')

theorem foldr_max_perm {l l' : List Nat} (h : l.Perm l') : l.foldr max 0 = l'.foldr max 0 := by
  induction h with
  | nil => rfl
  | cons n _ ih => rw [foldr_cons, foldr_cons, ih]
  | swap m n l => exact max_left_comm n m (l.foldr max 0)
  | trans _ _ ih₁ ih₂ => exact ih₁.trans ih₂

theorem depth_sorted (v : Json) : depth (sorted v) = depth v := by
  induction v using nested with
  | null | bool | number | string => rfl
  | array items ih =>
    rw [sorted_array, depth_array, depth_array, map_map]
    have hmap : items.map (depth ∘ sorted) = items.map depth := map_congr_left ih
    rw [hmap]
  | object members ih =>
    rw [sorted_object, depth_object, depth_object]
    have hperm := (perm_insertionSort byKey (members.map fun m => (m.1, sorted m.2))).map
      fun m => depth m.2
    have hmap : members.map ((fun m => depth m.2) ∘ fun m => (m.1, sorted m.2)) =
        members.map fun m => depth m.2 := map_congr_left ih
    rw [foldr_max_perm hperm, map_map, hmap]

end Cosmix.Lib.Json
