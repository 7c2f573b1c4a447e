/- digest: Finite tables; a queue for each origin and a list of turns. -/

import Mathlib.Data.List.AList
import Mathlib.Algebra.Order.BigOperators.Group.List
import Mathlib.Algebra.Order.Ring.Int

/-! Origins take turns; each has a queue of its own. The operations are described by what they do to
the partial map from waiting elements to origins. -/

namespace Cosmix.Lib

abbrev Table (K V : Type) := AList fun _ : K => V

/-- An order in which the entries of a hash table may be walked. -/
structure Walk (α : Type) where
  walk : List α → List α
  perm : ∀ l, (walk l).Perm l

def Walk.plain (α : Type) : Walk α := ⟨id, fun _ => .rfl⟩

@[simp] theorem Walk.mem_walk {α : Type} (w : Walk α) {l : List α} {a : α} :
    a ∈ w.walk l ↔ a ∈ l := (w.perm l).mem_iff

namespace Table

variable {K V : Type}

def values (t : Table K V) : List V := t.entries.map Sigma.snd

def weight (f : V → Nat) (t : Table K V) : Nat := (t.values.map f).sum

variable [DecidableEq K]

theorem lookup_insert_eq (t : Table K V) (k : K) (v : V) (j : K) :
    (t.insert k v).lookup j = if j = k then some v else t.lookup j := by
  split
  · subst j
    exact AList.lookup_insert t
  · exact AList.lookup_insert_ne ‹_›

theorem of_lookup_insert {t : Table K V} {k j : K} {v w : V} (h : (t.insert k v).lookup j = some w) :
    j = k ∧ w = v ∨ j ≠ k ∧ t.lookup j = some w := by
  rw [lookup_insert_eq] at h
  split at h
  · exact .inl ⟨‹_›, (Option.some.inj h).symm⟩
  · exact .inr ⟨‹_›, h⟩

theorem lookup_erase_eq (t : Table K V) (k j : K) :
    (t.erase k).lookup j = if j = k then none else t.lookup j := by
  split
  · subst j
    exact AList.lookup_erase k t
  · exact AList.lookup_erase_ne ‹_›

theorem mem_entries {t : Table K V} {k : K} {v : V} :
    (⟨k, v⟩ : Sigma fun _ : K => V) ∈ t.entries ↔ t.lookup k = some v :=
  AList.mem_lookup_iff.symm

theorem mem_values {t : Table K V} {v : V} : v ∈ t.values ↔ ∃ k, t.lookup k = some v := by
  constructor
  · intro h
    obtain ⟨⟨k, w⟩, hmem, rfl⟩ := List.mem_map.mp h
    exact ⟨k, mem_entries.mp hmem⟩
  · rintro ⟨k, h⟩
    exact List.mem_map.mpr ⟨_, mem_entries.mpr h, rfl⟩

section

variable (f : V → Nat)

theorem entries_erase (t : Table K V) (k : K) : (t.erase k).entries = t.entries.kerase k := rfl

theorem weight_erase_add (t : Table K V) (k : K) :
    weight f (t.erase k) + (t.lookup k).elim 0 f = weight f t := by
  obtain ⟨l, hl⟩ := t
  have hsum : ∀ l : List (Sigma fun _ : K => V),
      ((l.kerase k).map fun x => f x.2).sum + (l.dlookup k).elim 0 f = (l.map fun x => f x.2).sum := by
    intro l
    induction l with
    | nil => rfl
    | cons x l ih =>
      obtain ⟨j, v⟩ := x
      by_cases hj : k = j
      · subst j
        simp [add_comm]
      · rw [List.kerase_cons_ne hj, List.dlookup_cons_ne _ _ hj, List.map_cons, List.sum_cons,
          List.map_cons, List.sum_cons, add_assoc, ih]
  simpa [weight, values, entries_erase, AList.lookup, Function.comp_def] using hsum l

theorem weight_insert (t : Table K V) (k : K) (v : V) :
    weight f (t.insert k v) + (t.lookup k).elim 0 f = weight f t + f v := by
  have hins : weight f (t.insert k v) = f v + weight f (t.erase k) := by
    simp [weight, values, entries_erase]
  rw [← weight_erase_add f t k]
  omega

end

section

variable (p : V → Bool)

def count (t : Table K V) : Nat := (t.values.filter p).length

def keysOf (t : Table K V) : List K := (t.entries.filter fun x => p x.2).map Sigma.fst

omit [DecidableEq K] in
theorem count_eq_length_keysOf (t : Table K V) : count p t = (keysOf p t).length := by
  simp [count, keysOf, values, List.filter_map, Function.comp_def]

variable {t : Table K V}

theorem mem_keysOf {k : K} : k ∈ keysOf p t ↔ ∃ v, t.lookup k = some v ∧ p v := by
  constructor
  · intro h
    obtain ⟨⟨j, v⟩, hmem, rfl⟩ := List.mem_map.mp h
    obtain ⟨hentry, hp⟩ := List.mem_filter.mp hmem
    exact ⟨v, mem_entries.mp hentry, hp⟩
  · rintro ⟨v, h, hp⟩
    exact List.mem_map.mpr ⟨⟨k, v⟩, List.mem_filter.mpr ⟨mem_entries.mpr h, hp⟩, rfl⟩

omit [DecidableEq K] in
theorem keysOf_nodup (t : Table K V) : (keysOf p t).Nodup :=
  t.keys_nodup.sublist (List.filter_sublist.map _)

theorem count_le_of_subset {t' : Table K V}
    (h : ∀ k v, t'.lookup k = some v → p v → ∃ w, t.lookup k = some w ∧ p w) :
    count p t' ≤ count p t := by
  rw [count_eq_length_keysOf, count_eq_length_keysOf]
  refine (List.subperm_of_subset (keysOf_nodup p t') ?_).length_le
  intro k hk
  obtain ⟨v, hv, hp⟩ := (mem_keysOf p).mp hk
  exact (mem_keysOf p).mpr (h k v hv hp)

theorem count_lt_of_subset {t' : Table K V} {j : K} {u : V}
    (h : ∀ k v, t'.lookup k = some v → p v → k ≠ j ∧ ∃ w, t.lookup k = some w ∧ p w)
    (hj : t.lookup j = some u) (hu : p u) : count p t' < count p t := by
  rw [count_eq_length_keysOf, count_eq_length_keysOf]
  have hcons : (j :: keysOf p t').Nodup := by
    refine List.nodup_cons.mpr ⟨fun hin => ?_, keysOf_nodup p t'⟩
    obtain ⟨v, hv, hp⟩ := (mem_keysOf p).mp hin
    exact (h j v hv hp).1 rfl
  refine (List.subperm_of_subset hcons fun k hk => ?_).length_le
  obtain rfl | hk := List.mem_cons.mp hk
  · exact (mem_keysOf p).mpr ⟨u, hj, hu⟩
  · obtain ⟨v, hv, hp⟩ := (mem_keysOf p).mp hk
    exact (mem_keysOf p).mpr (h k v hv hp).2

theorem count_pos {j : K} {u : V} (hj : t.lookup j = some u) (hu : p u) : 0 < count p t := by
  rw [count_eq_length_keysOf]
  exact List.length_pos_of_mem ((mem_keysOf p).mpr ⟨u, hj, hu⟩)

theorem count_insert_le (t : Table K V) (k : K) (v : V) : count p (t.insert k v) ≤ count p t + 1 := by
  rw [count_eq_length_keysOf, count_eq_length_keysOf]
  have hsub : keysOf p (t.insert k v) ⊆ k :: keysOf p t := by
    intro j hj
    obtain ⟨w, hw, hp⟩ := (mem_keysOf p).mp hj
    rw [lookup_insert_eq] at hw
    by_cases hjk : j = k
    · exact hjk ▸ List.mem_cons_self
    · rw [if_neg hjk] at hw
      exact List.mem_cons_of_mem _ ((mem_keysOf p).mpr ⟨w, hw, hp⟩)
  exact (List.subperm_of_subset (keysOf_nodup p _) hsub).length_le

end

end Table

open List

structure FairQueue (O H : Type) where
  queues : Table O (List H)
  turns : List O

namespace FairQueue

variable {O H : Type} [DecidableEq O]

def empty : FairQueue O H := ⟨∅, []⟩

/-- The queue of an origin; an origin without one has nothing waiting. -/
def queueOf (q : FairQueue O H) (o : O) : List H := (q.queues.lookup o).getD []

omit [DecidableEq O] in
def length (q : FairQueue O H) : Nat := Table.weight List.length q.queues

def enqueue (q : FairQueue O H) (o : O) (h : H) : FairQueue O H where
  queues := q.queues.insert o (q.queueOf o ++ [h])
  turns := if (q.queueOf o).isEmpty then q.turns ++ [o] else q.turns

/-- The queues after an origin's turn; `rest` are the turns of the others. -/
def takeTurn (q : FairQueue O H) (o : O) (rest : List O) (queue : List H) : FairQueue O H :=
  if queue.tail.isEmpty then ⟨q.queues.erase o, rest⟩
  else ⟨q.queues.insert o queue.tail, rest ++ [o]⟩

variable [DecidableEq H]

def remove (q : FairQueue O H) (o : O) (h : H) : FairQueue O H :=
  match q.queues.lookup o with
  | none => q
  | some queue =>
    if (queue.filter (· ≠ h)).isEmpty then ⟨q.queues.erase o, q.turns.filter (· ≠ o)⟩
    else ⟨q.queues.insert o (queue.filter (· ≠ h)), q.turns⟩

omit [DecidableEq H] in
/-- The queues hold exactly the elements of a map, once, and their origins have a turn. -/
structure Holds (q : FairQueue O H) (waiting : H → Option O) : Prop where
  mem : ∀ o h, h ∈ q.queueOf o ↔ waiting h = some o
  nodup : ∀ o, (q.queueOf o).Nodup
  stored : ∀ o queue, q.queues.lookup o = some queue → queue ≠ []
  turn : ∀ o, o ∈ q.turns ↔ q.queueOf o ≠ []
  turnsNodup : q.turns.Nodup

omit [DecidableEq H] in
theorem empty_holds : (empty : FairQueue O H).Holds fun _ => none where
  mem o h := by simp [queueOf, empty]
  nodup o := by simp [queueOf, empty]
  stored o queue h := by simp [empty] at h
  turn o := by simp [queueOf, empty]
  turnsNodup := nodup_nil

section

omit [DecidableEq H]

variable (q : FairQueue O H)

theorem queueOf_insert (o j : O) (queue : List H) (turns : List O) :
    (⟨q.queues.insert o queue, turns⟩ : FairQueue O H).queueOf j =
      if j = o then queue else q.queueOf j := by
  rw [queueOf, Table.lookup_insert_eq]
  split <;> rfl

theorem queueOf_erase (o j : O) (turns : List O) :
    (⟨q.queues.erase o, turns⟩ : FairQueue O H).queueOf j = if j = o then [] else q.queueOf j := by
  rw [queueOf, Table.lookup_erase_eq]
  split <;> rfl

theorem queueOf_enqueue (o j : O) (h : H) :
    (q.enqueue o h).queueOf j = if j = o then q.queueOf o ++ [h] else q.queueOf j :=
  queueOf_insert q o j _ _

theorem elim_lookup (o : O) : (q.queues.lookup o).elim 0 List.length = (q.queueOf o).length := by
  rw [queueOf]
  cases q.queues.lookup o <;> rfl

theorem length_enqueue (o : O) (h : H) : (q.enqueue o h).length = q.length + 1 := by
  have hsum := Table.weight_insert List.length q.queues o (q.queueOf o ++ [h])
  rw [elim_lookup, length_append, length_singleton] at hsum
  change Table.weight List.length (q.queues.insert o _) = Table.weight List.length q.queues + 1
  omega

theorem length_queueOf_le (o : O) : (q.queueOf o).length ≤ q.length := by
  have hsum := Table.weight_erase_add List.length q.queues o
  rw [elim_lookup] at hsum
  change _ ≤ Table.weight List.length q.queues
  omega

variable {q} {o : O} {rest : List O} {h : H} {queue : List H}

theorem queueOf_takeTurn (j : O) :
    (q.takeTurn o rest queue).queueOf j = if j = o then queue.tail else q.queueOf j := by
  rw [takeTurn]
  by_cases hempty : queue.tail.isEmpty
  · rw [if_pos hempty, queueOf_erase, isEmpty_iff.mp hempty]
  · rw [if_neg hempty, queueOf_insert]

theorem length_takeTurn (hlookup : q.queues.lookup o = some (h :: queue)) :
    (q.takeTurn o rest (h :: queue)).length + 1 = q.length := by
  have herase := Table.weight_erase_add List.length q.queues o
  have hinsert := Table.weight_insert List.length q.queues o queue
  rw [hlookup, Option.elim_some, length_cons] at herase hinsert
  cases queue with
  | nil =>
    exact herase
  | cons x queue =>
    change Table.weight List.length (q.queues.insert o (x :: queue)) + 1 =
      Table.weight List.length q.queues
    omega

end

section

variable {q : FairQueue O H} {o : O} {h : H}

theorem queueOf_remove (j : O) :
    (q.remove o h).queueOf j = if j = o then (q.queueOf o).filter (· ≠ h) else q.queueOf j := by
  rw [remove]
  cases hlookup : q.queues.lookup o with
  | none =>
    have hnil : q.queueOf o = [] := by rw [queueOf, hlookup, Option.getD_none]
    by_cases hj : j = o
    · rw [if_pos hj, hj, hnil, filter_nil]
    · rw [if_neg hj]
  | some queue =>
    have hqueue : q.queueOf o = queue := by rw [queueOf, hlookup, Option.getD_some]
    rw [hqueue]
    dsimp only
    by_cases hempty : (queue.filter (· ≠ h)).isEmpty
    · rw [if_pos hempty, queueOf_erase, isEmpty_iff.mp hempty]
    · rw [if_neg hempty, queueOf_insert]

theorem length_remove : (q.remove o h).length + (q.queueOf o).length =
    q.length + ((q.queueOf o).filter (· ≠ h)).length := by
  rw [remove]
  cases hlookup : q.queues.lookup o with
  | none =>
    have hnil : q.queueOf o = [] := by rw [queueOf, hlookup, Option.getD_none]
    rw [hnil, filter_nil]
  | some queue =>
    have hqueue : q.queueOf o = queue := by rw [queueOf, hlookup, Option.getD_some]
    have herase := Table.weight_erase_add List.length q.queues o
    have hinsert := Table.weight_insert List.length q.queues o (queue.filter (· ≠ h))
    rw [hlookup, Option.elim_some] at herase hinsert
    rw [hqueue]
    dsimp only
    by_cases hempty : (queue.filter (· ≠ h)).isEmpty
    · rw [isEmpty_iff.mp hempty]
      change Table.weight List.length (q.queues.erase o) + _ =
        Table.weight List.length q.queues + _
      omega
    · rw [if_neg hempty]
      exact hinsert

theorem length_remove_le : (q.remove o h).length ≤ q.length := by
  have hsum := @length_remove O H _ _ q o h
  have hle := (q.queueOf o).length_filter_le (· ≠ h)
  omega

theorem length_queueOf_remove_le (j : O) :
    ((q.remove o h).queueOf j).length ≤ (q.queueOf j).length := by
  rw [queueOf_remove]
  split
  · subst j
    exact length_filter_le _ _
  · exact le_rfl

end

namespace Holds

variable {q : FairQueue O H} {waiting : H → Option O} {o : O} {h : H}

section

omit [DecidableEq H]

theorem stored_erase (hq : q.Holds waiting) (j : O) (old : List H)
    (hold : (q.queues.erase o).lookup j = some old) : old ≠ [] := by
  rw [Table.lookup_erase_eq] at hold
  split at hold
  · cases hold
  · exact hq.stored j old hold

theorem stored_insert (hq : q.Holds waiting) {queue : List H} (hne : queue ≠ []) (j : O)
    (old : List H) (hold : (q.queues.insert o queue).lookup j = some old) : old ≠ [] := by
  obtain ⟨-, rfl⟩ | ⟨-, hold⟩ := Table.of_lookup_insert hold
  · exact hne
  · exact hq.stored j old hold

theorem exists_waiting (hq : q.Holds waiting) (hpos : 0 < q.length) : ∃ h o, waiting h = some o := by
  by_contra hnone
  push Not at hnone
  have hzero : q.length = 0 := by
    refine sum_eq_zero fun n hn => ?_
    obtain ⟨queue, hmem, rfl⟩ := mem_map.mp hn
    obtain ⟨o, ho⟩ := Table.mem_values.mp hmem
    have hqueue : q.queueOf o = queue := by rw [queueOf, ho, Option.getD_some]
    have hempty : q.queueOf o = [] :=
      eq_nil_iff_forall_not_mem.mpr fun h hmem => hnone h o ((hq.mem o h).mp hmem)
    rw [← hqueue, hempty, length_nil]
  omega

end

theorem enqueue (hq : q.Holds waiting) (hnew : waiting h = none) :
    (q.enqueue o h).Holds (Function.update waiting h (some o)) where
  mem := by
    intro j x
    rw [queueOf_enqueue]
    by_cases hx : x = h
    · subst x
      by_cases hj : j = o
      · simp [hj]
      have hnot : h ∉ q.queueOf j := by
        rw [hq.mem, hnew]
        simp
      simp [hj, hnot, Ne.symm hj]
    · rw [Function.update_of_ne hx]
      by_cases hj : j = o
      · subst j
        simp [hx, hq.mem]
      · simp [hj, hq.mem]
  nodup := by
    intro j
    rw [queueOf_enqueue]
    split
    · have hnot : h ∉ q.queueOf o := by
        rw [hq.mem, hnew]
        simp
      exact concat_eq_append ▸ (hq.nodup o).concat hnot
    · exact hq.nodup j
  stored := hq.stored_insert (by simp)
  turn := by
    intro j
    rw [queueOf_enqueue, FairQueue.enqueue]
    by_cases hempty : (q.queueOf o).isEmpty
    · by_cases hj : j = o
      · simp [hempty, hj]
      · simp [hempty, hj, hq.turn]
    by_cases hj : j = o
    · subst j
      have hne : q.queueOf o ≠ [] := fun h => hempty (isEmpty_iff.mpr h)
      simp [hq.turn, hne]
    · simp [hempty, hj, hq.turn]
  turnsNodup := by
    rw [FairQueue.enqueue]
    by_cases hempty : (q.queueOf o).isEmpty
    · have hnot : o ∉ q.turns := by
        rw [hq.turn]
        simpa using isEmpty_iff.mp hempty
      simp only [hempty]
      exact concat_eq_append ▸ hq.turnsNodup.concat hnot
    · simp only [hempty]
      exact hq.turnsNodup

theorem remove (hq : q.Holds waiting) (hown : ∀ j, waiting h = some j → j = o) :
    (q.remove o h).Holds (Function.update waiting h none) where
  mem := by
    intro j x
    rw [queueOf_remove]
    by_cases hx : x = h
    · subst x
      by_cases hj : j = o
      · simp [hj]
      have hnot : h ∉ q.queueOf j := by
        rw [hq.mem]
        exact fun hw => hj (hown j hw)
      simp [hj, hnot]
    · rw [Function.update_of_ne hx]
      by_cases hj : j = o
      · subst j
        simp [hx, hq.mem]
      · simp [hj, hq.mem]
  nodup := by
    intro j
    rw [queueOf_remove]
    split
    · exact (hq.nodup o).filter _
    · exact hq.nodup j
  stored := by
    intro j queue hlookup
    rw [FairQueue.remove] at hlookup
    cases hold : q.queues.lookup o with
    | none =>
      rw [hold] at hlookup
      exact hq.stored j queue hlookup
    | some =>
      rw [hold] at hlookup
      dsimp only at hlookup
      split at hlookup
      · exact hq.stored_erase j queue hlookup
      · next hempty => exact hq.stored_insert (fun h => hempty (isEmpty_iff.mpr h)) j queue hlookup
  turn := by
    intro j
    rw [queueOf_remove, FairQueue.remove]
    cases hold : q.queues.lookup o with
    | none =>
      have hnil : q.queueOf o = [] := by rw [queueOf, hold, Option.getD_none]
      by_cases hj : j = o
      · subst j
        simp [hq.turn, hnil]
      · simp [hj, hq.turn]
    | some old =>
      have hold' : q.queueOf o = old := by rw [queueOf, hold, Option.getD_some]
      have hne : old ≠ [] := hq.stored o old hold
      rw [hold']
      dsimp only
      by_cases hempty : (old.filter (· ≠ h)).isEmpty
      · rw [if_pos hempty]
        by_cases hj : j = o
        · simpa [hj] using isEmpty_iff.mp hempty
        · simp [hj, hq.turn]
      · rw [if_neg hempty]
        by_cases hj : j = o
        · subst j
          have hkept : old.filter (· ≠ h) ≠ [] := fun h => hempty (isEmpty_iff.mpr h)
          rw [if_pos rfl, hq.turn, hold']
          exact ⟨fun _ => hkept, fun _ => hne⟩
        · simp [hj, hq.turn]
  turnsNodup := by
    rw [FairQueue.remove]
    cases q.queues.lookup o with
    | none => exact hq.turnsNodup
    | some =>
      dsimp only
      split
      · exact hq.turnsNodup.filter _
      · exact hq.turnsNodup

/-- The first of the turns has a queue, and what is taken from it was waiting. -/
theorem takeTurn (hq : q.Holds waiting) {rest : List O} (hturns : q.turns = o :: rest) :
    ∃ h queue, q.queues.lookup o = some (h :: queue) ∧ waiting h = some o ∧
      (q.takeTurn o rest (h :: queue)).Holds (Function.update waiting h none) := by
  have hne : q.queueOf o ≠ [] := (hq.turn o).mp (hturns ▸ mem_cons_self)
  have hnodupTurns : o ∉ rest ∧ rest.Nodup := nodup_cons.mp (hturns ▸ hq.turnsNodup)
  obtain ⟨h, queue, hqueue⟩ := exists_cons_of_ne_nil hne
  have hlookup : q.queues.lookup o = some (h :: queue) := by
    cases hold : q.queues.lookup o with
    | none => simp [queueOf, hold] at hne
    | some =>
      rw [queueOf, hold, Option.getD_some] at hqueue
      rw [hqueue]
  have hhead : waiting h = some o := by
    rw [← hq.mem, hqueue]
    exact mem_cons_self
  have hnodup : h ∉ queue ∧ queue.Nodup := nodup_cons.mp (hqueue ▸ hq.nodup o)
  have hin : ∀ j, j ∈ (q.takeTurn o rest (h :: queue)).turns ↔
      j ∈ rest ∨ (j = o ∧ queue ≠ []) := by
    intro j
    cases queue <;> simp [FairQueue.takeTurn]
  refine ⟨h, queue, hlookup, hhead, ?_, ?_, ?_, ?_, ?_⟩
  · intro j x
    rw [queueOf_takeTurn, tail_cons]
    have hj : j = o → (x ∈ queue ↔ x ≠ h ∧ x ∈ q.queueOf j) := by
      rintro rfl
      rw [hqueue, mem_cons]
      exact ⟨fun hx => ⟨fun hxh => hnodup.1 (hxh ▸ hx), .inr hx⟩,
        fun hx => hx.2.resolve_left hx.1⟩
    by_cases hx : x = h
    · subst x
      by_cases hjo : j = o
      · simp [hjo, hnodup.1]
      have hnot : h ∉ q.queueOf j := by
        rw [hq.mem, hhead]
        simpa using Ne.symm hjo
      simp [hjo, hnot]
    · rw [Function.update_of_ne hx, ← hq.mem]
      by_cases hjo : j = o
      · rw [if_pos hjo, hj hjo]
        exact ⟨fun h => h.2, fun h => ⟨hx, h⟩⟩
      · rw [if_neg hjo]
  · intro j
    rw [queueOf_takeTurn]
    split
    · exact hnodup.2
    · exact hq.nodup j
  · cases queue with
    | nil => exact hq.stored_erase
    | cons x queue => exact hq.stored_insert (cons_ne_nil x queue)
  · intro j
    rw [hin, queueOf_takeTurn]
    by_cases hjo : j = o
    · simp [hjo, hnodupTurns.1]
    have hturn : j ∈ q.turns ↔ j ∈ rest := by
      rw [hturns, mem_cons]
      exact ⟨fun h => h.resolve_left hjo, .inr⟩
    simp [hjo, ← hturn, hq.turn]
  · cases queue with
    | nil => exact hnodupTurns.2
    | cons =>
      show (rest ++ [o]).Nodup
      exact concat_eq_append ▸ hnodupTurns.2.concat hnodupTurns.1

end Holds

end FairQueue

end Cosmix.Lib
