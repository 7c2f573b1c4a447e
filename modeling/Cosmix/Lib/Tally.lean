/- digest: Amounts charged to keys: their sums, exact and saturating. -/

import Mathlib.Algebra.Order.BigOperators.Group.List
import Mathlib.Algebra.Order.Ring.Nat

/-! Charges are pairs of a key and an amount. A table keeps one amount for a key. A saturating table
stops at a cap: what it shows is the smaller of the cap and the exact sum. -/

namespace Cosmix.Lib.Tally

open List

variable {K : Type}

def total (xs : List (K × Nat)) : Nat := (xs.map Prod.snd).sum

@[simp] theorem total_nil : total ([] : List (K × Nat)) = 0 := rfl

@[simp] theorem total_cons (x : K × Nat) (xs : List (K × Nat)) :
    total (x :: xs) = x.2 + total xs := by
  rw [total, map_cons, sum_cons, total]

@[simp] theorem total_append (xs ys : List (K × Nat)) : total (xs ++ ys) = total xs + total ys := by
  rw [total, map_append, sum_append, total, total]

variable {xs : List (K × Nat)}

theorem total_le_of_sublist {ys : List (K × Nat)} (h : xs.Sublist ys) : total xs ≤ total ys :=
  (h.map _).sum_le_sum fun _ _ => Nat.zero_le _

variable [DecidableEq K] (k : K)

def ofKey (xs : List (K × Nat)) : Nat := (xs.map fun x => if x.1 = k then x.2 else 0).sum

@[simp] theorem ofKey_nil : ofKey k [] = 0 := rfl

@[simp] theorem ofKey_cons (x : K × Nat) (xs : List (K × Nat)) :
    ofKey k (x :: xs) = (if k = x.1 then x.2 else 0) + ofKey k xs := by
  rw [ofKey, map_cons, sum_cons, ofKey]
  simp only [eq_comm (a := k)]

@[simp] theorem ofKey_append (xs ys : List (K × Nat)) :
    ofKey k (xs ++ ys) = ofKey k xs + ofKey k ys := by
  rw [ofKey, map_append, sum_append, ofKey, ofKey]

theorem ofKey_le_of_sublist {ys : List (K × Nat)} (h : xs.Sublist ys) : ofKey k xs ≤ ofKey k ys :=
  (h.map _).sum_le_sum fun _ _ => Nat.zero_le _

theorem ofKey_le_total (xs : List (K × Nat)) : ofKey k xs ≤ total xs := by
  induction xs with
  | nil => simp
  | cons =>
    rw [ofKey_cons, total_cons]
    split <;> omega

def get (table : List (K × Nat)) : Nat := (table.lookup k).getD 0

/-- A table with an amount put to a key by a way of adding. -/
def put (add : Nat → Nat → Nat) (k : K) (n : Nat) : List (K × Nat) → List (K × Nat)
  | [] => [(k, n)]
  | x :: table => if x.1 = k then (x.1, add x.2 n) :: table else x :: put add k n table

@[simp] theorem get_nil : get k [] = 0 := rfl

theorem get_cons (j : K) (x : K × Nat) (table : List (K × Nat)) :
    get j (x :: table) = if j = x.1 then x.2 else get j table := by
  rw [get, lookup_cons]
  by_cases h : j = x.1
  · simp [h]
  · simp [h, beq_eq_false_iff_ne.mpr h, get]

theorem get_le_total (table : List (K × Nat)) : get k table ≤ total table := by
  induction table with
  | nil => simp
  | cons =>
    rw [get_cons, total_cons]
    split <;> omega

theorem get_put {add : Nat → Nat → Nat} {n : Nat} (hzero : add 0 n = n) (k j : K)
    (table : List (K × Nat)) :
    get j (put add k n table) = if j = k then add (get j table) n else get j table := by
  induction table with
  | nil =>
    rw [put, get_cons, get_nil, hzero]
  | cons x table ih =>
    rw [put]
    by_cases hx : x.1 = k
    · rw [if_pos hx, get_cons, get_cons, hx]
      by_cases h : j = k <;> simp [h]
    · rw [if_neg hx, get_cons, get_cons, ih]
      by_cases h : j = x.1 <;> simp [h, hx]

theorem total_put (n : Nat) (table : List (K × Nat)) :
    total (put (· + ·) k n table) = total table + n := by
  induction table with
  | nil => simp [put]
  | cons =>
    rw [put]
    split
    · simp only [total_cons]
      omega
    · simp only [total_cons]
      omega

/-- A table with an amount taken from a key, at most what it has. -/
def take (k : K) (n : Nat) : List (K × Nat) → List (K × Nat)
  | [] => []
  | x :: table => if x.1 = k then (x.1, x.2 - n) :: table else x :: take k n table

theorem get_take (k j : K) (n : Nat) (table : List (K × Nat)) :
    get j (take k n table) = if j = k then get j table - n else get j table := by
  induction table with
  | nil => simp [take]
  | cons x table ih =>
    rw [take]
    by_cases hx : x.1 = k
    · rw [if_pos hx, get_cons, get_cons, hx]
      by_cases h : j = k <;> simp [h]
    · rw [if_neg hx, get_cons, get_cons, ih]
      by_cases h : j = x.1 <;> simp [h, hx]

theorem total_take {k : K} {n : Nat} {table : List (K × Nat)} (h : n ≤ get k table) :
    total (take k n table) + n = total table := by
  induction table with
  | nil =>
    rw [get_nil] at h
    simp [take]
    omega
  | cons x =>
    simp only [get_cons, eq_comm (a := k)] at h
    rw [take]
    by_cases hx : x.1 = k
    · rw [if_pos hx] at h ⊢
      simp only [total_cons]
      omega
    · rw [if_neg hx] at h ⊢
      simp only [total_cons]
      omega

section

variable (cap : Nat)

def satAdd (a b : Nat) : Nat := min (a + b) cap

/-- The charges collected in a table, each amount stopped at the cap. -/
def collect (xs : List (K × Nat)) : List (K × Nat) :=
  xs.foldl (fun table x => put (satAdd cap) x.1 x.2 table) []

def satTotal (table : List (K × Nat)) : Nat := (table.map Prod.snd).foldl (satAdd cap) 0

variable {cap}

theorem foldl_satAdd (ns : List Nat) {a : Nat} (ha : a ≤ cap) :
    ns.foldl (satAdd cap) a = min (a + ns.sum) cap := by
  induction ns generalizing a with
  | nil => simp [ha]
  | cons n ns ih =>
    have hstep : satAdd cap a n ≤ cap := Nat.min_le_right _ _
    rw [foldl_cons, ih hstep, sum_cons, satAdd]
    omega

def Within (cap : Nat) (xs : List (K × Nat)) : Prop := ∀ x ∈ xs, x.2 ≤ cap

theorem get_collect (hxs : Within cap xs) (k : K) :
    get k (collect cap xs) = min (ofKey k xs) cap := by
  -- over the charges still to come, from any table within the cap
  have hfold : ∀ (ys table : List (K × Nat)), Within cap ys → get k table ≤ cap →
      get k (ys.foldl (fun table x => put (satAdd cap) x.1 x.2 table) table) =
        min (get k table + ofKey k ys) cap := by
    intro ys
    induction ys with
    | nil =>
      intro table _ htable
      simp [htable]
    | cons y ys ih =>
      intro table hys htable
      have hzero : satAdd cap 0 y.2 = y.2 := by
        have hy : y.2 ≤ cap := hys y mem_cons_self
        rw [satAdd]
        omega
      have hput : get k (put (satAdd cap) y.1 y.2 table) =
          min (get k table + if k = y.1 then y.2 else 0) cap := by
        rw [get_put hzero]
        split
        · rfl
        · simp [htable]
      rw [foldl_cons, ih _ (fun x hx => hys x (mem_cons_of_mem _ hx)) (by omega), ofKey_cons]
      omega
  simpa [collect] using hfold xs [] hxs (Nat.zero_le _)

theorem total_put_satAdd (k : K) (n : Nat) (table : List (K × Nat)) :
    min (total (put (satAdd cap) k n table)) cap = min (total table + n) cap := by
  induction table with
  | nil => simp [put]
  | cons =>
    rw [put]
    split
    · simp only [total_cons, satAdd]
      omega
    · simp only [total_cons]
      omega

theorem satTotal_collect (xs : List (K × Nat)) :
    satTotal cap (collect cap xs) = min (total xs) cap := by
  have hfold : ∀ (ys table : List (K × Nat)),
      min (total (ys.foldl (fun table x => put (satAdd cap) x.1 x.2 table) table)) cap =
        min (total table + total ys) cap := by
    intro ys
    induction ys with
    | nil => simp
    | cons y ys ih =>
      intro table
      have hput : min (total (put (satAdd cap) y.1 y.2 table)) cap = min (total table + y.2) cap :=
        total_put_satAdd y.1 y.2 table
      rw [foldl_cons, ih, total_cons]
      omega
  rw [satTotal, foldl_satAdd _ (Nat.zero_le _)]
  simpa [collect, total] using hfold xs []

theorem satAdd_satAdd (a b c : Nat) : satAdd cap (satAdd cap a b) c = min (a + b + c) cap := by
  rw [satAdd, satAdd]
  omega

omit [DecidableEq K] in
theorem within_of_total (h : total xs ≤ cap) : Within cap xs := by
  intro x hx
  have hle : x.2 ≤ total xs := le_sum_of_mem (mem_map_of_mem hx)
  omega

end

end Cosmix.Lib.Tally
