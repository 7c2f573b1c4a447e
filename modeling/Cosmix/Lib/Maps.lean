/- digest: Stable sorting by a key; tree maps and sets after updates. -/

import Mathlib.Data.List.Sort
import Mathlib.Data.Prod.Lex
import Std.Data.ExtTreeMap
import Std.Data.ExtTreeSet

namespace Cosmix.Lib

section

variable {α κ : Type} [LinearOrder κ] (key : α → κ)

/-- The list in ascending order of a key; elements of one key keep their order. -/
def sortByKey (l : List α) : List α := l.insertionSort fun a b => key a ≤ key b

theorem sortByKey_perm (l : List α) : (sortByKey key l).Perm l := List.perm_insertionSort _ l

@[simp] theorem mem_sortByKey {l : List α} {a : α} : a ∈ sortByKey key l ↔ a ∈ l :=
  (sortByKey_perm key l).mem_iff

end

namespace Maps

variable {α β : Type} {cmp : α → α → Ordering} [Std.TransCmp cmp] [Std.LawfulEqCmp cmp]

section

variable [DecidableEq α] (m : Std.ExtTreeMap α β cmp)

theorem getElem?_insert_eq (k : α) (v : β) (j : α) :
    (m.insert k v)[j]? = if j = k then some v else m[j]? := by
  simp only [Std.ExtTreeMap.getElem?_insert, Std.LawfulEqCmp.compare_eq_iff_eq, @eq_comm _ j k]

theorem getElem?_erase_eq (k j : α) : (m.erase k)[j]? = if j = k then none else m[j]? := by
  simp only [Std.ExtTreeMap.getElem?_erase, Std.LawfulEqCmp.compare_eq_iff_eq, @eq_comm _ j k]

theorem getElem?_eraseAll (ks : List α) (j : α) :
    (ks.foldl (fun m k => m.erase k) m)[j]? = if j ∈ ks then none else m[j]? := by
  induction ks generalizing m with
  | nil => simp
  | cons k ks ih =>
    rw [List.foldl_cons, ih, getElem?_erase_eq]
    by_cases hj : j = k <;> simp [hj]

end

theorem mem_insert_eq (s : Std.ExtTreeSet α cmp) (k j : α) : j ∈ s.insert k ↔ j = k ∨ j ∈ s := by
  rw [Std.ExtTreeSet.mem_insert, Std.LawfulEqCmp.compare_eq_iff_eq, @eq_comm _ j k]

theorem mem_eraseAll (s : Std.ExtTreeSet α cmp) (ks : List α) (j : α) :
    j ∈ ks.foldl (fun s k => s.erase k) s ↔ j ∈ s ∧ j ∉ ks := by
  induction ks generalizing s with
  | nil => simp
  | cons k ks ih =>
    rw [List.foldl_cons, ih, Std.ExtTreeSet.mem_erase, ne_eq, Std.LawfulEqCmp.compare_eq_iff_eq,
      List.mem_cons, not_or, @eq_comm _ k j]
    exact ⟨fun h => ⟨h.1.2, h.1.1, h.2⟩, fun h => ⟨⟨h.2.1, h.1⟩, h.2.2⟩⟩

end Maps

end Cosmix.Lib
