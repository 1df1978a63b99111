import Mathlib.Data.List.Basic
import Mathlib.Data.List.Perm.Basic

/-!
# A list of threads of which one moves

The threads that a system has started are a list, and a step of thread `i` replaces its state
(`List.set`). An invariant says something of every thread, or that some thread is at a place: the
lemmas say what is left to show of the thread that moved.
-/

namespace Jumpstarter.Lib

open List

variable {α : Type} {l : List α} {i j : Nat} {x y z : α}

theorem getElem?_set_cases (h : (l.set i y)[j]? = some z) : j = i ∧ z = y ∨ j ≠ i ∧ l[j]? = some z := by
  by_cases hj : j = i
  · subst hj
    rw [getElem?_set_self'] at h
    obtain ⟨-, -, rfl⟩ := Option.map_eq_some_iff.mp h
    exact .inl ⟨rfl, rfl⟩
  · rw [getElem?_set_ne (Ne.symm hj)] at h
    exact .inr ⟨hj, h⟩

variable {β : Type}

theorem map_set_of {f : α → β} (h : l[i]? = some x) (hf : f y = f x) : (l.set i y).map f = l.map f := by
  obtain ⟨hi, rfl⟩ := List.getElem?_eq_some_iff.mp h
  have hi' : i < (l.map f).length := by rwa [length_map]
  rw [map_set, hf, ← getElem_map f (h := hi'), set_getElem_self]

theorem getElem?_set_of (h : l[i]? = some x) : (l.set i y)[i]? = some y := by
  rw [getElem?_set_self', h]
  rfl

theorem getElem?_concat_cases (h : (l ++ [y])[j]? = some z) : l[j]? = some z ∨ z = y := by
  rw [getElem?_append] at h
  split at h
  · exact .inl h
  · exact .inr (mem_singleton.mp (mem_of_getElem? h))

theorem getElem?_concat_of (h : l[j]? = some x) : (l ++ [y])[j]? = some x :=
  (getElem?_append_left (List.getElem?_eq_some_iff.mp h).1).trans h

variable {P : α → Prop}

theorem forall_mem_concat (hl : ∀ a ∈ l, P a) (hy : P y) : ∀ a ∈ l ++ [y], P a := by
  intro a ha
  rcases mem_append.mp ha with h | h
  · exact hl a h
  · exact mem_singleton.mp h ▸ hy

theorem exists_mem_concat (hl : ∃ a ∈ l, P a) : ∃ a ∈ l ++ [y], P a := by
  obtain ⟨a, ha, hp⟩ := hl
  exact ⟨a, mem_append_left _ ha, hp⟩

theorem forall_mem_set (hl : ∀ a ∈ l, P a) (hy : P y) : ∀ a ∈ l.set i y, P a := by
  intro a ha
  rcases mem_or_eq_of_mem_set ha with h | rfl
  · exact hl a h
  · exact hy

theorem exists_mem_set (hi : l[i]? = some x) (hP : P x → P y) (hl : ∃ a ∈ l, P a) : ∃ a ∈ l.set i y, P a := by
  obtain ⟨a, ha, hp⟩ := hl
  obtain ⟨j, hj⟩ := mem_iff_getElem?.mp ha
  by_cases hij : j = i
  · subst hij
    rw [hi] at hj
    cases hj
    exact ⟨y, mem_of_getElem? (getElem?_set_of hi), hP hp⟩
  · exact ⟨a, mem_of_getElem? ((getElem?_set_ne (Ne.symm hij)).trans hj), hp⟩

theorem filterMap_cons_toList (g : α → Option β) (a : α) (l : List α) :
    (a :: l).filterMap g = (g a).toList ++ l.filterMap g := by
  rw [filterMap_cons]
  cases g a <;> rfl

theorem perm_filterMap_set (g : α → Option β) (hi : l[i]? = some x) :
    ((l.set i y).filterMap g ++ (g x).toList).Perm (l.filterMap g ++ (g y).toList) := by
  induction l generalizing i with
  | nil => cases hi
  | cons a l ih =>
    cases i with
    | zero =>
      cases hi
      simp only [set_cons_zero, filterMap_cons_toList, append_assoc]
      refine perm_append_comm.trans ?_
      rw [append_assoc]
      refine perm_append_comm.trans ?_
      rw [append_assoc]
      exact perm_append_comm.append_left _
    | succ i =>
      simp only [set_cons_succ, filterMap_cons_toList, append_assoc]
      exact (ih hi).append_left _

theorem mem_set_of (hi : l[i]? = some x) : y ∈ l.set i y := mem_of_getElem? (getElem?_set_of hi)

end Jumpstarter.Lib
