import Mathlib.Data.List.Sort

/-!
# The first of the best

What a program takes that sorts its candidates with a stable sort and uses the first: of the candidates that no
other one is before, the one that comes first in the list (`FirstBest`).
-/

namespace Jumpstarter.Lib

open List

variable {α : Type} {r : α → α → Prop} {l : List α} {b c : α}

/-- `b` is at least as good as those after it in the list, and better than those before it. -/
def FirstBest (r : α → α → Prop) (l : List α) (b : α) : Prop :=
  ∃ l₁ l₂, l = l₁ ++ b :: l₂ ∧ (∀ c ∈ l₁, ¬r c b) ∧ ∀ c ∈ l₂, r b c

theorem FirstBest.mem (h : FirstBest r l b) : b ∈ l := by
  obtain ⟨l₁, l₂, rfl, -, -⟩ := h
  exact mem_append_right l₁ mem_cons_self

theorem FirstBest.le (htotal : ∀ a b, r a b ∨ r b a) (h : FirstBest r l b) (hc : c ∈ l) : r b c := by
  obtain ⟨l₁, l₂, rfl, hbefore, hafter⟩ := h
  rcases mem_append.mp hc with hc | hc
  · exact (htotal c b).resolve_left (hbefore c hc)
  · rcases mem_cons.mp hc with rfl | hc
    · exact (htotal c c).elim id id
    · exact hafter c hc

theorem FirstBest.sublist (h : FirstBest r l b) (hc : c ∈ l) (hne : c ≠ b) (hr : r c b) : [b, c].Sublist l := by
  obtain ⟨l₁, l₂, rfl, hbefore, -⟩ := h
  rcases mem_append.mp hc with hc | hc
  · exact absurd hr (hbefore c hc)
  · have hc : c ∈ l₂ := (mem_cons.mp hc).resolve_left hne
    exact (cons_sublist_cons.mpr (singleton_sublist.mpr hc)).trans (sublist_append_right ..)

theorem FirstBest.not_of_sublist (h : FirstBest r l b) (honce : ¬[b, b].Sublist l) (hne : c ≠ b)
    (hsub : [c, b].Sublist l) : ¬r c b := by
  obtain ⟨l₁, l₂, rfl, hbefore, -⟩ := h
  by_cases hc : c ∈ l₁
  · exact hbefore c hc
  · exfalso
    obtain ⟨x, y, hxy, hx, hy⟩ := sublist_append_iff.mp hsub
    cases x with
    | nil =>
      rw [← (show [c, b] = y from hxy)] at hy
      have hb : b ∈ l₂ := by
        cases hy with
        | cons _ hy => exact hy.subset (by simp)
        | cons_cons _ hy => exact absurd rfl hne
      refine honce ((cons_sublist_cons.mpr ?_).trans (sublist_append_right l₁ (b :: l₂)))
      exact singleton_sublist.mpr hb
    | cons d x =>
      obtain ⟨rfl, -⟩ := List.cons.inj hxy
      exact hc (hx.subset mem_cons_self)

theorem firstBest_of_head? [DecidableRel r] (htotal : ∀ a b, r a b ∨ r b a)
    (htrans : ∀ a b c, r a b → r b c → r a c) (h : (l.insertionSort r).head? = some b) : FirstBest r l b := by
  induction l generalizing b with
  | nil => cases h
  | cons a l ih =>
    rw [insertionSort_cons] at h
    cases hsort : l.insertionSort r with
    | nil =>
      have hnil : l = [] := by
        have hperm := perm_insertionSort r l
        rw [hsort] at hperm
        exact hperm.symm.eq_nil
      rw [hsort] at h
      cases h
      exact ⟨[], l, rfl, by simp, by simp [hnil]⟩
    | cons d t =>
      have hd : FirstBest r l d := ih (by rw [hsort, head?_cons])
      rw [hsort] at h
      by_cases hr : r a d
      · rw [orderedInsert_cons_of_le r t hr] at h
        cases h
        exact ⟨[], l, rfl, by simp, fun c hc => htrans _ _ _ hr (hd.le htotal hc)⟩
      · rw [orderedInsert_of_not_le r t hr] at h
        cases h
        obtain ⟨l₁, l₂, rfl, hbefore, hafter⟩ := hd
        exact ⟨a :: l₁, l₂, rfl, forall_mem_cons.mpr ⟨hr, hbefore⟩, hafter⟩

theorem exists_head? [DecidableRel r] (h : l ≠ []) : ∃ b, (l.insertionSort r).head? = some b := by
  cases hsort : l.insertionSort r with
  | nil =>
    have hperm := perm_insertionSort r l
    rw [hsort] at hperm
    exact absurd hperm.symm.eq_nil h
  | cons b t => exact ⟨b, rfl⟩

end Jumpstarter.Lib
