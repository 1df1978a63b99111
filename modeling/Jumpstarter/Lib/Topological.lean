import Mathlib.Data.List.Range
import Mathlib.Data.List.Nodup

/-!
# Topological orders

A graph is a list that gives, for each node `i`, the nodes that come before it (its predecessors).
`Topological g order` says that `order` has each node once, after its predecessors.

`Sorter` is any function that sorts as `graphlib.TopologicalSorter(g).static_order()` is documented
to: it yields a topological order, and raises `CycleError` (`none`) only if there is none.
-/

namespace Jumpstarter.Lib

open List

/-- `order` has each node of `g` once, after its predecessors. -/
structure Topological (g : List (List Nat)) (order : List Nat) : Prop where
  nodup : order.Nodup
  mem : ∀ i, i ∈ order ↔ i < g.length
  before : ∀ pre i post ks, order = pre ++ i :: post → g[i]? = some ks → ∀ k ∈ ks, k ∈ pre

structure Sorter where
  staticOrder : List (List Nat) → Option (List Nat)
  sound : ∀ g order, staticOrder g = some order → Topological g order
  complete : ∀ g order, Topological g order → staticOrder g ≠ none

open Classical in
/-- Some topological order, if there is one. -/
noncomputable def Sorter.choice : Sorter where
  staticOrder g := if h : ∃ order, Topological g order then some h.choose else none
  sound g order h := by
    split at h
    · rename_i hex
      cases h
      exact hex.choose_spec
    · cases h
  complete g order h := by
    rw [dif_pos ⟨order, h⟩]
    exact Option.some_ne_none _

theorem topological_reverse_range {g : List (List Nat)}
    (h : ∀ (j : Nat) (ks : List Nat), g[j]? = some ks → ∀ k ∈ ks, j < k ∧ k < g.length) :
    Topological g (List.range g.length).reverse where
  nodup := nodup_reverse.mpr nodup_range
  mem i := by simp
  before pre i post ks horder hks k hk := by
    obtain ⟨hik, hkn⟩ := h i ks hks k hk
    have hmem : k ∈ pre ++ i :: post := by
      rw [← horder]
      simpa using hkn
    have hdown : (pre ++ i :: post).Pairwise fun a b => b < a := by
      rw [← horder, pairwise_reverse]
      exact pairwise_lt_range
    rcases mem_append.mp hmem with hpre | hrest
    · exact hpre
    · rcases mem_cons.mp hrest with rfl | hpost
      · omega
      · have hlt := rel_of_pairwise_cons (pairwise_append.mp hdown).2.1 hpost
        omega

theorem Topological.last {g : List (List Nat)} {order : List Nat} (h : Topological g order)
    {root : Nat} (hroot : root < g.length)
    (hpred : ∀ i, i < g.length → i ≠ root → ∃ (j : Nat) (ks : List Nat), g[j]? = some ks ∧ i ∈ ks) :
    ∃ init, order = init ++ [root] := by
  rcases eq_nil_or_concat order with hnil | ⟨init, last, hlast⟩
  · have hmem := (h.mem root).mpr hroot
    rw [hnil] at hmem
    cases hmem
  · rw [concat_eq_append] at hlast
    refine ⟨init, ?_⟩
    by_contra hne
    have hlastmem : last ∈ order := by simp [hlast]
    obtain ⟨j, ks, hks, hin⟩ := hpred last ((h.mem last).mp hlastmem) fun heq => hne (heq ▸ hlast)
    have hj : j ∈ order := by
      rw [h.mem]
      exact (List.getElem?_eq_some_iff.mp hks).1
    obtain ⟨pre, post, hsplit⟩ := append_of_mem hj
    -- `last` comes before `j`, so it occurs twice.
    have hpre := h.before pre j post ks hsplit hks last hin
    have hrest : last ∈ j :: post := by
      have hcons : (j :: post).getLast? = some last := by
        have hget : order.getLast? = some last := by simp [hlast]
        rw [hsplit, getLast?_append] at hget
        simpa using hget
      exact mem_of_getLast? hcons
    have hnodup := h.nodup
    rw [hsplit] at hnodup
    exact (nodup_append.mp hnodup).2.2 last hpre last hrest rfl

end Jumpstarter.Lib
