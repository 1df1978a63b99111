import Mathlib.Data.Finset.Basic

/-!
# Undoing what a journal lists

A journal lists what was added to a set, so that it can be taken out again. `Journal start now added`
is the invariant that makes this right: nothing in the journal was there at the start, and the set is
what was there at the start together with some of the journal. It is kept by an addition that is
recorded (`add`), by a removal of a recorded element (`remove`) and by a new journal that explains the
set (`rewrite`). When no recorded element is left, the set is the one of the start (`undone`).
-/

namespace Jumpstarter.Lib

variable {α : Type}

/-- `now` is `start` with some of `added`, of which nothing was in `start`. -/
structure Journal (start now : Finset α) (added : Set α) : Prop where
  fresh : ∀ a ∈ added, a ∉ start
  kept : start ⊆ now
  explained : ∀ a ∈ now, a ∈ start ∨ a ∈ added

namespace Journal

variable {start now : Finset α} {added : Set α}

theorem empty (start : Finset α) : Journal start start ∅ :=
  ⟨fun _ h => h.elim, subset_rfl, fun _ h => .inl h⟩

section

variable (h : Journal start now added)
include h

theorem rewrite {added' : Set α} (hfresh : ∀ a ∈ added', a ∉ start)
    (hold : ∀ a ∈ added, a ∈ now → a ∈ added') : Journal start now added' := by
  refine ⟨hfresh, h.kept, fun a ha => ?_⟩
  rcases h.explained a ha with hs | hadded
  · exact .inl hs
  · exact .inr (hold a hadded ha)

theorem add [DecidableEq α] {a : α} (ha : a ∈ added) : Journal start (insert a now) added := by
  refine ⟨h.fresh, h.kept.trans (Finset.subset_insert a now), fun b hb => ?_⟩
  rcases Finset.mem_insert.mp hb with rfl | hb
  · exact .inr ha
  · exact h.explained b hb

theorem remove [DecidableEq α] {a : α} (ha : a ∈ added) : Journal start (now.erase a) added := by
  refine ⟨h.fresh, fun b hb => ?_, fun b hb => h.explained b (Finset.mem_of_mem_erase hb)⟩
  refine Finset.mem_erase.mpr ⟨?_, h.kept hb⟩
  rintro rfl
  exact h.fresh b ha hb

theorem undone (hout : ∀ a ∈ added, a ∉ now) : now = start := by
  refine Finset.Subset.antisymm (fun a ha => ?_) h.kept
  rcases h.explained a ha with hs | hadded
  · exact hs
  · exact absurd ha (hout a hadded)

end

end Journal
end Jumpstarter.Lib
