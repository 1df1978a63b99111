import Mathlib.Data.Fintype.Card

/-!
# Counting the threads at a place

A reference count is right when it is the number of threads at some places of their code. `count p
f` is the number of the threads `t` with `p (f t)`, for any finite number of threads.
`count_update` is how the count changes when one thread moves.
-/

namespace Jumpstarter.Lib

variable {ι β : Type} [Fintype ι]

/-- The number of threads `t` with `p (f t)`. -/
def count (p : β → Bool) (f : ι → β) : Nat := (Finset.univ.filter fun t => p (f t) = true).card

def one (b : Bool) : Nat := if b then 1 else 0

@[simp] theorem one_true : one true = 1 := rfl
@[simp] theorem one_false : one false = 0 := rfl

theorem count_pos_of {p : β → Bool} {f : ι → β} {t : ι} (h : p (f t) = true) : 0 < count p f :=
  Finset.card_pos.mpr ⟨t, by simp [h]⟩

theorem count_eq_zero {p : β → Bool} {f : ι → β} : count p f = 0 ↔ ∀ t, p (f t) = false := by
  simp [count, Finset.card_eq_zero, Finset.filter_eq_empty_iff]

/-- **How a count changes when thread `t` moves from `f t` to `c`.** -/
theorem count_update [DecidableEq ι] (p : β → Bool) (f : ι → β) (t : ι) (c : β) :
    count p (Function.update f t c) + one (p (f t)) = count p f + one (p c) := by
  have hrest : ((Finset.univ.erase t).filter fun u => p (Function.update f t c u) = true) =
      (Finset.univ.erase t).filter fun u => p (f u) = true := by
    refine Finset.filter_congr fun u hu => ?_
    rw [Function.update_of_ne (Finset.ne_of_mem_erase hu)]
  have hsplit : ∀ g : ι → β, count p g =
      ((Finset.univ.erase t).filter fun u => p (g u) = true).card + one (p (g t)) := by
    intro g
    have hu : (Finset.univ : Finset ι) = insert t (Finset.univ.erase t) :=
      (Finset.insert_erase (Finset.mem_univ t)).symm
    unfold count
    conv => lhs; rw [hu, Finset.filter_insert]
    split
    · rename_i h
      rw [Finset.card_insert_of_notMem (by simp), h, one_true]
    · rename_i h
      simp only [Bool.not_eq_true] at h
      rw [h, one_false, Nat.add_zero]
  rw [hsplit (Function.update f t c), hsplit f, hrest, Function.update_self]
  omega

end Jumpstarter.Lib
