import Mathlib.Data.Nat.ModEq

/-!
# Stop-and-wait over a network that loses, copies and reorders

A sender is at block `n` and a receiver has accepted the blocks up to `r`. Packets carry the number of their
block modulo `M`. If no packet comes `M` blocks late, a number says as much as the block itself: the
receiver accepts the next block only (`Link.accept`), and the sender takes an acknowledgement for its block
only when the receiver has it (`Link.acknowledged`).
-/

namespace Jumpstarter.Lib

variable {M n r i : Nat} {sent acked : List Nat}

theorem eq_of_number_eq {m : Nat} (hle : i ≤ m) (hlt : m < i + M) (h : i % M = m % M) : i = m := by
  have hdvd : M ∣ m - i := (Nat.modEq_iff_dvd' hle).mp h
  have hzero := Nat.eq_zero_of_dvd_of_lt hdvd (by omega)
  omega

/-- The two parties, the blocks of all packets that were sent and of all acknowledgements. -/
structure Link (n r : Nat) (sent acked : List Nat) : Prop where
  behind : n ≤ r + 1
  ahead : r ≤ n
  sent : ∀ i ∈ sent, i ≤ n
  acked : ∀ i ∈ acked, i ≤ r

namespace Link

section

variable (h : Link n r sent acked)
include h

theorem send (hi : i ≤ n) : Link n r (sent ++ [i]) acked := by
  refine { h with sent := fun j hj => ?_ }
  rcases List.mem_append.mp hj with hj | hj
  · exact h.sent j hj
  · rw [List.mem_singleton.mp hj]
    exact hi

theorem acknowledge (hi : i ≤ r) : Link n r sent (acked ++ [i]) := by
  refine { h with acked := fun j hj => ?_ }
  rcases List.mem_append.mp hj with hj | hj
  · exact h.acked j hj
  · rw [List.mem_singleton.mp hj]
    exact hi

theorem accept (hi : i ∈ sent) (hlate : r + 1 < i + M)
    (hnum : i % M = (r + 1) % M) : i = r + 1 ∧ Link n (r + 1) sent acked := by
  have hle := h.sent i hi
  obtain rfl := eq_of_number_eq (hle.trans h.behind) hlate hnum
  exact ⟨rfl, h.behind.trans (Nat.le_succ _), hle, h.sent, fun j hj => (h.acked j hj).trans (Nat.le_succ _)⟩

theorem duplicate (hi : i ∈ sent) (hnum : i % M ≠ (r + 1) % M) : i ≤ r := by
  have hle := (h.sent i hi).trans h.behind
  have hne : i ≠ r + 1 := fun he => hnum (by rw [he])
  omega

theorem acknowledged (hi : i ∈ acked) (hlate : n < i + M) (hnum : i % M = n % M) : n ≤ r := by
  have hle := h.acked i hi
  obtain rfl := eq_of_number_eq (hle.trans h.ahead) hlate hnum
  exact hle

theorem advance (hr : n ≤ r) : Link (n + 1) r sent acked :=
  ⟨Nat.succ_le_succ hr, h.ahead.trans (Nat.le_succ _), fun i hi => (h.sent i hi).trans (Nat.le_succ _), h.acked⟩

end

end Link

end Jumpstarter.Lib
