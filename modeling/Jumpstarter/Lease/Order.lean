import Jumpstarter.Lease.Spot
import Mathlib.Data.List.Pairwise

/-!
# The order of the candidates (`orderApprovedExporters`)

The candidates of a lease are meant to come in this order: unleased ones first, then those outside
spot access, then higher priorities, then names (`orderKey`). The comparison subtracts priorities, and a
difference of two 64-bit integers can overflow.

- `order_fails`: of two candidates whose priorities are more than `2 ^ 63` apart every sort puts the lower
  one first.
- `order_iff`: the result is a permutation sorted by the key (`OrdersByKey`), and the comparison orders the
  candidates and agrees with the key (`ComparesByKey`), exactly where two candidates of one class, with a
  lease or without and under spot access or not, have priorities less than `2 ^ 63` apart (`Close`).

Where the comparison does not order the candidates at all, `slices.SortFunc` promises nothing
(`SortFunc.exists_head`).
-/

namespace Jumpstarter.LeaseReconciler

open Lib

def Priorities64 (l : List ApprovedExporter) : Prop :=
  ∀ a ∈ l, -0x8000000000000000 ≤ a.policy.priority ∧ a.policy.priority < 0x8000000000000000

instance (l : List ApprovedExporter) : Decidable (Priorities64 l) :=
  inferInstanceAs (Decidable (∀ a ∈ l, _))

/-- The slice is in the order of the key. -/
def SortedByKey (l : List ApprovedExporter) : Prop := l.Pairwise fun a b => orderKey a ≤ orderKey b

/-- `orderApprovedExporters` returns a permutation that is sorted by the key, with every sort that does
what `slices.SortFunc` is documented to do. -/
def OrdersByKey (l : List ApprovedExporter) : Prop :=
  ∀ f : SortFunc, f.SortsMembers →
    (orderApprovedExporters f l).Perm l ∧ SortedByKey (orderApprovedExporters f l)

/-- The comparison is a strict weak order on the candidates and agrees with the key. -/
structure ComparesByKey (l : List ApprovedExporter) : Prop where
  strictWeak : IsStrictWeakOn compareApproved l
  agrees : ∀ a ∈ l, ∀ b ∈ l, compareApproved a b < 0 ↔ orderKey a < orderKey b

/-- Any two candidates of one class have priorities less than `2 ^ 63` apart. -/
def Close (l : List ApprovedExporter) : Prop :=
  ∀ a ∈ l, ∀ b ∈ l, SameClass a b → a.policy.priority - b.policy.priority < 0x8000000000000000

instance (a b : ApprovedExporter) : Decidable (SameClass a b) :=
  inferInstanceAs (Decidable (_ ∧ _))

instance (l : List ApprovedExporter) : Decidable (Close l) :=
  inferInstanceAs (Decidable (∀ a ∈ l, ∀ b ∈ l, SameClass a b → _))

/-! ## Candidates that are close -/

variable {l : List ApprovedExporter}

theorem Close.pairFits (h : Close l) : ∀ a ∈ l, ∀ b ∈ l, PairFits a b := by
  intro a ha b hb hsame
  have hba := h b hb a ha ⟨hsame.1.symm, hsame.2.symm⟩
  have hab := h a ha b hb hsame
  apply wrapInt64_of_fits <;> omega

theorem Close.comparesByKey (h : Close l) : ComparesByKey l := by
  have hagrees : ∀ a ∈ l, ∀ b ∈ l, compareApproved a b < 0 ↔ orderKey a < orderKey b :=
    fun a ha b hb => (h.pairFits a ha b hb).compareApproved_lt
  exact ⟨.of_key orderKey hagrees, hagrees⟩

theorem ComparesByKey.ordersByKey (h : ComparesByKey l) : OrdersByKey l := by
  intro f hf
  refine ⟨f.perm compareApproved l, ?_⟩
  have hsorted := hf compareApproved l h.strictWeak
  refine hsorted.imp_of_mem fun {a b} ha hb hnot => ?_
  rwa [h.agrees b (f.mem_sort.mp hb) a (f.mem_sort.mp ha), not_lt] at hnot

/-! ## Candidates that are not -/

theorem wrapInt64_neg {n : Int} (h : 0x8000000000000000 ≤ n) (h' : n < 0x10000000000000000) :
    wrapInt64 n < 0 := by
  unfold wrapInt64
  omega

variable {a b : ApprovedExporter}

theorem orderKey_lt_of_priority (hsame : SameClass a b) (h : b.policy.priority < a.policy.priority) :
    orderKey a < orderKey b := by
  have hdual : OrderDual.toDual a.policy.priority < OrderDual.toDual b.policy.priority := h
  unfold orderKey
  rw [hsame.1, hsame.2]
  simp only [Prod.Lex.toLex_lt_toLex]
  exact .inr ⟨trivial, .inr ⟨trivial, .inl hdual⟩⟩

theorem compareApproved_overflow (hsame : SameClass a b)
    (h : 0x8000000000000000 ≤ a.policy.priority - b.policy.priority)
    (h' : a.policy.priority - b.policy.priority < 0x10000000000000000) : compareApproved b a < 0 := by
  have hne : b.policy.priority ≠ a.policy.priority := by omega
  have hneg := wrapInt64_neg h h'
  obtain ⟨hleased, hspot⟩ := hsame
  unfold compareApproved
  revert hleased
  cases a.existingLease <;> cases b.existingLease <;> simp [hspot, hne, hneg]

theorem compareApproved_self (a : ApprovedExporter) : ¬ compareApproved a a < 0 := by
  have hfit : PairFits a a := fun _ => by simp [wrapInt64]
  rw [hfit.compareApproved_lt]
  exact lt_irrefl _

theorem pairwise_either {α : Type} {R : α → α → Prop} {l : List α} (h : l.Pairwise R)
    (hrefl : ∀ a ∈ l, R a a) {a b : α} (ha : a ∈ l) (hb : b ∈ l) : R a b ∨ R b a := by
  have hsymm : Std.Symm fun a b => R a b ∨ R b a := ⟨fun _ _ h => h.symm⟩
  have heither : l.Pairwise fun a b => R a b ∨ R b a := h.imp .inl
  exact heither.forall_of_forall (fun c hc => .inl (hrefl c hc)) ha hb

theorem not_sortedByKey {f : SortFunc} (hf : f.SortsMembers) (hw : IsStrictWeakOn compareApproved l)
    (ha : a ∈ l) (hb : b ∈ l) (hkey : orderKey a < orderKey b) (hcmp : compareApproved b a < 0) :
    ¬ SortedByKey (orderApprovedExporters f l) := by
  intro hsorted
  have hboth := hsorted.and (hf compareApproved l hw)
  have hrefl : ∀ c ∈ orderApprovedExporters f l, orderKey c ≤ orderKey c ∧ ¬ compareApproved c c < 0 :=
    fun c _ => ⟨le_rfl, compareApproved_self c⟩
  rcases pairwise_either hboth hrefl (f.mem_sort.mpr ha) (f.mem_sort.mpr hb) with h | h
  · exact h.2 hcmp
  · exact absurd hkey (not_lt.mpr h.1)

theorem OrdersByKey.close (h64 : Priorities64 l) (h : OrdersByKey l) : Close l := by
  intro a ha b hb hsame
  by_contra hfar
  have hfar : 0x8000000000000000 ≤ a.policy.priority - b.policy.priority := by omega
  have hlt : a.policy.priority - b.policy.priority < 0x10000000000000000 := by
    have := (h64 a ha).2
    have := (h64 b hb).1
    omega
  have hkey := orderKey_lt_of_priority hsame (by omega)
  have hcmp := compareApproved_overflow hsame hfar hlt
  by_cases hw : IsStrictWeakOn compareApproved l
  · have hf : SortFunc.insertion.SortsMembers := SortFunc.insertion_sortsMembers
    exact not_sortedByKey hf hw ha hb hkey hcmp (h .insertion hf).2
  · -- nothing orders the candidates, so `b` may come first
    obtain ⟨f, hf, rest, hsort⟩ := SortFunc.exists_head hw hb
    have hsorted : SortedByKey (f.sort compareApproved l) := (h f hf).2
    have hmem : a ∈ f.sort compareApproved l := f.mem_sort.mpr ha
    rw [hsort] at hsorted hmem
    rcases List.mem_cons.mp hmem with rfl | hmem
    · exact lt_irrefl _ hkey
    · exact absurd hkey (not_lt.mpr ((List.pairwise_cons.mp hsorted).1 a hmem))

/-- **The candidates are sorted by the key**, and the comparison agrees with it, if and only if no two
candidates of one class have priorities `2 ^ 63` or more apart. -/
theorem order_iff (h64 : Priorities64 l) :
    (OrdersByKey l ↔ Close l) ∧ (ComparesByKey l ↔ Close l) := by
  refine ⟨⟨fun h => h.close h64, fun h => h.comparesByKey.ordersByKey⟩, ?_, fun h => h.comparesByKey⟩
  exact fun h => h.ordersByKey.close h64

def ranked (name : String) (priority : Int) : ApprovedExporter :=
  { exporter := { ns := "lab", name }, policy := { priority } }

theorem order_fails : ∃ l, Priorities64 l ∧ ∀ f : SortFunc, f.SortsMembers →
    ¬ SortedByKey (orderApprovedExporters f l) := by
  let high := ranked "a" 0x7fffffffffffffff
  let low := ranked "b" (-2)
  refine ⟨[high, low], by decide, fun f hf => ?_⟩
  have hw : IsStrictWeakOn compareApproved [high, low] := ⟨by decide, by decide⟩
  have hkey : orderKey high < orderKey low := orderKey_lt_of_priority ⟨rfl, rfl⟩ (by decide)
  exact not_sortedByKey hf hw (a := high) (b := low) (by simp) (by simp) hkey (by decide)

theorem order_iff_close : Priorities64 [ranked "a" 5, ranked "b" 10] ∧
    OrdersByKey [ranked "a" 5, ranked "b" 10] := by
  have h64 : Priorities64 [ranked "a" 5, ranked "b" 10] := by decide
  exact ⟨h64, (order_iff h64).1.mpr (by decide)⟩

end Jumpstarter.LeaseReconciler
