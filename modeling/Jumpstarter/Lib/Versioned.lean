import Jumpstarter.Lib.Store

/-!
# Stores with optimistic concurrency

Every object of a `VStore` carries a version, a number that the store renews with every change, so
no version is used twice for one key. A writer that holds a copy of an object may write only while the
object still has the version of the copy (`VStore.current`).

- `VStore.put`: a write. One that changes nothing keeps the version.
- `IsCopy s a`: `a` is a copy of an object at some moment of the past of `s`; every write and
  creation keeps it.
- `IsCopy.current`: an object with the version of the copy is the copy.
-/

namespace Jumpstarter.Lib

structure Versioning (α κ : Type) where
  key : α → κ
  version : α → Nat
  stamp : Nat → α → α
  key_stamp : ∀ n a, key (stamp n a) = key a
  version_stamp : ∀ n a, version (stamp n a) = n
  stamp_version : ∀ a, stamp (version a) a = a

variable {α κ : Type} {V : Versioning α κ}

/-- Objects with distinct keys and versions up to `revision`. -/
structure VStore (V : Versioning α κ) where
  objects : Store V.key
  revision : Nat
  le_revision : ∀ a ∈ objects, V.version a ≤ revision

variable {a b : α} {s' : VStore V}

namespace VStore

instance : Membership α (VStore V) := ⟨fun s a => a ∈ s.objects⟩

def empty : VStore V := ⟨.empty, 0, fun a ha => absurd ha (Store.mem_empty a)⟩

theorem mem_empty (a : α) : a ∉ (empty : VStore V) := Store.mem_empty a

theorem eq_of_key (s : VStore V) (ha : a ∈ s) (hb : b ∈ s) (h : V.key a = V.key b) : a = b :=
  s.objects.eq_of_key ha hb h

section Next

variable [DecidableEq α]

/-- What a write of `a` stores: `a` with a new version, unless that is what the store holds. -/
def next (s : VStore V) (a : α) : α :=
  if a ∈ s.objects.items then a else V.stamp (s.revision + 1) a

theorem next_stamp (s : VStore V) (a : α) : ∃ n, s.next a = V.stamp n a := by
  unfold next
  split
  · exact ⟨V.version a, (V.stamp_version a).symm⟩
  · exact ⟨_, rfl⟩

theorem key_next (s : VStore V) (a : α) : V.key (s.next a) = V.key a := by
  obtain ⟨n, hn⟩ := s.next_stamp a
  rw [hn, V.key_stamp]

theorem version_next_le (s : VStore V) (a : α) : V.version (s.next a) ≤ s.revision + 1 := by
  unfold next
  split
  · rename_i h
    exact Nat.le_succ_of_le (s.le_revision a h)
  · exact Nat.le_of_eq (V.version_stamp _ _)

end Next

variable [DecidableEq κ]

/-- The object with key `k`. -/
def get (s : VStore V) (k : κ) : Option α := s.objects.get k

variable {s : VStore V}

theorem get_some {k : κ} (h : s.get k = some a) : a ∈ s ∧ V.key a = k :=
  Store.get_some h

theorem get_of_mem (h : a ∈ s) : s.get (V.key a) = some a :=
  Store.get_of_mem h

/-- The object that has the key and the version of the copy `a`. -/
def current (s : VStore V) (a : α) : Option α :=
  (s.get (V.key a)).filter fun c => V.version c = V.version a

/-- `s` with the new object `a`, if no object has its key. -/
def create (s : VStore V) (a : α) : Option (VStore V) :=
  match h : s.objects.create (V.stamp (s.revision + 1) a) with
  | none => none
  | some objects => some
    { objects
      revision := s.revision + 1
      le_revision := fun b hb => by
        rcases (Store.mem_create h).mp hb with rfl | hb
        · exact Nat.le_of_eq (V.version_stamp _ _)
        · exact Nat.le_succ_of_le (s.le_revision b hb) }

theorem mem_create (h : s.create a = some s') : b ∈ s' ↔ b = V.stamp (s.revision + 1) a ∨ b ∈ s := by
  unfold create at h
  split at h
  · cases h
  · rename_i objects hc
    cases h
    exact Store.mem_create hc

theorem create_revision (h : s.create a = some s') : s'.revision = s.revision + 1 := by
  unfold create at h
  split at h
  · cases h
  · cases h
    rfl

variable [DecidableEq α]

/-- `s` with `a` in the place of the object that has its key. -/
def put (s : VStore V) (a : α) : VStore V where
  objects := s.objects.put (s.next a)
  revision := s.revision + 1
  le_revision b hb := by
    rcases Store.mem_put hb with rfl | ⟨hb, -⟩
    · exact s.version_next_le a
    · exact Nat.le_succ_of_le (s.le_revision b hb)

theorem mem_put (h : b ∈ s.put a) : b = s.next a ∨ (b ∈ s ∧ V.key b ≠ V.key a) := by
  rcases Store.mem_put h with h | ⟨hb, hne⟩
  · exact .inl h
  · rw [s.key_next] at hne
    exact .inr ⟨hb, hne⟩

theorem mem_put_of_ne (hb : b ∈ s) (h : V.key b ≠ V.key a) : b ∈ s.put a :=
  Store.mem_put_of_ne hb (by rwa [s.key_next])

theorem next_mem_put {c : α} (hc : c ∈ s) (h : V.key c = V.key a) : s.next a ∈ s.put a :=
  Store.mem_put_self hc (by rw [s.key_next, h])

end VStore

/-- `a` is a copy of an object of `s`, now or at some moment before. -/
structure IsCopy (s : VStore V) (a : α) : Prop where
  old : V.version a ≤ s.revision
  same : ∀ c ∈ s, V.key c = V.key a → V.version c = V.version a → c = a

namespace IsCopy

variable {s : VStore V}

theorem of_mem (h : a ∈ s) : IsCopy s a :=
  ⟨s.le_revision a h, fun _ hc hk _ => s.eq_of_key hc h hk⟩

variable [DecidableEq κ]

theorem current {c : α} (h : IsCopy s a) (hc : s.current a = some c) : c = a ∧ c ∈ s := by
  obtain ⟨hget, hv⟩ := Option.filter_eq_some_iff.mp hc
  obtain ⟨hmem, hk⟩ := VStore.get_some hget
  exact ⟨h.same c hmem hk (of_decide_eq_true hv), hmem⟩

theorem create (h : IsCopy s a) (hs : s.create b = some s') : IsCopy s' a := by
  have hrev := VStore.create_revision hs
  refine ⟨by have := h.old; omega, fun c hc hk hv => ?_⟩
  rcases (VStore.mem_create hs).mp hc with rfl | hc
  · -- The version of the new object is higher than every old one.
    rw [V.version_stamp] at hv
    have := h.old
    omega
  · exact h.same c hc hk hv

theorem put [DecidableEq α] (h : IsCopy s a) (b : α) : IsCopy (s.put b) a := by
  refine ⟨Nat.le_succ_of_le h.old, fun c hc hk hv => ?_⟩
  rcases VStore.mem_put hc with rfl | ⟨hc, -⟩
  · unfold VStore.next at hk hv ⊢
    split
    · rename_i hb
      rw [if_pos hb] at hk hv
      exact h.same b hb hk hv
    · rename_i hb
      rw [if_neg hb, V.version_stamp] at hv
      have := h.old
      omega
  · exact h.same c hc hk hv

end IsCopy
end Jumpstarter.Lib
