import Mathlib.Data.List.Nodup

/-!
# Stores of objects with distinct keys

The objects of one kind in a database, each with a key that it carries (`key`). A `Store` is a list of
objects with its own proof that no two have the same key, so two objects of a store with one key
are one object (`Store.eq_of_key`).

`create` adds an object under a new key; `put` replaces the object that has the key of the new one.
What a proof needs of them is the members of the result (`mem_create`, `mem_put`).
-/

namespace Jumpstarter.Lib

open List

variable {α κ : Type} {key : α → κ}

structure Store (key : α → κ) where
  items : List α
  nodup : (items.map key).Nodup

namespace Store

def empty : Store key := ⟨[], List.nodup_nil⟩

instance : Membership α (Store key) := ⟨fun s a => a ∈ s.items⟩

theorem mem_empty (a : α) : a ∉ (empty : Store key) := not_mem_nil

variable {a b : α}

theorem eq_of_key (s : Store key) (ha : a ∈ s) (hb : b ∈ s) (h : key a = key b) : a = b :=
  inj_on_of_nodup_map s.nodup ha hb h

variable [DecidableEq κ]

/-- The object with key `k`. -/
def get (s : Store key) (k : κ) : Option α := s.items.find? fun a => key a = k

/-- `s` with `a`, if no object has its key. -/
def create (s : Store key) (a : α) : Option (Store key) :=
  if h : key a ∈ s.items.map key then none
  else some ⟨a :: s.items, List.nodup_cons.mpr ⟨h, s.nodup⟩⟩

/-- The objects of `l` with that of the key of `a` replaced by `a`. -/
def replace (key : α → κ) (a : α) (l : List α) : List α :=
  l.map fun b => if key b = key a then a else b

theorem map_replace (a : α) (l : List α) : (replace key a l).map key = l.map key := by
  unfold replace
  rw [map_map]
  refine map_congr_left fun b _ => ?_
  simp only [Function.comp]
  split
  · exact Eq.symm ‹_›
  · rfl

/-- `s` with `a` in the place of the object that has its key. -/
def put (s : Store key) (a : α) : Store key :=
  ⟨replace key a s.items, by rw [map_replace]; exact s.nodup⟩

variable {s : Store key}

theorem get_some {k : κ} (h : s.get k = some a) : a ∈ s ∧ key a = k := by
  refine ⟨mem_of_find?_eq_some h, ?_⟩
  have := find?_some h
  simpa using this

theorem get_of_mem (h : a ∈ s) : s.get (key a) = some a := by
  cases hg : s.get (key a) with
  | none =>
    have := find?_eq_none.mp hg a h
    simp at this
  | some b =>
    obtain ⟨hb, hk⟩ := get_some hg
    rw [s.eq_of_key hb h hk]

theorem mem_create {s' : Store key} (h : s.create a = some s') : b ∈ s' ↔ b = a ∨ b ∈ s := by
  unfold create at h
  split at h
  · cases h
  · cases h
    exact mem_cons

theorem mem_put (h : b ∈ s.put a) : b = a ∨ (b ∈ s ∧ key b ≠ key a) := by
  obtain ⟨c, hc, rfl⟩ := mem_map.mp h
  by_cases he : key c = key a
  · exact .inl (if_pos he)
  · refine .inr ?_
    rw [if_neg he]
    exact ⟨hc, he⟩

theorem mem_put_of_ne (hb : b ∈ s) (h : key b ≠ key a) : b ∈ s.put a :=
  mem_map.mpr ⟨b, hb, if_neg h⟩

theorem mem_put_self {c : α} (hc : c ∈ s) (h : key c = key a) : a ∈ s.put a :=
  mem_map.mpr ⟨c, hc, if_pos h⟩

end Store
end Jumpstarter.Lib
