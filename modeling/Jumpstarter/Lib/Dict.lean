import Mathlib.Data.List.Nodup

/-!
# Dicts in insertion order

A dict is a list of entries with distinct keys, in the order in which the keys were first set.
`Dict.set d key a` is `d[key] = a`; `Dict.ofList l` is `{k: v for k, v in l}`, in which a later entry
replaces the value of an earlier one with its key. `ofList` keeps the list as it is exactly if its
keys are distinct: `ofList_of_nodup`, and `nodup_of_length_ofList` for the converse.
-/

namespace Jumpstarter.Lib.Dict

open List

variable {α : Type}

def keys (d : List (String × α)) : List String := d.map Prod.fst

/-- `d[key]`. -/
def get (d : List (String × α)) (key : String) : Option α :=
  (d.find? fun p => p.1 == key).map Prod.snd

/-- `d[key] = a`. -/
def set (d : List (String × α)) (key : String) (a : α) : List (String × α) :=
  if key ∈ keys d then d.map fun p => if p.1 = key then (key, a) else p else d ++ [(key, a)]

/-- `{k: v for k, v in l}`. -/
def ofList (l : List (String × α)) : List (String × α) :=
  l.foldl (fun d p => set d p.1 p.2) []

variable {d : List (String × α)} {key : String}

theorem mem_of_get {a : α} (h : get d key = some a) : (key, a) ∈ d := by
  obtain ⟨p, hp, rfl⟩ := Option.map_eq_some_iff.mp h
  have hkey : p.1 = key := by simpa using find?_some hp
  rw [← hkey]
  exact mem_of_find?_eq_some hp

theorem set_of_not_mem (h : key ∉ keys d) (a : α) : set d key a = d ++ [(key, a)] :=
  if_neg h

theorem mem_keys_set {key' : String} {a : α} : key' ∈ keys (set d key a) ↔ key' = key ∨ key' ∈ keys d := by
  unfold set
  split
  · rename_i hmem
    have hkeys : keys (d.map fun p => if p.1 = key then (key, a) else p) = keys d := by
      rw [keys, map_map]
      refine map_congr_left fun p _ => ?_
      by_cases hp : p.1 = key <;> simp [hp]
    rw [hkeys]
    exact ⟨.inr, fun h => h.elim (· ▸ hmem) id⟩
  · simp [keys, or_comm]

theorem get_eq_none (h : key ∉ keys d) : get d key = none := by
  unfold get
  rw [Option.map_eq_none_iff, find?_eq_none]
  intro p hp he
  exact h (mem_map.mpr ⟨p, hp, by simpa using he⟩)

theorem get_set (d : List (String × α)) (key key' : String) (a : α) :
    get (set d key a) key' = if key = key' then some a else get d key' := by
  by_cases hmem : key ∈ keys d
  · have hfind : ((fun p : String × α => p.1 == key') ∘ fun p => if p.1 = key then (key, a) else p) =
        fun p => p.1 == key' := by
      funext p
      by_cases hp : p.1 = key <;> simp [hp]
    simp only [get, set, hmem, if_true, find?_map, hfind]
    cases hq : d.find? (fun p => p.1 == key') with
    | none =>
      have hne : key ≠ key' := by
        rintro rfl
        obtain ⟨p, hp, hpk⟩ := mem_map.mp hmem
        exact find?_eq_none.mp hq p hp (by simpa using hpk)
      simp [hne]
    | some q =>
      have hqk : q.1 = key' := by simpa using find?_some hq
      by_cases hk : key = key'
      · simp [hk, hqk]
      · have hne : key' ≠ key := fun h => hk h.symm
        simp [hk, hqk, hne]
  · rw [set_of_not_mem hmem]
    by_cases hk : key = key'
    · subst hk
      have hnone := get_eq_none hmem
      unfold get at hnone ⊢
      rw [find?_append, Option.map_eq_none_iff.mp hnone]
      simp
    · simp [get, find?_append, hk]

theorem length_set (d : List (String × α)) (key : String) (a : α) :
    (set d key a).length = if key ∈ keys d then d.length else d.length + 1 := by
  unfold set
  split <;> simp

theorem length_foldl_set_le (l d : List (String × α)) :
    (l.foldl (fun d p => set d p.1 p.2) d).length ≤ d.length + l.length := by
  induction l generalizing d with
  | nil => exact Nat.le_refl _
  | cons p l ih =>
    have hset : (set d p.1 p.2).length ≤ d.length + 1 := by
      rw [length_set]
      split <;> omega
    have hfold := ih (set d p.1 p.2)
    simp only [foldl_cons, length_cons]
    omega

variable {l : List (String × α)}

theorem foldl_set_of_nodup (hl : (keys l).Nodup) (hd : ∀ key ∈ keys l, key ∉ keys d) :
    l.foldl (fun d p => set d p.1 p.2) d = d ++ l := by
  induction l generalizing d with
  | nil => exact (append_nil d).symm
  | cons p l ih =>
    obtain ⟨hp, hl⟩ := nodup_cons.mp hl
    rw [foldl_cons, set_of_not_mem (hd p.1 mem_cons_self), ih hl, append_assoc]
    · rfl
    · intro key hkey hmem
      simp only [keys, map_append, map_cons, map_nil, mem_append, mem_singleton] at hmem
      rcases hmem with hmem | rfl
      · exact hd key (mem_cons_of_mem _ hkey) hmem
      · exact hp hkey

theorem ofList_of_nodup (hl : (keys l).Nodup) : ofList l = l :=
  foldl_set_of_nodup hl fun _ _ => not_mem_nil

theorem nodup_of_length_foldl (h : (l.foldl (fun d p => set d p.1 p.2) d).length = d.length + l.length) :
    (keys l).Nodup ∧ ∀ key ∈ keys l, key ∉ keys d := by
  induction l generalizing d with
  | nil => exact ⟨nodup_nil, by simp [keys]⟩
  | cons p l ih =>
    simp only [foldl_cons, length_cons] at h
    have hle := length_foldl_set_le l (set d p.1 p.2)
    have hnew : p.1 ∉ keys d := by
      intro hmem
      rw [length_set, if_pos hmem] at hle
      omega
    have hset : (set d p.1 p.2).length = d.length + 1 := by rw [length_set, if_neg hnew]
    obtain ⟨hl, hd⟩ := ih (d := set d p.1 p.2) (by omega)
    refine ⟨nodup_cons.mpr ⟨fun hmem => hd _ hmem (mem_keys_set.mpr (.inl rfl)), hl⟩, ?_⟩
    intro key hkey hmem
    rcases mem_cons.mp hkey with rfl | hkey
    · exact hnew hmem
    · exact hd key hkey (mem_keys_set.mpr (.inr hmem))

theorem nodup_of_length_ofList (h : (ofList l).length = l.length) : (keys l).Nodup :=
  (nodup_of_length_foldl (d := []) (h.trans (Nat.zero_add _).symm)).1

end Jumpstarter.Lib.Dict
