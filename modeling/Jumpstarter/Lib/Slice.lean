import Mathlib.Data.List.Rotate
import Mathlib.Data.List.Sort

/-!
# Slices of Go that a function shares with its caller

`slices.DeleteFunc` and `slices.SortFunc` work in place. A caller that keeps the old slice after
`DeleteFunc` sees the kept elements followed by zero values (`clobbered`).

`slices.SortFunc` is not stable, and says nothing about the order for a comparison that is not a strict
weak order. `SortFunc` is any function that sorts as documented; `SortFunc.insertion` is one.
`SortFunc.SortsMembers` is the same for a comparison that orders the members of the slice only, and
`SortFunc.exists_head` says that nothing is promised for other slices.

A function that returns early with an error is a computation in `Except`: `bind_ok` takes one that
did not apart, `bind_error` one that did, and `foldlM_inv` is the invariant rule of a loop over a
slice. `foldlM_done` is that rule for an invariant that speaks of the elements already taken.
-/

namespace Jumpstarter.Lib

open List

variable {α : Type}

/-- The slice that `slices.DeleteFunc(l, del)` returns. -/
def deleteFunc (del : α → Bool) (l : List α) : List α := l.filter fun a => !del a

variable {l : List α} {a : α}

theorem mem_deleteFunc {del : α → Bool} : a ∈ deleteFunc del l ↔ a ∈ l ∧ del a = false := by
  simp [deleteFunc]

/-- The slice `l` after `slices.DeleteFunc(l, del)`. -/
def clobbered [Inhabited α] (del : α → Bool) (l : List α) : List α :=
  deleteFunc del l ++ List.replicate (l.length - (deleteFunc del l).length) default

/-- The comparison orders its arguments: `cmp a b < 0` is a strict weak order. -/
structure IsStrictWeak (cmp : α → α → Int) : Prop where
  asymm : ∀ a b, cmp a b < 0 → ¬ cmp b a < 0
  trans : ∀ a b c, ¬ cmp b a < 0 → ¬ cmp c b < 0 → ¬ cmp c a < 0

/-- A function that sorts as `slices.SortFunc` is documented to. -/
structure SortFunc where
  sort : {α : Type} → (α → α → Int) → List α → List α
  perm : ∀ {α : Type} (cmp : α → α → Int) (l : List α), (sort cmp l).Perm l
  sorted : ∀ {α : Type} (cmp : α → α → Int) (l : List α), IsStrictWeak cmp →
    (sort cmp l).Pairwise fun a b => ¬ cmp b a < 0

variable {cmp : α → α → Int}

theorem SortFunc.mem_sort (f : SortFunc) : a ∈ f.sort cmp l ↔ a ∈ l :=
  (f.perm cmp l).mem_iff

/-- Insertion sort, which `slices.SortFunc` uses for short slices. -/
def SortFunc.insertion : SortFunc where
  sort cmp l := l.insertionSort fun a b => ¬ cmp b a < 0
  perm cmp l := List.perm_insertionSort _ l
  sorted cmp l h := by
    have htotal : Std.Total (fun a b => ¬ cmp b a < 0) := ⟨fun a b => by
      by_cases hab : cmp b a < 0
      · exact .inr (h.asymm b a hab)
      · exact .inl hab⟩
    have htrans : IsTrans _ (fun a b => ¬ cmp b a < 0) := ⟨fun a b c => h.trans a b c⟩
    exact List.pairwise_insertionSort _ l

/-! The order of a slice whose members the comparison orders. -/

/-- The comparison orders the members of `l`. -/
structure IsStrictWeakOn (cmp : α → α → Int) (l : List α) : Prop where
  asymm : ∀ a ∈ l, ∀ b ∈ l, cmp a b < 0 → ¬ cmp b a < 0
  trans : ∀ a ∈ l, ∀ b ∈ l, ∀ c ∈ l, ¬ cmp b a < 0 → ¬ cmp c b < 0 → ¬ cmp c a < 0

variable {β : Type}

theorem IsStrictWeakOn.of_key [LinearOrder β] (key : α → β)
    (h : ∀ a ∈ l, ∀ b ∈ l, cmp a b < 0 ↔ key a < key b) : IsStrictWeakOn cmp l := by
  refine ⟨fun a ha b hb hab => ?_, fun a ha b hb c hc hba hcb => ?_⟩
  · rw [h b hb a ha, not_lt]
    exact le_of_lt ((h a ha b hb).mp hab)
  · rw [h b hb a ha, not_lt] at hba
    rw [h c hc b hb, not_lt] at hcb
    rw [h c hc a ha, not_lt]
    exact le_trans hba hcb

/-- `f` sorts every slice whose members the comparison orders: `slices.SortFunc` compares nothing
else. -/
def SortFunc.SortsMembers (f : SortFunc) : Prop :=
  ∀ {α : Type} (cmp : α → α → Int) (l : List α), IsStrictWeakOn cmp l →
    (f.sort cmp l).Pairwise fun a b => ¬ cmp b a < 0

theorem SortFunc.SortsMembers.head {f : SortFunc} (hf : f.SortsMembers) (hw : IsStrictWeakOn cmp l)
    {rest : List α} (h : f.sort cmp l = a :: rest) : ∀ b ∈ l, ¬ cmp b a < 0 := by
  intro b hb
  have hpair := hf cmp l hw
  rw [h] at hpair
  have hmem : b ∈ a :: rest := h ▸ f.mem_sort.mpr hb
  rcases mem_cons.mp hmem with rfl | hmem
  · exact fun hlt => hw.asymm b hb b hb hlt hlt
  · exact (pairwise_cons.mp hpair).1 b hmem

theorem IsStrictWeakOn.tail (hw : IsStrictWeakOn cmp (a :: l)) : IsStrictWeakOn cmp l := by
  have hm : ∀ b ∈ l, b ∈ a :: l := fun b hb => mem_cons_of_mem a hb
  exact ⟨fun b hb c hc => hw.asymm b (hm b hb) c (hm c hc),
    fun b hb c hc d hd => hw.trans b (hm b hb) c (hm c hc) d (hm d hd)⟩

theorem pairwise_orderedInsert {s : List α} (hw : IsStrictWeakOn cmp (a :: l)) (hs : ∀ b ∈ s, b ∈ l)
    (hp : s.Pairwise fun b c => ¬ cmp c b < 0) :
    (s.orderedInsert (fun b c => ¬ cmp c b < 0) a).Pairwise fun b c => ¬ cmp c b < 0 := by
  induction s with
  | nil => simp
  | cons b s ih =>
    obtain ⟨hb, hp⟩ := pairwise_cons.mp hp
    have hmem : ∀ c ∈ b :: s, c ∈ a :: l := fun c hc => mem_cons_of_mem a (hs c hc)
    by_cases hab : ¬ cmp b a < 0
    · rw [List.orderedInsert, if_pos hab]
      refine pairwise_cons.mpr ⟨fun c hc => ?_, pairwise_cons.mpr ⟨hb, hp⟩⟩
      rcases mem_cons.mp hc with rfl | hc
      · exact hab
      · exact hw.trans a mem_cons_self b (hmem b mem_cons_self) c (hmem c (mem_cons_of_mem b hc)) hab (hb c hc)
    · rw [List.orderedInsert, if_neg hab]
      refine pairwise_cons.mpr ⟨fun c hc => ?_, ih (fun c hc => hs c (mem_cons_of_mem b hc)) hp⟩
      rcases (mem_orderedInsert _).mp hc with rfl | hc
      · exact hw.asymm b (hmem b mem_cons_self) c mem_cons_self (not_not.mp hab)
      · exact hb c hc

theorem SortFunc.insertion_sortsMembers : SortFunc.insertion.SortsMembers := by
  intro α cmp l hw
  show (l.insertionSort fun a b => ¬ cmp b a < 0).Pairwise _
  induction l with
  | nil => exact List.Pairwise.nil
  | cons a l ih =>
    have hsub : ∀ b ∈ l.insertionSort (fun a b => ¬ cmp b a < 0), b ∈ l :=
      fun b hb => (mem_insertionSort _).mp hb
    exact pairwise_orderedInsert hw hsub (ih hw.tail)

open Classical in
/-- Insertion sort of a slice whose members the comparison orders; any other slice is turned by `n`. -/
noncomputable def SortFunc.turning (n : Nat) : SortFunc where
  sort cmp l := if IsStrictWeakOn cmp l then SortFunc.insertion.sort cmp l else l.rotate n
  perm cmp l := by
    split
    · exact SortFunc.insertion.perm cmp l
    · exact List.rotate_perm l n
  sorted cmp l h := by
    have hon : IsStrictWeakOn cmp l :=
      ⟨fun a _ b _ => h.asymm a b, fun a _ b _ c _ => h.trans a b c⟩
    rw [if_pos hon]
    exact SortFunc.insertion.sorted cmp l h

theorem SortFunc.exists_head (hw : ¬ IsStrictWeakOn cmp l) (ha : a ∈ l) :
    ∃ f : SortFunc, f.SortsMembers ∧ ∃ rest, f.sort cmp l = a :: rest := by
  obtain ⟨before, after, rfl⟩ := append_of_mem ha
  refine ⟨.turning before.length, ?_, after ++ before, ?_⟩
  · intro β cmp l h
    have hsort : (turning before.length).sort cmp l = insertion.sort cmp l := if_pos h
    rw [hsort]
    exact insertion_sortsMembers cmp l h
  · exact (if_neg hw).trans (rotate_append_length_eq before (a :: after))

variable {ε : Type} {x : Except ε α} {f : α → Except ε β} {r : β}

theorem bind_ok (h : x >>= f = .ok r) : ∃ a, x = .ok a ∧ f a = .ok r := by
  cases x with
  | error e => cases h
  | ok a => exact ⟨a, rfl, h⟩

theorem bind_ok_iff : x >>= f = .ok r ↔ ∃ a, x = .ok a ∧ f a = .ok r := by
  refine ⟨bind_ok, ?_⟩
  rintro ⟨a, rfl, h⟩
  exact h

theorem bind_error {err : ε} (h : x >>= f = .error err) :
    x = .error err ∨ ∃ a, x = .ok a ∧ f a = .error err := by
  cases x with
  | error e =>
    cases h
    exact .inl rfl
  | ok a => exact .inr ⟨a, rfl, h⟩

theorem ok_of_toOption (h : x.toOption = some a) : x = .ok a := by
  cases x with
  | error e => cases h
  | ok b =>
    cases h
    rfl

variable {b : β}

theorem foldlM_inv {P : β → Prop} {f : β → α → Except ε β}
    (hf : ∀ b a b', a ∈ l → P b → f b a = .ok b' → P b') (hb : P b) (h : l.foldlM f b = .ok r) : P r := by
  induction l generalizing b with
  | nil =>
    cases h
    exact hb
  | cons a l ih =>
    rw [foldlM_cons] at h
    cases hfa : f b a with
    | error e =>
      rw [hfa] at h
      cases h
    | ok b' =>
      rw [hfa] at h
      exact ih (fun b a b' ha => hf b a b' (mem_cons_of_mem _ ha)) (hf b a b' mem_cons_self hb hfa) h

theorem foldlM_error {f : β → α → Except ε β} {err : ε} (h : l.foldlM f b = .error err) :
    ∃ b a, f b a = .error err := by
  induction l generalizing b with
  | nil => cases h
  | cons a l ih =>
    rcases bind_error h with h | ⟨b', -, h⟩
    · exact ⟨b, a, h⟩
    · exact ih h

theorem mapM_ok {g : α → β} (h : ∀ a ∈ l, f a = .ok (g a)) : l.mapM f = .ok (l.map g) := by
  induction l with
  | nil => rfl
  | cons a l ih =>
    obtain ⟨ha, hl⟩ := forall_mem_cons.mp h
    rw [mapM_cons, ha, ih hl]
    rfl

/-- A loop keeps what each iteration keeps of the elements it has taken: `P` holds of all of them at
the end, and of those before the iteration that returned early. -/
theorem foldlM_done {P : List α → β → Prop} {f : β → α → Except ε β} {d : List α}
    (hf : ∀ done' a b b', done' ++ [a] <+: d ++ l → P done' b → f b a = .ok b' → P (done' ++ [a]) b')
    (hb : P d b) :
    (∀ r, l.foldlM f b = .ok r → P (d ++ l) r) ∧
    (∀ err, l.foldlM f b = .error err →
      ∃ done' a b', done' ++ [a] <+: d ++ l ∧ P done' b' ∧ f b' a = .error err) := by
  induction l generalizing d b with
  | nil =>
    refine ⟨fun r h => ?_, fun err h => nomatch h⟩
    cases h
    simpa using hb
  | cons a l ih =>
    have happ : d ++ a :: l = (d ++ [a]) ++ l := by simp
    have hpre : d ++ [a] <+: d ++ a :: l := ⟨l, happ.symm⟩
    cases hfa : f b a with
    | error e =>
      rw [foldlM_cons, hfa]
      refine ⟨fun r h => (nomatch h), fun err h => ?_⟩
      cases h
      exact ⟨d, a, b, hpre, hb, hfa⟩
    | ok b' =>
      rw [foldlM_cons, hfa, happ]
      exact ih (fun done' c b b' hp => hf done' c b b' (happ ▸ hp)) (hf d a b b' hpre hb hfa)

end Jumpstarter.Lib
