import Mathlib.Data.List.Basic
import Mathlib.Data.List.Infix

/-!
# Replacing a word in a text

`replaceAll pat fill text` puts `fill` for each occurrence of the word `pat`, from the left and without
overlaps, as `str.replace` and `strings.ReplaceAll` do for a word that is not empty.

* `replaceAll_singleton`: a word of one character.
* `kept_of_replaceAll`: a part of the result without a character of `fill` is a part of the text, and `pat`
  does not occur in it.
-/

namespace Jumpstarter.Lib

open List

variable {α : Type} [DecidableEq α] {pat fill text l : List α} {a : α}

/-- The loop of `replaceAll`: `n` characters of an occurrence are still to be dropped. -/
def replaceFrom (pat fill : List α) : Nat → List α → List α
  | _, [] => []
  | n + 1, _ :: l => replaceFrom pat fill n l
  | 0, a :: l =>
    if pat <+: a :: l then fill ++ replaceFrom pat fill (pat.length - 1) l
    else a :: replaceFrom pat fill 0 l

/-- The text with `fill` for `pat` (module doc). -/
def replaceAll (pat fill text : List α) : List α := replaceFrom pat fill 0 text

@[simp] theorem replaceAll_nil (pat fill : List α) : replaceAll pat fill [] = [] := rfl

theorem replaceFrom_eq_drop (pat fill : List α) (n : Nat) (l : List α) :
    replaceFrom pat fill n l = replaceAll pat fill (l.drop n) := by
  induction l generalizing n with
  | nil => cases n <;> rfl
  | cons a l ih =>
    cases n with
    | zero => rfl
    | succ n => exact ih n

theorem replaceAll_cons_of_not (h : ¬pat <+: a :: l) :
    replaceAll pat fill (a :: l) = a :: replaceAll pat fill l :=
  if_neg h

theorem replaceAll_append (hne : pat ≠ []) (l : List α) :
    replaceAll pat fill (pat ++ l) = fill ++ replaceAll pat fill l := by
  cases pat with
  | nil => exact absurd rfl hne
  | cons p pat =>
    have hstart : replaceAll (p :: pat) fill (p :: (pat ++ l)) =
        fill ++ replaceFrom (p :: pat) fill pat.length (pat ++ l) :=
      if_pos (prefix_append (p :: pat) l)
    rw [cons_append, hstart, replaceFrom_eq_drop, drop_left]

theorem replaceAll_cons_of_ne {p : α} (h : a ≠ p) :
    replaceAll (p :: pat) fill (a :: l) = a :: replaceAll (p :: pat) fill l :=
  replaceAll_cons_of_not fun hp => h (cons_prefix_cons.mp hp).1.symm

theorem replaceAll_of_not_mem {p : α} (h : p ∉ text) : replaceAll (p :: pat) fill text = text := by
  induction text with
  | nil => rfl
  | cons a l ih =>
    rw [mem_cons, not_or] at h
    rw [replaceAll_cons_of_ne (Ne.symm h.1), ih h.2]

theorem replaceAll_of_not_infix (h : ¬pat <:+: text) : replaceAll pat fill text = text := by
  induction text with
  | nil => rfl
  | cons a l ih =>
    rw [infix_cons_iff, not_or] at h
    rw [replaceAll_cons_of_not h.1, ih h.2]

theorem replaceAll_singleton (p : α) (fill text : List α) :
    replaceAll [p] fill text = text.flatMap fun a => if a = p then fill else [a] := by
  induction text with
  | nil => rfl
  | cons a l ih =>
    rw [flatMap_cons, ← ih]
    by_cases h : a = p
    · subst h
      rw [if_pos rfl]
      exact replaceAll_append (cons_ne_nil a []) l
    · rw [if_neg h, replaceAll_cons_of_ne h]
      rfl

theorem replaceAll_induction (hne : pat ≠ []) {motive : List α → Prop} (nil : motive [])
    (hit : ∀ l, motive l → motive (pat ++ l)) (miss : ∀ a l, ¬pat <+: a :: l → motive l → motive (a :: l))
    (text : List α) : motive text := by
  induction hlen : text.length using Nat.strongRecOn generalizing text with
  | _ n ih =>
    cases text with
    | nil => exact nil
    | cons a l =>
      by_cases h : pat <+: a :: l
      · obtain ⟨rest, hrest⟩ := h
        rw [← hrest] at hlen ⊢
        have hpos := length_pos_of_ne_nil hne
        rw [length_append] at hlen
        exact hit rest (ih rest.length (by omega) rest rfl)
      · exact miss a l h (ih l.length (by rw [← hlen]; simp) l rfl)

/-- A part `u` of the result that has no character of `fill` was kept: it is a part of the text, at its start
if it is at the start of the result, and `pat` does not occur in it. -/
theorem kept_of_replaceAll (hne : pat ≠ []) (hfill : fill ≠ []) {x u y : List α} (hu : ∀ a ∈ u, a ∉ fill)
    (h : replaceAll pat fill text = x ++ (u ++ y)) :
    (∃ x' y', text = x' ++ (u ++ y') ∧ (x = [] → x' = [])) ∧ ¬pat <:+: u := by
  induction text using replaceAll_induction hne generalizing x u y with
  | nil =>
    obtain ⟨-, hnil⟩ := append_eq_nil_iff.mp h.symm
    obtain ⟨rfl, -⟩ := append_eq_nil_iff.mp hnil
    exact ⟨⟨[], [], rfl, fun _ => rfl⟩, fun hin => hne (infix_nil.mp hin)⟩
  | hit l ih =>
    cases u with
    | nil => exact ⟨⟨[], pat ++ l, rfl, fun _ => rfl⟩, fun hin => hne (infix_nil.mp hin)⟩
    | cons c u =>
      rw [replaceAll_append hne] at h
      obtain ⟨x₂, rfl, hrest⟩ : ∃ x₂, x = fill ++ x₂ ∧ replaceAll pat fill l = x₂ ++ (c :: u ++ y) := by
        rcases append_eq_append_iff.mp h with h' | ⟨d, hd, hrest⟩
        · exact h'
        · cases d with
          | nil => exact ⟨[], by simpa using hd.symm, hrest.symm⟩
          | cons e d =>
            obtain ⟨rfl, -⟩ := List.cons.inj hrest
            exact absurd (by rw [hd]; simp) (hu c mem_cons_self)
      obtain ⟨⟨x', y', hl, -⟩, hin⟩ := ih hu hrest
      refine ⟨⟨pat ++ x', y', by rw [hl, append_assoc], fun hx => ?_⟩, hin⟩
      exact absurd (append_eq_nil_iff.mp hx).1 hfill
  | miss a l hmiss ih =>
    rw [replaceAll_cons_of_not hmiss] at h
    cases x with
    | nil =>
      cases u with
      | nil => exact ⟨⟨[], a :: l, rfl, fun _ => rfl⟩, fun hin => hne (infix_nil.mp hin)⟩
      | cons c u =>
        obtain ⟨rfl, hrest⟩ := List.cons.inj h
        obtain ⟨⟨x', y', hl, hx'⟩, hin⟩ := ih (x := []) (fun b hb => hu b (mem_cons_of_mem a hb)) hrest
        rw [hx' rfl, nil_append] at hl
        refine ⟨⟨[], y', by rw [hl]; rfl, fun _ => rfl⟩, fun hocc => ?_⟩
        rcases infix_cons_iff.mp hocc with hpre | hocc
        · refine hmiss (hpre.trans ?_)
          rw [hl]
          exact prefix_append (a :: u) y'
        · exact hin hocc
    | cons b x =>
      obtain ⟨rfl, hrest⟩ := List.cons.inj h
      obtain ⟨⟨x', y', hl, -⟩, hin⟩ := ih hu hrest
      exact ⟨⟨a :: x', y', by rw [hl]; rfl, fun hx => by cases hx⟩, hin⟩

end Jumpstarter.Lib
