import Mathlib.Data.List.TakeWhile

/-!
# Texts as lists of characters

A scanner takes the longest run of characters of one kind (`takeWhile`, `dropWhile`). `Stops p l` says
that `l` does not go on with such a character, so that a run ends there.

* `strip`: `str.strip` for the characters `p`.
* `splitBy cut`: the pieces of a text between the characters that `cut` cuts out; `cut` sees the
  character and the rest of the text. `splitBy_append_sep` is for a character that is always
  cut out. `splitBy_join`: the pieces of a joined text are those it was
  joined of, if none of them is cut.
* `splitN sep n`: at most `n` pieces, cut at the first `n - 1` separators.
* `fitting w n`: the longest initial part of a text of weight at most `n`; one that is not all of the text
  has a weight close to `n` (`fitting_close`).
-/

namespace Jumpstarter.Lib.Text

open List

variable {α : Type} {p : α → Bool}

/-- The text is empty or starts with a character that is not of the kind `p`. -/
def Stops (p : α → Bool) (l : List α) : Prop := ∀ a ∈ l.head?, p a = false

@[simp] theorem stops_nil : Stops p [] := nofun

variable {l : List α}

@[simp] theorem stops_cons {a : α} : Stops p (a :: l) ↔ p a = false := by
  simp [Stops]

variable {w : List α}

theorem stops_append (hw : Stops p w) (hl : Stops p l) : Stops p (w ++ l) := by
  cases w with
  | nil => exact hl
  | cons a w => exact stops_cons.mpr (stops_cons.mp hw)

theorem stops_of_forall (h : ∀ a ∈ l, p a = false) : Stops p l :=
  fun a ha => h a (mem_of_mem_head? ha)

theorem stops_reverse_append (hne : w ≠ []) (hw : Stops p w.reverse) : Stops p (l ++ w).reverse := by
  rw [reverse_append]
  cases hr : w.reverse with
  | nil => exact absurd (reverse_eq_nil_iff.mp hr) hne
  | cons a r =>
    rw [hr] at hw
    exact stops_cons.mpr (stops_cons.mp hw)

theorem takeWhile_append_stops (hw : ∀ a ∈ w, p a = true) (hl : Stops p l) : (w ++ l).takeWhile p = w := by
  rw [takeWhile_append_of_pos hw]
  cases l with
  | nil => simp
  | cons a l => simp [stops_cons.mp hl]

theorem dropWhile_append_stops (hw : ∀ a ∈ w, p a = true) (hl : Stops p l) : (w ++ l).dropWhile p = l := by
  rw [dropWhile_append_of_pos hw]
  cases l with
  | nil => rfl
  | cons a l => simp [stops_cons.mp hl]

theorem takeWhile_of_stops (hl : Stops p l) : l.takeWhile p = [] :=
  takeWhile_append_stops (w := []) nofun hl

theorem dropWhile_of_stops (hl : Stops p l) : l.dropWhile p = l :=
  dropWhile_append_stops (w := []) nofun hl

/-! ## Stripping -/

/-- The text without the characters `p` at its ends. -/
def strip (p : α → Bool) (l : List α) : List α := ((l.dropWhile p).reverse.dropWhile p).reverse

theorem strip_of_stops (hfirst : Stops p l) (hlast : Stops p l.reverse) : strip p l = l := by
  rw [strip, dropWhile_of_stops hfirst, dropWhile_of_stops hlast, reverse_reverse]

theorem strip_append {before after : List α} (hb : ∀ a ∈ before, p a = true) (ha : ∀ a ∈ after, p a = true)
    (hne : l ≠ []) (hfirst : Stops p l) (hlast : Stops p l.reverse) :
    strip p (before ++ (l ++ after)) = l := by
  have hstart : Stops p (l ++ after) := by
    cases l with
    | nil => exact absurd rfl hne
    | cons a l => exact stops_cons.mpr (stops_cons.mp hfirst)
  rw [strip, dropWhile_append_stops hb hstart, reverse_append,
    dropWhile_append_stops (fun a h => ha a (mem_reverse.mp h)) hlast, reverse_reverse]

theorem strip_eq_nil_iff : strip p l = [] ↔ ∀ a ∈ l, p a = true := by
  rw [strip, reverse_eq_nil_iff, dropWhile_eq_nil_iff]
  constructor
  · intro h a ha
    rw [← takeWhile_append_dropWhile (p := p) (l := l)] at ha
    rcases mem_append.mp ha with ha | ha
    · exact mem_takeWhile_imp ha
    · exact h a (mem_reverse.mpr ha)
  · intro h a ha
    exact h a ((dropWhile_sublist p).subset (mem_reverse.mp ha))

/-! ## Splitting -/

/-- The pieces of a text; `cut a l` cuts the character `a` out before `l`. -/
@[simp] def splitBy (cut : α → List α → Bool) : List α → List (List α)
  | [] => [[]]
  | a :: l =>
    if cut a l then [] :: splitBy cut l
    else
      match splitBy cut l with
      | [] => [[a]]
      | piece :: pieces => (a :: piece) :: pieces

/-- No character of the text is cut out, whatever comes after it. -/
def Uncut (cut : α → List α → Bool) (l : List α) : Prop :=
  ∀ before a after, l = before ++ a :: after → ∀ rest, cut a (after ++ rest) = false

variable {cut : α → List α → Bool}

@[simp] theorem uncut_nil : Uncut cut [] := by
  intro before a after h
  simp at h

theorem uncut_cons {a : α} : Uncut cut (a :: l) ↔ (∀ rest, cut a (l ++ rest) = false) ∧ Uncut cut l := by
  constructor
  · intro h
    refine ⟨h [] a l rfl, fun before b after hl rest => ?_⟩
    exact h (a :: before) b after (by rw [hl]; rfl) rest
  · rintro ⟨ha, hl⟩ before b after hcons rest
    cases before with
    | nil =>
      cases hcons
      exact ha rest
    | cons c before =>
      obtain ⟨-, htail⟩ := cons_eq_cons.mp hcons
      exact hl before b after htail rest

theorem uncut_append (hw : ∀ a ∈ w, ∀ rest, cut a rest = false) (hl : Uncut cut l) : Uncut cut (w ++ l) := by
  induction w with
  | nil => exact hl
  | cons a w ih =>
    obtain ⟨ha, hw⟩ := forall_mem_cons.mp hw
    exact uncut_cons.mpr ⟨fun rest => ha _, ih hw⟩

theorem splitBy_ne_nil (l : List α) : splitBy cut l ≠ [] := by
  cases l with
  | nil => simp
  | cons a l =>
    unfold splitBy
    split
    · simp
    · split <;> simp

theorem splitBy_uncut (h : Uncut cut l) : splitBy cut l = [l] := by
  induction l with
  | nil => rfl
  | cons a l ih =>
    obtain ⟨ha, hl⟩ := uncut_cons.mp h
    have hcut : cut a l = false := by simpa using ha []
    simp [hcut, ih hl]

variable {sep : α}

theorem splitBy_of_not_mem [DecidableEq α] (h : sep ∉ l) : splitBy (fun c _ => decide (c = sep)) l = [l] := by
  refine splitBy_uncut fun before a after hl rest => ?_
  have ha : a ≠ sep := by
    rintro rfl
    exact h (by simp [hl])
  simpa using ha

theorem splitBy_uncut_cons {rest : List α} (h : Uncut cut l) (hsep : cut sep rest = true) :
    splitBy cut (l ++ sep :: rest) = l :: splitBy cut rest := by
  induction l with
  | nil => simp [hsep]
  | cons a l ih =>
    obtain ⟨ha, hl⟩ := uncut_cons.mp h
    simp [ha, ih hl]

theorem splitBy_append_sep [DecidableEq α] (sep : α) (l rest : List α) :
    splitBy (fun a _ => decide (a = sep)) (l ++ sep :: rest) =
      splitBy (fun a _ => decide (a = sep)) l ++ splitBy (fun a _ => decide (a = sep)) rest := by
  induction l with
  | nil => simp
  | cons a l ih =>
    by_cases ha : a = sep
    · simp [ha, ih]
    · have hne : splitBy (fun a _ => decide (a = sep)) l ≠ [] := splitBy_ne_nil l
      simp only [cons_append, splitBy, ha, decide_false, Bool.false_eq_true, if_false, ih]
      cases hs : splitBy (fun a _ => decide (a = sep)) l with
      | nil => exact absurd hs hne
      | cons piece pieces => rfl

/-- The texts `first :: rest` with `sep` between them. -/
def join (sep : α) (first : List α) (rest : List (List α)) : List α :=
  first ++ rest.flatMap (sep :: ·)

@[simp] theorem join_nil (sep : α) (first : List α) : join sep first [] = first := by simp [join]

@[simp] theorem join_cons (sep : α) (first next : List α) (rest : List (List α)) :
    join sep first (next :: rest) = first ++ sep :: join sep next rest := by
  simp [join]

theorem splitBy_join {first : List α} {rest : List (List α)} (h : ∀ l ∈ first :: rest, Uncut cut l)
    (hsep : ∀ next rest', (∀ l ∈ next :: rest', l ∈ rest) → cut sep (join sep next rest') = true) :
    splitBy cut (join sep first rest) = first :: rest := by
  induction rest generalizing first with
  | nil =>
    rw [join_nil]
    exact splitBy_uncut (h first mem_cons_self)
  | cons next rest ih =>
    have hcut : cut sep (join sep next rest) = true := hsep next rest fun l hl => hl
    rw [join_cons, splitBy_uncut_cons (h first mem_cons_self) hcut]
    rw [ih (fun l hl => h l (mem_cons_of_mem first hl))
      (fun next' rest' hmem => hsep next' rest' fun l hl => mem_cons_of_mem next (hmem l hl))]

/-! ## A limited number of pieces -/

/-- The first `n - 1` pieces of a text, and the rest of it. -/
def splitN [DecidableEq α] (sep : α) : Nat → List α → List (List α)
  | 0, _ => []
  | 1, l => [l]
  | n + 2, l =>
    match l.dropWhile (· ≠ sep) with
    | [] => [l]
    | _ :: rest => l.takeWhile (· ≠ sep) :: splitN sep (n + 1) rest

theorem splitN_append_sep [DecidableEq α] (hw : sep ∉ w) (n : Nat) (rest : List α) :
    splitN sep (n + 2) (w ++ sep :: rest) = w :: splitN sep (n + 1) rest := by
  have hall : ∀ a ∈ w, decide (a ≠ sep) = true := by
    intro a ha
    rw [decide_eq_true_eq]
    rintro rfl
    exact hw ha
  have hstop : Stops (fun a => decide (a ≠ sep)) (sep :: rest) := by simp
  rw [splitN, dropWhile_append_stops hall hstop, takeWhile_append_stops hall hstop]

/-! ## Parts that fit -/

def weight (w : α → Nat) : List α → Nat
  | [] => 0
  | a :: l => w a + weight w l

/-- The longest initial part of `l` that fits in `n` together with what weighs `b`. -/
def fitting (w : α → Nat) (n : Nat) : Nat → List α → List α
  | _, [] => []
  | b, a :: l => if n < b + w a then [] else a :: fitting w n (b + w a) l

theorem fitting_isPrefix (w : α → Nat) (n b : Nat) (l : List α) : fitting w n b l <+: l := by
  induction l generalizing b with
  | nil => exact nil_prefix
  | cons a l ih =>
    rw [fitting]
    split
    · exact nil_prefix
    · exact (prefix_cons_inj a).mpr (ih (b + w a))

theorem fitting_le (w : α → Nat) {n b : Nat} (h : b ≤ n) (l : List α) : b + weight w (fitting w n b l) ≤ n := by
  induction l generalizing b with
  | nil => exact h
  | cons a l ih =>
    rw [fitting]
    split
    · exact h
    · have := ih (b := b + w a) (by omega)
      rw [weight]
      omega

theorem fitting_close {w : α → Nat} {m : Nat} (hm : ∀ a, w a ≤ m) {n b : Nat} (h : n < b + weight w l) :
    n < b + weight w (fitting w n b l) + m := by
  induction l generalizing b with
  | nil =>
    rw [weight] at h
    omega
  | cons a l ih =>
    rw [fitting]
    rw [weight] at h
    split
    · have := hm a
      omega
    · have := ih (b := b + w a) (by omega)
      rw [weight]
      omega

end Jumpstarter.Lib.Text
