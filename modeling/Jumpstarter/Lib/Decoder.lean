/-!
# Decoders that are fed piece by piece

A decoder reads an input element by element and gives output on the way. It stops at the end of the first
member of its format, and leaves what comes after it unread. Output it has not given by then is pending.

- `feed_append`: feeding two pieces is feeding their concatenation.
- `IsMember.feed_of_length_lt`, `IsMember.feed_append`: up to its last element a member keeps the decoder
  running, and after that nothing changes any more.
-/

namespace Jumpstarter.Lib

open List

inductive Decoder.Step (σ β : Type) where
  | more (s : σ) (out : List β)
  | last (out pending : List β)
  | corrupt (e : String)

/-- A decoder, with the states it has within a member. -/
structure Decoder (σ α β : Type) where
  start : σ
  push : σ → α → Decoder.Step σ β
  pending : σ → List β

namespace Decoder

/-- Within the first member, or after it. -/
inductive Phase (σ β : Type) where
  | running (s : σ)
  | ended (pending : List β)

variable {σ α β : Type} (D : Decoder σ α β)

def prepend (out : List β) : Except String (List β × Phase σ β) → Except String (List β × Phase σ β)
  | .error e => .error e
  | .ok (rest, phase) => .ok (out ++ rest, phase)

theorem prepend_nil (r : Except String (List β × Phase σ β)) : prepend [] r = r := by
  cases r <;> rfl

theorem prepend_prepend (out out' : List β) (r : Except String (List β × Phase σ β)) :
    prepend out (prepend out' r) = prepend (out ++ out') r := by
  cases r with
  | error e => rfl
  | ok r => simp [prepend]

/-- Feed a piece: the output, and the phase after it. -/
def feed : Phase σ β → List α → Except String (List β × Phase σ β)
  | .ended pending, _ => .ok ([], .ended pending)
  | .running s, [] => .ok ([], .running s)
  | .running s, a :: l =>
    match D.push s a with
    | .more s out => prepend out (feed (.running s) l)
    | .last out pending => .ok (out, .ended pending)
    | .corrupt e => .error e

@[simp] theorem feed_ended (pending : List β) (l : List α) :
    D.feed (.ended pending) l = .ok ([], .ended pending) := by
  unfold feed
  rfl

@[simp] theorem feed_nil (phase : Phase σ β) : D.feed phase [] = .ok ([], phase) := by
  cases phase with
  | running s => rfl
  | ended pending => exact feed_ended D pending []

theorem feed_append (phase : Phase σ β) (l l' : List α) :
    D.feed phase (l ++ l') =
      match D.feed phase l with
      | .error e => .error e
      | .ok (out, phase') => prepend out (D.feed phase' l') := by
  induction l generalizing phase with
  | nil => simp [prepend_nil]
  | cons a l ih =>
    cases phase with
    | ended pending => simp [prepend_nil]
    | running s =>
      rw [cons_append, feed, feed]
      cases D.push s a with
      | corrupt e => rfl
      | last out pending => simp [prepend]
      | more s' out =>
        simp only [ih (.running s')]
        cases D.feed (.running s') l with
        | error e => rfl
        | ok r => exact prepend_prepend out r.1 _

variable {D}

theorem running_of_append {phase : Phase σ β} {l l' : List α} {out : List β} {s : σ}
    (h : D.feed phase (l ++ l') = .ok (out, .running s)) :
    ∃ out' s', D.feed phase l = .ok (out', .running s') := by
  rw [feed_append] at h
  cases hl : D.feed phase l with
  | error e =>
    rw [hl] at h
    cases h
  | ok r =>
    obtain ⟨out', phase'⟩ := r
    cases phase' with
    | running s' => exact ⟨out', s', rfl⟩
    | ended pending =>
      rw [hl] at h
      simp [prepend] at h

/-! ## Members -/

/-- A member of the format: its last element ends it. -/
structure IsMember (D : Decoder σ α β) (m : List α) (out pending : List β) : Prop where
  ends : ∃ l a s first last, m = l ++ [a] ∧ D.feed (.running D.start) l = .ok (first, .running s) ∧
    D.push s a = .last last pending ∧ out = first ++ last

namespace IsMember

variable {m : List α} {out pending : List β}

theorem feed_append (h : D.IsMember m out pending) (rest : List α) :
    D.feed (.running D.start) (m ++ rest) = .ok (out, .ended pending) := by
  obtain ⟨l, a, s, first, last, rfl, hl, hlast, rfl⟩ := h.ends
  simp only [append_assoc, Decoder.feed_append, hl, cons_append, feed, hlast, prepend]

theorem feed_of_length_lt (h : D.IsMember m out pending) {d rest : List α} (hd : d <+: m ++ rest)
    (hlt : d.length < m.length) : ∃ o s, D.feed (.running D.start) d = .ok (o, .running s) := by
  obtain ⟨l, a, s, first, last, rfl, hl, -, -⟩ := h.ends
  have hpre : d <+: l := by
    apply prefix_of_prefix_length_le hd
    · rw [append_assoc]
      exact prefix_append _ _
    · simp only [length_append, length_singleton] at hlt
      omega
  obtain ⟨t, rfl⟩ := hpre
  exact running_of_append hl

theorem feed_of_length_le (h : D.IsMember m out pending) {d rest : List α} (hd : d <+: m ++ rest)
    (hle : m.length ≤ d.length) : D.feed (.running D.start) d = .ok (out, .ended pending) := by
  obtain ⟨t, rfl⟩ := prefix_of_prefix_length_le (prefix_append m rest) hd hle
  exact h.feed_append t

end IsMember

end Decoder

end Jumpstarter.Lib
