import Mathlib.Data.List.Basic

/-!
# Decoding UTF-8 with replacement

`decode` is `bytes.decode("utf-8", errors="replace")`: a byte that starts no sequence becomes U+FFFD, and so
does, as a whole, a sequence that the next byte does not continue or that the input ends in.

`decodeAll_eq_iff`: decoding an input in pieces gives the same text exactly if no piece ends within a sequence
that the next byte continues.
-/

namespace Jumpstarter.Lib.Utf8

/-- A sequence that has begun: the bounds of its next byte, how many bytes follow that one, and the bits so
far. -/
structure Pending where
  lo : Nat
  hi : Nat
  more : Nat
  bits : Nat
  bounds : 0x80 ≤ lo ∧ hi ≤ 0xBF

def replacement : Char := Char.ofNat 0xFFFD

/-- A first byte: the text it gives, and the sequence it begins. -/
def first (b : UInt8) : List Char × Option Pending :=
  let n := b.toNat
  if n < 0x80 then ([Char.ofNat n], none)
  else if 0xC2 ≤ n ∧ n ≤ 0xDF then ([], some ⟨0x80, 0xBF, 0, n % 32, by decide⟩)
  else if n = 0xE0 then ([], some ⟨0xA0, 0xBF, 1, n % 16, by decide⟩)
  else if n = 0xED then ([], some ⟨0x80, 0x9F, 1, n % 16, by decide⟩)
  else if 0xE1 ≤ n ∧ n ≤ 0xEF then ([], some ⟨0x80, 0xBF, 1, n % 16, by decide⟩)
  else if n = 0xF0 then ([], some ⟨0x90, 0xBF, 2, n % 8, by decide⟩)
  else if 0xF1 ≤ n ∧ n ≤ 0xF3 then ([], some ⟨0x80, 0xBF, 2, n % 8, by decide⟩)
  else if n = 0xF4 then ([], some ⟨0x80, 0x8F, 2, n % 8, by decide⟩)
  else ([replacement], none)

def Pending.continues (p : Pending) (b : UInt8) : Bool := p.lo ≤ b.toNat && b.toNat ≤ p.hi

def feed : Option Pending → UInt8 → List Char × Option Pending
  | none, b => first b
  | some p, b =>
    if p.continues b then
      match p.more with
      | 0 => ([Char.ofNat (p.bits * 64 + b.toNat % 64)], none)
      | more + 1 => ([], some ⟨0x80, 0xBF, more, p.bits * 64 + b.toNat % 64, by decide⟩)
    else (replacement :: (first b).1, (first b).2)

/-- The text of an input after a sequence that has begun. -/
@[simp] def decodeFrom : Option Pending → List UInt8 → List Char
  | none, [] => []
  | some _, [] => [replacement]
  | p, b :: l => (feed p b).1 ++ decodeFrom (feed p b).2 l

def decode (l : List UInt8) : List Char := decodeFrom none l

def pending : Option Pending → List UInt8 → Option Pending
  | p, [] => p
  | p, b :: l => pending (feed p b).2 l

/-- `l` ends within a sequence that `l'` continues. -/
def splits (l l' : List UInt8) : Bool :=
  match pending none l, l' with
  | some p, b :: _ => p.continues b
  | _, _ => false

def Aligned : List (List UInt8) → Prop
  | [] => True
  | l :: ls => splits l ls.flatten = false ∧ Aligned ls

theorem first_of_continues {p : Pending} {b : UInt8} (h : p.continues b = true) :
    first b = ([replacement], none) := by
  have hp := p.bounds
  simp only [Pending.continues, Bool.and_eq_true, decide_eq_true_eq] at h
  unfold first
  repeat' rw [if_neg (by omega)]

theorem length_decodeFrom_le (p : Pending) (l : List UInt8) :
    (decodeFrom (some p) l).length ≤ (decode l).length + 1 := by
  induction l generalizing p with
  | nil => simp
  | cons b l ih =>
    cases h : p.continues b with
    | false => simp [decode, feed, h]
    | true =>
      simp only [decode, decodeFrom, feed, h, first_of_continues h, if_true] at ih ⊢
      split
      · simp
      · rename_i more _
        have := ih ⟨0x80, 0xBF, more, p.bits * 64 + b.toNat % 64, by decide⟩
        simp at this ⊢
        omega

theorem decodeFrom_append (p : Option Pending) (l : List UInt8) :
    ∃ out, ∀ l', decodeFrom p (l ++ l') = out ++ decodeFrom (pending p l) l' := by
  induction l generalizing p with
  | nil => exact ⟨[], fun l' => rfl⟩
  | cons b l ih =>
    obtain ⟨out, hout⟩ := ih (feed p b).2
    exact ⟨(feed p b).1 ++ out, fun l' => by simp [pending, hout]⟩

theorem decode_append (l l' : List UInt8) :
    splits l l' = false ∧ decode (l ++ l') = decode l ++ decode l' ∨
      splits l l' = true ∧ (decode (l ++ l')).length < (decode l ++ decode l').length := by
  obtain ⟨out, hout⟩ := decodeFrom_append none l
  have hl := hout []
  rw [List.append_nil] at hl
  simp only [decode, hout l', hl, splits]
  cases hp : pending none l with
  | none => simp
  | some p =>
    cases l' with
    | nil => simp
    | cons b l' =>
      cases h : p.continues b with
      | false => simp [h, feed]
      | true =>
        simp only [h, decodeFrom, first_of_continues h, feed, if_true]
        split
        · simp
        · rename_i more _
          have := length_decodeFrom_le ⟨0x80, 0xBF, more, p.bits * 64 + b.toNat % 64, by decide⟩ l'
          simp [decode] at this ⊢
          omega

theorem length_decode_flatten_le (ls : List (List UInt8)) :
    (decode ls.flatten).length ≤ (ls.map decode).flatten.length := by
  induction ls with
  | nil => simp [decode]
  | cons l ls ih =>
    rcases decode_append l ls.flatten with ⟨-, h⟩ | ⟨-, h⟩
    · simpa [h] using ih
    · simp at h ih ⊢
      omega

theorem decodeAll_eq_iff (ls : List (List UInt8)) :
    (ls.map decode).flatten = decode ls.flatten ↔ Aligned ls := by
  induction ls with
  | nil => simp [decode, Aligned]
  | cons l ls ih =>
    rw [Aligned, List.map_cons, List.flatten_cons, List.flatten_cons, ← ih]
    rcases decode_append l ls.flatten with ⟨hs, h⟩ | ⟨hs, h⟩
    · simp [hs, h]
    · have hle := length_decode_flatten_le ls
      simp only [hs, Bool.true_eq_false, false_and, iff_false]
      intro he
      rw [← he] at h
      simp at h hle
      omega

end Jumpstarter.Lib.Utf8
