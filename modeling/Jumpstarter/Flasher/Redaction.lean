import Jumpstarter.Lib.Replace
import Jumpstarter.Lib.Sys
import Mathlib.Data.List.Sort

/-!
# Secrets in the console output of the flasher

`_redact_sensitive_values`, `_redaction_scope`, `_RedactingConsoleWriter` and `_monitor_fls_progress` of
`jumpstarter_driver_flashers/client.py`, inside a redaction scope. The debug log gets the console output in
writes, and the progress is printed in the pieces that the timeouts of `expect` make of it. Each piece is
redacted alone.

* `kept_of_redact`: what is left of a text without a star was in the text, and has no secret.
* `secrets_hidden`: no secret is written or printed if no registered secret has a star and no piece goes on
  with a secret whose beginning ends the output. A piece that does so, and has no secret in it, leaks one.
-/

namespace Jumpstarter.FlasherRedaction

open Lib List

abbrev Chars := List Char

/-! ## The code -/

/-- `"***"`. -/
def stars : Chars := ['*', '*', '*']

/-- The values that are not empty, the longest first. The set is a list, in the order in which it is read. -/
def sortedValues (values : List Chars) : List Chars :=
  (values.filter (· ≠ [])).insertionSort fun a b => b.length ≤ a.length

def redactSensitiveValues (values : List Chars) (text : Chars) : Chars :=
  (sortedValues values).foldl (fun redacted value => replaceAll value stars redacted) text

/-- `_redaction_values` inside the scope. -/
def redactionScope (previous : List Chars) (values : List (Option Chars)) : List Chars :=
  previous ++ (values.filterMap id).filter (· ≠ [])

abbrev Bytes := List UInt8

/-- What `write` gets. -/
inductive Data where
  | bytes (data : Bytes)
  | text (data : Chars)

/-- How `_monitor_fls_progress` leaves its loop. -/
inductive Ending where
  | prompt
  | panicked (message : Chars)
  | closed
  | failed
  deriving DecidableEq

structure St where
  written : Chars := []
  printed : Chars := []
  lastProcessedLength : Nat := 0
  ending : Option Ending := none

inductive Act where
  | write (data : Data)
  /-- `expect` returns, with the prompt or with a timeout; `before` is what the console gave since the last
  match. -/
  | expect (before : Bytes) (prompt : Bool)
  | eof
  | fails

section
/- `decode(errors="ignore")`. -/
variable (decode : Bytes → Chars) (values : List Chars)

def Data.chars : Data → Chars
  | .bytes data => decode data
  | .text data => data

/-- `new_output` is printed. -/
def St.print (s : St) (raw : Chars) : St :=
  if s.lastProcessedLength < raw.length then
    { s with
      printed := s.printed ++ redactSensitiveValues values (raw.drop s.lastProcessedLength)
      lastProcessedLength := raw.length }
  else s

def leaves (raw : Chars) (prompt : Bool) : Option Ending :=
  if prompt then some .prompt
  else if "panicked at".toList <:+: raw then some (.panicked (redactSensitiveValues values raw))
  else none

def step (s : St) : Act → Option St
  | .write data => some { s with written := s.written ++ redactSensitiveValues values (data.chars decode) }
  | .expect before prompt =>
    if s.ending = none then
      some { s.print values (decode before) with ending := leaves values (decode before) prompt }
    else none
  | .eof => if s.ending = none then some { s with ending := some .closed } else none
  | .fails => if s.ending = none then some { s with ending := some .failed } else none

def sys : Sys St Act := ⟨fun s => s = {}, step decode values⟩

def Hidden (s : St) : Prop := ∀ value ∈ values, value ≠ [] → ¬value <:+: s.written ∧ ¬value <:+: s.printed

/-- The piece goes on with a secret whose beginning ends the output. -/
def continues (out piece : Chars) : Bool :=
  values.any fun value => (List.range value.length).any fun n =>
    decide (0 < n ∧ value.take n <:+ out ∧ value.drop n <+: piece)

def piece (s : St) : Act → Chars
  | .write data => data.chars decode
  | .expect before _ => (decode before).drop s.lastProcessedLength
  | _ => []

/-- The new piece does not go on with a secret. -/
def meets (s : St) (a : Act) : Bool :=
  match a with
  | .write _ => !continues values s.written (piece decode s a)
  | .expect .. => !continues values s.printed (piece decode s a)
  | _ => true

end

/-! ## Redaction of a text -/

section
variable {values : List Chars}

theorem mem_sortedValues {value : Chars} : value ∈ sortedValues values ↔ value ∈ values ∧ value ≠ [] := by
  simp [sortedValues]

theorem kept_of_foldl {text x u y : Chars} (vs : List Chars) (hne : ∀ v ∈ vs, v ≠ []) (hu : '*' ∉ u)
    (h : vs.foldl (fun redacted value => replaceAll value stars redacted) text = x ++ (u ++ y)) :
    (∃ x' y', text = x' ++ (u ++ y') ∧ (x = [] → x' = [])) ∧ ∀ v ∈ vs, ¬v <:+: u := by
  induction vs generalizing text with
  | nil => exact ⟨⟨x, y, h, id⟩, fun _ hv => absurd hv not_mem_nil⟩
  | cons v vs ih =>
    obtain ⟨⟨x₁, y₁, hkept, hx₁⟩, hrest⟩ := ih (fun w hw => hne w (mem_cons_of_mem v hw)) h
    have hstars : ∀ c ∈ u, c ∉ stars := fun c hc hin => by
      obtain rfl : c = '*' := by simpa [stars] using hin
      exact hu hc
    obtain ⟨⟨x', y', htext, hx'⟩, hv⟩ :=
      kept_of_replaceAll (hne v mem_cons_self) (cons_ne_nil '*' _) hstars hkept
    exact ⟨⟨x', y', htext, fun hx => hx' (hx₁ hx)⟩, forall_mem_cons.mpr ⟨hv, hrest⟩⟩

theorem kept_of_redact {text x u y : Chars} (hu : '*' ∉ u)
    (h : redactSensitiveValues values text = x ++ (u ++ y)) :
    (∃ x' y', text = x' ++ (u ++ y') ∧ (x = [] → x' = [])) ∧ ∀ v ∈ values, v ≠ [] → ¬v <:+: u := by
  obtain ⟨htext, hnone⟩ := kept_of_foldl _ (fun v hv => (mem_sortedValues.mp hv).2) hu h
  exact ⟨htext, fun v hv hne => hnone v (mem_sortedValues.mpr ⟨hv, hne⟩)⟩

theorem redact_of_none {text : Chars} (h : ∀ v ∈ values, v ≠ [] → ¬v <:+: text) :
    redactSensitiveValues values text = text := by
  have hall : ∀ vs : List Chars, (∀ v ∈ vs, ¬v <:+: text) →
      vs.foldl (fun redacted value => replaceAll value stars redacted) text = text := by
    intro vs
    induction vs with
    | nil => exact fun _ => rfl
    | cons v vs ih =>
      intro hvs
      rw [foldl_cons, replaceAll_of_not_infix (hvs v mem_cons_self)]
      exact ih fun w hw => hvs w (mem_cons_of_mem v hw)
  refine hall _ fun v hv => ?_
  obtain ⟨hv, hne⟩ := mem_sortedValues.mp hv
  exact h v hv hne

/-! ## Pieces -/

theorem continues_iff {out piece : Chars} : continues values out piece = true ↔
    ∃ v ∈ values, ∃ p s, p ≠ [] ∧ s ≠ [] ∧ v = p ++ s ∧ p <:+ out ∧ s <+: piece := by
  unfold continues
  simp only [any_eq_true, mem_range, decide_eq_true_eq]
  constructor
  · rintro ⟨v, hv, n, hn, hpos, hsuffix, hprefix⟩
    refine ⟨v, hv, v.take n, v.drop n, ?_, ?_, (take_append_drop n v).symm, hsuffix, hprefix⟩
    · exact ne_nil_of_length_pos (by rw [length_take]; omega)
    · exact ne_nil_of_length_pos (by rw [length_drop]; omega)
  · rintro ⟨v, hv, p, s, hp, hs, rfl, hsuffix, hprefix⟩
    have hp := length_pos_of_ne_nil hp
    have hs := length_pos_of_ne_nil hs
    refine ⟨p ++ s, hv, p.length, by rw [length_append]; omega, hp, ?_, ?_⟩
    · rwa [take_left]
    · rwa [drop_left]

theorem hidden_append {out piece v : Chars} (hv : v ∈ values) (hne : v ≠ []) (hstar : '*' ∉ v)
    (hout : ¬v <:+: out) (hpiece : continues values out piece = false) :
    ¬v <:+: out ++ redactSensitiveValues values piece := by
  rw [infix_append_iff_ne_nil]
  rintro (h | ⟨x, y, h⟩ | ⟨p, s, hp, hs, rfl, hsuffix, ⟨y, hy⟩⟩)
  · exact hout h
  · rw [append_assoc] at h
    exact (kept_of_redact hstar h.symm).2 v hv hne infix_rfl
  · have hu : '*' ∉ s := fun h => hstar (mem_append_right p h)
    obtain ⟨⟨x', y', hpre, hx⟩, -⟩ := kept_of_redact (x := []) hu hy.symm
    rw [hx rfl] at hpre
    have hcont := continues_iff.mpr ⟨p ++ s, hv, p, s, hp, hs, rfl, hsuffix, y', hpre.symm⟩
    rw [hpiece] at hcont
    cases hcont

theorem leak_append {out piece : Chars} (hpiece : continues values out piece = true)
    (hnone : ∀ v ∈ values, v ≠ [] → ¬v <:+: piece) :
    ∃ v ∈ values, v ≠ [] ∧ v <:+: out ++ redactSensitiveValues values piece := by
  obtain ⟨v, hv, p, s, hp, hs, hvps, hsuffix, hprefix⟩ := continues_iff.mp hpiece
  refine ⟨v, hv, by simp [hvps, hp], ?_⟩
  rw [redact_of_none hnone, infix_append_iff_ne_nil]
  exact .inr (.inr ⟨p, s, hp, hs, hvps, hsuffix, hprefix⟩)

/-! ## Every run -/

variable {decode : Bytes → Chars} {s s' : St} {a : Act}

theorem print_printed (values : List Chars) (s : St) (raw : Chars) :
    (s.print values raw).printed =
      s.printed ++ redactSensitiveValues values (raw.drop s.lastProcessedLength) := by
  unfold St.print
  split
  · rfl
  · have hnil : raw.drop s.lastProcessedLength = [] := drop_eq_nil_of_le (by omega)
    have hempty : redactSensitiveValues values [] = [] :=
      redact_of_none fun v _ hne h => hne (infix_nil.mp h)
    rw [hnil, hempty, append_nil]

theorem print_written (values : List Chars) (s : St) (raw : Chars) :
    (s.print values raw).written = s.written := by
  unfold St.print
  split <;> rfl

theorem hidden_step (hstar : ∀ v ∈ values, '*' ∉ v) (h : Hidden values s) (hm : meets decode values s a = true)
    (hst : step decode values s a = some s') : Hidden values s' := by
  intro v hv hne
  obtain ⟨hwritten, hprinted⟩ := h v hv hne
  cases a with
  | write data =>
    cases hst
    exact ⟨hidden_append hv hne (hstar v hv) hwritten (by simpa [meets, piece] using hm), hprinted⟩
  | expect before prompt =>
    simp only [step] at hst
    split at hst <;> cases hst
    refine ⟨?_, ?_⟩
    · rwa [print_written]
    · rw [print_printed]
      exact hidden_append hv hne (hstar v hv) hprinted (by simpa [meets, piece] using hm)
  | eof =>
    simp only [step] at hst
    split at hst <;> cases hst
    exact ⟨hwritten, hprinted⟩
  | fails =>
    simp only [step] at hst
    split at hst <;> cases hst
    exact ⟨hwritten, hprinted⟩

theorem not_hidden_step (hm : meets decode values s a = false)
    (hnone : ∀ v ∈ values, v ≠ [] → ¬v <:+: piece decode s a) (hst : step decode values s a = some s') :
    ¬Hidden values s' := by
  intro h
  cases a with
  | write data =>
    cases hst
    obtain ⟨v, hv, hne, hin⟩ := leak_append (by simpa [meets] using hm) hnone
    exact (h v hv hne).1 hin
  | expect before prompt =>
    simp only [step] at hst
    split at hst <;> cases hst
    obtain ⟨v, hv, hne, hin⟩ := leak_append (by simpa [meets] using hm) hnone
    refine (h v hv hne).2 ?_
    rw [print_printed]
    exact hin
  | eof => cases hm
  | fails => cases hm

theorem hidden_reach (hstar : ∀ v ∈ values, '*' ∉ v)
    (h : (sys decode values).ReachIf (fun s a => meets decode values s a = true) s) : Hidden values s := by
  have hind : (sys decode values).InductiveIf (fun s a => meets decode values s a = true) (Hidden values) := by
    refine ⟨?_, fun _ _ _ hi hm hst => hidden_step hstar hi hm hst⟩
    rintro _ rfl v hv hne
    have hnil : ¬v <:+: [] := fun h => hne (infix_nil.mp h)
    exact ⟨hnil, hnil⟩
  exact hind.reach h

end

/-- **Secrets are not printed.** Inside a redaction scope, in every run in which no piece goes on with a secret
whose beginning ends the output, no secret of the scope is in what the debug stream got and in what was printed,
if no registered secret has a star. A piece that goes on with a secret, and has none in it, leaks one. -/
theorem secrets_hidden (decode : Bytes → Chars) (previous : List Chars) (secrets : List (Option Chars))
    (values : List Chars) (hscope : ∀ v, v ∈ values ↔ v ∈ redactionScope previous secrets)
    (hstar : ∀ v ∈ values, '*' ∉ v) (s : St)
    (h : (sys decode values).ReachIf (fun s a => meets decode values s a = true) s) :
    (∀ secret, some secret ∈ secrets → secret ≠ [] → ¬secret <:+: s.written ∧ ¬secret <:+: s.printed) ∧
    ∀ a s', meets decode values s a = false → (∀ v ∈ values, v ≠ [] → ¬v <:+: piece decode s a) →
      step decode values s a = some s' → ¬Hidden values s' := by
  refine ⟨fun secret hsecret hne => ?_, fun a s' hm hnone hst => not_hidden_step hm hnone hst⟩
  refine hidden_reach hstar h secret ((hscope secret).mpr ?_) hne
  refine mem_append_right previous (mem_filter.mpr ⟨?_, by simpa using hne⟩)
  exact mem_filterMap.mpr ⟨some secret, hsecret, rfl⟩

/-- `decode` of ASCII. -/
def sampleDecode (data : Bytes) : Chars := data.map fun b => Char.ofNat b.toNat

/-- The secret comes whole, once in the debug log and twice in what is printed. -/
theorem secrets_hidden_sample :
    ∃ s, (sys sampleDecode [['p', 'w']]).ReachIf (fun s a => meets sampleDecode [['p', 'w']] s a = true) s ∧
      s.written = ['p', '*', '*', '*', 'w'] ∧ ¬['p', 'w'] <:+: s.written ∧ ¬['p', 'w'] <:+: s.printed := by
  have hinit : (sys sampleDecode [['p', 'w']]).ReachIf
      (fun s a => meets sampleDecode [['p', 'w']] s a = true) {} := .init rfl
  obtain ⟨s, hreach, hs⟩ := hinit.execIf_any
    [.write (.text ['p', 'p', 'w', 'w']), .expect [112, 119] false, .expect [112, 119, 112, 119, 35] true]
    (p := fun s => decide (s.written = ['p', '*', '*', '*', 'w'])) (by decide +kernel)
  have hhidden := (secrets_hidden sampleDecode [] [some ['p', 'w']] [['p', 'w']] (by simp [redactionScope])
    (by simp) s hreach).1 ['p', 'w'] (by simp) (by simp)
  exact ⟨s, hreach, of_decide_eq_true hs, hhidden.1, hhidden.2⟩

/-- A secret in two writes, and in two reads; and a secret with a star, that stays in a single write. -/
theorem secrets_leak :
    (∃ s, (sys sampleDecode [['p', 'w']]).Reach s ∧ (['p', 'w'] <:+: s.written ∧ ['p', 'w'] <:+: s.printed)) ∧
    ∃ s, (sys sampleDecode [['p', '*']]).Reach s ∧ ['p', '*'] <:+: s.written := by
  have hinit : ∀ values, (sys sampleDecode values).Reach {} := fun _ => .init rfl
  refine ⟨?_, ?_⟩
  · obtain ⟨s, hreach, hs⟩ := (hinit [['p', 'w']]).exec_any
      [.write (.bytes [112]), .write (.bytes [119]), .expect [112] false, .expect [112, 119] false]
      (p := fun s => decide (['p', 'w'] <:+: s.written ∧ ['p', 'w'] <:+: s.printed)) (by decide +kernel)
    exact ⟨s, hreach, of_decide_eq_true hs⟩
  · obtain ⟨s, hreach, hs⟩ := (hinit [['p', '*']]).exec_any [.write (.text ['p', 'p', '*'])]
      (p := fun s => decide (['p', '*'] <:+: s.written)) (by decide +kernel)
    exact ⟨s, hreach, of_decide_eq_true hs⟩

end Jumpstarter.FlasherRedaction
