import Mathlib
import Jumpstarter.Client.Selectors

/-!
# The Kubernetes grammar of selectors, and what the Python client reads of it

The syntax tree of a selector in the grammar of `labels.Parse`, with all its spaces, and its text. Keys,
values and spaces carry the characters that they may have.

* `Body.requirement` is what a requirement says, and `Body.reading` is what the regular expressions of
  `parse_label_selector` make of its text: `readPart_text`.
* `parseLabelSelector_text`: the loop adds the readings, in order.
-/

namespace Jumpstarter.Selectors

open Lib List Option Text

/-! ## The syntax -/

theorem no_spaces_valid : ∀ c ∈ ([] : List Char), c ∈ [' ', '\t', '\r', '\n'] := by simp

structure Spaces where
  chars : List Char := []
  valid : ∀ c ∈ chars, c ∈ [' ', '\t', '\r', '\n'] := by exact no_spaces_valid

/-- A key: a name, with or without a domain before it. -/
structure Key where
  chars : List Char
  ne : chars ≠ [] := by decide
  valid : ∀ c ∈ chars, isKeyChar c = true := by exact all_eq_true.mp (by decide)

structure Value where
  chars : List Char
  valid : ∀ c ∈ chars, isKeyChar c = true := by exact all_eq_true.mp (by decide)

/-- A value of a list, with the spaces around it. -/
structure Element where
  before : Spaces := {}
  value : Value
  after : Spaces := {}

/-- A requirement without the spaces around it. -/
inductive Body where
  | exists (key : Key)
  | notExists (gap : Spaces) (key : Key)
  /-- `=`, or `==` if `double`. -/
  | equals (key : Key) (gap : Spaces) (double : Bool) (gap' : Spaces) (value : Value)
  | notEquals (key : Key) (gap gap' : Spaces) (value : Value)
  /-- `in`, or `notin` if `negated`, and the list. -/
  | set (key : Key) (gap : Spaces) (hgap : gap.chars ≠ []) (negated : Bool) (gap' : Spaces)
      (first : Element) (rest : List Element)

structure Spelled where
  before : Spaces := {}
  body : Body
  after : Spaces := {}

/-- A selector: only spaces, or requirements with commas between them. -/
inductive Selector where
  | blank (spaces : Spaces)
  | list (first : Spelled) (rest : List Spelled)

/-! ### The text -/

def Element.text (e : Element) : List Char := e.before.chars ++ (e.value.chars ++ e.after.chars)

@[simp] def Body.text : Body → List Char
  | .exists key => key.chars
  | .notExists gap key => '!' :: (gap.chars ++ key.chars)
  | .equals key gap double gap' value =>
    key.chars ++ (gap.chars ++ ((if double then ['=', '='] else ['=']) ++ (gap'.chars ++ value.chars)))
  | .notEquals key gap gap' value =>
    key.chars ++ (gap.chars ++ (['!', '='] ++ (gap'.chars ++ value.chars)))
  | .set key gap _ negated gap' first rest =>
    key.chars ++ (gap.chars ++ ((if negated then ['n', 'o', 't', 'i', 'n'] else ['i', 'n']) ++
      (gap'.chars ++ '(' :: (Text.join ',' first.text (rest.map (·.text)) ++ [')']))))

def Spelled.text (r : Spelled) : List Char := r.before.chars ++ (r.body.text ++ r.after.chars)

def Selector.text : Selector → List Char
  | .blank spaces => spaces.chars
  | .list first rest => Text.join ',' first.text (rest.map (·.text))

/-! ### The requirements -/

def Key.name (key : Key) : String := String.ofList key.chars

@[simp] def Value.name (value : Value) : String := String.ofList value.chars

@[simp] def Body.requirement : Body → Item
  | .exists key => .expression key.name .exists []
  | .notExists _ key => .expression key.name .notExists []
  | .equals key _ _ _ value => .label key.name value.name
  | .notEquals key _ _ value => .expression key.name .notEquals [value.name]
  | .set key _ _ negated _ first rest =>
    .expression key.name (if negated then .notIn else .isIn) ((first :: rest).map fun e => e.value.name)

@[simp] def Selector.bodies : Selector → List Body
  | .blank _ => []
  | .list first rest => (first :: rest).map (·.body)

def Selector.requirements (s : Selector) : List Item := s.bodies.map (·.requirement)

/-- A requirement whose text the regular expressions read: a value after `=`, `==` and `!=` is not
empty, and there is a space between `in` or `notin` and the list. -/
@[simp] def Body.plain : Body → Bool
  | .exists _ | .notExists _ _ => true
  | .equals _ _ _ _ value | .notEquals _ _ _ value => !value.chars.isEmpty
  | .set _ _ _ _ gap' _ _ => !gap'.chars.isEmpty

/-- What the regular expressions read. `==` without a value is read as the value `=`; the other texts
that are not plain are dropped. -/
@[simp] def Body.reading (b : Body) : Option Item :=
  if b.plain then some b.requirement
  else
    match b with
    | .equals key _ true _ _ => some (.label key.name "=")
    | _ => none

/-! ## Characters -/

variable {c : Char}

theorem isSpace_of_spaces (h : c ∈ [' ', '\t', '\r', '\n']) : isSpace c = true := by
  simp only [mem_cons, not_mem_nil, or_false] at h
  rcases h with rfl | rfl | rfl | rfl <;> decide

theorem toNat_of_isKeyChar (h : isKeyChar c = true) :
    (45 ≤ c.toNat ∧ c.toNat ≤ 57) ∨ (65 ≤ c.toNat ∧ c.toNat ≤ 90) ∨ c.toNat = 95 ∨
      (97 ≤ c.toNat ∧ c.toNat ≤ 122) := by
  simp only [isKeyChar, Char.isAlphanum, Char.isAlpha, Char.isUpper, Char.isLower, Char.isDigit,
    Bool.or_eq_true, decide_eq_true_eq, Bool.and_eq_true, contains_cons, beq_iff_eq,
    contains_nil, UInt32.le_iff_toNat_le, ge_iff_le] at h
  rcases h with ((h | h) | h) | h | h | h | h | h
  · exact .inr (.inl h)
  · exact .inr (.inr (.inr h))
  · exact .inl ⟨Nat.le_trans (by decide) h.1, h.2⟩
  · rw [h]
    decide
  · rw [h]
    decide
  · rw [h]
    decide
  · rw [h]
    decide
  · cases h

theorem not_isSpace_of_isKeyChar (h : isKeyChar c = true) : isSpace c = false := by
  have hc := toNat_of_isKeyChar h
  simp only [isSpace, Bool.or_eq_false_iff, Bool.and_eq_false_iff, decide_eq_false_iff_not]
  omega

theorem not_isKeyChar_of_isSpace (h : isSpace c = true) : isKeyChar c = false := by
  by_contra hk
  rw [not_isSpace_of_isKeyChar (by simpa using hk)] at h
  cases h

variable {d : Char}

theorem ne_of_isKeyChar (h : isKeyChar c = true) (hd : isKeyChar d = false) : c ≠ d := by
  rintro rfl
  rw [h] at hd
  cases hd

/-! ### Where runs of characters end -/

theorem Spaces.isSpace (s : Spaces) : ∀ c ∈ s.chars, Selectors.isSpace c = true :=
  fun c hc => isSpace_of_spaces (s.valid c hc)

variable {l : List Char}

theorem Spaces.stops_key (s : Spaces) (hl : Text.Stops isKeyChar l) : Text.Stops isKeyChar (s.chars ++ l) :=
  stops_append (stops_of_forall fun c hc => not_isKeyChar_of_isSpace (s.isSpace c hc)) hl

theorem Spaces.stops_key_of_ne (s : Spaces) (hs : s.chars ≠ []) (l : List Char) :
    Text.Stops isKeyChar (s.chars ++ l) := by
  cases hc : s.chars with
  | nil => exact absurd hc hs
  | cons c chars =>
    have hmem : c ∈ s.chars := by simp [hc]
    exact stops_cons.mpr (not_isKeyChar_of_isSpace (s.isSpace c hmem))

theorem Key.stops_space (key : Key) (l : List Char) : Text.Stops Selectors.isSpace (key.chars ++ l) := by
  obtain ⟨chars, hne, hvalid⟩ := key
  cases chars with
  | nil => exact absurd rfl hne
  | cons c chars =>
    exact stops_cons.mpr (not_isSpace_of_isKeyChar (hvalid c mem_cons_self))

theorem Value.stops_space (value : Value) : Text.Stops Selectors.isSpace value.chars :=
  stops_of_forall fun c hc => not_isSpace_of_isKeyChar (value.valid c hc)

theorem stops_reverse_of_key (h : ∀ c ∈ l, isKeyChar c = true) : Text.Stops isSpace l.reverse :=
  stops_of_forall fun c hc => not_isSpace_of_isKeyChar (h c (mem_reverse.mp hc))

/-! ### The recognisers -/

theorem matchKey_append (key : Key) (hl : Text.Stops isKeyChar l) :
    matchKey (key.chars ++ l) = some (key.chars, l) := by
  rw [matchKey, takeWhile_append_stops key.valid hl, dropWhile_append_stops key.valid hl,
    if_neg key.ne]

theorem matchKey_none (hl : Text.Stops isKeyChar l) : matchKey l = none := by
  rw [matchKey, takeWhile_of_stops hl, if_pos rfl]

theorem matchSpaces_append (s : Spaces) (hs : s.chars ≠ []) (hl : Text.Stops isSpace l) :
    matchSpaces (s.chars ++ l) = some l := by
  rw [matchSpaces, takeWhile_append_stops s.isSpace hl, dropWhile_append_stops s.isSpace hl,
    if_neg hs]

theorem matchSpaces_none (hl : Text.Stops isSpace l) : matchSpaces l = none := by
  rw [matchSpaces, takeWhile_of_stops hl, if_pos rfl]

@[simp] theorem matchWord_append (word l : List Char) : matchWord word (word ++ l) = some l := by
  simp [matchWord]

theorem matchWord_cons_ne {a b : Char} (h : a ≠ b) (word l : List Char) :
    matchWord (a :: word) (b :: l) = none := by
  simp [matchWord, h]

@[simp] theorem matchWord_nil (a : Char) (word : List Char) : matchWord (a :: word) [] = none := rfl

theorem matchBrackets_append {l : List Char} (h : ∀ c ∈ l, c ≠ ')') :
    matchBrackets ('(' :: (l ++ [')'])) = some l := by
  have hl : ∀ c ∈ l, decide (c ≠ ')') = true := fun c hc => decide_eq_true (h c hc)
  have hstop : Text.Stops (fun c : Char => decide (c ≠ ')')) [')'] := by simp
  simp only [matchBrackets, takeWhile_append_stops hl hstop, dropWhile_append_stops hl hstop]

theorem matchValue_append (gap : Spaces) (value : Value) (hne : value.chars ≠ []) :
    matchValue (gap.chars ++ value.chars) = some value.chars := by
  have hnewline : '\n' ∉ value.chars := fun h =>
    ne_of_isKeyChar (value.valid _ h) (by decide) rfl
  simp [matchValue, dropWhile_append_stops gap.isSpace value.stops_space, hne, hnewline, strip, strip_of_stops value.stops_space (stops_reverse_of_key value.valid)]

@[simp] theorem matchValue_nil : matchValue [] = none := rfl

/-! ## One requirement -/

/-- The value and the spaces before it, as far as `strip` keeps them. -/
def valueText (gap : Spaces) (value : Value) : List Char :=
  if value.chars = [] then [] else gap.chars ++ value.chars

@[simp] def Body.core : Body → List Char
  | .equals key gap double gap' value =>
    key.chars ++ (gap.chars ++ ((if double then ['=', '='] else ['=']) ++ valueText gap' value))
  | .notEquals key gap gap' value =>
    key.chars ++ (gap.chars ++ (['!', '='] ++ valueText gap' value))
  | b => b.text

@[simp] def Body.trail : Body → Spaces
  | .equals _ _ _ gap' value | .notEquals _ _ gap' value => if value.chars = [] then gap' else {}
  | _ => {}

theorem Body.text_eq (b : Body) : b.text = b.core ++ b.trail.chars := by
  cases b with
  | equals key gap double gap' value | notEquals key gap gap' value =>
    by_cases hv : value.chars = []
    · simp [valueText, hv]
    · simp [valueText, hv]
  | «exists» | notExists | set => simp

theorem matchValue_valueText (gap : Spaces) (value : Value) :
    matchValue (valueText gap value) = if value.chars = [] then none else some value.chars := by
  by_cases hv : value.chars = []
  · simp [valueText, hv]
  · simp [valueText, hv, matchValue_append gap value hv]

/-! ### A part that starts with a key -/

section Key

variable {part rest : List Char} {key : Key} {gap : Spaces}

section

variable (hk : matchKey part = some (key.chars, gap.chars ++ rest))
include hk

theorem matchSet_eq (hr : Text.Stops isSpace rest) (word : List Char) :
    matchSet word part =
      if gap.chars = [] then none
      else ((matchWord word rest).bind matchSpaces).bind fun l =>
        (matchBrackets l).map (key.chars, ·) := by
  by_cases hgap : gap.chars = []
  · simp [matchSet, hk, matchSpaces_none hr, hgap]
  · simp only [matchSet, hk, hgap, if_false, bind_eq_bind, bind_some,
      matchSpaces_append gap hgap hr, bind_assoc, Option.pure_def, map_eq_bind,
      Function.comp_def]

theorem matchNotEquals_eq (hr : Text.Stops isSpace rest) :
    matchNotEquals part = ((matchWord ['!', '='] rest).bind matchValue).map (key.chars, ·) := by
  simp only [matchNotEquals, hk, bind_eq_bind, bind_some,
    dropWhile_append_stops gap.isSpace hr, bind_assoc, Option.pure_def,
    map_eq_bind, Function.comp_def]

theorem matchEquals_eq (hr : Text.Stops isSpace rest) :
    matchEquals part =
      ((matchWord ['='] rest).bind fun l =>
        ((matchWord ['='] l).bind matchValue).or (matchValue l)).map (key.chars, ·) := by
  simp only [matchEquals, hk, bind_eq_bind, bind_some,
    dropWhile_append_stops gap.isSpace hr, bind_assoc, Option.pure_def,
    map_eq_bind, Function.comp_def]

theorem matchExists_eq :
    matchExists part = if gap.chars ++ rest = [] then some key.chars else none := by
  simp [matchExists, hk]

end

theorem matchNotExists_key (key : Key) (l : List Char) : matchNotExists (key.chars ++ l) = none := by
  obtain ⟨chars, hne, hvalid⟩ := key
  cases chars with
  | nil => exact absurd rfl hne
  | cons c chars =>
    have hc : '!' ≠ c := (ne_of_isKeyChar (hvalid c mem_cons_self) (by decide)).symm
    simp only [matchNotExists, cons_append, matchWord_cons_ne hc]
    rfl

end Key

/-! ### The six kinds -/

theorem readPart_exists (key : Key) : readPart (Body.exists key).core = (Body.exists key).reading := by
  have hk : matchKey key.chars = some (key.chars, ({} : Spaces).chars ++ []) := by
    simpa using matchKey_append key (l := []) stops_nil
  have hnot : matchNotExists key.chars = none := by simpa using matchNotExists_key key []
  simp only [Body.core, Body.text, readPart, matchSet_eq hk stops_nil, if_true, hnot,
    matchNotEquals_eq hk stops_nil, matchEquals_eq hk stops_nil, matchExists_eq hk,
    matchWord_nil, bind_none, map_none, append_nil]
  rfl

theorem readPart_notExists (gap : Spaces) (key : Key) :
    readPart (Body.notExists gap key).core = (Body.notExists gap key).reading := by
  have hk : matchKey ('!' :: (gap.chars ++ key.chars)) = none :=
    matchKey_none (stops_cons.mpr (by decide))
  have hspace : Text.Stops isSpace key.chars := by simpa using key.stops_space []
  have hkey : matchKey key.chars = some (key.chars, []) := by
    simpa using matchKey_append key (l := []) stops_nil
  have hnot : matchNotExists ('!' :: (gap.chars ++ key.chars)) = some key.chars := by
    have hword : matchWord ['!'] ('!' :: (gap.chars ++ key.chars)) = some (gap.chars ++ key.chars) :=
      matchWord_append ['!'] _
    simp [matchNotExists, hword, dropWhile_append_stops gap.isSpace hspace, hkey]
  have hset : ∀ word, matchSet word ('!' :: (gap.chars ++ key.chars)) = none := fun word => by
    simp [matchSet, hk]
  simp only [Body.core, Body.text, readPart, hset, hnot]
  rfl

theorem readPart_notEquals (key : Key) (gap gap' : Spaces) (value : Value) :
    readPart (Body.notEquals key gap gap' value).core = (Body.notEquals key gap gap' value).reading := by
  have hk := matchKey_append key (gap.stops_key (l := ['!', '='] ++ valueText gap' value)
    (stops_cons.mpr (by decide)))
  have hr : Text.Stops isSpace (['!', '='] ++ valueText gap' value) :=
    stops_cons.mpr (by decide)
  have hin : matchWord ['i', 'n'] (['!', '='] ++ valueText gap' value) = none :=
    matchWord_cons_ne (by decide) _ _
  have hnotin : matchWord ['n', 'o', 't', 'i', 'n'] (['!', '='] ++ valueText gap' value) = none :=
    matchWord_cons_ne (by decide) _ _
  have heq : matchWord ['='] (['!', '='] ++ valueText gap' value) = none :=
    matchWord_cons_ne (by decide) _ _
  have hsome : gap.chars ++ (['!', '='] ++ valueText gap' value) ≠ [] := by simp
  simp only [Body.core, readPart, matchSet_eq hk hr, hin, hnotin, bind_none, ite_self,
    matchNotExists_key, matchNotEquals_eq hk hr, matchWord_append, bind_some,
    matchValue_valueText, matchEquals_eq hk hr, heq, map_none, matchExists_eq hk, hsome,
    if_false]
  by_cases hv : value.chars = []
  · simp [hv]
  · simp [hv, Key.name]

theorem readPart_key_equals (key : Key) (gap : Spaces) (l : List Char) :
    readPart (key.chars ++ (gap.chars ++ '=' :: l)) =
      (((matchWord ['='] l).bind matchValue).or (matchValue l)).map fun value =>
        .label key.name (String.ofList value) := by
  have hk := matchKey_append key (gap.stops_key (l := '=' :: l) (stops_cons.mpr (by decide)))
  have hr : Text.Stops isSpace ('=' :: l) := stops_cons.mpr (by decide)
  have hin : matchWord ['i', 'n'] ('=' :: l) = none := matchWord_cons_ne (by decide) _ _
  have hnotin : matchWord ['n', 'o', 't', 'i', 'n'] ('=' :: l) = none :=
    matchWord_cons_ne (by decide) _ _
  have hne : matchWord ['!', '='] ('=' :: l) = none := matchWord_cons_ne (by decide) _ _
  have heq : matchWord ['='] ('=' :: l) = some l := matchWord_append ['='] l
  have hsome : gap.chars ++ '=' :: l ≠ [] := by simp
  simp only [readPart, matchSet_eq hk hr, hin, hnotin, bind_none, ite_self,
    matchNotExists_key, matchNotEquals_eq hk hr, hne, map_none, matchEquals_eq hk hr, heq,
    bind_some, matchExists_eq hk, hsome, if_false]
  cases ((matchWord ['='] l).bind matchValue).or (matchValue l) with
  | none => rfl
  | some value => rfl

theorem matchWord_valueText (gap : Spaces) (value : Value) :
    matchWord ['='] (valueText gap value) = none := by
  cases hl : valueText gap value with
  | nil => rfl
  | cons c l =>
    apply matchWord_cons_ne
    rintro rfl
    have hmem : '=' ∈ valueText gap value := by simp [hl]
    unfold valueText at hmem
    split at hmem
    · cases hmem
    · rcases mem_append.mp hmem with h | h
      · exact absurd (gap.isSpace _ h) (by decide)
      · exact absurd (value.valid _ h) (by decide)

theorem readPart_equals (key : Key) (gap : Spaces) (double : Bool) (gap' : Spaces) (value : Value) :
    readPart (Body.equals key gap double gap' value).core =
      (Body.equals key gap double gap' value).reading := by
  cases double with
  | false =>
    have hcore : (Body.equals key gap false gap' value).core =
        key.chars ++ (gap.chars ++ '=' :: valueText gap' value) := rfl
    rw [hcore, readPart_key_equals, matchWord_valueText, matchValue_valueText]
    by_cases hv : value.chars = []
    · simp [hv]
    · simp [hv]
  | true =>
    have hcore : (Body.equals key gap true gap' value).core =
        key.chars ++ (gap.chars ++ '=' :: ('=' :: valueText gap' value)) := rfl
    have heq : matchWord ['='] ('=' :: valueText gap' value) = some (valueText gap' value) :=
      matchWord_append ['='] _
    rw [hcore, readPart_key_equals, heq, bind_some, matchValue_valueText]
    by_cases hv : value.chars = []
    · have hone : matchValue ['='] = some ['='] := by decide
      simp [hv, valueText, hone]
    · simp [hv]

/-! ### The list of values -/

theorem Element.strip_text (e : Element) : strip e.text = e.value.chars := by
  by_cases hv : e.value.chars = []
  · rw [strip, hv, strip_eq_nil_iff]
    intro c hc
    simp only [Element.text, hv, nil_append] at hc
    rcases mem_append.mp hc with h | h
    · exact e.before.isSpace c h
    · exact e.after.isSpace c h
  · exact strip_append e.before.isSpace e.after.isSpace hv e.value.stops_space
      (stops_reverse_of_key e.value.valid)

theorem Element.mem_text {e : Element} (h : c ∈ e.text) : isSpace c = true ∨ isKeyChar c = true := by
  rcases mem_append.mp h with h | h
  · exact .inl (e.before.isSpace c h)
  · rcases mem_append.mp h with h | h
    · exact .inr (e.value.valid c h)
    · exact .inl (e.after.isSpace c h)

theorem Element.ne_of_mem {e : Element} (h : c ∈ e.text) (hs : isSpace d = false) (hk : isKeyChar d = false) :
    c ≠ d := by
  rintro rfl
  rcases e.mem_text h with h | h
  · rw [hs] at h
    cases h
  · rw [hk] at h
    cases h

theorem splitValues_join (first : Element) (rest : List Element) :
    splitValues (join ',' first.text (rest.map (·.text))) = (first :: rest).map fun e => e.value.name := by
  have huncut : ∀ l ∈ first.text :: rest.map (·.text), Text.Uncut (fun c _ => decide (c = ',')) l := by
    intro l hl
    rw [← map_cons] at hl
    obtain ⟨e, -, rfl⟩ := mem_map.mp hl
    rw [← append_nil e.text]
    refine uncut_append (fun c hc more => ?_) uncut_nil
    simpa using e.ne_of_mem hc (by decide) (by decide)
  rw [splitValues, splitBy_join huncut (fun _ _ _ => by simp)]
  simp [Element.strip_text, Function.comp_def]

theorem mem_join {sep : Char} {first : List Char} {rest : List (List Char)}
    (h : c ∈ join sep first rest) : c = sep ∨ ∃ l ∈ first :: rest, c ∈ l := by
  simp only [Text.join, mem_append, mem_flatMap, mem_cons] at h
  rcases h with h | ⟨l, hl, rfl | h⟩
  · exact .inr ⟨first, mem_cons_self, h⟩
  · exact .inl rfl
  · exact .inr ⟨l, mem_cons_of_mem _ hl, h⟩

theorem ne_of_mem_values {first : Element} {rest : List Element}
    (h : c ∈ join ',' first.text (rest.map (·.text))) (hs : isSpace d = false)
    (hk : isKeyChar d = false) (hcomma : ',' ≠ d) : c ≠ d := by
  rcases mem_join h with rfl | ⟨l, hl, hc⟩
  · exact hcomma
  · rw [← map_cons] at hl
    obtain ⟨e, -, rfl⟩ := mem_map.mp hl
    exact e.ne_of_mem hc hs hk

def listText (gap : Spaces) (first : Element) (rest : List Element) : List Char :=
  gap.chars ++ '(' :: (Text.join ',' first.text (rest.map (·.text)) ++ [')'])

theorem matchList (key : List Char) (gap : Spaces) (first : Element) (rest : List Element) :
    ((matchSpaces (listText gap first rest)).bind fun l => (matchBrackets l).map (key, ·)) =
      if gap.chars = [] then none
      else some (key, join ',' first.text (rest.map (·.text))) := by
  have hr : Text.Stops isSpace ('(' :: (join ',' first.text (rest.map (·.text)) ++ [')'])) :=
    stops_cons.mpr (by decide)
  by_cases hgap : gap.chars = []
  · simp [listText, hgap, matchSpaces_none hr]
  · have hb : matchBrackets ('(' :: (join ',' first.text (rest.map (·.text)) ++ [')'])) =
        some (join ',' first.text (rest.map (·.text))) :=
      matchBrackets_append fun c hc => ne_of_mem_values hc (by decide) (by decide) (by decide)
    simp [listText, matchSpaces_append gap hgap hr, hb, hgap]

theorem readPart_key_word (key : Key) (gap : Spaces) (hgap : gap.chars ≠ []) (l : List Char)
    (hc : isKeyChar c = true) :
    readPart (key.chars ++ (gap.chars ++ c :: l)) =
      ((matchSet ['i', 'n'] (key.chars ++ (gap.chars ++ c :: l))).map fun m =>
        .expression (String.ofList m.1) .isIn (splitValues m.2)).or
      ((matchSet ['n', 'o', 't', 'i', 'n'] (key.chars ++ (gap.chars ++ c :: l))).map fun m =>
        .expression (String.ofList m.1) .notIn (splitValues m.2)) := by
  have hk := matchKey_append key (gap.stops_key_of_ne hgap (c :: l))
  have hr : Text.Stops isSpace (c :: l) := stops_cons.mpr (not_isSpace_of_isKeyChar hc)
  have hne : matchWord ['!', '='] (c :: l) = none :=
    matchWord_cons_ne (ne_of_isKeyChar hc (by decide)).symm _ _
  have heq : matchWord ['='] (c :: l) = none :=
    matchWord_cons_ne (ne_of_isKeyChar hc (by decide)).symm _ _
  have hsome : gap.chars ++ c :: l ≠ [] := by simp
  simp only [readPart, matchNotExists_key, matchNotEquals_eq hk hr, hne, bind_none,
    map_none, matchEquals_eq hk hr, heq, matchExists_eq hk, hsome, if_false]
  cases matchSet ['i', 'n'] (key.chars ++ (gap.chars ++ c :: l)) with
  | some m => rfl
  | none =>
    cases matchSet ['n', 'o', 't', 'i', 'n'] (key.chars ++ (gap.chars ++ c :: l)) with
    | some m => rfl
    | none => rfl

theorem readPart_set (key : Key) (gap : Spaces) (hgap : gap.chars ≠ []) (negated : Bool)
    (gap' : Spaces) (first : Element) (rest : List Element) :
    readPart (Body.set key gap hgap negated gap' first rest).core =
      (Body.set key gap hgap negated gap' first rest).reading := by
  cases negated with
  | false =>
    have hcore : (Body.set key gap hgap false gap' first rest).core =
        key.chars ++ (gap.chars ++ (['i', 'n'] ++ listText gap' first rest)) := rfl
    have hk := matchKey_append key (gap.stops_key_of_ne hgap (['i', 'n'] ++ listText gap' first rest))
    have hr : Text.Stops isSpace (['i', 'n'] ++ listText gap' first rest) :=
      stops_cons.mpr (by decide)
    have hin := matchSet_eq hk hr ['i', 'n']
    rw [if_neg hgap, matchWord_append, bind_some, matchList] at hin
    have hnotin := matchSet_eq hk hr ['n', 'o', 't', 'i', 'n']
    rw [if_neg hgap, cons_append, matchWord_cons_ne (by decide)] at hnotin
    rw [hcore, cons_append, readPart_key_word key gap hgap _ (by decide)]
    rw [cons_append] at hin
    rw [hin, hnotin]
    by_cases hgap' : gap'.chars = []
    · simp [hgap']
    · simp [hgap', splitValues_join, Key.name]
  | true =>
    have hcore : (Body.set key gap hgap true gap' first rest).core =
        key.chars ++ (gap.chars ++ (['n', 'o', 't', 'i', 'n'] ++ listText gap' first rest)) := rfl
    have hk := matchKey_append key
      (gap.stops_key_of_ne hgap (['n', 'o', 't', 'i', 'n'] ++ listText gap' first rest))
    have hr : Text.Stops isSpace (['n', 'o', 't', 'i', 'n'] ++ listText gap' first rest) :=
      stops_cons.mpr (by decide)
    have hin := matchSet_eq hk hr ['i', 'n']
    rw [if_neg hgap, cons_append, matchWord_cons_ne (by decide)] at hin
    have hnotin := matchSet_eq hk hr ['n', 'o', 't', 'i', 'n']
    rw [if_neg hgap, matchWord_append, bind_some, matchList] at hnotin
    rw [hcore, cons_append, readPart_key_word key gap hgap _ (by decide)]
    rw [cons_append] at hnotin
    rw [hin, hnotin]
    by_cases hgap' : gap'.chars = []
    · simp [hgap']
    · simp [hgap', splitValues_join, Key.name]

theorem readPart_core (b : Body) : readPart b.core = b.reading := by
  cases b with
  | «exists» key => exact readPart_exists key
  | notExists gap key => exact readPart_notExists gap key
  | equals key gap double gap' value => exact readPart_equals key gap double gap' value
  | notEquals key gap gap' value => exact readPart_notEquals key gap gap' value
  | set key gap hgap negated gap' first rest =>
    exact readPart_set key gap hgap negated gap' first rest

/-! ### The ends of a requirement -/

theorem core_ne_nil (b : Body) : b.core ≠ [] := by
  cases b with
  | «exists» key => exact key.ne
  | notExists gap key => simp
  | equals key gap double gap' value | notEquals key gap gap' value
  | set key gap hgap negated gap' first rest =>
    exact append_ne_nil_of_left_ne_nil key.ne _

theorem core_stops (b : Body) : Text.Stops isSpace b.core := by
  cases b with
  | «exists» key =>
    have hkey := key.stops_space []
    rw [append_nil] at hkey
    exact hkey
  | notExists gap key => exact stops_cons.mpr (by decide)
  | equals key gap double gap' value | notEquals key gap gap' value
  | set key gap hgap negated gap' first rest => exact key.stops_space _

theorem valueText_stops (hl : Text.Stops isSpace l.reverse) (gap : Spaces) (value : Value) :
    Text.Stops isSpace (l ++ valueText gap value).reverse := by
  by_cases hv : value.chars = []
  · simpa [valueText, hv] using hl
  · rw [valueText, if_neg hv, ← append_assoc]
    exact stops_reverse_append hv (stops_reverse_of_key value.valid)

theorem core_stops_reverse (b : Body) : Text.Stops isSpace b.core.reverse := by
  cases b with
  | «exists» key => exact stops_reverse_of_key key.valid
  | notExists gap key =>
    exact stops_reverse_append (l := '!' :: gap.chars) key.ne (stops_reverse_of_key key.valid)
  | equals key gap double gap' value =>
    simp only [Body.core, ← append_assoc]
    refine valueText_stops (stops_reverse_append ?_ ?_) gap' value
    · cases double <;> simp
    · cases double <;> exact stops_cons.mpr (by decide)
  | notEquals key gap gap' value =>
    simp only [Body.core, ← append_assoc]
    refine valueText_stops ?_ gap' value
    exact stops_reverse_append (by simp) (stops_cons.mpr (by decide))
  | set key gap hgap negated gap' first rest =>
    have hend : (Body.set key gap hgap negated gap' first rest).core =
        (key.chars ++ (gap.chars ++ ((if negated then ['n', 'o', 't', 'i', 'n'] else ['i', 'n']) ++
          (gap'.chars ++ '(' :: join ',' first.text (rest.map (·.text)))))) ++ [')'] := by
      simp
    rw [hend]
    exact stops_reverse_append (by simp) (stops_cons.mpr (by decide))

theorem Spelled.strip_text (r : Spelled) : strip r.text = r.body.core := by
  have htrail : ∀ c ∈ r.body.trail.chars ++ r.after.chars, isSpace c = true := by
    intro c hc
    rcases mem_append.mp hc with hc | hc
    · exact r.body.trail.isSpace c hc
    · exact r.after.isSpace c hc
  rw [Spelled.text, r.body.text_eq, append_assoc]
  exact strip_append r.before.isSpace htrail (core_ne_nil r.body) (core_stops r.body)
    (core_stops_reverse r.body)

/-! ## The whole selector -/

/-- A character that `re.split` looks at. -/
def isMark (c : Char) : Bool := c = ',' || c = '(' || c = ')'

theorem closes_append {w : List Char} (hw : ∀ c ∈ w, isMark c = false) (l : List Char) :
    closes (w ++ l) = closes l := by
  have hnone : w.find? (fun c => c = '(' || c = ')') = none := by
    rw [find?_eq_none]
    intro c hc
    have := hw c hc
    simp only [isMark, Bool.or_eq_false_iff] at this
    simp [this]
  rw [closes, find?_append, hnone]
  rfl

theorem unmarked (h : (l.all fun c => !isMark c) = true) : ∀ c ∈ l, isMark c = false := by
  intro c hc
  simpa using all_eq_true.mp h c hc

theorem not_isMark_of_isKeyChar (h : isKeyChar c = true) : isMark c = false := by
  have hne : ∀ d, isKeyChar d = false → c ≠ d := fun d hd => ne_of_isKeyChar h hd
  simp [isMark, hne ',' (by decide), hne '(' (by decide), hne ')' (by decide)]

theorem not_isMark_of_isSpace (h : isSpace c = true) : isMark c = false := by
  have hne : ∀ d, isSpace d = false → c ≠ d := by
    rintro d hd rfl
    rw [h] at hd
    cases hd
  simp [isMark, hne ',' (by decide), hne '(' (by decide), hne ')' (by decide)]

theorem Spelled.text_cases (r : Spelled) :
    (∀ c ∈ r.text, isMark c = false) ∨
    ∃ w values w', r.text = w ++ '(' :: (values ++ ')' :: w') ∧ (∀ c ∈ w, isMark c = false) ∧
      (∀ c ∈ values, c ≠ '(' ∧ c ≠ ')') ∧ ∀ c ∈ w', isMark c = false := by
  have hspaces : ∀ s : Spaces, ∀ c ∈ s.chars, isMark c = false := fun s c hc =>
    not_isMark_of_isSpace (s.isSpace c hc)
  have hkey : ∀ k : Key, ∀ c ∈ k.chars, isMark c = false := fun k c hc =>
    not_isMark_of_isKeyChar (k.valid c hc)
  have hvalue : ∀ v : Value, ∀ c ∈ v.chars, isMark c = false := fun v c hc =>
    not_isMark_of_isKeyChar (v.valid c hc)
  obtain ⟨before, body, after⟩ := r
  cases body with
  | «exists» key =>
    left
    simp only [Spelled.text, Body.text, forall_mem_append]
    exact ⟨hspaces _, hkey _, hspaces _⟩
  | notExists gap key =>
    left
    simp only [Spelled.text, Body.text, forall_mem_append, cons_append, forall_mem_cons]
    exact ⟨hspaces _, by decide, ⟨hspaces _, hkey _⟩, hspaces _⟩
  | equals key gap double gap' value =>
    left
    simp only [Spelled.text, Body.text, forall_mem_append]
    refine ⟨hspaces _, ⟨hkey _, hspaces _, ?_, hspaces _, hvalue _⟩, hspaces _⟩
    cases double <;> exact unmarked (by decide)
  | notEquals key gap gap' value =>
    left
    simp only [Spelled.text, Body.text, forall_mem_append]
    exact ⟨hspaces _, ⟨hkey _, hspaces _, unmarked (by decide), hspaces _, hvalue _⟩, hspaces _⟩
  | set key gap hgap negated gap' first rest =>
    refine .inr ⟨before.chars ++ (key.chars ++ (gap.chars ++
      ((if negated then ['n', 'o', 't', 'i', 'n'] else ['i', 'n']) ++ gap'.chars))),
      join ',' first.text (rest.map (·.text)), after.chars, ?_, ?_, ?_, hspaces _⟩
    · simp [Spelled.text]
    · simp only [forall_mem_append]
      refine ⟨hspaces _, hkey _, hspaces _, ?_, hspaces _⟩
      cases negated <;> exact unmarked (by decide)
    · exact fun c hc => ⟨ne_of_mem_values hc (by decide) (by decide) (by decide),
        ne_of_mem_values hc (by decide) (by decide) (by decide)⟩

theorem Spelled.closes_text (r : Spelled) (hl : closes l = false) : closes (r.text ++ l) = false := by
  rcases r.text_cases with hmark | ⟨w, values, w', htext, hw, -, -⟩
  · rw [closes_append hmark, hl]
  · rw [htext, append_assoc, closes_append hw]
    rfl

theorem closes_join {first : List Char} {rest : List (List Char)}
    (h : ∀ l ∈ first :: rest, ∃ r : Spelled, r.text = l) : closes (join ',' first rest) = false := by
  induction rest generalizing first with
  | nil =>
    obtain ⟨r, rfl⟩ := h first mem_cons_self
    have hr := r.closes_text (l := []) rfl
    rw [append_nil] at hr
    rw [join_nil, hr]
  | cons next rest ih =>
    obtain ⟨r, rfl⟩ := h first mem_cons_self
    rw [join_cons]
    apply r.closes_text
    exact ih fun l hl => h l (mem_cons_of_mem _ hl)

theorem Spelled.uncut_text (r : Spelled) :
    Text.Uncut (fun c rest => decide (c = ',') && !closes rest) r.text := by
  have hmark : ∀ c, isMark c = false → ∀ rest, (decide (c = ',') && !closes rest) = false := by
    intro c hc rest
    simp only [isMark, Bool.or_eq_false_iff] at hc
    simp [hc.1.1]
  -- a comma between the brackets is followed by the closing one
  have hlist : ∀ {values w' : List Char}, (∀ c ∈ values, c ≠ '(' ∧ c ≠ ')') →
      (∀ c ∈ w', isMark c = false) →
      Text.Uncut (fun c rest => decide (c = ',') && !closes rest) (values ++ ')' :: w') := by
    intro values w' hvalues hw'
    induction values with
    | nil =>
      refine uncut_cons.mpr ⟨fun rest => rfl, ?_⟩
      rw [← append_nil w']
      exact uncut_append (fun c hc => hmark c (hw' c hc)) uncut_nil
    | cons c values ih =>
      obtain ⟨-, hvalues⟩ := forall_mem_cons.mp hvalues
      refine uncut_cons.mpr ⟨fun rest => ?_, ih hvalues⟩
      have hfind : values.find? (fun c => c = '(' || c = ')') = none := by
        rw [find?_eq_none]
        intro d hd
        simp [hvalues d hd]
      have hclose : closes (values ++ ')' :: w' ++ rest) = true := by
        rw [closes, append_assoc, find?_append, hfind]
        rfl
      show (decide (c = ',') && !closes (values ++ ')' :: w' ++ rest)) = false
      rw [hclose, Bool.not_true, Bool.and_false]
  rcases r.text_cases with hno | ⟨w, values, w', htext, hw, hvalues, hw'⟩
  · rw [← append_nil r.text]
    exact uncut_append (fun c hc => hmark c (hno c hc)) uncut_nil
  · rw [htext]
    refine uncut_append (fun c hc => hmark c (hw c hc)) ?_
    exact uncut_cons.mpr ⟨fun rest => rfl, hlist hvalues hw'⟩

theorem splitParts_text (first : Spelled) (rest : List Spelled) :
    splitParts (join ',' first.text (rest.map (·.text))) = (first :: rest).map (·.text) := by
  refine splitBy_join (fun l hl => ?_) (fun next rest' hmem => ?_)
  · rw [← map_cons] at hl
    obtain ⟨r, -, rfl⟩ := mem_map.mp hl
    exact r.uncut_text
  · rw [closes_join fun l hl => ?_]
    · rfl
    · obtain ⟨r, -, hr⟩ := mem_map.mp (hmem l hl)
      exact ⟨r, hr⟩

theorem addPart_text (p : Parsed) (r : Spelled) : addPart p r.text = r.body.reading.elim p p.add := by
  unfold addPart
  simp only [r.strip_text, core_ne_nil, if_false, readPart_core]
  cases r.body.reading with
  | none => rfl
  | some item => rfl

def collect (items : List Item) : Parsed := items.foldl Parsed.add {}

theorem foldl_addPart (p : Parsed) (rs : List Spelled) :
    (rs.map (·.text)).foldl addPart p = (rs.filterMap (·.body.reading)).foldl Parsed.add p := by
  induction rs generalizing p with
  | nil => rfl
  | cons r rs ih =>
    rw [map_cons, foldl_cons, addPart_text, ih, filterMap_cons]
    cases r.body.reading with
    | none => rfl
    | some item => rfl

theorem isBlank_text (s : Selector) : isBlank (String.ofList s.text) = s.bodies.isEmpty := by
  cases s with
  | blank spaces =>
    have hnil : strip spaces.chars = [] := strip_eq_nil_iff.mpr spaces.isSpace
    simp [isBlank, Selector.text, hnil]
  | list first rest =>
    have hne : strip (Selector.list first rest).text ≠ [] := by
      intro hnil
      have hall := strip_eq_nil_iff.mp hnil
      have hstrip : strip first.text = [] := by
        refine Text.strip_eq_nil_iff.mpr fun c hc => hall c ?_
        simp [Selector.text, Text.join, hc]
      exact core_ne_nil first.body (first.strip_text ▸ hstrip)
    simp [isBlank, hne]

theorem parseLabelSelector_text (s : Selector) :
    parseLabelSelector (String.ofList s.text) = collect (s.bodies.filterMap (·.reading)) := by
  rw [parseLabelSelector, isBlank_text]
  cases s with
  | blank spaces => rfl
  | list first rest =>
    simp only [Selector.bodies, map_cons, isEmpty_cons, Bool.false_eq_true, if_false,
      String.toList_ofList, Selector.text, splitParts_text]
    rw [← map_cons, foldl_addPart, ← map_cons, filterMap_map]
    rfl

example : parseLabelSelector "board == rcar, env in (prod, ),rev!=,site==" =
    ⟨[("board", "rcar"), ("site", "=")], [("env", .isIn, ["prod", ""])]⟩ := by
  decide +kernel

end Jumpstarter.Selectors
