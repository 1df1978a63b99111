import Jumpstarter.Lib.Replace
import Jumpstarter.Lib.Text

/-!
# The words of a command line

How a POSIX shell splits a line into words: blanks end a word, single quotes take every character as it is,
double quotes all but `$`, the backquote and the backslash, a backslash the next character. A line with an
unquoted character that makes something else than a word (an operator, an expansion, a pattern, a comment) or
with an open quote has no words here: `split` is `none`.

* `run_quoted`: inside single quotes, a text in which each single quote is written `'"'"'` is read as the text.
* `split_join`: the words of parts that are joined with blanks are the words of the parts.
-/

namespace Jumpstarter.Lib.Shell

open List

inductive Mode where
  | plain
  | escaped
  | single
  | double
  | doubleEscaped
  deriving DecidableEq

structure St where
  words : List (List Char) := []
  word : Option (List Char) := none
  mode : Mode := .plain

def quote : Char := '\x27'

/-- The characters that have a meaning outside of quotes, besides quotes, blanks and the backslash. -/
def special : List Char :=
  ['|', '&', ';', '<', '>', '(', ')', '$', '\x60', '*', '?', '[', '#', '~', '=', '%', '\n']

def St.push (s : St) (c : Char) : St := { s with word := some (s.word.getD [] ++ [c]) }

def St.blank (s : St) : St := { s with words := s.words ++ s.word.toList, word := none }

def St.enter (s : St) (mode : Mode) : St := { s with word := some (s.word.getD []), mode := mode }

def step (s : St) (c : Char) : Option St :=
  match s.mode with
  | .plain =>
    if c = ' ' ∨ c = '\t' then some s.blank
    else if c = quote then some (s.enter .single)
    else if c = '"' then some (s.enter .double)
    else if c = '\\' then some { s with mode := .escaped }
    else if c ∈ special then none
    else some (s.push c)
  | .escaped => some { (if c = '\n' then s else s.push c) with mode := .plain }
  | .single => some (if c = quote then { s with mode := .plain } else s.push c)
  | .double =>
    if c = '"' then some { s with mode := .plain }
    else if c = '\\' then some { s with mode := .doubleEscaped }
    else if c = '$' ∨ c = '\x60' then none
    else some (s.push c)
  | .doubleEscaped =>
    if c = '\n' then some { s with mode := .double }
    else if c ∈ ['$', '\x60', '"', '\\'] then some { s.push c with mode := .double }
    else some { (s.push '\\').push c with mode := .double }

def run (s : St) (text : List Char) : Option St := text.foldlM step s

def finish (s : St) : Option (List (List Char)) :=
  if s.mode = .plain then some s.blank.words else none

def split (text : List Char) : Option (List (List Char)) := (run {} text).bind finish

@[simp] theorem run_nil (s : St) : run s [] = some s := rfl

@[simp] theorem run_cons (s : St) (c : Char) (text : List Char) :
    run s (c :: text) = (step s c).bind fun s' => run s' text := rfl

theorem run_append (s : St) (text rest : List Char) :
    run s (text ++ rest) = (run s text).bind fun s' => run s' rest :=
  foldlM_append

/-! ## Quoting -/

/-- `text.replace("'", "'\"'\"'")`. -/
def quoted (text : List Char) : List Char := replaceAll [quote] [quote, '"', quote, '"', quote] text

theorem quoted_append (text rest : List Char) : quoted (text ++ rest) = quoted text ++ quoted rest := by
  simp only [quoted, replaceAll_singleton, flatMap_append]

theorem quoted_of_not_mem {text : List Char} (h : quote ∉ text) : quoted text = text :=
  replaceAll_of_not_mem h

theorem run_quoted (words : List (List Char)) (word text : List Char) :
    run ⟨words, some word, .single⟩ (quoted text) = some ⟨words, some (word ++ text), .single⟩ := by
  induction text generalizing word with
  | nil => simp [quoted]
  | cons c text ih =>
    rw [← singleton_append, quoted_append, run_append]
    have hc : run ⟨words, some word, .single⟩ (quoted [c]) = some ⟨words, some (word ++ [c]), .single⟩ := by
      by_cases h : c = quote
      · subst h
        rfl
      · rw [quoted_of_not_mem (by simpa using Ne.symm h)]
        simp [step, h, St.push]
    rw [hc, Option.bind_some, ih, append_assoc, singleton_append]

/-! ## Parts -/

/-- A part of a line: it is read as the words `before` and a last one. -/
def Reads (part : List Char) (before : List (List Char)) (last : List Char) : Prop :=
  ∀ words, run ⟨words, none, .plain⟩ part = some ⟨words ++ before, some last, .plain⟩

structure Part where
  text : List Char
  before : List (List Char)
  last : List Char
  reads : Reads text before last

def Part.words (p : Part) : List (List Char) := p.before ++ [p.last]

theorem run_parts (parts : List Part) (words : List (List Char)) (word : List Char) :
    ∃ s, run ⟨words, some word, .plain⟩ (parts.flatMap fun p => ' ' :: p.text) = some s ∧
      finish s = some (words ++ word :: parts.flatMap Part.words) := by
  induction parts generalizing words word with
  | nil => exact ⟨_, rfl, rfl⟩
  | cons p parts ih =>
    obtain ⟨s, hrun, hfinish⟩ := ih (words ++ [word] ++ p.before) p.last
    refine ⟨s, ?_, ?_⟩
    · have hblank : step ⟨words, some word, .plain⟩ ' ' = some ⟨words ++ [word], none, .plain⟩ := rfl
      rw [flatMap_cons, cons_append, run_cons, hblank, Option.bind_some, run_append,
        p.reads, Option.bind_some, hrun]
    · rw [hfinish]
      simp [Part.words]

theorem split_join (first : Part) (rest : List Part) :
    split (Text.join ' ' first.text (rest.map Part.text)) =
      some (first.words ++ rest.flatMap Part.words) := by
  obtain ⟨s, hrun, hfinish⟩ := run_parts rest first.before first.last
  rw [split, Text.join, flatMap_map, run_append, first.reads, Option.bind_some, nil_append, hrun,
    Option.bind_some, hfinish, Part.words, append_assoc, singleton_append]

end Jumpstarter.Lib.Shell
