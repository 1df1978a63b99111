import Mathlib

/-!
# Resource names of OIDC users (`normalizeOIDCUsername`)

The prefix of the provider is stripped, the rest is written in lower case, and what does not belong into a name
becomes a hyphen. Runs of hyphens are collapsed before the hyphens at the ends are removed, one at each end, so that
none is left there (`trimmed_surroundingHyphen`); the same holds after the name is cut.

`normalizeOIDCUsername_isName`: the result is a name, and it is normalized to itself.
-/

namespace Jumpstarter.Authorization

open List

/-- `[-a-z0-9]`. -/
def isNameChar (c : Char) : Bool := c.isLower || c.isDigit || c = '-'

/-- `unicode.ToLower`, by which `strings.ToLower` maps each character. -/
structure Unicode where
  toLower : Char → Char
  isUpper_toLower : ∀ c, (toLower c).isUpper = false
  toLower_name : ∀ c, isNameChar c = true → toLower c = c

def stripOIDCPrefix (username : List Char) : List Char :=
  let parts := username.splitOn ':'
  if parts.length = 1 then username
  else if parts.length ≥ 5 ∧ parts[1]? = some "system".toList ∧ parts[2]? = some "serviceaccount".toList then
    parts.getD 3 [] ++ ':' :: parts.getD 4 []
  else [':'].intercalate parts.tail

/-- What `[^-a-zA-Z0-9]` matches is replaced. -/
def invalidChar (c : Char) : Char := if c.isAlphanum || c = '-' then c else '-'

abbrev Apart (a b : Char) : Prop := ¬(a = '-' ∧ b = '-')

def trimStart (s : List Char) : List Char := if s.head? = some '-' then s.tail else s

def trimEnd (s : List Char) : List Char := if s.getLast? = some '-' then s.dropLast else s

/-- What `^-|-$` matches is removed. -/
def surroundingHyphen (s : List Char) : List Char := trimEnd (trimStart s)

/-- `-+` is replaced by a hyphen: of a run the first one is kept. When the text is cut it is ASCII. -/
def normalizeOIDCUsername (u : Unicode) (username : List Char) : List Char :=
  let sanitized := ((stripOIDCPrefix username).map u.toLower).map invalidChar
  let sanitized := surroundingHyphen (sanitized.destutter Apart)
  if sanitized.length > 63 then surroundingHyphen (sanitized.take 63) else sanitized

/-- No hyphen at an end, and no two beside each other. -/
structure Trimmed (s : List Char) : Prop where
  head : s.head? ≠ some '-'
  last : s.getLast? ≠ some '-'
  apart : s.IsChain Apart

structure IsName (s : List Char) : Prop extends Trimmed s where
  chars : ∀ c ∈ s, isNameChar c = true
  length : s.length ≤ 63

theorem isNameChar_invalidChar (u : Unicode) (c : Char) : isNameChar (invalidChar (u.toLower c)) = true := by
  unfold invalidChar
  split
  · rename_i h
    simpa [isNameChar, Char.isAlphanum, Char.isAlpha, u.isUpper_toLower] using h
  · rfl

theorem invalidChar_eq {c : Char} (h : isNameChar c = true) : invalidChar c = c := by
  refine if_pos ?_
  simp only [isNameChar, Char.isAlphanum, Char.isAlpha, Bool.or_eq_true] at h ⊢
  tauto

variable {s : List Char}

theorem trimStart_suffix (s : List Char) : trimStart s <:+ s := by
  unfold trimStart
  split
  · exact s.tail_suffix
  · exact suffix_rfl

theorem trimEnd_prefix (s : List Char) : trimEnd s <+: s := by
  unfold trimEnd
  split
  · exact s.dropLast_prefix
  · exact prefix_rfl

theorem head_trimStart (h : s.IsChain Apart) : (trimStart s).head? ≠ some '-' := by
  unfold trimStart
  split
  · rename_i hhead
    obtain ⟨l, rfl⟩ := head?_eq_some_iff.mp hhead
    exact fun hl => (isChain_cons.mp h).1 '-' hl ⟨rfl, rfl⟩
  · assumption

theorem last_trimEnd (h : s.IsChain Apart) : (trimEnd s).getLast? ≠ some '-' := by
  unfold trimEnd
  split
  · rename_i hlast
    obtain ⟨l, rfl⟩ := getLast?_eq_some_iff.mp hlast
    rw [dropLast_concat]
    exact fun hl => (isChain_append.mp h).2.2 '-' hl '-' rfl ⟨rfl, rfl⟩
  · assumption

theorem trimmed_surroundingHyphen (h : s.IsChain Apart) : Trimmed (surroundingHyphen s) := by
  have hstart : (trimStart s).IsChain Apart := h.suffix (trimStart_suffix s)
  refine ⟨fun hhead => head_trimStart h ?_, last_trimEnd hstart, hstart.prefix ( trimEnd_prefix _)⟩
  obtain ⟨l, hl⟩ := trimEnd_prefix (trimStart s)
  obtain ⟨l', hl'⟩ := head?_eq_some_iff.mp hhead
  rw [← hl, show trimEnd (trimStart s) = _ from hl']
  rfl

theorem surroundingHyphen_eq (h : Trimmed s) : surroundingHyphen s = s := by
  simp [surroundingHyphen, trimStart, trimEnd, h.head, h.last]

theorem surroundingHyphen_sublist (s : List Char) : (surroundingHyphen s).Sublist s :=
  ( trimEnd_prefix _).sublist.trans (trimStart_suffix s).sublist

theorem isName_normalizeOIDCUsername (u : Unicode) (username : List Char) :
    IsName (normalizeOIDCUsername u username) := by
  unfold normalizeOIDCUsername
  generalize hs : ((stripOIDCPrefix username).map u.toLower).map invalidChar = sanitized
  have htrimmed := trimmed_surroundingHyphen (isChain_destutter Apart sanitized)
  have hchars : ∀ c ∈ surroundingHyphen (sanitized.destutter Apart), isNameChar c = true := by
    intro c hc
    have hmem := (destutter_sublist Apart _).subset ((surroundingHyphen_sublist _).subset hc)
    rw [← hs, map_map] at hmem
    obtain ⟨c, -, rfl⟩ := mem_map.mp hmem
    exact isNameChar_invalidChar u c
  simp only
  split
  · refine ⟨trimmed_surroundingHyphen (htrimmed.apart.take 63), fun c hc => hchars c ?_, ?_⟩
    · exact mem_of_mem_take ((surroundingHyphen_sublist _).subset hc)
    · exact (surroundingHyphen_sublist _).length_le.trans (length_take_le _ _)
  · exact ⟨htrimmed, hchars, Nat.le_of_not_lt ‹_›⟩

theorem normalizeOIDCUsername_eq (u : Unicode) (h : IsName s) : normalizeOIDCUsername u s = s := by
  have hcolon : ':' ∉ s := fun hc => absurd (h.chars _ hc) (by decide)
  have hstrip : stripOIDCPrefix s = s := by
    simp [stripOIDCPrefix, splitOn_eq_singleton hcolon]
  have hmap : (s.map u.toLower).map invalidChar = s := by
    rw [map_map]
    refine (map_congr_left fun c hc => ?_).trans s.map_id
    rw [Function.comp_apply, u.toLower_name c (h.chars c hc)]
    exact invalidChar_eq (h.chars c hc)
  simp only [normalizeOIDCUsername, hstrip, hmap, destutter_of_isChain _ _ h.apart,
    surroundingHyphen_eq h.toTrimmed]
  exact if_neg (by have := h.length; omega)

/-- **OIDC names are safe resource names.** -/
theorem normalizeOIDCUsername_isName (u : Unicode) (username : List Char) :
    IsName (normalizeOIDCUsername u username) ∧
      normalizeOIDCUsername u (normalizeOIDCUsername u username) = normalizeOIDCUsername u username :=
  ⟨isName_normalizeOIDCUsername u username, normalizeOIDCUsername_eq u (isName_normalizeOIDCUsername u username)⟩

/-- The lower case of ASCII. -/
def ascii : Unicode where
  toLower := Char.toLower
  isUpper_toLower c := by
    unfold Char.toLower Char.isUpper
    split <;> rename_i h
    · grind
    · simpa using h
  toLower_name c h := by
    refine dif_neg fun hupper => ?_
    simp only [isNameChar, Char.isLower, Char.isDigit, Bool.or_eq_true, decide_eq_true_eq] at h
    rcases h with (h | h) | rfl
    · grind
    · grind
    · exact absurd hupper (by decide)

example : normalizeOIDCUsername ascii "dex:foo@example.com".toList = "foo-example-com".toList := by decide

end Jumpstarter.Authorization
