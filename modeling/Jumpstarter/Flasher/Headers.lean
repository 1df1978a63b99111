import Jumpstarter.Client.Selectors
import Jumpstarter.Lib.Shell

/-!
# HTTP headers on the command line of the flasher

`_validate_header_dict`, `_validate_bearer_token`, `_prepare_headers` and `_curl_header_args` of
`jumpstarter_driver_flashers/client.py`. The headers and the bearer token of a download become arguments of
`curl` in a line that the shell of the device reads.

A header map is a dict in its order (`Lib.Dict`); `None` is the empty map, and a token that is empty is no
token. Header names are ASCII once they are validated, so `lower` is that of ASCII.

* `split_curlHeaderArgs`: the shell reads back the headers, whatever quotes are in them.
* `headersSurvive_iff`: with a token, a header map that has an authorization header must have it under the key
  `Authorization`. Under another letter case a `KeyError` is raised, and with blanks around it the token is sent
  too.
-/

namespace Jumpstarter.FlasherHeaders

open Lib List
open Selectors (isSpace strip)

abbrev Chars := List Char

/-! ## The code -/

inductive HeaderError where
  | invalidKey (key : Chars)
  | invalidName (key : Chars)
  | lineBreak
  | duplicate (key : Chars)
  deriving DecidableEq

/-- The text of the `ArgumentError`. -/
def HeaderError.message : HeaderError → String
  | .invalidKey key => "Invalid header key: '" ++ String.ofList key ++ "'"
  | .invalidName key =>
    "Invalid header name '" ++ String.ofList key ++ "': must be an HTTP token (RFC7230)"
  | .lineBreak => "Header names/values must not contain CR/LF"
  | .duplicate key => "Duplicate header '" ++ String.ofList key ++ "'"

/-- The characters of `token_re`. -/
def isTokenChar (c : Char) : Bool := c.isAlphanum ||
  ['!', '#', '$', '%', '&', Shell.quote, '*', '+', '-', '.', '^', '_', '\x60', '|', '~'].contains c

def isLineBreak (c : Char) : Bool := c = '\r' || c = '\n'

def lower (text : Chars) : Chars := text.map Char.toLower

/-- The loop of `_validate_header_dict`. -/
def validateLoop : List Chars → List (String × Chars) → Except HeaderError Unit
  | _, [] => .ok ()
  | seen, (key, value) :: headers =>
    let key := strip key.toList
    let value := strip value
    if key = [] then .error (.invalidKey key)
    else if key.all isTokenChar = false then .error (.invalidName key)
    else if key.any isLineBreak || value.any isLineBreak then .error .lineBreak
    else if lower key ∈ seen then .error (.duplicate key)
    else validateLoop (lower key :: seen) headers

def validateHeaderDict (headers : List (String × Chars)) : Except HeaderError (List (String × Chars)) :=
  (validateLoop [] headers).map fun _ => headers

inductive TokenError where
  | empty
  | invalidCharacters
  | tooLong
  deriving DecidableEq

/-- The text of the `ClickException`. -/
def TokenError.message : TokenError → String
  | .empty => "Bearer token cannot be empty"
  | .invalidCharacters => "Bearer token contains invalid characters"
  | .tooLong => "Bearer token is too long (max 4096 characters)"

def isBearerChar (c : Char) : Bool := 32 < c.toNat && c.toNat < 127 && !List.contains [' ', '"', '\\'] c

def validateBearerToken : Option Chars → Except TokenError (Option Chars)
  | none => .ok none
  | some token =>
    let token := strip token
    if token = [] then .error .empty
    else if token.all isBearerChar = false then .error .invalidCharacters
    else if 4096 < token.length then .error .tooLong
    else .ok (some token)

/-- The option of `curl` for a header. -/
def headerOption (key value : Chars) : Chars :=
  ['-', 'H', ' ', Shell.quote] ++ (Shell.quoted key ++ [':', ' '] ++ Shell.quoted value ++ [Shell.quote])

def headerPart (header : String × Chars) : Option Chars :=
  let key := strip header.1.toList
  if key = [] then none else some (headerOption key (strip header.2))

/-- `" ".join(parts)`. -/
def joined : List Chars → Chars
  | [] => []
  | part :: parts => Text.join ' ' part parts

def curlHeaderArgs (headers : List (String × Chars)) : Chars := joined (headers.filterMap headerPart)

inductive PrepareError where
  | keyError
  | argumentError (e : HeaderError)

/-- `k.lower() == "authorization"`. -/
def isAuthorization (key : Chars) : Bool := lower key = "authorization".toList

def bearer (token : Chars) : Chars := ['B', 'e', 'a', 'r', 'e', 'r', ' '] ++ token

def allHeaders (headers : List (String × Chars)) (token : Chars) : List (String × Chars) :=
  if headers.any fun header => isAuthorization header.1.toList then headers
  else Dict.set headers "Authorization" (bearer token)

def prepareHeaders (headers : List (String × Chars)) : Option Chars → Except PrepareError Chars
  | none | some [] => .ok (curlHeaderArgs headers)
  | some token =>
    let all := allHeaders headers token
    if "Authorization" ∈ Dict.keys headers then .ok (curlHeaderArgs all)
    else match Dict.get all "Authorization" with
      | none => .error .keyError
      | some value => match validateHeaderDict [("Authorization", value)] with
        | .error e => .error (.argumentError e)
        | .ok _ => .ok (curlHeaderArgs all)

/-! ## The words of the line -/

def headerWords (header : String × Chars) : List Chars :=
  [['-', 'H'], strip header.1.toList ++ [':', ' '] ++ strip header.2]

theorem reads_headerOption (key value : Chars) :
    Shell.Reads (headerOption key value) [['-', 'H']] (key ++ [':', ' '] ++ value) := by
  intro words
  have hoption : Shell.run ⟨words, none, .plain⟩ ['-', 'H', ' ', Shell.quote] =
      some ⟨words ++ [['-', 'H']], some [], .single⟩ := rfl
  have hcolon : Shell.quoted [':', ' '] = [':', ' '] := rfl
  rw [headerOption, Shell.run_append, hoption, Option.bind_some, ← hcolon, ← Shell.quoted_append,
    ← Shell.quoted_append, Shell.run_append, Shell.run_quoted, hcolon]
  rfl

def shellPart (header : String × Chars) : Shell.Part :=
  ⟨headerOption (strip header.1.toList) (strip header.2), _, _, reads_headerOption _ _⟩

theorem split_curlHeaderArgs {headers : List (String × Chars)}
    (h : ∀ header ∈ headers, strip header.1.toList ≠ []) :
    Shell.split (curlHeaderArgs headers) = some (headers.flatMap headerWords) := by
  have hparts : headers.filterMap headerPart = headers.map fun header => (shellPart header).text := by
    rw [← filterMap_eq_map]
    refine filterMap_congr fun header hmem => ?_
    rw [headerPart, if_neg (h header hmem)]
    rfl
  rw [curlHeaderArgs, hparts]
  cases headers with
  | nil => rfl
  | cons header headers =>
    have hsplit := Shell.split_join (shellPart header) (headers.map shellPart)
    rw [map_map, flatMap_map] at hsplit
    exact hsplit

/-! ## Accepted headers and tokens -/

def headerName (header : String × Chars) : Chars := lower (strip header.1.toList)

theorem validateLoop_ok {seen : List Chars} {headers : List (String × Chars)}
    (h : validateLoop seen headers = .ok ()) :
    (∀ header ∈ headers, strip header.1.toList ≠ []) ∧ (∀ header ∈ headers, headerName header ∉ seen) ∧
    (headers.map headerName).Nodup := by
  induction headers generalizing seen with
  | nil => simp
  | cons header headers ih =>
    simp only [validateLoop] at h
    split at h
    · cases h
    · rename_i hne
      split at h
      · cases h
      · split at h
        · cases h
        · split at h
          · cases h
          · rename_i hseen
            obtain ⟨hnil, hfresh, hnodup⟩ := ih h
            refine ⟨forall_mem_cons.mpr ⟨hne, hnil⟩, forall_mem_cons.mpr ⟨hseen, ?_⟩, ?_⟩
            · exact fun header hmem hin => hfresh header hmem (mem_cons_of_mem _ hin)
            · refine nodup_cons.mpr ⟨fun hin => ?_, hnodup⟩
              obtain ⟨header, hmem, heq⟩ := mem_map.mp hin
              exact hfresh header hmem (heq ▸ mem_cons_self)

theorem validateHeaderDict_ok {headers : List (String × Chars)} (h : validateHeaderDict headers = .ok headers) :
    (∀ header ∈ headers, strip header.1.toList ≠ []) ∧ (headers.map headerName).Nodup := by
  unfold validateHeaderDict at h
  cases hloop : validateLoop [] headers with
  | error e =>
    rw [hloop] at h
    cases h
  | ok u =>
    obtain ⟨hnil, -, hnodup⟩ := validateLoop_ok hloop
    exact ⟨hnil, hnodup⟩

theorem validateBearerToken_ok {raw : Option Chars} {token : Chars}
    (h : validateBearerToken raw = .ok (some token)) : token ≠ [] ∧ ∀ c ∈ token, isBearerChar c = true := by
  cases raw with
  | none => cases h
  | some raw =>
    simp only [validateBearerToken] at h
    split at h
    · cases h
    · rename_i hne
      split at h
      · cases h
      · rename_i hall
        split at h <;> cases h
        refine ⟨hne, ?_⟩
        simpa using hall

variable {c : Char}

theorem isBearerChar_bounds (h : isBearerChar c = true) : 32 < c.toNat ∧ c.toNat < 127 := by
  simp only [isBearerChar, Bool.and_eq_true, decide_eq_true_eq] at h
  exact h.1

theorem not_isSpace_of_isBearerChar (h : isBearerChar c = true) : isSpace c = false := by
  have hbounds := isBearerChar_bounds h
  simp only [isSpace, Bool.or_eq_false_iff, Bool.and_eq_false_iff, decide_eq_false_iff_not]
  omega

theorem not_isLineBreak_of_isBearerChar (h : isBearerChar c = true) : isLineBreak c = false := by
  have hbounds := isBearerChar_bounds h
  simp only [isLineBreak, Bool.or_eq_false_iff, decide_eq_false_iff_not]
  refine ⟨?_, ?_⟩ <;> rintro rfl <;> revert hbounds <;> decide

section
variable {token : Chars} (hne : token ≠ []) (hchars : ∀ c ∈ token, isBearerChar c = true)
include hne hchars

theorem strip_bearer : strip (bearer token) = bearer token := by
  refine Text.strip_of_stops (Text.stops_cons.mpr rfl) ?_
  rw [bearer, reverse_append]
  cases hrev : token.reverse with
  | nil => exact absurd (reverse_eq_nil_iff.mp hrev) hne
  | cons c l =>
    have hc : c ∈ token := mem_reverse.mp (hrev ▸ mem_cons_self)
    exact Text.stops_cons.mpr (not_isSpace_of_isBearerChar (hchars c hc))

theorem validateHeaderDict_bearer :
    validateHeaderDict [("Authorization", bearer token)] = .ok [("Authorization", bearer token)] := by
  have hkey : strip "Authorization".toList = "Authorization".toList := by decide +kernel
  have hbreak : (bearer token).any isLineBreak = false := by
    rw [bearer, any_append]
    have htoken : token.any isLineBreak = false := by
      rw [any_eq_false]
      intro c hc
      rw [not_isLineBreak_of_isBearerChar (hchars c hc)]
      exact Bool.false_ne_true
    rw [htoken]
    rfl
  have hname : "Authorization".toList ≠ [] ∧ "Authorization".toList.all isTokenChar = true ∧
      "Authorization".toList.any isLineBreak = false := by decide +kernel
  simp only [validateHeaderDict, validateLoop, hkey, strip_bearer hne hchars, if_neg hname.1, hname.2, hbreak]
  rfl

end

/-! ## The authorization header -/

/-- The header is named `authorization`, in any letter case. -/
def named (header : String × Chars) : Bool := isAuthorization (strip header.1.toList)

theorem toLower_of_isSpace (h : isSpace c = true) : c.toLower = c := by
  refine dif_neg fun hupper => ?_
  have hlow : 65 ≤ c.toNat := hupper.1
  have hhigh : c.toNat ≤ 90 := hupper.2
  simp only [isSpace, Bool.or_eq_true, Bool.and_eq_true, decide_eq_true_eq] at h
  omega

theorem not_isSpace_of_isAuthorization {key : Chars} (h : isAuthorization key = true) :
    ∀ c ∈ key, isSpace c = false := by
  intro c hc
  by_contra hspace
  rw [Bool.not_eq_false] at hspace
  have hmem : c ∈ "authorization".toList := by
    rw [← of_decide_eq_true h, ← toLower_of_isSpace hspace]
    exact mem_map_of_mem hc
  have hletters : "authorization".toList.all (fun c => !isSpace c) = true := by decide +kernel
  have hletter := all_eq_true.mp hletters c hmem
  rw [hspace] at hletter
  cases hletter

theorem strip_of_isAuthorization {key : Chars} (h : isAuthorization key = true) : strip key = key := by
  have hspace := not_isSpace_of_isAuthorization h
  refine Text.strip_of_stops (Text.stops_of_forall hspace) (Text.stops_of_forall fun c hc => ?_)
  exact hspace c (mem_reverse.mp hc)

def tokenWords (headers : List (String × Chars)) : Option Chars → List Chars
  | none => []
  | some token =>
    if headers.any named then []
    else [['-', 'H'], "Authorization".toList ++ [':', ' '] ++ bearer token]

/-- The line is made, and the shell reads from it the headers in their order, and the token if it is to be
sent. -/
def HeadersSurvive (headers : List (String × Chars)) (token : Option Chars) : Prop :=
  ∃ line, prepareHeaders headers token = .ok line ∧
    Shell.split line = some (headers.flatMap headerWords ++ tokenWords headers token)

section
variable {headers : List (String × Chars)} {token : Chars}

theorem prepareHeaders_some (hne : token ≠ []) :
    prepareHeaders headers (some token) =
      if "Authorization" ∈ Dict.keys headers then .ok (curlHeaderArgs (allHeaders headers token))
      else match Dict.get (allHeaders headers token) "Authorization" with
        | none => .error .keyError
        | some value => match validateHeaderDict [("Authorization", value)] with
          | .error e => .error (.argumentError e)
          | .ok _ => .ok (curlHeaderArgs (allHeaders headers token)) := by
  cases token with
  | nil => exact absurd rfl hne
  | cons c token => rfl

theorem headersSurvive_of_any (hheaders : validateHeaderDict headers = .ok headers) (hne : token ≠ [])
    (hany : headers.any (fun header => isAuthorization header.1.toList) = true) :
    HeadersSurvive headers (some token) ↔ "Authorization" ∈ Dict.keys headers := by
  obtain ⟨hnames, -⟩ := validateHeaderDict_ok hheaders
  have hall : allHeaders headers token = headers := if_pos hany
  have htoken : tokenWords headers (some token) = [] := by
    refine if_pos ?_
    obtain ⟨header, hmem, hauth⟩ := any_eq_true.mp hany
    refine any_eq_true.mpr ⟨header, hmem, ?_⟩
    rw [named, strip_of_isAuthorization hauth, hauth]
  unfold HeadersSurvive
  rw [prepareHeaders_some hne, hall, htoken, append_nil]
  by_cases hkey : "Authorization" ∈ Dict.keys headers
  · rw [if_pos hkey]
    exact ⟨fun _ => hkey, fun _ => ⟨_, rfl, split_curlHeaderArgs hnames⟩⟩
  · rw [if_neg hkey, Dict.get_eq_none hkey]
    refine ⟨?_, fun h => absurd h hkey⟩
    rintro ⟨line, hline, -⟩
    cases hline

theorem headersSurvive_of_not_any (hheaders : validateHeaderDict headers = .ok headers) (hne : token ≠ [])
    (hchars : ∀ c ∈ token, isBearerChar c = true)
    (hany : headers.any (fun header => isAuthorization header.1.toList) = false) :
    HeadersSurvive headers (some token) ↔ headers.any named = false := by
  obtain ⟨hnames, -⟩ := validateHeaderDict_ok hheaders
  have hkey : "Authorization" ∉ Dict.keys headers := by
    intro hkey
    obtain ⟨header, hmem, hheader⟩ := mem_map.mp hkey
    have hauth := any_eq_false.mp hany header hmem
    rw [hheader] at hauth
    exact hauth (by decide +kernel)
  have hall : allHeaders headers token = headers ++ [("Authorization", bearer token)] := by
    rw [allHeaders, hany]
    exact Dict.set_of_not_mem hkey _
  have hget : Dict.get (allHeaders headers token) "Authorization" = some (bearer token) := by
    rw [allHeaders, hany]
    exact (Dict.get_set ..).trans (if_pos rfl)
  have hstrip : strip "Authorization".toList = "Authorization".toList := by decide +kernel
  have hsplit : Shell.split (curlHeaderArgs (allHeaders headers token)) = some (headers.flatMap headerWords ++
      [['-', 'H'], "Authorization".toList ++ [':', ' '] ++ bearer token]) := by
    rw [hall, split_curlHeaderArgs, flatMap_append]
    · simp only [flatMap_cons, flatMap_nil, append_nil, headerWords, hstrip, strip_bearer hne hchars]
    · refine forall_mem_append.mpr ⟨hnames, fun header hmem => ?_⟩
      obtain rfl := mem_singleton.mp hmem
      rw [hstrip]
      decide +kernel
  unfold HeadersSurvive
  rw [prepareHeaders_some hne, if_neg hkey, hget]
  simp only [validateHeaderDict_bearer hne hchars]
  constructor
  · rintro ⟨line, hline, hwords⟩
    cases hline
    rw [hsplit, Option.some.injEq, append_cancel_left_eq] at hwords
    by_contra hnamed
    rw [tokenWords, if_pos (by simpa using hnamed)] at hwords
    cases hwords
  · intro hnamed
    refine ⟨_, rfl, ?_⟩
    rw [hsplit, tokenWords, hnamed]
    rfl

end

theorem eq_of_named {headers : List (String × Chars)} (hnodup : (headers.map headerName).Nodup)
    {header other : String × Chars} (hmem : header ∈ headers) (hother : other ∈ headers)
    (h : named header = true) (h' : named other = true) : header = other :=
  inj_on_of_nodup_map hnodup hmem hother ((of_decide_eq_true h).trans (of_decide_eq_true h').symm)

/-- **Accepted headers and an accepted token survive the shell** exactly if, with a token, an authorization
header of the map has the key `Authorization`. -/
theorem headersSurvive_iff (headers : List (String × Chars)) (raw token : Option Chars)
    (hheaders : validateHeaderDict headers = .ok headers) (htoken : validateBearerToken raw = .ok token) :
    HeadersSurvive headers token ↔
      (token ≠ none → ∀ header ∈ headers, named header = true → header.1 = "Authorization") := by
  obtain ⟨hnames, hnodup⟩ := validateHeaderDict_ok hheaders
  cases token with
  | none =>
    refine ⟨fun _ h => absurd rfl h, fun _ => ⟨_, rfl, ?_⟩⟩
    rw [split_curlHeaderArgs hnames, tokenWords, append_nil]
  | some token =>
    obtain ⟨hne, hchars⟩ := validateBearerToken_ok htoken
    have hkey : named ("Authorization", []) = true := by decide +kernel
    simp only [ne_eq, reduceCtorEq, not_false_eq_true, true_implies]
    cases hany : headers.any (fun header => isAuthorization header.1.toList) with
    | true =>
      rw [headersSurvive_of_any hheaders hne hany]
      constructor
      · intro hmem header hheader hnamed
        obtain ⟨other, hother, hauth⟩ := mem_map.mp hmem
        have hnamed' : named other = true := by rw [named, hauth]; exact hkey
        rw [eq_of_named hnodup hheader hother hnamed hnamed', hauth]
      · intro h
        obtain ⟨header, hmem, hauth⟩ := any_eq_true.mp hany
        refine mem_map.mpr ⟨header, hmem, h header hmem ?_⟩
        rw [named, strip_of_isAuthorization hauth, hauth]
    | false =>
      rw [headersSurvive_of_not_any hheaders hne hchars hany, any_eq_false]
      constructor
      · exact fun h header hmem hnamed => absurd hnamed (h header hmem)
      · intro h header hmem hnamed
        have hauth := any_eq_false.mp hany header hmem
        rw [h header hmem hnamed] at hauth
        exact hauth (by decide +kernel)

/-- A value with a single quote, and a token. -/
theorem headersSurvive_sample :
    HeadersSurvive [("X-Note", ['i', 't', Shell.quote, 's', ' ', '"', '$', 'x', '"'])] (some ['t', 'o', 'k']) := by
  refine (headersSurvive_iff _ (some [' ', 't', 'o', 'k', '\n']) _ ?_ ?_).mpr ?_
  · decide +kernel
  · decide +kernel
  · decide +kernel

/-- Accepted headers with a token: under the key `authorization` there is no line, and under a key with a blank
the line has two authorization headers. -/
theorem not_headersSurvive :
    (validateHeaderDict [("authorization", ['x'])] = .ok [("authorization", ['x'])] ∧
      ¬HeadersSurvive [("authorization", ['x'])] (some ['t'])) ∧
    (validateHeaderDict [("Authorization ", ['x'])] = .ok [("Authorization ", ['x'])] ∧
      ¬HeadersSurvive [("Authorization ", ['x'])] (some ['t'])) := by
  have hlower : validateHeaderDict [("authorization", ['x'])] = .ok [("authorization", ['x'])] := by
    decide +kernel
  have hblank : validateHeaderDict [("Authorization ", ['x'])] = .ok [("Authorization ", ['x'])] := by
    decide +kernel
  refine ⟨⟨hlower, ?_⟩, hblank, ?_⟩
  · rw [headersSurvive_of_any hlower (by decide) (by decide +kernel)]
    decide
  · rw [headersSurvive_of_not_any hblank (by decide) (forall_mem_singleton.mpr rfl) (by decide +kernel)]
    decide +kernel

end Jumpstarter.FlasherHeaders
