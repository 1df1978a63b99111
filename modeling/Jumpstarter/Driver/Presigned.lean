import Mathlib.Data.List.Infix

/-!
# A presigned download and its redirects (`Driver._presigned_get`)

`_presigned_get` follows redirects by itself: it sends a request, reads `Location` of a redirect, drops
the sensitive headers if the origin changes and goes on. `Library` has the functions of `yarl`,
`urllib` and `str` that it calls, with what is assumed of them. The servers are any function of all
requests so far, so they may choose each `Location` as they like.

The headers of a request are those that `_presigned_get` passes; what `aiohttp` adds (`Host`, or the
credentials that a `Location` itself spells out) is not part of the model.

* `Carried`: headers with a sensitive name have gone to one origin only, and the next URL has it.
* `stripSensitiveHeaders_carried`: one redirect keeps that, whatever its `Location`.
* `presignedGet_credentials`: the requests of a whole run.
-/

namespace Jumpstarter.Presigned

open List

/-- `(url.scheme, url.host, url.port)` of a `yarl.URL`. -/
structure Origin where
  scheme : String
  host : Option String
  port : Option Nat
  deriving DecidableEq

abbrev Headers := List (String × String)

def IsAscii (c : Char) : Prop := c.val < 128

instance (c : Char) : Decidable (IsAscii c) := inferInstanceAs (Decidable (c.val < 128))

/-- The functions of the Python libraries. -/
structure Library where
  /-- `yarl.URL(url)`, or its error. -/
  url : String → Except String Origin
  /-- `yarl.URL(url, encoded=True)`, or its error. -/
  encodedUrl : String → Except String Origin
  agree : ∀ {u o o'}, url u = .ok o → encodedUrl u = .ok o' → o = o'
  lower : String → String
  /-- `str.lower` maps the characters of ASCII to small letters. -/
  lower_ascii : ∀ {s : String} {a b : List Char}, s.toList = a ++ b → (∀ c ∈ a, IsAscii c) →
    a.map Char.toLower <+: (lower s).toList
  /-- `urlparse(url).query`. -/
  query : String → String
  /-- `urlunparse(urlparse(url)._replace(query=query))`. -/
  replaceQuery : String → String → String

def sensitiveHeaderPrefixes : List String :=
  ["authorization", "cookie", "proxy-authorization", "x-amz-", "x-ms-", "x-goog-"]

/-- The name starts with one of `_SENSITIVE_HEADER_PREFIXES`, in small or capital letters. -/
def Sensitive (name : String) : Prop :=
  ∃ p ∈ sensitiveHeaderPrefixes, (name.toList.take p.length).map Char.toLower = p.toList

instance (name : String) : Decidable (Sensitive name) :=
  inferInstanceAs (Decidable (∃ p ∈ sensitiveHeaderPrefixes, _))

inductive Reply where
  /-- The request failed, or the status is an error that `raise_for_status` raises. -/
  | failed (err : String)
  | response (status : Nat) (location : Option String)

/-- A request that was sent: the URL, the origin it goes to, and the headers. -/
structure Request where
  url : String
  target : Origin
  headers : Headers
  deriving DecidableEq

section Model

variable (lib : Library)

def redactUrl (url : String) : String :=
  if lib.query url ≠ "" then lib.replaceQuery url "[REDACTED]" else url

/-- `k.lower().startswith(_SENSITIVE_HEADER_PREFIXES)`. -/
def startsSensitive (name : String) : Bool :=
  sensitiveHeaderPrefixes.any fun p => p.toList.isPrefixOf (lib.lower name).toList

def stripSensitiveHeaders (headers : Headers) (originalUrl redirectUrl : String) :
    Except String Headers :=
  match lib.url originalUrl, lib.url redirectUrl with
  | .ok orig, .ok dest =>
    if orig = dest then .ok headers else .ok (headers.filter fun h => !startsSensitive lib h.1)
  | .error err, _ => .error err
  | .ok _, .error err => .error err

def isRedirect (status : Nat) : Bool := [301, 302, 303, 307, 308].contains status

/-- What a run sent, and how it ended: the status of the response that is streamed, or the error. -/
structure Fetch where
  requests : List Request
  outcome : Except String Nat

/-- The loop of `_presigned_get`, with `n` iterations left. -/
def presignedGetLoop (server : List Request → Reply) (url : String) (maxRedirects : Int) :
    Nat → String → Headers → List Request → Fetch
  | 0, _, _, sent =>
    ⟨sent, .error ("Too many redirects (" ++ toString maxRedirects ++ ") for " ++ redactUrl lib url)⟩
  | n + 1, currentUrl, currentHeaders, sent =>
    match lib.encodedUrl currentUrl with
    | .error err => ⟨sent, .error err⟩
    | .ok target =>
      let sent := sent ++ [⟨currentUrl, target, currentHeaders⟩]
      match server sent with
      | .failed err => ⟨sent, .error err⟩
      | .response status location =>
        if !isRedirect status then ⟨sent, .ok status⟩
        else if location.getD "" = "" then
          ⟨sent, .error ("Presigned HTTP GET redirect missing Location header for " ++
            redactUrl lib currentUrl)⟩
        else
          match stripSensitiveHeaders lib currentHeaders currentUrl (location.getD "") with
          | .error err => ⟨sent, .error err⟩
          | .ok headers =>
            presignedGetLoop server url maxRedirects n (location.getD "") headers sent

def presignedGet (server : List Request → Reply) (url : String) (headers : Headers)
    (maxRedirects : Int := 10) : Fetch :=
  presignedGetLoop lib server url maxRedirects (maxRedirects + 1).toNat url headers []

end Model

/-! ## Which headers are dropped -/

theorem isAscii_of_toLower {c : Char} (h : IsAscii c.toLower) : IsAscii c := by
  unfold IsAscii Char.toLower at *
  split at h
  · rename_i hup
    exact UInt32.lt_of_le_of_lt hup.2 (by decide)
  · exact h

theorem sensitiveHeaderPrefixes_ascii : ∀ p ∈ sensitiveHeaderPrefixes, ∀ c ∈ p.toList, IsAscii c := by
  have hall : sensitiveHeaderPrefixes.all (fun p => p.toList.all fun c => decide (IsAscii c)) = true := by
    decide +kernel
  intro p hp c hc
  exact of_decide_eq_true (all_eq_true.mp (all_eq_true.mp hall p hp) c hc)

variable {lib : Library}

theorem startsSensitive_of_sensitive {name : String} (h : Sensitive name) :
    startsSensitive lib name = true := by
  obtain ⟨p, hp, hname⟩ := h
  have hsplit : name.toList = name.toList.take p.length ++ name.toList.drop p.length :=
    (take_append_drop _ _).symm
  have hascii : ∀ c ∈ name.toList.take p.length, IsAscii c := by
    intro c hc
    apply isAscii_of_toLower
    apply sensitiveHeaderPrefixes_ascii p hp
    rw [← hname]
    exact mem_map_of_mem hc
  have hlow := lib.lower_ascii hsplit hascii
  rw [hname] at hlow
  exact any_eq_true.mpr ⟨p, hp, isPrefixOf_iff_prefix.mpr hlow⟩

def HasSensitive (headers : Headers) : Prop := ∃ h ∈ headers, Sensitive h.1

instance (headers : Headers) : Decidable (HasSensitive headers) :=
  inferInstanceAs (Decidable (∃ h ∈ headers, _))

variable {headers : Headers}

theorem stripSensitiveHeaders_sensitive {headers' : Headers} {u v : String}
    (h : stripSensitiveHeaders lib headers u v = .ok headers') (hs : HasSensitive headers') :
    headers' = headers ∧ ∃ o, lib.url u = .ok o ∧ lib.url v = .ok o := by
  unfold stripSensitiveHeaders at h
  split at h
  · rename_i orig dest horig hdest
    split at h
    · rename_i heq
      cases h
      exact ⟨rfl, orig, horig, heq ▸ hdest⟩
    · cases h
      obtain ⟨hd, hmem, hname⟩ := hs
      have hkept := (mem_filter.mp hmem).2
      rw [startsSensitive_of_sensitive hname] at hkept
      cases hkept
  · cases h
  · cases h

/-! ## The chain of requests -/

/-- The next URL is at the origin of every request so far, if the headers have a sensitive name. -/
def Carried (lib : Library) (url : String) (headers : Headers) (sent : List Request) : Prop :=
  HasSensitive headers → ∀ req ∈ sent, lib.url url = .ok req.target

/-- Every request with a sensitive header went where all requests before it went. -/
def Kept (sent : List Request) : Prop :=
  ∀ (i : Nat) (req : Request), sent[i]? = some req → HasSensitive req.headers →
    ∀ j ≤ i, ∀ req' : Request, sent[j]? = some req' → req'.target = req.target

variable {sent : List Request} {url : String}

theorem Kept.send (hk : Kept sent) {target : Origin} (hc : Carried lib url headers sent)
    (ht : lib.encodedUrl url = .ok target) : Kept (sent ++ [⟨url, target, headers⟩]) := by
  intro i req hi hs j hj req' hj'
  rw [getElem?_append] at hi hj'
  split at hi
  · have hlt' : j < sent.length := by omega
    rw [if_pos hlt'] at hj'
    exact hk i req hi hs j hj req' hj'
  · have hreq := mem_singleton.mp (mem_of_getElem? hi)
    subst hreq
    split at hj'
    · exact lib.agree (hc hs req' (mem_of_getElem? hj')) ht
    · rw [mem_singleton.mp (mem_of_getElem? hj')]

theorem Carried.redirect {location : String} {target : Origin} {headers' : Headers}
    (hc : Carried lib url headers sent) (ht : lib.encodedUrl url = .ok target)
    (h : stripSensitiveHeaders lib headers url location = .ok headers') :
    Carried lib location headers' (sent ++ [⟨url, target, headers⟩]) := by
  intro hs req hreq
  obtain ⟨rfl, o, hurl, hloc⟩ := stripSensitiveHeaders_sensitive h hs
  rcases mem_append.mp hreq with hreq | hreq
  · have hsame := hc hs req hreq
    rw [hurl] at hsame
    rw [hloc, hsame]
  · rw [mem_singleton.mp hreq, hloc, lib.agree hurl ht]

theorem presignedGetLoop_kept (server : List Request → Reply) (url₀ : String) (maxRedirects : Int) (n : Nat)
    (hk : Kept sent) (hc : Carried lib url headers sent) :
    Kept (presignedGetLoop lib server url₀ maxRedirects n url headers sent).requests ∧
      (presignedGetLoop lib server url₀ maxRedirects n url headers sent).requests.length ≤ sent.length + n := by
  induction n generalizing url headers sent with
  | zero => exact ⟨hk, Nat.le_refl _⟩
  | succ n ih =>
    cases ht : lib.encodedUrl url with
    | error err =>
      simp only [presignedGetLoop, ht]
      exact ⟨hk, by omega⟩
    | ok target =>
      have hk' := hk.send hc ht
      have hlen : (sent ++ [(⟨url, target, headers⟩ : Request)]).length ≤ sent.length + (n + 1) := by
        simp
      simp only [presignedGetLoop, ht]
      -- every way to end leaves the requests as they are after this one
      split
      · exact ⟨hk', hlen⟩
      · split
        · exact ⟨hk', hlen⟩
        · split
          · exact ⟨hk', hlen⟩
          · split
            · exact ⟨hk', hlen⟩
            · rename_i headers' hstrip
              have hloop := ih hk' (hc.redirect ht hstrip)
              refine ⟨hloop.1, Nat.le_trans hloop.2 ?_⟩
              simp only [length_append, length_singleton]
              omega

/-- A header with a sensitive name is sent in a request only if that request and all requests before
it go to one origin, and a run sends at most `max_redirects + 1` requests. -/
theorem presignedGet_credentials (lib : Library) (server : List Request → Reply) (url : String)
    (headers : Headers) (maxRedirects : Int) :
    (∀ (i : Nat) (req : Request),
      (presignedGet lib server url headers maxRedirects).requests[i]? = some req →
      (∃ h ∈ req.headers, Sensitive h.1) →
      ∀ j ≤ i, ∀ req' : Request,
        (presignedGet lib server url headers maxRedirects).requests[j]? = some req' →
        req'.target = req.target) ∧
    (presignedGet lib server url headers maxRedirects).requests.length ≤ (maxRedirects + 1).toNat := by
  have hkept : Kept [] := fun i req hi => by simp at hi
  have hcarried : Carried lib url headers [] := fun _ req hreq => by simp at hreq
  have hloop := presignedGetLoop_kept server url maxRedirects (maxRedirects + 1).toNat hkept hcarried
  refine ⟨hloop.1, ?_⟩
  have hlen := hloop.2
  rw [length_nil, Nat.zero_add] at hlen
  exact hlen

/-- A library for examples: the whole text of a URL is its host. -/
def sampleLibrary : Library where
  url u := .ok ⟨"https", some u, none⟩
  encodedUrl u := .ok ⟨"https", some u, none⟩
  agree h h' := by
    cases h
    cases h'
    rfl
  lower s := s.map Char.toLower
  lower_ascii h _ := by
    rw [String.toList_map, h, List.map_append]
    exact List.prefix_append _ _
  query _ := ""
  replaceQuery u _ := u

/-- A chain that leaves the origin and comes back: the credentials are sent once. -/
example :
    let server : List Request → Reply := fun sent =>
      match sent.length with
      | 1 => .response 302 (some "cdn")
      | 2 => .response 307 (some "store")
      | _ => .response 200 none
    let headers := [("X-Amz-Security-Token", "t"), ("Accept", "*/*")]
    (presignedGet sampleLibrary server "store" headers).requests.map (·.headers) =
      [headers, [("Accept", "*/*")], [("Accept", "*/*")]] := by
  decide +kernel

end Jumpstarter.Presigned
