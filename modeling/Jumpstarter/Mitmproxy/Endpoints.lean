import Jumpstarter.Lib.Ranking
import Jumpstarter.Lib.Text

/-!
# Which mock answers a request

`_find_endpoint` and `_collect_wildcard_matches` of the mitmproxy addon (`bundled_addon.py`). An endpoint has a
key: a method and a path, or a pattern whose path ends in stars. What an endpoint is stays open (`α`): it has a
priority, and meets its conditions for the request or not (`_matches_conditions`).

The candidates are sorted by their priority and then by the length of their keys, so the stars, the method and
a pattern that is longer than the path count as much as what the pattern says about the path.

* `findEndpoint_spec`: the result is the first of the best candidates.
* `followsPrecedence_iff`: an exact key wins over a pattern, and a longer pattern over a shorter one, exactly if
  each loser of highest priority is outranked in length by some match.
-/

namespace Jumpstarter.MitmEndpoints

open Lib List

abbrev Chars := List Char

/-! ## The code -/

structure Request where
  method : Chars
  path : Chars
  isWebsocket : Bool

def websocket : Chars := ['W', 'E', 'B', 'S', 'O', 'C', 'K', 'E', 'T']

def checkKeys (req : Request) : List Chars :=
  (req.method ++ ' ' :: req.path) :: if req.isWebsocket then [websocket ++ ' ' :: req.path] else []

/-- `pattern.split(" ", 1)`, if it has two parts. -/
def splitKey (key : Chars) : Option (Chars × Chars) :=
  match Text.splitN ' ' 2 key with
  | [method, path] => some (method, path)
  | _ => none

/-- `path.rstrip("*")`. -/
def stripStars (path : Chars) : Chars := (path.reverse.dropWhile (· = '*')).reverse

/-- The key is a pattern that matches the request. -/
def isWildcardMatch (req : Request) (key : Chars) : Bool :=
  decide (key.getLast? = some '*') && match splitKey key with
    | none => false
    | some (method, path) =>
      decide (method = ['*'] ∨ method = req.method ∨ req.isWebsocket = true ∧ method = websocket) &&
        (stripStars path).isPrefixOf req.path

section
variable {α : Type} (priority : α → Int) (conditions : α → Bool) (req : Request) (endpoints : List (Chars × α))

def exactMatches : List (Chars × α) :=
  (checkKeys req).filterMap fun key =>
    (endpoints.find? fun e => decide (e.1 = key)).filter fun e => conditions e.2

def collectWildcardMatches : List (Chars × α) :=
  endpoints.filter fun e => isWildcardMatch req e.1 && conditions e.2

def candidates : List (Chars × α) := exactMatches conditions req endpoints ++
  collectWildcardMatches conditions req endpoints

/-- `a` is not after `b`: the sort key is `(-priority, -len(key))`. -/
def rank (a b : Chars × α) : Prop :=
  priority b.2 < priority a.2 ∨ priority a.2 = priority b.2 ∧ b.1.length ≤ a.1.length

instance : DecidableRel (rank priority) := fun _ _ => inferInstanceAs (Decidable (_ ∨ _))

def findEndpoint : Option (Chars × α) :=
  ((candidates conditions req endpoints).insertionSort (rank priority)).head?

end

/-! ## The documented precedence -/

section
variable {α : Type} (priority : α → Int) (conditions : α → Bool) (req : Request) (endpoints : List (Chars × α))

structure Matches (e : Chars × α) : Prop where
  mem : e ∈ endpoints
  conditions : conditions e.2 = true
  key : e.1 ∈ checkKeys req ∨ isWildcardMatch req e.1 = true

/-- At equal priority, `a` is to win over the pattern `b`: it is an exact key, or a pattern with the method of
`b` and a longer text before its stars. -/
def Beats (a b : Chars × α) : Prop :=
  b.1 ∉ checkKeys req ∧
  (a.1 ∈ checkKeys req ∨ ∃ method path path', splitKey a.1 = some (method, path) ∧
    splitKey b.1 = some (method, path') ∧ (stripStars path').length < (stripStars path).length)

/-- A match is found if there is one; it has the highest priority, and no match of its priority is to win
over it. -/
def FollowsPrecedence : Prop :=
  ((∃ e, Matches conditions req endpoints e) → ∃ e, findEndpoint priority conditions req endpoints = some e) ∧
  ∀ e, findEndpoint priority conditions req endpoints = some e → Matches conditions req endpoints e ∧
    ∀ a, Matches conditions req endpoints a → priority a.2 ≤ priority e.2 ∧
      (priority a.2 = priority e.2 → ¬Beats req a e)

/-- Some match of the priority of `b` has a longer key, or one as long that is exact or earlier in the table. -/
def Outranked (b : Chars × α) : Prop :=
  ∃ c, Matches conditions req endpoints c ∧ priority c.2 = priority b.2 ∧ (b.1.length < c.1.length ∨
    b.1.length = c.1.length ∧ (c.1 ∈ checkKeys req ∨ [c, b].Sublist endpoints))

end

section
variable {α : Type} {priority : α → Int} {conditions : α → Bool} {req : Request} {endpoints : List (Chars × α)}
  {b c e : Chars × α}

theorem rank_total (a b : Chars × α) : rank priority a b ∨ rank priority b a := by
  unfold rank
  omega

theorem rank_trans (a b c : Chars × α) (h : rank priority a b) (h' : rank priority b c) : rank priority a c := by
  unfold rank at *
  omega

theorem mem_exactMatches (hkeys : (endpoints.map Prod.fst).Nodup) :
    e ∈ exactMatches conditions req endpoints ↔
      e ∈ endpoints ∧ conditions e.2 = true ∧ e.1 ∈ checkKeys req := by
  unfold exactMatches
  rw [mem_filterMap]
  constructor
  · rintro ⟨key, hkey, hfind⟩
    obtain ⟨hfind, hcond⟩ := Option.filter_eq_some_iff.mp hfind
    have hsome : e.1 = key := by simpa using find?_some hfind
    exact ⟨mem_of_find?_eq_some hfind, hcond, hsome ▸ hkey⟩
  · rintro ⟨hmem, hcond, hkey⟩
    refine ⟨e.1, hkey, Option.filter_eq_some_iff.mpr ⟨?_, hcond⟩⟩
    cases hfind : endpoints.find? (fun e' => decide (e'.1 = e.1)) with
    | none => exact absurd (decide_eq_true rfl) (find?_eq_none.mp hfind e hmem)
    | some e' =>
      have hsome : e'.1 = e.1 := by simpa using find?_some hfind
      rw [inj_on_of_nodup_map hkeys (mem_of_find?_eq_some hfind) hmem hsome]

theorem mem_candidates (hkeys : (endpoints.map Prod.fst).Nodup) :
    e ∈ candidates conditions req endpoints ↔ Matches conditions req endpoints e := by
  rw [candidates, mem_append, mem_exactMatches hkeys, collectWildcardMatches, mem_filter, Bool.and_eq_true]
  constructor
  · rintro (⟨hmem, hcond, hkey⟩ | ⟨hmem, hkey, hcond⟩)
    · exact ⟨hmem, hcond, .inl hkey⟩
    · exact ⟨hmem, hcond, .inr hkey⟩
  · rintro ⟨hmem, hcond, hkey | hkey⟩
    · exact .inl ⟨hmem, hcond, hkey⟩
    · exact .inr ⟨hmem, hkey, hcond⟩

theorem findEndpoint_spec (h : findEndpoint priority conditions req endpoints = some e) :
    FirstBest (rank priority) (candidates conditions req endpoints) e :=
  firstBest_of_head? rank_total rank_trans h

theorem exists_findEndpoint (hkeys : (endpoints.map Prod.fst).Nodup)
    (h : Matches conditions req endpoints e) : ∃ e, findEndpoint priority conditions req endpoints = some e :=
  exists_head? (ne_nil_of_mem ((mem_candidates hkeys).mpr h))

/-! ## The order of the candidates -/

section

variable (hkeys : (endpoints.map Prod.fst).Nodup)
include hkeys

theorem sublist_of_candidates (hc : c.1 ∉ checkKeys req)
    (h : [c, b].Sublist (candidates conditions req endpoints)) : [c, b].Sublist endpoints := by
  obtain ⟨x, y, hxy, hx, hy⟩ := sublist_append_iff.mp h
  cases x with
  | nil =>
    rw [← (show [c, b] = y from hxy)] at hy
    exact hy.trans filter_sublist
  | cons d x =>
    obtain ⟨rfl, -⟩ := List.cons.inj hxy
    exact absurd ((mem_exactMatches hkeys).mp (hx.subset mem_cons_self)).2.2 hc

theorem candidates_sublist (hc : Matches conditions req endpoints c)
    (hb : Matches conditions req endpoints b) (hbkey : b.1 ∉ checkKeys req)
    (h : c.1 ∈ checkKeys req ∨ [c, b].Sublist endpoints) :
    [c, b].Sublist (candidates conditions req endpoints) := by
  have hbmem : b ∈ collectWildcardMatches conditions req endpoints :=
    mem_filter.mpr ⟨hb.mem, by simp [hb.key.resolve_left hbkey, hb.conditions]⟩
  by_cases hckey : c.1 ∈ checkKeys req
  · have hcmem := (mem_exactMatches hkeys).mpr ⟨hc.mem, hc.conditions, hckey⟩
    exact (singleton_sublist.mpr hcmem).append (singleton_sublist.mpr hbmem)
  · have hfilter := (h.resolve_left hckey).filter fun e => isWildcardMatch req e.1 && conditions e.2
    simp only [filter_cons, hc.key.resolve_left hckey, hc.conditions, hb.key.resolve_left hbkey,
      hb.conditions, Bool.and_self, if_true, filter_nil] at hfilter
    exact hfilter.trans (sublist_append_right ..)

theorem not_sublist_twice (hb : b.1 ∉ checkKeys req) :
    ¬[b, b].Sublist (candidates conditions req endpoints) := by
  intro h
  have hnodup := (sublist_of_candidates hkeys hb h).nodup (List.Nodup.of_map Prod.fst hkeys)
  simp at hnodup

end

/-- **Endpoint selection follows the documented precedence** exactly if each match of highest priority over
which another one is to win is outranked: a match of its priority has a longer key, or one as long that is
exact or earlier in the table. -/
theorem followsPrecedence_iff {α : Type} (priority : α → Int) (conditions : α → Bool) (req : Request)
    (endpoints : List (Chars × α)) (hkeys : (endpoints.map Prod.fst).Nodup) :
    FollowsPrecedence priority conditions req endpoints ↔
      ∀ a b, Matches conditions req endpoints a → Matches conditions req endpoints b →
        (∀ c, Matches conditions req endpoints c → priority c.2 ≤ priority b.2) →
        priority a.2 = priority b.2 → Beats req a b → Outranked priority conditions req endpoints b := by
  constructor
  · intro ⟨hfound, hbest⟩ a b ha hb htop hprio hbeats
    obtain ⟨e, he⟩ := hfound ⟨a, ha⟩
    obtain ⟨hmatch, hothers⟩ := hbest e he
    have hne : b ≠ e := by
      rintro rfl
      exact (hothers a ha).2 hprio hbeats
    have heq : priority e.2 = priority b.2 := le_antisymm (htop e hmatch) (hothers b hb).1
    have hspec := findEndpoint_spec he
    have hrank := hspec.le rank_total ((mem_candidates hkeys).mpr hb)
    refine ⟨e, hmatch, heq, ?_⟩
    by_cases hlen : b.1.length < e.1.length
    · exact .inl hlen
    · unfold rank at hrank
      refine .inr ⟨by omega, ?_⟩
      by_cases hekey : e.1 ∈ checkKeys req
      · exact .inl hekey
      · have hsub := hspec.sublist ((mem_candidates hkeys).mpr hb) hne (by unfold rank; omega)
        exact .inr (sublist_of_candidates hkeys hekey hsub)
  · intro h
    refine ⟨fun ⟨e, he⟩ => exists_findEndpoint hkeys he, fun e he => ?_⟩
    have hspec := findEndpoint_spec he
    have hmatch := (mem_candidates hkeys).mp hspec.mem
    have htop : ∀ c, Matches conditions req endpoints c → priority c.2 ≤ priority e.2 := by
      intro c hc
      have hrank := hspec.le rank_total ((mem_candidates hkeys).mpr hc)
      unfold rank at hrank
      omega
    refine ⟨hmatch, fun a ha => ⟨htop a ha, fun hprio hbeats => ?_⟩⟩
    obtain ⟨c, hc, hcprio, hlen⟩ := h a e ha hmatch htop hprio hbeats
    have hrank := hspec.le rank_total ((mem_candidates hkeys).mpr hc)
    rcases hlen with hlen | ⟨hlen, hbefore⟩
    · unfold rank at hrank
      omega
    · have honce : ¬[e, e].Sublist (candidates conditions req endpoints) := not_sublist_twice hkeys hbeats.1
      have hsub := candidates_sublist hkeys hc hmatch hbeats.1 hbefore
      have hne : c ≠ e := by
        rintro rfl
        exact honce hsub
      exact hspec.not_of_sublist honce hne hsub (.inr ⟨hcprio, hlen.le⟩)

end

def sampleRequest (path : String) : Request := ⟨['G', 'E', 'T'], path.toList, false⟩

/-- Endpoints with the given keys, all with priority 0 and no conditions. -/
def sampleEndpoints (keys : List String) : List (Chars × Int) := keys.map fun key => (key.toList, 0)

/-- An exact key that is as long as a pattern. -/
theorem followsPrecedence_sample :
    FollowsPrecedence id (fun _ => true) (sampleRequest "/ab") (sampleEndpoints ["GET /a*", "GET /ab"]) := by
  refine (followsPrecedence_iff id (fun _ => true) (sampleRequest "/ab")
    (sampleEndpoints ["GET /a*", "GET /ab"]) (by decide +kernel)).mpr ?_
  intro a b _ hb _ _ hbeats
  have hexact : "GET /ab".toList ∈ checkKeys (sampleRequest "/ab") := by decide +kernel
  have hmem : b = ("GET /a*".toList, 0) ∨ b = ("GET /ab".toList, 0) := by
    simpa [sampleEndpoints] using hb.mem
  rcases hmem with rfl | rfl
  · refine ⟨("GET /ab".toList, 0), ⟨by decide +kernel, rfl, .inl hexact⟩, rfl, .inr ⟨?_, .inl hexact⟩⟩
    decide +kernel
  · exact absurd hexact hbeats.1

/-- `GET /a*` is taken for `/a`, for which there is an exact key; and `GET /a***` for `/abc`, for which there is
the longer `GET /ab*`. -/
theorem not_followsPrecedence :
    ¬FollowsPrecedence id (fun _ => true) (sampleRequest "/a") (sampleEndpoints ["GET /a", "GET /a*"]) ∧
    ¬FollowsPrecedence id (fun _ => true) (sampleRequest "/abc")
      (sampleEndpoints ["GET /ab*", "GET /a***"]) := by
  refine ⟨?_, ?_⟩
  · intro ⟨_, h⟩
    obtain ⟨-, hothers⟩ := h ("GET /a*".toList, 0) (by decide +kernel)
    have hexact : "GET /a".toList ∈ checkKeys (sampleRequest "/a") := by decide +kernel
    refine (hothers ("GET /a".toList, 0) ⟨by decide +kernel, rfl, .inl hexact⟩).2 rfl ⟨?_, .inl hexact⟩
    decide +kernel
  · intro ⟨_, h⟩
    obtain ⟨-, hothers⟩ := h ("GET /a***".toList, 0) (by decide +kernel)
    refine (hothers ("GET /ab*".toList, 0) ⟨by decide +kernel, rfl, .inr (by decide +kernel)⟩).2 rfl ?_
    refine ⟨by decide +kernel, .inr ⟨"GET".toList, "/ab*".toList, "/a***".toList, ?_⟩⟩
    decide +kernel

end Jumpstarter.MitmEndpoints
