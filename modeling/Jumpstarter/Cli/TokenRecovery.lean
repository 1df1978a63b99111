import Mathlib.Logic.Basic

/-!
# Recovering a token (`_attempt_token_recovery`)

While a shell runs, its token is refreshed with the refresh token of the client config. If that fails, a
newer token is looked for in the config file. An identity provider that rotates refresh tokens may take the
old one out of use when it issues the new one, so the new one must not be lost.

- `neverLost_iff`: after a grant the new refresh token is in the config or in its file, unless another valid
  token was loaded, exactly if the reply was put to use (`Used`), or the token was there before, or the file
  offers another valid token (`Safe`).
- `neverLost_fails`: a channel cannot be created after the grant, and the handler restores the old token.

Every step that can fail is an outcome of the run (`Outcomes`). What other processes did to the config file
is part of the state.
-/

namespace Jumpstarter.TokenRecovery

open Option

/-- What a config file holds of the credentials. -/
structure Stored where
  token : Option String
  refreshToken : Option String

/-- The credentials of a `ClientConfigV1Alpha1`, and where it is saved.
`defaultPath` is `_get_path(alias)`. -/
structure Config where
  token : Option String
  refreshToken : Option String
  path : Option String
  defaultPath : String

structure World where
  config : Config
  files : String → Option Stored

structure Tokens where
  accessToken : Option String
  refreshToken : Option String

/-- How `ClientConfigV1Alpha1.save` ends: without the directory, without the file, or with the file. -/
inductive Save where
  | noDirectory | unwritten | written

/-- How the steps end. An error is an exception; `remaining` is `get_token_remaining_seconds`. -/
structure Outcomes where
  issuer : Except String Unit
  grant : Except String Tokens
  refreshChannel : Except String Unit
  save : Save
  read : Except String Unit
  remaining : String → Except String (Option Int)
  reloadChannel : Except String Unit

def truthy (s : Option String) : Option String := s.filter (· ≠ "")

/-! ## The functions -/

/-- `_update_lease_channel`: a channel is only created if there is a lease. -/
def updateLeaseChannel (lease : Bool) (channel : Except String Unit) : Except String Unit :=
  if lease then channel else .ok ()

/-- The assignments after the grant; a reply without `access_token` raises before them. -/
def Config.assign (c : Config) (tokens : Tokens) : Option Config :=
  tokens.accessToken.map fun token =>
    { c with token := some token, refreshToken := tokens.refreshToken <|> c.refreshToken }

def Config.restore (c old : Config) : Config :=
  { c with token := old.token, refreshToken := old.refreshToken }

/-- `ClientConfigV1Alpha1.save` with the path of the config. -/
def World.save (w : World) (outcome : Save) : World :=
  let path := w.config.path.getD w.config.defaultPath
  let config := { w.config with path := some path }
  match outcome with
  | .noDirectory => w
  | .unwritten => { w with config }
  | .written =>
    { config
      files := fun p => if p = path then some ⟨config.token, config.refreshToken⟩ else w.files p }

/-- The `try` block of `_try_refresh_token` up to the channel: how it ends, and the config then. -/
def refreshSteps (lease : Bool) (o : Outcomes) (c : Config) : Except String Unit × Config :=
  match o.issuer, o.grant with
  | .error e, _ => (.error e, c)
  | .ok _, .error e => (.error e, c)
  | .ok _, .ok tokens =>
    match c.assign tokens with
    | none => (.error "access_token", c)
    | some c' => (updateLeaseChannel lease o.refreshChannel, c')

def tryRefreshToken (lease : Bool) (o : Outcomes) (w : World) : Bool × World :=
  match truthy w.config.refreshToken with
  | none => (false, w)
  | some _ =>
    match refreshSteps lease o w.config with
    | (.ok _, c) => (true, World.save { w with config := c } o.save)
    | (.error _, c) => (false, { w with config := c.restore w.config })

/-- The token that `_try_reload_token_from_disk` finds: another one than the config has, and valid. -/
def diskToken (read : Except String Unit) (remaining : String → Except String (Option Int)) (w : World) :
    Option Stored := do
  let path ← w.config.path
  let _ ← read.toOption
  let disk ← w.files path
  let token ← truthy disk.token
  let seconds ← (remaining token).toOption.join
  if some token = w.config.token ∨ seconds ≤ 0 then none else some disk

def tryReloadTokenFromDisk (lease : Bool) (o : Outcomes) (w : World) : Bool × World :=
  match diskToken o.read o.remaining w with
  | none => (false, w)
  | some disk =>
    let c := { w.config with token := disk.token, refreshToken := disk.refreshToken }
    match updateLeaseChannel lease o.reloadChannel with
    | .ok _ => (true, { w with config := c })
    | .error _ => (false, { w with config := c.restore w.config })

def refreshedMessage : String := "Token refreshed automatically."
def reloadedMessage : String := "Token reloaded from login."

/-- `_attempt_token_recovery`: the message, and the world after it. -/
def attemptTokenRecovery (lease : Bool) (o : Outcomes) (w : World) : Option String × World :=
  match tryRefreshToken lease o w with
  | (true, w') => (some refreshedMessage, w')
  | (false, w') =>
    match tryReloadTokenFromDisk lease o w' with
    | (true, w'') => (some reloadedMessage, w'')
    | (false, w'') => (none, w'')

/-! ## What the claim says -/

/-- The grant was made and returned the refresh token `t`. -/
structure Granted (o : Outcomes) (w : World) (t : String) : Prop where
  asked : (truthy w.config.refreshToken).isSome
  issuer : o.issuer = .ok ()
  reply : ∃ tokens, o.grant = .ok tokens ∧ tokens.refreshToken = some t

/-- The refresh token `t` is in the config or in its file. -/
def World.Holds (w : World) (t : String) : Prop :=
  w.config.refreshToken = some t ∨
    ∃ path disk, w.config.path = some path ∧ w.files path = some disk ∧ disk.refreshToken = some t

/-- A new refresh token is not lost, unless another valid token was loaded from the file. -/
def NeverLost (lease : Bool) (o : Outcomes) (w : World) : Prop :=
  ∀ t, Granted o w t → (attemptTokenRecovery lease o w).1 = some reloadedMessage ∨
    (attemptTokenRecovery lease o w).2.Holds t

/-- The reply has an access token, and the lease, if there is one, gets a channel for it. -/
structure Used (lease : Bool) (o : Outcomes) : Prop where
  access : ∃ tokens, o.grant = .ok tokens ∧ tokens.accessToken.isSome
  channel : updateLeaseChannel lease o.refreshChannel = .ok ()

/-- The reply is put to use, or nothing is lost if it is not. -/
def Safe (lease : Bool) (o : Outcomes) (w : World) : Prop :=
  ∀ t, Granted o w t → Used lease o ∨ w.Holds t ∨
    (diskToken o.read o.remaining w).isSome ∧ updateLeaseChannel lease o.reloadChannel = .ok ()

/-! ## Ways through the functions -/

theorem Config.restore_assign {c c' : Config} {tokens : Tokens} (h : c.assign tokens = some c') :
    c'.restore c = c := by
  obtain ⟨token, -, rfl⟩ := map_eq_some_iff.mp h
  rfl

theorem refreshSteps_restore (lease : Bool) (o : Outcomes) (c : Config) :
    (refreshSteps lease o c).2.restore c = c := by
  unfold refreshSteps
  split
  · rfl
  · rfl
  · split
    · rfl
    · exact Config.restore_assign ‹_›

theorem World.save_refreshToken (w : World) (outcome : Save) :
    (w.save outcome).config.refreshToken = w.config.refreshToken := by
  cases outcome <;> rfl

section

variable {lease : Bool} {o : Outcomes} {w : World} {t : String}

theorem tryRefreshToken_used (h : Granted o w t) (hused : Used lease o) :
    (tryRefreshToken lease o w).1 = true ∧ (tryRefreshToken lease o w).2.config.refreshToken = some t := by
  obtain ⟨hasked, hissuer, tokens, hgrant, htoken⟩ := h
  obtain ⟨⟨tokens', hgrant', haccess⟩, hchannel⟩ := hused
  rw [hgrant] at hgrant'
  cases hgrant'
  obtain ⟨r, hr⟩ := isSome_iff_exists.mp hasked
  obtain ⟨a, ha⟩ := isSome_iff_exists.mp haccess
  simp only [tryRefreshToken, hr, refreshSteps, hissuer, hgrant, Config.assign, ha, map_some,
    hchannel, World.save_refreshToken, htoken]
  exact ⟨trivial, rfl⟩

theorem tryRefreshToken_unused (h : Granted o w t) (hused : ¬ Used lease o) :
    tryRefreshToken lease o w = (false, w) := by
  obtain ⟨hasked, hissuer, tokens, hgrant, htoken⟩ := h
  obtain ⟨r, hr⟩ := isSome_iff_exists.mp hasked
  have hrestore := refreshSteps_restore lease o w.config
  have herror : ∃ e, (refreshSteps lease o w.config).1 = .error e := by
    cases haccess : tokens.accessToken with
    | none =>
      exact ⟨"access_token", by simp [refreshSteps, hissuer, hgrant, Config.assign, haccess]⟩
    | some a =>
      cases hchannel : updateLeaseChannel lease o.refreshChannel with
      | error e => exact ⟨e, by simp [refreshSteps, hissuer, hgrant, Config.assign, haccess, hchannel]⟩
      | ok _ => exact absurd ⟨⟨tokens, hgrant, by simp [haccess]⟩, hchannel⟩ hused
  obtain ⟨e, he⟩ := herror
  unfold tryRefreshToken
  rw [hr]
  generalize refreshSteps lease o w.config = steps at *
  obtain ⟨_, c⟩ := steps
  cases he
  simp only at hrestore ⊢
  rw [hrestore]

theorem tryReload_loaded (hdisk : (diskToken o.read o.remaining w).isSome)
    (hchannel : updateLeaseChannel lease o.reloadChannel = .ok ()) :
    (tryReloadTokenFromDisk lease o w).1 = true := by
  obtain ⟨disk, hdisk⟩ := isSome_iff_exists.mp hdisk
  simp [tryReloadTokenFromDisk, hdisk, hchannel]

theorem tryReload_unloaded
    (h : ¬ ((diskToken o.read o.remaining w).isSome ∧ updateLeaseChannel lease o.reloadChannel = .ok ())) :
    tryReloadTokenFromDisk lease o w = (false, w) := by
  unfold tryReloadTokenFromDisk
  cases hdisk : diskToken o.read o.remaining w with
  | none => rfl
  | some disk =>
    cases hchannel : updateLeaseChannel lease o.reloadChannel with
    | error e => rfl
    | ok _ => exact absurd ⟨by simp [hdisk], hchannel⟩ h

end

/-- A rotated refresh token survives exactly the safe outcomes. -/
theorem neverLost_iff (lease : Bool) (o : Outcomes) (w : World) :
    NeverLost lease o w ↔ Safe lease o w := by
  refine forall_congr' fun t => forall_congr' fun hgranted => ?_
  by_cases hused : Used lease o
  · obtain ⟨hok, hholds⟩ := tryRefreshToken_used hgranted hused
    refine iff_of_true (.inr ?_) (.inl hused)
    unfold attemptTokenRecovery
    generalize tryRefreshToken lease o w = refresh at hok hholds
    obtain ⟨_, w'⟩ := refresh
    cases hok
    exact .inl hholds
  -- the first function leaves the world as it was, so the second one decides
  have hfirst := tryRefreshToken_unused hgranted hused
  by_cases hdisk : (diskToken o.read o.remaining w).isSome ∧ updateLeaseChannel lease o.reloadChannel = .ok ()
  · have hloaded := tryReload_loaded hdisk.1 hdisk.2
    refine iff_of_true (.inl ?_) (.inr (.inr hdisk))
    simp only [attemptTokenRecovery, hfirst]
    generalize tryReloadTokenFromDisk lease o w = reload at hloaded
    obtain ⟨_, w'⟩ := reload
    cases hloaded
    rfl
  · simp only [attemptTokenRecovery, hfirst, tryReload_unloaded hdisk]
    simp [hused, hdisk]

/-- A session whose file holds the same tokens. -/
def session : World where
  config := { token := some "a0", refreshToken := some "r0", path := some "c.yaml", defaultPath := "d.yaml" }
  files p := if p = "c.yaml" then some ⟨some "a0", some "r0"⟩ else none

/-- The grant rotates the refresh token, and then no channel can be created. -/
def noChannel : Outcomes where
  issuer := .ok ()
  grant := .ok ⟨some "a1", some "r1"⟩
  refreshChannel := .error "unavailable"
  save := .written
  read := .ok ()
  remaining _ := .ok (some 60)
  reloadChannel := .error "unavailable"

theorem neverLost_fails :
    Granted noChannel session "r1" ∧ (attemptTokenRecovery true noChannel session).1 = none ∧
      ¬ (attemptTokenRecovery true noChannel session).2.Holds "r1" := by
  refine ⟨⟨by decide, rfl, _, rfl, rfl⟩, by decide, ?_⟩
  rintro (h | ⟨path, disk, hpath, hdisk, h⟩)
  · exact absurd h (by decide)
  · cases hpath
    cases hdisk
    exact absurd h (by decide)

end Jumpstarter.TokenRecovery
