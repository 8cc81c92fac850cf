import Signoz.Lib.Programs
import Signoz.Tokenizer.Token

/-!
# The opaque tokenizer

`opaquetokenizer/provider.go` over its caches and the table `auth_token` of
`sqltokenizerstore/store.go`. An operation is a program of single cache and store calls, in the
order of the source; `sem` says what a call does.

Secrets are never generated twice. `revoked` is no part of the source: it holds the access tokens
that a statement has taken out of the table. A rotation is one transaction: from its `SELECT` on
its row is locked, other statements that write the row wait, and its update is seen at its end.
-/

namespace Signoz.Tokenizer

open Lib.Programs hiding perform

/-! ## Calls -/

/-- `Identity`. -/
structure Identity where
  userID : String
  orgID : String
  email : String
deriving DecidableEq

/-- `access_token`, `user_id` and `last_observed_at` of a row. -/
structure Observed where
  accessToken : String
  userID : String
  lastObservedAt : Time
deriving DecidableEq

/-- A single call of a cache, of the store, of the clock or of the generator of secrets. -/
inductive Call where
  | cacheGet (accessToken : String)
  | cacheSet (accessToken : String) (token : Token)
  | cacheDelete (accessToken : String)
  | identityCacheGet (userID : String)
  | identityCacheSet (identity : Identity)
  | lastObservedAtCacheGet (accessToken userID : String)
  | lastObservedAtCacheSet (accessToken userID : String) (lastObservedAt : Time)
  | create (token : Token)
  | getIdentityByUserID (userID : String)
  | getByAccessToken (accessToken : String)
  | listByOrgID (orgID : String)
  | listByUserID (userID : String)
  | deleteByAccessToken (accessToken : String)
  | deleteMany (ids : List String)
  | deleteByUserID (userID : String)
  | updateLastObservedAtByAccessToken (observed : List Observed)
  | beginUpdate (accessToken : String)
  | commitUpdate (token : Token)
  | endUpdate (id : String)
  | generate
  | now
deriving DecidableEq

/-- What a call answers. -/
@[reducible] def Answer : Call → Type
  | .cacheGet _ | .getByAccessToken _ | .beginUpdate _ => Option Token
  | .identityCacheGet _ | .getIdentityByUserID _ => Option Identity
  | .lastObservedAtCacheGet _ _ => Option Time
  | .listByOrgID _ | .listByUserID _ => List Token
  | .create _ | .commitUpdate _ => Bool
  | .generate => Fresh
  | .now => Time
  | _ => Unit

structure World where
  cache : String → Option Token
  identityCache : String → Option Identity
  lastObservedAtCache : String × String → Option Time
  store : List Token
  users : List Identity
  locked : List String
  seen : List String
  clock : Time
  revoked : List String

/-- The row is that of another token with the access or refresh token of this one, or its id:
what a unique index rejects. -/
def Token.clashes (t row : Token) : Bool :=
  row.id = t.id || row.accessToken = t.accessToken || row.refreshToken = t.refreshToken

/-- `WHERE access_token = ? OR prev_access_token = ?`; an empty previous token is `NULL`. -/
def Token.hasAccessToken (row : Token) (accessToken : String) : Bool :=
  row.accessToken = accessToken ||
    (row.prevAccessToken ≠ "" && row.prevAccessToken = accessToken)

namespace World

/-- The rows whose `DELETE` or `UPDATE` meets a lock. -/
def waits (w : World) (cond : Token → Bool) : Bool :=
  w.store.any fun row => cond row && w.locked.contains row.id

/-- `DELETE FROM auth_token`. -/
def deleteWhere (w : World) (cond : Token → Bool) : World :=
  { w with
    store := w.store.filter fun row => !cond row
    revoked := (w.store.filter cond).map Token.accessToken ++ w.revoked }

/-- `UPDATE auth_token` of the row of the token. -/
def update (w : World) (token : Token) : World :=
  { w with
    store := w.store.map fun row => if row.id = token.id then token else row
    locked := w.locked.erase token.id
    revoked := (w.store.filter fun row =>
      row.id = token.id && row.accessToken ≠ token.accessToken).map Token.accessToken ++ w.revoked }

/-- `UPDATE auth_token` of one row of `update_cte`. -/
def updateObserved (w : World) (o : Observed) : World :=
  { w with
    store := w.store.map fun row =>
      if row.accessToken = o.accessToken ∧ row.userID = o.userID then
        { row with lastObservedAt := o.lastObservedAt }
      else row }

end World

/-- What a call does; `none` when it waits for a lock, or when the secrets are not new. -/
def sem : (call : Call) → Fresh → World → Option (World × Answer call)
  | .cacheGet a, _, w => some (w, w.cache a)
  | .cacheSet a token, _, w => some ({ w with cache := Function.update w.cache a (some token) }, ())
  | .cacheDelete a, _, w => some ({ w with cache := Function.update w.cache a none }, ())
  | .identityCacheGet u, _, w => some (w, w.identityCache u)
  | .identityCacheSet identity, _, w =>
    some ({ w with
      identityCache := Function.update w.identityCache identity.userID (some identity) }, ())
  | .lastObservedAtCacheGet a u, _, w => some (w, w.lastObservedAtCache (a, u))
  | .lastObservedAtCacheSet a u t, _, w =>
    some ({ w with
      lastObservedAtCache := Function.update w.lastObservedAtCache (a, u) (some t) }, ())
  | .create token, _, w =>
    if w.store.any token.clashes then some (w, false)
    else some ({ w with store := w.store ++ [token] }, true)
  | .getIdentityByUserID u, _, w => some (w, w.users.find? fun user => user.userID = u)
  | .getByAccessToken a, _, w => some (w, w.store.find? fun row => row.accessToken = a)
  | .listByOrgID org, _, w =>
    some (w, w.store.filter fun row =>
      w.users.any fun user => user.userID = row.userID && user.orgID = org)
  | .listByUserID u, _, w => some (w, w.store.filter fun row => row.userID = u)
  | .deleteByAccessToken a, _, w =>
    if w.waits fun row => row.accessToken = a then none
    else
      let deleted := w.deleteWhere fun row => row.accessToken = a
      some ({ deleted with revoked := a :: deleted.revoked }, ())
  | .deleteMany ids, _, w =>
    if w.waits fun row => ids.contains row.id then none
    else
      -- the collector of garbage revokes nothing
      some ({ w with store := w.store.filter fun row => !ids.contains row.id }, ())
  | .deleteByUserID u, _, w =>
    if w.waits fun row => row.userID = u then none
    else some (w.deleteWhere fun row => row.userID = u, ())
  | .updateLastObservedAtByAccessToken observed, _, w =>
    if w.waits fun row => observed.any fun o =>
        row.accessToken = o.accessToken && row.userID = o.userID then none
    else some (observed.foldl World.updateObserved w, ())
  | .beginUpdate a, _, w =>
    match w.store.find? fun row => row.hasAccessToken a with
    | none => some (w, none)
    | some row =>
      if row.id ∈ w.locked then none
      else some ({ w with locked := row.id :: w.locked }, some row)
  | .commitUpdate token, _, w =>
    if w.store.any fun row => row.id ≠ token.id && token.clashes row then
      some ({ w with locked := w.locked.erase token.id }, false)
    else some (w.update token, true)
  | .endUpdate id, _, w => some ({ w with locked := w.locked.erase id }, ())
  | .generate, fresh, w =>
    if fresh.id ∈ w.seen ∨ fresh.accessToken ∈ w.seen ∨ fresh.refreshToken ∈ w.seen then none
    else
      some ({ w with seen := fresh.id :: fresh.accessToken :: fresh.refreshToken :: w.seen },
        fresh)
  | .now, _, w => some (w, w.clock)

/-! ## Operations -/

abbrev Program (R : Type) := Prog Call Answer R

/-- A single call. -/
def perform (call : Call) : Program (Answer call) := Lib.Programs.perform call

/-- What an operation returns. -/
inductive Value where
  | nothing
  | identity (identity : Identity)
  | token (token : Token)

section Operations

variable (cfg : Config)

/-- `getOrGetSetToken`. -/
def getOrGetSetToken (accessToken : String) : Program (Except Err Token) := do
  match ← perform (.cacheGet accessToken) with
  | some token => return .ok token
  | none =>
    match ← perform (.getByAccessToken accessToken) with
    | none => return .error ⟨.notFound, "token does not exist"⟩
    | some token => do
      perform (.cacheSet accessToken token)
      return .ok token

/-- `getOrGetSetIdentity`. -/
def getOrGetSetIdentity (userID : String) : Program (Except Err Identity) := do
  match ← perform (.identityCacheGet userID) with
  | some identity => return .ok identity
  | none =>
    match ← perform (.getIdentityByUserID userID) with
    | none => return .error ⟨.notFound, "user with id: " ++ userID ++ " does not exist"⟩
    | some identity => do
      perform (.identityCacheSet identity)
      return .ok identity

/-- `GetIdentity`. -/
def getIdentity (accessToken : String) : Program (Except Err Value) := do
  match ← getOrGetSetToken accessToken with
  | .error err => return .error err
  | .ok token => do
    let now ← perform .now
    match token.isValid cfg now with
    | .error err => return .error err
    | .ok () =>
      match ← getOrGetSetIdentity token.userID with
      | .error err => return .error err
      | .ok identity => return .ok (.identity identity)

/-- `DeleteToken`. -/
def deleteToken (accessToken : String) : Program Unit := do
  perform (.cacheDelete accessToken)
  perform (.deleteByAccessToken accessToken)

/-- The first of the tokens by their creation. -/
def oldest (tokens : List Token) : Option Token :=
  (tokens.mergeSort fun a b => a.createdAt ≤ b.createdAt).head?

/-- The end of `CreateToken`, once there is room for a token. -/
def createNew (identity : Identity) : Program (Except Err Value) := do
  let fresh ← perform .generate
  let now ← perform .now
  let token := newToken fresh identity.userID now
  perform (.cacheSet token.accessToken token)
  if ← perform (.create token) then
    perform (.identityCacheSet identity)
    return .ok (.token token)
  else return .error ⟨.alreadyExists, "token already exists"⟩

/-- `CreateToken`. -/
def createToken (identity : Identity) : Program (Except Err Value) := do
  let existing ← perform (.listByUserID identity.userID)
  if (existing.length : Int) ≥ cfg.maxPerUser then
    match oldest existing with
    | none => return .error ⟨.panic, "index out of range"⟩
    | some token => do
      deleteToken token.accessToken
      createNew identity
  else createNew identity

/-- `RotateToken`. -/
def rotateToken (accessToken refreshToken : String) : Program (Except Err Value) := do
  match ← perform (.beginUpdate accessToken) with
  | none => return .error ⟨.unauthenticated, "invalid access token"⟩
  | some token => do
    let fresh ← perform .generate
    let now ← perform .now
    match token.rotate cfg now accessToken refreshToken fresh with
    | .error err => do
      perform (.endUpdate token.id)
      return .error err
    | .ok rotated =>
      if rotated.accessToken = accessToken ∧ rotated.refreshToken = refreshToken then
        perform (.endUpdate token.id)
        return .ok (.token rotated)
      else do
        perform (.cacheSet rotated.accessToken rotated)
        perform (.cacheDelete accessToken)
        if ← perform (.commitUpdate rotated) then return .ok (.token rotated)
        else return .error ⟨.alreadyExists, "token already exists"⟩

/-- The loop of `DeleteTokensByUserID`. -/
def deleteFromCache : List Token → Program Unit
  | [] => return ()
  | token :: tokens => do
    perform (.cacheDelete token.accessToken)
    deleteFromCache tokens

/-- `DeleteTokensByUserID`. -/
def deleteTokensByUserID (userID : String) : Program Unit := do
  let tokens ← perform (.listByUserID userID)
  deleteFromCache tokens
  perform (.deleteByUserID userID)

/-- `SetLastObservedAt`. -/
def setLastObservedAt (accessToken : String) (lastObservedAt : Time) :
    Program (Except Err Value) := do
  match ← getOrGetSetToken accessToken with
  | .error err => return .error err
  | .ok token => do
    let now ← perform .now
    match token.updateLastObservedAt lastObservedAt now with
    -- an older time is no error
    | .error _ => return .ok .nothing
    | .ok updated => do
      perform (.lastObservedAtCacheSet accessToken token.userID lastObservedAt)
      perform (.cacheSet accessToken updated)
      return .ok .nothing

/-- The loop of `listLastObservedAtDesc`. -/
def cachedObservations : List Token → Program (List Observed)
  | [] => return []
  | token :: tokens => do
    let cached ← perform (.lastObservedAtCacheGet token.accessToken token.userID)
    let rest ← cachedObservations tokens
    match cached with
    | none => return rest
    | some t => return ⟨token.accessToken, token.userID, t⟩ :: rest

/-- `listLastObservedAtDesc`. -/
def listLastObservedAtDesc (orgID : String) : Program (List Observed) := do
  let tokens ← perform (.listByOrgID orgID)
  let observed ← cachedObservations tokens
  return observed.mergeSort fun a b => b.lastObservedAt ≤ a.lastObservedAt

/-- `gc`. -/
def gc (orgID : String) : Program Unit := do
  let tokens ← perform (.listByOrgID orgID)
  let now ← perform .now
  let expired := tokens.filter fun token => (token.isExpired cfg now).toOption.isNone
  if expired = [] then return ()
  else perform (.deleteMany (expired.map Token.id))

/-- `flushLastObservedAt`. -/
def flushLastObservedAt (orgID : String) : Program Unit := do
  let observed ← listLastObservedAtDesc orgID
  perform (.updateLastObservedAtByAccessToken observed)

/-- A tick of `Start` over the orgs. -/
def tick : List String → Program Unit
  | [] => return ()
  | org :: orgs => do
    gc cfg org
    flushLastObservedAt org
    tick orgs

end Operations

end Signoz.Tokenizer
