import Mathlib.Data.List.Basic

/-!
# Tokens

`authtypes/token.go` and `tokenizer/config.go`: a pair of an access and a refresh token with the
pair before it, when it expires, when it has to be rotated, and its rotation.

A time is the number of nanoseconds since the zero time of the source, which `IsZero` tests for.
Functions that read the clock take its time.
-/

namespace Signoz.Tokenizer

abbrev Time := Int

abbrev Duration := Int

/-- The type of an error. -/
inductive ErrorType where
  | invalidInput
  | unauthenticated
  | notFound
  | alreadyExists
  | panic
deriving DecidableEq

structure Err where
  type : ErrorType
  message : String

/-- `Config`, as far as the opaque tokenizer reads it. -/
structure Config where
  rotationInterval : Duration
  rotationDuration : Duration
  lifetimeIdle : Duration
  lifetimeMax : Duration
  maxPerUser : Int

/-- `Validate`. -/
def Config.validate (c : Config) : Except Err Unit :=
  if c.lifetimeIdle < 0 then
    .error ⟨.invalidInput, "lifetime::idle must not be negative"⟩
  else if c.lifetimeMax < 0 then
    .error ⟨.invalidInput, "lifetime::max must not be negative"⟩
  else if c.rotationInterval ≥ c.lifetimeIdle then
    .error ⟨.invalidInput, "rotation::interval must be smaller than lifetime::idle"⟩
  else if c.lifetimeIdle ≥ c.lifetimeMax then
    .error ⟨.invalidInput, "lifetime::idle must be smaller than lifetime::max"⟩
  else if c.rotationDuration ≥ c.rotationInterval then
    .error ⟨.invalidInput, "rotation::duration must be smaller than rotation::interval"⟩
  else .ok ()

/-- `Token`. -/
structure Token where
  id : String
  prevAccessToken : String
  accessToken : String
  prevRefreshToken : String
  refreshToken : String
  lastObservedAt : Time
  rotatedAt : Time
  createdAt : Time
  updatedAt : Time
  userID : String
deriving DecidableEq

/-- Generated secrets: an id and two passwords. -/
structure Fresh where
  id : String
  accessToken : String
  refreshToken : String

/-- `NewToken`. -/
def newToken (fresh : Fresh) (userID : String) (now : Time) : Token :=
  ⟨fresh.id, "", fresh.accessToken, "", fresh.refreshToken, 0, 0, now, now, userID⟩

namespace Token

/-- `IsExpired`. -/
def isExpired (t : Token) (cfg : Config) (now : Time) : Except Err Unit :=
  if t.lastObservedAt ≠ 0 ∧ t.lastObservedAt < now - cfg.lifetimeIdle then
    .error ⟨.unauthenticated, "token has not been used for too long"⟩
  else if t.createdAt < now - cfg.lifetimeMax then
    .error ⟨.unauthenticated, "token was created a long time ago"⟩
  else .ok ()

/-- `IsRotationRequired`. -/
def isRotationRequired (t : Token) (cfg : Config) (now : Time) : Except Err Unit :=
  if t.rotatedAt ≠ 0 ∧ t.rotatedAt < now - cfg.rotationInterval then
    .error ⟨.unauthenticated, "token needs to be rotated"⟩
  else if t.rotatedAt = 0 ∧ t.createdAt < now - cfg.rotationInterval then
    .error ⟨.unauthenticated, "token needs to be rotated"⟩
  else .ok ()

/-- `IsValid`. -/
def isValid (t : Token) (cfg : Config) (now : Time) : Except Err Unit :=
  match t.isExpired cfg now with
  | .error err => .error err
  | .ok () => t.isRotationRequired cfg now

/-- `Rotate`, with the secrets that it generates. -/
def rotate (t : Token) (cfg : Config) (now : Time) (accessToken refreshToken : String)
    (fresh : Fresh) : Except Err Token :=
  if t.prevAccessToken = accessToken ∧ t.prevRefreshToken = refreshToken then
    if t.rotatedAt ≠ 0 ∧ t.rotatedAt < now - cfg.rotationDuration then .ok t
    else .error ⟨.unauthenticated, "invalid token pair"⟩
  else if t.accessToken ≠ accessToken ∨ t.refreshToken ≠ refreshToken then
    .error ⟨.unauthenticated, "invalid token pair"⟩
  else
    match t.isExpired cfg now with
    | .error err => .error err
    | .ok () =>
      .ok { t with
        prevAccessToken := t.accessToken
        accessToken := fresh.accessToken
        prevRefreshToken := t.refreshToken
        refreshToken := fresh.refreshToken
        rotatedAt := now
        updatedAt := now }

/-- `UpdateLastObservedAt`. -/
def updateLastObservedAt (t : Token) (lastObservedAt now : Time) : Except Err Token :=
  if lastObservedAt < t.lastObservedAt then
    .error ⟨.invalidInput, "last observed at is before the current last observed at"⟩
  else .ok { t with lastObservedAt := lastObservedAt, updatedAt := now }

end Token

end Signoz.Tokenizer
