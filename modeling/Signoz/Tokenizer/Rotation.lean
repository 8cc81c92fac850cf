import Mathlib.Algebra.Order.Group.Defs
import Mathlib.Algebra.Order.Group.Int
import Signoz.Lib.Runs
import Signoz.Querier.TimeSeries
import Signoz.Tokenizer.Token

/-!
# Rotations of one token

`Rotate` answers a pair that has been replaced. `RotationConfig` has the previous pair stay valid
for `Rotation.Duration`, and the comment in `Rotate` has the token returned within that time; the
code compares the other way, so that a previous pair is refused for `Rotation.Duration` and accepted
ever after (`rotate_previous`).
-/

namespace Signoz.Tokenizer

/-! ## Runs -/

/-- A call of `Rotate`, with the time of its clock and the secrets it may generate. -/
structure Rotation where
  time : Time
  accessToken : String
  refreshToken : String
  fresh : Fresh

/-- A token, and the time of the last call. -/
structure Rotating where
  token : Token
  clock : Time

/-- The config with what the source takes off a time: it adds `-d`, and the least `time.Duration`
is its own negation. -/
def Config.subtracted (cfg : Config) : Config :=
  { cfg with
    rotationDuration := -Querier.wrapInt64 (-cfg.rotationDuration)
    lifetimeIdle := -Querier.wrapInt64 (-cfg.lifetimeIdle)
    lifetimeMax := -Querier.wrapInt64 (-cfg.lifetimeMax) }

section Steps

variable (cfg : Config)

/-- What the call returns. -/
def Rotating.result (s : Rotating) (call : Rotation) : Except Err Token :=
  s.token.rotate cfg.subtracted call.time call.accessToken call.refreshToken call.fresh

/-- One call; a failing one does not write the token. The clock does not go back, and no secret is
generated twice in a row. -/
def rotateStep (s : Rotating) (call : Rotation) : Option Rotating :=
  if call.time < s.clock then none
  else if call.fresh.accessToken = s.token.accessToken then none
  else
    match s.result cfg call with
    | .ok token => some ⟨token, call.time⟩
    | .error _ => some ⟨s.token, call.time⟩

/-- The call presents the current pair. -/
def Rotation.Current (call : Rotation) (t : Token) : Prop :=
  t.accessToken = call.accessToken ∧ t.refreshToken = call.refreshToken

/-- The call presents the previous pair of a token that has been rotated. -/
def Rotation.Previous (call : Rotation) (t : Token) : Prop :=
  (t.prevAccessToken = call.accessToken ∧ t.prevRefreshToken = call.refreshToken) ∧
    t.rotatedAt ≠ 0

/-- The token is not expired at the time of the call. -/
def Rotation.Unexpired (call : Rotation) (t : Token) : Prop :=
  t.isExpired cfg.subtracted call.time = .ok ()

/-- The call does what the grace period asks for. -/
structure HonoursGrace (s : Rotating) (call : Rotation) : Prop where
  current : call.Current s.token → call.Unexpired cfg s.token → ∃ token,
    s.result cfg call = .ok token ∧
      (token.prevAccessToken = s.token.accessToken ∧
        token.prevRefreshToken = s.token.refreshToken) ∧
      (token.accessToken = call.fresh.accessToken ∧
        token.refreshToken = call.fresh.refreshToken) ∧
      token.rotatedAt = call.time
  within : call.Previous s.token → call.time - s.token.rotatedAt ≤ cfg.rotationDuration →
    s.result cfg call = .ok s.token
  after : call.Previous s.token → cfg.rotationDuration < call.time - s.token.rotatedAt →
    ∃ err, s.result cfg call = .error err
  other : ¬call.Current s.token → ¬call.Previous s.token → ∃ err, s.result cfg call = .error err
  failing : ∀ err t, s.result cfg call = .error err → rotateStep cfg s call = some t →
    t.token = s.token

/-- The call does not present the previous pair of a rotated token; with the least `time.Duration`
it may, for `2 ^ 63` nanoseconds. -/
def SparesPrevious (s : Rotating) (call : Rotation) : Prop :=
  call.Previous s.token → cfg.rotationDuration = -2 ^ 63 ∧
    -2 ^ 63 < call.time - s.token.rotatedAt ∧ call.time - s.token.rotatedAt ≤ 2 ^ 63

end Steps

/-- The current and the previous pair are not the same. -/
def Token.PairsDiffer (t : Token) : Prop :=
  t.prevAccessToken ≠ t.accessToken ∨ t.prevRefreshToken ≠ t.refreshToken

/-! ## One call -/

section Call

variable {cfg : Config} {s : Rotating} {call : Rotation}

/-- A previous pair is accepted once more than `Rotation.Duration` has passed. -/
theorem rotate_previous (h : call.Previous s.token) :
    s.result cfg call =
      if cfg.subtracted.rotationDuration < call.time - s.token.rotatedAt then .ok s.token
      else .error ⟨.unauthenticated, "invalid token pair"⟩ := by
  have hlate : (s.token.rotatedAt ≠ 0 ∧
      s.token.rotatedAt < call.time - cfg.subtracted.rotationDuration) ↔
      cfg.subtracted.rotationDuration < call.time - s.token.rotatedAt := by
    rw [and_iff_right h.2]
    exact lt_sub_comm
  rw [Rotating.result, Token.rotate, if_pos h.1]
  simp only [hlate]

/-- The token with a new pair, rotated at the time of the call. -/
def Rotation.installed (call : Rotation) (t : Token) : Token :=
  { t with
    prevAccessToken := t.accessToken
    accessToken := call.fresh.accessToken
    prevRefreshToken := t.refreshToken
    refreshToken := call.fresh.refreshToken
    rotatedAt := call.time
    updatedAt := call.time }

theorem rotate_current (hpairs : s.token.PairsDiffer) (h : call.Current s.token)
    (hlive : call.Unexpired cfg s.token) :
    s.result cfg call = .ok (call.installed s.token) := by
  have hprev : ¬(s.token.prevAccessToken = call.accessToken ∧
      s.token.prevRefreshToken = call.refreshToken) := by
    rw [← h.1, ← h.2, not_and_or]
    exact hpairs
  have hcur : ¬(s.token.accessToken ≠ call.accessToken ∨
      s.token.refreshToken ≠ call.refreshToken) := by
    rw [not_or, not_not, not_not]
    exact h
  have hexpired : s.token.isExpired cfg.subtracted call.time = .ok () := hlive
  rw [Rotating.result, Token.rotate, if_neg hprev, if_neg hcur, hexpired]
  rfl

theorem rotate_other (hcurrent : ¬call.Current s.token) (hprevious : ¬call.Previous s.token) :
    s.result cfg call = .error ⟨.unauthenticated, "invalid token pair"⟩ := by
  rw [Rotating.result, Token.rotate]
  split_ifs with hpair hlate hne
  · exact absurd ⟨hpair, hlate.1⟩ hprevious
  · rfl
  · rfl
  · rw [not_or, not_not, not_not] at hne
    exact absurd hne hcurrent

/-- What a call that succeeds leaves. -/
theorem result_ok {t : Token} (h : s.result cfg call = .ok t) :
    t = s.token ∨ t = call.installed s.token := by
  rw [Rotating.result, Token.rotate] at h
  split_ifs at h
  · exact .inl (Except.ok.inj h).symm
  · split at h
    · cases h
    · exact .inr (Except.ok.inj h).symm

/-- A pair that has just been installed is not the pair before it. -/
theorem pairsDiffer_step {t : Rotating} (h : s.token.PairsDiffer)
    (hstep : rotateStep cfg s call = some t) : t.token.PairsDiffer := by
  unfold rotateStep at hstep
  split_ifs at hstep with htime hfresh
  split at hstep
  · rename_i token hresult
    obtain rfl := Option.some.inj hstep
    rcases result_ok hresult with rfl | rfl
    · exact h
    · exact .inl (Ne.symm hfresh)
  · obtain rfl := Option.some.inj hstep
    exact h

/-- A call that fails leaves the token unchanged. -/
theorem token_of_failing {err : Err} {t : Rotating} (h : s.result cfg call = .error err)
    (hstep : rotateStep cfg s call = some t) : t.token = s.token := by
  unfold rotateStep at hstep
  split_ifs at hstep
  rw [h] at hstep
  obtain rfl := Option.some.inj hstep
  rfl

theorem subtracted_of_min (h : cfg.rotationDuration = -2 ^ 63) :
    cfg.subtracted.rotationDuration = 2 ^ 63 := by
  rw [Config.subtracted, h]
  rfl

theorem subtracted_of_ne_min (hmin : -2 ^ 63 ≤ cfg.rotationDuration)
    (hmax : cfg.rotationDuration < 2 ^ 63) (hne : cfg.rotationDuration ≠ -2 ^ 63) :
    cfg.subtracted.rotationDuration = cfg.rotationDuration := by
  have hlt : -2 ^ 63 < cfg.rotationDuration := lt_of_le_of_ne hmin (Ne.symm hne)
  generalize hd : cfg.rotationDuration = d at hmin hmax hlt
  have hwrap : Querier.wrapInt64 (-d) = -d := by
    unfold Querier.wrapInt64 Duration at *
    omega
  rw [Config.subtracted, hd, hwrap, neg_neg]

/-- A call honours the grace period if and only if it spares the previous pair. -/
theorem honoursGrace_iff (hmin : -2 ^ 63 ≤ cfg.rotationDuration)
    (hmax : cfg.rotationDuration < 2 ^ 63) (hpairs : s.token.PairsDiffer) :
    HonoursGrace cfg s call ↔ SparesPrevious cfg s call := by
  constructor
  · intro h hprev
    have hresult : s.result cfg call =
        if cfg.subtracted.rotationDuration < call.time - s.token.rotatedAt then .ok s.token
        else .error ⟨.unauthenticated, "invalid token pair"⟩ := rotate_previous hprev
    by_cases hleast : cfg.rotationDuration = -2 ^ 63
    · -- no time is within the least duration: the call must fail
      rw [subtracted_of_min hleast] at hresult
      refine ⟨hleast, lt_of_not_ge fun hle => ?_, le_of_not_gt fun hlt => ?_⟩
      · have hok := h.within hprev (hle.trans_eq hleast.symm)
        have hnot : ¬(2 ^ 63 : Int) < call.time - s.token.rotatedAt :=
          not_lt.mpr (hle.trans (by decide))
        rw [hok, if_neg hnot] at hresult
        cases hresult
      · have hless : cfg.rotationDuration < call.time - s.token.rotatedAt := by
          rw [hleast]
          exact lt_trans (by decide) hlt
        obtain ⟨err, herr⟩ := h.after hprev hless
        rw [herr, if_pos hlt] at hresult
        cases hresult
    · rw [subtracted_of_ne_min hmin hmax hleast] at hresult
      by_cases hlate : cfg.rotationDuration < call.time - s.token.rotatedAt
      · obtain ⟨err, herr⟩ := h.after hprev hlate
        rw [herr, if_pos hlate] at hresult
        cases hresult
      · have hok := h.within hprev (not_lt.mp hlate)
        rw [hok, if_neg hlate] at hresult
        cases hresult
  · intro h
    constructor
    · intro hcurrent hlive
      exact ⟨_, rotate_current hpairs hcurrent hlive, ⟨rfl, rfl⟩, ⟨rfl, rfl⟩, rfl⟩
    · intro hprev hle
      obtain ⟨hleast, hlt, -⟩ := h hprev
      rw [hleast] at hle
      exact absurd hle (not_le.mpr hlt)
    · intro hprev _
      obtain ⟨hleast, -, hle⟩ := h hprev
      refine ⟨⟨.unauthenticated, "invalid token pair"⟩, ?_⟩
      rw [rotate_previous hprev, subtracted_of_min hleast, if_neg (not_lt.mpr hle)]
    · exact fun hcurrent hprev => ⟨_, rotate_other hcurrent hprev⟩
    · exact fun err t herr hstep => token_of_failing herr hstep

end Call

/-- In every run the calls honour the grace period if and only if they spare the previous pair of
a token that has been rotated. -/
theorem rotations_honour_grace_iff (cfg : Config) (hmin : -2 ^ 63 ≤ cfg.rotationDuration)
    (hmax : cfg.rotationDuration < 2 ^ 63) (s : Rotating) (hpairs : s.token.PairsDiffer)
    (calls : List Rotation) :
    Lib.Runs.StepsMeet (rotateStep cfg) (HonoursGrace cfg) s calls ↔
      Lib.Runs.StepsMeet (rotateStep cfg) (SparesPrevious cfg) s calls := by
  apply Lib.Runs.stepsMeet_congr (I := fun s _ => s.token.PairsDiffer)
  · exact fun _ _ _ _ hpairs hstep => pairsDiffer_step hpairs hstep
  · exact fun _ _ _ hpairs => honoursGrace_iff hmin hmax hpairs
  · exact hpairs

/-! ## Two clients -/

/-- The grace period is 60. -/
def graceConfig : Config := ⟨1800, 60, 7000, 30000, 5⟩

/-- A token that has not been rotated. -/
def unrotated : Rotating := ⟨⟨"id", "", "access", "", "refresh", 0, 0, 10, 10, "user"⟩, 10⟩

/-- Refreshing with the first pair, and later with the second. -/
def refreshTwice : List Rotation :=
  [⟨20, "access", "refresh", ⟨"", "access2", "refresh2"⟩⟩,
    ⟨2000, "access2", "refresh2", ⟨"", "access3", "refresh3"⟩⟩]

theorem refreshTwice_honours_grace :
    Lib.Runs.StepsMeet (rotateStep graceConfig) (HonoursGrace graceConfig) unrotated
      refreshTwice := by
  refine (rotations_honour_grace_iff graceConfig (by decide) (by decide) unrotated
    (.inl (by decide)) refreshTwice).mpr ⟨?_, ?_⟩
  · exact fun hprev => absurd hprev.1.1 (by decide)
  rintro _ ⟨⟩
  refine ⟨?_, fun _ _ => trivial⟩
  exact fun hprev => absurd hprev.1.1 (by decide)

/-- Two clients refresh with one pair, the second 20 after the first, and the pair is replayed
after the grace period. -/
def refreshBoth : List Rotation :=
  [⟨20, "access", "refresh", ⟨"", "access2", "refresh2"⟩⟩,
    ⟨40, "access", "refresh", ⟨"", "access3", "refresh3"⟩⟩,
    ⟨2000, "access", "refresh", ⟨"", "access4", "refresh4"⟩⟩]

/-- The second client is refused, and the replay is answered. -/
theorem refreshBoth_breaks_grace :
    graceConfig.validate = .ok () ∧
      ¬Lib.Runs.StepsMeet (rotateStep graceConfig) (HonoursGrace graceConfig) unrotated
        refreshBoth := by
  refine ⟨rfl, ?_⟩
  rintro ⟨-, hrest⟩
  obtain ⟨hsecond, -⟩ := hrest _ rfl
  have hok := hsecond.within ⟨⟨rfl, rfl⟩, by decide⟩ (by decide)
  cases hok

end Signoz.Tokenizer
