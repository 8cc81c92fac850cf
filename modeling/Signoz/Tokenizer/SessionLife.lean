import Mathlib.Data.List.Nodup
import Signoz.Tokenizer.Provider

/-!
# How long a session lives

One operation after another, at times that do not go back, with caches that lose no entry. The
garbage collector and `RotateToken` judge a token by the row of the table; the last activity of a
token waits in a cache until a tick has flushed it, and a tick collects before it flushes.

`lastSet` is no part of the source: it holds the time of the last successful `SetLastObservedAt`
of an access token.
-/

namespace Signoz.Tokenizer

open Lib.Programs hiding perform

/-! ## Runs -/

/-- An operation of a run. -/
inductive Act where
  | createToken (identity : Identity)
  | setLastObservedAt (accessToken : String)
  | rotateToken (accessToken refreshToken : String)
  | tick (orgs : List String)

/-- An operation at a time, with the secrets that its calls may generate. -/
structure Event where
  act : Act
  time : Time
  fresh : List Fresh

/-- The world, and when each access token was last observed. -/
structure Session where
  world : World
  lastSet : String → Option Time

section Run

variable (cfg : Config)

/-- What a call runs. -/
def Event.program (e : Event) : Program (Except Err Value) :=
  match e.act with
  | .createToken identity => createToken cfg identity
  | .setLastObservedAt accessToken => setLastObservedAt accessToken e.time
  | .rotateToken accessToken refreshToken => rotateToken cfg accessToken refreshToken
  | .tick orgs => do
    tick cfg orgs
    return .ok .nothing

/-- The world after an operation, and what it returns. -/
def outcome (w : World) (e : Event) : Option (World × Except Err Value) :=
  if e.time < w.clock then none
  else runAlone sem (e.program cfg) e.fresh { w with clock := e.time }

/-- A call, and the time of the observation that it makes. -/
def sessionStep (s : Session) (e : Event) : Option Session :=
  (outcome cfg s.world e).map fun p =>
    { world := p.1
      lastSet :=
        match e.act, p.2 with
        | .setLastObservedAt accessToken, .ok _ =>
          Function.update s.lastSet accessToken (some e.time)
        | _, _ => s.lastSet }

/-- Nothing has been created or observed; no secret is empty. -/
def initialSession (users : List Identity) : Session where
  world :=
    { cache := fun _ => none
      identityCache := fun _ => none
      lastObservedAtCache := fun _ => none
      store := []
      users := users
      locked := []
      seen := [""]
      clock := 0
      revoked := [] }
  lastSet := fun _ => none

/-- An error of `IsExpired`. -/
def Err.isExpired (err : Err) : Prop :=
  err.message = "token has not been used for too long" ∨
    err.message = "token was created a long time ago"

/-- The row belongs to the org. -/
def World.inOrg (w : World) (org : String) (row : Token) : Bool :=
  w.users.any fun user => user.userID = row.userID && user.orgID = org

end Run

/-! ## Calls, alone -/

section Calls

variable {w : World}

attribute [local simp] sem

/-- A call that does one thing. -/
theorem ensures_of_sem {call : Call} {w' : World} {x : Answer call}
    {Q : World → Answer call → Prop} (h : ∀ fresh, sem call fresh w = some (w', x)) :
    Ensures sem (perform call) w Q ↔ Q w' x := by
  refine ensures_perform.trans ⟨fun hall => hall ⟨"", "", ""⟩ w' x (h _), ?_⟩
  intro hQ fresh w'' x' hsem
  rw [h fresh] at hsem
  cases hsem
  exact hQ

variable {a : String}

theorem ensures_cacheGet {Q : World → Option Token → Prop} :
    Ensures sem (perform (.cacheGet a)) w Q ↔ Q w (w.cache a) :=
  ensures_of_sem fun _ => rfl

variable {token : Token} {Q : World → Unit → Prop}

theorem ensures_cacheSet :
    Ensures sem (perform (.cacheSet a token)) w Q ↔
      Q { w with cache := Function.update w.cache a (some token) } () :=
  ensures_of_sem fun _ => rfl

theorem ensures_cacheDelete :
    Ensures sem (perform (.cacheDelete a)) w Q ↔
      Q { w with cache := Function.update w.cache a none } () :=
  ensures_of_sem fun _ => rfl

theorem ensures_identityCacheSet {identity : Identity} :
    Ensures sem (perform (.identityCacheSet identity)) w Q ↔
      Q { w with
        identityCache := Function.update w.identityCache identity.userID (some identity) } () :=
  ensures_of_sem fun _ => rfl

theorem ensures_lastObservedAtCacheGet {a u : String}
    {Q : World → Option Time → Prop} :
    Ensures sem (perform (.lastObservedAtCacheGet a u)) w Q ↔ Q w (w.lastObservedAtCache (a, u)) :=
  ensures_of_sem fun _ => rfl

theorem ensures_lastObservedAtCacheSet {a u : String} {t : Time} :
    Ensures sem (perform (.lastObservedAtCacheSet a u t)) w Q ↔
      Q { w with
        lastObservedAtCache := Function.update w.lastObservedAtCache (a, u) (some t) } () :=
  ensures_of_sem fun _ => rfl

theorem ensures_getByAccessToken {Q : World → Option Token → Prop} :
    Ensures sem (perform (.getByAccessToken a)) w Q ↔
      Q w (w.store.find? fun row => row.accessToken = a) :=
  ensures_of_sem fun _ => rfl

theorem ensures_listByOrgID {org : String} {Q : World → List Token → Prop} :
    Ensures sem (perform (.listByOrgID org)) w Q ↔ Q w (w.store.filter (w.inOrg org)) :=
  ensures_of_sem fun _ => rfl

theorem ensures_listByUserID {u : String} {Q : World → List Token → Prop} :
    Ensures sem (perform (.listByUserID u)) w Q ↔
      Q w (w.store.filter fun row => row.userID = u) :=
  ensures_of_sem fun _ => rfl

theorem ensures_endUpdate {id : String} :
    Ensures sem (perform (.endUpdate id)) w Q ↔ Q { w with locked := w.locked.erase id } () :=
  ensures_of_sem fun _ => rfl

theorem ensures_now {Q : World → Time → Prop} :
    Ensures sem (perform .now) w Q ↔ Q w w.clock :=
  ensures_of_sem fun _ => rfl

theorem ensures_generate {Q : World → Fresh → Prop} :
    Ensures sem (perform .generate) w Q ↔ ∀ fresh : Fresh, fresh.id ∉ w.seen →
      fresh.accessToken ∉ w.seen → fresh.refreshToken ∉ w.seen →
        Q { w with seen := fresh.id :: fresh.accessToken :: fresh.refreshToken :: w.seen }
          fresh := by
  refine ensures_perform.trans ?_
  constructor
  · intro h fresh hid haccess hrefresh
    exact h fresh _ fresh (if_neg (by simp [hid, haccess, hrefresh]))
  · intro h fresh w' x hsem
    simp only [sem, Option.ite_none_left_eq_some, not_or] at hsem
    obtain ⟨⟨hid, haccess, hrefresh⟩, heq⟩ := hsem
    cases heq
    exact h fresh hid haccess hrefresh

/-- The row is locked, if there is one. -/
theorem ensures_beginUpdate {Q : World → Option Token → Prop}
    (hnone : (w.store.find? fun row => row.hasAccessToken a) = none → Q w none)
    (hsome : ∀ row, (w.store.find? fun row => row.hasAccessToken a) = some row →
      Q { w with locked := row.id :: w.locked } (some row)) :
    Ensures sem (perform (.beginUpdate a)) w Q := by
  refine ensures_perform.2 ?_
  intro fresh w' x hsem
  simp only [sem] at hsem
  split at hsem
  · rename_i hfind
    cases hsem
    exact hnone hfind
  · rename_i row hfind
    split at hsem
    · cases hsem
    · cases hsem
      exact hsome row hfind

theorem ensures_create {Q : World → Bool → Prop} (hno : Q w false)
    (hyes : Q { w with store := w.store ++ [token] } true) :
    Ensures sem (perform (.create token)) w Q := by
  refine ensures_perform.2 ?_
  intro fresh w' x hsem
  simp only [sem] at hsem
  split at hsem
  · cases hsem
    exact hno
  · cases hsem
    exact hyes

theorem ensures_commitUpdate {Q : World → Bool → Prop}
    (hno : Q { w with locked := w.locked.erase token.id } false) (hyes : Q (w.update token) true) :
    Ensures sem (perform (.commitUpdate token)) w Q := by
  refine ensures_perform.2 ?_
  intro fresh w' x hsem
  simp only [sem] at hsem
  split at hsem
  · cases hsem
    exact hno
  · cases hsem
    exact hyes

end Calls

/-! ## One tick -/

section Tick

variable {cfg : Config}

/-- The ids that `gc` of an org deletes. -/
def expiredIDs (cfg : Config) (org : String) (w : World) : List String :=
  ((w.store.filter (w.inOrg org)).filter fun token =>
    (token.isExpired cfg w.clock).toOption.isNone).map Token.id

/-- The world after `gc` of an org. -/
def collected (cfg : Config) (org : String) (w : World) : World :=
  { w with store := w.store.filter fun row => !(expiredIDs cfg org w).contains row.id }

/-- What the cache knows of the tokens. -/
def observations (tokens : List Token) (w : World) : List Observed :=
  tokens.filterMap fun token =>
    (w.lastObservedAtCache (token.accessToken, token.userID)).map fun t =>
      ⟨token.accessToken, token.userID, t⟩

/-- The world after `flushLastObservedAt` of an org. -/
def flushed (org : String) (w : World) : World :=
  ((observations (w.store.filter (w.inOrg org)) w).mergeSort fun a b =>
    b.lastObservedAt ≤ a.lastObservedAt).foldl World.updateObserved w

/-- Garbage collection deletes the rows that have expired. -/
theorem gc_ensures (org : String) (w : World) :
    Ensures sem (gc cfg org) w fun w' _ => w' = collected cfg org w := by
  have hids : expiredIDs cfg org w = ((w.store.filter (w.inOrg org)).filter fun token =>
    (token.isExpired cfg w.clock).toOption.isNone).map Token.id := rfl
  simp only [gc, ensures_bind]
  rw [ensures_listByOrgID, ensures_now]
  split
  · rename_i hnone
    rw [hnone, List.map_nil] at hids
    simp [collected, hids]
  · rw [← hids]
    refine ensures_perform.2 ?_
    intro fresh w' x hrun
    simp only [sem] at hrun
    split at hrun
    · cases hrun
    · cases hrun
      rfl

theorem cachedObservations_ensures (tokens : List Token) (w : World) :
    Ensures sem (cachedObservations tokens) w fun w' observed =>
      w' = w ∧ observed = observations tokens w := by
  induction tokens with
  | nil => simp [cachedObservations, observations]
  | cons token tokens ih =>
    simp only [cachedObservations, ensures_bind]
    rw [ensures_lastObservedAtCacheGet]
    refine ih.mono ?_
    rintro w' observed ⟨rfl, rfl⟩
    cases hcached : w'.lastObservedAtCache (token.accessToken, token.userID) with
    | none => simp [observations, hcached]
    | some t => simp [observations, hcached]

/-- A flush writes the cached observations to the rows. -/
theorem flushLastObservedAt_ensures (org : String) (w : World) :
    Ensures sem (flushLastObservedAt org) w fun w' _ => w' = flushed org w := by
  simp only [flushLastObservedAt, listLastObservedAtDesc, ensures_bind]
  rw [ensures_listByOrgID]
  refine (cachedObservations_ensures _ w).mono ?_
  rintro _ observed ⟨rfl, rfl⟩
  rw [ensures_pure]
  refine ensures_perform.2 ?_
  intro fresh w' x hrun
  simp only [sem] at hrun
  split at hrun
  · cases hrun
  · cases hrun
    rfl

/-- A tick collects and flushes one org after the other. -/
theorem tick_ensures (orgs : List String) (w : World) :
    Ensures sem (tick cfg orgs) w fun w' _ =>
      w' = orgs.foldl (fun w org => flushed org (collected cfg org w)) w := by
  induction orgs generalizing w with
  | nil => simp [tick]
  | cons org orgs ih =>
    simp only [tick, ensures_bind]
    refine (gc_ensures org w).mono ?_
    rintro _ - rfl
    refine (flushLastObservedAt_ensures org _).mono ?_
    rintro _ - rfl
    exact ih _

/-- A row with an activity, if it is the one of the row. -/
def Token.observe (row : Token) (o : Observed) : Token :=
  if row.accessToken = o.accessToken ∧ row.userID = o.userID then
    { row with lastObservedAt := o.lastObservedAt }
  else row

theorem foldl_updateObserved (observed : List Observed) (w : World) :
    observed.foldl World.updateObserved w =
      { w with store := w.store.map fun row => observed.foldl Token.observe row } := by
  induction observed generalizing w with
  | nil => simp
  | cons o observed ih =>
    rw [List.foldl_cons, ih]
    simp [World.updateObserved, Token.observe, Function.comp_def]

/-- Only the time of a row changes, to that of one of its activities. -/
theorem foldl_observe (observed : List Observed) (row : Token) :
    ∃ t, observed.foldl Token.observe row = { row with lastObservedAt := t } ∧
      (t = row.lastObservedAt ∨ ∃ o ∈ observed,
        o.accessToken = row.accessToken ∧ o.userID = row.userID ∧ o.lastObservedAt = t) := by
  induction observed generalizing row with
  | nil => exact ⟨row.lastObservedAt, rfl, .inl rfl⟩
  | cons o observed ih =>
    obtain ⟨t, ht, hfrom⟩ := ih (row.observe o)
    by_cases hown : row.accessToken = o.accessToken ∧ row.userID = o.userID
    · have hobs : row.observe o = { row with lastObservedAt := o.lastObservedAt } := if_pos hown
      rw [hobs] at ht hfrom
      refine ⟨t, by rw [List.foldl_cons, hobs, ht], ?_⟩
      obtain rfl | ⟨o', ho', hkeys⟩ := hfrom
      · exact .inr ⟨o, List.mem_cons_self, hown.1.symm, hown.2.symm, rfl⟩
      · exact .inr ⟨o', List.mem_cons_of_mem _ ho', hkeys⟩
    · have hobs : row.observe o = row := if_neg hown
      rw [hobs] at ht hfrom
      refine ⟨t, by rw [List.foldl_cons, hobs, ht], ?_⟩
      obtain rfl | ⟨o', ho', hkeys⟩ := hfrom
      · exact .inl rfl
      · exact .inr ⟨o', List.mem_cons_of_mem _ ho', hkeys⟩

variable {w : World}

theorem mem_observations {tokens : List Token} {o : Observed} :
    o ∈ observations tokens w ↔ ∃ token ∈ tokens, token.accessToken = o.accessToken ∧
      token.userID = o.userID ∧
        w.lastObservedAtCache (token.accessToken, token.userID) = some o.lastObservedAt := by
  simp only [observations, List.mem_filterMap, Option.map_eq_some_iff]
  constructor
  · rintro ⟨token, htoken, t, ht, rfl⟩
    exact ⟨token, htoken, rfl, rfl, ht⟩
  · rintro ⟨token, htoken, haccess, huser, ht⟩
    exact ⟨token, htoken, o.lastObservedAt, ht, by rw [haccess, huser]⟩

/-- Rows have been deleted, and the times of others set to what the cache has. -/
structure World.Ticked (w w' : World) : Prop where
  frame : w' = { w with store := w'.store }
  ids : (w'.store.map Token.id).Sublist (w.store.map Token.id)
  accessTokens : (w'.store.map Token.accessToken).Sublist (w.store.map Token.accessToken)
  rows : ∀ row' ∈ w'.store, ∃ row ∈ w.store, ∃ t, row' = { row with lastObservedAt := t } ∧
    (t = row.lastObservedAt ∨
      w.lastObservedAtCache (row.accessToken, row.userID) = some t)

theorem World.Ticked.refl (w : World) : w.Ticked w where
  frame := rfl
  ids := List.Sublist.refl _
  accessTokens := List.Sublist.refl _
  rows := fun row hrow => ⟨row, hrow, row.lastObservedAt, rfl, .inl rfl⟩

theorem World.Ticked.trans {u v w : World} (huv : u.Ticked v) (hvw : v.Ticked w) : u.Ticked w where
  frame := by
    rw [hvw.frame, huv.frame]
  ids := hvw.ids.trans huv.ids
  accessTokens := hvw.accessTokens.trans huv.accessTokens
  rows := by
    intro row'' hrow''
    obtain ⟨row', hrow', t', rfl, ht'⟩ := hvw.rows row'' hrow''
    obtain ⟨row, hrow, t, rfl, ht⟩ := huv.rows row' hrow'
    have hcache : v.lastObservedAtCache = u.lastObservedAtCache := by rw [huv.frame]
    rw [hcache] at ht'
    refine ⟨row, hrow, t', rfl, ?_⟩
    obtain rfl | ht' := ht'
    · exact ht
    · exact .inr ht'

/-- Rows are deleted, none is changed. -/
theorem collected_ticked (org : String) (w : World) : w.Ticked (collected cfg org w) where
  frame := rfl
  ids := List.filter_sublist.map _
  accessTokens := List.filter_sublist.map _
  rows := fun row hrow =>
    ⟨row, List.mem_of_mem_filter hrow, row.lastObservedAt, rfl, .inl rfl⟩

/-- What a flush leaves of a row. -/
theorem flushed_row (org : String) (w : World) (row : Token) :
    ∃ t, ((observations (w.store.filter (w.inOrg org)) w).mergeSort fun a b =>
        b.lastObservedAt ≤ a.lastObservedAt).foldl Token.observe row =
          { row with lastObservedAt := t } ∧
      (t = row.lastObservedAt ∨
        (w.lastObservedAtCache (row.accessToken, row.userID) = some t ∧
          ∃ token ∈ w.store, w.inOrg org token = true ∧ token.accessToken = row.accessToken)) := by
  obtain ⟨t, ht, hfrom⟩ := foldl_observe
    ((observations (w.store.filter (w.inOrg org)) w).mergeSort fun a b =>
      b.lastObservedAt ≤ a.lastObservedAt) row
  refine ⟨t, ht, ?_⟩
  obtain hsame | ⟨o, ho, haccess, huser, rfl⟩ := hfrom
  · exact .inl hsame
  · rw [List.mem_mergeSort, mem_observations] at ho
    obtain ⟨token, htoken, htoken_access, htoken_user, hcached⟩ := ho
    rw [htoken_access, htoken_user, haccess, huser] at hcached
    rw [List.mem_filter] at htoken
    exact .inr ⟨hcached, token, htoken.1, htoken.2, htoken_access.trans haccess⟩

/-- A flush changes at most the observations of rows. -/
theorem flushed_ticked (org : String) (w : World) : w.Ticked (flushed org w) := by
  have hfields : ∀ row, ∃ t, ((observations (w.store.filter (w.inOrg org)) w).mergeSort fun a b =>
      b.lastObservedAt ≤ a.lastObservedAt).foldl Token.observe row =
        { row with lastObservedAt := t } := fun row =>
    (flushed_row org w row).imp fun t ht => ht.1
  rw [flushed, foldl_updateObserved]
  refine ⟨rfl, ?_, ?_, ?_⟩
  · have hids : (w.store.map fun row => ((observations (w.store.filter (w.inOrg org)) w).mergeSort
        fun a b => b.lastObservedAt ≤ a.lastObservedAt).foldl Token.observe row).map Token.id =
          w.store.map Token.id := by
      rw [List.map_map]
      apply List.map_congr_left
      intro row _
      obtain ⟨t, ht⟩ := hfields row
      rw [Function.comp_apply, ht]
    rw [hids]
  · have haccess : (w.store.map fun row => ((observations (w.store.filter (w.inOrg org))
        w).mergeSort fun a b => b.lastObservedAt ≤ a.lastObservedAt).foldl Token.observe row).map
          Token.accessToken = w.store.map Token.accessToken := by
      rw [List.map_map]
      apply List.map_congr_left
      intro row _
      obtain ⟨t, ht⟩ := hfields row
      rw [Function.comp_apply, ht]
    rw [haccess]
  · intro row' hrow'
    obtain ⟨row, hrow, rfl⟩ := List.mem_map.1 hrow'
    obtain ⟨t, ht, hfrom⟩ := flushed_row org w row
    exact ⟨row, hrow, t, ht, hfrom.imp id fun h => h.1⟩

theorem foldl_ticked (orgs : List String) (w : World) :
    w.Ticked (orgs.foldl (fun w org => flushed org (collected cfg org w)) w) := by
  induction orgs generalizing w with
  | nil => exact World.Ticked.refl w
  | cons org orgs ih =>
    apply World.Ticked.trans (collected_ticked org w)
    apply World.Ticked.trans (flushed_ticked org _)
    exact ih _

variable {orgs : List String}

end Tick

/-! ## What holds in every session -/

/-- What the caches and the table have in common, with the time of the last successful
`SetLastObservedAt` of an access token. -/
structure Sound (w : World) (lastSet : String → Option Time) : Prop where
  ids : (w.store.map Token.id).Nodup
  accessTokens : (w.store.map Token.accessToken).Nodup
  previous : ∀ row ∈ w.store, ∀ row' ∈ w.store, row.prevAccessToken ≠ "" →
    row.prevAccessToken ≠ row'.accessToken
  seen : ∀ row ∈ w.store, row.id ∈ w.seen ∧ row.accessToken ∈ w.seen ∧
    row.prevAccessToken ∈ w.seen
  nonempty : ∀ row ∈ w.store, row.accessToken ≠ ""
  empty_seen : "" ∈ w.seen
  cached : ∀ a token, w.cache a = some token → a ∈ w.seen ∧ token.lastObservedAt ≤ w.clock ∧
    ∀ row ∈ w.store, row.accessToken = a → row.userID = token.userID
  activity : ∀ a u t, w.lastObservedAtCache (a, u) = some t → a ∈ w.seen ∧ t ≤ w.clock
  set_seen : ∀ a t, lastSet a = some t → a ∈ w.seen
  agree : ∀ row ∈ w.store,
    w.lastObservedAtCache (row.accessToken, row.userID) = lastSet row.accessToken
  observed : ∀ row ∈ w.store, row.lastObservedAt ≤ w.clock
  started : (0 : Int) ≤ w.clock

namespace Sound

variable {w w' : World} {lastSet : String → Option Time}

theorem initial (users : List Identity) :
    Sound (initialSession users).world (initialSession users).lastSet := by
  constructor <;> simp [initialSession]

theorem at_time (h : Sound w lastSet) {now : Time} (hnow : w.clock ≤ now) :
    Sound { w with clock := now } lastSet where
  ids := h.ids
  accessTokens := h.accessTokens
  previous := h.previous
  seen := h.seen
  nonempty := h.nonempty
  empty_seen := h.empty_seen
  cached := fun a token htoken =>
    ⟨(h.cached a token htoken).1, Int.le_trans (h.cached a token htoken).2.1 hnow,
      (h.cached a token htoken).2.2⟩
  activity := fun a u t ht => ⟨(h.activity a u t ht).1, Int.le_trans (h.activity a u t ht).2 hnow⟩
  set_seen := h.set_seen
  agree := h.agree
  observed := fun row hrow => Int.le_trans (h.observed row hrow) hnow
  started := Int.le_trans h.started hnow

/-- Rows and entries of the cache of tokens may go, and rows take the times of the cache. -/
theorem restrict (h : Sound w lastSet) (hticked : w.Ticked { w with store := w'.store })
    (hcache : ∀ a token, w'.cache a = some token → w.cache a = some token)
    (hactivity : w'.lastObservedAtCache = w.lastObservedAtCache) (hseen : w'.seen = w.seen)
    (hclock : w'.clock = w.clock) : Sound w' lastSet where
  ids := h.ids.sublist hticked.ids
  accessTokens := h.accessTokens.sublist hticked.accessTokens
  previous := by
    intro row hrow row' hrow'
    obtain ⟨old, hold, t, rfl, -⟩ := hticked.rows row hrow
    obtain ⟨old', hold', t', rfl, -⟩ := hticked.rows row' hrow'
    exact h.previous old hold old' hold'
  seen := by
    intro row hrow
    obtain ⟨old, hold, t, rfl, -⟩ := hticked.rows row hrow
    rw [hseen]
    exact h.seen old hold
  nonempty := by
    intro row hrow
    obtain ⟨old, hold, t, rfl, -⟩ := hticked.rows row hrow
    exact h.nonempty old hold
  empty_seen := by
    rw [hseen]
    exact h.empty_seen
  cached := by
    intro a token htoken
    obtain ⟨ha, htime, huser⟩ := h.cached a token (hcache a token htoken)
    rw [hseen, hclock]
    refine ⟨ha, htime, ?_⟩
    intro row hrow
    obtain ⟨old, hold, t, rfl, -⟩ := hticked.rows row hrow
    exact huser old hold
  activity := by
    rw [hactivity, hseen, hclock]
    exact h.activity
  set_seen := by
    rw [hseen]
    exact h.set_seen
  agree := by
    intro row hrow
    obtain ⟨old, hold, t, rfl, -⟩ := hticked.rows row hrow
    rw [hactivity]
    exact h.agree old hold
  observed := by
    intro row hrow
    obtain ⟨old, hold, t, rfl, hfrom⟩ := hticked.rows row hrow
    rw [hclock]
    obtain rfl | hcached := hfrom
    · exact h.observed old hold
    · exact (h.activity _ _ t hcached).2
  started := by
    rw [hclock]
    exact h.started

theorem ticked (h : Sound w lastSet) (hticked : w.Ticked w') : Sound w' lastSet := by
  have hrows : w.Ticked { w with store := w'.store } := by
    rw [← hticked.frame]
    exact hticked
  apply h.restrict hrows
  · rw [hticked.frame]
    exact fun a token htoken => htoken
  · rw [hticked.frame]
  · rw [hticked.frame]
  · rw [hticked.frame]

/-- The table stays, and entries of the cache of tokens may go. -/
theorem frame (h : Sound w lastSet) (hstore : w'.store = w.store)
    (hcache : ∀ a token, w'.cache a = some token → w.cache a = some token)
    (hactivity : w'.lastObservedAtCache = w.lastObservedAtCache) (hseen : w'.seen = w.seen)
    (hclock : w'.clock = w.clock) : Sound w' lastSet := by
  apply h.restrict _ hcache hactivity hseen hclock
  rw [hstore]
  exact World.Ticked.refl w

/-- Secrets are generated. -/
theorem generated (h : Sound w lastSet) (secrets : List String) :
    Sound { w with seen := secrets ++ w.seen } lastSet where
  ids := h.ids
  accessTokens := h.accessTokens
  previous := h.previous
  seen := fun row hrow => by
    obtain ⟨hid, haccess, hprev⟩ := h.seen row hrow
    simp [hid, haccess, hprev]
  nonempty := h.nonempty
  empty_seen := List.mem_append_right _ h.empty_seen
  cached := fun a token htoken =>
    ⟨List.mem_append_right _ (h.cached a token htoken).1, (h.cached a token htoken).2⟩
  activity := fun a u t ht =>
    ⟨List.mem_append_right _ (h.activity a u t ht).1, (h.activity a u t ht).2⟩
  set_seen := fun a t ht => List.mem_append_right _ (h.set_seen a t ht)
  agree := h.agree
  observed := h.observed
  started := h.started

/-- A token is put into the cache. -/
theorem cacheSet (h : Sound w lastSet) {a : String} (token : Token) (ha : a ∈ w.seen)
    (htime : token.lastObservedAt ≤ w.clock)
    (huser : ∀ row ∈ w.store, row.accessToken = a → row.userID = token.userID) :
    Sound { w with cache := Function.update w.cache a (some token) } lastSet where
  ids := h.ids
  accessTokens := h.accessTokens
  previous := h.previous
  seen := h.seen
  nonempty := h.nonempty
  empty_seen := h.empty_seen
  cached := by
    intro a' token' htoken'
    change Function.update w.cache a (some token) a' = some token' at htoken'
    by_cases heq : a' = a
    · subst heq
      rw [Function.update_self] at htoken'
      cases htoken'
      exact ⟨ha, htime, huser⟩
    · rw [Function.update_of_ne heq] at htoken'
      exact h.cached a' token' htoken'
  activity := h.activity
  set_seen := h.set_seen
  agree := h.agree
  observed := h.observed
  started := h.started

/-- Neither the cache nor the history has heard of an access token that was not generated. -/
theorem agree_of_new (h : Sound w lastSet) {a : String} (ha : a ∉ w.seen) (u : String) :
    w.lastObservedAtCache (a, u) = lastSet a := by
  have hcache : w.lastObservedAtCache (a, u) = none :=
    Option.eq_none_iff_forall_ne_some.2 fun t ht => ha (h.activity a u t ht).1
  have hset : lastSet a = none :=
    Option.eq_none_iff_forall_ne_some.2 fun t ht => ha (h.set_seen a t ht)
  exact hcache.trans hset.symm

/-- A row with new secrets is inserted. -/
theorem insert (h : Sound w lastSet) (row : Token) (secrets : List String)
    (hid : row.id ∉ w.seen) (haccess : row.accessToken ∉ w.seen)
    (hseen : row.id ∈ secrets ∧ row.accessToken ∈ secrets) (hprev : row.prevAccessToken = "")
    (htime : row.lastObservedAt ≤ w.clock) :
    Sound { w with
      seen := secrets ++ w.seen
      cache := Function.update w.cache row.accessToken (some row)
      store := w.store ++ [row] } lastSet where
  ids := by
    rw [List.map_append]
    apply List.nodup_append.2
    refine ⟨h.ids, List.nodup_singleton _, ?_⟩
    intro id hmem id' hmem' heq
    obtain ⟨old, hold, rfl⟩ := List.mem_map.1 hmem
    obtain rfl : id' = row.id := by simpa using hmem'
    exact hid (heq ▸ (h.seen old hold).1)
  accessTokens := by
    rw [List.map_append]
    apply List.nodup_append.2
    refine ⟨h.accessTokens, List.nodup_singleton _, ?_⟩
    intro a hmem a' hmem' heq
    obtain ⟨old, hold, rfl⟩ := List.mem_map.1 hmem
    obtain rfl : a' = row.accessToken := by simpa using hmem'
    exact haccess (heq ▸ (h.seen old hold).2.1)
  previous := by
    intro r hr r' hr' hne heq
    rcases List.mem_append.1 hr with hr | hr
    · rcases List.mem_append.1 hr' with hr' | hr'
      · exact h.previous r hr r' hr' hne heq
      · rw [List.mem_singleton.1 hr'] at heq
        exact haccess (heq ▸ (h.seen r hr).2.2)
    · rw [List.mem_singleton.1 hr] at hne
      exact hne hprev
  seen := by
    intro r hr
    rcases List.mem_append.1 hr with hr | hr
    · obtain ⟨hr_id, hr_access, hr_prev⟩ := h.seen r hr
      simp [hr_id, hr_access, hr_prev]
    · rw [List.mem_singleton.1 hr, hprev]
      exact ⟨List.mem_append_left _ hseen.1, List.mem_append_left _ hseen.2,
        List.mem_append_right _ h.empty_seen⟩
  nonempty := by
    intro r hr hempty
    rcases List.mem_append.1 hr with hr | hr
    · exact h.nonempty r hr hempty
    · rw [List.mem_singleton.1 hr] at hempty
      exact haccess (hempty ▸ h.empty_seen)
  empty_seen := List.mem_append_right _ h.empty_seen
  cached := by
    intro a token htoken
    change Function.update w.cache row.accessToken (some row) a = some token at htoken
    by_cases heq : a = row.accessToken
    · subst heq
      rw [Function.update_self] at htoken
      cases htoken
      refine ⟨List.mem_append_left _ hseen.2, htime, ?_⟩
      intro r hr hr_access
      rcases List.mem_append.1 hr with hr | hr
      · exact absurd (hr_access ▸ (h.seen r hr).2.1) haccess
      · rw [List.mem_singleton.1 hr]
    · rw [Function.update_of_ne heq] at htoken
      obtain ⟨ha, htoken_time, huser⟩ := h.cached a token htoken
      refine ⟨List.mem_append_right _ ha, htoken_time, ?_⟩
      intro r hr hr_access
      rcases List.mem_append.1 hr with hr | hr
      · exact huser r hr hr_access
      · rw [List.mem_singleton.1 hr] at hr_access
        exact absurd hr_access.symm heq
  activity := fun a u t ht =>
    ⟨List.mem_append_right _ (h.activity a u t ht).1, (h.activity a u t ht).2⟩
  set_seen := fun a t ht => List.mem_append_right _ (h.set_seen a t ht)
  agree := by
    intro r hr
    rcases List.mem_append.1 hr with hr | hr
    · exact h.agree r hr
    · rw [List.mem_singleton.1 hr]
      exact h.agree_of_new haccess _
  observed := by
    intro r hr
    rcases List.mem_append.1 hr with hr | hr
    · exact h.observed r hr
    · rw [List.mem_singleton.1 hr]
      exact htime
  started := h.started

/-! ### A row takes a new access token -/

/-- A row of the new table is the token, or an old row with another id. -/
theorem mem_replaced {store : List Token} {token r : Token}
    (hr : r ∈ store.map fun r => if r.id = token.id then token else r) :
    r = token ∨ (r ∈ store ∧ r.id ≠ token.id) := by
  obtain ⟨old, hold, rfl⟩ := List.mem_map.1 hr
  by_cases heq : old.id = token.id
  · exact .inl (if_pos heq)
  · rw [if_neg heq]
    exact .inr ⟨hold, heq⟩

theorem map_id_replaced (store : List Token) (token : Token) :
    (store.map fun r => if r.id = token.id then token else r).map Token.id =
      store.map Token.id := by
  rw [List.map_map]
  apply List.map_congr_left
  intro r _
  by_cases heq : r.id = token.id
  · simp [heq]
  · simp [heq]

section Replaced

variable (h : Sound w lastSet) {row token : Token} (hnew : token.accessToken ∉ w.seen)

include h hnew

theorem accessToken_ne_new {r : Token} (hr : r ∈ w.store) : r.accessToken ≠ token.accessToken :=
  fun heq => hnew (heq ▸ (h.seen r hr).2.1)

theorem accessTokens_replaced :
    ((w.store.map fun r => if r.id = token.id then token else r).map
      Token.accessToken).Nodup := by
  rw [List.map_map]
  apply List.Nodup.map_on _ h.ids.of_map
  intro r hr r' hr' heq
  simp only [Function.comp_apply] at heq
  by_cases hr_id : r.id = token.id
  · by_cases hr'_id : r'.id = token.id
    · exact List.inj_on_of_nodup_map h.ids hr hr' (hr_id.trans hr'_id.symm)
    · rw [if_pos hr_id, if_neg hr'_id] at heq
      exact absurd heq.symm (h.accessToken_ne_new hnew hr')
  · by_cases hr'_id : r'.id = token.id
    · rw [if_neg hr_id, if_pos hr'_id] at heq
      exact absurd heq (h.accessToken_ne_new hnew hr)
    · rw [if_neg hr_id, if_neg hr'_id] at heq
      exact List.inj_on_of_nodup_map h.accessTokens hr hr' heq

/-- The access token of the row becomes the previous one, which no other row has. -/
theorem previous_replaced (hrow : row ∈ w.store) (hid : token.id = row.id)
    (hprev : token.prevAccessToken = row.accessToken) {r r' : Token}
    (hr : r ∈ w.store.map fun r => if r.id = token.id then token else r)
    (hr' : r' ∈ w.store.map fun r => if r.id = token.id then token else r)
    (hne : r.prevAccessToken ≠ "") : r.prevAccessToken ≠ r'.accessToken := by
  intro heq
  obtain rfl | ⟨hold, -⟩ := mem_replaced hr
  · rw [hprev] at heq
    obtain rfl | ⟨hold', hr'_id⟩ := mem_replaced hr'
    · exact h.accessToken_ne_new hnew hrow heq
    · obtain rfl := List.inj_on_of_nodup_map h.accessTokens hold' hrow heq.symm
      exact hr'_id hid.symm
  · obtain rfl | ⟨hold', -⟩ := mem_replaced hr'
    · exact hnew (heq ▸ (h.seen r hold).2.2)
    · exact h.previous r hold r' hold' hne heq

/-- A cached token still belongs to the user of the row with its access token. -/
theorem userID_replaced {a : String} {t r : Token}
    (ht : a = token.accessToken ∧ t = token ∨ w.cache a = some t)
    (hr : r ∈ w.store.map fun r => if r.id = token.id then token else r)
    (hr_access : r.accessToken = a) : r.userID = t.userID := by
  obtain ⟨rfl, rfl⟩ | ht := ht
  · obtain rfl | ⟨hold, -⟩ := mem_replaced hr
    · rfl
    · exact absurd hr_access (h.accessToken_ne_new hnew hold)
  · obtain ⟨ha, -, ht_user⟩ := h.cached a t ht
    obtain rfl | ⟨hold, -⟩ := mem_replaced hr
    · exact absurd (hr_access ▸ ha) hnew
    · exact ht_user r hold hr_access

end Replaced

/-- A row takes a new access token. -/
theorem update (h : Sound w lastSet) {row token : Token} (hrow : row ∈ w.store)
    (hid : token.id = row.id) (hprev : token.prevAccessToken = row.accessToken)
    (htime : token.lastObservedAt = row.lastObservedAt) {secrets : List String}
    (hnew : token.accessToken ∉ w.seen) (hseen : token.accessToken ∈ secrets)
    {cache : String → Option Token}
    (hcache : ∀ a t, cache a = some t →
      (a = token.accessToken ∧ t = token) ∨ w.cache a = some t)
    {locked revoked : List String} :
    Sound { w with
      seen := secrets ++ w.seen
      cache := cache
      locked := locked
      revoked := revoked
      store := w.store.map fun r => if r.id = token.id then token else r } lastSet where
  ids := (map_id_replaced w.store token).symm ▸ h.ids
  accessTokens := h.accessTokens_replaced hnew
  previous := fun _ hr _ hr' => h.previous_replaced hnew hrow hid hprev hr hr'
  seen := by
    intro r hr
    obtain rfl | ⟨hr, -⟩ := mem_replaced hr
    · rw [hid, hprev]
      exact ⟨List.mem_append_right _ (h.seen row hrow).1, List.mem_append_left _ hseen,
        List.mem_append_right _ (h.seen row hrow).2.1⟩
    · obtain ⟨hr_id, hr_access, hr_prev⟩ := h.seen r hr
      simp [hr_id, hr_access, hr_prev]
  nonempty := by
    intro r hr hempty
    obtain rfl | ⟨hr, -⟩ := mem_replaced hr
    · exact hnew (hempty ▸ h.empty_seen)
    · exact h.nonempty r hr hempty
  empty_seen := List.mem_append_right _ h.empty_seen
  cached := by
    intro a t ht
    refine ⟨?_, ?_, fun r hr => h.userID_replaced hnew (hcache a t ht) hr⟩
    · obtain ⟨rfl, rfl⟩ | ht := hcache a t ht
      · exact List.mem_append_left _ hseen
      · exact List.mem_append_right _ (h.cached a t ht).1
    · obtain ⟨rfl, rfl⟩ | ht := hcache a t ht
      · exact htime ▸ h.observed row hrow
      · exact (h.cached a t ht).2.1
  activity := fun a u t ht =>
    ⟨List.mem_append_right _ (h.activity a u t ht).1, (h.activity a u t ht).2⟩
  set_seen := fun a t ht => List.mem_append_right _ (h.set_seen a t ht)
  agree := by
    intro r hr
    obtain rfl | ⟨hr, -⟩ := mem_replaced hr
    · exact h.agree_of_new hnew _
    · exact h.agree r hr
  observed := by
    intro r hr
    obtain rfl | ⟨hr, -⟩ := mem_replaced hr
    · rw [htime]
      exact h.observed row hrow
    · exact h.observed r hr
  started := h.started

/-- A token is observed now. -/
theorem observe (h : Sound w lastSet) {a : String} (token : Token) (ha : a ∈ w.seen)
    (huser : ∀ row ∈ w.store, row.accessToken = a → row.userID = token.userID)
    (htime : token.lastObservedAt = w.clock) :
    Sound { w with
      lastObservedAtCache :=
        Function.update w.lastObservedAtCache (a, token.userID) (some w.clock)
      cache := Function.update w.cache a (some token) }
      (Function.update lastSet a (some w.clock)) where
  ids := h.ids
  accessTokens := h.accessTokens
  previous := h.previous
  seen := h.seen
  nonempty := h.nonempty
  empty_seen := h.empty_seen
  cached := (h.cacheSet token ha (Int.le_of_eq htime) huser).cached
  activity := by
    intro a' u t ht
    change Function.update w.lastObservedAtCache (a, token.userID) (some w.clock) (a', u) =
      some t at ht
    by_cases heq : (a', u) = (a, token.userID)
    · rw [heq, Function.update_self] at ht
      cases ht
      cases heq
      exact ⟨ha, Int.le_refl _⟩
    · rw [Function.update_of_ne heq] at ht
      exact h.activity a' u t ht
  set_seen := by
    intro a' t ht
    by_cases heq : a' = a
    · rw [heq]
      exact ha
    · rw [Function.update_of_ne heq] at ht
      exact h.set_seen a' t ht
  agree := by
    intro row hrow
    change Function.update w.lastObservedAtCache (a, token.userID) (some w.clock)
      (row.accessToken, row.userID) = Function.update lastSet a (some w.clock) row.accessToken
    by_cases heq : row.accessToken = a
    · rw [huser row hrow heq, heq, Function.update_self, Function.update_self]
    · rw [Function.update_of_ne heq, Function.update_of_ne fun hpair => heq (Prod.mk.inj hpair).1]
      exact h.agree row hrow
  observed := h.observed
  started := h.started

end Sound

/-! ## What an operation does alone -/

section Alone

variable {cfg : Config} {w : World} {lastSet : String → Option Time}

/-- A read through the cache finds a token that was seen. -/
theorem getOrGetSetToken_ensures (h : Sound w lastSet) (a : String) :
    Ensures sem (getOrGetSetToken a) w fun w' r =>
      Sound w' lastSet ∧ w'.clock = w.clock ∧
        ∀ token, r = .ok token → a ∈ w'.seen ∧ token.lastObservedAt ≤ w'.clock ∧
          ∀ row ∈ w'.store, row.accessToken = a → row.userID = token.userID := by
  simp only [getOrGetSetToken, ensures_bind]
  rw [ensures_cacheGet]
  cases hcache : w.cache a with
  | some token =>
    simp only [ensures_pure]
    refine ⟨h, trivial, ?_⟩
    rintro _ ⟨⟩
    exact h.cached a token hcache
  | none =>
    simp only [ensures_bind]
    rw [ensures_getByAccessToken]
    cases hfind : w.store.find? fun row => row.accessToken = a with
    | none =>
      simp only [ensures_pure]
      exact ⟨h, trivial, fun token ht => by cases ht⟩
    | some token =>
      have htoken : token ∈ w.store := List.mem_of_find?_eq_some hfind
      have haccess : token.accessToken = a := by simpa using List.find?_some hfind
      have huser : ∀ row ∈ w.store, row.accessToken = a → row.userID = token.userID := by
        intro row hrow hrow_access
        rw [List.inj_on_of_nodup_map h.accessTokens hrow htoken
          (hrow_access.trans haccess.symm)]
      have hseen : a ∈ w.seen := haccess ▸ (h.seen token htoken).2.1
      simp only [ensures_bind]
      rw [ensures_cacheSet, ensures_pure]
      refine ⟨h.cacheSet token hseen (h.observed token htoken) huser, rfl, ?_⟩
      rintro _ ⟨⟩
      exact ⟨hseen, h.observed token htoken, huser⟩

/-- An observation is sound at the time of the clock. -/
theorem setLastObservedAt_ensures (h : Sound w lastSet) (a : String) :
    Ensures sem (setLastObservedAt a w.clock) w fun w' r =>
      Sound w' (match r with
        | .ok _ => Function.update lastSet a (some w.clock)
        | .error _ => lastSet) := by
  simp only [setLastObservedAt, ensures_bind]
  refine (getOrGetSetToken_ensures h a).mono ?_
  rintro w' r ⟨hsound, hclock, hfound⟩
  cases r with
  | error err =>
    simp only [ensures_pure]
    exact hsound
  | ok token =>
    obtain ⟨hseen, htime, huser⟩ := hfound token rfl
    simp only [ensures_bind]
    rw [ensures_now]
    -- the time of the token is not after the clock
    have hupdate : token.updateLastObservedAt w.clock w'.clock =
        .ok { token with lastObservedAt := w.clock, updatedAt := w'.clock } := by
      apply if_neg
      rw [← hclock]
      exact Int.not_lt.2 htime
    simp only [hupdate, ensures_bind]
    rw [ensures_lastObservedAtCacheSet, ensures_cacheSet, ensures_pure, ← hclock]
    exact hsound.observe { token with lastObservedAt := w'.clock, updatedAt := w'.clock }
      hseen huser rfl

/-- Rows go, and nothing else. -/
theorem filter_ticked (w : World) (keep : Token → Bool) :
    w.Ticked { w with store := w.store.filter keep } where
  frame := rfl
  ids := List.filter_sublist.map _
  accessTokens := List.filter_sublist.map _
  rows := fun row hrow =>
    ⟨row, List.mem_of_mem_filter hrow, row.lastObservedAt, rfl, .inl rfl⟩

theorem cache_of_delete {cache : String → Option Token} {a a' : String} {token : Token}
    (htoken : Function.update cache a none a' = some token) : cache a' = some token := by
  by_cases heq : a' = a
  · rw [heq, Function.update_self] at htoken
    cases htoken
  · rwa [Function.update_of_ne heq] at htoken

theorem deleteToken_ensures (h : Sound w lastSet) (a : String) :
    Ensures sem (deleteToken a) w fun w' _ => Sound w' lastSet := by
  simp only [deleteToken, ensures_bind]
  rw [ensures_cacheDelete]
  refine ensures_perform.2 ?_
  intro fresh w' x hsem
  simp only [sem] at hsem
  split at hsem
  · cases hsem
  · cases hsem
    apply h.restrict
    · exact filter_ticked w _
    · exact fun a' token htoken => cache_of_delete htoken
    · rfl
    · rfl
    · rfl

theorem createNew_ensures (h : Sound w lastSet) (identity : Identity) :
    Ensures sem (createNew identity) w fun w' _ => Sound w' lastSet := by
  simp only [createNew, ensures_bind]
  rw [ensures_generate]
  intro fresh hid haccess _
  rw [ensures_now, ensures_cacheSet]
  apply ensures_create
  · simp only [Bool.false_eq_true, if_false, ensures_pure]
    apply (h.generated [fresh.id, fresh.accessToken, fresh.refreshToken]).cacheSet _
    · simp [newToken]
    · exact h.started
    · intro row hrow hrow_access
      have hrow_seen := (h.seen row hrow).2.1
      rw [hrow_access] at hrow_seen
      exact absurd hrow_seen haccess
  · simp only [if_true, ensures_bind]
    rw [ensures_identityCacheSet, ensures_pure]
    have hinsert := h.insert (newToken fresh identity.userID w.clock)
      [fresh.id, fresh.accessToken, fresh.refreshToken] hid haccess
      (by simp [newToken]) rfl h.started
    exact hinsert.frame rfl (fun a token htoken => htoken) rfl rfl rfl

/-- A new token keeps the invariant, with the deletion that may come first. -/
theorem createToken_ensures (h : Sound w lastSet) (identity : Identity) :
    Ensures sem (createToken cfg identity) w fun w' _ => Sound w' lastSet := by
  simp only [createToken, ensures_bind]
  rw [ensures_listByUserID]
  split
  · split
    · rw [ensures_pure]
      exact h
    · rw [ensures_bind]
      refine (deleteToken_ensures h _).mono ?_
      intro w' _ hsound
      exact createNew_ensures hsound identity
  · exact createNew_ensures h identity

/-- The row that `RotateToken` locks has the access token, or had it before its last rotation. -/
theorem mem_of_find {a : String} {row : Token}
    (hfind : (w.store.find? fun row => row.hasAccessToken a) = some row) :
    row ∈ w.store ∧ row.hasAccessToken a = true :=
  ⟨List.mem_of_find?_eq_some hfind,
    List.find?_some (p := fun row : Token => row.hasAccessToken a) hfind⟩

/-- The token with new secrets. -/
structure RotatedFrom (fresh : Fresh) (token rotated : Token) : Prop where
  id : rotated.id = token.id
  previous : rotated.prevAccessToken = token.accessToken
  accessToken : rotated.accessToken = fresh.accessToken
  userID : rotated.userID = token.userID
  lastObservedAt : rotated.lastObservedAt = token.lastObservedAt

/-- What `Rotate` returns. -/
theorem rotate_ok {token rotated : Token} {now : Time} {a r : String} {fresh : Fresh}
    (h : token.rotate cfg now a r fresh = .ok rotated) :
    rotated = token ∨ RotatedFrom fresh token rotated := by
  unfold Token.rotate at h
  split at h
  · split at h
    · cases h
      exact .inl rfl
    · cases h
  · split at h
    · cases h
    · split at h
      · cases h
      · cases h
        exact .inr ⟨rfl, rfl, rfl, rfl, rfl⟩

theorem map_same_row {rows : List Token} {row : Token} (hids : (rows.map Token.id).Nodup)
    (hrow : row ∈ rows) : (rows.map fun r => if r.id = row.id then row else r) = rows := by
  refine (List.map_congr_left ?_).trans (List.map_id rows)
  intro r hr
  rw [id_eq]
  split
  · rename_i hid
    exact List.inj_on_of_nodup_map hids hrow hr hid.symm
  · rfl

/-- A rotation keeps the invariant, whether it commits or not. -/
theorem rotateToken_ensures (h : Sound w lastSet) (a r : String) :
    Ensures sem (rotateToken cfg a r) w fun w' _ => Sound w' lastSet := by
  simp only [rotateToken, ensures_bind]
  apply ensures_beginUpdate
  · intro _
    rw [ensures_pure]
    exact h
  · intro row hfind
    obtain ⟨hrow, -⟩ := mem_of_find hfind
    simp only [ensures_bind]
    rw [ensures_generate]
    intro fresh hid haccess _
    have hgenerated := h.generated [fresh.id, fresh.accessToken, fresh.refreshToken]
    rw [ensures_now]
    cases hrotate : row.rotate cfg w.clock a r fresh with
    | error err =>
      simp only [ensures_bind]
      rw [ensures_endUpdate, ensures_pure]
      exact hgenerated.frame rfl (fun _ _ ht => ht) rfl rfl rfl
    | ok rotated =>
      simp only
      split
      · simp only [ensures_bind]
        rw [ensures_endUpdate, ensures_pure]
        exact hgenerated.frame rfl (fun _ _ ht => ht) rfl rfl rfl
      · simp only [ensures_bind]
        rw [ensures_cacheSet, ensures_cacheDelete]
        obtain rfl | hnew := rotate_ok hrotate
        · -- the row is written as it is
          have hset := hgenerated.cacheSet (a := rotated.accessToken) rotated
            (hgenerated.seen rotated hrow).2.1 (h.observed rotated hrow) fun row' hrow' heq =>
              congrArg Token.userID (List.inj_on_of_nodup_map h.accessTokens hrow' hrow heq)
          apply ensures_commitUpdate
          · simp only [Bool.false_eq_true, if_false, ensures_pure]
            exact hset.frame rfl (fun _ _ ht => cache_of_delete ht) rfl rfl rfl
          · simp only [if_true, ensures_pure]
            exact hset.frame (map_same_row h.ids hrow) (fun _ _ ht => cache_of_delete ht)
              rfl rfl rfl
        · have hunseen : rotated.accessToken ∉ w.seen := hnew.accessToken ▸ haccess
          have hsecret : rotated.accessToken ∈
              [fresh.id, fresh.accessToken, fresh.refreshToken] := by simp [hnew.accessToken]
          apply ensures_commitUpdate
          · simp only [Bool.false_eq_true, if_false, ensures_pure]
            have hset := hgenerated.cacheSet (a := rotated.accessToken) rotated
              (List.mem_append_left _ hsecret) (hnew.lastObservedAt ▸ h.observed row hrow)
              fun row' hrow' heq => absurd (heq ▸ (h.seen row' hrow').2.1) hunseen
            exact hset.frame rfl (fun _ _ ht => cache_of_delete ht) rfl rfl rfl
          · simp only [if_true, ensures_pure]
            apply h.update hrow hnew.id hnew.previous hnew.lastObservedAt hunseen
              hsecret
            intro a' t ht
            have hset := cache_of_delete ht
            by_cases heq : a' = rotated.accessToken
            · rw [heq, Function.update_self] at hset
              exact .inl ⟨heq, (Option.some.inj hset).symm⟩
            · rw [Function.update_of_ne heq] at hset
              exact .inr hset

end Alone

/-! ## Every run -/

section Runs

variable {cfg : Config} {s t : Session}

/-- A step is a run of its program at a later time. -/
theorem sessionStep_outcome {e : Event} (h : sessionStep cfg s e = some t) :
    s.world.clock ≤ e.time ∧ ∃ r, outcome cfg s.world e = some (t.world, r) ∧
      runAlone sem (e.program cfg) e.fresh { s.world with clock := e.time } = some (t.world, r) ∧
      t.lastSet = match e.act, r with
        | .setLastObservedAt accessToken, .ok _ =>
          Function.update s.lastSet accessToken (some e.time)
        | _, _ => s.lastSet := by
  obtain ⟨⟨w, r⟩, hout, rfl⟩ := Option.map_eq_some_iff.1 h
  unfold outcome at hout
  split at hout
  · cases hout
  · rename_i hnow
    refine ⟨Int.not_lt.1 hnow, r, ?_, hout, rfl⟩
    simp only [outcome, if_neg hnow, hout]

theorem program_tick_ensures (orgs : List String) (now : Time) (fresh : List Fresh) (w : World) :
    Ensures sem (Event.program cfg ⟨.tick orgs, now, fresh⟩) w fun w' r =>
      w' = orgs.foldl (fun w org => flushed org (collected cfg org w)) w ∧ r = .ok .nothing := by
  simp only [Event.program, ensures_bind]
  refine (tick_ensures orgs w).mono ?_
  intro w' _ hworld
  rw [ensures_pure]
  exact ⟨hworld, rfl⟩

/-- No operation breaks what the caches and the table have in common. -/
theorem Sound.step {e : Event} (h : Sound s.world s.lastSet) (hstep : sessionStep cfg s e = some t) :
   Sound t.world t.lastSet := by
  obtain ⟨hnow, r, -, hrun, hset⟩ := sessionStep_outcome hstep
  have hnow_sound := h.at_time hnow
  obtain ⟨act, now, fresh⟩ := e
  cases act with
  | createToken identity =>
    rw [hset]
    exact createToken_ensures hnow_sound identity _ _ _ hrun
  | setLastObservedAt accessToken =>
    have hsound := setLastObservedAt_ensures hnow_sound accessToken _ _ _ hrun
    rw [hset]
    cases r with
    | error err => exact hsound
    | ok value => exact hsound
  | rotateToken accessToken refreshToken =>
    rw [hset]
    exact rotateToken_ensures hnow_sound accessToken refreshToken _ _ _ hrun
  | tick orgs =>
    obtain ⟨hworld, -⟩ := program_tick_ensures orgs now fresh _ _ _ _ hrun
    rw [hset, hworld]
    exact hnow_sound.ticked (foldl_ticked orgs _)

end Runs

/-! ## Two runs -/

end Signoz.Tokenizer
