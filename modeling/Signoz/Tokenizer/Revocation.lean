import Mathlib.Data.List.Nodup
import Signoz.Tokenizer.Provider

/-!
# Revoked tokens

Any number of clients create, use, rotate and delete tokens at once, one cache or store call at a
time. A revoked access token is one that `DeleteToken`, `DeleteTokensByUserID` or a rotation has
taken out of the table. It stays out of use as long as no client writes it back
(`revoked_tokens_stay_out`).
-/

namespace Signoz.Tokenizer

open Lib.Programs hiding perform

/-! ## Clients -/

/-- What a client asks for. -/
inductive Op where
  | createToken (identity : Identity)
  | getIdentity (accessToken : String)
  | setLastObservedAt (accessToken : String) (lastObservedAt : Time)
  | rotateToken (accessToken refreshToken : String)
  | deleteToken (accessToken : String)
  | deleteTokensByUserID (userID : String)

def code (cfg : Config) : Op → Program (Except Err Value)
  | .createToken identity => createToken cfg identity
  | .getIdentity accessToken => getIdentity cfg accessToken
  | .setLastObservedAt accessToken lastObservedAt => setLastObservedAt accessToken lastObservedAt
  | .rotateToken accessToken refreshToken => rotateToken cfg accessToken refreshToken
  | .deleteToken accessToken => do
    deleteToken accessToken
    return .ok .nothing
  | .deleteTokensByUserID userID => do
    deleteTokensByUserID userID
    return .ok .nothing

/-- Time passes, and a cache may lose an entry at any time. -/
inductive Change where
  | advance (d : Nat)
  | evict (accessToken : String)
  | evictIdentity (userID : String)
  | evictLastObservedAt (accessToken userID : String)

def change : Change → World → Option World
  | .advance d, w => some { w with clock := w.clock + d }
  | .evict a, w => some { w with cache := Function.update w.cache a none }
  | .evictIdentity u, w => some { w with identityCache := Function.update w.identityCache u none }
  | .evictLastObservedAt a u, w =>
    some { w with lastObservedAtCache := Function.update w.lastObservedAtCache (a, u) none }

abbrev Clients := System Call Answer (Except Err Value) World Op

abbrev Step := Label Fresh Op Change

def clientsStep (cfg : Config) : Clients → Step → Option Clients :=
  systemStep sem (code cfg) change

/-- Every `GetIdentity` of an access token that was revoked when it started fails. -/
def RevokedStayOut (s : Clients) : Prop :=
  ∀ th ∈ s.threads, ∀ accessToken, th.op = .getIdentity accessToken →
    accessToken ∈ th.start.revoked → ∀ value, th.prog ≠ .ret (.ok value)

/-- No call writes a revoked access token to the cache or to the table, and a statement that takes
access tokens out of the table finds none of them in the cache. -/
def KeepsOut (w : World) : Call → Prop
  | .cacheSet a _ => a ∉ w.revoked
  | .create token => token.accessToken ∉ w.revoked
  | .deleteByAccessToken a => w.cache a = none
  | .deleteByUserID u => ∀ row ∈ w.store, row.userID = u → w.cache row.accessToken = none
  | .commitUpdate token => token.accessToken ∉ w.revoked ∧
      ∀ row ∈ w.store, row.id = token.id → row.accessToken ≠ token.accessToken →
        w.cache row.accessToken = none
  | _ => True

/-! ## The world -/

/-- The indexes of the table hold, and a revoked access token is neither in it nor cached. -/
structure Revoked (w : World) : Prop where
  ids : (w.store.map Token.id).Nodup
  accessTokens : (w.store.map Token.accessToken).Nodup
  cache : ∀ a ∈ w.revoked, w.cache a = none
  store : ∀ a ∈ w.revoked, ∀ row ∈ w.store, row.accessToken ≠ a

section World

variable {w : World}

/-- Two rows with one access token are one. -/
theorem Revoked.row_eq (h : Revoked w) {r r' : Token} (hr : r ∈ w.store) (hr' : r' ∈ w.store)
    (heq : r.accessToken = r'.accessToken) : r = r' :=
  List.inj_on_of_nodup_map h.accessTokens hr hr' heq

theorem Revoked.update_cache (h : Revoked w) {a : String} {entry : Option Token}
    (hentry : a ∈ w.revoked → entry = none) :
    Revoked { w with cache := Function.update w.cache a entry } where
  ids := h.ids
  accessTokens := h.accessTokens
  cache := by
    intro b hb
    by_cases hab : b = a
    · subst hab
      simpa using hentry hb
    · simpa [Function.update_of_ne hab] using h.cache b hb
  store := h.store

/-- Rows leave the table, and their access tokens are not cached. -/
theorem Revoked.deleteWhere (h : Revoked w) {cond : Token → Bool}
    (hcache : ∀ row ∈ w.store, cond row = true → w.cache row.accessToken = none) :
    Revoked (w.deleteWhere cond) where
  ids := (List.filter_sublist.map _).nodup h.ids
  accessTokens := (List.filter_sublist.map _).nodup h.accessTokens
  cache := by
    intro a ha
    rcases List.mem_append.1 ha with ha | ha
    · obtain ⟨row, hrow, rfl⟩ := List.mem_map.1 ha
      obtain ⟨hmem, hcond⟩ := List.mem_filter.1 hrow
      exact hcache row hmem hcond
    · exact h.cache a ha
  store := by
    intro a ha row hrow
    obtain ⟨hmem, hkept⟩ := List.mem_filter.1 hrow
    rcases List.mem_append.1 ha with ha | ha
    · obtain ⟨gone, hgone, rfl⟩ := List.mem_map.1 ha
      obtain ⟨hgone, hcond⟩ := List.mem_filter.1 hgone
      intro heq
      rw [h.row_eq hmem hgone heq, hcond] at hkept
      cases hkept
    · exact h.store a ha row hmem

/-- A row is replaced by one whose access token is no other row's. -/
theorem Revoked.update (h : Revoked w) {token : Token}
    (hindex : ∀ row ∈ w.store, row.id ≠ token.id → row.accessToken ≠ token.accessToken)
    (hnew : token.accessToken ∉ w.revoked)
    (hcache : ∀ row ∈ w.store, row.id = token.id → row.accessToken ≠ token.accessToken →
      w.cache row.accessToken = none) :
    Revoked (w.update token) where
  ids := by
    have hsame : (w.update token).store.map Token.id = w.store.map Token.id := by
      simp only [World.update, List.map_map]
      apply List.map_congr_left
      intro row _
      by_cases hid : row.id = token.id <;> simp [hid]
    rw [hsame]
    exact h.ids
  accessTokens := by
    simp only [World.update, List.map_map]
    apply List.Nodup.map_on _ h.ids.of_map
    intro r hr r' hr' heq
    simp only [Function.comp_apply] at heq
    by_cases hid : r.id = token.id <;> by_cases hid' : r'.id = token.id
    · exact List.inj_on_of_nodup_map h.ids hr hr' (hid.trans hid'.symm)
    · rw [if_pos hid, if_neg hid'] at heq
      exact absurd heq.symm (hindex r' hr' hid')
    · rw [if_neg hid, if_pos hid'] at heq
      exact absurd heq (hindex r hr hid)
    · rw [if_neg hid, if_neg hid'] at heq
      exact h.row_eq hr hr' heq
  cache := by
    intro a ha
    rcases List.mem_append.1 ha with ha | ha
    · obtain ⟨row, hrow, rfl⟩ := List.mem_map.1 ha
      obtain ⟨hmem, hcond⟩ := List.mem_filter.1 hrow
      simp only [ne_eq, Bool.and_eq_true, decide_eq_true_eq] at hcond
      exact hcache row hmem hcond.1 hcond.2
    · exact h.cache a ha
  store := by
    intro a ha row hrow
    obtain ⟨old, hold, rfl⟩ := List.mem_map.1 hrow
    rcases List.mem_append.1 ha with ha | ha
    · obtain ⟨gone, hgone, rfl⟩ := List.mem_map.1 ha
      obtain ⟨hgone, hcond⟩ := List.mem_filter.1 hgone
      simp only [ne_eq, Bool.and_eq_true, decide_eq_true_eq] at hcond
      by_cases hid : old.id = token.id
      · rw [if_pos hid]
        exact fun heq => hcond.2 heq.symm
      · rw [if_neg hid]
        intro heq
        exact hid (h.row_eq hold hgone heq ▸ hcond.1)
    · by_cases hid : old.id = token.id
      · rw [if_pos hid]
        exact fun heq => hnew (heq ▸ ha)
      · rw [if_neg hid]
        exact h.store a ha old hold

/-- What `Revoked` is about is the same in another world. -/
theorem Revoked.of_same (h : Revoked w) {w' : World} (hstore : w'.store = w.store)
    (hcache : w'.cache = w.cache) (hrevoked : w'.revoked = w.revoked) : Revoked w' where
  ids := hstore ▸ h.ids
  accessTokens := hstore ▸ h.accessTokens
  cache := by
    rw [hrevoked, hcache]
    exact h.cache
  store := by
    rw [hrevoked, hstore]
    exact h.store

theorem Revoked.create (h : Revoked w) {token : Token}
    (hindex : w.store.any token.clashes = false) (hnew : token.accessToken ∉ w.revoked) :
    Revoked { w with store := w.store ++ [token] } := by
  have hclash : ∀ row ∈ w.store, row.id ≠ token.id ∧ row.accessToken ≠ token.accessToken := by
    intro row hrow
    have hno := List.any_eq_false.1 hindex row hrow
    simp only [Token.clashes, Bool.or_eq_true, decide_eq_true_eq, not_or] at hno
    exact ⟨hno.1.1, hno.1.2⟩
  refine ⟨?_, ?_, h.cache, ?_⟩
  · rw [List.map_append, List.nodup_append]
    refine ⟨h.ids, List.nodup_singleton _, ?_⟩
    intro id hid id' hid'
    obtain ⟨row, hrow, rfl⟩ := List.mem_map.1 hid
    rw [List.mem_singleton.1 hid']
    exact (hclash row hrow).1
  · rw [List.map_append, List.nodup_append]
    refine ⟨h.accessTokens, List.nodup_singleton _, ?_⟩
    intro a ha a' ha'
    obtain ⟨row, hrow, rfl⟩ := List.mem_map.1 ha
    rw [List.mem_singleton.1 ha']
    exact (hclash row hrow).2
  · intro a ha row hrow
    rcases List.mem_append.1 hrow with hrow | hrow
    · exact h.store a ha row hrow
    · rw [List.mem_singleton.1 hrow]
      exact fun heq => hnew (heq ▸ ha)

/-- The updates of `last_observed_at` keep ids and access tokens. -/
theorem updateObserved_store (observed : List Observed) : ∀ w : World,
    (observed.foldl World.updateObserved w).cache = w.cache ∧
      (observed.foldl World.updateObserved w).revoked = w.revoked ∧
      (observed.foldl World.updateObserved w).store.map (fun row => (row.id, row.accessToken)) =
        w.store.map fun row => (row.id, row.accessToken) := by
  induction observed with
  | nil => exact fun w => ⟨rfl, rfl, rfl⟩
  | cons o observed ih =>
    intro w
    obtain ⟨hcache, hrevoked, hstore⟩ := ih (w.updateObserved o)
    refine ⟨hcache, hrevoked, hstore.trans ?_⟩
    simp only [World.updateObserved, List.map_map]
    apply List.map_congr_left
    intro row _
    by_cases hmatch : row.accessToken = o.accessToken ∧ row.userID = o.userID <;>
      simp [hmatch]

theorem Revoked.of_keys (h : Revoked w) {w' : World} (hcache : w'.cache = w.cache)
    (hrevoked : w'.revoked = w.revoked)
    (hstore : w'.store.map (fun row => (row.id, row.accessToken)) =
      w.store.map fun row => (row.id, row.accessToken)) : Revoked w' := by
  have hids : w'.store.map Token.id = w.store.map Token.id := by
    simpa [List.map_map, Function.comp_def] using congrArg (List.map Prod.fst) hstore
  have htokens : w'.store.map Token.accessToken = w.store.map Token.accessToken := by
    simpa [List.map_map, Function.comp_def] using congrArg (List.map Prod.snd) hstore
  refine ⟨hids ▸ h.ids, htokens ▸ h.accessTokens, ?_, ?_⟩
  · rw [hrevoked, hcache]
    exact h.cache
  · rw [hrevoked]
    intro a ha row hrow
    have hmem : row.accessToken ∈ w.store.map Token.accessToken :=
      htokens ▸ List.mem_map_of_mem hrow
    obtain ⟨old, hold, heq⟩ := List.mem_map.1 hmem
    exact heq ▸ h.store a ha old hold

/-- A call that keeps revoked tokens out leaves them out, and revoked ones stay revoked. -/
theorem Revoked.after (h : Revoked w) {call : Call} (hok : KeepsOut w call) {fresh : Fresh}
    {w' : World} {x : Answer call} (hsem : sem call fresh w = some (w', x)) :
    Revoked w' ∧ ∀ a ∈ w.revoked, a ∈ w'.revoked := by
  -- `KeepsOut` keeps revoked tokens from being put in, and cached ones from being revoked.
  cases call with
  | cacheGet a | lastObservedAtCacheGet a u | identityCacheGet u | getIdentityByUserID u
  | getByAccessToken a | listByOrgID org | listByUserID u | now =>
    cases hsem
    exact ⟨h, fun a ha => ha⟩
  | identityCacheSet identity | lastObservedAtCacheSet a u t | endUpdate id =>
    cases hsem
    exact ⟨h.of_same rfl rfl rfl, fun a ha => ha⟩
  | cacheSet a token =>
    cases hsem
    exact ⟨h.update_cache fun ha => absurd ha hok, fun a ha => ha⟩
  | cacheDelete a =>
    cases hsem
    exact ⟨h.update_cache fun _ => rfl, fun a ha => ha⟩
  | create token =>
    simp only [Tokenizer.sem] at hsem
    split at hsem
    · cases hsem
      exact ⟨h, fun a ha => ha⟩
    · rename_i hindex
      cases hsem
      exact ⟨h.create (Bool.eq_false_iff.2 hindex) hok, fun a ha => ha⟩
  | deleteByAccessToken a =>
    simp only [Tokenizer.sem] at hsem
    split at hsem
    · cases hsem
    · cases hsem
      have hdeleted : Revoked (w.deleteWhere fun row => row.accessToken = a) := by
        apply h.deleteWhere
        intro row _ hrow
        rw [of_decide_eq_true hrow]
        exact hok
      refine ⟨⟨hdeleted.ids, hdeleted.accessTokens, ?_, ?_⟩, ?_⟩
      · intro b hb
        rcases List.mem_cons.1 hb with rfl | hb
        · exact hok
        · exact hdeleted.cache b hb
      · intro b hb row hrow
        rcases List.mem_cons.1 hb with rfl | hb
        · have hkept := (List.mem_filter.1 hrow).2
          simpa using hkept
        · exact hdeleted.store b hb row hrow
      · exact fun b hb => List.mem_cons_of_mem _ (List.mem_append_right _ hb)
  | deleteMany ids =>
    simp only [Tokenizer.sem] at hsem
    split at hsem
    · cases hsem
    · cases hsem
      refine ⟨⟨(List.filter_sublist.map _).nodup h.ids,
        (List.filter_sublist.map _).nodup h.accessTokens, h.cache, ?_⟩, fun a ha => ha⟩
      exact fun a ha row hrow => h.store a ha row (List.mem_filter.1 hrow).1
  | deleteByUserID u =>
    simp only [Tokenizer.sem] at hsem
    split at hsem
    · cases hsem
    · cases hsem
      refine ⟨h.deleteWhere ?_, fun a ha => List.mem_append_right _ ha⟩
      exact fun row hrow hu => hok row hrow (of_decide_eq_true hu)
  | updateLastObservedAtByAccessToken observed =>
    simp only [Tokenizer.sem] at hsem
    split at hsem
    · cases hsem
    · cases hsem
      obtain ⟨hcache, hrevoked, hstore⟩ := updateObserved_store observed w
      refine ⟨h.of_keys hcache hrevoked hstore, ?_⟩
      rw [hrevoked]
      exact fun a ha => ha
  | beginUpdate a =>
    simp only [Tokenizer.sem] at hsem
    split at hsem
    · cases hsem
      exact ⟨h, fun a ha => ha⟩
    · split at hsem
      · cases hsem
      · cases hsem
        exact ⟨h.of_same rfl rfl rfl, fun a ha => ha⟩
  | commitUpdate token =>
    simp only [Tokenizer.sem] at hsem
    split at hsem
    · cases hsem
      exact ⟨h.of_same rfl rfl rfl, fun a ha => ha⟩
    · rename_i hindex
      cases hsem
      refine ⟨h.update ?_ hok.1 hok.2, fun a ha => List.mem_append_right _ ha⟩
      intro row hrow hid heq
      apply hindex
      exact List.any_eq_true.2 ⟨row, hrow, by simp [hid, Token.clashes, heq]⟩
  | generate =>
    simp only [Tokenizer.sem] at hsem
    split at hsem
    · cases hsem
    · cases hsem
      exact ⟨h.of_same rfl rfl rfl, fun a ha => ha⟩

end World

/-! ## Clients with a revoked token -/

/-- Neither the cache nor the table knows the access token. -/
def Unknown (accessToken : String) : (call : Call) → Answer call → Prop
  | .cacheGet a, x => a = accessToken → x = none
  | .getByAccessToken a, x => a = accessToken → x = none
  | _, _ => True

theorem Revoked.unknown {w w' : World} (h : Revoked w) {a : String} (ha : a ∈ w.revoked)
    {call : Call} {fresh : Fresh} {x : Answer call} (hsem : sem call fresh w = some (w', x)) :
    Unknown a call x := by
  cases call with
  | cacheGet b =>
    rintro rfl
    cases hsem
    exact h.cache b ha
  | getByAccessToken b =>
    rintro rfl
    cases hsem
    apply List.find?_eq_none.2
    intro row hrow
    simpa using h.store b ha row hrow
  | _ => trivial

/-- `GetIdentity` of an unknown access token fails. -/
theorem getIdentity_unknown (cfg : Config) (a : String) :
    (getIdentity cfg a).Sat (Unknown a) fun r => ∀ value, r ≠ .ok value := by
  have htoken : (getOrGetSetToken a).Sat (Unknown a) fun r => ∀ token, r ≠ .ok token := by
    intro cached hcached
    rw [hcached rfl]
    intro row hrow
    rw [hrow rfl]
    exact fun token h => nomatch h
  refine htoken.bind ?_
  intro r hr
  cases r with
  | error err => exact fun value h => nomatch h
  | ok token => exact absurd rfl (hr token)

theorem change_facts {w w' : World} {c : Change} (h : change c w = some w') :
    w'.store = w.store ∧ w'.revoked = w.revoked ∧
      ∀ a, w'.cache a = w.cache a ∨ w'.cache a = none := by
  cases c with
  | evict a =>
    cases h
    refine ⟨rfl, rfl, ?_⟩
    intro b
    by_cases hab : b = a
    · subst hab
      exact .inr (by simp)
    · exact .inl (Function.update_of_ne hab _ _)
  | _ =>
    cases h
    exact ⟨rfl, rfl, fun b => .inl rfl⟩

theorem Revoked.afterChange {w w' : World} (h : Revoked w) {c : Change}
    (hc : change c w = some w') : Revoked w' := by
  obtain ⟨hstore, hrevoked, hcache⟩ := change_facts hc
  refine ⟨hstore ▸ h.ids, hstore ▸ h.accessTokens, ?_, ?_⟩
  · rw [hrevoked]
    intro a ha
    rcases hcache a with heq | heq
    · exact heq.trans (h.cache a ha)
    · exact heq
  · rw [hrevoked, hstore]
    exact h.store

/-- What is revoked at the start of a thread stays revoked, and a `GetIdentity` that started after
the revocation of its access token fails on answers that do not know it. -/
def Shut (w : World) (th : Thread Call Answer (Except Err Value) World Op) : Prop :=
  (∀ a ∈ th.start.revoked, a ∈ w.revoked) ∧
    ∀ a, th.op = .getIdentity a → a ∈ th.start.revoked →
      th.prog.Sat (Unknown a) fun r => ∀ value, r ≠ .ok value

/-- In every run of any number of clients whose calls keep revoked tokens out, a `GetIdentity` that
starts after its access token was revoked fails. -/
theorem revoked_tokens_stay_out (cfg : Config) (w : World)
    (hids : (w.store.map Token.id).Nodup) (htokens : (w.store.map Token.accessToken).Nodup)
    (hnone : w.revoked = []) (steps : List Step)
    (hmeet : Lib.Runs.StepsMeet (clientsStep cfg) (CallsMeet KeepsOut) ⟨w, []⟩ steps) :
    ∀ s, Lib.Runs.exec (clientsStep cfg) ⟨w, []⟩ steps = some s → RevokedStayOut s := by
  intro s hrun
  have hinit : Revoked w := ⟨hids, htokens, by simp [hnone], by simp [hnone]⟩
  have hall : Revoked s.world ∧ ∀ th ∈ s.threads, Shut s.world th := by
    apply exec_system_invariant hinit _ _ _ _ _ steps s hmeet hrun
    · intro w op _
      refine ⟨fun a ha => ha, ?_⟩
      rintro a rfl -
      exact getIdentity_unknown cfg a
    · intro w call fresh w' x h hok hsem
      exact (h.after hok hsem).1
    · rintro w op w₁ call k fresh w' x h ⟨hmono, hsat⟩ hok hsem
      refine ⟨fun a ha => (h.after hok hsem).2 a (hmono a ha), ?_⟩
      intro a hop ha
      exact hsat a hop ha x (h.unknown (hmono a ha) hsem)
    · rintro w th call fresh w' x h ⟨hmono, hsat⟩ hok hsem
      exact ⟨fun a ha => (h.after hok hsem).2 a (hmono a ha), hsat⟩
    · intro w c w' h hc
      refine ⟨h.afterChange hc, ?_⟩
      rintro th ⟨hmono, hsat⟩
      refine ⟨?_, hsat⟩
      rw [(change_facts hc).2.1]
      exact hmono
  intro th hth a hop ha value hret
  have hsat := (hall.2 th hth).2 a hop ha
  rw [hret] at hsat
  exact hsat value rfl

/-! ## A race -/

def sampleConfig : Config := ⟨30, 1, 1000, 4000, 5⟩

/-- A token that is in the cache and in the table. -/
def sampleToken : Token := ⟨"id", "", "access", "", "refresh", 0, 0, 10, 10, "user"⟩

def sampleWorld : World where
  cache := Function.update (fun _ => none) "access" (some sampleToken)
  identityCache := fun _ => none
  lastObservedAtCache := fun _ => none
  store := [sampleToken]
  users := [⟨"user", "org", "user@example.com"⟩]
  locked := []
  seen := ["id", "access", "refresh"]
  clock := 20
  revoked := []

/-- A call of a thread that generates no secrets. -/
def next (i : Nat) : Step := .call i ⟨"", "", ""⟩

/-- `DeleteToken`, then `GetIdentity`. -/
def deleteThenUse : List Step :=
  [.start (.deleteToken "access"), next 0, next 0, .start (.getIdentity "access"), next 1, next 1]

/-- Nothing puts the token back, and `GetIdentity` fails. -/
theorem revoked_token_stays_out :
    ∃ s, Lib.Runs.exec (clientsStep sampleConfig) ⟨sampleWorld, []⟩ deleteThenUse = some s ∧
      RevokedStayOut s := by
  refine ⟨_, rfl, ?_⟩
  refine revoked_tokens_stay_out sampleConfig sampleWorld (by decide) (by decide) rfl deleteThenUse
    ?_ _ rfl
  refine ⟨trivial, ?_⟩
  rintro _ ⟨⟩
  refine ⟨?_, ?_⟩
  · rintro op w call k ⟨⟩
    trivial
  rintro _ ⟨⟩
  refine ⟨?_, ?_⟩
  · rintro op w call k ⟨⟩
    rfl
  rintro _ ⟨⟩
  refine ⟨trivial, ?_⟩
  rintro _ ⟨⟩
  refine ⟨?_, ?_⟩
  · rintro op w call k ⟨⟩
    trivial
  rintro _ ⟨⟩
  refine ⟨?_, ?_⟩
  · rintro op w call k ⟨⟩
    trivial
  rintro _ ⟨⟩
  trivial

/-- `SetLastObservedAt` reads the token, `DeleteToken` runs from start to end, and
`SetLastObservedAt` goes on; then `GetIdentity` starts. -/
def putBack : List Step :=
  [.start (.setLastObservedAt "access" 20), next 0, .start (.deleteToken "access"), next 1, next 1,
    next 0, next 0, next 0, .start (.getIdentity "access"), next 2, next 2, next 2, next 2, next 2]

/-- The token that `SetLastObservedAt` put back authenticates. -/
theorem revoked_token_authenticates :
    ∃ s, Lib.Runs.exec (clientsStep sampleConfig) ⟨sampleWorld, []⟩ putBack = some s ∧
      ¬ RevokedStayOut s := by
  refine ⟨_, rfl, ?_⟩
  intro h
  refine h _ (List.mem_of_getElem? (i := 2) rfl) "access" rfl (by decide)
    (.identity ⟨"user", "org", "user@example.com"⟩) rfl

end Signoz.Tokenizer
