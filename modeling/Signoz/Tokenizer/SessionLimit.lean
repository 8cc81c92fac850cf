import Signoz.Tokenizer.Revocation

/-!
# How many sessions a user holds

`CreateToken` reads the tokens of the user, deletes the oldest when there are `MaxPerUser`, and
inserts a token, each in a step of its own. Between the first step and the last the call counts as
a token that the store does not have yet, and the token that it is going to delete does not count:
with that the sum stays at most `MaxPerUser` (`Bounded`), as long as a call that reads the tokens
finds no other one under way, or room for all of them.
-/

namespace Signoz.Tokenizer

open Lib.Programs hiding perform

/-! ## The limit -/

/-- The calls of one user: logins of the user, and deletions. -/
def OfUser (u : String) : Step → Prop
  | .start (.createToken identity) => identity.userID = u
  | .start (.deleteToken _) => True
  | .start _ => False
  | _ => True

/-- The tokens of the user in the store. -/
def World.tokensOf (w : World) (u : String) : Nat := w.store.countP fun row => row.userID = u

/-- No `CreateToken` has indexed an empty list, and when no call is in progress the user has at
most `MaxPerUser` tokens. -/
structure SessionsBounded (cfg : Config) (u : String) (s : Clients) : Prop where
  indexes : ∀ th ∈ s.threads, ∀ err, th.prog = .ret (.error err) → err.type ≠ .panic
  bounded : (∀ th ∈ s.threads, ∃ r, th.prog = .ret r) →
    (s.world.tokensOf u : Int) ≤ cfg.maxPerUser

/-- A `CreateToken` that has read the tokens of its user, and not yet inserted a token. -/
def creating : Op → Option Call → Bool
  | .createToken _, some (.listByUserID _) => false
  | .createToken _, some (.identityCacheSet _) => false
  | .createToken _, some _ => true
  | _, _ => false

/-- The number of the logins under way. -/
def underWay (s : Clients) : Nat := s.threads.countP fun th => creating th.op th.prog.next

/-- When a login reads the tokens of the user, no other one is under way, or the tokens and the
logins under way leave room. -/
def ListsInTurn (cfg : Config) (u : String) (s : Clients) : Step → Prop
  | .call i _ => ∀ th, s.threads[i]? = some th → th.prog.next = some (.listByUserID u) →
      underWay s = 0 ∨ (s.world.tokensOf u + underWay s : Int) < cfg.maxPerUser
  | _ => True

/-! ## The calls of an operation, one after another -/

/-- What follows a call of `CreateToken`. -/
def CreationOrder (cfg : Config) (u : String) : (call : Call) → Answer call → Option Call → Prop
  | .listByUserID u', existing, next => u' = u ∧
      (((existing.length : Int) < cfg.maxPerUser ∧ next = some .generate) ∨
        ∃ token ∈ existing, next = some (.cacheDelete token.accessToken))
  | .cacheDelete a, _, next => next = some (.deleteByAccessToken a)
  | .deleteByAccessToken _, _, next => next = some .generate
  | .generate, _, next => next = some .now
  | .now, _, next => ∃ token : Token, next = some (.cacheSet token.accessToken token)
  | .cacheSet _ token, _, next => next = some (.create token)
  | .create _, _, next => next = none ∨ ∃ identity, next = some (.identityCacheSet identity)
  | .identityCacheSet _, _, next => next = none
  | _, _, _ => False

/-- What follows a call of `DeleteToken`. -/
def DeletionOrder : (call : Call) → Answer call → Option Call → Prop
  | .cacheDelete a, _, next => next = some (.deleteByAccessToken a)
  | .deleteByAccessToken _, _, next => next = none
  | _, _, _ => False

/-- A result that is no panic. -/
def NoPanic (r : Except Err Value) : Prop := ∀ err, r = .error err → err.type ≠ .panic

theorem oldest_mem {tokens : List Token} {token : Token} (h : oldest tokens = some token) :
    token ∈ tokens := by
  have hmem := List.mem_of_mem_head? (Option.mem_def.2 h)
  exact List.mem_mergeSort.1 hmem

theorem oldest_ne_none {tokens : List Token} (h : tokens ≠ []) : oldest tokens ≠ none := by
  intro hnone
  rw [oldest, List.head?_eq_none_iff] at hnone
  have hlength := congrArg List.length hnone
  rw [List.length_mergeSort] at hlength
  exact h (List.length_eq_zero_iff.1 hlength)

theorem createNew_follows (cfg : Config) (u : String) (identity : Identity) :
    (createNew identity).Follows (CreationOrder cfg u) NoPanic := by
  intro fresh
  refine ⟨rfl, ?_⟩
  intro now
  refine ⟨⟨_, rfl⟩, ?_⟩
  intro _
  refine ⟨rfl, ?_⟩
  intro created
  cases created with
  | false =>
    refine ⟨.inl rfl, ?_⟩
    rintro err ⟨⟩
    decide
  | true =>
    refine ⟨.inr ⟨identity, rfl⟩, ?_⟩
    intro _
    refine ⟨rfl, ?_⟩
    rintro err ⟨⟩

variable {cfg : Config}

theorem createToken_follows (hmax : 1 ≤ cfg.maxPerUser) (identity : Identity) :
    (createToken cfg identity).Follows (CreationOrder cfg identity.userID) NoPanic := by
  intro existing
  change CreationOrder cfg identity.userID (.listByUserID identity.userID) existing
    (ite _ _ _ : Program (Except Err Value)).next ∧
      (ite _ _ _ : Program (Except Err Value)).Follows _ _
  by_cases hfull : (existing.length : Int) ≥ cfg.maxPerUser
  · rw [if_pos hfull]
    have hne : existing ≠ [] := by
      rintro rfl
      exact absurd (Int.le_trans hmax hfull) (by decide)
    cases holdest : oldest existing with
    | none => exact absurd holdest (oldest_ne_none hne)
    | some token =>
      refine ⟨⟨rfl, .inr ⟨token, oldest_mem holdest, rfl⟩⟩, ?_⟩
      intro _
      refine ⟨rfl, ?_⟩
      intro _
      exact ⟨rfl, createNew_follows cfg identity.userID identity⟩
  · rw [if_neg hfull]
    exact ⟨⟨rfl, .inl ⟨Int.not_le.1 hfull, rfl⟩⟩, createNew_follows cfg identity.userID identity⟩

theorem deleteToken_follows (cfg : Config) (a : String) :
    (code cfg (.deleteToken a)).Follows DeletionOrder NoPanic := by
  intro _
  refine ⟨rfl, ?_⟩
  intro _
  refine ⟨rfl, ?_⟩
  rintro err ⟨⟩

/-! ## Tokens and logins under way -/

/-- The access token that a login under way is going to delete. -/
def doomed : Op → Option Call → Option String
  | .createToken _, some (.cacheDelete a) => some a
  | .createToken _, some (.deleteByAccessToken a) => some a
  | _, _ => none

/-- The access tokens that the logins under way are going to delete. -/
def doomedTokens (s : Clients) : List String :=
  s.threads.filterMap fun th => doomed th.op th.prog.next

/-- The rows of the user without the doomed ones. -/
def keptTokens (u : String) (store : List Token) (doomed : List String) : Nat :=
  store.countP fun row => row.userID = u && !doomed.contains row.accessToken

/-- The operation is one of the user, and its next calls come in their order. -/
def ThreadOK (cfg : Config) (u : String) :
    Thread Call Answer (Except Err Value) World Op → Prop
  | ⟨.createToken identity, _, prog⟩ =>
    identity.userID = u ∧ prog.Follows (CreationOrder cfg u) NoPanic
  | ⟨.deleteToken _, _, prog⟩ => prog.Follows DeletionOrder NoPanic
  | _ => False

/-- The tokens of the user that stay and the logins under way are at most `MaxPerUser`. -/
structure Bounded (cfg : Config) (u : String) (s : Clients) : Prop where
  threads : ∀ th ∈ s.threads, ThreadOK cfg u th
  room : (keptTokens u s.world.store (doomedTokens s) + underWay s : Int) ≤ cfg.maxPerUser

theorem keptTokens_nil (u : String) (w : World) : keptTokens u w.store [] = w.tokensOf u := by
  simp [keptTokens, World.tokensOf]

theorem keptTokens_le (u : String) (w : World) (doomed : List String) :
    keptTokens u w.store doomed ≤ w.tokensOf u := by
  apply List.countP_mono_left
  intro row _ h
  exact (Bool.and_eq_true_iff.1 h).1

theorem keptTokens_filter (u : String) (store : List Token) (doomed : List String)
    (keep : Token → Bool) : keptTokens u (store.filter keep) doomed ≤ keptTokens u store doomed :=
  List.Sublist.countP_le List.filter_sublist

theorem keptTokens_insert (u : String) (store : List Token) (doomed : List String)
    (token : Token) :
    keptTokens u (store ++ [token]) doomed ≤ keptTokens u store doomed + 1 := by
  rw [keptTokens, List.countP_append]
  exact Nat.add_le_add_left List.countP_le_length _

variable {u : String}

/-- With a row of the user doomed, fewer are kept than there are. -/
theorem keptTokens_lt {w : World} {doomed : List String} {row : Token} (hrow : row ∈ w.store)
    (hu : row.userID = u) (hdoomed : row.accessToken ∈ doomed) :
    keptTokens u w.store doomed < w.tokensOf u := by
  obtain ⟨before, after, hstore⟩ := List.append_of_mem hrow
  have hbefore := keptTokens_le u { w with store := before } doomed
  have hafter := keptTokens_le u { w with store := after } doomed
  unfold keptTokens World.tokensOf at *
  rw [hstore, List.countP_append, List.countP_append, List.countP_cons, List.countP_cons]
  simp only [hu, hdoomed, decide_true, Bool.true_and, Bool.not_true,
    if_true, List.contains_eq_mem] at *
  simp only [Bool.false_eq_true, if_false]
  omega

/-- The deletion of a doomed row leaves what was kept. -/
theorem keptTokens_delete (u a : String) (store : List Token) {doomed doomed' : List String}
    (h : ∀ b, b ∈ doomed ↔ b = a ∨ b ∈ doomed') :
    keptTokens u (store.filter fun row => !decide (row.accessToken = a)) doomed' =
      keptTokens u store doomed := by
  rw [keptTokens, keptTokens, List.countP_filter]
  congr 1
  funext row
  by_cases hu : row.userID = u
  · by_cases ha : row.accessToken = a
    · simp [h, ha]
    · simp [h, ha]
  · simp [hu]

variable {op : Op} {next : Option Call}

theorem creating_of_doomed {a : String} (h : doomed op next = some a) :
   creating op next = true := by
  unfold doomed at h
  split at h
  · rfl
  · rfl
  · cases h

theorem creating_listing (op : Op) (u : String) : creating op (some (.listByUserID u)) = false := by
  cases op with
  | createToken identity => rfl
  | _ => rfl

variable {s : Clients}

theorem doomedTokens_of_idle (h : underWay s = 0) : doomedTokens s = [] := by
  rw [underWay, List.countP_eq_zero] at h
  rw [doomedTokens, List.filterMap_eq_nil_iff]
  intro th hth
  rw [← Option.not_isSome_iff_eq_none]
  intro hsome
  obtain ⟨a, ha⟩ := Option.isSome_iff_exists.1 hsome
  exact h th hth (creating_of_doomed ha)

section OneThread

variable {before after : List (Thread Call Answer (Except Err Value) World Op)}
variable {th : Thread Call Answer (Except Err Value) World Op}

/-- The logins under way, one thread apart. -/
theorem underWay_eq (w : World) :
    underWay ⟨w, before ++ th :: after⟩ =
      (underWay ⟨w, before⟩ + underWay ⟨w, after⟩) + (creating th.op th.prog.next).toNat := by
  simp only [underWay, List.countP_append, List.countP_cons]
  cases creating th.op th.prog.next with
  | false => rfl
  | true => exact (Nat.add_assoc _ _ _).symm

theorem doomedTokens_eq (w : World) :
    doomedTokens ⟨w, before ++ th :: after⟩ =
      doomedTokens ⟨w, before⟩ ++ ((doomed th.op th.prog.next).toList ++
        doomedTokens ⟨w, after⟩) := by
  simp only [doomedTokens, List.filterMap_append, List.filterMap_cons]
  cases doomed th.op th.prog.next with
  | none => rfl
  | some a => rfl

end OneThread

/-- The thread that makes a call, with the threads before and after it. -/
theorem exists_of_call {i : Nat} {th : Thread Call Answer (Except Err Value) World Op}
    (th' : Thread Call Answer (Except Err Value) World Op) (hi : s.threads[i]? = some th) :
    ∃ before after, s.threads = before ++ th :: after ∧
      s.threads.set i th' = before ++ th' :: after := by
  obtain ⟨hlt, rfl⟩ := List.getElem?_eq_some_iff.1 hi
  obtain ⟨before, after, hbefore, -, hset⟩ := List.exists_of_set hlt
  exact ⟨before, after, hbefore, hset⟩

/-! ## What a call does -/

/-- What a call does to the store, and what its thread is before and after it: whether it is a
login under way, and the access token that it is going to delete. -/
inductive Effect (cfg : Config) (u : String) (l : Call) (w : World) :
    World → Bool → Option String → Bool → Option String → Prop
  | lists (hl : l = .listByUserID u) (h : (w.tokensOf u : Int) < cfg.maxPerUser) :
      Effect cfg u l w w false none true none
  | evicts {row : Token} (hl : l = .listByUserID u) (hrow : row ∈ w.store) (hu : row.userID = u) :
      Effect cfg u l w w false none true (some row.accessToken)
  | keeps {w' : World} {b b' : Bool} (d : Option String) (hstore : w'.store = w.store)
      (hb : b' = true → b = true) : Effect cfg u l w w' b d b' d
  | deletes {w' : World} {a : String}
      (hstore : w'.store = w.store.filter fun row => !decide (row.accessToken = a)) :
      Effect cfg u l w w' true (some a) true none
  | removes {w' : World} {keep : Token → Bool} (hstore : w'.store = w.store.filter keep) :
      Effect cfg u l w w' false none false none
  | inserts {w' : World} {token : Token} (hstore : w'.store = w.store ++ [token]) :
      Effect cfg u l w w' true none false none

variable {fresh : Fresh} {w w' : World}

theorem deleteByAccessToken_store {a : String} {x : Unit}
    (h : sem (.deleteByAccessToken a) fresh w = some (w', x)) :
    w'.store = w.store.filter fun row => !decide (row.accessToken = a) := by
  simp only [sem] at h
  split_ifs at h
  cases h
  rfl

variable {l : Call} {x : Answer l}

/-- The calls of a login. -/
theorem creation_effect {identity : Identity} (horder : CreationOrder cfg u l x next)
    (hsem : sem l fresh w = some (w', x)) :
    Effect cfg u l w w' (creating (.createToken identity) (some l))
      (doomed (.createToken identity) (some l)) (creating (.createToken identity) next)
      (doomed (.createToken identity) next) := by
  cases l with
  | listByUserID u' =>
    cases hsem
    obtain ⟨rfl, ⟨hlt, rfl⟩ | ⟨token, htoken, rfl⟩⟩ := horder
    · apply Effect.lists rfl
      rwa [World.tokensOf, List.countP_eq_length_filter]
    · obtain ⟨hrow, hu⟩ := List.mem_filter.1 htoken
      exact Effect.evicts rfl hrow (of_decide_eq_true hu)
  | cacheDelete a =>
    cases hsem
    obtain rfl : next = _ := horder
    exact .keeps _ rfl id
  | deleteByAccessToken a =>
    obtain rfl : next = _ := horder
    exact .deletes (deleteByAccessToken_store hsem)
  | generate =>
    simp only [sem] at hsem
    split_ifs at hsem
    cases hsem
    obtain rfl : next = _ := horder
    exact .keeps _ rfl id
  | now =>
    cases hsem
    obtain ⟨token, rfl⟩ := horder
    exact .keeps _ rfl id
  | cacheSet a token =>
    cases hsem
    obtain rfl : next = _ := horder
    exact .keeps _ rfl id
  | create token =>
    simp only [sem] at hsem
    split_ifs at hsem
    · cases hsem
      obtain rfl | ⟨_, rfl⟩ := horder
      · exact .keeps _ rfl fun _ => rfl
      · exact .keeps _ rfl fun _ => rfl
    · cases hsem
      obtain rfl | ⟨_, rfl⟩ := horder
      · exact .inserts rfl
      · exact .inserts rfl
  | identityCacheSet identity' =>
    cases hsem
    obtain rfl : next = _ := horder
    exact .keeps _ rfl id
  | _ => exact absurd horder id

/-- The calls of a deletion. -/
theorem deletion_effect {u a : String} (horder : DeletionOrder l x next)
    (hsem : sem l fresh w = some (w', x)) :
    Effect cfg u l w w' (creating (.deleteToken a) (some l)) (doomed (.deleteToken a) (some l))
      (creating (.deleteToken a) next) (doomed (.deleteToken a) next) := by
  cases l with
  | cacheDelete b =>
    cases hsem
    exact .keeps _ rfl id
  | deleteByAccessToken b => exact .removes (deleteByAccessToken_store hsem)
  | _ => exact absurd horder id

/-- A call of a thread, and the thread after it. -/
theorem threadOK_call {start : World} {k : Answer l → Program (Except Err Value)}
    (h : ThreadOK cfg u ⟨op, start, .call l k⟩) (hsem : sem l fresh w = some (w', x)) :
    ThreadOK cfg u ⟨op, start, k x⟩ ∧
      Effect cfg u l w w' (creating op (some l)) (doomed op (some l)) (creating op (k x).next)
        (doomed op (k x).next) := by
  cases op with
  | createToken identity =>
    obtain ⟨hu, hfollows⟩ := h
    obtain ⟨horder, hrest⟩ := hfollows x
    exact ⟨⟨hu, hrest⟩, creation_effect horder hsem⟩
  | deleteToken a =>
    obtain ⟨horder, hrest⟩ := h x
    exact ⟨hrest, deletion_effect horder hsem⟩
  | _ => exact absurd h id

/-! ## Runs -/

/-- With `others` other logins under way, which are going to delete `before` and `after`, a call
leaves room. -/
theorem room_after {b b' : Bool} {d d' : Option String} (others : Nat) {before after : List String}
    (heffect : Effect cfg u l w w' b d b' d')
    (hturn : l = .listByUserID u → (others = 0 ∧ before = [] ∧ after = []) ∨
      (w.tokensOf u + others : Int) < cfg.maxPerUser)
    (hroom : (keptTokens u w.store (before ++ (d.toList ++ after)) + (others + b.toNat) : Int) ≤
      cfg.maxPerUser) :
    (keptTokens u w'.store (before ++ (d'.toList ++ after)) + (others + b'.toNat) : Int) ≤
      cfg.maxPerUser := by
  cases heffect with
  | lists hl hlt =>
    have hkept := keptTokens_le u w (before ++ ((none : Option String).toList ++ after))
    obtain ⟨rfl, -, -⟩ | hlt := hturn hl
    · simp only [Bool.toNat_true]
      omega
    · simp only [Bool.toNat_true]
      omega
  | @evicts row hl hrow hu =>
    have hmem : row.accessToken ∈ before ++ ((some row.accessToken).toList ++ after) := by simp
    have hkept := keptTokens_lt hrow hu hmem
    obtain ⟨rfl, rfl, rfl⟩ | hlt := hturn hl
    · -- all rows were kept before, and at most `MaxPerUser`
      have hall : (w.tokensOf u : Int) ≤ cfg.maxPerUser := by
        simpa [keptTokens_nil] using hroom
      simp only [Bool.toNat_true]
      omega
    · simp only [Bool.toNat_true]
      omega
  | @keeps w' b b' d hstore hb =>
    have hle : b'.toNat ≤ b.toNat := by
      cases b' with
      | false => exact Nat.zero_le _
      | true => exact Nat.le_of_eq (congrArg Bool.toNat (hb rfl).symm)
    rw [hstore]
    omega
  | @deletes w' a hstore =>
    have hdoomed : ∀ c, c ∈ before ++ ((some a).toList ++ after) ↔
        c = a ∨ c ∈ before ++ ((none : Option String).toList ++ after) := by
      intro c
      simp only [Option.toList_some, Option.toList_none, List.mem_append, List.mem_singleton,
        List.not_mem_nil, false_or]
      tauto
    rwa [hstore, keptTokens_delete u a w.store hdoomed]
  | @removes w' keep hstore =>
    have hkept := keptTokens_filter u w.store (before ++ ((none : Option String).toList ++ after))
      keep
    rw [hstore]
    omega
  | @inserts w' token hstore =>
    have hkept := keptTokens_insert u w.store
      (before ++ ((none : Option String).toList ++ after)) token
    rw [hstore]
    simp only [Bool.toNat_true, Bool.toNat_false] at hroom ⊢
    omega

theorem threadOK_start (hmax : 1 ≤ cfg.maxPerUser) (w : World) (hof : OfUser u (.start op)) :
   ThreadOK cfg u ⟨op, w, code cfg op⟩ := by
  cases op with
  | createToken identity =>
    obtain rfl : identity.userID = u := hof
    exact ⟨rfl, createToken_follows hmax identity⟩
  | deleteToken a => exact deleteToken_follows cfg a
  | _ => exact absurd hof id

/-- A call that starts is not under way yet. -/
theorem idle_start (cfg : Config) (u : String) (hof : OfUser u (.start op)) :
    doomed op (code cfg op).next = none ∧ creating op (code cfg op).next = false := by
  cases op with
  | createToken identity => exact ⟨rfl, rfl⟩
  | deleteToken a => exact ⟨rfl, rfl⟩
  | _ => exact absurd hof id

/-- One step. -/
theorem Bounded.step (hmax : 1 ≤ cfg.maxPerUser) {s t : Clients} {step : Step} (h : Bounded cfg u s)
    (hof : OfUser u step) (hturn : ListsInTurn cfg u s step)
    (hstep : clientsStep cfg s step = some t) : Bounded cfg u t := by
  obtain ⟨op, rfl, rfl⟩ | ⟨i, fresh, op, start, l, k, w, x, rfl, hi, hsem, rfl⟩ |
    ⟨e, w, rfl, he, rfl⟩ := systemStep_cases hstep
  · refine ⟨?_, ?_⟩
    · intro th hth
      rcases List.mem_append.1 hth with hth | hth
      · exact h.threads th hth
      · obtain rfl := List.mem_singleton.1 hth
        exact threadOK_start hmax s.world hof
    · obtain ⟨hdoomed, hcreating⟩ := idle_start cfg u hof
      have hroom := h.room
      simpa [doomedTokens, underWay, hdoomed, hcreating] using hroom
  · obtain ⟨before, after, hthreads, hset⟩ := exists_of_call ⟨op, start, k x⟩ hi
    obtain ⟨hok, heffect⟩ := threadOK_call (h.threads _ (List.mem_of_getElem? hi)) hsem
    refine ⟨?_, ?_⟩
    · intro th hth
      rcases List.mem_or_eq_of_mem_set hth with hth | rfl
      · exact h.threads th hth
      · exact hok
    · obtain ⟨world, threads⟩ := s
      obtain rfl : threads = _ := hthreads
      have hroom := h.room
      rw [doomedTokens_eq, underWay_eq] at hroom
      rw [hset, doomedTokens_eq, underWay_eq]
      refine room_after (underWay ⟨world, before⟩ + underWay ⟨world, after⟩) heffect ?_
        hroom
      rintro rfl
      have hunder : underWay ⟨world, before ++ ⟨op, start, .call (.listByUserID u) k⟩ :: after⟩ =
          underWay ⟨world, before⟩ + underWay ⟨world, after⟩ := by
        rw [underWay_eq]
        exact congrArg (_ + Bool.toNat ·) (creating_listing op u)
      have hfree := hturn _ hi rfl
      rw [hunder] at hfree
      apply hfree.imp_left
      intro hidle
      obtain ⟨hbefore, hafter⟩ := Nat.add_eq_zero_iff.1 hidle
      exact ⟨hidle, doomedTokens_of_idle hbefore, doomedTokens_of_idle hafter⟩
  · refine ⟨h.threads, ?_⟩
    have hroom := h.room
    rw [← (change_facts he).1] at hroom
    exact hroom

theorem ThreadOK.noPanic {start : World} {r : Except Err Value}
    (h : ThreadOK cfg u ⟨op, start, .ret r⟩) : NoPanic r := by
  cases op with
  | createToken identity => exact h.2
  | deleteToken a => exact h
  | _ => exact absurd h id

/-- With no call in progress the store is bounded. -/
theorem Bounded.sessionsBounded (h : Bounded cfg u s) :
    SessionsBounded cfg u s := by
  constructor
  · rintro ⟨op, start, prog⟩ hth err rfl
    exact (h.threads _ hth).noPanic err rfl
  · intro hdone
    have hidle : underWay s = 0 := by
      rw [underWay, List.countP_eq_zero]
      rintro ⟨op, start, prog⟩ hth
      obtain ⟨r, rfl⟩ : ∃ r, prog = .ret r := hdone _ hth
      cases op with
      | createToken identity => exact Bool.false_ne_true
      | _ => exact Bool.false_ne_true
    have hroom := h.room
    rw [doomedTokens_of_idle hidle, keptTokens_nil, hidle] at hroom
    simpa using hroom

/-- In every run of the logins and deletions of one user, whose logins read the tokens in turn or
with room for all, the sessions are bounded. -/
theorem sessions_bounded (cfg : Config) (hmax : 1 ≤ cfg.maxPerUser) (u : String) (w : World)
    (hnone : ∀ row ∈ w.store, row.userID ≠ u) (steps : List Step)
    (hof : ∀ step ∈ steps, OfUser u step)
    (hturn : Lib.Runs.StepsMeet (clientsStep cfg) (ListsInTurn cfg u) ⟨w, []⟩ steps) :
    ∀ s, Lib.Runs.exec (clientsStep cfg) ⟨w, []⟩ steps = some s → SessionsBounded cfg u s := by
  intro s hrun
  have hinit : Bounded cfg u ⟨w, []⟩ := by
    refine ⟨fun th hth => absurd hth List.not_mem_nil, ?_⟩
    have hzero : w.tokensOf u = 0 :=
      List.countP_eq_zero.2 fun row hrow h => hnone row hrow (of_decide_eq_true h)
    have hkept := keptTokens_le u w []
    change (keptTokens u w.store [] + (0 : Nat) : Int) ≤ cfg.maxPerUser
    omega
  have hbounded := Lib.Runs.exec_invariant_of_stepsMeet (I := fun _ s => Bounded cfg u s) hinit
    (fun _ m a t h hmeet hstep => h.step hmax hmeet.1 hmeet.2 hstep) steps s
    (hturn.and_labels hof) hrun
  exact hbounded.sessionsBounded

/-! ## Two logins -/

def sampleLogin : Op := .createToken ⟨"user", "org", "user@example.com"⟩

/-- Nobody has logged in. -/
def noSessions : World := { sampleWorld with cache := fun _ => none, store := [], seen := [""] }

/-- A call of a thread, with secrets that end in the suffix. -/
def nextWith (suffix : String) (i : Nat) : Step :=
  .call i ⟨"id" ++ suffix, "access" ++ suffix, "refresh" ++ suffix⟩

/-- Two logins that read the tokens before either inserts one, and then go on and insert theirs. -/
def twoLogins : List Step :=
  [.start sampleLogin, .start sampleLogin, nextWith "1" 0, nextWith "2" 1] ++
    List.replicate 5 (nextWith "1" 0) ++ List.replicate 5 (nextWith "2" 1)

/-- A call that does not read the tokens of the user waits for no turn. -/
theorem listsInTurn_of_next {i : Nat}
    (h : ∀ th ∈ s.threads[i]?, th.prog.next ≠ some (.listByUserID u)) :
    ListsInTurn cfg u s (.call i fresh) :=
  fun th hth hnext => absurd hnext (h th hth)

/-- There is room for both, and both have a session in the end. -/
theorem two_logins_bounded :
    ∃ s, Lib.Runs.exec (clientsStep ⟨30, 1, 1000, 4000, 2⟩) ⟨noSessions, []⟩ twoLogins = some s ∧
      s.world.tokensOf "user" = 2 ∧ SessionsBounded ⟨30, 1, 1000, 4000, 2⟩ "user" s := by
  refine ⟨_, rfl, by decide, ?_⟩
  refine sessions_bounded ⟨30, 1, 1000, 4000, 2⟩ (by decide) "user" noSessions
    (fun _ hrow => absurd hrow List.not_mem_nil) twoLogins ?_ ?_ _ rfl
  · intro step hstep
    simp only [twoLogins, List.mem_append, List.mem_cons, List.not_mem_nil, or_false,
      List.mem_replicate] at hstep
    obtain ((rfl | rfl | rfl | rfl) | ⟨-, rfl⟩) | ⟨-, rfl⟩ := hstep <;> first | rfl | trivial
  · refine ⟨trivial, ?_⟩
    rintro _ ⟨⟩
    refine ⟨trivial, ?_⟩
    rintro _ ⟨⟩
    refine ⟨fun th _ _ => .inl rfl, ?_⟩
    rintro _ ⟨⟩
    refine ⟨fun th _ _ => .inr (by decide), ?_⟩
    rintro _ ⟨⟩
    -- From here on neither login reads the tokens.
    iterate 10
      refine ⟨listsInTurn_of_next ?_, ?_⟩
      · rintro _ ⟨⟩
        exact nofun
      rintro _ ⟨⟩
    trivial

/-- `MaxPerUser` may be one, and then two logins at once leave two tokens; it may be zero, and
then a login indexes an empty list. -/
theorem sessions_not_bounded :
    (Config.validate ⟨30, 1, 1000, 4000, 1⟩ = .ok () ∧
      ∃ s, Lib.Runs.exec (clientsStep ⟨30, 1, 1000, 4000, 1⟩) ⟨noSessions, []⟩ twoLogins = some s ∧
        ¬SessionsBounded ⟨30, 1, 1000, 4000, 1⟩ "user" s) ∧
      Config.validate ⟨30, 1, 1000, 4000, 0⟩ = .ok () ∧
      ∃ s, Lib.Runs.exec (clientsStep ⟨30, 1, 1000, 4000, 0⟩) ⟨noSessions, []⟩
          [.start sampleLogin, nextWith "1" 0] = some s ∧
        ¬SessionsBounded ⟨30, 1, 1000, 4000, 0⟩ "user" s := by
  refine ⟨⟨rfl, _, rfl, ?_⟩, rfl, _, rfl, ?_⟩
  · intro h
    have htwo := h.bounded ?_
    · exact absurd htwo (by decide)
    · intro th hth
      change th ∈ [_, _] at hth
      obtain rfl | hth := List.mem_cons.1 hth
      · exact ⟨_, rfl⟩
      · obtain rfl := List.mem_singleton.1 hth
        exact ⟨_, rfl⟩
  · intro h
    exact h.indexes _ List.mem_cons_self ⟨.panic, "index out of range"⟩
      (by with_unfolding_all rfl) rfl

end Signoz.Tokenizer
