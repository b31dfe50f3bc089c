import VaultKeeper.Proofs.Consistency
import VaultKeeper.Proofs.Totality

/-! # Ranked pools

Which pools may back a default strategy, in what order they are ranked, and what a selection answers
by its precedence: an override, then a paused default, then a deposit into the best eligible pool.
No two pools have the same place in the order of registration, so the ranking has no ties and the
best pool is one pool. What makes a pool eligible is what resolution asks of a deposit into it, so a
selection that goes by the ratings resolves. -/

namespace VaultKeeper

/-! ## The order of pools -/

/-- A pool comes before another one: it is rated higher, or it is rated alike and was registered
earlier. -/
def PoolRecord.Outranks (a b : PoolRecord) : Prop :=
  ∃ m n, a.rating = some m ∧ b.rating = some n ∧
    (n < m ∨ m = n ∧ a.registration < b.registration)

/-- Of two pools at most one comes before the other. -/
theorem PoolRecord.Outranks.asymm {a b : PoolRecord} (h : a.Outranks b) : ¬b.Outranks a := by
  obtain ⟨m, n, ha, hb, hlt⟩ := h
  rintro ⟨n', m', hb', ha', hlt'⟩
  rw [ha, Option.some.injEq] at ha'
  rw [hb, Option.some.injEq] at hb'
  omega

namespace Candidate

/-- Candidates are compared by numbers: the rating, then the place in the order of registration. -/
theorem ranksBefore_iff {a b : Candidate} :
    a.ranksBefore b = true ↔ b.record.rating.getD 0 < a.record.rating.getD 0 ∨
      a.record.rating.getD 0 = b.record.rating.getD 0 ∧
        a.record.registration ≤ b.record.registration := by
  simp only [ranksBefore, Bool.or_eq_true, Bool.and_eq_true, decide_eq_true_eq, beq_iff_eq]

/-- Of any two candidates one ranks at least as high as the other. -/
theorem ranksBefore_total (a b : Candidate) : (a.ranksBefore b || b.ranksBefore a) = true := by
  rw [Bool.or_eq_true, ranksBefore_iff, ranksBefore_iff]
  omega

/-- Ranking at least as high is transitive. -/
theorem ranksBefore_trans (a b c : Candidate) (hab : a.ranksBefore b = true)
    (hbc : b.ranksBefore c = true) : a.ranksBefore c = true := by
  rw [ranksBefore_iff] at *
  omega

/-- Rated candidates with different places are told apart by the order. -/
theorem outranks_of_ranksBefore {a b : Candidate} (ha : a.record.rating.isSome = true)
    (hb : b.record.rating.isSome = true) (h : a.ranksBefore b = true)
    (hne : a.record.registration ≠ b.record.registration) : a.record.Outranks b.record := by
  obtain ⟨m, hm⟩ := Option.isSome_iff_exists.1 ha
  obtain ⟨n, hn⟩ := Option.isSome_iff_exists.1 hb
  rw [ranksBefore_iff, hm, hn, Option.getD_some, Option.getD_some] at h
  exact ⟨m, n, hm, hn, by omega⟩

end Candidate

namespace Registry

/-! ## Eligible pools -/

/-- **A pool that may back the default strategy of a policy for an asset**: it is registered and
approved, its rating lies in the policy's range, and the adapter it is bound to accepts the
asset. -/
structure Eligible (r : Registry) (policy : RiskProfile) (asset : Address) (record : PoolRecord) :
    Prop where
  /-- The pool is registered. -/
  known : r.pools.get? record.pool = some record
  /-- Deposits may enter it. -/
  approved : record.approved = true
  /-- Its rating lies in the range. -/
  rated : ∃ n, record.rating = some n ∧ policy.range.low ≤ n ∧ n ≤ policy.range.high
  /-- It is bound to an adapter that accepts the asset. -/
  served : ∃ b, r.binding? record.pool = some b ∧ b.adapter.base.accepts asset record.pool = true

/-- The adapter of a pool mints a receipt token for an asset. -/
def Mints (r : Registry) (asset pool receipt : Address) : Prop :=
  ∃ b, r.binding? pool = some b ∧ b.adapter.base.receipt asset pool = .ok receipt

/-- **The best of the eligible pools.** -/
structure Best (r : Registry) (policy : RiskProfile) (asset : Address) (record : PoolRecord) :
    Prop where
  /-- It is one of them. -/
  eligible : r.Eligible policy asset record
  /-- It comes before all the others. -/
  outranks : ∀ other, r.Eligible policy asset other → other ≠ record → record.Outranks other

variable {r r' : Registry} {policy : RiskProfile} {asset pool : Address} {record : PoolRecord}
  {profile : String}

/-- A pool has one receipt token for an asset. -/
theorem Mints.unique {receipt receipt' : Address} (h : r.Mints asset pool receipt)
    (h' : r.Mints asset pool receipt') : receipt = receipt' := by
  obtain ⟨b, hb, hreceipt⟩ := h
  obtain ⟨b', hb', hreceipt'⟩ := h'
  rw [hb, Option.some.injEq] at hb'
  subst hb'
  rw [hreceipt, Except.ok.injEq] at hreceipt'
  exact hreceipt'

/-- An eligible pool mints a receipt token: accepted assets have one. -/
theorem Eligible.mints (h : r.Eligible policy asset record) :
    ∃ receipt, r.Mints asset record.pool receipt := by
  obtain ⟨b, hb, haccepts⟩ := h.served
  unfold Protocol.accepts at haccepts
  cases hassets : b.adapter.base.acceptedAssets record.pool with
  | error e =>
    rw [hassets] at haccepts
    cases haccepts
  | ok assets =>
    rw [hassets] at haccepts
    obtain ⟨receipt, hreceipt⟩ :=
      Protocol.succeeds_receipt hassets (List.contains_iff_mem.1 haccepts)
    exact ⟨receipt, b, hb, hreceipt⟩

/-- There is only one best pool. -/
theorem Best.unique {other : PoolRecord} (h : r.Best policy asset record)
    (h' : r.Best policy asset other) : record = other := by
  by_cases hsame : record = other
  · exact hsame
  · have hbefore := h.outranks other h'.eligible (Ne.symm hsame)
    exact absurd (h'.outranks record h.eligible hsame) hbefore.asymm

/-! ## The ranking -/

/-- A policy admits approved pools with a rating in its range. -/
theorem admits_iff : policy.admits record = true ↔ record.approved = true ∧
    ∃ n, record.rating = some n ∧ policy.range.low ≤ n ∧ n ≤ policy.range.high := by
  cases hrating : record.rating with
  | none => simp [RiskProfile.admits, hrating]
  | some n => simp [RiskProfile.admits, hrating, RatingRange.contains]

/-- A registered pool becomes a candidate exactly when it is eligible, with its receipt token. -/
theorem candidate?_eq_some_iff (hknown : r.pools.get? record.pool = some record) {c : Candidate} :
    r.candidate? policy asset record = some c ↔
      c.record = record ∧ r.Eligible policy asset record ∧
        r.Mints asset record.pool c.receipt := by
  unfold candidate?
  constructor
  · intro h
    split at h
    · rename_i hadmits
      obtain ⟨happroved, hrated⟩ := admits_iff.1 hadmits
      obtain ⟨b, hb, h⟩ := Option.bind_eq_some_iff.1 h
      split at h
      · rename_i haccepts
        obtain ⟨receipt, hreceipt, h⟩ := Option.bind_eq_some_iff.1 h
        cases h
        have hmints : b.adapter.base.receipt asset record.pool = .ok receipt := by
          cases hr : b.adapter.base.receipt asset record.pool with
          | error e =>
            rw [hr] at hreceipt
            cases hreceipt
          | ok found =>
            rw [hr] at hreceipt
            cases hreceipt
            rfl
        exact ⟨rfl, ⟨hknown, happroved, hrated, b, hb, haccepts⟩, b, hb, hmints⟩
      · cases h
    · cases h
  · rintro ⟨rfl, heligible, b, hb, hreceipt⟩
    obtain ⟨b', hb', haccepts⟩ := heligible.served
    rw [hb, Option.some.injEq] at hb'
    subst hb'
    rw [if_pos (admits_iff.2 ⟨heligible.approved, heligible.rated⟩)]
    simp only [hb, hreceipt, haccepts, if_true, Except.toOption, Option.bind_eq_bind,
      Option.bind_some, Option.pure_def]

/-- **The ranking holds exactly the eligible pools**, each with its receipt token. -/
theorem mem_rankPools (hr : r.Consistent) {c : Candidate} :
    c ∈ r.rankPools policy asset ↔
      r.Eligible policy asset c.record ∧ r.Mints asset c.record.pool c.receipt := by
  have hmem : c ∈ r.rankPools policy asset ↔
      ∃ record ∈ r.poolRecords, r.candidate? policy asset record = some c := by
    rw [rankPools, List.mem_mergeSort, List.mem_filterMap]
  rw [hmem]
  constructor
  · rintro ⟨record, hrecord, hc⟩
    obtain ⟨rfl, hrest⟩ :=
      (candidate?_eq_some_iff ((hr.poolRecords.1 record).1 hrecord)).1 hc
    exact hrest
  · rintro ⟨heligible, hmints⟩
    exact ⟨c.record, (hr.poolRecords.1 _).2 heligible.known,
      (candidate?_eq_some_iff heligible.known).2 ⟨rfl, heligible, hmints⟩⟩

/-- **Every pool of the ranking comes before all that follow it.** -/
theorem pairwise_rankPools (hr : r.Consistent) :
    (r.rankPools policy asset).Pairwise fun a b => a.record.Outranks b.record := by
  have hsorted : (r.rankPools policy asset).Pairwise fun a b => a.ranksBefore b = true :=
    List.pairwise_mergeSort Candidate.ranksBefore_trans Candidate.ranksBefore_total _
  -- Listed pools have different places, and sorting keeps them different.
  have hplaces : (r.rankPools policy asset).Pairwise fun a b =>
      a.record.registration ≠ b.record.registration := by
    refine ((List.mergeSort_perm _ _).pairwise_iff fun h => h.symm).2 ?_
    refine List.pairwise_filterMap.2 (hr.poolRecords.2.imp_of_mem ?_)
    intro x y hx hy hlt a ha b hb
    obtain ⟨rfl, -⟩ := (candidate?_eq_some_iff ((hr.poolRecords.1 x).1 hx)).1 ha
    obtain ⟨rfl, -⟩ := (candidate?_eq_some_iff ((hr.poolRecords.1 y).1 hy)).1 hb
    exact Nat.ne_of_lt hlt
  have hrated : ∀ c ∈ r.rankPools policy asset, c.record.rating.isSome = true := by
    intro c hc
    obtain ⟨n, hn, -⟩ := ((mem_rankPools hr).1 hc).1.rated
    rw [hn]
    rfl
  refine (hsorted.and hplaces).imp_of_mem fun {a b} ha hb h => ?_
  exact Candidate.outranks_of_ranksBefore (hrated a ha) (hrated b hb) h.1 h.2

/-- The first pool of the ranking is the best one. -/
theorem best_of_rankPools {c : Candidate} {rest : List Candidate} (hr : r.Consistent)
    (h : r.rankPools policy asset = c :: rest) : r.Best policy asset c.record := by
  have hmem : ∀ d : Candidate, d ∈ c :: rest ↔
      r.Eligible policy asset d.record ∧ r.Mints asset d.record.pool d.receipt := by
    intro d
    rw [← h, mem_rankPools hr]
  obtain ⟨hfirst, -⟩ := List.pairwise_cons.1 (h ▸ pairwise_rankPools hr)
  refine ⟨((hmem c).1 List.mem_cons_self).1, fun other hother hne => ?_⟩
  obtain ⟨receipt, hmints⟩ := hother.mints
  rcases List.mem_cons.1 ((hmem ⟨other, receipt⟩).2 ⟨hother, hmints⟩) with rfl | hrest
  · exact absurd rfl hne
  · exact hfirst _ hrest

/-- **There is a best pool exactly when some pool is eligible.** -/
theorem exists_best_iff (hr : r.Consistent) :
    (∃ record, r.Best policy asset record) ↔ ∃ record, r.Eligible policy asset record := by
  constructor
  · rintro ⟨record, hbest⟩
    exact ⟨record, hbest.eligible⟩
  · rintro ⟨record, heligible⟩
    obtain ⟨receipt, hmints⟩ := heligible.mints
    cases hranks : r.rankPools policy asset with
    | nil =>
      have hmem := (mem_rankPools hr (c := ⟨record, receipt⟩)).2 ⟨heligible, hmints⟩
      rw [hranks] at hmem
      cases hmem
    | cons c rest => exact ⟨c.record, best_of_rankPools hr hranks⟩

/-! ## Precedence -/

/-- **What a selection answers, by its precedence.** -/
inductive Chooses (r : Registry) (profile : String) (asset : Address) :
    Except AllocationError (Selection × Registry) → Prop
  /-- The profile is not known. -/
  | unknown (hprofile : r.profiles.get? profile = none) :
      Chooses r profile asset (.error (.unknownRiskProfile profile))
  /-- An override is set. -/
  | override {policy : RiskProfile} {hash : Digest}
      (hprofile : r.profiles.get? profile = some policy)
      (hset : r.overrides.get? (profile, tokenHash [asset]) = some hash) :
      Chooses r profile asset (.ok (⟨hash, .override⟩, r))
  /-- No override is set, and the default is paused. -/
  | paused {policy : RiskProfile} {cached : Digest}
      (hprofile : r.profiles.get? profile = some policy)
      (hset : r.overrides.get? (profile, tokenHash [asset]) = none)
      (hpaused : r.defaultState profile (tokenHash [asset]) = .ratingBased true cached) :
      Chooses r profile asset (.ok (⟨cached, .cachedDefault⟩, r))
  /-- Neither is the case, and no pool is eligible. -/
  | none {policy : RiskProfile} (hprofile : r.profiles.get? profile = some policy)
      (hset : r.overrides.get? (profile, tokenHash [asset]) = none)
      (hpaused : (r.defaultState profile (tokenHash [asset])).isPaused = false)
      (hnone : ∀ record, ¬r.Eligible policy asset record) :
      Chooses r profile asset (.error (.noEligibleStrategy profile asset))
  /-- Neither is the case, and a deposit into the best pool is registered and recorded. -/
  | best {policy : RiskProfile} {record : PoolRecord} {receipt : Address} {s : Strategy}
      (hprofile : r.profiles.get? profile = some policy)
      (hset : r.overrides.get? (profile, tokenHash [asset]) = none)
      (hpaused : (r.defaultState profile (tokenHash [asset])).isPaused = false)
      (hbest : r.Best policy asset record) (hmints : r.Mints asset record.pool receipt)
      (hasset : s.underlying = asset) (hsteps : s.steps = [⟨record.pool, receipt, false⟩]) :
      Chooses r profile asset (.ok (⟨s.hash, .ratingBased⟩,
        (r.register s).cacheDefault profile (tokenHash [asset]) s.hash))

/-- A deposit of an asset other than the zero address is a strategy. -/
theorem exists_single (hasset : asset ≠ .zero) (pool receipt : Address) :
    ∃ s, Strategy.single asset pool receipt = .ok s ∧ s.underlying = asset ∧
      s.steps = [⟨pool, receipt, false⟩] := by
  rw [Strategy.single, Strategy.make, dif_neg (List.cons_ne_nil _ _), dif_neg hasset]
  exact ⟨_, rfl, rfl, rfl⟩

/-- Without an override and a paused default a selection goes by the ranking. -/
theorem bestStrategy_of_ranked (hprofile : r.profiles.get? profile = some policy)
    (hset : r.overrides.get? (profile, tokenHash [asset]) = none)
    (hpaused : (r.defaultState profile (tokenHash [asset])).isPaused = false) :
    r.bestStrategy profile asset =
      match r.rankPools policy asset with
      | [] => .error (.noEligibleStrategy profile asset)
      | best :: _ => do
        let strategy ← Strategy.single asset best.record.pool best.receipt
        return (⟨strategy.hash, .ratingBased⟩,
          (r.register strategy).cacheDefault profile (tokenHash [asset]) strategy.hash) := by
  rw [bestStrategy, profile_eq_ok.2 hprofile, ok_bind]
  simp only [override?, hset]
  cases hstate : r.defaultState profile (tokenHash [asset]) with
  | unset => rfl
  | ratingBased paused cached =>
    rw [hstate] at hpaused
    change paused = false at hpaused
    subst hpaused
    rfl

/-- A selection answers what its precedence says. -/
theorem Chooses.bestStrategy_eq {x : Except AllocationError (Selection × Registry)}
    (hr : r.Consistent) (hasset : asset ≠ .zero) (h : r.Chooses profile asset x) :
    r.bestStrategy profile asset = x := by
  cases h with
  | unknown hprofile =>
    rw [bestStrategy, Registry.profile, hprofile]
    rfl
  | override hprofile hset =>
    rw [bestStrategy, profile_eq_ok.2 hprofile, ok_bind]
    simp only [override?, hset]
    rfl
  | paused hprofile hset hpaused =>
    rw [bestStrategy, profile_eq_ok.2 hprofile, ok_bind]
    simp only [override?, hset, hpaused]
    rfl
  | none hprofile hset hpaused hnone =>
    rw [bestStrategy_of_ranked hprofile hset hpaused]
    cases hranks : r.rankPools _ asset with
    | nil => rfl
    | cons c rest => exact absurd (best_of_rankPools hr hranks).eligible (hnone c.record)
  | @best policy record receipt s hprofile hset hpaused hbest hmints hunderlying hsteps =>
    rw [bestStrategy_of_ranked hprofile hset hpaused]
    have hmem := (mem_rankPools hr (c := ⟨record, receipt⟩)).2 ⟨hbest.eligible, hmints⟩
    cases hranks : r.rankPools policy asset with
    | nil =>
      rw [hranks] at hmem
      cases hmem
    | cons c rest =>
      -- The first candidate is the best pool with its only receipt token.
      have hrecord : c.record = record := (best_of_rankPools hr hranks).unique hbest
      have hfirst : c ∈ r.rankPools policy asset := hranks ▸ List.mem_cons_self
      have hreceipt : c.receipt = receipt :=
        ((mem_rankPools hr).1 hfirst).2.unique (hrecord ▸ hmints)
      obtain ⟨t, ht, htasset, htsteps⟩ := exists_single hasset record.pool receipt
      have hsame : t = s :=
        Strategy.eq_of_content (htasset.trans hunderlying.symm) (htsteps.trans hsteps.symm)
      simp only [hrecord, hreceipt, ht, hsame]
      rfl

/-- By its precedence a selection answers something. -/
theorem exists_chooses (hr : r.Consistent) (hasset : asset ≠ .zero) (profile : String) :
    ∃ x, r.Chooses profile asset x := by
  cases hprofile : r.profiles.get? profile with
  | none => exact ⟨_, .unknown hprofile⟩
  | some policy =>
    cases hset : r.overrides.get? (profile, tokenHash [asset]) with
    | some hash => exact ⟨_, .override hprofile hset⟩
    | none =>
      cases hpaused : (r.defaultState profile (tokenHash [asset])).isPaused with
      | true =>
        cases hstate : r.defaultState profile (tokenHash [asset]) with
        | unset =>
          rw [hstate] at hpaused
          cases hpaused
        | ratingBased paused cached =>
          rw [hstate] at hpaused
          change paused = true at hpaused
          subst hpaused
          exact ⟨_, .paused hprofile hset hstate⟩
      | false =>
        by_cases hsome : ∃ record, r.Eligible policy asset record
        · obtain ⟨record, hbest⟩ := (exists_best_iff hr).2 hsome
          obtain ⟨receipt, hmints⟩ := hbest.eligible.mints
          obtain ⟨s, -, hs, hsteps⟩ := exists_single hasset record.pool receipt
          exact ⟨_, .best hprofile hset hpaused hbest hmints hs hsteps⟩
        · exact ⟨_, .none hprofile hset hpaused (not_exists.1 hsome)⟩

/-- **A selection answers exactly what its precedence says.** -/
theorem bestStrategy_eq_iff (hr : r.Consistent) (hasset : asset ≠ .zero)
    {x : Except AllocationError (Selection × Registry)} :
    r.bestStrategy profile asset = x ↔ r.Chooses profile asset x := by
  constructor
  · rintro rfl
    obtain ⟨y, hy⟩ := exists_chooses hr hasset profile
    rw [hy.bestStrategy_eq hr hasset]
    exact hy
  · exact fun h => h.bestStrategy_eq hr hasset

/-! ## Selected defaults resolve -/

/-- The hash function tells a strategy from every registered one. -/
def TellsApart (r : Registry) (s : Strategy) : Prop :=
  ∀ hash t, r.strategies.get? hash = some t →
    Digest.keccak (strategyEncoding t.underlying t.steps) =
      Digest.keccak (strategyEncoding s.underlying s.steps) →
    strategyEncoding t.underlying t.steps = strategyEncoding s.underlying s.steps

/-- A strategy that is told apart from the registered ones is found once it is registered. -/
theorem strategy_register_of_tellsApart {s : Strategy} (hr : r.Consistent) (h : r.TellsApart s) :
    (r.register s).strategy s.hash = .ok s := by
  rw [strategy_eq_ok, register]
  by_cases hknown : r.strategies.contains s.hash = true
  · rw [if_pos hknown]
    obtain ⟨t, ht⟩ := Table.contains_iff.1 hknown
    have hhash : strategyDigest t.underlying t.steps = strategyDigest s.underlying s.steps :=
      (hr.strategies ht).1.symm.trans s.hash_eq
    obtain ⟨hunderlying, hsteps⟩ := strategyEncoding_inj (h _ _ ht hhash)
    rw [ht, Strategy.eq_of_content hunderlying hsteps]
  · rw [if_neg hknown]
    exact Table.get?_insert_self _ _ _

/-- A deposit into an eligible pool resolves wherever the pools and their bindings are the same. -/
theorem Eligible.succeeds_route {receipt : Address} {s : Strategy}
    (h : r.Eligible policy asset record) (hmints : r.Mints asset record.pool receipt)
    (hasset : s.underlying = asset) (hsteps : s.steps = [⟨record.pool, receipt, false⟩])
    (hpools : r'.pools = r.pools) (hbindings : ∀ pool, r'.binding? pool = r.binding? pool) :
    (r'.route .enter s).Succeeds := by
  obtain ⟨b, hb, haccepts⟩ := h.served
  obtain ⟨b', hb', hreceipt⟩ := hmints
  rw [hb, Option.some.injEq] at hb'
  subst hb'
  have happroved : r'.isApproved record.pool = true := by
    rw [isApproved, hpools, h.known]
    exact h.approved
  have hin : ∃ assets, b.adapter.base.acceptedAssets record.pool = .ok assets ∧
      asset ∈ assets := by
    unfold Protocol.accepts at haccepts
    cases hassets : b.adapter.base.acceptedAssets record.pool with
    | error e =>
      rw [hassets] at haccepts
      cases haccepts
    | ok assets =>
      rw [hassets] at haccepts
      exact ⟨assets, rfl, List.contains_iff_mem.1 haccepts⟩
  have hleg : r'.leg .enter 0 asset ⟨record.pool, receipt, false⟩ =
      .ok ⟨0, asset, ⟨record.pool, receipt, false⟩, b⟩ :=
    leg_of_resolved (l := ⟨0, asset, ⟨record.pool, receipt, false⟩, b⟩)
      ⟨(hbindings _).trans hb, fun _ => happroved, hin, fun hborrow => Bool.noConfusion hborrow,
        fun _ => hreceipt⟩
  refine ⟨[⟨0, asset, ⟨record.pool, receipt, false⟩, b⟩], ?_⟩
  rw [route, hsteps, hasset]
  exact legs_cons_eq_ok_iff.2 ⟨_, [], hleg, rfl, rfl⟩

/-- A selection that goes by the ratings is registered and recorded as the default. -/
structure Remembers (r : Registry) (profile : String) (asset : Address) (hash : Digest) :
    Prop where
  /-- The strategy is registered. -/
  registered : r.strategies.contains hash = true
  /-- It is the default. -/
  recorded : r.defaults.get? (profile, tokenHash [asset]) = some (.ratingBased false hash)

/-- A default that is not paused is replaced by what is recorded. -/
theorem remembers_of_not_paused (s : Strategy)
    (hpaused : (r.defaultState profile (tokenHash [asset])).isPaused = false) :
    ((r.register s).cacheDefault profile (tokenHash [asset]) s.hash).Remembers profile asset
      s.hash := by
  refine ⟨contains_register r s, (Table.get?_insert_self _ _ _).trans (congrArg some ?_)⟩
  rw [defaultState, (register_rest r s).2.1, ← defaultState]
  cases hstate : r.defaultState profile (tokenHash [asset]) with
  | unset => rfl
  | ratingBased paused cached =>
    rw [hstate] at hpaused
    change paused = false at hpaused
    subst hpaused
    rfl

/-- Registering a strategy and recording a default change neither pools nor bindings. -/
theorem sameMarket_cacheDefault (r : Registry) (s : Strategy) (profile : String)
    (tokens hash : Digest) :
    ((r.register s).cacheDefault profile tokens hash).pools = r.pools ∧
      ∀ pool, ((r.register s).cacheDefault profile tokens hash).binding? pool =
        r.binding? pool := by
  unfold register
  split <;> exact ⟨rfl, fun _ => rfl⟩

/-! ## Reached registries -/

/-- A registry that requests have led to, whatever they were and whoever made them. -/
def Reached (r : Registry) : Prop := ∃ admin qs, r = (new admin).run qs

/-- A reached registry is consistent. -/
theorem Reached.consistent (h : r.Reached) : r.Consistent := by
  obtain ⟨admin, qs, rfl⟩ := h
  exact (consistent_new admin).run qs

/-- A configured registry is reached by the commands of its configuration. -/
theorem Reached.of_config {c : Config} (h : ofConfig c = .ok r) : r.Reached := by
  refine ofConfig_induction (P := Reached) (fun admin => ⟨admin, [], rfl⟩) ?_ h
  rintro _ r' cmd - - ⟨admin, qs, rfl⟩ hcmd
  refine ⟨admin, qs ++ [.command ((new admin).run qs).governance cmd], ?_⟩
  rw [run_append]
  exact (after_of_perform hcmd).symm

/-- **A ranking of the eligible pools**: all of them, once each, by rating and registration. -/
structure Ranks (r : Registry) (policy : RiskProfile) (asset : Address)
    (ranking : List Candidate) : Prop where
  /-- The ranking holds the eligible pools and no others. -/
  mem_iff : ∀ record, record ∈ ranking.map (·.record) ↔ r.Eligible policy asset record
  /-- Each pool comes with its receipt token. -/
  receipts : ∀ c ∈ ranking, r.Mints asset c.record.pool c.receipt
  /-- Each pool comes before all that follow it. -/
  descending : ranking.Pairwise fun a b => a.record.Outranks b.record
  /-- No pool occurs twice. -/
  nodup : (ranking.map (·.record.pool)).Nodup

/-- A consistent registry ranks the eligible pools. -/
theorem Consistent.ranks (hr : r.Consistent) (policy : RiskProfile) (asset : Address) :
    r.Ranks policy asset (r.rankPools policy asset) where
  mem_iff record := by
    rw [List.mem_map]
    constructor
    · rintro ⟨c, hc, rfl⟩
      exact ((mem_rankPools hr).1 hc).1
    · intro heligible
      obtain ⟨receipt, hmints⟩ := heligible.mints
      exact ⟨⟨record, receipt⟩, (mem_rankPools hr).2 ⟨heligible, hmints⟩, rfl⟩
  receipts c hc := ((mem_rankPools hr).1 hc).2
  descending := pairwise_rankPools hr
  nodup := by
    refine List.pairwise_map.2 ((pairwise_rankPools hr).imp_of_mem fun {a b} ha hb h hpool => ?_)
    -- A pool has one record, which does not come before itself.
    have hknown := ((mem_rankPools hr).1 ha).1.known
    rw [hpool, ((mem_rankPools hr).1 hb).1.known, Option.some.injEq] at hknown
    rw [hknown] at h
    exact h.asymm h

end Registry

/-- **Selections follow their precedence and pick the best pool.** In every reached registry a
selection for an asset other than the zero address answers exactly what its precedence says. The
ranking it goes by holds the eligible pools and no others, each once and before all that it
outranks. What is selected by the ratings is registered and recorded, and unless its digest collides
with that of a registered strategy it resolves for deposits. -/
theorem selection_follows_precedence (r : Registry) (hr : r.Reached) (asset : Address)
    (hasset : asset ≠ .zero) :
    (∀ profile x, r.bestStrategy profile asset = x ↔ r.Chooses profile asset x) ∧
      (∀ policy, r.Ranks policy asset (r.rankPools policy asset)) ∧
      ∀ profile choice r', r.bestStrategy profile asset = .ok (choice, r') →
        choice.source = .ratingBased → r'.Remembers profile asset choice.hash ∧
          ∃ s, s.hash = choice.hash ∧ (r.TellsApart s →
            r'.strategy choice.hash = .ok s ∧ (r'.resolve .enter choice.hash).Succeeds) := by
  have hconsistent := hr.consistent
  refine ⟨fun profile x => Registry.bestStrategy_eq_iff hconsistent hasset,
    fun policy => hconsistent.ranks policy asset, fun profile choice r' h hsource => ?_⟩
  cases (Registry.bestStrategy_eq_iff hconsistent hasset).1 h with
  | override => cases hsource
  | paused => cases hsource
  | @best policy record receipt s hprofile hset hpaused hbest hmints hunderlying hsteps =>
    refine ⟨Registry.remembers_of_not_paused s hpaused, s, rfl, fun hapart => ?_⟩
    have hfound : ((r.register s).cacheDefault profile (tokenHash [asset]) s.hash).strategy
        s.hash = .ok s := Registry.strategy_register_of_tellsApart hconsistent hapart
    obtain ⟨hpools, hbindings⟩ :=
      Registry.sameMarket_cacheDefault r s profile (tokenHash [asset]) s.hash
    refine ⟨hfound, ?_⟩
    rw [Registry.resolve, hfound, ok_bind]
    exact hbest.eligible.succeeds_route hmints hunderlying hsteps hpools hbindings

namespace Rated

/-- Three vaults of one asset. Two are rated alike, and the one with the higher address is
registered first. -/
def deployment : Config where
  service := { name := "allocator" }
  snapshotPath := "chain_snapshot.json"
  governance := { admin := .ofNat 11 }
  protocols := [{ id := "vaults", kind := .vault }]
  pools := [
    { address := .ofNat 4, protocol := "vaults", rating := some 7, approved := true,
      coins := [.ofNat 2] },
    { address := .ofNat 6, protocol := "vaults", rating := some 9, approved := true,
      coins := [.ofNat 2] },
    { address := .ofNat 5, protocol := "vaults", rating := some 9, approved := true,
      coins := [.ofNat 2] }]
  riskProfiles := [{ name := "growth", minRating := 0, maxRating := 10 }]

/-- The registry of the configuration. -/
def deployed : Registry := (Registry.ofConfig deployment).toOption.getD default

/-- The profile of the configuration. -/
def policy : RiskProfile := ⟨"growth", false, ⟨0, 10⟩⟩

/-- The vault that was registered first of those with the highest rating. -/
def winner : PoolRecord := ⟨.ofNat 6, some 9, true, 1⟩

/-- A deposit into the winner, whose shares are the vault itself. -/
def strategy : Strategy where
  underlying := .ofNat 2
  steps := [⟨.ofNat 6, .ofNat 6, false⟩]
  hash := strategyDigest (.ofNat 2) [⟨.ofNat 6, .ofNat 6, false⟩]
  steps_ne_nil := by simp
  underlying_ne_zero := Founding.asset_ne_zero
  hash_eq := rfl

/-- The winner is eligible. -/
theorem eligible_winner : deployed.Eligible policy (.ofNat 2) winner :=
  ⟨rfl, rfl, ⟨9, rfl, by decide, by decide⟩, _, rfl, rfl⟩

/-- The winner comes before the other two vaults. -/
theorem best_winner : deployed.Best policy (.ofNat 2) winner := by
  refine ⟨eligible_winner, fun other hother hne => ?_⟩
  have hmem := Table.mem_toList_iff.2 hother.known
  have hlist : deployed.pools.toList = [(.ofNat 4, ⟨.ofNat 4, some 7, true, 0⟩),
      (.ofNat 5, ⟨.ofNat 5, some 9, true, 2⟩), (.ofNat 6, winner)] := rfl
  simp only [hlist, List.mem_cons, Prod.mk.injEq, List.not_mem_nil, or_false] at hmem
  rcases hmem with ⟨-, rfl⟩ | ⟨-, rfl⟩ | ⟨-, rfl⟩
  · exact ⟨9, 7, rfl, rfl, .inl (by decide)⟩
  · exact ⟨9, 9, rfl, rfl, .inr ⟨rfl, by decide⟩⟩
  · exact absurd rfl hne

/-- The winner is selected, and a deposit into it resolves. -/
theorem winner_selected : deployed.Reached ∧ (.ofNat 2 : Address) ≠ .zero ∧
    deployed.bestStrategy "growth" (.ofNat 2) = .ok (⟨strategy.hash, .ratingBased⟩,
      (deployed.register strategy).cacheDefault "growth" (tokenHash [.ofNat 2]) strategy.hash) ∧
    (((deployed.register strategy).cacheDefault "growth" (tokenHash [.ofNat 2])
      strategy.hash).resolve .enter strategy.hash).Succeeds := by
  have hreached : deployed.Reached := .of_config (c := deployment) rfl
  have hasset : (.ofNat 2 : Address) ≠ .zero := by decide
  obtain ⟨hchooses, -, hresolves⟩ := selection_follows_precedence deployed hreached _ hasset
  have hselected := (hchooses "growth" _).2 (.best (s := strategy) rfl rfl rfl best_winner
    ⟨_, rfl, rfl⟩ rfl rfl)
  obtain ⟨-, s, hs, hresolves⟩ := hresolves _ _ _ hselected rfl
  -- Nothing is registered in a configured registry, so nothing can collide.
  have hapart : deployed.TellsApart s := fun hash t ht => nomatch ht
  exact ⟨hreached, hasset, hselected, (hresolves hapart).2⟩

end Rated

end VaultKeeper
