import VaultKeeper.Proofs.AmountAgreement
import VaultKeeper.Proofs.DepositCeiling
import VaultKeeper.Proofs.Totality

/-! # Backed positions

What a deposit leaves behind is backed leg by leg. Whatever was paid into a pool stands against the
receipts that were minted for it, whatever was borrowed stands against its debt, and each leg paid
no more than what reached it. This holds for every route on which no token occurs twice, and it is
all that is needed to bound what the position can be redeemed for and what it is valued at. -/

namespace VaultKeeper

/-! ## Footprints -/

namespace Ledger

variable {owner : Address} {tokens tokens' assets assets' : List Address} {l l' l'' : Ledger}

/-- A ledger is itself apart from anyone. -/
theorem SameApartFrom.refl (account : Address) (l : Ledger) : SameApartFrom account l l :=
  ⟨rfl, rfl, fun _ _ => rfl⟩

/-- What one account does in two steps is still its own matter. -/
theorem SameApartFrom.trans {account : Address} (h : SameApartFrom account l l')
    (h' : SameApartFrom account l' l'') : SameApartFrom account l l'' :=
  ⟨h'.supply.trans h.supply, h'.quote.trans h.quote,
    fun token hother => (h'.balance token hother).trans (h.balance token hother)⟩

/-- **Two ledgers that differ in nothing but what one account holds of some tokens and owes in some
assets.** -/
structure ChangesOnly (owner : Address) (tokens assets : List Address) (l l' : Ledger) : Prop
    extends SameApartFrom owner l l' where
  /-- Rewards are the same. -/
  rewards : l'.rewards = l.rewards
  /-- The account holds the same of other tokens. -/
  held : ∀ {token}, token ∉ tokens → l'.balance token owner = l.balance token owner
  /-- It owes the same in other assets. -/
  owed : ∀ {asset} pool, asset ∉ assets → l'.debt pool asset owner = l.debt pool asset owner

namespace ChangesOnly

/-- Nothing is changed. -/
theorem refl (owner : Address) (tokens assets : List Address) (l : Ledger) :
    ChangesOnly owner tokens assets l l :=
  ⟨.refl owner l, rfl, fun _ => rfl, fun _ _ => rfl⟩

/-- Two changes, one after the other. -/
theorem trans (h : ChangesOnly owner tokens assets l l')
    (h' : ChangesOnly owner tokens assets l' l'') : ChangesOnly owner tokens assets l l'' :=
  ⟨h.toSameApartFrom.trans h'.toSameApartFrom, h'.rewards.trans h.rewards,
    fun ht => (h'.held ht).trans (h.held ht),
    fun pool ht => (h'.owed pool ht).trans (h.owed pool ht)⟩

/-- More may change. -/
theorem mono (h : ChangesOnly owner tokens assets l l') (htokens : tokens ⊆ tokens')
    (hassets : assets ⊆ assets') : ChangesOnly owner tokens' assets' l l' :=
  ⟨h.toSameApartFrom, h.rewards, fun ht => h.held fun hmem => ht (htokens hmem),
    fun pool ht => h.owed pool fun hmem => ht (hassets hmem)⟩

end ChangesOnly

end Ledger

open Ledger (SameApartFrom ChangesOnly)

namespace Overlay

variable {owner token asset : Address} {tokens assets : List Address}

/-- Replacing a balance of the owner. -/
theorem changesOnly_setBalance (o : Overlay) (amount : Amount) (ht : token ∈ tokens) :
    ChangesOnly owner tokens assets o.ledger (o.setBalance token owner amount).ledger where
  supply := rfl
  quote := rfl
  rewards := rfl
  balance := by
    intro other token' hother
    rw [balance_setBalance, if_neg fun h => hother h.2]
  held := by
    intro token' htoken
    have hne : token' ≠ token := fun h => htoken (h ▸ ht)
    rw [balance_setBalance, if_neg fun h => hne h.1]
  owed _ _ := rfl

/-- Replacing a debt of the owner. -/
theorem changesOnly_setDebt (o : Overlay) (pool : Address) (amount : Amount) (ha : asset ∈ assets) :
    ChangesOnly owner tokens assets o.ledger (o.setDebt pool asset owner amount).ledger where
  supply := rfl
  quote := rfl
  rewards := rfl
  balance _ _ := rfl
  held _ := rfl
  owed := by
    intro asset' pool' hasset
    have hne : asset' ≠ asset := fun h => hasset (h ▸ ha)
    rw [debt_setDebt, if_neg fun h => hne h.2.1]

/-- A debit of the owner. -/
theorem changesOnly_debit (o : Overlay) (amount : Amount) (ht : token ∈ tokens) :
    ChangesOnly owner tokens assets o.ledger (o.debit token owner amount).ledger :=
  o.changesOnly_setBalance _ ht

/-- A credit of the owner. -/
theorem changesOnly_credit (o : Overlay) (amount : Amount) (ht : token ∈ tokens) :
    ChangesOnly owner tokens assets o.ledger (o.credit token owner amount).ledger :=
  o.changesOnly_setBalance _ ht

/-- A loan of the owner. -/
theorem changesOnly_addDebt (o : Overlay) (pool : Address) (amount : Amount)
    (ha : asset ∈ assets) :
    ChangesOnly owner tokens assets o.ledger (o.addDebt pool asset owner amount).ledger :=
  o.changesOnly_setDebt pool _ ha

end Overlay

/-! ## Receipts of a deposit -/

namespace Protocol

variable {p : Protocol} {owner asset pool receipt : Address} {l l' : Ledger}

/-- What is minted does not depend on the balances of an account that is neither the pool nor its
receipt token. -/
theorem minted_congr (h : SameApartFrom owner l l') (hpool : owner ≠ pool)
    (hreceipt : p.receipt asset pool = .ok receipt) (hne : owner ≠ receipt) (amount : Amount) :
    p.minted asset pool amount l' = p.minted asset pool amount l := by
  have hvalue := poolValue_congr h hpool hreceipt hne
  cases p with
  | vault p =>
    have hvault : p.poolValue asset pool l' = p.poolValue asset pool l := hvalue
    simp only [minted, VaultProtocol.minted, hvault, h.supply]
  | lending p => rfl
  | curve p =>
    have hcurve : p.poolValue asset pool l' = p.poolValue asset pool l := hvalue
    simp only [minted, CurveProtocol.minted, hcurve, h.supply]

/-- No receipts are worth nothing. -/
theorem redeemed_zero {value : Amount} (h : p.redeemed asset pool 0 l = .ok value) : value = 0 := by
  cases p with
  | vault p =>
    obtain ⟨_, -, h⟩ := bind_eq_ok.1 h
    cases h
    exact Amount.mulDiv_zero_left _ _
  | lending p =>
    obtain ⟨_, -, h⟩ := bind_eq_ok.1 h
    cases h
    rfl
  | curve p =>
    obtain ⟨_, -, h⟩ := bind_eq_ok.1 h
    obtain ⟨_, -, h⟩ := bind_eq_ok.1 h
    cases h
    exact Amount.mulDiv_zero_left _ _

/-- **Receipts are redeemed for at most what was paid for them.** -/
theorem toNat_redeemed_le {receipts minted paid value : Amount}
    (hreceipt : p.receipt asset pool = .ok receipt)
    (hminted : p.minted asset pool paid l = .ok minted)
    (hvalue : p.redeemed asset pool receipts l = .ok value)
    (hle : receipts.toNat ≤ minted.toNat) : value.toNat ≤ paid.toNat := by
  obtain ⟨worth, hworth⟩ := succeeds_poolValue ⟨receipt, hreceipt⟩ l
  obtain ⟨nothing, hnothing⟩ := succeeds_redeemed ⟨receipt, hreceipt⟩ 0 l
  -- An owner who held nothing before has at most the deposit afterwards.
  have hgrowth := toNat_redeemed_grown_le hworth hminted hnothing hvalue
    (by rw [Amount.toNat_zero]; omega) (by rw [Amount.toNat_zero]; omega)
  rwa [redeemed_zero hnothing, Amount.toNat_zero, Nat.zero_add] at hgrowth

end Protocol

/-! ## Routes on which no token occurs twice -/

namespace Leg

/-- The tokens that entering a leg yields: the receipt token, and what is borrowed. -/
def tokens (l : Leg) : List Address :=
  (l.base.receipt l.input l.pool).toOption.toList ++ if l.step.isBorrow then [l.output] else []

/-- The token that stands for the staked receipts of a leg. -/
def stakingToken? (l : Leg) : Option Address :=
  if l.stakes then (l.bound.adapter.stakeable >>= (·.gauge l.pool)).toOption else none

/-- What an owner holds of the output of a leg, staked or not. -/
def holding (l : Leg) (owner : Address) (c : Ledger) : Nat :=
  (c.balance l.output owner).toNat + l.stakingToken?.elim 0 fun g => (c.balance g owner).toNat

/-- The gauge stands for staked receipts. -/
theorem stakingToken?_eq {l : Leg} {stakeable : CurveProtocol} {gauge : Address}
    (hstakes : l.stakes = true) (hstakeable : l.bound.adapter.stakeable = .ok stakeable)
    (hgauge : stakeable.gauge l.pool = .ok gauge) : l.stakingToken? = some gauge := by
  rw [stakingToken?, if_pos hstakes, hstakeable, ok_bind, hgauge]
  rfl

/-- A leg whose pool and receipt token are not the owner. -/
structure Foreign (owner : Address) (l : Leg) : Prop where
  /-- The owner is not the pool. -/
  pool : owner ≠ l.pool
  /-- The owner is not the receipt token. -/
  receipt : ∀ {receipt}, l.base.receipt l.input l.pool = .ok receipt → owner ≠ receipt

end Leg

/-- The token that stands for the staked receipts of a route. -/
def topStake? (route : List Leg) : Option Address := route.getLast?.bind Leg.stakingToken?

/-- The tokens that entering a route yields, with the one that stands for staked receipts. -/
def routeTokens (route : List Leg) : List Address :=
  route.flatMap Leg.tokens ++ (topStake? route).toList

/-- What an owner holds of the output of a route, staked or not. -/
def topHolding (owner : Address) (c : Ledger) (route : List Leg) : Nat :=
  route.getLast?.elim 0 (·.holding owner c)

/-- What is held of the output is held at the last leg. -/
theorem topHolding_cons_cons (owner : Address) (c : Ledger) (l next : Leg) (rest : List Leg) :
    topHolding owner c (l :: next :: rest) = topHolding owner c (next :: rest) := by
  rw [topHolding, List.getLast?_cons_cons]
  rfl

/-- Legs that each take in what the leg before them yields, starting with a token. -/
def Chained : (token : Address) → List Leg → Prop
  | _, [] => True
  | token, l :: rest => l.input = token ∧ Chained l.output rest

/-- **A part of a route that starts with a token and on which no token occurs twice.** -/
structure Path (owner token : Address) (legs : List Leg) : Prop where
  /-- Each leg takes in what the leg before it yields. -/
  chained : Chained token legs
  /-- Pools accept what they take in, and legs without a loan yield the receipts. -/
  known : ∀ l ∈ legs, ∃ receipt, l.base.receipt l.input l.pool = .ok receipt ∧
    (l.step.isBorrow = false → receipt = l.output)
  /-- The owner is none of the pools and receipt tokens. -/
  foreign : ∀ l ∈ legs, l.Foreign owner
  /-- Who lends against a deposit is who took it. -/
  whole : ∀ l ∈ legs, l.step.isBorrow = true → l.bound.adapter = .whole l.base
  /-- No token occurs twice. -/
  distinct : (token :: routeTokens legs).Nodup

/-- The tokens of a single leg. -/
theorem routeTokens_singleton (l : Leg) :
    routeTokens [l] = l.tokens ++ l.stakingToken?.toList := by
  rw [routeTokens, List.flatMap_cons, List.flatMap_nil, List.append_nil]
  rfl

/-- The tokens of a leg, then those of the legs behind it. -/
theorem routeTokens_cons_cons (l next : Leg) (rest : List Leg) :
    routeTokens (l :: next :: rest) = l.tokens ++ routeTokens (next :: rest) := by
  rw [routeTokens, routeTokens, topStake?, topStake?, List.flatMap_cons, List.append_assoc,
    List.getLast?_cons_cons]

/-- The tokens behind a leg are among those from the leg on. -/
theorem sublist_routeTokens (l : Leg) (rest : List Leg) :
    (l.tokens ++ routeTokens rest).Sublist (routeTokens (l :: rest)) := by
  cases rest with
  | nil =>
    rw [routeTokens_singleton]
    exact (List.Sublist.refl _).append (List.nil_sublist _)
  | cons next rest => simp only [routeTokens_cons_cons, List.Sublist.refl]

namespace Path

variable {owner token : Address} {l : Leg} {rest : List Leg} {behind : List Address}

/-- A path starts with the input of its first leg. -/
theorem input_eq (h : Path owner token (l :: rest)) : l.input = token := h.chained.1

/-- The output of a leg is among the tokens that it yields, and so is its receipt token. -/
theorem mem_tokens (h : Path owner token (l :: rest)) {receipt : Address}
    (hreceipt : l.base.receipt l.input l.pool = .ok receipt) :
    receipt ∈ l.tokens ∧ l.output ∈ l.tokens := by
  have hmem : receipt ∈ l.tokens := by
    simp [Leg.tokens, hreceipt, Except.toOption]
  refine ⟨hmem, ?_⟩
  cases hborrow : l.step.isBorrow with
  | true => simp [Leg.tokens, hborrow]
  | false =>
    obtain ⟨found, hfound, hout⟩ := h.known l List.mem_cons_self
    rw [hreceipt, Except.ok.injEq] at hfound
    rw [← hout hborrow, ← hfound]
    exact hmem

/-- **The tokens of a path are told apart**: the input of its first leg, what that leg yields, and
what comes behind it. -/
theorem split (h : Path owner token (l :: rest))
    (hsub : (l.tokens ++ behind).Sublist (routeTokens (l :: rest))) :
    l.input ∉ l.tokens ∧ l.input ∉ behind ∧ l.tokens.Nodup ∧ ∀ x ∈ l.tokens, x ∉ behind := by
  have hnodup : (l.input :: (l.tokens ++ behind)).Nodup := by
    rw [h.input_eq]
    exact h.distinct.sublist (hsub.cons_cons token)
  obtain ⟨hinput, hrest⟩ := List.nodup_cons.1 hnodup
  rw [List.mem_append, not_or] at hinput
  obtain ⟨htokens, -, hdisjoint⟩ := List.nodup_append.1 hrest
  exact ⟨hinput.1, hinput.2, htokens, fun x hx hmem => hdisjoint x hx x hmem rfl⟩

/-- The input of a leg is neither its receipt token nor its output. -/
theorem input_ne (h : Path owner token (l :: rest)) {receipt : Address}
    (hreceipt : l.base.receipt l.input l.pool = .ok receipt) :
    l.input ≠ receipt ∧ l.input ≠ l.output := by
  obtain ⟨hmem, hout⟩ := h.mem_tokens hreceipt
  have hinput := (h.split (sublist_routeTokens l rest)).1
  exact ⟨fun heq => hinput (heq ▸ hmem), fun heq => hinput (heq ▸ hout)⟩

/-- The input of a leg is not among what is moved behind it. -/
theorem input_notMem (h : Path owner token (l :: rest))
    (hsub : (l.tokens ++ behind).Sublist (routeTokens (l :: rest))) :
    l.input ∉ l.output :: behind := by
  obtain ⟨receipt, hreceipt, -⟩ := h.known l List.mem_cons_self
  rw [List.mem_cons, not_or]
  exact ⟨(h.input_ne hreceipt).2, (h.split hsub).2.1⟩

/-- What is borrowed is not the receipt token of the collateral. -/
theorem receipt_ne_output (h : Path owner token (l :: rest)) (hborrow : l.step.isBorrow = true)
    {receipt : Address} (hreceipt : l.base.receipt l.input l.pool = .ok receipt) :
    receipt ≠ l.output := by
  have hnodup := (h.split (sublist_routeTokens l rest)).2.2.1
  simp only [Leg.tokens, hreceipt, hborrow, if_true] at hnodup
  simpa [Except.toOption] using hnodup

/-- What is left of a path behind its first leg. -/
theorem tail (h : Path owner token (l :: rest)) : Path owner l.output rest := by
  obtain ⟨receipt, hreceipt, -⟩ := h.known l List.mem_cons_self
  have hout := (h.mem_tokens hreceipt).2
  have hsub := sublist_routeTokens l rest
  refine ⟨h.chained.2, fun x hx => h.known x (List.mem_cons_of_mem _ hx),
    fun x hx => h.foreign x (List.mem_cons_of_mem _ hx),
    fun x hx => h.whole x (List.mem_cons_of_mem _ hx),
    List.nodup_cons.2 ⟨(h.split hsub).2.2.2 _ hout, ?_⟩⟩
  exact (List.nodup_cons.1 h.distinct).2.sublist ((List.sublist_append_right _ _).trans hsub)

end Path

namespace Registry

variable {r : Registry} {d : Direction}

/-- The legs of a route are chained. -/
theorem chained_of_legs {index : Nat} {input : Address} {steps : List Step} {route : List Leg}
    (h : r.legs d index input steps = .ok route) : Chained input route := by
  induction steps generalizing index input route with
  | nil =>
    cases h
    trivial
  | cons s rest ih =>
    obtain ⟨l, legs, hl, hlegs, rfl⟩ := legs_cons_eq_ok_iff.1 h
    obtain ⟨-, hinput, hstep, -⟩ := resolved_of_leg hl
    refine ⟨hinput, ?_⟩
    rw [Leg.output, hstep]
    exact ih hlegs

/-- **A resolved route without a repeated token is a path.** -/
theorem path_of_route {owner : Address} {s : Strategy} {route : List Leg}
    (h : r.route d s = .ok route) (hforeign : ∀ l ∈ route, l.Foreign owner)
    (hwhole : ∀ l ∈ route, l.step.isBorrow = true → l.bound.adapter = .whole l.base)
    (hdistinct : (s.underlying :: routeTokens route).Nodup) : Path owner s.underlying route where
  chained := chained_of_legs h
  known := by
    intro l hl
    have hresolved := resolved_of_route h l hl
    obtain ⟨assets, hassets, hin⟩ := hresolved.accepts
    obtain ⟨receipt, hreceipt⟩ := Protocol.succeeds_receipt hassets hin
    refine ⟨receipt, hreceipt, fun hplain => ?_⟩
    rw [hresolved.yields hplain, Except.ok.injEq] at hreceipt
    exact hreceipt.symm
  foreign := hforeign
  whole := hwhole
  distinct := hdistinct

end Registry

/-! ## Entering a leg -/

/-- **What stands behind a leg.** Of the `limit` that reached the leg, what is not left of its input
has been paid in. A plain leg passes on no more than was minted for it, and a leg with a loan keeps
it as receipts and passes on no more than is owed. -/
inductive Leg.Backed (owner : Address) (prices c : Ledger) (l : Leg) (limit next : Nat) : Prop
  /-- Receipts stand against the deposit. -/
  | plain {paid minted : Amount} (plain : l.step.isBorrow = false)
      (minted_eq : l.base.minted l.input l.pool paid prices = .ok minted)
      (input_le : (c.balance l.input owner).toNat + paid.toNat ≤ limit)
      (next_le : next ≤ minted.toNat)
  /-- The debt stands against the loan. -/
  | loan {p : LendingProtocol} {receipt : Address} (borrows : l.step.isBorrow = true)
      (base_eq : l.base = .lending p) (receipt_eq : p.receipt l.input l.pool = .ok receipt)
      (input_le : (c.balance l.input owner).toNat + (c.balance receipt owner).toNat ≤ limit)
      (next_le : next ≤ (c.debt l.pool l.output owner).toNat)

/-- A leg stays backed while other tokens are moved. -/
theorem Leg.Backed.congr {owner : Address} {prices c c' : Ledger} {l : Leg} {limit next : Nat}
    {tokens assets : List Address} (h : l.Backed owner prices c limit next)
    (hchange : ChangesOnly owner tokens assets c c') (hinput : l.input ∉ tokens)
    (hloan : l.step.isBorrow = true → l.output ∉ assets ∧
      ∀ {receipt}, l.base.receipt l.input l.pool = .ok receipt → receipt ∉ tokens) :
    l.Backed owner prices c' limit next := by
  cases h with
  | plain hplain hminted hle hnext =>
    refine .plain hplain hminted ?_ hnext
    rwa [hchange.held hinput]
  | loan hborrow hbase hreceipt hle hnext =>
    obtain ⟨hout, hother⟩ := hloan hborrow
    refine .loan hborrow hbase hreceipt ?_ ?_
    · rw [hbase] at hother
      rwa [hchange.held hinput, hchange.held (hother hreceipt)]
    · rwa [hchange.owed l.pool hout]

namespace Path

section

variable {owner token : Address} {l : Leg} {rest : List Leg} {prices c mid c' : Ledger}
  {limit next : Nat} {behind assets : List Address}

/-- What is done at a leg does not move what comes behind it. -/
theorem held_behind (h : Path owner token (l :: rest))
    (hsub : (l.tokens ++ behind).Sublist (routeTokens (l :: rest)))
    (hchange : ChangesOnly owner (token :: l.tokens) assets c c') {x : Address} (hx : x ∈ behind) :
    c'.balance x owner = c.balance x owner := by
  obtain ⟨-, hinput, -, hdisjoint⟩ := h.split hsub
  refine hchange.held fun hmem => ?_
  rcases List.mem_cons.1 hmem with rfl | hmem
  · exact hinput (h.input_eq ▸ hx)
  · exact hdisjoint x hmem hx

/-- What is done behind a leg leaves it backed. -/
theorem backed_behind (h : Path owner token (l :: rest))
    (hsub : (l.tokens ++ behind).Sublist (routeTokens (l :: rest)))
    (hchange : ChangesOnly owner (l.output :: behind) behind c c')
    (hback : l.Backed owner prices c limit next) : l.Backed owner prices c' limit next := by
  obtain ⟨receipt, hreceipt, -⟩ := h.known l List.mem_cons_self
  obtain ⟨hmem, hout⟩ := h.mem_tokens hreceipt
  obtain ⟨-, -, -, hdisjoint⟩ := h.split hsub
  refine hback.congr hchange (h.input_notMem hsub) fun hborrow => ⟨hdisjoint _ hout, ?_⟩
  intro found hfound
  rw [hreceipt, Except.ok.injEq] at hfound
  rw [← hfound, List.mem_cons, not_or]
  exact ⟨h.receipt_ne_output hborrow hreceipt, hdisjoint _ hmem⟩

/-- What is moved at a leg and behind it are tokens of the path. -/
theorem subset_tokens (h : Path owner token (l :: rest))
    (hsub : (l.tokens ++ behind).Sublist (routeTokens (l :: rest))) :
    token :: l.tokens ⊆ token :: routeTokens (l :: rest) ∧
      l.output :: behind ⊆ token :: routeTokens (l :: rest) := by
  obtain ⟨receipt, hreceipt, -⟩ := h.known l List.mem_cons_self
  have hfirst := ((List.sublist_append_left _ _).trans hsub).subset
  have hlater := ((List.sublist_append_right _ _).trans hsub).subset
  have hout := hfirst (h.mem_tokens hreceipt).2
  exact ⟨List.cons_subset_cons token hfirst,
    List.subset_cons_of_subset token (List.cons_subset.2 ⟨hout, hlater⟩)⟩

/-- What is done at a leg and then behind it stays among the tokens of the path. -/
theorem changesOnly_behind (h : Path owner token (l :: rest))
    (hsub : (l.tokens ++ behind).Sublist (routeTokens (l :: rest)))
    (hchange : ChangesOnly owner (token :: l.tokens) l.tokens c mid)
    (hchange' : ChangesOnly owner (l.output :: behind) behind mid c') :
    ChangesOnly owner (token :: routeTokens (l :: rest)) (routeTokens (l :: rest)) c c' := by
  obtain ⟨hfirst, hlater⟩ := h.subset_tokens hsub
  exact (hchange.mono hfirst ((List.sublist_append_left _ _).trans hsub).subset).trans
    (hchange'.mono hlater ((List.sublist_append_right _ _).trans hsub).subset)

/-- **Receipts of a leg are redeemed for at most what was paid for them**, whatever the owner has
done since. -/
theorem redeemed_le (h : Path owner token (l :: rest)) (hprices : SameApartFrom owner prices c)
    {receipts minted paid value : Amount}
    (hminted : l.base.minted l.input l.pool paid prices = .ok minted)
    (hvalue : l.base.redeemed l.input l.pool receipts c = .ok value)
    (hle : receipts.toNat ≤ minted.toNat) : value.toNat ≤ paid.toNat := by
  obtain ⟨receipt, hreceipt, -⟩ := h.known l List.mem_cons_self
  have hforeign := h.foreign l List.mem_cons_self
  rw [Protocol.redeemed_congr hprices hforeign.pool hreceipt (hforeign.receipt hreceipt)] at hvalue
  exact Protocol.toNat_redeemed_le hreceipt hminted hvalue hle

end

variable {owner token : Address} {l : Leg} {rest : List Leg} {prices : Ledger}
  {o o' : Overlay} {groups : List Group}

/-- What a deposit leaves of the input has not been paid, and what it yields was minted. -/
theorem balance_of_deposit (h : Path owner token (l :: rest))
    (hprices : SameApartFrom owner prices o.ledger) {receipt : Address}
    (hreceipt : l.base.receipt l.input l.pool = .ok receipt)
    (hfresh : o.ledger.balance receipt owner = 0)
    (hrun : l.deposit owner (o.ledger.balance l.input owner) o = .ok (o', groups)) :
    ∃ paid minted, l.base.minted l.input l.pool paid prices = .ok minted ∧
      ChangesOnly owner [l.input, receipt] [] o.ledger o'.ledger ∧
      (o'.ledger.balance l.input owner).toNat + paid.toNat =
        (o.ledger.balance l.input owner).toNat ∧
      o'.ledger.balance receipt owner = minted := by
  obtain ⟨paid, minted, receipt', -, hpaid, hminted, hreceipt', -, rfl, -⟩ := Leg.deposit_eq_ok hrun
  rw [hreceipt, Except.ok.injEq] at hreceipt'
  subst hreceipt'
  have hne := (h.input_ne hreceipt).1
  have hle := Amount.le_def.1 (Protocol.depositAmount_le hpaid)
  have hforeign := h.foreign l List.mem_cons_self
  rw [Protocol.minted_congr hprices hforeign.pool hreceipt (hforeign.receipt hreceipt)] at hminted
  refine ⟨paid, minted, hminted, (o.changesOnly_debit paid List.mem_cons_self).trans
    (Overlay.changesOnly_credit _ minted (List.mem_cons_of_mem _ List.mem_cons_self)), ?_, ?_⟩
  · rw [Overlay.balance_credit_of_ne _ _ (.inl hne), Overlay.balance_debit_self,
      Amount.toNat_subSat]
    omega
  · ext
    have hbound := minted.toNat_le
    rw [Overlay.balance_credit_self, Overlay.balance_debit_of_ne _ _ (.inl hne.symm), hfresh,
      Amount.toNat_addSat, Amount.toNat_zero]
    omega

/-- **Entering a leg backs it.** -/
theorem backed_of_enter (h : Path owner token (l :: rest))
    (hprices : SameApartFrom owner prices o.ledger)
    (hfresh : ∀ x ∈ l.tokens, o.ledger.balance x owner = 0)
    (hrun : l.enter owner none o = .ok (o', groups)) :
    ChangesOnly owner (token :: l.tokens) l.tokens o.ledger o'.ledger ∧
      l.Backed owner prices o'.ledger (o.ledger.balance token owner).toNat
        (o'.ledger.balance l.output owner).toNat := by
  obtain ⟨receipt, hreceipt, hyield⟩ := h.known l List.mem_cons_self
  obtain ⟨hmem, hout⟩ := h.mem_tokens hreceipt
  have hsub : [l.input, receipt] ⊆ token :: l.tokens :=
    h.input_eq ▸ List.cons_subset_cons _ (List.cons_subset.2 ⟨hmem, List.nil_subset _⟩)
  cases hborrow : l.step.isBorrow with
  | false =>
    simp only [Leg.enter, hborrow, Bool.false_eq_true, if_false, Option.getD_none] at hrun
    obtain ⟨paid, minted, hminted, hchange, hinput, hyielded⟩ :=
      h.balance_of_deposit hprices hreceipt (hfresh receipt hmem) hrun
    refine ⟨hchange.mono hsub (List.nil_subset _), ?_⟩
    rw [← h.input_eq, ← hinput, ← hyield hborrow, hyielded]
    exact .plain hborrow hminted (Nat.le_refl _) (Nat.le_refl _)
  | true =>
    simp only [Leg.enter, hborrow, if_true, Option.getD_none] at hrun
    obtain ⟨mid, _, _, hdeposit, hloan, -⟩ := Leg.andThen_eq_ok_iff.1 hrun
    obtain ⟨p, borrowed, -, hlender, -, -, rfl, -⟩ := Leg.borrow_eq_ok hloan
    obtain ⟨paid, minted, hminted, hchange, hinput, hyielded⟩ :=
      h.balance_of_deposit hprices hreceipt (hfresh receipt hmem) hdeposit
    have hapart := h.receipt_ne_output hborrow hreceipt
    have hneout := (h.input_ne hreceipt).2
    have hnothing : mid.ledger.balance l.output owner = 0 := by
      rw [hchange.held (by simp [hneout.symm, hapart.symm]), hfresh l.output hout]
    refine ⟨(hchange.mono hsub (List.nil_subset _)).trans
      ((Overlay.changesOnly_credit _ borrowed (List.mem_cons_of_mem _ hout)).trans
      (Overlay.changesOnly_addDebt _ l.pool borrowed hout)), ?_⟩
    -- A lending market mints receipts one for one.
    have hbase : l.base = .lending p :=
      Adapter.base_of_lender (h.whole l List.mem_cons_self hborrow) hlender
    rw [hbase] at hminted hreceipt
    obtain ⟨_, -, hpaid⟩ := bind_eq_ok.1 hminted
    cases hpaid
    rw [← h.input_eq]
    refine .loan hborrow hbase hreceipt (Nat.le_of_eq ?_) ?_
    · rw [Overlay.balance_addDebt, Overlay.balance_credit_of_ne _ _ (.inl hneout),
        Overlay.balance_credit_of_ne _ _ (.inl hapart), hyielded, hinput]
    · rw [Overlay.balance_addDebt, Overlay.debt_addDebt_self, Overlay.balance_credit_self, hnothing,
        Amount.toNat_addSat, Amount.toNat_addSat, Amount.toNat_zero]
      omega

/-- **A stake moves receipts into the gauge**, so that what is held stays the same. -/
theorem holding_of_stake (h : Path owner token [l]) (hstakes : l.stakes = true)
    (hfresh : ∀ x ∈ l.stakingToken?, o.ledger.balance x owner = 0)
    (hrun : l.stake owner o = .ok (o', groups)) :
    ∃ gauge, l.stakingToken? = some gauge ∧
      ChangesOnly owner [l.output, gauge] [gauge] o.ledger o'.ledger ∧
      l.holding owner o'.ledger ≤ (o.ledger.balance l.output owner).toNat := by
  obtain ⟨receipt, hreceipt, hyield⟩ := h.known l List.mem_cons_self
  obtain ⟨stakeable, gauge, staked, -, hstakeable, hgauge, hstaked, -, rfl, -⟩ :=
    Leg.stake_eq_ok hrun
  have hplain := Leg.isBorrow_of_stakes hstakes
  have htoken := Leg.stakingToken?_eq hstakes hstakeable hgauge
  have hbalance := Protocol.receiptBalance_eq_ok hreceipt hstaked
  rw [hyield hplain] at hbalance
  have hne : gauge ≠ l.output := by
    rintro rfl
    have hnodup := (List.nodup_cons.1 h.distinct).2
    rw [routeTokens_singleton, htoken, List.nodup_append] at hnodup
    exact hnodup.2.2 _ (h.mem_tokens hreceipt).2 _ List.mem_cons_self rfl
  refine ⟨gauge, htoken, (o.changesOnly_debit staked List.mem_cons_self).trans
    (Overlay.changesOnly_credit _ staked (List.mem_cons_of_mem _ List.mem_cons_self)), ?_⟩
  rw [Leg.holding, htoken, Option.elim_some, Overlay.balance_credit_of_ne _ _ (.inl hne.symm),
    Overlay.balance_debit_self, Overlay.balance_credit_self,
    Overlay.balance_debit_of_ne _ _ (.inl hne), hfresh gauge htoken, Amount.toNat_subSat,
    Amount.toNat_addSat, Amount.toNat_zero, hbalance]
  omega

end Path

/-! ## Entering a route -/

/-- Entering a route with a single leg, which is staked when it says so. -/
theorem enterRoute_singleton (owner : Address) (requested : Option Amount) (l : Leg) :
    enterRoute owner requested [l] = if l.stakes then
      Leg.andThen (l.enter owner requested) (l.stake owner) else l.enter owner requested := by
  have hlegs : enterLegs owner requested [l] = l.enter owner requested :=
    Leg.andThen_nothing_right (l.enter owner requested)
  funext o
  rw [enterRoute, List.getLast?_singleton, Option.filter_some, hlegs]
  cases l.stakes <;> rfl

/-- Entering a route is entering its first leg and then the others. -/
theorem enterRoute_cons_cons (owner : Address) (requested : Option Amount) (l next : Leg)
    (rest : List Leg) : enterRoute owner requested (l :: next :: rest) =
      Leg.andThen (l.enter owner requested) (enterRoute owner none (next :: rest)) := by
  have hlegs : enterLegs owner requested (l :: next :: rest) =
      Leg.andThen (l.enter owner requested) (enterLegs owner none (next :: rest)) := rfl
  funext o
  unfold enterRoute
  rw [List.getLast?_cons_cons, hlegs]
  cases (next :: rest).getLast?.filter (·.stakes) with
  | some top => simp only [Leg.andThen_assoc]
  | none => rfl

/-- **Legs that are backed one by one**: what a leg passes on is the limit of the next one, and the
last one passes on what is held in the end. -/
def RouteBacked (owner : Address) (prices c : Ledger) (held : Nat) :
    (limit : Nat) → List Leg → Prop
  | limit, [] => held ≤ limit
  | limit, l :: rest => ∃ next, l.Backed owner prices c limit next ∧
    RouteBacked owner prices c held next rest

/-- **Entering a path backs it**, and nothing changes beyond its tokens. -/
theorem Path.routeBacked_of_enterRoute {owner token : Address} {legs : List Leg} {prices : Ledger}
    {o o' : Overlay} {groups : List Group} (h : Path owner token legs)
    (hprices : SameApartFrom owner prices o.ledger)
    (hfresh : ∀ x ∈ routeTokens legs, o.ledger.balance x owner = 0)
    (hrun : enterRoute owner none legs o = .ok (o', groups)) :
    ChangesOnly owner (token :: routeTokens legs) (routeTokens legs) o.ledger o'.ledger ∧
      RouteBacked owner prices o'.ledger (topHolding owner o'.ledger legs)
        (o.ledger.balance token owner).toNat legs := by
  -- The induction is on the legs in the order in which they are entered. A leg that was backed
  -- stays so, because what follows only moves tokens of its own.
  induction legs generalizing token o groups with
  | nil =>
    cases hrun
    exact ⟨.refl .., Nat.zero_le _⟩
  | cons l rest ih =>
    have hyield : ∀ x ∈ l.tokens, o.ledger.balance x owner = 0 := fun x hx =>
      hfresh x ((sublist_routeTokens l rest).subset (List.mem_append_left _ hx))
    cases rest with
    | nil =>
      rw [enterRoute_singleton] at hrun
      have hsub : (l.tokens ++ l.stakingToken?.toList).Sublist (routeTokens [l]) :=
        routeTokens_singleton l ▸ List.Sublist.refl _
      cases hstakes : l.stakes with
      | false =>
        rw [hstakes, if_neg Bool.false_ne_true] at hrun
        obtain ⟨hchange, hback⟩ := h.backed_of_enter hprices hyield hrun
        refine ⟨h.changesOnly_behind hsub hchange (.refl ..), _, hback, ?_⟩
        show l.holding owner o'.ledger ≤ _
        rw [Leg.holding, Leg.stakingToken?, hstakes, if_neg Bool.false_ne_true]
        exact Nat.le_refl _
      | true =>
        rw [if_pos hstakes] at hrun
        obtain ⟨mid, _, _, hfirst, hstake, -⟩ := Leg.andThen_eq_ok_iff.1 hrun
        obtain ⟨hchange, hback⟩ := h.backed_of_enter hprices hyield hfirst
        have hunstaked : ∀ x ∈ l.stakingToken?, mid.ledger.balance x owner = 0 := by
          intro x hx
          have hmem := Option.mem_toList.2 hx
          rw [h.held_behind hsub hchange hmem]
          exact hfresh x (hsub.subset (List.mem_append_right _ hmem))
        obtain ⟨gauge, htoken, hchange', hle⟩ := h.holding_of_stake hstakes hunstaked hstake
        rw [htoken] at hsub
        exact ⟨h.changesOnly_behind hsub hchange hchange', _,
          h.backed_behind hsub hchange' hback, hle⟩
    | cons next rest =>
      have hsub := sublist_routeTokens l (next :: rest)
      rw [enterRoute_cons_cons] at hrun
      obtain ⟨mid, _, _, hfirst, hrest, -⟩ := Leg.andThen_eq_ok_iff.1 hrun
      obtain ⟨hchange, hback⟩ := h.backed_of_enter hprices hyield hfirst
      have hlater : ∀ x ∈ routeTokens (next :: rest), mid.ledger.balance x owner = 0 := by
        intro x hx
        rw [h.held_behind hsub hchange hx]
        exact hfresh x (hsub.subset (List.mem_append_right _ hx))
      obtain ⟨hchange', hroute⟩ := ih h.tail (hprices.trans hchange.toSameApartFrom) hlater hrest
      refine ⟨h.changesOnly_behind hsub hchange hchange', _,
        h.backed_behind hsub hchange' hback, ?_⟩
      rw [topHolding_cons_cons]
      exact hroute

/-- **A deposit of everything backs the route of the strategy.** -/
theorem Registry.routeBacked_of_depositAll {r : Registry} {hash : Digest} {s : Strategy}
    {route : List Leg} {owner : Address} {l : Ledger} {o : Overlay} {groups : List Group}
    (hs : r.strategy hash = .ok s) (hroute : r.route .enter s = .ok route)
    (hpath : Path owner s.underlying route)
    (hfresh : ∀ x ∈ routeTokens route, l.balance x owner = 0)
    (h : r.simulate owner (.depositAll hash) (.ofLedger l) = .ok (o, groups)) :
    ChangesOnly owner (s.underlying :: routeTokens route) (routeTokens route) l o.ledger ∧
      RouteBacked owner l o.ledger (topHolding owner o.ledger route)
        (l.balance s.underlying owner).toNat route := by
  obtain ⟨_, hentry, hrun⟩ := (simulate_depositAll_eq_ok hs).1 h
  rw [hroute] at hentry
  cases hentry
  have hstart : SameApartFrom owner l (Overlay.ofLedger l).ledger := .refl owner l
  exact hpath.routeBacked_of_enterRoute hstart hfresh hrun

end VaultKeeper
