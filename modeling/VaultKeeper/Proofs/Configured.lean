import Mathlib.Data.List.Nodup
import Mathlib.Data.List.Sort
import VaultKeeper.Proofs.Consistency
import VaultKeeper.Proofs.Wiring

/-! # What a configuration writes down

A configuration lists role holders, protocols with their caps, pools and profiles. Read as tables,
in which the later of two entries with one key wins, these lists are a registry. This module says
what that registry holds; that a replay of the configuration arrives there is shown elsewhere. -/

namespace VaultKeeper

/-! ## Later entries win -/

/-- The value of the last entry with a key. -/
def lastFor? {κ ν : Type} [DecidableEq κ] (k : κ) (xs : List (κ × ν)) : Option ν :=
  (xs.reverse.find? (·.1 = k)).map (·.2)

section LastEntry

variable {κ ν α : Type} [DecidableEq κ] {k : κ} {v : ν} {xs : List (κ × ν)}

/-- An entry is the last one for its key unless there is one behind it. -/
theorem lastFor?_cons (k : κ) (e : κ × ν) (rest : List (κ × ν)) :
    lastFor? k (e :: rest) = (lastFor? k rest).or (if e.1 = k then some e.2 else none) := by
  rw [lastFor?, List.reverse_cons, List.find?_append, Option.map_or, lastFor?]
  congr 1
  by_cases hk : e.1 = k
  · simp [hk]
  · simp [hk]

/-- What is found for a key is listed under it. -/
theorem mem_of_lastFor? (h : lastFor? k xs = some v) : (k, v) ∈ xs := by
  obtain ⟨e, he, rfl⟩ := Option.map_eq_some_iff.1 h
  have hkey : e.1 = k := by simpa using List.find?_some he
  have hmem := List.mem_of_find?_eq_some he
  rw [List.mem_reverse] at hmem
  rw [← hkey]
  exact hmem

/-- Something is found for the keys that are listed, and for no others. -/
theorem isSome_lastFor?_iff : (lastFor? k xs).isSome = true ↔ k ∈ xs.map (·.1) := by
  rw [lastFor?, Option.isSome_map, List.find?_isSome, List.mem_map]
  simp only [List.mem_reverse, decide_eq_true_eq]

/-- When no key is listed twice, what is listed is found. -/
theorem lastFor?_of_mem (hdistinct : (xs.map (·.1)).Nodup) (h : (k, v) ∈ xs) :
    lastFor? k xs = some v := by
  have hsome : (lastFor? k xs).isSome = true :=
    isSome_lastFor?_iff.2 (List.mem_map_of_mem (f := (·.1)) h)
  obtain ⟨w, hw⟩ := Option.isSome_iff_exists.1 hsome
  have hsame : ((k, w) : κ × ν) = (k, v) :=
    List.inj_on_of_nodup_map hdistinct (mem_of_lastFor? hw) h rfl
  cases hsame
  exact hw

/-- What is related item by item is related in the last entry for a key. -/
theorem rel_lastFor? {ν' : Type} {R : ν → ν' → Prop} {ys : List α} {key : α → κ} {f : α → ν}
    {g : α → ν'} (h : ∀ y ∈ ys, R (f y) (g y)) (k : κ) :
    Option.Rel R (lastFor? k (ys.map fun y => (key y, f y)))
      (lastFor? k (ys.map fun y => (key y, g y))) := by
  induction ys with
  | nil => exact .none
  | cons y rest ih =>
    have hrest := ih fun z hz => h z (List.mem_cons_of_mem y hz)
    rw [List.map_cons, List.map_cons, lastFor?_cons, lastFor?_cons]
    -- A later entry wins; otherwise the first one counts if it has the key.
    generalize lastFor? k (rest.map fun y => (key y, f y)) = a at hrest ⊢
    generalize lastFor? k (rest.map fun y => (key y, g y)) = b at hrest ⊢
    cases hrest with
    | some hrel => exact .some hrel
    | none =>
      by_cases hk : key y = k
      · rw [if_pos hk, if_pos hk]
        exact .some (h y List.mem_cons_self)
      · rw [if_neg hk, if_neg hk]
        exact .none

end LastEntry

namespace Table

variable {κ ν α : Type} [DecidableEq κ] [Ord κ] [Std.LawfulEqOrd κ] [Std.TransOrd κ]

/-- A table after a list of insertions. -/
def insertAll (t : Table κ ν) (xs : List (κ × ν)) : Table κ ν :=
  xs.foldl (fun t e => t.insert e.1 e.2) t

/-- After a list of insertions the last one for a key is found. -/
theorem get?_insertAll (t : Table κ ν) (xs : List (κ × ν)) (k : κ) :
    (t.insertAll xs).get? k = (lastFor? k xs).or (t.get? k) := by
  induction xs generalizing t with
  | nil => rfl
  | cons e rest ih =>
    rw [insertAll, List.foldl_cons]
    show ((t.insert e.1 e.2).insertAll rest).get? k = _
    rw [ih, lastFor?_cons, Option.or_assoc, get?_insert]
    by_cases hk : e.1 = k
    · rw [if_pos hk, if_pos hk.symm, Option.some_or]
    · rw [if_neg hk, if_neg (Ne.symm hk), Option.none_or]

/-- The table of a list holds the last entry for each key. -/
theorem get?_ofList (xs : List (κ × ν)) (k : κ) : (ofList xs).get? k = lastFor? k xs := by
  have h := get?_insertAll (∅ : Table κ ν) xs k
  rwa [get?_empty, Option.or_none] at h

omit [DecidableEq κ] [Std.TransOrd κ] in
/-- The keys are those under which something is found. -/
theorem mem_keys_iff {t : Table κ ν} {k : κ} : k ∈ t.keys ↔ t.contains k = true := by
  rw [keys, List.mem_map, contains_iff]
  constructor
  · rintro ⟨e, he, rfl⟩
    exact ⟨e.2, mem_toList_iff.1 he⟩
  · rintro ⟨v, hv⟩
    exact ⟨(k, v), mem_toList_iff.2 hv, rfl⟩

/-- What is inserted for one item is not found for another with a different key. -/
theorem get?_insert_of_notMem {key : α → κ} {x y : α} {rest : List α}
    (t : Table κ ν) (v : ν) (hx : key x ∉ rest.map key) (hy : y ∈ rest) :
    (t.insert (key x) v).get? (key y) = t.get? (key y) :=
  get?_insert_of_ne _ _ fun hkey => hx (hkey ▸ List.mem_map_of_mem hy)

/-- When no two items have one key, each is found under its own. -/
theorem get?_ofList_map {xs : List α} {key : α → κ} {val : α → ν} {x : α}
    (hdistinct : (xs.map key).Nodup) (hx : x ∈ xs) :
    (ofList (xs.map fun x => (key x, val x))).get? (key x) = some (val x) := by
  rw [get?_ofList]
  refine lastFor?_of_mem ?_ (List.mem_map_of_mem (f := fun x => (key x, val x)) hx)
  rwa [List.map_map]

end Table

/-! ## Rules -/

/-- Items that pass a check for repetitions have different keys. -/
theorem nodup_of_checkDistinct {α κ ε : Type} [DecidableEq κ] {key : α → κ} {duplicate : κ → ε}
    {check : α → Except ε Unit} {seen : List κ} {xs : List α}
    (h : checkDistinct key duplicate check seen xs = .ok ()) : (xs.map key).Nodup := by
  induction xs generalizing seen with
  | nil => exact List.nodup_nil
  | cons x rest ih =>
    simp only [checkDistinct, throw_eq_error, error_bind, ite_error_eq_ok', bind_eq_ok] at h
    obtain ⟨-, _, -, hrest⟩ := h
    -- Every later item is checked against the keys before it, which the first key is among.
    rw [List.map_cons, List.nodup_cons]
    refine ⟨fun hmem => ?_, ih hrest⟩
    obtain ⟨y, hy, hkey⟩ := List.mem_map.1 hmem
    exact ((checkDistinct_eq_ok hrest).1 y hy).2 (hkey ▸ List.mem_cons_self)

/-- A list passes a check when every item does. -/
theorem forM_eq_ok {α ε : Type} {f : α → Except ε Unit} {xs : List α} :
    xs.forM f = .ok () ↔ ∀ x ∈ xs, f x = .ok () := by
  induction xs with
  | nil => simp
  | cons x rest ih =>
    show (f x >>= fun _ => rest.forM f) = .ok () ↔ _
    rw [bind_eq_ok, List.forall_mem_cons, ← ih]
    exact ⟨fun ⟨_, hx, hrest⟩ => ⟨hx, hrest⟩, fun ⟨hx, hrest⟩ => ⟨(), hx, hrest⟩⟩

namespace Config

/-- **The rules that a replay of the configuration relies on.** -/
structure WellFormed (c : Config) : Prop where
  /-- No two protocols have one identifier. -/
  protocols : (c.protocols.map (·.id)).Nodup
  /-- No two pools have one address. -/
  pools : (c.pools.map (·.address)).Nodup
  /-- No two profiles have one name. -/
  profiles : (c.riskProfiles.map (·.name)).Nodup
  /-- Shares have basis points. -/
  shares : ∀ p ∈ c.protocols, (∃ n, p.depositCap.protocolPercent.toBps = .ok n) ∧
    ∀ share ∈ p.depositCap.pools, ∃ n, share.percent.toBps = .ok n
  /-- Fixed ceilings are numbers. -/
  amounts : ∀ p ∈ c.protocols, ∀ cap ∈ p.depositCap.amounts,
    ∃ amount, Amount.ofDecimal? cap.amount = some amount
  /-- Pools belong to protocols, whose needs they meet. -/
  shapes : ∀ q ∈ c.pools, ∃ p ∈ c.protocols, p.id = q.protocol ∧ q.coins ≠ [] ∧
    checkShape q p.kind = .ok ()
  /-- Ratings are not above the highest one. -/
  ratings : ∀ q ∈ c.pools, ∀ n ∈ q.rating, n ≤ maxPoolRating
  /-- Ranges of profiles are neither empty nor above the highest rating. -/
  ranges : ∀ p ∈ c.riskProfiles, p.minRating ≤ p.maxRating ∧ p.maxRating ≤ maxPoolRating

/-- A percentage that passes its check has basis points. -/
theorem toBps_of_checkPercent {percent : Decimal} {fault : ConfigFault}
    (h : checkPercent percent fault = .ok ()) : ∃ n, percent.toBps = .ok n := by
  unfold checkPercent at h
  cases hbps : percent.toBps with
  | ok n => exact ⟨n, rfl⟩
  | error e =>
    rw [hbps] at h
    cases e with
    | _ => cases h

/-- The caps of a protocol that passes its checks can be set. -/
theorem caps_of_checkProtocol {p : ProtocolConfig} (h : checkProtocol p = .ok ()) :
    ((∃ n, p.depositCap.protocolPercent.toBps = .ok n) ∧
      ∀ share ∈ p.depositCap.pools, ∃ n, share.percent.toBps = .ok n) ∧
    ∀ cap ∈ p.depositCap.amounts, ∃ amount, Amount.ofDecimal? cap.amount = some amount := by
  simp only [checkProtocol, throw_eq_error, error_bind, ite_error_eq_ok', bind_eq_ok] at h
  obtain ⟨-, -, -, _, hpercent, _, hpools, hamounts⟩ := h
  refine ⟨⟨toBps_of_checkPercent hpercent, fun share hshare => ?_⟩, fun cap hcap => ?_⟩
  · exact toBps_of_checkPercent (forM_eq_ok.1 hpools share hshare)
  · have hamount := forM_eq_ok.1 hamounts cap hcap
    rw [ite_error_eq_ok'] at hamount
    exact Option.ne_none_iff_exists'.1 (by simpa using hamount.1)

/-- A pool that passes its checks belongs to a protocol, whose needs it meets. -/
theorem shape_of_checkPool {protocols : List ProtocolConfig} {q : PoolConfig}
    (h : checkPool protocols q = .ok ()) :
    (∃ p ∈ protocols, p.id = q.protocol ∧ q.coins ≠ [] ∧ checkShape q p.kind = .ok ()) ∧
      ∀ n ∈ q.rating, n ≤ maxPoolRating := by
  unfold checkPool at h
  cases hfind : protocols.find? (·.id == q.protocol) with
  | none => simp [hfind] at h
  | some p =>
    have hid : p.id = q.protocol := by simpa using List.find?_some hfind
    simp only [hfind, throw_eq_error, error_bind] at h
    cases hrating : q.rating with
    | none =>
      simp only [hrating, ite_error_eq_ok', List.isEmpty_iff] at h
      refine ⟨⟨p, List.mem_of_find?_eq_some hfind, hid, h.1, h.2⟩, fun n hn => ?_⟩
      cases hn
    | some rating =>
      simp only [hrating, ite_error_eq_ok', List.isEmpty_iff] at h
      refine ⟨⟨p, List.mem_of_find?_eq_some hfind, hid, h.2.1, h.2.2⟩, fun n hn => ?_⟩
      cases hn
      exact Nat.le_of_not_lt h.1

/-- **A valid configuration is well-formed.** -/
theorem wellFormed_of_validate {c : Config} (h : c.validate = .ok ()) : c.WellFormed := by
  simp only [validate, throw_eq_error, error_bind, ite_error_eq_ok', bind_eq_ok] at h
  obtain ⟨-, -, _, hprotocols, _, hpools, _, hprofiles, -⟩ := h
  have hchecked : ∀ p ∈ c.protocols, checkProtocol p = .ok () :=
    fun p hp => ((checkDistinct_eq_ok hprotocols).1 p hp).1
  have hfit : ∀ q ∈ c.pools, checkPool c.protocols q = .ok () :=
    fun q hq => ((checkDistinct_eq_ok hpools).1 q hq).1
  refine ⟨nodup_of_checkDistinct hprotocols, nodup_of_checkDistinct hpools,
    nodup_of_checkDistinct hprofiles, fun p hp => (caps_of_checkProtocol (hchecked p hp)).1,
    fun p hp => (caps_of_checkProtocol (hchecked p hp)).2,
    fun q hq => (shape_of_checkPool (hfit q hq)).1, fun q hq => (shape_of_checkPool (hfit q hq)).2,
    fun p hp => ?_⟩
  have hrange := ((checkDistinct_eq_ok hprofiles).1 p hp).1
  rw [checkProfile, ite_error_eq_ok] at hrange
  exact hrange.1

end Config

/-- What is computed for every item is computed for the list. -/
theorem mapM_eq_ok {α β ε : Type} {f : α → Except ε β} {g : α → β} {xs : List α}
    (h : ∀ x ∈ xs, f x = .ok (g x)) : xs.mapM f = .ok (xs.map g) := by
  induction xs with
  | nil => rfl
  | cons x rest ih =>
    rw [List.mapM_cons, h x List.mem_cons_self, ok_bind,
      ih fun y hy => h y (List.mem_cons_of_mem x hy), ok_bind]
    rfl

/-! ## Caps -/

/-- The basis points of a percentage that has some. -/
def Decimal.bps (d : Decimal) : Nat := d.toBps.toOption.getD 0

/-- Basis points are at most the whole. -/
theorem Decimal.le_of_toBps {d : Decimal} {n : Nat} (h : d.toBps = .ok n) : n ≤ 10000 := by
  simp only [toBps, ite_error_eq_ok', Bool.or_eq_true, decide_eq_true_eq, not_or,
    Except.ok.injEq] at h
  obtain ⟨-, ⟨-, hle⟩, rfl⟩ := h
  exact Nat.le_of_not_lt hle

/-- A percentage that has basis points has those. -/
theorem Decimal.bps_eq {d : Decimal} {n : Nat} (h : d.toBps = .ok n) : d.bps = n := by
  rw [bps, h]
  rfl

/-- A fixed ceiling that is a number. -/
def CapAmount.value (cap : CapAmount) : Amount := (Amount.ofDecimal? cap.amount).getD 0

/-- The caps that a protocol is configured with. -/
def DepositCapConfig.caps (cap : DepositCapConfig) : DepositCaps where
  mode := cap.mode
  protocolBps := cap.protocolPercent.bps
  poolBps := .ofList (cap.pools.map fun share => (share.pool, share.percent.bps))
  amounts := .ofList (cap.amounts.map fun fixed => ((fixed.pool, fixed.asset), fixed.value))

/-! ## Adapters -/

/-- A whole adapter is one of its protocol. -/
@[simp] theorem Adapter.base_whole (p : Protocol) : (whole p).base = p := by
  cases p with
  | _ => rfl

/-- The lending market of a pool. -/
def PoolConfig.market (q : PoolConfig) : LendingMarket :=
  q.borrowable.foldl LendingMarket.withBorrowable ⟨.ofList (q.coins.zip q.receipts), []⟩

/-- The curve pool of a pool. -/
def PoolConfig.curve (q : PoolConfig) : CurvePool :=
  ⟨q.coins, q.receipt.getD .zero, q.gauge, q.rewardToken⟩

/-- The receipt token that a pool is configured with for a coin: the vault itself, the last one that
stands beside the coin, or the token of the curve pool. -/
def PoolConfig.receiptFor? (q : PoolConfig) (kind : ProtocolKind) (coin : Address) :
    Option Address :=
  match kind with
  | .vault => some q.address
  | .lending => lastFor? coin (q.coins.zip q.receipts)
  | .curve => q.receipt

/-- What can be borrowed does not change what is accepted. -/
theorem LendingMarket.reserves_foldl (m : LendingMarket) (assets : List Address) :
    (assets.foldl withBorrowable m).reserves = m.reserves := by
  induction assets generalizing m with
  | nil => rfl
  | cons a rest ih =>
    rw [List.foldl_cons, ih]
    unfold withBorrowable
    split
    · rfl
    · rfl

namespace Config

variable {c : Config} {p : ProtocolConfig} {q : PoolConfig}

/-- The pools that belong to a protocol. -/
def poolsOf (c : Config) (p : ProtocolConfig) : List PoolConfig := c.pools.filter (·.protocol == p.id)

/-- The curve pools of an entry, with the pools that belong to it. -/
def curves (c : Config) (p : ProtocolConfig) : CurveProtocol :=
  ⟨p.id, ⟨p.router.getD .zero, p.slippageBps⟩, p.slippageBps,
    .ofList ((c.poolsOf p).map fun q => (q.address, q.curve))⟩

/-- The protocol of an entry, with the pools that belong to it. -/
def base (c : Config) (p : ProtocolConfig) : Protocol :=
  match p.kind with
  | .vault =>
    .vault ⟨p.id, .ofList ((c.poolsOf p).map fun q => (q.address, q.coins.head?.getD .zero))⟩
  | .lending =>
    .lending ⟨p.id, p.ltvBps, .ofList ((c.poolsOf p).map fun q => (q.address, q.market))⟩
  | .curve => .curve (c.curves p)

/-- It goes by the identifier of the entry. -/
theorem id_base (c : Config) (p : ProtocolConfig) : (c.base p).id = p.id := by
  unfold base
  cases p.kind with
  | _ => rfl

/-- A pool that belongs to a protocol is a pool that names it. -/
theorem mem_poolsOf : q ∈ c.poolsOf p ↔ q ∈ c.pools ∧ q.protocol = p.id := by
  rw [poolsOf, List.mem_filter, beq_iff_eq]

/-- The protocol of an identifier is unique. -/
theorem WellFormed.protocol_unique (hc : c.WellFormed) {p' : ProtocolConfig}
    (hp : p ∈ c.protocols) (hp' : p' ∈ c.protocols) (hid : p.id = p'.id) : p = p' :=
  List.inj_on_of_nodup_map hc.protocols hp hp' hid

/-- A pool has coins and meets the needs of its protocol. -/
theorem WellFormed.shape (hc : c.WellFormed) (hp : p ∈ c.protocols) (hq : q ∈ c.poolsOf p) :
    q.coins ≠ [] ∧ checkShape q p.kind = .ok () := by
  obtain ⟨hpool, hid⟩ := mem_poolsOf.1 hq
  obtain ⟨p', hp', hid', hshape⟩ := hc.shapes q hpool
  cases hc.protocol_unique hp' hp (hid'.trans hid)
  exact hshape

/-- **The protocol of an entry can be built.** -/
theorem WellFormed.protocol_eq (hc : c.WellFormed) (hp : p ∈ c.protocols) :
    protocol p (c.poolsOf p) = .ok (c.base p) := by
  unfold protocol base
  cases hkind : p.kind with
  | vault =>
    refine bind_eq_ok.2 ⟨_, mapM_eq_ok fun q hq => ?_, rfl⟩
    obtain ⟨coin, rest, hcoins⟩ := List.exists_cons_of_ne_nil (hc.shape hp hq).1
    rw [hcoins]
    rfl
  | lending => rfl
  | curve =>
    refine bind_eq_ok.2 ⟨_, mapM_eq_ok fun q hq => ?_, rfl⟩
    have hshape := (hc.shape hp hq).2
    rw [hkind] at hshape
    simp only [checkShape, throw_eq_error, error_bind, pure_eq_ok, ite_error_eq_ok] at hshape
    rw [PoolConfig.curve]
    cases hreceipt : q.receipt with
    | none => simp [hreceipt] at hshape
    | some receipt => rfl

/-- A pool is found among those of its protocol. -/
theorem WellFormed.get?_poolsOf {ν : Type} {val : PoolConfig → ν} (hc : c.WellFormed)
    (hq : q ∈ c.poolsOf p) :
    (Table.ofList ((c.poolsOf p).map fun q => (q.address, val q))).get? q.address =
      some (val q) := by
  refine Table.get?_ofList_map ?_ hq
  have hsub : (c.poolsOf p).Sublist c.pools := List.filter_sublist
  exact (hsub.map _).nodup hc.pools

/-- **The accepted assets of a pool are its coins.** -/
theorem WellFormed.acceptedAssets (hc : c.WellFormed) (hp : p ∈ c.protocols)
    (hq : q ∈ c.poolsOf p) :
    ∃ assets, (c.base p).acceptedAssets q.address = .ok assets ∧ ∀ a, a ∈ assets ↔ a ∈ q.coins := by
  have hshape := (hc.shape hp hq).2
  unfold base
  cases hkind : p.kind with
  | vault =>
    rw [hkind, checkShape, ite_error_eq_ok, List.length_eq_one_iff] at hshape
    obtain ⟨⟨coin, hcoins⟩, -⟩ := hshape
    refine ⟨[coin], ?_, fun a => ?_⟩
    · simp only [Protocol.acceptedAssets, VaultProtocol.asset, hc.get?_poolsOf hq, hcoins]
      rfl
    · rw [hcoins]
  | lending =>
    rw [hkind, checkShape, ite_error_eq_ok] at hshape
    -- A coin that is listed twice is one reserve, so these are the same assets only as sets.
    refine ⟨q.market.reserves.keys, ?_, fun a => ?_⟩
    · simp only [Protocol.acceptedAssets, LendingProtocol.market, hc.get?_poolsOf hq]
      rfl
    · rw [Table.mem_keys_iff, PoolConfig.market, LendingMarket.reserves_foldl, Table.contains,
        Table.get?_ofList, isSome_lastFor?_iff, List.map_fst_zip (Nat.le_of_eq hshape.1.symm)]
  | curve =>
    refine ⟨q.coins, ?_, fun a => Iff.rfl⟩
    simp only [Protocol.acceptedAssets, CurveProtocol.pool, curves, hc.get?_poolsOf hq]
    rfl

/-- **The receipt token for a coin is the configured one.** -/
theorem WellFormed.receipt (hc : c.WellFormed) (hp : p ∈ c.protocols) (hq : q ∈ c.poolsOf p)
    {coin : Address} (hcoin : coin ∈ q.coins) :
    ∃ receipt, q.receiptFor? p.kind coin = some receipt ∧
      (c.base p).receipt coin q.address = .ok receipt := by
  have hshape := (hc.shape hp hq).2
  unfold base PoolConfig.receiptFor?
  cases hkind : p.kind with
  | vault =>
    rw [hkind, checkShape, ite_error_eq_ok, List.length_eq_one_iff] at hshape
    obtain ⟨⟨only, hcoins⟩, -⟩ := hshape
    rw [hcoins, List.mem_singleton] at hcoin
    subst hcoin
    refine ⟨q.address, rfl, ?_⟩
    simp only [Protocol.receipt, VaultProtocol.receipt, VaultProtocol.asset, hc.get?_poolsOf hq,
      hcoins]
    exact if_pos rfl
  | lending =>
    rw [hkind, checkShape, ite_error_eq_ok] at hshape
    have hlisted : coin ∈ (q.coins.zip q.receipts).map (·.1) := by
      rw [List.map_fst_zip (Nat.le_of_eq hshape.1.symm)]
      exact hcoin
    obtain ⟨receipt, hreceipt⟩ := Option.isSome_iff_exists.1 (isSome_lastFor?_iff.2 hlisted)
    refine ⟨receipt, hreceipt, ?_⟩
    have hreserve : q.market.reserves.get? coin = some receipt := by
      rw [PoolConfig.market, LendingMarket.reserves_foldl, Table.get?_ofList, hreceipt]
    simp only [Protocol.receipt, LendingProtocol.receipt, LendingProtocol.market,
      hc.get?_poolsOf hq, ok_bind, hreserve, pure_eq_ok]
  | curve =>
    rw [hkind] at hshape
    simp only [checkShape, throw_eq_error, error_bind, pure_eq_ok, ite_error_eq_ok] at hshape
    obtain ⟨receipt, hreceipt⟩ : ∃ receipt, q.receipt = some receipt := by
      cases hr : q.receipt with
      | none => simp [hr] at hshape
      | some receipt => exact ⟨receipt, rfl⟩
    refine ⟨receipt, hreceipt, ?_⟩
    have hindex : (q.coins.idxOf? coin).isSome = true := by
      rw [List.isSome_idxOf?]
      exact hcoin
    obtain ⟨index, hindex⟩ := Option.isSome_iff_exists.1 hindex
    simp only [Protocol.receipt, CurveProtocol.receipt, CurveProtocol.coinIndex,
      CurveProtocol.pool, curves, hc.get?_poolsOf hq, ok_bind, PoolConfig.curve, hindex, pure_eq_ok,
      hreceipt, Option.getD_some]

/-- A curve pool has a gauge when it is configured with one. -/
theorem WellFormed.succeeds_gauge_iff (hc : c.WellFormed) (hq : q ∈ c.poolsOf p) :
    ((c.curves p).gauge q.address).Succeeds ↔ q.gauge.isSome = true := by
  rw [CurveProtocol.succeeds_gauge_iff, CurveProtocol.canStake, curves, hc.get?_poolsOf hq]
  rfl

/-- **A pool can be bound to the adapter of its protocol** when it stakes with the gauge of a curve
pool, or not at all. -/
theorem WellFormed.serves_iff (hc : c.WellFormed) (hp : p ∈ c.protocols) (hq : q ∈ c.poolsOf p) :
    (Adapter.whole (c.base p)).Serves q.address q.stake ↔
      (q.stake = true → p.kind = .curve ∧ q.gauge.isSome = true) := by
  constructor
  · intro hserves hstake
    obtain ⟨curve, hcurve, hgauge⟩ := hserves.gauged hstake
    cases hkind : p.kind with
    | vault =>
      rw [base, hkind] at hcurve
      cases hcurve
    | lending =>
      rw [base, hkind] at hcurve
      cases hcurve
    | curve =>
      rw [base, hkind] at hcurve
      cases hcurve
      exact ⟨rfl, (hc.succeeds_gauge_iff hq).1 hgauge⟩
  · intro hstakes
    obtain ⟨assets, hassets, -⟩ := hc.acceptedAssets hp hq
    refine ⟨⟨assets, by rwa [Adapter.base_whole]⟩, fun hstake => ?_⟩
    obtain ⟨hkind, hgauge⟩ := hstakes hstake
    refine ⟨c.curves p, ?_, (hc.succeeds_gauge_iff hq).2 hgauge⟩
    rw [base, hkind]
    rfl

/-! ## The registry -/

/-- The holders of a role besides the governance account. -/
def holders (c : Config) : Role → List Address
  | .governance => []
  | .riskOperator => c.governance.riskOperators
  | .strategyOperator => c.governance.strategyOperators
  | .financeOperator => c.governance.financeOperators

/-- The entries of role holders. -/
def grants (c : Config) (role : Role) : List ((Role × Address) × Unit) :=
  (c.holders role).map fun account => ((role, account), ())

/-- The record of a pool at a place in the order of the configuration. -/
def record (q : PoolConfig) (place : Nat) : PoolRecord := ⟨q.address, q.rating, q.approved, place⟩

/-- The registry of the role holders and the protocols, without pools and profiles. -/
def installed (c : Config) : Registry where
  governance := c.governance.admin
  roles := .ofList (c.grants .riskOperator ++ c.grants .strategyOperator ++
    c.grants .financeOperator)
  adapters := .ofList (c.protocols.map fun p => (p.id, .whole (c.base p)))
  caps := .ofList (c.protocols.map fun p => (p.id, p.depositCap.caps))

/-- **The registry that a configuration writes down.** -/
def registry (c : Config) : Registry :=
  { c.installed with
    pools := .ofList (c.pools.zipIdx.map fun x => (x.1.address, record x.1 x.2))
    nextRegistration := c.pools.length
    bindings := .ofList (c.pools.map fun q => (q.address, ⟨q.protocol, q.stake⟩))
    profiles := .ofList (c.riskProfiles.map fun p =>
      (p.name, ⟨p.name, p.canBorrow, ⟨p.minRating, p.maxRating⟩⟩)) }

/-- An account holds a role when it is the admin or listed for the role. -/
theorem hasRole_registry (c : Config) (role : Role) (account : Address) :
    c.registry.hasRole role account = true ↔
      account = c.governance.admin ∨ account ∈ c.holders role := by
  have hlisted : c.registry.roles.contains (role, account) = true ↔ account ∈ c.holders role := by
    rw [Table.contains, registry, installed, Table.get?_ofList, isSome_lastFor?_iff]
    cases role with
    | _ => simp [grants, holders]
  rw [Registry.hasRole, Bool.or_eq_true, decide_eq_true_eq, hlisted]
  rfl

/-- **A pool is bound to the adapter of its protocol**, as it is configured. -/
theorem WellFormed.binding? (hc : c.WellFormed) (hp : p ∈ c.protocols) (hq : q ∈ c.poolsOf p) :
    c.registry.binding? q.address =
      some ⟨.whole (c.base p), q.stake, p.depositCap.caps⟩ := by
  obtain ⟨hpool, hid⟩ := mem_poolsOf.1 hq
  have hbinding : c.registry.bindings.get? q.address = some ⟨q.protocol, q.stake⟩ :=
    Table.get?_ofList_map hc.pools hpool
  have hadapter : c.registry.adapters.get? q.protocol = some (.whole (c.base p)) := by
    rw [hid]
    exact Table.get?_ofList_map hc.protocols hp
  have hcaps : c.registry.caps.get? q.protocol = some p.depositCap.caps := by
    rw [hid]
    exact Table.get?_ofList_map hc.protocols hp
  simp only [Registry.binding?, hbinding, hadapter, hcaps, Option.bind_eq_bind, Option.bind_some,
    Option.pure_def, Option.getD_some]

/-- The profiles are those that are configured. -/
theorem WellFormed.profiles_registry (hc : c.WellFormed) {name : String} {policy : RiskProfile} :
    c.registry.profiles.get? name = some policy ↔
      ∃ p ∈ c.riskProfiles, name = p.name ∧
        policy = ⟨p.name, p.canBorrow, ⟨p.minRating, p.maxRating⟩⟩ := by
  show (Table.ofList _).get? _ = _ ↔ _
  rw [Table.get?_ofList]
  constructor
  · intro h
    obtain ⟨p, hp, heq⟩ := List.mem_map.1 (mem_of_lastFor? h)
    cases heq
    exact ⟨p, hp, rfl, rfl⟩
  · rintro ⟨p, hp, rfl, rfl⟩
    rw [← Table.get?_ofList]
    exact Table.get?_ofList_map hc.profiles hp

/-- The records of the pools are those that are configured. -/
theorem WellFormed.pools_registry (hc : c.WellFormed) {pool : Address} {found : PoolRecord} :
    c.registry.pools.get? pool = some found ↔
      ∃ x ∈ c.pools.zipIdx, pool = x.1.address ∧ found = record x.1 x.2 := by
  have hdistinct : (c.pools.zipIdx.map (·.1.address)).Nodup := by
    have hfst : c.pools.zipIdx.map (·.1.address) = c.pools.map (·.address) := by
      rw [← List.zipIdx_map_fst 0 c.pools, List.map_map, List.zipIdx_map_fst]
      rfl
    rw [hfst]
    exact hc.pools
  show (Table.ofList _).get? _ = _ ↔ _
  rw [Table.get?_ofList]
  constructor
  · intro h
    obtain ⟨x, hx, heq⟩ := List.mem_map.1 (mem_of_lastFor? h)
    cases heq
    exact ⟨x, hx, rfl, rfl⟩
  · rintro ⟨x, hx, rfl, rfl⟩
    rw [← Table.get?_ofList]
    exact Table.get?_ofList_map hdistinct hx

/-- **The pools are listed in the order of the configuration.** -/
theorem WellFormed.poolRecords_registry (hc : c.WellFormed) (hr : c.registry.Consistent) :
    c.registry.poolRecords = c.pools.zipIdx.map fun x => record x.1 x.2 := by
  obtain ⟨hmem, hsorted⟩ := hr.poolRecords
  refine hsorted.eq_of_mem_iff ?_ fun found => ?_
  · rw [List.pairwise_map]
    have hplaces : (c.pools.zipIdx.map (·.2)).Pairwise (· < ·) := by
      rw [List.zipIdx_map_snd]
      exact List.pairwise_lt_range'
    exact List.pairwise_map.1 hplaces
  · rw [hmem, hc.pools_registry, List.mem_map]
    constructor
    · rintro ⟨x, hx, -, hfound⟩
      exact ⟨x, hx, hfound.symm⟩
    · rintro ⟨x, hx, rfl⟩
      exact ⟨x, hx, rfl, rfl⟩

end Config

end VaultKeeper
