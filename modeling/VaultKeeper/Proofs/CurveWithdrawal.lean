import VaultKeeper.Proofs.ExitGuarantee
import VaultKeeper.Proofs.Multicall

/-! # A curve withdrawal routes every coin

A withdrawal redeems receipts for a share of every coin, and then approves and exchanges each of the
other coins for the wanted one. What its calls ask for is read back from their bytes, by a reader
that knows which function a contract was called with, takes the indices of coins for signed numbers,
and accepts only what it would write itself. Coins are named in the order of the pool, whatever the
wanted one is, and those of which nothing is received are left out. -/

namespace VaultKeeper

namespace Abi

/-! ## Reading arguments -/

/-- The index of a coin in the word at byte `i`: a signed number of 128 bits that is not
negative. -/
def index? (b : Bytes) (i : Nat) : Option Nat := (word? b i).filter (· < 2 ^ 127)

/-- As many 256-bit numbers as are asked for, one after the other from byte `i` on. -/
def amounts? (b : Bytes) : (n i : Nat) → Option (List Amount)
  | 0, _ => some []
  | n + 1, i => do
    let a ← amount? b i
    let rest ← amounts? b n (i + 32)
    return a :: rest

/-- What is read as an index fits. -/
theorem lt_of_index? {b : Bytes} {i n : Nat} (h : index? b i = some n) : n < 2 ^ 127 := by
  rw [index?, Option.filter_eq_some_iff] at h
  exact of_decide_eq_true h.2

/-- As many numbers are read as are asked for. -/
theorem length_amounts? {b : Bytes} {n i : Nat} {xs : List Amount}
    (h : amounts? b n i = some xs) : xs.length = n := by
  induction n generalizing i xs with
  | zero =>
    cases h
    rfl
  | succ n ih =>
    obtain ⟨a, -, h⟩ := Option.bind_eq_some_iff.1 h
    obtain ⟨rest, hrest, h⟩ := Option.bind_eq_some_iff.1 h
    cases h
    rw [List.length_cons, ih hrest]

/-- An index is read back. -/
theorem index?_encode (before after : List Component) {n : Nat} (h : n < 2 ^ 127) :
    index? (encode (before ++ .word n :: after)) (32 * before.length) = some n := by
  have hword := word?_encode before after [] (n := n) (by omega)
  rw [List.append_nil] at hword
  rw [index?, hword, Option.filter_some, if_pos (decide_eq_true h)]

/-- A 256-bit number at the end of the bytes that are read. -/
theorem amount?_encode_nil (before after : List Component) (a : Amount) :
    amount? (encode (before ++ .amount a :: after)) (32 * before.length) = some a := by
  have hread := amount?_encode before after [] a
  rwa [List.append_nil] at hread

/-- **Numbers are read back one after the other**: the induction is on the numbers that are left,
behind the components that were passed. -/
theorem amounts?_encode (before : List Component) (xs : List Amount) :
    amounts? (encode (before ++ xs.map .amount)) xs.length (32 * before.length) = some xs := by
  induction xs generalizing before with
  | nil => rfl
  | cons x xs ih =>
    have hfirst := amount?_encode_nil before (xs.map .amount) x
    have hshift : before ++ [.amount x] ++ xs.map .amount = before ++ .amount x :: xs.map .amount :=
      by rw [List.append_assoc, List.singleton_append]
    have hrest := ih (before ++ [.amount x])
    rw [hshift, List.length_append, List.length_singleton, Nat.mul_add, Nat.mul_one] at hrest
    rw [List.map_cons, List.length_cons, amounts?, hfirst]
    change (amounts? _ _ _).bind _ = _
    rw [hrest]
    rfl

end Abi

/-! ## Functions of a withdrawal -/

/-- The functions of coins and pools that a withdrawal calls. -/
inductive PoolFunction
  /-- Let a contract take a coin. -/
  | approve
  /-- Redeem receipts of a pool of so many coins. -/
  | removeLiquidity (coins : Nat)
  /-- Exchange a coin for another one. -/
  | exchange
deriving DecidableEq

namespace PoolFunction

/-- The function and its argument types; a pool takes one amount for each of its coins. -/
def signature : PoolFunction → String
  | approve => "approve(address,uint256)"
  | removeLiquidity coins => s!"remove_liquidity(uint256,uint256[{coins}])"
  | exchange => "exchange(int128,int128,uint256,uint256)"

/-- The arguments, read at their places. -/
def read? (args : Bytes) : PoolFunction → Option Call
  | approve => do
    let spender ← Abi.address? args 0
    let amount ← Abi.amount? args 32
    return .approve spender amount
  | removeLiquidity coins => do
    let amount ← Abi.amount? args 0
    let minAmounts ← Abi.amounts? args coins 32
    return .removeLiquidity amount minAmounts
  | exchange => do
    let source ← Abi.index? args 0
    let target ← Abi.index? args 32
    let amount ← Abi.amount? args 64
    let minOut ← Abi.amount? args 96
    return .exchange source target amount minOut

/-- The call in the calldata of a function, when these bytes are the calldata of just this call. -/
def decode? (f : PoolFunction) (data : Bytes) : Option Call :=
  if data.take 4 = Abi.selector f.signature then
    (f.read? (data.drop 4)).filter fun c => c.calldata = data
  else none

/-- A call of a function, with arguments of its types. -/
inductive Calls : PoolFunction → Call → Prop
  /-- An approval. -/
  | approve (spender : Address) (amount : Amount) : Calls .approve (.approve spender amount)
  /-- A redemption, with one amount for each coin. -/
  | removeLiquidity (amount : Amount) (minAmounts : List Amount) :
      Calls (.removeLiquidity minAmounts.length) (.removeLiquidity amount minAmounts)
  /-- An exchange between coins whose indices fit. -/
  | exchange {source target : Nat} (amount minOut : Amount) (hsource : source < 2 ^ 127)
      (htarget : target < 2 ^ 127) : Calls .exchange (.exchange source target amount minOut)

variable {f : PoolFunction} {c : Call} {data args : Bytes}

/-- A call has the signature of its function. -/
theorem Calls.signature_eq (h : f.Calls c) : c.signature = f.signature := by
  cases h with
  | approve => rfl
  | removeLiquidity => rfl
  | exchange => rfl

/-- What is read is a call of the function. -/
theorem calls_of_read? (h : f.read? args = some c) : f.Calls c := by
  cases f with
  | approve =>
    obtain ⟨spender, -, h⟩ := Option.bind_eq_some_iff.1 h
    obtain ⟨amount, -, h⟩ := Option.bind_eq_some_iff.1 h
    cases h
    exact .approve spender amount
  | removeLiquidity coins =>
    obtain ⟨amount, -, h⟩ := Option.bind_eq_some_iff.1 h
    obtain ⟨minAmounts, hamounts, h⟩ := Option.bind_eq_some_iff.1 h
    cases h
    rw [← Abi.length_amounts? hamounts]
    exact .removeLiquidity amount minAmounts
  | exchange =>
    obtain ⟨source, hsource, h⟩ := Option.bind_eq_some_iff.1 h
    obtain ⟨target, htarget, h⟩ := Option.bind_eq_some_iff.1 h
    obtain ⟨amount, -, h⟩ := Option.bind_eq_some_iff.1 h
    obtain ⟨minOut, -, h⟩ := Option.bind_eq_some_iff.1 h
    cases h
    exact .exchange amount minOut (Abi.lt_of_index? hsource) (Abi.lt_of_index? htarget)

/-- The arguments of a call are read back. -/
theorem read?_encode (h : f.Calls c) : f.read? (Abi.encode c.arguments) = some c := by
  cases h with
  | approve spender amount =>
    have hspender := Abi.address?_encode [] [.amount amount] [] spender
    have hamount := Abi.amount?_encode_nil [.address spender] [] amount
    rw [List.append_nil] at hspender
    rw [read?, Call.arguments]
    exact Option.bind_eq_some_iff.2 ⟨_, hspender, Option.bind_eq_some_iff.2 ⟨_, hamount, rfl⟩⟩
  | removeLiquidity amount minAmounts =>
    have hamount := Abi.amount?_encode_nil [] (minAmounts.map .amount) amount
    have hamounts := Abi.amounts?_encode [.amount amount] minAmounts
    rw [read?, Call.arguments]
    exact Option.bind_eq_some_iff.2 ⟨_, hamount, Option.bind_eq_some_iff.2 ⟨_, hamounts, rfl⟩⟩
  | @exchange source target amount minOut hsource htarget =>
    have hfirst := Abi.index?_encode [] [.word target, .amount amount, .amount minOut] hsource
    have hsecond := Abi.index?_encode [.word source] [.amount amount, .amount minOut] htarget
    have hamount := Abi.amount?_encode_nil [.word source, .word target] [.amount minOut] amount
    have hminOut := Abi.amount?_encode_nil [.word source, .word target, .amount amount] [] minOut
    rw [read?, Call.arguments]
    exact Option.bind_eq_some_iff.2 ⟨_, hfirst, Option.bind_eq_some_iff.2 ⟨_, hsecond,
      Option.bind_eq_some_iff.2 ⟨_, hamount, Option.bind_eq_some_iff.2 ⟨_, hminOut, rfl⟩⟩⟩⟩

/-- **Reading the calldata of a call undoes writing it**, and accepts nothing else. -/
theorem decode?_eq_some_iff : f.decode? data = some c ↔ f.Calls c ∧ c.calldata = data := by
  constructor
  · intro h
    rw [decode?] at h
    split at h
    · rw [Option.filter_eq_some_iff, decide_eq_true_iff] at h
      exact ⟨calls_of_read? h.1, h.2⟩
    · cases h
  · rintro ⟨hcalls, rfl⟩
    have hselector : c.calldata.take 4 = Abi.selector f.signature := by
      rw [Call.calldata, Abi.call, hcalls.signature_eq]
      exact List.take_left' (Abi.length_selector f.signature)
    have hargs : c.calldata.drop 4 = Abi.encode c.arguments := by
      rw [Call.calldata, Abi.call]
      exact List.drop_left' (Abi.length_selector c.signature)
    rw [decode?, if_pos hselector, Option.filter_eq_some_iff, decide_eq_true_iff, hargs]
    exact ⟨read?_encode hcalls, rfl⟩

end PoolFunction

/-- A call of a function at a contract. -/
structure PoolCall where
  /-- The contract. -/
  target : Address
  /-- The function. -/
  function : PoolFunction
  /-- The call. -/
  call : Call
deriving DecidableEq

/-- An instruction is a call at a contract: it goes there without native value, does what the call
does, and its bytes are read as the call. -/
structure Instruction.ReadsAs (i : Instruction) (r : PoolCall) : Prop where
  /-- Where it goes. -/
  target : i.target = r.target
  /-- It carries no native value. -/
  value : i.value = 0
  /-- What it does. -/
  action : i.action = r.call.action
  /-- What is read from its bytes. -/
  call : r.function.decode? i.calldata = some r.call

/-- A call that is sent to its contract is read back. -/
theorem PoolCall.readsAs_sentTo {r : PoolCall} (h : r.function.Calls r.call) :
    (r.call.sentTo r.target).ReadsAs r :=
  ⟨rfl, rfl, rfl, PoolFunction.decode?_eq_some_iff.2 ⟨h, rfl⟩⟩

/-! ## The calls of a withdrawal -/

/-- In a list without repetition, every entry stands at its own index. -/
theorem zipIdx_eq_of_nodup {α : Type} [BEq α] [LawfulBEq α] {xs : List α} (h : xs.Nodup) :
    xs.zipIdx = xs.map fun x => (x, xs.idxOf x) := by
  refine List.ext_getElem (by rw [List.length_zipIdx, List.length_map]) fun i hi hi' => ?_
  rw [List.getElem_zipIdx, List.getElem_map, h.idxOf_getElem, Nat.zero_add]

/-- What is put in the place of some entries only is put in the places of these. -/
theorem flatMap_ite_nil {α β : Type} (p : α → Prop) [DecidablePred p] (f : α → List β)
    (xs : List α) :
    (xs.flatMap fun x => if p x then [] else f x) = (xs.filter fun x => ¬p x).flatMap f := by
  induction xs with
  | nil => rfl
  | cons x xs ih =>
    by_cases hx : p x
    · rw [List.flatMap_cons, if_pos hx, List.nil_append, ih,
        List.filter_cons_of_neg (by simpa using hx)]
    · rw [List.flatMap_cons, if_neg hx, ih, List.filter_cons_of_pos (by simpa using hx),
        List.flatMap_cons]

/-- A part of an amount is at most the amount. -/
theorem Amount.mulDiv_le_left {a b c : Amount} (h : b ≤ c) : a.mulDiv b c ≤ a := by
  have hle := toNat_mulDiv_le a b c
  rw [le_def] at h ⊢
  calc (a.mulDiv b c).toNat
      ≤ a.toNat * b.toNat / c.toNat := hle
    _ ≤ a.toNat * c.toNat / c.toNat := Nat.div_le_div_right (Nat.mul_le_mul_left _ h)
    _ ≤ a.toNat := Nat.div_le_of_le_mul (Nat.le_of_eq (Nat.mul_comm _ _))

/-- Taking off a tolerance leaves at most the amount. -/
theorem Amount.lessBps_le (a : Amount) (bps : Nat) : a.lessBps bps ≤ a := by
  refine mulDiv_le_left (le_def.2 ?_)
  rw [toNat_ofNat, toNat_ofNat]
  omega

namespace CurveExit

variable (e : CurveExit) (coin : Address)

/-- The redemption of the receipts, for at least what is to be received of every coin. -/
def redemptionCall : PoolCall where
  target := e.pool
  function := .removeLiquidity e.config.coins.length
  call := .removeLiquidity e.receipts (e.config.coins.map e.received)

/-- The least output of the exchange of a coin for the wanted one. -/
def minOut : Amount :=
  (e.ledger.quote coin e.asset (e.received coin)).lessBps e.protocol.slippageBps

/-- The approval of what is received of a coin, and its exchange for the wanted coin. -/
def exchangeCalls : List PoolCall :=
  [⟨coin, .approve, .approve e.pool (e.received coin)⟩,
    ⟨e.pool, .exchange, .exchange (e.config.coins.idxOf coin) (e.config.coins.idxOf e.asset)
      (e.received coin) (e.minOut coin)⟩]

/-- The coins to exchange, in the order of the pool: all but the wanted one, as far as something is
received of them. -/
def exchanged : List Address :=
  e.config.coins.filter fun coin => coin ≠ e.asset ∧ e.received coin ≠ 0

/-- The calls of a withdrawal. -/
def route : List PoolCall := e.redemptionCall :: e.exchanged.flatMap e.exchangeCalls

variable {e coin}

/-- The wanted coin is found at its own index. -/
theorem coinIndex_eq (hconfig : e.protocol.pool e.pool = .ok e.config)
    (hnodup : e.config.coins.Nodup) (hasset : e.asset ∈ e.config.coins) :
    e.protocol.coinIndex e.asset e.pool = .ok (e.config.coins.idxOf e.asset) := by
  obtain ⟨target, htarget⟩ := CurveProtocol.exists_coinIndex hconfig hasset
  obtain ⟨hlt, hplace⟩ :=
    List.getElem?_eq_some_iff.1 (CurveProtocol.coin_of_index htarget hconfig)
  have hindex : e.config.coins.idxOf e.asset = target := by rw [← hplace, hnodup.idxOf_getElem]
  rw [hindex, htarget]

/-- The index of a coin fits where a pool has two or three of them. -/
theorem idxOf_lt (hsize : e.config.coins.length = 2 ∨ e.config.coins.length = 3) :
    e.config.coins.idxOf coin < 2 ^ 127 := by
  have hle := List.idxOf_le_length (l := e.config.coins) (a := coin)
  omega

/-- The calls of a withdrawal are calls of their functions. -/
theorem calls_of_mem_route (hsize : e.config.coins.length = 2 ∨ e.config.coins.length = 3)
    {r : PoolCall} (hr : r ∈ e.route) : r.function.Calls r.call := by
  rcases List.mem_cons.1 hr with rfl | hr
  · have hcalls := PoolFunction.Calls.removeLiquidity e.receipts (e.config.coins.map e.received)
    rwa [List.length_map] at hcalls
  · obtain ⟨coin, -, hr⟩ := List.mem_flatMap.1 hr
    rcases List.mem_pair.1 hr with rfl | rfl
    · exact .approve _ _
    · exact .exchange _ _ (idxOf_lt hsize) (idxOf_lt hsize)

/-- **The calls of a withdrawal are those of its route.** Every coin is named by its own index, and
the coins that are passed over are the wanted one and those of which nothing is received. -/
theorem calls_eq_route (hnodup : e.config.coins.Nodup) :
    e.calls (e.config.coins.idxOf e.asset) = e.route.map fun r => r.call.sentTo r.target := by
  have hcoin : ∀ coin ∈ e.config.coins,
      e.protocol.exchange e.pool (e.config.coins.idxOf coin) (e.config.coins.idxOf e.asset) coin
          e.asset (e.received coin) e.ledger =
        if coin = e.asset ∨ e.received coin = 0 then []
        else (e.exchangeCalls coin).map fun r => r.call.sentTo r.target := by
    intro coin hmem
    by_cases hskip : coin = e.asset ∨ e.received coin = 0
    · rw [CurveProtocol.exchange, if_pos (hskip.imp_left (List.idxOf_inj hmem).2), if_pos hskip]
    · rw [CurveProtocol.exchange, if_neg (mt (Or.imp_left (List.idxOf_inj hmem).1) hskip),
        if_neg hskip]
      rfl
  have hfilter : e.exchanged =
      e.config.coins.filter fun coin => ¬(coin = e.asset ∨ e.received coin = 0) := by
    rw [exchanged]
    simp only [not_or]
  rw [calls, route, List.map_cons, List.map_flatMap, hfilter, ← flatMap_ite_nil,
    zipIdx_eq_of_nodup hnodup, List.flatMap_map]
  exact congrArg _ (List.flatMap_congr hcoin)

end CurveExit

/-- **A curve withdrawal routes every coin.** Receipts of a pool of two or three distinct coins are
redeemed for one of the coins. The first call burns just the receipts, for at least what is to be
received of each coin, at its own index: its share of the reserve less the tolerance. Then, in the
order of the pool, what is received of each other coin is approved to the pool and exchanged for the
wanted coin, for at least its quote less the tolerance; where nothing is received there is no call,
and there are no other calls. Receipts within the supply never ask for more than the reserve, also
where a product does not fit into 256 bits. -/
theorem withdrawal_routes_every_coin (e : CurveExit) (owner : Address)
    (hconfig : e.protocol.pool e.pool = .ok e.config)
    (hsize : e.config.coins.length = 2 ∨ e.config.coins.length = 3)
    (hnodup : e.config.coins.Nodup) (hasset : e.asset ∈ e.config.coins)
    (hreceipts : e.receipts ≠ 0) :
    (∃ calls,
      (Protocol.curve e.protocol).withdrawSome owner e.asset e.pool e.receipts e.ledger =
        .ok calls ∧ List.Forall₂ Instruction.ReadsAs calls e.route) ∧
    (e.receipts ≤ e.ledger.supply e.config.receipt →
      ∀ coin ∈ e.config.coins, e.received coin ≤ e.ledger.balance coin e.pool) := by
  refine ⟨?_, fun hsupply coin _ => ?_⟩
  · have htarget := CurveExit.coinIndex_eq hconfig hnodup hasset
    refine ⟨e.calls (e.config.coins.idxOf e.asset), ?_, ?_⟩
    · rw [Protocol.withdrawSome, e.withdraw_eq hconfig hsize htarget, if_neg hreceipts]
    · rw [CurveExit.calls_eq_route hnodup, List.forall₂_map_left_iff, List.forall₂_same]
      exact fun r hr => PoolCall.readsAs_sentTo (CurveExit.calls_of_mem_route hsize hr)
  · have hshare : e.share coin ≤ e.ledger.balance coin e.pool := Amount.mulDiv_le_left hsupply
    exact Nat.le_trans (Amount.lessBps_le (e.share coin) e.slippage) hshare

namespace ThreeCoins

open Leveraged (coin pool receipt)
open TwoCoins (other)

/-- The third coin of the pool. -/
def third : Address := .ofNat 11

/-- The configuration of the pool. -/
def config : CurvePool := ⟨[other, coin, third], receipt, none, none⟩

/-- A tenth of all receipts is redeemed for the second coin, with a tolerance of one percent. Of the
first coin the pool holds so much that no product fits, and of the third one it holds a single
unit. -/
def redemption : CurveExit where
  protocol := ⟨"curve", ⟨.ofNat 9, 0⟩, 100, .ofList [(pool, config)]⟩
  pool := pool
  config := config
  asset := coin
  receipts := 300
  ledger := Snapshot.ledger
    { balances := .ofList
        [((other, pool), .ofNat (2 ^ 255)), ((coin, pool), 1000), ((third, pool), 1)]
      supplies := .ofList [(receipt, 3000)]
      prices := .ofList [(other, 2), (coin, 4), (third, 1)] }

/-- What is received of the first coin: divided first, both times. -/
def paid : Amount := .ofNat (2 ^ 255 / 3000 * 300 / 10000 * 9900)

/-- What the exchange of the first coin must pay: half of it at the prices, less the tolerance. -/
def bought : Amount := .ofNat (2 ^ 255 / 3000 * 300 / 10000 * 9900 * 2 / 4 / 10000 * 9900)

/-- The calls of the withdrawal. -/
theorem route_redemption : redemption.route =
    [⟨pool, .removeLiquidity 3, .removeLiquidity 300 [paid, 99, 0]⟩,
      ⟨other, .approve, .approve pool paid⟩,
      ⟨pool, .exchange, .exchange 0 1 paid bought⟩] := by
  decide +kernel

/-- Only the first coin is exchanged: the second one is wanted, and of the third one nothing is
received. -/
theorem first_coin_is_exchanged :
    let e := redemption
    e.protocol.pool e.pool = .ok e.config ∧ e.config.coins.length = 3 ∧ e.config.coins.Nodup ∧
    e.asset ∈ e.config.coins ∧ e.receipts ≠ 0 ∧
    (∃ calls, (Protocol.curve e.protocol).withdrawSome pool coin pool 300 e.ledger = .ok calls ∧
      List.Forall₂ Instruction.ReadsAs calls
        [⟨pool, .removeLiquidity 3, .removeLiquidity 300 [paid, 99, 0]⟩,
          ⟨other, .approve, .approve pool paid⟩,
          ⟨pool, .exchange, .exchange 0 1 paid bought⟩]) ∧
    paid ≤ .ofNat (2 ^ 255) := by
  intro e
  have hnodup : e.config.coins.Nodup := by decide
  have hasset : e.asset ∈ e.config.coins := by decide
  have hreceipts : e.receipts ≠ 0 := by decide
  obtain ⟨hcalls, hbound⟩ :=
    withdrawal_routes_every_coin e pool rfl (.inr rfl) hnodup hasset hreceipts
  rw [route_redemption] at hcalls
  have hpaid : e.received other = paid := by decide +kernel
  have hreserve : e.ledger.balance other pool = .ofNat (2 ^ 255) := by decide +kernel
  refine ⟨rfl, rfl, hnodup, hasset, hreceipts, hcalls, ?_⟩
  rw [← hpaid, ← hreserve]
  exact hbound (by decide) other (by decide)

end ThreeCoins

end VaultKeeper
