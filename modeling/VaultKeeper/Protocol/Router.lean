import VaultKeeper.Ledger
import VaultKeeper.Protocol.Call

/-! # Swap router

Rewards are sold through a router that swaps an exact amount along a path. The least acceptable
output is the ledger's quote less a tolerance in basis points.
-/

namespace VaultKeeper

/-- An amount less a tolerance in basis points. -/
def Amount.lessBps (a : Amount) (bps : Nat) : Amount := a.applyBps (10000 - bps)

/-- A router contract and the tolerance of its swaps. -/
structure SwapRouter where
  /-- The router contract. -/
  address : Address
  /-- The tolerance, in basis points. -/
  slippageBps : Nat
deriving DecidableEq, Inhabited

namespace SwapRouter

/-- The least acceptable output of a swap. -/
def minOut (r : SwapRouter) (source target : Address) (amount : Amount) (l : Ledger) : Amount :=
  (l.quote source target amount).lessBps r.slippageBps

/-- Approve the router and swap `amount` of `source` into `target`; nothing for a zero amount or
equal assets. The batch is atomic, so the swap has no deadline. -/
def swap (r : SwapRouter) (source target : Address) (amount : Amount) (recipient : Address)
    (l : Ledger) : List Instruction :=
  if amount = 0 ∨ source = target then []
  else
    let call := Call.swapExact amount (r.minOut source target amount l) [source, target] recipient
      .largest
    approveAnd source r.address amount (call.sentTo r.address)

end SwapRouter

end VaultKeeper
