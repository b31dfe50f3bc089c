import VaultKeeper.Plan

/-! # Protocol calls

The contract calls that plans are made of, with their arguments. Each call has one signature, one
argument layout and one action, from which its calldata follows.
-/

namespace VaultKeeper

/-- A call of a token, vault, lending market, curve pool, gauge or swap router. -/
inductive Call
  /-- Let `spender` take `amount` of the token. -/
  | approve (spender : Address) (amount : Amount)
  /-- Deposit assets into a tokenised vault. -/
  | depositAssets (assets : Amount) (receiver : Address)
  /-- Redeem shares of a tokenised vault. -/
  | redeemShares (shares : Amount) (receiver owner : Address)
  /-- Supply an asset to a lending market. -/
  | supply (asset : Address) (amount : Amount) (onBehalfOf : Address)
  /-- Take a supplied asset out of a lending market. -/
  | withdraw (asset : Address) (amount : Amount) (recipient : Address)
  /-- Borrow an asset at the variable rate. -/
  | borrow (asset : Address) (amount : Amount) (onBehalfOf : Address)
  /-- Repay debt at the variable rate. -/
  | repay (asset : Address) (amount : Amount) (onBehalfOf : Address)
  /-- Add one amount for each coin of a curve pool. -/
  | addLiquidity (amounts : List Amount) (minMint : Amount)
  /-- Redeem curve receipts for at least the given amount of each coin. -/
  | removeLiquidity (amount : Amount) (minAmounts : List Amount)
  /-- Exchange one coin of a curve pool for another. -/
  | exchange (source target : Nat) (amount minOut : Amount)
  /-- Stake receipts in a gauge. -/
  | stake (amount : Amount)
  /-- Take staked receipts out of a gauge. -/
  | unstake (amount : Amount)
  /-- Claim the rewards of a gauge. -/
  | claimRewards
  /-- Swap an exact amount along a path of tokens. -/
  | swapExact (amount minOut : Amount) (path : List Address) (recipient : Address)
      (deadline : Amount)
deriving DecidableEq, Inhabited

namespace Call

/-- The number that selects the variable interest rate. -/
def variableRate : Nat := 2

/-- The function and its argument types. -/
def signature : Call → String
  | approve .. => "approve(address,uint256)"
  | depositAssets .. => "deposit(uint256,address)"
  | redeemShares .. => "redeem(uint256,address,address)"
  | supply .. => "supply(address,uint256,address,uint16)"
  | withdraw .. => "withdraw(address,uint256,address)"
  | borrow .. => "borrow(address,uint256,uint256,uint16,address)"
  | repay .. => "repay(address,uint256,uint256,address)"
  | addLiquidity xs _ => s!"add_liquidity(uint256[{xs.length}],uint256)"
  | removeLiquidity _ xs => s!"remove_liquidity(uint256,uint256[{xs.length}])"
  | exchange .. => "exchange(int128,int128,uint256,uint256)"
  | stake _ => "deposit(uint256)"
  | unstake _ => "withdraw(uint256)"
  | claimRewards => "claim_rewards()"
  | swapExact .. => "swapExactTokensForTokens(uint256,uint256,address[],address,uint256)"

/-- The arguments, in the order of the signature. -/
def arguments : Call → List Abi.Component
  | approve spender amount => [.address spender, .amount amount]
  | depositAssets assets receiver => [.amount assets, .address receiver]
  | redeemShares shares receiver owner => [.amount shares, .address receiver, .address owner]
  | supply asset amount onBehalfOf =>
    [.address asset, .amount amount, .address onBehalfOf, .word 0]
  | withdraw asset amount recipient => [.address asset, .amount amount, .address recipient]
  | borrow asset amount onBehalfOf =>
    [.address asset, .amount amount, .word variableRate, .word 0, .address onBehalfOf]
  | repay asset amount onBehalfOf =>
    [.address asset, .amount amount, .word variableRate, .address onBehalfOf]
  | addLiquidity amounts minMint => amounts.map .amount ++ [.amount minMint]
  | removeLiquidity amount minAmounts => .amount amount :: minAmounts.map .amount
  | exchange source target amount minOut =>
    [.word source, .word target, .amount amount, .amount minOut]
  | stake amount => [.amount amount]
  | unstake amount => [.amount amount]
  | claimRewards => []
  | swapExact amount minOut path recipient deadline =>
    [.amount amount, .amount minOut, .dynamic (Abi.array (path.map fun a => [.address a])),
      .address recipient, .amount deadline]

/-- What the call does. -/
def action : Call → Action
  | approve .. => .approve
  | depositAssets .. | supply .. | addLiquidity .. => .deposit
  | redeemShares .. | withdraw .. | removeLiquidity .. => .withdraw
  | borrow .. => .borrow
  | repay .. => .repay
  | exchange .. | swapExact .. => .swap
  | stake _ => .stake
  | unstake _ => .unstake
  | claimRewards => .claim

/-- The encoded function and arguments. -/
def calldata (c : Call) : Bytes := Abi.call c.signature c.arguments

/-- The instruction that makes the call at a contract, without native value. -/
def sentTo (c : Call) (target : Address) : Instruction := ⟨target, c.calldata, 0, c.action⟩

end Call

/-- Approve exactly `amount` of a token for `spender`, then do `next`; nothing for a zero amount. -/
def approveAnd (token spender : Address) (amount : Amount) (next : Instruction) :
    List Instruction :=
  if amount = 0 then [] else [(Call.approve spender amount).sentTo token, next]

end VaultKeeper
