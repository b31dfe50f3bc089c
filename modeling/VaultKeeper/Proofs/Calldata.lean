import VaultKeeper.Protocol.Call

/-! # Reading calldata

What a contract reads from the calldata of an instruction: four bytes that select the function, then
32-byte words. An argument word of an encoded call reads back as the number that was encoded, so the
amounts that a group of instructions asks for can be read off its bytes. -/

namespace VaultKeeper

/-! ## Words of an encoding -/

/-- A hash has 32 bytes. -/
theorem Keccak.length_hash (m : Bytes) : (Keccak.hash m).length = 32 := by
  have hlane : ∀ x, (bytesOfLane x).length = 8 := by
    intro x
    rw [bytesOfLane, List.length_map, List.length_range]
  simp only [hash, List.length_flatMap, hlane]
  rfl

namespace Abi

/-- A selector has four bytes. -/
theorem length_selector (signature : String) : (selector signature).length = 4 := by
  rw [selector, List.length_take, Keccak.length_hash]
  rfl

/-- Each static component is one word of the heads. -/
theorem take_drop_heads {cs : List Component} {i n : Nat} (h : cs[i]? = some (.word n)) (o : Nat) :
    ((heads o cs).drop (32 * i)).take 32 = word n := by
  induction cs generalizing i o with
  | nil => cases h
  | cons c rest ih =>
    cases i with
    | zero =>
      cases h
      rw [heads, Nat.mul_zero, List.drop_zero, List.take_append_of_le_length (by simp),
        List.take_of_length_le (by simp)]
    | succ i =>
      have hdrop : ∀ (m o' : Nat), ((word m ++ heads o' rest).drop (32 * (i + 1))).take 32 =
          word n := by
        intro m o'
        rw [Nat.mul_succ, Nat.add_comm, ← List.drop_drop, List.drop_left' (length_word m), ih h]
      cases c with
      | word m => exact hdrop m o
      | dynamic b => exact hdrop o _

/-- A static component is read at its place in the encoding of its tuple. -/
theorem take_drop_encode {cs : List Component} {i n : Nat} (h : cs[i]? = some (.word n)) :
    ((encode cs).drop (32 * i)).take 32 = word n := by
  obtain ⟨hi, -⟩ := List.getElem?_eq_some_iff.1 h
  rw [encode, List.drop_append_of_le_length (by simp; omega),
    List.take_append_of_le_length (by simp; omega), take_drop_heads h]

end Abi

/-- Argument word `i` of an instruction, as a number. -/
def Instruction.word (x : Instruction) (i : Nat) : Nat :=
  Bytes.toNat ((x.calldata.drop (4 + 32 * i)).take 32)

/-- **A static argument is read back from the calldata.** -/
theorem Call.word_sentTo {c : Call} {i n : Nat} (h : c.arguments[i]? = some (.word n))
    (hn : n < 2 ^ 256) (target : Address) : (c.sentTo target).word i = n := by
  have hdrop : (c.sentTo target).calldata.drop (4 + 32 * i) =
      (Abi.encode c.arguments).drop (32 * i) := by
    rw [sentTo, calldata, Abi.call, ← List.drop_drop, List.drop_left' (Abi.length_selector _)]
  rw [Instruction.word, hdrop, Abi.take_drop_encode h, Abi.word, Bytes.toNat_bigEndian]
  exact Nat.mod_eq_of_lt (by omega)

/-! ## The amounts of a group -/

/-- A call asks for an amount, in argument word `i`, to be used for an action. -/
structure Call.Asks (c : Call) (a : Action) (i : Nat) (amount : Amount) : Prop where
  /-- What the call does. -/
  action : c.action = a
  /-- Where the amount stands. -/
  argument : c.arguments[i]? = some (.amount amount)

/-- The total that the calls of an action ask for, read from argument word `i`. -/
def encodedAmount (i : Nat) (a : Action) : List Instruction → Nat
  | [] => 0
  | x :: calls => (if x.action = a then x.word i else 0) + encodedAmount i a calls

section

variable {i : Nat} {a : Action} {calls : List Instruction} {c : Call} {amount : Amount}

@[simp] theorem encodedAmount_nil (i : Nat) (a : Action) : encodedAmount i a [] = 0 := rfl

/-- The calls of two lists together. -/
theorem encodedAmount_append (i : Nat) (a : Action) (calls more : List Instruction) :
    encodedAmount i a (calls ++ more) = encodedAmount i a calls + encodedAmount i a more := by
  induction calls with
  | nil => rw [List.nil_append, encodedAmount_nil, Nat.zero_add]
  | cons x rest ih => rw [List.cons_append, encodedAmount, encodedAmount, ih, Nat.add_assoc]

/-- A call of another action in front does not count. -/
theorem encodedAmount_cons_of_ne {x : Instruction} (h : x.action ≠ a) :
    encodedAmount i a (x :: calls) = encodedAmount i a calls := by
  rw [encodedAmount, if_neg h, Nat.zero_add]

/-- Calls of other actions do not count. -/
theorem encodedAmount_eq_zero (h : ∀ x ∈ calls, x.action ≠ a) : encodedAmount i a calls = 0 := by
  induction calls with
  | nil => rfl
  | cons x rest ih =>
    rw [encodedAmount_cons_of_ne (h x List.mem_cons_self)]
    exact ih fun y hy => h y (List.mem_cons_of_mem _ hy)

/-- A call of the action counts with the amount that it asks for. -/
theorem encodedAmount_cons (h : c.Asks a i amount) (target : Address) :
    encodedAmount i a (c.sentTo target :: calls) = amount.toNat + encodedAmount i a calls := by
  have hkeep : (c.sentTo target).action = a := h.action
  rw [encodedAmount, if_pos hkeep, Call.word_sentTo h.argument amount.lt_bound]

/-- A call that is left out for the amount zero asks for the amount. -/
theorem encodedAmount_unless_zero (h : c.Asks a i amount) (target : Address) :
    encodedAmount i a (if amount = 0 then [] else [c.sentTo target]) = amount.toNat := by
  by_cases hzero : amount = 0
  · rw [if_pos hzero, hzero]
    rfl
  · rw [if_neg hzero, encodedAmount_cons h]
    rfl

/-- An approval asks for the approved amount. -/
theorem Call.asks_approve (spender : Address) (amount : Amount) :
    (Call.approve spender amount).Asks .approve 1 amount := ⟨rfl, rfl⟩

/-- A call behind an approval asks for the amount, and so does the approval. -/
theorem encodedAmount_approveAnd (h : c.Asks a i amount) (hne : a ≠ .approve)
    (token spender target : Address) :
    encodedAmount i a (approveAnd token spender amount (c.sentTo target)) = amount.toNat ∧
      encodedAmount 1 .approve (approveAnd token spender amount (c.sentTo target)) =
        amount.toNat := by
  by_cases hzero : amount = 0
  · rw [approveAnd, if_pos hzero, hzero]
    exact ⟨rfl, rfl⟩
  · have hnext : (c.sentTo target).action ≠ .approve := fun happrove => hne (h.action ▸ happrove)
    rw [approveAnd, if_neg hzero]
    constructor
    · rw [encodedAmount_cons_of_ne fun happrove => hne happrove.symm, encodedAmount_cons h]
      rfl
    · rw [encodedAmount_cons (Call.asks_approve spender amount), encodedAmount_cons_of_ne hnext]
      rfl

end

end VaultKeeper
