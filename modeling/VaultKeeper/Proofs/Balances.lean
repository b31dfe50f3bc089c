import VaultKeeper.Ledger

/-! # Changing balances

What an overlay answers after a credit or a debit: the changed entry has its new amount, and every
other balance is as it was. -/

namespace VaultKeeper.Overlay

variable {token token' account account' : Address}

/-- An overlay without changes answers like the ledger underneath. -/
@[simp] theorem ledger_ofLedger (l : Ledger) : (ofLedger l).ledger = l := rfl

/-- A replaced balance, and every other one. -/
theorem balance_setBalance (o : Overlay) (token account token' account' : Address)
    (amount : Amount) : (o.setBalance token account amount).ledger.balance token' account' =
      if token' = token ∧ account' = account then amount
      else o.ledger.balance token' account' := by
  simp only [setBalance, ledger, Table.get?_insert, Prod.mk.injEq]
  by_cases h : token' = token ∧ account' = account
  · rw [if_pos h, if_pos h, Option.getD_some]
  · rw [if_neg h, if_neg h]

/-- A replaced debt, and every other one. -/
theorem debt_setDebt (o : Overlay) (pool asset account pool' asset' account' : Address)
    (amount : Amount) : (o.setDebt pool asset account amount).ledger.debt pool' asset' account' =
      if pool' = pool ∧ asset' = asset ∧ account' = account then amount
      else o.ledger.debt pool' asset' account' := by
  simp only [setDebt, ledger, Table.get?_insert, Prod.mk.injEq]
  by_cases h : pool' = pool ∧ asset' = asset ∧ account' = account
  · rw [if_pos h, if_pos h, Option.getD_some]
  · rw [if_neg h, if_neg h]

/-- A credited balance. -/
@[simp] theorem balance_credit_self (o : Overlay) (token account : Address) (amount : Amount) :
    (o.credit token account amount).ledger.balance token account =
      (o.ledger.balance token account).addSat amount := by
  rw [credit, balance_setBalance, if_pos ⟨rfl, rfl⟩]

/-- A debited balance. -/
@[simp] theorem balance_debit_self (o : Overlay) (token account : Address) (amount : Amount) :
    (o.debit token account amount).ledger.balance token account =
      (o.ledger.balance token account).subSat amount := by
  rw [debit, balance_setBalance, if_pos ⟨rfl, rfl⟩]

/-- A debit of all or more leaves nothing. -/
theorem balance_debit_eq_zero {o : Overlay} {amount : Amount}
    (h : o.ledger.balance token account ≤ amount) :
    (o.debit token account amount).ledger.balance token account = 0 := by
  rw [balance_debit_self]
  ext
  exact Nat.sub_eq_zero_of_le h

/-- An increased debt. -/
@[simp] theorem debt_addDebt_self (o : Overlay) (pool asset account : Address) (amount : Amount) :
    (o.addDebt pool asset account amount).ledger.debt pool asset account =
      (o.ledger.debt pool asset account).addSat amount := by
  rw [addDebt, debt_setDebt, if_pos ⟨rfl, rfl, rfl⟩]

/-- A loan leaves every balance alone. -/
@[simp] theorem balance_addDebt (o : Overlay) (pool asset account : Address) (amount : Amount) :
    (o.addDebt pool asset account amount).ledger.balance = o.ledger.balance := rfl

/-- A credit leaves every other balance alone. -/
theorem balance_credit_of_ne (o : Overlay) (amount : Amount)
    (h : token' ≠ token ∨ account' ≠ account) :
    (o.credit token account amount).ledger.balance token' account' =
      o.ledger.balance token' account' := by
  rw [credit, balance_setBalance, if_neg fun heq => h.elim (· heq.1) (· heq.2)]

/-- A debit leaves every other balance alone. -/
theorem balance_debit_of_ne (o : Overlay) (amount : Amount)
    (h : token' ≠ token ∨ account' ≠ account) :
    (o.debit token account amount).ledger.balance token' account' =
      o.ledger.balance token' account' := by
  rw [debit, balance_setBalance, if_neg fun heq => h.elim (· heq.1) (· heq.2)]

/-- A debit adds to no balance. -/
theorem toNat_balance_debit_le (o : Overlay) (token account token' account' : Address)
    (amount : Amount) : ((o.debit token account amount).ledger.balance token' account').toNat ≤
      (o.ledger.balance token' account').toNat := by
  rw [debit, balance_setBalance]
  by_cases h : token' = token ∧ account' = account
  · rw [if_pos h, h.1, h.2, Amount.toNat_subSat]
    exact Nat.sub_le _ _
  · exact Nat.le_of_eq (congrArg Amount.toNat (if_neg h))

end VaultKeeper.Overlay
