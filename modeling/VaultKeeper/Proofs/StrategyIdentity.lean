import VaultKeeper.Strategy

/-! # What a digest names

The encoding that is hashed to name a strategy is a sequence of 32-byte words, from which the
underlying asset and the steps can be read back. So two strategies of one digest are one strategy,
and two tokens of one hash are one token, unless the hash function itself collides. -/

namespace VaultKeeper

/-! ## Words -/

/-- A word determines what of a number fits. -/
theorem Abi.word_inj {m n : Nat} (h : word m = word n) : m % 2 ^ 256 = n % 2 ^ 256 := by
  have hbytes := congrArg Bytes.toNat h
  rwa [word, word, Bytes.toNat_bigEndian, Bytes.toNat_bigEndian] at hbytes

/-- A sequence of words determines what of the numbers fits. -/
theorem Abi.flatMap_word_inj {xs ys : List Nat} (h : xs.flatMap word = ys.flatMap word) :
    xs.map (· % 2 ^ 256) = ys.map (· % 2 ^ 256) := by
  have hcons : ∀ x (xs : List Nat), ([] : List Nat).flatMap word ≠ (x :: xs).flatMap word := by
    intro x xs hnil
    have hlength := congrArg List.length hnil
    rw [List.flatMap_cons, List.length_append, length_word, List.flatMap_nil,
      List.length_nil] at hlength
    omega
  induction xs generalizing ys with
  | nil =>
    cases ys with
    | nil => rfl
    | cons y ys => exact absurd h (hcons y ys)
  | cons x xs ih =>
    cases ys with
    | nil => exact absurd h.symm (hcons x xs)
    | cons y ys =>
      rw [List.flatMap_cons, List.flatMap_cons] at h
      obtain ⟨hhead, htail⟩ := List.append_inj h (by rw [length_word, length_word])
      rw [List.map_cons, List.map_cons, word_inj hhead, ih htail]

/-- The bytes of an address determine it. -/
theorem Address.toBytes_inj {a b : Address} (h : a.toBytes = b.toBytes) : a = b := by
  have hbytes := congrArg Bytes.toNat h
  have ha := a.lt_bound
  have hb := b.lt_bound
  rw [toBytes, toBytes, Bytes.toNat_bigEndian, Bytes.toNat_bigEndian,
    Nat.mod_eq_of_lt (by omega), Nat.mod_eq_of_lt (by omega)] at hbytes
  exact Address.toNat_inj.1 hbytes

/-! ## The encoding of a strategy -/

/-- The words of a step. -/
def Step.words (s : Step) : List Nat := [s.pool.toNat, s.output.toNat, s.isBorrow.toNat]

/-- The words of a strategy: the offset of the tuple, the underlying asset, the offset of the steps,
their number, and the steps. -/
def strategyWords (underlying : Address) (steps : List Step) : List Nat :=
  32 :: underlying.toNat :: 64 :: steps.length :: steps.flatMap Step.words

/-- The encoding of a strategy is the sequence of its words. -/
theorem strategyEncoding_eq (underlying : Address) (steps : List Step) :
    strategyEncoding underlying steps = (strategyWords underlying steps).flatMap Abi.word := by
  have hitems : (steps.map fun s => [Abi.Component.address s.pool, .address s.output,
      .bool s.isBorrow]).flatMap (Abi.heads 0) = (steps.flatMap Step.words).flatMap Abi.word := by
    induction steps with
    | nil => rfl
    | cons s rest ih =>
      rw [List.map_cons, List.flatMap_cons, ih, List.flatMap_cons, List.flatMap_append]
      rfl
  rw [strategyEncoding, Abi.array, hitems]
  simp [strategyWords, Abi.encode, Abi.heads, Abi.tails, Abi.Component.address]

/-- The words of the steps determine them. -/
theorem Step.flatMap_words_inj {xs ys : List Step} (h : xs.flatMap words = ys.flatMap words) :
    xs = ys := by
  induction xs generalizing ys with
  | nil =>
    cases ys with
    | nil => rfl
    | cons y ys => cases h
  | cons x xs ih =>
    cases ys with
    | nil => cases h
    | cons y ys =>
      simp only [List.flatMap_cons, words, List.cons_append, List.nil_append,
        List.cons.injEq] at h
      obtain ⟨hpool, houtput, hborrow, hrest⟩ := h
      have hstep : x = y := by
        obtain ⟨pool, output, isBorrow⟩ := x
        obtain ⟨pool', output', isBorrow'⟩ := y
        rw [Step.mk.injEq]
        refine ⟨Address.toNat_inj.1 hpool, Address.toNat_inj.1 houtput, ?_⟩
        cases isBorrow <;> cases isBorrow' <;> first | rfl | cases hborrow
      rw [hstep, ih hrest]

/-- The words of a step fit. -/
theorem Step.map_words (s : Step) : s.words.map (· % 2 ^ 256) = s.words := by
  have hpool := s.pool.lt_bound
  have houtput := s.output.lt_bound
  have hborrow := Bool.toNat_lt s.isBorrow
  rw [words, List.map_cons, List.map_cons, List.map_cons, List.map_nil,
    Nat.mod_eq_of_lt (by omega), Nat.mod_eq_of_lt (by omega), Nat.mod_eq_of_lt (by omega)]

/-- **The encoding of a strategy determines its content.** The number of steps need not fit into its
word, since it follows from the length of the encoding. -/
theorem strategyEncoding_inj {underlying underlying' : Address} {steps steps' : List Step}
    (h : strategyEncoding underlying steps = strategyEncoding underlying' steps') :
    underlying = underlying' ∧ steps = steps' := by
  have hfit : ∀ xs : List Step, (xs.flatMap Step.words).map (· % 2 ^ 256) =
      xs.flatMap Step.words := by
    intro xs
    rw [List.map_flatMap]
    exact congrArg xs.flatMap (funext Step.map_words)
  rw [strategyEncoding_eq, strategyEncoding_eq] at h
  have hwords := Abi.flatMap_word_inj h
  simp only [strategyWords, List.map_cons, List.cons.injEq, hfit] at hwords
  obtain ⟨-, hunderlying, -, -, hsteps⟩ := hwords
  have ha := underlying.lt_bound
  have hb := underlying'.lt_bound
  rw [Nat.mod_eq_of_lt (by omega), Nat.mod_eq_of_lt (by omega)] at hunderlying
  exact ⟨Address.toNat_inj.1 hunderlying, Step.flatMap_words_inj hsteps⟩

/-- Strategies of the same content are the same. -/
theorem Strategy.eq_of_content {s t : Strategy} (hunderlying : s.underlying = t.underlying)
    (hsteps : s.steps = t.steps) : s = t := by
  have hhash : s.hash = t.hash := by rw [s.hash_eq, t.hash_eq, hunderlying, hsteps]
  cases s
  cases t
  rw [Strategy.mk.injEq]
  exact ⟨hunderlying, hsteps, hhash⟩

end VaultKeeper
