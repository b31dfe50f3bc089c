import VaultKeeper.Execution
import VaultKeeper.Proofs.Calldata

/-! # A plan is read back from its batch

A multicall contract follows offsets: a word of the head of a tuple says where the content of a
dynamic component stands, a length in front of that content says how much of it there is, and what
fills its last word must be zero. A reader that follows the offsets in this way, and accepts only
what it would write itself, finds in the calldata of a batch every call of the plan, in order, with
its target, its value and its own calldata, and finds no call that may fail. -/

namespace VaultKeeper

namespace Abi

/-! ## Reading words -/

/-- The number in the word at byte `i`, when the whole word is there. -/
def word? (b : Bytes) (i : Nat) : Option Nat :=
  if i + 32 ≤ b.length then some (Bytes.toNat ((b.drop i).take 32)) else none

/-- The address in the word at byte `i`, whose first twelve bytes must be zero. -/
def address? (b : Bytes) (i : Nat) : Option Address :=
  (word? b i).bind fun n => if h : n < 2 ^ 160 then some ⟨n, h⟩ else none

/-- The 256-bit number in the word at byte `i`. -/
def amount? (b : Bytes) (i : Nat) : Option Amount := (word? b i).bind Amount.ofNat?

/-- The truth value in the word at byte `i`, which must be zero or one. -/
def bool? (b : Bytes) (i : Nat) : Option Bool :=
  (word? b i).bind fun n => if n = 0 then some false else if n = 1 then some true else none

/-- What stands at the offset that the word at byte `i` gives. -/
def content? (b : Bytes) (i : Nat) : Option Bytes :=
  (word? b i).bind fun o => if o ≤ b.length then some (b.drop o) else none

/-- A word is read back wherever it stands. -/
theorem word?_append (before rest : Bytes) {n : Nat} (h : n < 2 ^ 256) :
    word? (before ++ (word n ++ rest)) before.length = some n := by
  have hroom : before.length + 32 ≤ (before ++ (word n ++ rest)).length := by
    rw [List.length_append, List.length_append, length_word]
    omega
  have hword : ((before ++ (word n ++ rest)).drop before.length).take 32 = word n := by
    rw [List.drop_left, List.take_left' (length_word n)]
  rw [word?, if_pos hroom, hword, word, Bytes.toNat_bigEndian]
  exact congrArg some (Nat.mod_eq_of_lt (by omega))

/-- A word at the front is read back. -/
theorem word?_word (rest : Bytes) {n : Nat} (h : n < 2 ^ 256) :
    word? (word n ++ rest) 0 = some n := word?_append [] rest h

/-! ## Following offsets -/

/-- The head of a component whose content, if it is dynamic, stands at byte `offset`. -/
def Component.head (offset : Nat) : Component → Bytes
  | .word n => Abi.word n
  | .dynamic _ => Abi.word offset

/-- The heads of two lists together: the contents of the first stand before those of the second. -/
theorem heads_append (o : Nat) (cs ds : List Component) :
    heads o (cs ++ ds) = heads o cs ++ heads (o + (tails cs).length) ds := by
  induction cs generalizing o with
  | nil => rfl
  | cons c rest ih =>
    cases c with
    | word n => rw [List.cons_append, heads, heads, tails, ih, List.append_assoc]
    | dynamic b =>
      rw [List.cons_append, heads, heads, tails, ih, List.append_assoc, List.length_append,
        Nat.add_assoc]

/-- The contents of two lists together. -/
theorem tails_append (cs ds : List Component) : tails (cs ++ ds) = tails cs ++ tails ds := by
  induction cs with
  | nil => rfl
  | cons c rest ih =>
    cases c with
    | word n => rw [List.cons_append, tails, tails, ih]
    | dynamic b => rw [List.cons_append, tails, tails, ih, List.append_assoc]

/-- A content is part of the contents. -/
theorem length_le_tails {b : Bytes} {cs : List Component} (h : .dynamic b ∈ cs) :
    b.length ≤ (tails cs).length := by
  obtain ⟨before, after, hcs⟩ := List.append_of_mem h
  rw [hcs, tails_append, tails, List.length_append, List.length_append]
  omega

/-- A tuple takes one word for each component, and the contents. -/
theorem length_encode (cs : List Component) :
    (encode cs).length = 32 * cs.length + (tails cs).length := by
  rw [encode, List.length_append, length_heads]

/-- The heads of a tuple, cut at one of them. -/
theorem heads_cons (o : Nat) (c : Component) (cs : List Component) :
    ∃ o', heads o (c :: cs) = c.head o ++ heads o' cs := by
  cases c with
  | word n => exact ⟨o, rfl⟩
  | dynamic b => exact ⟨o + b.length, rfl⟩

/-- A tuple, cut at the head of one of its components. -/
theorem encode_split (before after : List Component) (c : Component) :
    ∃ later, encode (before ++ c :: after) =
      heads (32 * (before ++ c :: after).length) before ++
        (c.head (32 * (before ++ c :: after).length + (tails before).length) ++ later) := by
  obtain ⟨o', hheads⟩ :=
    heads_cons (32 * (before ++ c :: after).length + (tails before).length) c after
  refine ⟨heads o' after ++ tails (before ++ c :: after), ?_⟩
  rw [encode, heads_append, hheads, List.append_assoc, List.append_assoc]

/-- The word in the head of a component of a tuple, with whatever follows the tuple. -/
theorem word?_head (before after : List Component) (c : Component) (rest : Bytes) {n : Nat}
    (hhead : c.head (32 * (before ++ c :: after).length + (tails before).length) = word n)
    (hn : n < 2 ^ 256) :
    word? (encode (before ++ c :: after) ++ rest) (32 * before.length) = some n := by
  obtain ⟨later, hsplit⟩ := encode_split before after c
  rw [hsplit, hhead, List.append_assoc, List.append_assoc]
  have hword := word?_append (heads (32 * (before ++ c :: after).length) before) (later ++ rest) hn
  rwa [length_heads] at hword

/-- A static component is read back. -/
theorem word?_encode (before after : List Component) (rest : Bytes) {n : Nat} (hn : n < 2 ^ 256) :
    word? (encode (before ++ .word n :: after) ++ rest) (32 * before.length) = some n :=
  word?_head before after (.word n) rest rfl hn

/-- **The offset of a dynamic component leads to its content.** -/
theorem content?_encode (before after : List Component) (b rest : Bytes)
    (h : (encode (before ++ .dynamic b :: after)).length < 2 ^ 256) :
    content? (encode (before ++ .dynamic b :: after) ++ rest) (32 * before.length) =
      some (b ++ (tails after ++ rest)) := by
  obtain ⟨cs, hcs⟩ : ∃ cs, before ++ .dynamic b :: after = cs := ⟨_, rfl⟩
  obtain ⟨offset, hoffset⟩ : ∃ o, 32 * cs.length + (tails before).length = o := ⟨_, rfl⟩
  have htails : tails cs = tails before ++ (b ++ tails after) := by
    rw [← hcs, tails_append, tails]
  have hlength : (encode cs).length = offset + (b.length + (tails after).length) := by
    rw [length_encode, htails, List.length_append, List.length_append, ← hoffset, Nat.add_assoc]
  rw [hcs] at h ⊢
  have hword : word? (encode cs ++ rest) (32 * before.length) = some offset := by
    have hhead := word?_head (n := offset) before after (.dynamic b) rest
      (by rw [hcs, hoffset]; rfl) (by omega)
    rwa [hcs] at hhead
  have hinside : offset ≤ (encode cs ++ rest).length := by
    rw [List.length_append, hlength]
    omega
  have hcut : (encode cs ++ rest).drop offset = b ++ (tails after ++ rest) := by
    have hfront : (heads (32 * cs.length) cs ++ tails before).length = offset := by
      rw [List.length_append, length_heads, hoffset]
    have hwhole : encode cs ++ rest =
        (heads (32 * cs.length) cs ++ tails before) ++ (b ++ (tails after ++ rest)) := by
      rw [encode, htails]
      simp only [List.append_assoc]
    rw [hwhole, List.drop_left' hfront]
  rw [content?, hword, Option.bind_some, if_pos hinside, hcut]

/-- An address is read back. -/
theorem address?_encode (before after : List Component) (rest : Bytes) (a : Address) :
    address? (encode (before ++ .address a :: after) ++ rest) (32 * before.length) = some a := by
  have ha := a.lt_bound
  rw [address?, Component.address, word?_encode before after rest (by omega), Option.bind_some,
    dif_pos ha]

/-- A 256-bit number is read back. -/
theorem amount?_encode (before after : List Component) (rest : Bytes) (a : Amount) :
    amount? (encode (before ++ .amount a :: after) ++ rest) (32 * before.length) = some a := by
  rw [amount?, Component.amount, word?_encode before after rest a.lt_bound, Option.bind_some,
    Amount.ofNat?, dif_pos a.lt_bound]

/-- A truth value is read back. -/
theorem bool?_encode (before after : List Component) (rest : Bytes) (v : Bool) :
    bool? (encode (before ++ .bool v :: after) ++ rest) (32 * before.length) = some v := by
  have hv := Bool.toNat_lt v
  rw [bool?, Component.bool, word?_encode before after rest (by omega), Option.bind_some]
  cases v with
  | false => rfl
  | true => rfl

/-! ## Byte strings and arrays -/

/-- A byte string: as many bytes as its length says, and zeros up to a whole number of words. -/
def bytes? (b : Bytes) : Option Bytes :=
  (word? b 0).bind fun n =>
    let content := (b.drop 32).take n
    if content.length = n ∧ (b.drop (32 + n)).take (padding n).length = padding n then
      some content
    else none

/-- The next `n` dynamic items of an array, whose offsets stand from byte `i` on. -/
def items? {α : Type} (read : Bytes → Option α) (b : Bytes) : (n i : Nat) → Option (List α)
  | 0, _ => some []
  | n + 1, i => do
    let x ← (content? b i).bind read
    let rest ← items? read b n (i + 32)
    return x :: rest

/-- The items of a dynamic array of dynamic items. -/
def dynamicArray? {α : Type} (read : Bytes → Option α) (b : Bytes) : Option (List α) :=
  (word? b 0).bind fun n => items? read (b.drop 32) n 0

/-- **A byte string of any length is read back**, with whatever follows it. -/
theorem bytes?_bytes (content rest : Bytes) (h : content.length < 2 ^ 256) :
    bytes? (bytes content ++ rest) = some content := by
  have hwhole : bytes content ++ rest =
      word content.length ++ (content ++ (padding content.length ++ rest)) := by
    simp only [bytes, List.append_assoc]
  have hcontent : ((bytes content ++ rest).drop 32).take content.length = content := by
    rw [hwhole, List.drop_left' (length_word _), List.take_left]
  have hzeros : ((bytes content ++ rest).drop (32 + content.length)).take
      (padding content.length).length = padding content.length := by
    rw [hwhole, ← List.drop_drop, List.drop_left' (length_word _), List.drop_left, List.take_left]
  have hlength : word? (bytes content ++ rest) 0 = some content.length := by
    rw [hwhole, word?_word _ h]
  rw [bytes?, hlength, Option.bind_some, hcontent, if_pos ⟨rfl, hzeros⟩]

section

variable {α : Type} {read : Bytes → Option α} {write : α → Bytes}

/-- The items of an array are read back one after the other: the induction is on the items that are
left, behind those that were read. -/
theorem items?_encode (done todo : List α) (rest : Bytes)
    (hread : ∀ x ∈ todo, ∀ later, read (write x ++ later) = some x)
    (h : (encode ((done ++ todo).map fun x => .dynamic (write x))).length < 2 ^ 256) :
    items? read (encode ((done ++ todo).map fun x => .dynamic (write x)) ++ rest) todo.length
      (32 * done.length) = some todo := by
  induction todo generalizing done with
  | nil => rfl
  | cons x todo ih =>
    let part : α → Component := fun y => .dynamic (write y)
    have hparts : (done ++ x :: todo).map part = done.map part ++ part x :: todo.map part := by
      rw [List.map_append, List.map_cons]
    have hfirst : (content? (encode ((done ++ x :: todo).map part) ++ rest)
        (32 * done.length)).bind read = some x := by
      have hcontent := content?_encode (done.map part) (todo.map part) (write x) rest
        (by rw [hparts] at h; exact h)
      rw [List.length_map] at hcontent
      rw [hparts, hcontent, Option.bind_some]
      exact hread x List.mem_cons_self _
    have hshift : (done ++ [x]) ++ todo = done ++ x :: todo := by
      rw [List.append_assoc, List.singleton_append]
    have hothers : items? read (encode ((done ++ x :: todo).map part) ++ rest) todo.length
        (32 * done.length + 32) = some todo := by
      have hrest := ih (done ++ [x]) (fun y hy => hread y (List.mem_cons_of_mem _ hy))
        (by rw [hshift]; exact h)
      rw [hshift, List.length_append, List.length_singleton, Nat.mul_add, Nat.mul_one] at hrest
      exact hrest
    rw [List.length_cons, items?, hfirst]
    change (items? read _ _ _).bind _ = _
    rw [hothers]
    rfl

/-- An item is part of a dynamic array. -/
theorem length_le_dynamicArray {b : Bytes} {items : List Bytes} (h : b ∈ items) :
    b.length ≤ (dynamicArray items).length := by
  have htails := length_le_tails (List.mem_map_of_mem (f := Component.dynamic) h)
  rw [dynamicArray, List.length_append, length_encode]
  omega

/-- **A dynamic array is read back**, when each item is, with whatever follows it. -/
theorem dynamicArray?_dynamicArray (xs : List α) (rest : Bytes)
    (hread : ∀ x ∈ xs, ∀ later, read (write x ++ later) = some x)
    (h : (dynamicArray (xs.map write)).length < 2 ^ 256) :
    dynamicArray? read (dynamicArray (xs.map write) ++ rest) = some xs := by
  have hwhole : dynamicArray (xs.map write) ++ rest =
      word xs.length ++ (encode (xs.map fun x => .dynamic (write x)) ++ rest) := by
    rw [dynamicArray, List.length_map, List.map_map, List.append_assoc]
    rfl
  have hsize : (dynamicArray (xs.map write)).length =
      32 + (encode (xs.map fun x => .dynamic (write x))).length := by
    have hlength := congrArg List.length hwhole
    simp only [List.length_append, length_word] at hlength
    omega
  have hcount : xs.length < 2 ^ 256 := by
    rw [length_encode, List.length_map] at hsize
    omega
  have hitems := items?_encode [] xs rest hread (by rw [List.nil_append]; omega)
  rw [dynamicArray?, hwhole, word?_word _ hcount, Option.bind_some,
    List.drop_left' (length_word _)]
  exact hitems

end

end Abi

/-! ## Calls with values -/

/-- A call as a multicall contract receives it. -/
structure ValueCall where
  /-- The contract to call. -/
  target : Address
  /-- Whether the batch goes on when the call fails. -/
  mayFail : Bool
  /-- Native value attached to the call. -/
  value : Amount
  /-- The encoded function and arguments. -/
  calldata : Bytes
deriving DecidableEq

namespace ValueCall

/-- The call as a tuple. -/
def encode (c : ValueCall) : Bytes :=
  Abi.encode
    [.address c.target, .bool c.mayFail, .amount c.value, .dynamic (Abi.bytes c.calldata)]

/-- Read a call from its tuple. -/
def decode? (b : Bytes) : Option ValueCall := do
  let target ← Abi.address? b 0
  let mayFail ← Abi.bool? b 32
  let value ← Abi.amount? b 64
  let calldata ← (Abi.content? b 96).bind Abi.bytes?
  return ⟨target, mayFail, value, calldata⟩

/-- The call that an instruction stands for: it may not fail. -/
def ofInstruction (i : Instruction) : ValueCall := ⟨i.target, false, i.value, i.calldata⟩

/-- The size of a call, at least that of its calldata. -/
theorem length_calldata_le (c : ValueCall) : c.calldata.length ≤ c.encode.length := by
  rw [encode, Abi.length_encode]
  simp only [Abi.Component.address, Abi.Component.bool, Abi.Component.amount, Abi.tails, Abi.bytes,
    List.length_append]
  omega

/-- **A call is read back from its tuple**, with whatever follows it. -/
theorem decode?_encode (c : ValueCall) (rest : Bytes) (h : c.encode.length < 2 ^ 256) :
    decode? (c.encode ++ rest) = some c := by
  let target : Abi.Component := .address c.target
  let mayFail : Abi.Component := .bool c.mayFail
  let value : Abi.Component := .amount c.value
  let calldata : Abi.Component := .dynamic (Abi.bytes c.calldata)
  have htarget : Abi.address? (c.encode ++ rest) 0 = some c.target :=
    Abi.address?_encode [] [mayFail, value, calldata] rest c.target
  have hmayFail : Abi.bool? (c.encode ++ rest) 32 = some c.mayFail :=
    Abi.bool?_encode [target] [value, calldata] rest c.mayFail
  have hvalue : Abi.amount? (c.encode ++ rest) 64 = some c.value :=
    Abi.amount?_encode [target, mayFail] [calldata] rest c.value
  have hcontent : Abi.content? (c.encode ++ rest) 96 = some (Abi.bytes c.calldata ++ rest) :=
    Abi.content?_encode [target, mayFail, value] [] (Abi.bytes c.calldata) rest h
  have hcalldata : Abi.bytes? (Abi.bytes c.calldata ++ rest) = some c.calldata :=
    Abi.bytes?_bytes c.calldata rest (Nat.lt_of_le_of_lt c.length_calldata_le h)
  rw [decode?, htarget, hmayFail, hvalue, hcontent, Option.bind_some, hcalldata]
  rfl

end ValueCall

/-! ## Batches -/

namespace Multicall

/-- The calldata of a list of calls. -/
def aggregate (calls : List ValueCall) : Bytes :=
  Abi.call signature [.dynamic (Abi.dynamicArray (calls.map ValueCall.encode))]

/-- The calls in the calldata of a batch, found by following its offsets. -/
def calls? (data : Bytes) : Option (List ValueCall) :=
  if data.take 4 = Abi.selector signature then
    (Abi.content? (data.drop 4) 0).bind (Abi.dynamicArray? ValueCall.decode?)
  else none

/-- The calls in the calldata of a batch, when these bytes are the calldata of just these calls. -/
def decode? (data : Bytes) : Option (List ValueCall) :=
  (calls? data).filter fun calls => aggregate calls = data

/-- Instructions are written as calls that may not fail. -/
theorem calldata_eq (is : List Instruction) :
    calldata is = aggregate (is.map ValueCall.ofInstruction) := by
  rw [calldata, aggregate, List.map_map]
  rfl

/-- The size of the calldata of a list of calls. -/
theorem length_aggregate (calls : List ValueCall) :
    (aggregate calls).length = 36 + (Abi.dynamicArray (calls.map ValueCall.encode)).length := by
  rw [aggregate, Abi.call, List.length_append, Abi.length_selector, Abi.length_encode, Abi.tails,
    Abi.tails_nil, List.append_nil, List.length_singleton]
  omega

/-- The calls of a batch are read back. -/
theorem calls?_aggregate (calls : List ValueCall) (h : (aggregate calls).length < 2 ^ 256) :
    calls? (aggregate calls) = some calls := by
  have hselector : (aggregate calls).take 4 = Abi.selector signature :=
    List.take_left' (Abi.length_selector signature)
  have hbody : (aggregate calls).drop 4 =
      Abi.encode [.dynamic (Abi.dynamicArray (calls.map ValueCall.encode))] :=
    List.drop_left' (Abi.length_selector signature)
  have hcontent : Abi.content? ((aggregate calls).drop 4) 0 =
      some (Abi.dynamicArray (calls.map ValueCall.encode)) := by
    have hshort : ((aggregate calls).drop 4).length < 2 ^ 256 := by
      rw [List.length_drop]
      omega
    rw [hbody] at hshort ⊢
    have hread := Abi.content?_encode [] [] _ [] hshort
    simp only [List.append_nil, Abi.tails_nil] at hread
    exact hread
  rw [length_aggregate] at h
  have hitem : ∀ c ∈ calls, ∀ later, ValueCall.decode? (c.encode ++ later) = some c := by
    intro c hc later
    have hle := Abi.length_le_dynamicArray (List.mem_map_of_mem (f := ValueCall.encode) hc)
    exact c.decode?_encode later (by omega)
  have harray := Abi.dynamicArray?_dynamicArray calls [] hitem (by omega)
  rw [List.append_nil] at harray
  rw [calls?, if_pos hselector, hcontent, Option.bind_some, harray]

/-- **Reading the calldata of a batch undoes writing it**, and accepts nothing else. -/
theorem decode?_eq_some_iff {data : Bytes} {calls : List ValueCall} (h : data.length < 2 ^ 256) :
    decode? data = some calls ↔ aggregate calls = data := by
  rw [decode?, Option.filter_eq_some_iff, decide_eq_true_iff]
  constructor
  · intro hread
    exact hread.2
  · intro hwritten
    subst hwritten
    exact ⟨calls?_aggregate calls h, rfl⟩

end Multicall

/-- A saturating sum is the sum, or the largest amount. -/
theorem Amount.toNat_sum (xs : List Amount) :
    (sum xs).toNat = min ((xs.map toNat).foldr (· + ·) 0) (2 ^ 256 - 1) := by
  have hfrom : ∀ start : Amount, (xs.foldl addSat start).toNat =
      min (start.toNat + (xs.map toNat).foldr (· + ·) 0) (2 ^ 256 - 1) := by
    induction xs with
    | nil =>
      intro start
      have hstart := start.lt_bound
      rw [List.foldl_nil, List.map_nil, List.foldr_nil]
      omega
    | cons x xs ih =>
      intro start
      rw [List.foldl_cons, ih, toNat_addSat, List.map_cons, List.foldr_cons]
      omega
  rw [sum, hfrom, toNat_zero, Nat.zero_add]

/-- **A batch is its plan.** A strict reading of the calldata of a batch gives the instructions of
the plan, group after group, each with its target, its value and its calldata and none of them
allowed to fail. So plans of the same calldata have the same calls, and the value of the batch is
what the calls carry together, as far as that fits. The calldata must be shorter than an offset can
say, as every string of bytes is that can be held in memory. -/
theorem batch_reads_back (contract : Address) (p : Plan)
    (h : (Multicall.encode contract p).calldata.length < 2 ^ 256) :
    Multicall.decode? (Multicall.encode contract p).calldata =
        some ((p.groups.flatMap (·.instructions)).map ValueCall.ofInstruction) ∧
      (∀ (contract' : Address) (q : Plan),
        (Multicall.encode contract' q).calldata = (Multicall.encode contract p).calldata →
          q.instructions.map (fun i => (i.target, i.value, i.calldata)) =
            p.instructions.map (fun i => (i.target, i.value, i.calldata))) ∧
      (Multicall.encode contract p).value.toNat =
        min ((p.instructions.map (·.value.toNat)).foldr (· + ·) 0) (2 ^ 256 - 1) := by
  have hwritten : ∀ (c : Address) (q : Plan), (Multicall.encode c q).calldata =
      Multicall.aggregate (q.instructions.map ValueCall.ofInstruction) :=
    fun _ q => Multicall.calldata_eq q.instructions
  have hread : Multicall.decode? (Multicall.encode contract p).calldata =
      some (p.instructions.map ValueCall.ofInstruction) :=
    (Multicall.decode?_eq_some_iff h).2 (hwritten contract p).symm
  refine ⟨hread, ?_, ?_⟩
  · intro contract' q hsame
    have hcalls : q.instructions.map ValueCall.ofInstruction =
        p.instructions.map ValueCall.ofInstruction := by
      rw [← hsame] at h hread
      have hother := (Multicall.decode?_eq_some_iff h).2 (hwritten contract' q).symm
      exact Option.some.inj (hother.symm.trans hread)
    have hparts := congrArg (List.map fun c => (c.target, c.value, c.calldata)) hcalls
    rw [List.map_map, List.map_map] at hparts
    exact hparts
  · rw [Multicall.encode, Amount.toNat_sum, List.map_map]
    rfl

namespace Ragged

/-- A call with one byte of calldata that carries all the value there is. -/
def first : Instruction := ⟨.ofNat 1, [0xab], .largest, .claim⟩

/-- A call whose calldata is one byte longer than a word. -/
def second : Instruction := ⟨.ofNat 2, List.replicate 33 0xcd, 7, .swap⟩

/-- A call without calldata. -/
def third : Instruction := ⟨.ofNat 3, [], 0, .claim⟩

/-- A plan whose calls do not fill whole words, in two groups with an empty one between them. -/
def plan : Plan :=
  ⟨.ofNat 9, .claimAll, [⟨0, .ofNat 4, .claim, [first, second]⟩, ⟨1, .ofNat 5, .claim, []⟩,
    ⟨2, .ofNat 6, .claim, [third]⟩]⟩

/-- The batch of the plan holds its three calls, and its value stops at the largest amount. -/
theorem ragged_reads_back :
    (Multicall.encode (.ofNat 8) plan).calldata.length < 2 ^ 256 ∧
      Multicall.decode? (Multicall.encode (.ofNat 8) plan).calldata =
        some ([first, second, third].map ValueCall.ofInstruction) ∧
      (Multicall.encode (.ofNat 8) plan).value = .largest := by
  have hshort : (Multicall.encode (.ofNat 8) plan).calldata.length < 2 ^ 256 := by
    have hcalls : (Abi.dynamicArray
        ((plan.instructions.map ValueCall.ofInstruction).map ValueCall.encode)).length = 704 := by
      decide +kernel
    rw [Multicall.encode, Multicall.calldata_eq, Multicall.length_aggregate, hcalls]
    omega
  obtain ⟨hread, -, -⟩ := batch_reads_back (.ofNat 8) plan hshort
  exact ⟨hshort, hread, rfl⟩

end Ragged

end VaultKeeper
