import Mathlib.Data.Nat.Log
import Mathlib.Order.Monotone.Defs

/-!
# findBlockBeforeTimestamp

The bisection by which a leaderboard finds the last block before the end of its period. The client may answer
anything at every read: the blocks of one chain, of several chains when the node reorganises during the search,
blocks without a hash, or nothing. The loop stands as it is written, so the number of its reads is a fact about the
recursion and not about the answers.
-/

namespace Cpredict

namespace BlockSearch

/-- What the search reads of a block. A pending block has neither number nor hash. -/
structure Block where
  number : Option Nat
  hash : Option Nat
  timestamp : Nat
deriving DecidableEq

inductive SearchErr
  | indexNotReady
  | readFailed (cause : Nat)
deriving DecidableEq

/-- The answers of `client.getBlock`: that of the read with an index, for the block number it asks. -/
abbrev Client := Nat → Nat → Except SearchErr Block

/-- How a search ends, and after how many reads. -/
structure Outcome where
  result : Except SearchErr (Option Block)
  reads : Nat
deriving DecidableEq

/-- The loop, after `reads` reads. -/
def searchLoop (client : Client) (exclusiveTimestamp low high : Nat) (result : Option Block) (reads : Nat) : Outcome :=
  if low ≤ high then
    let middle := low + (high - low) / 2
    match client reads middle with
    | .error e => ⟨.error e, reads + 1⟩
    | .ok block =>
      if block.hash = none ∨ block.number = none then ⟨.error .indexNotReady, reads + 1⟩
      else if block.timestamp < exclusiveTimestamp then searchLoop client exclusiveTimestamp (middle + 1) high
        (some block) (reads + 1)
      else if middle = 0 then ⟨.ok result, reads + 1⟩
      else searchLoop client exclusiveTimestamp low (middle - 1) result (reads + 1)
  else ⟨.ok result, reads⟩
termination_by high + 1 - low

def findBlockBeforeTimestamp (client : Client) (fromBlock toBlock exclusiveTimestamp : Nat) : Outcome :=
  if toBlock < fromBlock then ⟨.ok none, 0⟩ else searchLoop client exclusiveTimestamp fromBlock toBlock none 0

section

variable {client : Client} {t low high : Nat} {result : Option Block} {reads : Nat} {block : Block}

theorem searchLoop_closed (hle : ¬ low ≤ high) : searchLoop client t low high result reads = ⟨.ok result, reads⟩ := by
  rw [searchLoop, if_neg hle]

theorem searchLoop_failed {e : SearchErr} (hle : low ≤ high) (he : client reads (low + (high - low) / 2) = .error e) :
    searchLoop client t low high result reads = ⟨.error e, reads + 1⟩ := by
  rw [searchLoop, if_pos hle]
  simp only [he]

theorem searchLoop_pending (hle : low ≤ high) (hb : client reads (low + (high - low) / 2) = .ok block)
    (hnone : block.hash = none ∨ block.number = none) :
    searchLoop client t low high result reads = ⟨.error .indexNotReady, reads + 1⟩ := by
  rw [searchLoop, if_pos hle]
  simp only [hb, if_pos hnone]

theorem searchLoop_below (hle : low ≤ high) (hb : client reads (low + (high - low) / 2) = .ok block)
    (hsome : ¬ (block.hash = none ∨ block.number = none)) (hlt : block.timestamp < t) :
    searchLoop client t low high result reads =
      searchLoop client t (low + (high - low) / 2 + 1) high (some block) (reads + 1) := by
  rw [searchLoop, if_pos hle]
  simp only [hb, if_neg hsome, if_pos hlt]

theorem searchLoop_zero (hle : low ≤ high) (hb : client reads (low + (high - low) / 2) = .ok block)
    (hsome : ¬ (block.hash = none ∨ block.number = none)) (hlt : ¬ block.timestamp < t)
    (hzero : low + (high - low) / 2 = 0) :
    searchLoop client t low high result reads = ⟨.ok result, reads + 1⟩ := by
  rw [searchLoop, if_pos hle]
  simp only [hb, if_neg hsome, if_neg hlt, if_pos hzero]

theorem searchLoop_above (hle : low ≤ high) (hb : client reads (low + (high - low) / 2) = .ok block)
    (hsome : ¬ (block.hash = none ∨ block.number = none)) (hlt : ¬ block.timestamp < t)
    (hzero : low + (high - low) / 2 ≠ 0) :
    searchLoop client t low high result reads = searchLoop client t low (low + (high - low) / 2 - 1) result
      (reads + 1) := by
  rw [searchLoop, if_pos hle]
  simp only [hb, if_neg hsome, if_neg hlt, if_neg hzero]

end

/-! ## The number of reads -/

/-- Both halves that a read leaves have at most half the blocks. -/
theorem log_half {n m : Nat} (h : m ≤ n / 2) (hm : m ≠ 0) : Nat.log 2 m + 1 ≤ Nat.log 2 n := by
  have hlog : Nat.log 2 (n / 2) = Nat.log 2 n - 1 := Nat.log_div_base 2 n
  have hle : Nat.log 2 m ≤ Nat.log 2 (n / 2) := Nat.log_mono_right h
  have hpos : 0 < Nat.log 2 n := Nat.log_pos (by omega) (by omega)
  omega

/-- The reads that a loop over `n` blocks may make. -/
def readBound (n : Nat) : Nat := if n = 0 then 0 else Nat.log 2 n + 1

theorem readBound_half {n m : Nat} (hn : n ≠ 0) (h : m ≤ n / 2) : readBound m + 1 ≤ readBound n := by
  unfold readBound
  rw [if_neg hn]
  split
  · omega
  · rename_i hm
    have := log_half h hm
    omega

theorem searchLoop_reads (client : Client) (t low high : Nat) (result : Option Block) (reads : Nat) :
    (searchLoop client t low high result reads).reads ≤ reads + readBound (high + 1 - low) := by
  induction low, high, result, reads using searchLoop.induct client t with
  | case1 low high result reads hle middle e he =>
    have := readBound_half (n := high + 1 - low) (m := 0) (by omega) (by omega)
    rw [searchLoop_failed hle he]
    simp only
    omega
  | case2 low high result reads hle middle block hb hnone =>
    have := readBound_half (n := high + 1 - low) (m := 0) (by omega) (by omega)
    rw [searchLoop_pending hle hb hnone]
    simp only
    omega
  | case3 low high result reads hle middle block hb hsome hlt ih =>
    have := readBound_half (n := high + 1 - low) (m := high + 1 - (middle + 1)) (by omega) (by omega)
    rw [searchLoop_below hle hb hsome hlt]
    exact Nat.le_trans ih (by omega)
  | case4 low high result reads hle middle block hb hsome hlt hzero =>
    have := readBound_half (n := high + 1 - low) (m := 0) (by omega) (by omega)
    rw [searchLoop_zero hle hb hsome hlt hzero]
    simp only
    omega
  | case5 low high result reads hle middle block hb hsome hlt hzero ih =>
    have := readBound_half (n := high + 1 - low) (m := middle - 1 + 1 - low) (by omega) (by omega)
    rw [searchLoop_above hle hb hsome hlt hzero]
    exact Nat.le_trans ih (by omega)
  | case6 low high result reads hle =>
    rw [searchLoop_closed hle]
    simp

/-! ## What the search returns -/

/-- The block was the answer to one of the first `reads` reads, which asked for a block of the range, and it is
below the bound. -/
structure Given (client : Client) (t fromBlock toBlock reads : Nat) (block : Block) : Prop where
  below : block.timestamp < t
  answer : ∃ n < reads, ∃ b, fromBlock ≤ b ∧ b ≤ toBlock ∧ client n b = .ok block

theorem Given.mono {client : Client} {t fromBlock toBlock n m : Nat} {block : Block}
    (h : Given client t fromBlock toBlock n block)
    (hle : n ≤ m) : Given client t fromBlock toBlock m block := by
  obtain ⟨k, hk, b, hb⟩ := h.answer
  exact ⟨h.below, k, by omega, b, hb⟩

/-- The loop returns what it was given, whatever the client answers. -/
theorem searchLoop_given (client : Client) (t fromBlock toBlock low high : Nat) (result : Option Block) (reads : Nat)
    (hlow : fromBlock ≤ low) (hhigh : high ≤ toBlock) (hr : ∀ block, result = some block →
      Given client t fromBlock toBlock reads block) :
    ∀ block, (searchLoop client t low high result reads).result = .ok (some block) →
      Given client t fromBlock toBlock (searchLoop client t low high result reads).reads block := by
  intro block
  induction low, high, result, reads using searchLoop.induct client t with
  | case1 low high result reads hle middle e he =>
    rw [searchLoop_failed hle he]
    simp
  | case2 low high result reads hle middle b hb hnone =>
    rw [searchLoop_pending hle hb hnone]
    simp
  | case3 low high result reads hle middle b hb hsome hlt ih =>
    rw [searchLoop_below hle hb hsome hlt]
    refine ih (by omega) hhigh ?_
    rintro block' ⟨⟩
    exact ⟨hlt, reads, by omega, middle, by omega, by omega, hb⟩
  | case4 low high result reads hle middle b hb hsome hlt hzero =>
    rw [searchLoop_zero hle hb hsome hlt hzero]
    intro h
    exact (hr block (Except.ok.inj h)).mono (Nat.le_succ reads)
  | case5 low high result reads hle middle b hb hsome hlt hzero ih =>
    rw [searchLoop_above hle hb hsome hlt hzero]
    exact ih hlow (by omega) fun block' h => (hr block' h).mono (by omega)
  | case6 low high result reads hle =>
    rw [searchLoop_closed hle]
    intro h
    exact hr block (Except.ok.inj h)

/-! ## On one chain -/

/-- The chain that answers every read: complete blocks under their numbers, with timestamps that do not decrease in
the range. -/
structure Chain (chain : Nat → Block) (fromBlock toBlock : Nat) : Prop where
  mined : ∀ b, fromBlock ≤ b → b ≤ toBlock → (chain b).hash ≠ none ∧ (chain b).number = some b
  mono : ∀ a b, fromBlock ≤ a → a ≤ b → b ≤ toBlock → (chain a).timestamp ≤ (chain b).timestamp

/-- The client reads the range off the chain. -/
def Reads (client : Client) (chain : Nat → Block) (fromBlock toBlock : Nat) : Prop :=
  ∀ n b, fromBlock ≤ b → b ≤ toBlock → client n b = .ok (chain b)

/-- The greatest block of the range below the bound, or none when there is none. -/
def Last (chain : Nat → Block) (t fromBlock toBlock : Nat) : Option Block → Prop
  | some block => ∃ b, fromBlock ≤ b ∧ b ≤ toBlock ∧ block = chain b ∧ (chain b).timestamp < t ∧
      ∀ c, b < c → c ≤ toBlock → ¬ (chain c).timestamp < t
  | none => ∀ b, fromBlock ≤ b → b ≤ toBlock → ¬ (chain b).timestamp < t

/-- What the loop knows: the blocks before `low` are below the bound, the result is the last of them, and the blocks
after `high` are not below it. -/
structure Bracket (chain : Nat → Block) (t fromBlock toBlock low high : Nat) (result : Option Block) : Prop where
  floor : fromBlock ≤ low
  ceiling : high ≤ toBlock
  meet : low ≤ high + 1
  found : result = if low = fromBlock then none else some (chain (low - 1))
  below : ∀ b, fromBlock ≤ b → b < low → (chain b).timestamp < t
  above : ∀ b, high < b → b ≤ toBlock → ¬ (chain b).timestamp < t

/-- Where the bracket has closed, its result is the last block below the bound. -/
theorem Bracket.last {chain : Nat → Block} {t fromBlock toBlock low high : Nat} {result : Option Block}
    (h : Bracket chain t fromBlock toBlock low high result) (hclosed : ∀ b, low ≤ b → b ≤ high →
      ¬ (chain b).timestamp < t) :
    Last chain t fromBlock toBlock result := by
  have habove : ∀ b, low ≤ b → b ≤ toBlock → ¬ (chain b).timestamp < t := by
    intro b hlow hto
    by_cases hb : b ≤ high
    · exact hclosed b hlow hb
    · exact h.above b (by omega) hto
  have hlow := h.floor
  rw [h.found]
  split
  · rename_i heq
    intro b hb hto
    exact habove b (by omega) hto
  · rename_i hne
    have hhigh := h.ceiling
    have hmeet := h.meet
    exact ⟨low - 1, by omega, by omega, rfl, h.below _ (by omega) (by omega), fun c hc hto => habove c (by omega) hto⟩

theorem searchLoop_last {client : Client} {chain : Nat → Block} {t fromBlock toBlock : Nat}
    (hchain : Chain chain fromBlock toBlock)
    (hreads : Reads client chain fromBlock toBlock) (low high : Nat) (result : Option Block) (reads : Nat)
    (hb : Bracket chain t fromBlock toBlock low high result) :
    ∃ found, (searchLoop client t low high result reads).result = .ok found ∧ Last chain t fromBlock toBlock found := by
  induction low, high, result, reads using searchLoop.induct client t with
  | case1 low high result reads hle middle e he =>
    have := hreads reads middle (by have := hb.floor; omega) (by have := hb.ceiling; omega)
    rw [he] at this
    cases this
  | case2 low high result reads hle middle block he hnone =>
    have hin : fromBlock ≤ middle ∧ middle ≤ toBlock := by
      have := hb.floor
      have := hb.ceiling
      omega
    have hmined := hchain.mined middle hin.1 hin.2
    rw [hreads reads middle hin.1 hin.2] at he
    cases he
    simp [hmined] at hnone
  | case3 low high result reads hle middle block he hsome hlt ih =>
    have hin : fromBlock ≤ middle ∧ middle ≤ toBlock := by
      have := hb.floor
      have := hb.ceiling
      omega
    rw [searchLoop_below hle he hsome hlt]
    have hread := hreads reads middle hin.1 hin.2
    rw [he] at hread
    cases hread
    -- the blocks up to the middle are below the bound, since the middle is
    refine ih ⟨by omega, hb.ceiling, by omega, ?_, fun b hf hb' => ?_, hb.above⟩
    · rw [if_neg (by omega)]
      rfl
    · have := hchain.mono b middle hf (by omega) hin.2
      omega
  | case4 low high result reads hle middle block he hsome hlt hzero =>
    have hin : fromBlock ≤ middle ∧ middle ≤ toBlock := by
      have := hb.floor
      have := hb.ceiling
      omega
    rw [searchLoop_zero hle he hsome hlt hzero]
    have hread := hreads reads middle hin.1 hin.2
    rw [he] at hread
    cases hread
    refine ⟨result, rfl, hb.last fun b hlow hhigh => ?_⟩
    have := hchain.mono middle b hin.1 (by omega) (by have := hb.ceiling; omega)
    omega
  | case5 low high result reads hle middle block he hsome hlt hzero ih =>
    have hin : fromBlock ≤ middle ∧ middle ≤ toBlock := by
      have := hb.floor
      have := hb.ceiling
      omega
    rw [searchLoop_above hle he hsome hlt hzero]
    have hread := hreads reads middle hin.1 hin.2
    rw [he] at hread
    cases hread
    refine ih ⟨hb.floor, by omega, by omega, hb.found, hb.below, fun b hmid hto => ?_⟩
    have := hchain.mono middle b hin.1 (by omega) hto
    omega
  | case6 low high result reads hle =>
    rw [searchLoop_closed hle]
    exact ⟨result, rfl, hb.last fun b hlow hhigh => absurd (Nat.le_trans hlow hhigh) hle⟩

/-! ## The search -/

/-- **The block before a timestamp.** On a chain whose timestamps do not decrease the search finds the greatest
block of the range below the bound, or none where there is none. Whatever the client answers, it ends after at most
one read more than the logarithm of the number of blocks, and returns only a block below the bound that it was
given. -/
theorem findBlockBeforeTimestamp_spec (client : Client) (fromBlock toBlock t : Nat) (hle : fromBlock ≤ toBlock) :
    (∀ chain, Chain chain fromBlock toBlock → Reads client chain fromBlock toBlock →
      ∃ found, (findBlockBeforeTimestamp client fromBlock toBlock t).result = .ok found ∧
        Last chain t fromBlock toBlock found) ∧
    (findBlockBeforeTimestamp client fromBlock toBlock t).reads ≤ Nat.log 2 (toBlock - fromBlock + 1) + 1 ∧
    ∀ block, (findBlockBeforeTimestamp client fromBlock toBlock t).result = .ok (some block) →
      Given client t fromBlock toBlock (findBlockBeforeTimestamp client fromBlock toBlock t).reads block := by
  have hfind : findBlockBeforeTimestamp client fromBlock toBlock t = searchLoop client t fromBlock toBlock none 0 := by
    rw [findBlockBeforeTimestamp, if_neg (by omega)]
  rw [hfind]
  refine ⟨fun chain hchain hreads => ?_, ?_, ?_⟩
  · refine searchLoop_last hchain hreads fromBlock toBlock none 0 ⟨le_refl _, le_refl _, by omega, by simp, ?_, ?_⟩
    · intro b hf hb
      omega
    · intro b hb hto
      omega
  · have h := searchLoop_reads client t fromBlock toBlock none 0
    have hn : toBlock + 1 - fromBlock = toBlock - fromBlock + 1 := by omega
    rw [hn, readBound, if_neg (by omega)] at h
    omega
  · exact searchLoop_given client t fromBlock toBlock fromBlock toBlock none 0 (le_refl _) (le_refl _) (by simp)

/-- Four blocks from 7 on, the middle two of them in the same second. -/
def plateau (b : Nat) : Block := ⟨some b, some b, if b ≤ 7 then 10 else if b ≤ 9 then 20 else 30⟩

theorem findBlockBeforeTimestamp_plateau :
    Chain plateau 7 10 ∧ ∃ found, (findBlockBeforeTimestamp (fun _ b => .ok (plateau b)) 7 10 30).result = .ok found ∧
      Last plateau 30 7 10 found := by
  have hchain : Chain plateau 7 10 := by
    refine ⟨by simp [plateau], fun a b _ hab _ => ?_⟩
    simp only [plateau]
    grind
  exact ⟨hchain, (findBlockBeforeTimestamp_spec (fun _ b => .ok (plateau b)) 7 10 30 (by decide)).1 plateau hchain
    fun _ _ _ _ => rfl⟩

end BlockSearch

end Cpredict
