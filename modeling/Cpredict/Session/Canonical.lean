import Cpredict.Session.Policy

/-!
# The layout of a batch

What the Kernel executes is laid out in one way only (`encodeBatch`): a single call is packed, two to four calls are
an ABI array. The policy accepts a batch that encodes to itself, hence no other layout (`decode_encodes`), and it
accepts every batch of calls without value (`decode_encodeBatch`). What it checks is therefore what the account
executes (`decode_canonical`), for the policy (`checkUserOpPolicy_encodes`) as for the hook (`preCheck_encodes`).
`_decode` of TradingSessionPolicyV1 is the same text.

The decoder follows offsets that the calldata gives. On what `encodeCalls` wrote, the head of the element `k` leads
to the element `k` (`callsAt_heads`), by induction on the calls that are still to be read.
-/

namespace Cpredict

theorem Address.toNat_lt (a : Address) : a.toNat < 2 ^ 160 := a.word.isLt

@[simp] theorem addr_toNat (a : Address) : addr a.toNat = a := by
  cases a with
  | mk word => simp [Address.toNat, addr]

theorem Address.toNat_addr {n : Nat} (h : n < 2 ^ 160) : (addr n).toNat = n := Nat.mod_eq_of_lt h

namespace Session

open Outcome Abi

/-! ## What the account executes -/

/-- `abi.encodePacked(target, value, data)` -/
def encodeSingle (c : Call) : Bytes := beBytes 20 c.target.toNat ++ (word c.value ++ c.data)

/-- The mode in which a list of calls is executed. -/
def modeOf (cs : List Call) : Nat := if cs.length = 1 then SINGLE else BATCH

/-- The payload of a list of calls in its mode. -/
def encodePayload : List Call → Bytes
  | [c] => encodeSingle c
  | cs => encodeCalls cs

/-- The calldata of `execute(bytes32,bytes)` that has the account make these calls. -/
def encodeBatch (cs : List Call) : Bytes := encodeExecute (modeOf cs) (encodePayload cs)

section

variable {cs : List Call}

theorem modeOf_batch (h : 2 ≤ cs.length) : modeOf cs = BATCH := if_neg (by omega)

theorem encodePayload_batch (h : 2 ≤ cs.length) : encodePayload cs = encodeCalls cs := by
  cases cs with
  | nil => rfl
  | cons c cs =>
    cases cs with
    | nil => simp at h
    | cons d cs => rfl

theorem modeOf_lt (cs : List Call) : modeOf cs < 2 ^ 256 := by
  unfold modeOf
  split <;> norm_num [SINGLE, BATCH]

end

/-! ## From calldata to the calls -/

section

variable {data payload : Bytes} {mode : Nat} {calls : List Call}

/-- Twenty bytes, a word and the rest are packed in one way. -/
theorem encodeSingle_of_payload (h : 52 ≤ payload.length) :
    encodeSingle ⟨addr (ofBytes (payload.take 20)), ofBytes ((payload.drop 20).take 32), payload.drop 52⟩ =
      payload := by
  have htarget : (payload.take 20).length = 20 := by
    rw [List.length_take]
    omega
  have hvalue : ((payload.drop 20).take 32).length = 32 := by
    rw [List.length_take, List.length_drop]
    omega
  have hlt : ofBytes (payload.take 20) < 2 ^ 160 := by
    have := ofBytes_lt (payload.take 20)
    rw [htarget] at this
    exact this.trans_eq (by norm_num)
  have hword : word (ofBytes ((payload.drop 20).take 32)) = (payload.drop 20).take 32 := by
    have := beBytes_ofBytes ((payload.drop 20).take 32)
    rwa [hvalue] at this
  have haddress : beBytes 20 (ofBytes (payload.take 20)) = payload.take 20 := by
    have := beBytes_ofBytes (payload.take 20)
    rwa [htarget] at this
  have hdrop : payload.drop 52 = (payload.drop 20).drop 32 := by rw [List.drop_drop]
  unfold encodeSingle
  rw [Address.toNat_addr hlt, haddress, hword, hdrop, List.take_append_drop, List.take_append_drop]

theorem decodePayload_encodes (h : decodePayload mode payload = .ok calls) :
    modeOf calls = mode ∧ encodePayload calls = payload ∧ 1 ≤ calls.length ∧ calls.length ≤ 4 := by
  unfold decodePayload at h
  split at h
  next hmode =>
    simp only [bind_eq_ok, revertIf_eq_ok] at h
    obtain ⟨-, hlen, h⟩ := h
    cases h
    exact ⟨hmode.symm, encodeSingle_of_payload (by omega), by simp, by simp⟩
  next =>
    split at h
    next hmode =>
      simp only [bind_eq_ok, revertIf_eq_ok] at h
      obtain ⟨cs, -, ⟨⟩, hcs, h⟩ := h
      cases h
      obtain ⟨htwo, hfour, hsame⟩ : 2 ≤ calls.length ∧ calls.length ≤ 4 ∧ payload = encodeCalls calls := by
        rw [not_or, not_or, not_lt, not_lt, not_not] at hcs
        exact hcs
      exact ⟨(modeOf_batch htwo).trans hmode.symm, (encodePayload_batch htwo).trans hsame.symm,
        Nat.le_of_lt htwo, hfour⟩
    next => cases h

/-- Calldata that is accepted is the encoding of the calls that are checked, and these move no native value. -/
theorem decode_encodes (h : decode data = .ok calls) :
    encodeBatch calls = data ∧ (∀ c ∈ calls, c.value = 0) ∧ 1 ≤ calls.length ∧ calls.length ≤ 4 := by
  unfold decode at h
  simp only [bind_eq_ok, revertIf_eq_ok] at h
  obtain ⟨-, -, ⟨mode, payload⟩, -, ⟨⟩, hsame, cs, hcs, ⟨⟩, hzero, h⟩ := h
  cases h
  obtain ⟨hmode, hpayload, hone, hfour⟩ := decodePayload_encodes hcs
  refine ⟨?_, ?_, hone, hfour⟩
  · unfold encodeBatch
    rw [hmode, hpayload]
    exact (not_not.mp hsame).symm
  · push Not at hzero
    exact hzero

end

/-! ## From the calls to calldata -/

section

variable {b rest : Bytes} {i : Nat}

theorem length_encodeTuple (c : Call) : (encodeTuple c).length = 96 + (dynamic c.data).length := by
  simp only [encodeTuple, List.length_append, length_word]
  omega

theorem length_dynamic (x : Bytes) : x.length + 32 ≤ (dynamic x).length := by
  simp only [dynamic, List.length_append, length_word]
  omega

/-- The tuple of a call reads back. -/
theorem callAt_of_drop {c : Call} (h : b.drop i = encodeTuple c ++ rest) (hv : c.value < 2 ^ 256)
    (hb : b.length < 2 ^ 64) :
    callAt b i = some c := by
  have hne : encodeTuple c ≠ [] := List.ne_nil_of_length_pos (by rw [length_encodeTuple]; omega)
  have hlen := length_of_drop h hne
  have hdata := length_dynamic c.data
  rw [length_encodeTuple] at hlen
  simp only [encodeTuple, List.append_assoc] at h
  have htarget := wordAt_of_drop h (c.target.toNat_lt.trans (by norm_num))
  have h₁ : b.drop (i + 32) = word c.value ++ (word 96 ++ (dynamic c.data ++ rest)) :=
    drop_of_drop h (by rw [length_word])
  have hvalue := wordAt_of_drop h₁ hv
  have h₂ : b.drop (i + 64) = word 96 ++ (dynamic c.data ++ rest) := drop_of_drop h₁ (by rw [length_word])
  have hoffset := offsetAt_of_drop h₂ (by norm_num)
  have h₃ : b.drop (i + 96) = dynamic c.data ++ rest := drop_of_drop h₂ (by rw [length_word])
  have hbytes := bytesAt_of_drop h₃ (by omega)
  have hhead : i + 96 ≤ b.length := by omega
  have hsmall : c.target.toNat < 1461501637330902918203684832716283019655932542976 := c.target.toNat_lt
  simp [callAt, hhead, htarget, hsmall, hvalue, hoffset, hbytes]

/-- Heads that start at `a` lead to the elements, which start at `base + a`. -/
theorem callsAt_heads {base : Nat} (hb : b.length < 2 ^ 64) {cs : List Call} (hv : ∀ c ∈ cs, c.value < 2 ^ 256)
    {a i : Nat}
    {r₁ r₂ : Bytes} (hheads : b.drop i = heads a cs ++ r₁) (htail : b.drop (base + a) = cs.flatMap encodeTuple ++ r₂) :
    callsAt b base cs.length i = some cs := by
  induction cs generalizing a i with
  | nil => rfl
  | cons c cs ih =>
    rw [heads, List.append_assoc] at hheads
    rw [List.flatMap_cons, List.append_assoc] at htail
    have hne : encodeTuple c ≠ [] := List.ne_nil_of_length_pos (by rw [length_encodeTuple]; omega)
    have hlen := length_of_drop htail hne
    have hoffset := offsetAt_of_drop hheads (by omega)
    have hcall := callAt_of_drop htail (hv c List.mem_cons_self) hb
    have hrest := ih (fun d hd => hv d (List.mem_cons_of_mem _ hd)) (i := i + 32) (a := a + (encodeTuple c).length)
      (drop_of_drop hheads (by rw [length_word])) (drop_of_drop htail (by rw [Nat.add_assoc]))
    simp [callsAt, hoffset, hcall, hrest]

theorem length_heads (acc : Nat) (cs : List Call) : (heads acc cs).length = 32 * cs.length := by
  induction cs generalizing acc with
  | nil => rfl
  | cons c cs ih =>
    rw [heads, List.length_append, length_word, ih, List.length_cons]
    omega

/-- An array of calls reads back. -/
theorem decodeCalls_encodeCalls {cs : List Call} (hv : ∀ c ∈ cs, c.value < 2 ^ 256)
    (hb : (encodeCalls cs).length < 2 ^ 64) :
    decodeCalls (encodeCalls cs) = some cs := by
  have hlen : (encodeCalls cs).length = 64 + 32 * cs.length + (cs.flatMap encodeTuple).length := by
    rw [encodeCalls, List.length_append, List.length_append, List.length_append, length_word, length_word, length_heads]
    omega
  have h₀ : (encodeCalls cs).drop 0 = word 32 ++
    (word cs.length ++ (heads (32 * cs.length) cs ++ cs.flatMap encodeTuple)) := rfl
  have h₁ : (encodeCalls cs).drop 32 = word cs.length ++ (heads (32 * cs.length) cs ++ cs.flatMap encodeTuple) :=
    drop_of_drop h₀ (by rw [length_word])
  have h₂ : (encodeCalls cs).drop 64 = heads (32 * cs.length) cs ++ cs.flatMap encodeTuple :=
    drop_of_drop h₁ (by rw [length_word])
  have h₃ : (encodeCalls cs).drop (64 + 32 * cs.length) = cs.flatMap encodeTuple ++ [] := by
    rw [List.append_nil]
    exact drop_of_drop h₂ (by rw [length_heads])
  have hoffset := offsetAt_of_drop h₀ (by norm_num)
  have hcount := offsetAt_of_drop h₁ (by omega)
  have hcalls := callsAt_heads hb hv h₂ h₃
  have hwhole : 32 ≤ (encodeCalls cs).length := by omega
  have hfits : 32 + 32 + 32 * cs.length ≤ (encodeCalls cs).length := by omega
  simp [decodeCalls, hwhole, hoffset, hcount, hfits, hcalls]

/-- A packed call reads back. -/
theorem decodePayload_single {c : Call} (hv : c.value < 2 ^ 256) : decodePayload SINGLE (encodeSingle c) = .ok [c] := by
  have htarget : (beBytes 20 c.target.toNat).length = 20 := length_beBytes 20 _
  have hlen : (encodeSingle c).length = 52 + c.data.length := by
    rw [encodeSingle, List.length_append, List.length_append, htarget, length_word]
    omega
  have htake : (encodeSingle c).take 20 = beBytes 20 c.target.toNat := List.take_left' htarget
  have hdrop : (encodeSingle c).drop 20 = word c.value ++ c.data := List.drop_left' htarget
  have hdata : (encodeSingle c).drop 52 = c.data := drop_of_drop hdrop (by rw [length_word])
  have hnumber : ofBytes (beBytes 20 c.target.toNat) = c.target.toNat := by
    rw [ofBytes_beBytes, Nat.mod_eq_of_lt (c.target.toNat_lt.trans_eq (by norm_num))]
  unfold decodePayload
  rw [if_pos rfl, revertIf_neg _ (by omega), ok_bind, htake, hdrop, hdata, List.take_left' (length_word _),
    ofBytes_word hv,
    hnumber, addr_toNat]

theorem decodePayload_encodePayload {cs : List Call} (hone : 1 ≤ cs.length) (hfour : cs.length ≤ 4)
    (hv : ∀ c ∈ cs, c.value < 2 ^ 256) (hb : (encodePayload cs).length < 2 ^ 64) :
    decodePayload (modeOf cs) (encodePayload cs) = .ok cs := by
  rcases Nat.lt_or_ge 1 cs.length with htwo | hle
  · rw [encodePayload_batch htwo] at hb ⊢
    have hread := decodeCalls_encodeCalls hv hb
    have hlen : ¬(cs.length < 2 ∨ 4 < cs.length ∨ encodeCalls cs ≠ encodeCalls cs) := by
      simp only [ne_eq, not_true_eq_false, or_false]
      omega
    have hbatch : BATCH ≠ SINGLE := by norm_num [BATCH, SINGLE]
    unfold decodePayload
    rw [modeOf_batch htwo, if_neg hbatch, if_pos rfl, hread, Option.elim_some, ok_bind, revertIf_neg _ hlen, ok_bind]
  · obtain ⟨c, rfl⟩ := List.length_eq_one_iff.mp (le_antisymm hle hone)
    exact decodePayload_single (hv c List.mem_cons_self)

/-- The arguments of `execute` read back. -/
theorem decodeExecute_encodeExecute {mode : Nat} {payload : Bytes} (hm : mode < 2 ^ 256)
    (hb : (encodeExecute mode payload).length < 2 ^ 64) :
    decodeExecute ((encodeExecute mode payload).drop 4) = some (mode, payload) := by
  have hargs : (encodeExecute mode payload).drop 4 = word mode ++ (word 64 ++ dynamic payload) := List.drop_left' rfl
  have hlen : 64 + (dynamic payload).length < 2 ^ 64 := by
    rw [encodeExecute, List.length_append, List.length_append, List.length_append, length_word, length_word] at hb
    omega
  have hdyn := length_dynamic payload
  rw [hargs]
  generalize hbuf : word mode ++ (word 64 ++ dynamic payload) = buf
  have h₀ : buf.drop 0 = word mode ++ (word 64 ++ dynamic payload) := hbuf.symm
  have h₁ : buf.drop 32 = word 64 ++ dynamic payload := by
    rw [← hbuf, List.drop_left' (length_word _)]
  have h₂ : buf.drop 64 = dynamic payload ++ [] := by
    rw [List.append_nil]
    exact drop_of_drop h₁ (by rw [length_word])
  have hmode := wordAt_of_drop h₀ hm
  have hoffset := offsetAt_of_drop h₁ (by norm_num)
  have hbytes := bytesAt_of_drop h₂ (by omega)
  have hwhole : 64 ≤ buf.length := by
    rw [← hbuf, List.length_append, List.length_append, length_word, length_word]
    omega
  simp [decodeExecute, hwhole, hmode, hoffset, hbytes]

/-- The calldata of one to four calls without value is accepted, and decodes to these calls. -/
theorem decode_encodeBatch {cs : List Call} (hone : 1 ≤ cs.length) (hfour : cs.length ≤ 4)
    (hzero : ∀ c ∈ cs, c.value = 0)
    (hb : (encodeBatch cs).length < 2 ^ 64) : decode (encodeBatch cs) = .ok cs := by
  have hv : ∀ c ∈ cs, c.value < 2 ^ 256 := by
    intro c hc
    rw [hzero c hc]
    norm_num
  have hpayload : (encodePayload cs).length < 2 ^ 64 := by
    have hdyn := length_dynamic (encodePayload cs)
    unfold encodeBatch encodeExecute at hb
    rw [List.length_append, List.length_append, List.length_append, length_word, length_word] at hb
    omega
  have hstart : ¬((encodeBatch cs).length < 4 ∨ (encodeBatch cs).take 4 ≠ EXECUTE) := by
    have htake : (encodeBatch cs).take 4 = EXECUTE := List.take_left' rfl
    have hlong : 4 ≤ (encodeBatch cs).length := by
      unfold encodeBatch encodeExecute
      rw [List.length_append]
      exact Nat.le_add_right 4 _
    rw [not_or, not_not]
    exact ⟨Nat.not_lt.mpr hlong, htake⟩
  have hread := decodeExecute_encodeExecute (modeOf_lt cs) hb
  have hsame : ¬encodeExecute (modeOf cs) (encodePayload cs) ≠ encodeExecute (modeOf cs) (encodePayload cs) :=
    not_not.mpr rfl
  have hnone : ¬∃ c ∈ cs, c.value ≠ 0 := by
    push Not
    exact hzero
  unfold decode
  rw [revertIf_neg _ hstart, ok_bind]
  unfold encodeBatch at hread ⊢
  rw [hread, Option.elim_some, ok_bind]
  dsimp only
  rw [revertIf_neg _ hsame, ok_bind, decodePayload_encodePayload hone hfour hv hpayload, ok_bind,
    revertIf_neg _ hnone, ok_bind]

end

/-! ## The size of a batch -/

theorem length_dynamic_le (x : Bytes) : (dynamic x).length ≤ x.length + 64 := by
  unfold dynamic padding
  rw [List.length_append, List.length_append, length_word, List.length_replicate]
  omega

theorem length_tuples_le {bound : Nat} {cs : List Call} (h : ∀ c ∈ cs, c.data.length ≤ bound) :
    (cs.flatMap encodeTuple).length ≤ cs.length * (bound + 160) := by
  rw [List.length_flatMap]
  have hsum := List.sum_le_card_nsmul (cs.map fun c => (encodeTuple c).length) (bound + 160) ?_
  · rwa [List.length_map, smul_eq_mul] at hsum
  · intro n hn
    obtain ⟨c, hc, rfl⟩ := List.mem_map.mp hn
    have hdyn := length_dynamic_le c.data
    have hdata := h c hc
    rw [length_encodeTuple]
    omega

/-- The calldata of a batch of short calls is short. -/
theorem length_encodeBatch_le {bound : Nat} {cs : List Call} (hone : 1 ≤ cs.length)
    (h : ∀ c ∈ cs, c.data.length ≤ bound) : (encodeBatch cs).length ≤ 256 + cs.length * (bound + 192) := by
  have hpayload : (encodePayload cs).length ≤ 124 + cs.length * (bound + 192) := by
    rcases Nat.eq_or_lt_of_le hone with hsingle | hbatch
    · obtain ⟨c, rfl⟩ := List.length_eq_one_iff.mp hsingle.symm
      have hdata := h c List.mem_cons_self
      show (encodeSingle c).length ≤ _
      unfold encodeSingle
      rw [List.length_append, List.length_append, length_beBytes, length_word, List.length_singleton]
      omega
    · have htuples := length_tuples_le h
      rw [encodePayload_batch hbatch, encodeCalls, List.length_append, List.length_append, List.length_append,
        length_word, length_word, length_heads]
      rw [Nat.mul_add] at htuples ⊢
      omega
  have hdyn := length_dynamic_le (encodePayload cs)
  have hselector : EXECUTE.length = 4 := rfl
  unfold encodeBatch encodeExecute
  rw [List.length_append, List.length_append, List.length_append, length_word, length_word, hselector]
  omega

/-! ## What is checked is what is executed -/

/-- The policy accepts a user operation whose calldata is one batch, and charges what the check of its calls returns. -/
theorem checkUserOpPolicy_encodes {P : Policy} {X : Chain} {S S' : Sessions} {caller : Address}
    {id id' : Bytes32} {op : UserOp}
    {amount v : Nat} (h : checkUserOpPolicy P X S caller id op = .ok (S', .accepted id' amount v)) :
    ∃ calls, op.callData = EXECUTE_USER_OP ++ encodeBatch calls ∧ (∀ c ∈ calls, c.value = 0) ∧
      check P X false caller calls = .ok amount := by
  unfold checkUserOpPolicy at h
  simp only [bind_eq_ok, revertIf_eq_ok] at h
  obtain ⟨-, -, -, -, -, hop, calls, hcalls, a, ha, -, -, -, -, h⟩ := h
  cases h
  obtain ⟨hsame, hzero, -, -⟩ := decode_encodes hcalls
  refine ⟨calls, ?_, hzero, ha⟩
  rw [not_or, not_not] at hop
  rw [hsame, ← hop.2, List.take_append_drop]

/-- The hook lets through the batch that it has checked. -/
theorem preCheck_encodes {P : Policy} {X : Chain} {account : Address} {value : Nat} {data : Bytes}
    (h : preCheck P X account value data = .ok ()) :
    ∃ calls amount, data = encodeBatch calls ∧ value = 0 ∧ (∀ c ∈ calls, c.value = 0) ∧
      check P X true account calls = .ok amount := by
  unfold preCheck at h
  simp only [bind_eq_ok, revertIf_eq_ok] at h
  obtain ⟨-, hvalue, calls, hcalls, amount, hamount, -⟩ := h
  obtain ⟨hsame, hzero, -, -⟩ := decode_encodes hcalls
  exact ⟨calls, amount, hsame.symm, not_not.mp hvalue, hzero, hamount⟩

/-- Accepted calldata is the encoding of the calls it decodes to, which move no value and are one to four; no two
batches decode to the same calls; and the encoding of one to four calls without value is accepted and decodes to
them. Calldata has less than `2 ^ 64` bytes. -/
theorem decode_canonical :
    (∀ data calls, decode data = .ok calls →
      encodeBatch calls = data ∧ (∀ c ∈ calls, c.value = 0) ∧ 1 ≤ calls.length ∧ calls.length ≤ 4) ∧
    (∀ data data' calls, decode data = .ok calls → decode data' = .ok calls → data = data') ∧
    ∀ calls, 1 ≤ calls.length → calls.length ≤ 4 → (∀ c ∈ calls, c.value = 0) → (encodeBatch calls).length < 2 ^ 64 →
      decode (encodeBatch calls) = .ok calls := by
  refine ⟨fun _ _ h => decode_encodes h, ?_, fun _ hone hfour hzero hb => decode_encodeBatch hone hfour hzero hb⟩
  intro data data' calls h h'
  exact (decode_encodes h).1.symm.trans (decode_encodes h').1

/-- A cancellation, and an approval before a claim. -/
def sampleSingle : List Call := [⟨addr 2, 0, encodeCall CANCEL_ORDER [5]⟩]

def sampleBatch : List Call := [⟨addr 3, 0, encodeCall APPROVE [2, 0]⟩, ⟨addr 4, 0, encodeCall CLAIM [9]⟩]

theorem decode_canonical_sample :
    decode (encodeBatch sampleSingle) = .ok sampleSingle ∧ decode (encodeBatch sampleBatch) = .ok sampleBatch :=
  ⟨decode_canonical.2.2 sampleSingle (by decide) (by decide) (by decide +kernel) (by decide +kernel),
    decode_canonical.2.2 sampleBatch (by decide) (by decide) (by decide +kernel) (by decide +kernel)⟩

end Session

end Cpredict
