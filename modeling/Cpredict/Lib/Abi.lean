import Mathlib.Tactic

/-!
# The contract ABI

Words of 32 bytes in big-endian order, dynamic `bytes`, and the readers with the checks that compiled contracts make:
offsets and lengths stay below `2 ^ 64` and everything that is read lies inside the buffer. A reader at a position
depends only on the buffer from there on (`wordAt_of_drop`, `bytesAt_of_drop`), and reads back what was written.
-/

namespace Abi

/-! ## Numbers as bytes -/

/-- The last `k` bytes of a number, the most significant one first. -/
def beBytes : Nat → Nat → List UInt8
  | 0, _ => []
  | k + 1, n => beBytes k (n / 256) ++ [UInt8.ofNat n]

/-- The number that bytes are the digits of. -/
def ofBytes (b : List UInt8) : Nat := b.foldl (fun n x => n * 256 + x.toNat) 0

/-- A static value of the ABI. -/
def word (n : Nat) : List UInt8 := beBytes 32 n

@[simp] theorem length_beBytes (k n : Nat) : (beBytes k n).length = k := by
  induction k generalizing n with
  | zero => rfl
  | succ k ih => simp [beBytes, ih]

@[simp] theorem length_word (n : Nat) : (word n).length = 32 := length_beBytes 32 n

theorem ofBytes_append_singleton (b : List UInt8) (x : UInt8) : ofBytes (b ++ [x]) = ofBytes b * 256 + x.toNat := by
  simp [ofBytes]

theorem ofBytes_beBytes (k n : Nat) : ofBytes (beBytes k n) = n % 256 ^ k := by
  induction k generalizing n with
  | zero => simp [beBytes, ofBytes, Nat.mod_one]
  | succ k ih =>
    have hx : (UInt8.ofNat n).toNat = n % 256 := by simp
    rw [beBytes, ofBytes_append_singleton, ih, hx, Nat.pow_succ, Nat.mul_comm (256 ^ k), Nat.mod_mul]
    omega

theorem ofBytes_word {n : Nat} (h : n < 2 ^ 256) : ofBytes (word n) = n := by
  rw [word, ofBytes_beBytes, Nat.mod_eq_of_lt]
  calc n < 2 ^ 256 := h
    _ = 256 ^ 32 := by norm_num

theorem ofBytes_lt (b : List UInt8) : ofBytes b < 256 ^ b.length := by
  induction b using List.reverseRecOn with
  | nil => simp [ofBytes]
  | append_singleton b x ih =>
    have hx : x.toNat < 256 := x.toNat_lt
    rw [ofBytes_append_singleton, List.length_append, List.length_singleton, Nat.pow_succ]
    omega

/-- Bytes are determined by their number. -/
theorem beBytes_ofBytes (b : List UInt8) : beBytes b.length (ofBytes b) = b := by
  induction b using List.reverseRecOn with
  | nil => rfl
  | append_singleton b x ih =>
    have hx : x.toNat < 256 := x.toNat_lt
    have hdiv : (ofBytes b * 256 + x.toNat) / 256 = ofBytes b := by omega
    have hmod : UInt8.ofNat (ofBytes b * 256 + x.toNat) = x := by
      apply UInt8.toNat_inj.mp
      rw [UInt8.toNat_ofNat']
      omega
    rw [ofBytes_append_singleton, List.length_append, List.length_singleton, beBytes, hdiv, hmod, ih]

theorem word_inj {m n : Nat} (hm : m < 2 ^ 256) (hn : n < 2 ^ 256) (h : word m = word n) : m = n := by
  rw [← ofBytes_word hm, h, ofBytes_word hn]

/-! ## Dynamic bytes -/

/-- The zeros that fill the last word of `n` bytes. -/
def padding (n : Nat) : List UInt8 := List.replicate ((32 - n % 32) % 32) 0

/-- A dynamic value: its length, its bytes, and zeros up to a whole word. -/
def dynamic (b : List UInt8) : List UInt8 := word b.length ++ (b ++ padding b.length)

/-! ## Readers -/

/-- The word at a position, if it lies inside the buffer. -/
def wordAt (b : List UInt8) (i : Nat) : Option Nat :=
  if i + 32 ≤ b.length then some (ofBytes ((b.drop i).take 32)) else none

/-- An offset or a length at a position. -/
def offsetAt (b : List UInt8) (i : Nat) : Option Nat :=
  (wordAt b i).bind fun n => if n < 2 ^ 64 then some n else none

/-- The dynamic bytes at a position. -/
def bytesAt (b : List UInt8) (i : Nat) : Option (List UInt8) :=
  (offsetAt b i).bind fun n => if i + 32 + n ≤ b.length then some ((b.drop (i + 32)).take n) else none

section

variable {b rest : List UInt8} {i n : Nat}

theorem length_of_drop {x : List UInt8} (h : b.drop i = x ++ rest) (hx : x ≠ []) : i + x.length ≤ b.length := by
  have hlen := congrArg List.length h
  rw [List.length_drop, List.length_append] at hlen
  have := List.length_pos_iff.mpr hx
  omega

/-- The buffer behind a part of it. -/
theorem drop_of_drop {x : List UInt8} {j : Nat} (h : b.drop i = x ++ rest) (hj : i + x.length = j) :
    b.drop j = rest := by
  rw [← hj, ← List.drop_drop, h, List.drop_left' rfl]

theorem wordAt_of_drop (h : b.drop i = word n ++ rest) (hn : n < 2 ^ 256) : wordAt b i = some n := by
  have hne : word n ≠ [] := List.ne_nil_of_length_pos (by simp)
  have hlen := length_of_drop h hne
  rw [length_word] at hlen
  unfold wordAt
  rw [if_pos hlen, h, List.take_left' (length_word n), ofBytes_word hn]

theorem offsetAt_of_drop (h : b.drop i = word n ++ rest) (hn : n < 2 ^ 64) : offsetAt b i = some n := by
  have hn' : n < 2 ^ 256 := hn.trans (Nat.pow_lt_pow_right (by norm_num) (by norm_num))
  unfold offsetAt
  rw [wordAt_of_drop h hn', Option.bind_some, if_pos hn]

theorem bytesAt_of_drop {x : List UInt8} (h : b.drop i = dynamic x ++ rest) (hx : x.length < 2 ^ 64) :
    bytesAt b i = some x := by
  have hword : b.drop i = word x.length ++ (x ++ padding x.length ++ rest) := by
    rw [h, dynamic, List.append_assoc]
  have hdrop : b.drop (i + 32) = x ++ (padding x.length ++ rest) := by
    rw [drop_of_drop hword (by rw [length_word]), List.append_assoc]
  have hlen := length_of_drop hword (List.ne_nil_of_length_pos (by simp))
  have hdl := congrArg List.length hdrop
  rw [List.length_drop, List.length_append] at hdl
  rw [length_word] at hlen
  unfold bytesAt
  rw [offsetAt_of_drop hword hx, Option.bind_some, if_pos (by omega), hdrop, List.take_left' rfl]

end

/-! ## Lists of words -/

/-- Static values in a row. -/
def words (ns : List Nat) : List UInt8 := ns.flatMap word

@[simp] theorem length_words (ns : List Nat) : (words ns).length = 32 * ns.length := by
  induction ns with
  | nil => rfl
  | cons n ns ih =>
    have hcons : words (n :: ns) = word n ++ words ns := rfl
    rw [hcons, List.length_append, ih, length_word, List.length_cons]
    omega

/-- The values of a row of words are found at its multiples of 32. -/
theorem wordAt_words (pre : List UInt8) {ns : List Nat} (rest : List UInt8) {k : Nat} (hk : k < ns.length)
    (hn : ∀ n ∈ ns, n < 2 ^ 256) :
    wordAt (pre ++ (words ns ++ rest)) (pre.length + 32 * k) = some ns[k] := by
  induction ns generalizing pre k with
  | nil => cases hk
  | cons n ns ih =>
    have hcons : words (n :: ns) = word n ++ words ns := rfl
    cases k with
    | zero =>
      have hdrop : (pre ++ (words (n :: ns) ++ rest)).drop (pre.length + 32 * 0) = word n ++ (words ns ++ rest) := by
        rw [Nat.mul_zero, Nat.add_zero, List.drop_left' rfl, hcons, List.append_assoc]
      exact wordAt_of_drop hdrop (hn n List.mem_cons_self)
    | succ k =>
      have hstep := ih (pre ++ word n) (Nat.lt_of_succ_lt_succ hk) fun m hm => hn m (List.mem_cons_of_mem _ hm)
      rw [List.length_append, length_word, List.append_assoc] at hstep
      rw [hcons, List.append_assoc, Nat.mul_succ, ← Nat.add_assoc, Nat.add_right_comm]
      simpa using hstep

/-! ## Packed fields -/

/-- Numbers in a row, each in bytes of its own width. -/
def packed (fs : List (Nat × Nat)) : List UInt8 := fs.flatMap fun f => beBytes f.1 f.2

/-- The bytes start with fields of these widths and numbers. -/
def Reads : List (Nat × Nat) → List UInt8 → Prop
  | [], _ => True
  | f :: fs, b => f.1 ≤ b.length ∧ ofBytes (b.take f.1) = f.2 ∧ Reads fs (b.drop f.1)

theorem packed_cons (f : Nat × Nat) (fs : List (Nat × Nat)) (rest : List UInt8) :
    packed (f :: fs) ++ rest = beBytes f.1 f.2 ++ (packed fs ++ rest) := by
  rw [packed, List.flatMap_cons, List.append_assoc]
  rfl

/-- Fields that fit their widths read back. -/
theorem reads_packed {fs : List (Nat × Nat)} (h : ∀ f ∈ fs, f.2 < 256 ^ f.1) (rest : List UInt8) :
    Reads fs (packed fs ++ rest) := by
  induction fs with
  | nil => trivial
  | cons f fs ih =>
    have hlen : (beBytes f.1 f.2).length = f.1 := length_beBytes _ _
    rw [packed_cons]
    refine ⟨?_, ?_, ?_⟩
    · rw [List.length_append, hlen]
      exact Nat.le_add_right _ _
    · rw [List.take_left' hlen, ofBytes_beBytes, Nat.mod_eq_of_lt (h f List.mem_cons_self)]
    · rw [List.drop_left' hlen]
      exact ih fun g hg => h g (List.mem_cons_of_mem _ hg)

/-- Bytes are determined by the fields that they start with and what follows. -/
theorem Reads.eq_packed {fs : List (Nat × Nat)} {b : List UInt8} (h : Reads fs b) :
    b = packed fs ++ b.drop (fs.map Prod.fst).sum := by
  induction fs generalizing b with
  | nil => rfl
  | cons f fs ih =>
    obtain ⟨hlen, hnum, hrest⟩ := h
    have hwidth : (b.take f.1).length = f.1 := by
      rw [List.length_take]
      omega
    have hhead : beBytes f.1 f.2 = b.take f.1 := by
      have := beBytes_ofBytes (b.take f.1)
      rwa [hwidth, hnum] at this
    calc b = b.take f.1 ++ b.drop f.1 := (List.take_append_drop _ _).symm
      _ = beBytes f.1 f.2 ++ (packed fs ++ (b.drop f.1).drop (fs.map Prod.fst).sum) := by rw [hhead, ← ih hrest]
      _ = packed (f :: fs) ++ b.drop ((f :: fs).map Prod.fst).sum := by
        rw [packed_cons, List.drop_drop, List.map_cons, List.sum_cons]

end Abi
