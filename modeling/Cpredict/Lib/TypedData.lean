import Cpredict.Lib.Abi

/-!
# Typed data

Structured messages of static fields and their digest, after EIP-712: the type of a message is written out as a
string, its values are words in the order of the type, and the digest covers the domain and the message. A value
that does not fit its type has no digest. Messages are told apart by their digest as long as the hash function does
not map two of the strings that go into it to one word (`digest_inj`).
-/

namespace Eip712

open Abi

inductive FieldType
  | address
  | uint (bits : Nat)
  | bytes32
  | string
deriving DecidableEq

def FieldType.name : FieldType → String
  | .address => "address"
  | .uint bits => "uint" ++ toString bits
  | .bytes32 => "bytes32"
  | .string => "string"

inductive Value
  | address (a : Fin (2 ^ 160))
  | number (n : Int)
  | bytes (b : List UInt8)
  | text (s : String)
deriving DecidableEq

/-- The fields of a type, in their order. -/
abbrev Fields := List (String × FieldType)

/-- The values of a message under their names. -/
abbrev Message := List (String × Value)

/-- The bytes of a string. -/
def utf8 (s : String) : List UInt8 := s.toUTF8.data.toList

/-- A type written out. -/
def encodeType (primaryType : String) (fields : Fields) : String :=
  primaryType ++ "(" ++ ",".intercalate (fields.map fun f => f.2.name ++ " " ++ f.1) ++ ")"

section

variable (keccak256 : List UInt8 → Nat)

/-- The word of a value, if it fits its type. -/
def encodeField : FieldType → Value → Option Nat
  | .address, .address a => some a.val
  | .uint bits, .number n => if 0 ≤ n ∧ n < 2 ^ bits then some n.toNat else none
  | .bytes32, .bytes b => if b.length = 32 then some (ofBytes b) else none
  | .string, .text s => some (keccak256 (utf8 s))
  | _, _ => none

/-- The words of the fields, in the order of the type. -/
def encodeData : Fields → Message → Option (List Nat)
  | [], _ => some []
  | f :: fields, message => do
    let value ← message.lookup f.1
    let w ← encodeField keccak256 f.2 value
    let ws ← encodeData fields message
    some (w :: ws)

def hashStruct (primaryType : String) (fields : Fields) (message : Message) : Option Nat :=
  (encodeData keccak256 fields message).map fun ws =>
    keccak256 (words (keccak256 (utf8 (encodeType primaryType fields)) :: ws))

/-- What a digest is the hash of. -/
def preimage (domainSeparator structHash : Nat) : List UInt8 := [0x19, 0x01] ++ words [domainSeparator, structHash]

/-- The digest of a message under a domain. -/
def digest (domainSeparator structHash : Nat) : Nat := keccak256 (preimage domainSeparator structHash)

end

structure TypedData where
  domain : Message
  primaryType : String
  types : Fields
  message : Message

/-- The fields that a domain may have. -/
def domainFields :
    Fields := [("name", .string), ("version", .string), ("chainId", .uint 256), ("verifyingContract", .address)]

/-- The type of a domain: the fields that it has. -/
def domainTypes (domain : Message) : Fields := domainFields.filter fun f => (domain.lookup f.1).isSome

/-- The digest of typed data, if every value fits its type. -/
def hash (keccak256 : List UInt8 → Nat) (t : TypedData) : Option Nat := do
  let domainSeparator ← hashStruct keccak256 "EIP712Domain" (domainTypes t.domain) t.domain
  let structHash ← hashStruct keccak256 t.primaryType t.types t.message
  some (digest keccak256 domainSeparator structHash)

/-! ## Words are told apart -/

theorem words_inj {ms ns : List Nat} (hm : ∀ m ∈ ms, m < 2 ^ 256) (hn : ∀ n ∈ ns, n < 2 ^ 256)
    (h : words ms = words ns) : ms = ns := by
  induction ms generalizing ns with
  | nil =>
    have hlen := congrArg List.length h
    rw [length_words, length_words, List.length_nil] at hlen
    exact (List.length_eq_zero_iff.mp (by omega)).symm
  | cons m ms ih =>
    cases ns with
    | nil =>
      have hlen := congrArg List.length h
      rw [length_words, length_words, List.length_nil, List.length_cons] at hlen
      omega
    | cons n ns =>
      have happ : word m ++ words ms = word n ++ words ns := h
      obtain ⟨hhead, htail⟩ := List.append_inj happ (by rw [length_word, length_word])
      have hmn := word_inj (hm m List.mem_cons_self) (hn n List.mem_cons_self) hhead
      have hrest := ih (fun k hk => hm k (List.mem_cons_of_mem _ hk)) (fun k hk => hn k (List.mem_cons_of_mem _ hk))
        htail
      rw [hmn, hrest]

section

variable {keccak256 : List UInt8 → Nat}

theorem pair_lt (hk : ∀ b, keccak256 b < 2 ^ 256) (x y : List UInt8) :
    ∀ n ∈ [keccak256 x, keccak256 y], n < 2 ^ 256 := by
  intro n hn
  rw [List.mem_pair] at hn
  rcases hn with rfl | rfl
  · exact hk x
  · exact hk y

/-- A function tells the strings of two lists apart. -/
def Apart (keccak256 : List UInt8 → Nat) (xs ys : List (List UInt8)) : Prop :=
  ∀ x ∈ xs, ∀ y ∈ ys, keccak256 x = keccak256 y → x = y

theorem Apart.mono {xs ys us vs : List (List UInt8)} (h : Apart keccak256 us vs) (hx : xs ⊆ us) (hy : ys ⊆ vs) :
    Apart keccak256 xs ys :=
  fun x hxs y hys => h x (hx hxs) y (hy hys)

/-- Digests that agree cover the same domain and the same message. -/
theorem digest_inj {ds ms es ns : List Nat} (hk : ∀ b, keccak256 b < 2 ^ 256) (hds : ∀ n ∈ ds, n < 2 ^ 256)
    (hms : ∀ n ∈ ms, n < 2 ^ 256) (hes : ∀ n ∈ es, n < 2 ^ 256) (hns : ∀ n ∈ ns, n < 2 ^ 256)
    (hapart : Apart keccak256
      [preimage (keccak256 (words ds)) (keccak256 (words ms)), words ds, words ms]
      [preimage (keccak256 (words es)) (keccak256 (words ns)), words es, words ns])
    (h : digest keccak256 (keccak256 (words ds)) (keccak256 (words ms)) =
      digest keccak256 (keccak256 (words es)) (keccak256 (words ns))) : ds = es ∧ ms = ns := by
  have hpre := hapart _ (by simp) _ (by simp) h
  have hpair := words_inj (pair_lt hk _ _) (pair_lt hk _ _) (List.append_cancel_left hpre)
  simp only [List.cons.injEq, and_true] at hpair
  have hdomain := hapart (words ds) (by simp) (words es) (by simp) hpair.1
  have hmessage := hapart (words ms) (by simp) (words ns) (by simp) hpair.2
  exact ⟨words_inj hds hes hdomain, words_inj hms hns hmessage⟩

end

end Eip712
