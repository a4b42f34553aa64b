import Cpredict.Lib.Outcome
import Cpredict.Lib.Balances
import Cpredict.Types

/-!
# The two token ledgers

`Token` is the payment token, an ERC-20 token that moves exactly the amount asked for or refuses the transfer: for
want of balance or allowance, or for reasons of its own (`refuses`: frozen accounts, pauses), which may change at any
time. `Shares` is what a market vault inherits from ERC-1155 with supply tracking: balances and supplies for every
outcome, and the operators approved by each holder. Acceptance by the receiver of shares is decided by the caller of
these functions.
-/

namespace Cpredict

open Outcome Balances

/-! ## The payment token -/

structure Token where
  balanceOf : Address → Nat
  allowance : Address → Address → Nat
  /-- Whether a transfer (sender, receiver, amount) is refused for a reason of the token's own. -/
  refuses : Address → Address → Nat → Bool

namespace Token

def transfer (t : Token) (source target : Address) (amount : Nat) : Except Err Token := do
  revertIf (t.refuses source target amount = true) .ERC20Refused
  revertIf (t.balanceOf source < amount) .ERC20Refused
  .ok { t with balanceOf := move t.balanceOf source target amount }

def approve (t : Token) (holder spender : Address) (amount : Nat) : Token :=
  { t with allowance := update₂ t.allowance holder spender amount }

/-- The allowance that never runs out. -/
def unlimited : Nat := 2 ^ 256 - 1

def spendAllowance (t : Token) (holder spender : Address) (amount : Nat) : Except Err Token := do
  revertIf (t.allowance holder spender < amount) .ERC20Refused
  if t.allowance holder spender = unlimited then .ok t
  else .ok (t.approve holder spender (t.allowance holder spender - amount))

def transferFrom (t : Token) (spender source target : Address) (amount : Nat) : Except Err Token := do
  let t ← t.spendAllowance source spender amount
  t.transfer source target amount

theorem transfer_eq_ok {t t' : Token} {a b : Address} {n : Nat} :
    t.transfer a b n = .ok t' ↔
      t.refuses a b n = false ∧ n ≤ t.balanceOf a ∧ t' = { t with balanceOf := move t.balanceOf a b n } := by
  simp only [transfer, bind_eq_ok, revertIf_eq_ok, not_lt, Bool.not_eq_true, Except.ok.injEq]
  constructor
  · rintro ⟨_, h₁, _, h₂, rfl⟩; exact ⟨h₁, h₂, rfl⟩
  · rintro ⟨h₁, h₂, rfl⟩; exact ⟨(), h₁, (), h₂, rfl⟩

/-- A transfer is refused for one reason. -/
theorem transfer_error {t : Token} {a b : Address} {n : Nat} {e : Err} (h : t.transfer a b n = .error e) :
    e = .ERC20Refused := by
  unfold transfer at h
  by_cases h₁ : t.refuses a b n = true
  · simpa [h₁] using h.symm
  · by_cases h₂ : t.balanceOf a < n
    · simpa [h₁, h₂] using h.symm
    · simp [h₁, h₂] at h

theorem spendAllowance_eq_ok {t t' : Token} {o s : Address} {n : Nat} (h : t.spendAllowance o s n = .ok t') :
    n ≤ t.allowance o s ∧ t'.balanceOf = t.balanceOf ∧ t'.refuses = t.refuses ∧
      ∀ a, a ≠ o → t'.allowance a = t.allowance a := by
  simp only [spendAllowance, bind_eq_ok, revertIf_eq_ok, not_lt] at h
  obtain ⟨_, h₁, h⟩ := h
  split at h <;> cases h
  · exact ⟨h₁, rfl, rfl, fun _ _ => rfl⟩
  · exact ⟨h₁, rfl, rfl, fun a ha => update₂_of_ne _ _ _ ha⟩

theorem spendAllowance_error {t : Token} {o s : Address} {n : Nat} {e : Err} (h : t.spendAllowance o s n = .error e) :
    e = .ERC20Refused := by
  unfold spendAllowance at h
  by_cases h₁ : t.allowance o s < n
  · simpa [h₁] using h.symm
  · simp only [h₁, not_false_eq_true, revertIf_neg, ok_bind] at h
    split at h <;> cases h

/-- What a transfer on an allowance does: the allowance was there, and the amount moved. -/
theorem transferFrom_eq_ok {t t' : Token} {s a b : Address} {n : Nat} (h : t.transferFrom s a b n = .ok t') :
    n ≤ t.allowance a s ∧ n ≤ t.balanceOf a ∧ t'.balanceOf = move t.balanceOf a b n ∧ t'.refuses = t.refuses ∧
      ∀ c, c ≠ a → t'.allowance c = t.allowance c := by
  simp only [transferFrom, bind_eq_ok] at h
  obtain ⟨u, hu, ht⟩ := h
  obtain ⟨h₁, hb, hr, hal⟩ := spendAllowance_eq_ok hu
  obtain ⟨_, h₂, rfl⟩ := transfer_eq_ok.mp ht
  exact ⟨h₁, hb ▸ h₂, by simp only [hb], hr, hal⟩

/-- Allowances are only used up. -/
theorem transferFrom_allowance_le {t t' : Token} {s a b : Address} {n : Nat} (h : t.transferFrom s a b n = .ok t')
    (c d : Address) : t'.allowance c d ≤ t.allowance c d := by
  simp only [transferFrom, spendAllowance, bind_eq_ok, revertIf_eq_ok] at h
  obtain ⟨u, ⟨_, _, hu⟩, ht⟩ := h
  obtain ⟨_, _, rfl⟩ := transfer_eq_ok.mp ht
  split at hu <;> cases hu
  · exact le_rfl
  · simp only [approve, update₂, Function.update_apply]
    split
    · rename_i hc
      subst hc
      simp only [Function.update_apply]
      split
      · rename_i hd; subst hd; exact Nat.sub_le _ _
      · exact le_rfl
    · exact le_rfl

theorem transferFrom_error {t : Token} {s a b : Address} {n : Nat} {e : Err} (h : t.transferFrom s a b n = .error e) :
    e = .ERC20Refused := by
  unfold transferFrom at h
  cases hu : t.spendAllowance a s n with
  | ok u => rw [hu] at h; exact transfer_error h
  | error e' =>
    rw [hu] at h
    cases h
    exact spendAllowance_error hu

end Token

/-! ## The shares of one vault -/

structure Shares where
  balanceOf : Nat → Address → Nat
  totalSupply : Nat → Nat
  isApprovedForAll : Address → Address → Bool

namespace Shares

def blank : Shares := ⟨fun _ _ => 0, fun _ => 0, fun _ _ => false⟩

def setBalances (s : Shares) (id : Nat) (f : Address → Nat) : Shares :=
  { s with balanceOf := Function.update s.balanceOf id f }

/-- `_mint` -/
def mint (s : Shares) (target : Address) (id value : Nat) : Except Err Shares := do
  revertIf (target = 0) .ERC1155InvalidReceiver
  .ok { s.setBalances id (Function.update (s.balanceOf id) target (s.balanceOf id target + value)) with
        totalSupply := Function.update s.totalSupply id (s.totalSupply id + value) }

/-- `_burn` -/
def burn (s : Shares) (source : Address) (id value : Nat) : Except Err Shares := do
  revertIf (source = 0) .ERC1155InvalidSender
  revertIf (s.balanceOf id source < value) .ERC1155InsufficientBalance
  .ok { s.setBalances id (Function.update (s.balanceOf id) source (s.balanceOf id source - value)) with
        totalSupply := Function.update s.totalSupply id (s.totalSupply id - value) }

/-- One id and value of `_update`, between holders. -/
def moveOne (s : Shares) (source target : Address) (id value : Nat) : Except Err Shares := do
  revertIf (s.balanceOf id source < value) .ERC1155InsufficientBalance
  .ok (s.setBalances id (move (s.balanceOf id) source target value))

/-- The ids and values of `_update`, one after the other. -/
def moveAll (s : Shares) (source target : Address) : List (Nat × Nat) → Except Err Shares
  | [] => .ok s
  | (id, value) :: rest => do
    let s ← s.moveOne source target id value
    s.moveAll source target rest

/-- The checks of `safeTransferFrom` and `safeBatchTransferFrom` before they update. -/
def checkTransfer (s : Shares) (operator source target : Address) : Except Err Unit := do
  revertIf (source ≠ operator ∧ s.isApprovedForAll source operator = false) .ERC1155MissingApprovalForAll
  revertIf (target = 0) .ERC1155InvalidReceiver
  revertIf (source = 0) .ERC1155InvalidSender

def safeTransferFrom (s : Shares) (operator source target : Address) (id value : Nat) : Except Err Shares := do
  s.checkTransfer operator source target
  s.moveOne source target id value

def safeBatchTransferFrom (s : Shares) (operator source target : Address) (parts : List (Nat × Nat)) :
    Except Err Shares := do
  s.checkTransfer operator source target
  s.moveAll source target parts

def setApprovalForAll (s : Shares) (holder operator : Address) (approved : Bool) : Shares :=
  { s with isApprovedForAll := update₂ s.isApprovedForAll holder operator approved }

/-! ### What the functions do -/

variable {s s' : Shares}

theorem mint_eq_ok {target : Address} {id value : Nat} (h : s.mint target id value = .ok s') :
    target ≠ 0 ∧
      s'.balanceOf = update₂ s.balanceOf id target (s.balanceOf id target + value) ∧
      s'.totalSupply = Function.update s.totalSupply id (s.totalSupply id + value) ∧
      s'.isApprovedForAll = s.isApprovedForAll := by
  simp only [mint, bind_eq_ok, revertIf_eq_ok, Except.ok.injEq] at h
  obtain ⟨_, h₀, rfl⟩ := h
  exact ⟨h₀, rfl, rfl, rfl⟩

theorem burn_eq_ok {source : Address} {id value : Nat} (h : s.burn source id value = .ok s') :
    value ≤ s.balanceOf id source ∧
      s'.balanceOf = update₂ s.balanceOf id source (s.balanceOf id source - value) ∧
      s'.totalSupply = Function.update s.totalSupply id (s.totalSupply id - value) ∧
      s'.isApprovedForAll = s.isApprovedForAll := by
  simp only [burn, bind_eq_ok, revertIf_eq_ok, not_lt, Except.ok.injEq] at h
  obtain ⟨_, _, _, h₁, rfl⟩ := h
  exact ⟨h₁, rfl, rfl, rfl⟩

/-- A burn adds to nobody's balance. -/
theorem burn_le {source : Address} {id value : Nat} (h : s.burn source id value = .ok s') (j : Nat) (a : Address) :
    s'.balanceOf j a ≤ s.balanceOf j a := by
  rw [(burn_eq_ok h).2.1]
  by_cases ha : a = source
  · subst ha
    by_cases hj : j = id
    · subst hj; rw [update₂_self]; exact Nat.sub_le _ _
    · rw [update₂_of_ne _ _ _ hj]
  · rw [update₂_other_holder _ _ ha]

theorem moveOne_eq_ok {source target : Address} {id value : Nat} (h : s.moveOne source target id value = .ok s') :
    value ≤ s.balanceOf id source ∧ s' = s.setBalances id (move (s.balanceOf id) source target value) := by
  simp only [moveOne, bind_eq_ok, revertIf_eq_ok, not_lt, Except.ok.injEq] at h
  obtain ⟨_, h₁, rfl⟩ := h
  exact ⟨h₁, rfl⟩

theorem checkTransfer_eq_ok {operator source target : Address} {u : Unit}
    (h : s.checkTransfer operator source target = .ok u) :
    (source = operator ∨ s.isApprovedForAll source operator = true) ∧ target ≠ 0 ∧ source ≠ 0 := by
  simp only [checkTransfer, bind_eq_ok, revertIf_eq_ok, not_and_or, Decidable.not_not, ne_eq, Bool.not_eq_false] at h
  obtain ⟨_, h₁, _, h₂, h₃⟩ := h
  exact ⟨h₁, h₂, h₃⟩

theorem safeTransferFrom_eq_ok {operator source target : Address} {id value : Nat}
    (h : s.safeTransferFrom operator source target id value = .ok s') :
    (source = operator ∨ s.isApprovedForAll source operator = true) ∧ target ≠ 0 ∧
      value ≤ s.balanceOf id source ∧ s' = s.setBalances id (move (s.balanceOf id) source target value) := by
  simp only [safeTransferFrom, bind_eq_ok] at h
  obtain ⟨_, hc, hm⟩ := h
  obtain ⟨h₁, h₂, _⟩ := checkTransfer_eq_ok hc
  exact ⟨h₁, h₂, moveOne_eq_ok hm⟩

/-- What a transfer of shares, single or batch, leaves alone: supplies, approvals, the sum of every outcome, and the
balances of everybody but the two sides. -/
structure Moved (s s' : Shares) (source target : Address) : Prop where
  totalSupply : s'.totalSupply = s.totalSupply
  approvals : s'.isApprovedForAll = s.isApprovedForAll
  sum : ∀ id, ∑ a, s'.balanceOf id a = ∑ a, s.balanceOf id a
  others : ∀ id a, a ≠ source → a ≠ target → s'.balanceOf id a = s.balanceOf id a
  losers : ∀ id a, a ≠ target → s'.balanceOf id a ≤ s.balanceOf id a
  outside : ∀ id, s.totalSupply id = 0 → s.balanceOf id source = 0 → s'.balanceOf id = s.balanceOf id

theorem Moved.refl (s : Shares) (source target : Address) : Moved s s source target :=
  ⟨rfl, rfl, fun _ => rfl, fun _ _ _ _ => rfl, fun _ _ _ => le_rfl, fun _ _ _ => rfl⟩

theorem Moved.trans {t : Shares} {source target : Address} (h₁ : Moved s t source target)
    (h₂ : Moved t s' source target) : Moved s s' source target where
  totalSupply := h₂.totalSupply.trans h₁.totalSupply
  approvals := h₂.approvals.trans h₁.approvals
  sum := fun id => (h₂.sum id).trans (h₁.sum id)
  others := fun id a hs ht => (h₂.others id a hs ht).trans (h₁.others id a hs ht)
  losers := fun id a ht => (h₂.losers id a ht).trans (h₁.losers id a ht)
  outside := fun id hz hb => by
    have he := h₁.outside id hz hb
    rw [h₂.outside id (by rw [h₁.totalSupply]; exact hz) (by rw [he]; exact hb), he]

theorem moveOne_moved {source target : Address} {id value : Nat} (h : s.moveOne source target id value = .ok s') :
    Moved s s' source target := by
  obtain ⟨hle, rfl⟩ := moveOne_eq_ok h
  have hb : ∀ j, (s.setBalances id (move (s.balanceOf id) source target value)).balanceOf j =
      if j = id then move (s.balanceOf id) source target value else s.balanceOf j := fun j => by
    simp only [setBalances, Function.update_apply]
  refine ⟨rfl, rfl, fun j => ?_, fun j a hs ht => ?_, fun j a ht => ?_, fun j _ hz => ?_⟩
  · rw [hb]
    split
    · rename_i he; rw [he]; exact sum_move hle
    · rfl
  · rw [hb]
    split
    · rename_i he; rw [he]; exact move_of_ne _ _ hs ht
    · rfl
  · rw [hb]
    split
    · rename_i he
      subst he
      by_cases hs : a = source
      · subst hs; rw [move_from _ _ ht]; exact Nat.sub_le _ _
      · rw [move_of_ne _ _ hs ht]
    · exact le_rfl
  · rw [hb]
    split
    · rename_i he
      subst he
      have h0 : value = 0 := by omega
      subst h0
      funext a
      by_cases hst : source = target
      · rw [hst, move_self _ (Nat.zero_le _)]
      · by_cases hs : a = source
        · rw [hs, move_from _ _ hst]; omega
        · by_cases ht : a = target
          · rw [ht, move_to _ _ hst]; omega
          · exact move_of_ne _ _ hs ht
    · rfl

theorem moveAll_moved {source target : Address} : ∀ (parts : List (Nat × Nat)) {s s' : Shares},
    s.moveAll source target parts = .ok s' → Moved s s' source target
  | [], _, _, h => by cases h; exact Moved.refl _ _ _
  | (id, value) :: rest, s, s', h => by
    simp only [moveAll, bind_eq_ok] at h
    obtain ⟨t, h₁, h₂⟩ := h
    exact (moveOne_moved h₁).trans (moveAll_moved rest h₂)

theorem safeTransferFrom_moved {operator source target : Address} {id value : Nat}
    (h : s.safeTransferFrom operator source target id value = .ok s') : Moved s s' source target := by
  simp only [safeTransferFrom, bind_eq_ok] at h
  obtain ⟨_, _, hm⟩ := h
  exact moveOne_moved hm

theorem safeBatchTransferFrom_eq_ok {operator source target : Address} {parts : List (Nat × Nat)}
    (h : s.safeBatchTransferFrom operator source target parts = .ok s') :
    (source = operator ∨ s.isApprovedForAll source operator = true) ∧ target ≠ 0 ∧ Moved s s' source target := by
  simp only [safeBatchTransferFrom, bind_eq_ok] at h
  obtain ⟨_, hc, hm⟩ := h
  obtain ⟨h₁, h₂, _⟩ := checkTransfer_eq_ok hc
  exact ⟨h₁, h₂, moveAll_moved parts hm⟩

/-- The supply of every outcome is what its holders have. -/
def Backed (s : Shares) : Prop := ∀ id, ∑ a, s.balanceOf id a = s.totalSupply id

theorem blank_backed : Backed blank := fun _ => by simp [blank]

theorem Backed.balance_le (h : Backed s) (id : Nat) (a : Address) : s.balanceOf id a ≤ s.totalSupply id := by
  rw [← h id]; exact le_sum (s.balanceOf id) (Finset.mem_univ a)

theorem Backed.moved (h : Backed s) {source target : Address} (hm : Moved s s' source target) :
    Backed s' := fun id => by
  rw [hm.sum, hm.totalSupply]; exact h id

theorem sum_update₂ (f : Nat → Address → Nat) (id j : Nat) (a : Address) (v : Nat) :
    ∑ b, update₂ f id a v j b + (if j = id then f id a else 0) = ∑ b, f j b + if j = id then v else 0 := by
  by_cases h : j = id
  · subst h
    have := sum_update (f j) (Finset.mem_univ a) v
    simpa [update₂] using this
  · simp [update₂_of_ne f a v h, h]

theorem Backed.mint (h : Backed s) {target : Address} {id value : Nat} (hm : s.mint target id value = .ok s') :
    Backed s' := by
  obtain ⟨_, hb, ht, _⟩ := mint_eq_ok hm
  intro j
  have hsum := sum_update₂ s.balanceOf id j target (s.balanceOf id target + value)
  rw [hb, ht, Function.update_apply]
  have hj := h j
  split
  · rename_i he; subst he; simp only [if_true] at hsum; omega
  · rename_i he; simp only [he, if_false] at hsum; omega

theorem Backed.burn (h : Backed s) {source : Address} {id value : Nat} (hm : s.burn source id value = .ok s') :
    Backed s' := by
  obtain ⟨hle, hb, ht, _⟩ := burn_eq_ok hm
  intro j
  have hsum := sum_update₂ s.balanceOf id j source (s.balanceOf id source - value)
  have hbal := h.balance_le id source
  rw [hb, ht, Function.update_apply]
  have hj := h j
  split
  · rename_i he; subst he; simp only [if_true] at hsum; omega
  · rename_i he; simp only [he, if_false] at hsum; omega

end Shares

end Cpredict
