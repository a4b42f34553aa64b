import Cpredict.Lib.Tally

/-!
# Replaying transfers

Holders have units of assets, and a move takes units of one asset from one holder to another; `nobody` stands where
units are created or destroyed. A list of moves is covered by the holdings when each source has what it gives at its
turn. Such moves can be replayed: each holder ends up with what it had, and has received, less what it has sent
(`replay_add`).
-/

namespace Transfers

open Tally

structure Move (κ ι : Type) where
  asset : κ
  source : ι
  target : ι
  units : Nat
deriving DecidableEq

section

variable {κ ι : Type} (nobody : ι)

/-- The source has what it gives. -/
def Payable (b : κ → ι → Nat) (x : Move κ ι) : Prop := x.source ≠ nobody → x.units ≤ b x.asset x.source

/-- The holdings of everybody agree; what `nobody` has is of no consequence. -/
def Agree (b c : κ → ι → Nat) : Prop := ∀ k a, a ≠ nobody → b k a = c k a

variable {nobody} {b c d : κ → ι → Nat} {x : Move κ ι}

theorem Agree.symm (h : Agree nobody b c) : Agree nobody c b := fun k a ha => (h k a ha).symm

theorem Agree.trans (h : Agree nobody b c) (h' : Agree nobody c d) : Agree nobody b d :=
  fun k a ha => (h k a ha).trans (h' k a ha)

theorem Agree.payable (h : Agree nobody b c) (hx : Payable nobody b x) : Payable nobody c x := fun hs => by
  rw [← h x.asset x.source hs]
  exact hx hs

end

section

variable {κ ι : Type} [DecidableEq κ] [DecidableEq ι]

/-- What `a` receives of an asset. -/
def received (k : κ) (a : ι) (x : Move κ ι) : Nat := if x.asset = k ∧ x.target = a then x.units else 0

/-- What `a` sends of an asset. -/
def sent (k : κ) (a : ι) (x : Move κ ι) : Nat := if x.asset = k ∧ x.source = a then x.units else 0

/-- The holdings after a move. -/
def apply (b : κ → ι → Nat) (x : Move κ ι) : κ → ι → Nat := fun k a => b k a - sent k a x + received k a x

def replay (b : κ → ι → Nat) (xs : List (Move κ ι)) : κ → ι → Nat := xs.foldl apply b

/-- Each move is payable at its turn. -/
def Covered (nobody : ι) : (κ → ι → Nat) → List (Move κ ι) → Prop
  | _, [] => True
  | b, x :: xs => Payable nobody b x ∧ Covered nobody (apply b x) xs

variable {nobody : ι} {b c : κ → ι → Nat} {x : Move κ ι} {xs ys : List (Move κ ι)} {k : κ} {a : ι}

@[simp] theorem replay_nil : replay b [] = b := rfl

@[simp] theorem replay_cons : replay b (x :: xs) = replay (apply b x) xs := rfl

theorem replay_append : replay b (xs ++ ys) = replay (replay b xs) ys := List.foldl_append

theorem covered_append : Covered nobody b (xs ++ ys) ↔ Covered nobody b xs ∧ Covered nobody (replay b xs) ys := by
  induction xs generalizing b with
  | nil => simp [Covered]
  | cons x xs ih => simp only [List.cons_append, Covered, ih, replay_cons, and_assoc]

theorem Payable.sent_le (h : Payable nobody b x) (ha : a ≠ nobody) : sent k a x ≤ b k a := by
  unfold sent
  split
  · rename_i hc
    obtain ⟨rfl, rfl⟩ := hc
    exact h ha
  · exact Nat.zero_le _

/-- Everybody has what they had and have received, less what they have sent. -/
theorem replay_add (h : Covered nobody b xs) (ha : a ≠ nobody) :
    replay b xs k a + tally (sent k a) xs = b k a + tally (received k a) xs := by
  induction xs generalizing b with
  | nil => rfl
  | cons x xs ih =>
    have hle := h.1.sent_le (k := k) ha
    have hrest := ih h.2
    simp only [replay_cons, tally_cons, apply] at hrest ⊢
    omega

theorem Agree.apply (h : Agree nobody b c) (x : Move κ ι) : Agree nobody (apply b x) (Transfers.apply c x) :=
  fun k a ha => by
  simp only [Transfers.apply, h k a ha]

/-- Moves that one of two agreeing holdings covers are covered by the other, and they agree again. -/
theorem Agree.replay (h : Agree nobody b c) (hx : Covered nobody b xs) :
    Covered nobody c xs ∧ Agree nobody (replay b xs) (Transfers.replay c xs) := by
  induction xs generalizing b c with
  | nil => exact ⟨trivial, h⟩
  | cons x xs ih =>
    obtain ⟨hcov, hagree⟩ := ih (h.apply x) hx.2
    exact ⟨⟨h.payable hx.1, hcov⟩, hagree⟩

/-- Moves of other assets. -/
theorem replay_other (h : ∀ x ∈ xs, x.asset ≠ k) : replay b xs k = b k := by
  induction xs generalizing b with
  | nil => rfl
  | cons x xs ih =>
    have hx := h x List.mem_cons_self
    rw [replay_cons, ih fun y hy => h y (List.mem_cons_of_mem _ hy)]
    funext a
    simp [Transfers.apply, sent, received, hx]

/-- All that is received of an asset is sent, if the holders are finitely many. -/
theorem sum_received [Fintype ι] (k : κ) (xs : List (Move κ ι)) :
    ∑ a, tally (received k a) xs = ∑ a, tally (sent k a) xs := by
  rw [sum_tally, sum_tally]
  have hsum : ∀ (x : Move κ ι) (b : ι), ∑ a, (if x.asset = k ∧ b = a then x.units else 0) =
      if x.asset = k then x.units else 0 := by
    intro x b
    by_cases hk : x.asset = k
    · simp [hk]
    · simp [hk]
  simp only [received, sent, hsum]

/-- The holders of an asset have, together, what was created of it and not destroyed. -/
theorem replay_supply [Fintype ι] (h : Covered nobody (fun _ _ => 0) xs) (k : κ) :
    ∑ a ∈ Finset.univ.erase nobody, replay (fun _ _ => 0) xs k a + tally (received k nobody) xs =
      tally (sent k nobody) xs := by
  have hsplit : ∀ f : ι → Nat, f nobody + ∑ a ∈ Finset.univ.erase nobody, f a = ∑ a, f a :=
    fun f => Finset.add_sum_erase _ f (Finset.mem_univ nobody)
  have hheld : ∑ a ∈ Finset.univ.erase nobody, replay (fun _ _ => 0) xs k a +
      ∑ a ∈ Finset.univ.erase nobody, tally (sent k a) xs = ∑ a ∈ Finset.univ.erase nobody,
        tally (received k a) xs := by
    rw [← Finset.sum_add_distrib]
    refine Finset.sum_congr rfl fun a ha => ?_
    rw [replay_add h (Finset.ne_of_mem_erase ha), Nat.zero_add]
  have hsent := hsplit fun a => tally (sent k a) xs
  have hreceived := hsplit fun a => tally (received k a) xs
  have hall := sum_received k xs
  omega

/-! ## Moves of one effect -/

/-- The moves do the same to every holder: what each has received less what it has sent. -/
def Same (xs ys : List (Move κ ι)) : Prop :=
  ∀ k a, tally (received k a) xs + tally (sent k a) ys = tally (received k a) ys + tally (sent k a) xs

theorem Same.refl (xs : List (Move κ ι)) : Same xs xs := fun _ _ => rfl

theorem Same.symm (h : Same xs ys) : Same ys xs := fun k a => (h k a).symm

theorem Same.trans {zs : List (Move κ ι)} (h : Same xs ys) (h' : Same ys zs) : Same xs zs := fun k a => by
  have := h k a
  have := h' k a
  omega

theorem Same.append {xs' ys' : List (Move κ ι)} (h : Same xs ys) (h' : Same xs' ys') : Same (xs ++ xs') (ys ++ ys') :=
  fun k a => by
    have := h k a
    have := h' k a
    simp only [tally_append]
    omega

theorem Same.of_perm (h : xs.Perm ys) : Same xs ys := fun k a => by
  have hr : tally (received k a) xs = tally (received k a) ys := (h.map _).sum_eq
  have hs : tally (sent k a) xs = tally (sent k a) ys := (h.map _).sum_eq
  rw [hr, hs]

/-- A move of no units. -/
theorem Same.none (h : x.units = 0) : Same [x] [] := fun k a => by
  simp [received, sent, h]

/-- Units that move on. -/
theorem Same.through (k : κ) (source middle target : ι) (units : Nat) :
    Same [⟨k, source, middle, units⟩, ⟨k, middle, target, units⟩] [⟨k, source, target, units⟩] := fun k' a => by
  simp only [tally_cons, tally_nil, received, sent]
  omega

/-- Units that move in two parts. -/
theorem Same.split (k : κ) (source target : ι) (m n : Nat) :
    Same [⟨k, source, target, m⟩, ⟨k, source, target, n⟩] [⟨k, source, target, m + n⟩] := fun k' a => by
  simp only [tally_cons, tally_nil, received, sent]
  split <;> split <;> omega

/-- Moves of the same effect give everybody the same. -/
theorem Same.received_add (h : Same xs ys) {n : Nat} (hn : n + tally (sent k a) ys = tally (received k a) ys) :
    n + tally (sent k a) xs = tally (received k a) xs := by
  have := h k a
  omega

end

end Transfers
