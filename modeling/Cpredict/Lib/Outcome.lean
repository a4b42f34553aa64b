import Mathlib.Tactic

/-!
# Computations that may revert

A call either returns a value or reverts with an error: `Except ε α`. `Outcome.Ends x Q E` says that `x` returns a
value in `Q` or reverts with an error in `E`; the rules below follow the structure of a `do` block. `revertIf c e` is
`if (c) revert e`, and `checkedSub` is the subtraction of unsigned integers, which reverts when it would underflow.

Two ways to use it: forward, from `x = .ok r` to what the steps of `x` returned (`bind_eq_ok`, `revertIf_eq_ok`,
`checkedSub_eq_ok`), and backward, from a postcondition of the whole to one of its parts (`Ends.bind`).
-/

namespace Outcome

variable {ε α β : Type}

/-- `x` returns a value in `Q` or reverts with an error in `E`. -/
def Ends (x : Except ε α) (Q : α → Prop) (E : ε → Prop) : Prop :=
  match x with
  | .ok a => Q a
  | .error e => E e

/-- `if (c) revert e`. -/
def revertIf (c : Prop) [Decidable c] (e : ε) : Except ε Unit := if c then .error e else .ok ()

/-- `a - b` on unsigned integers: reverts with `e` when it would underflow. -/
def checkedSub (e : ε) (a b : Nat) : Except ε Nat := if b ≤ a then .ok (a - b) else .error e

/-! ## Forward: what the steps of a successful call returned -/

@[simp] theorem bind_eq_ok {x : Except ε α} {f : α → Except ε β} {r : β} :
    (x >>= f) = .ok r ↔ ∃ a, x = .ok a ∧ f a = .ok r := by
  cases x <;> simp [bind, Except.bind]

theorem bind_eq_error {x : Except ε α} {f : α → Except ε β} {e : ε} :
    (x >>= f) = .error e ↔ x = .error e ∨ ∃ a, x = .ok a ∧ f a = .error e := by
  cases x <;> simp [bind, Except.bind]

theorem map_eq_ok {x : Except ε α} {f : α → β} {b : β} : x.map f = .ok b ↔ ∃ a, x = .ok a ∧ f a = b := by
  cases x <;> simp [Except.map]

@[simp] theorem revertIf_eq_ok {c : Prop} [Decidable c] {e : ε} {u : Unit} : revertIf c e = .ok u ↔ ¬c := by
  unfold revertIf
  split <;> simp_all

theorem revertIf_eq_error {c : Prop} [Decidable c] {e e' : ε} : (revertIf c e : Except ε Unit) = .error e' ↔
    c ∧ e = e' := by
  unfold revertIf
  split <;> simp_all

@[simp] theorem checkedSub_eq_ok {e : ε} {a b r : Nat} : checkedSub e a b = .ok r ↔ b ≤ a ∧ a - b = r := by
  unfold checkedSub
  split <;> simp_all

@[simp] theorem ok_bind (a : α) (f : α → Except ε β) : (Except.ok a >>= f) = f a := rfl

@[simp] theorem error_bind (e : ε) (f : α → Except ε β) : ((Except.error e : Except ε α) >>= f) = .error e := rfl

@[simp] theorem revertIf_neg {c : Prop} [Decidable c] (e : ε) (h : ¬c) : revertIf c e = .ok () := if_neg h

@[simp] theorem revertIf_pos {c : Prop} [Decidable c] (e : ε) (h : c) : revertIf c e = .error e := if_pos h

theorem checkedSub_of_le {a b : Nat} (e : ε) (h : b ≤ a) : checkedSub e a b = .ok (a - b) := if_pos h

/-! ## Backward: postconditions of a `do` block -/

theorem Ends.ok {a : α} {Q : α → Prop} {E : ε → Prop} (h : Q a) : Ends (.ok a) Q E := h

theorem Ends.error {e : ε} {Q : α → Prop} {E : ε → Prop} (h : E e) : Ends (.error e) Q E := h

/-- A block ends well when its first step does and the rest does from every result of it. -/
theorem Ends.bind {x : Except ε α} {f : α → Except ε β} {P : α → Prop} {Q : β → Prop} {E : ε → Prop}
    (hx : Ends x P E) (hf : ∀ a, x = .ok a → P a → Ends (f a) Q E) : Ends (x >>= f) Q E := by
  cases x with
  | ok a => exact hf a rfl hx
  | error e => exact hx

theorem Ends.mono {x : Except ε α} {P Q : α → Prop} {E F : ε → Prop} (hx : Ends x P E) (hQ : ∀ a, P a → Q a)
    (hE : ∀ e, E e → F e) : Ends x Q F := by
  cases x with
  | ok a => exact hQ a hx
  | error e => exact hE e hx

/-- A step whose errors are in `E`, followed by the rest. -/
theorem Ends.step {x : Except ε α} {f : α → Except ε β} {Q : β → Prop} {E : ε → Prop} (hx : ∀ e, x = .error e → E e)
    (hf : ∀ a, x = .ok a → Ends (f a) Q E) : Ends (x >>= f) Q E := by
  cases x with
  | ok a => exact hf a rfl
  | error e => exact hx e rfl

theorem Ends.revertIf {c : Prop} [Decidable c] {e : ε} {f : Unit → Except ε β} {Q : β → Prop} {E : ε → Prop}
    (he : c → E e) (hf : ¬c → Ends (f ()) Q E) : Ends (Outcome.revertIf c e >>= f) Q E := by
  by_cases h : c
  · rw [revertIf_pos e h]; exact he h
  · rw [revertIf_neg e h]; exact hf h

/-- A block that is one check. -/
theorem Ends.guard {c : Prop} [Decidable c] {e : ε} {Q : Unit → Prop} {E : ε → Prop} (he : c → E e) (hQ : ¬c → Q ()) :
    Ends (Outcome.revertIf c e) Q E := by
  by_cases h : c
  · rw [revertIf_pos e h]; exact he h
  · rw [revertIf_neg e h]; exact hQ h

/-- A subtraction that cannot underflow. -/
theorem Ends.checkedSub {e : ε} {a b : Nat} {f : Nat → Except ε β} {Q : β → Prop} {E : ε → Prop} (h : b ≤ a)
    (hf : Ends (f (a - b)) Q E) : Ends (Outcome.checkedSub e a b >>= f) Q E := by
  rw [checkedSub_of_le e h]; exact hf

theorem Ends.of_ok {x : Except ε α} {Q : α → Prop} {E : ε → Prop} (hx : Ends x Q E) {a : α} (h : x = .ok a) : Q a := by
  subst h; exact hx

theorem Ends.of_error {x : Except ε α} {Q : α → Prop} {E : ε → Prop} (hx : Ends x Q E) {e : ε} (h : x = .error e) :
    E e := by
  subst h; exact hx

theorem Ends.and {x : Except ε α} {P Q : α → Prop} {E F : ε → Prop} (hP : Ends x P E) (hQ : Ends x Q F) :
    Ends x (fun a => P a ∧ Q a) (fun e => E e ∧ F e) := by
  cases x <;> exact ⟨hP, hQ⟩

/-! ## Folds -/

section

variable {σ : Type} {f : σ → α → Except ε σ} {r : σ → σ} {I : σ → Prop} {l : List α} {s s' : σ}

/-- An invariant of a fold. -/
theorem foldlM_inv (hstep : ∀ x ∈ l, ∀ s s', I s → f s x = .ok s' → I s') (hs : I s) (h : l.foldlM f s = .ok s') :
    I s' := by
  induction l generalizing s with
  | nil =>
    obtain rfl := Except.ok.inj h
    exact hs
  | cons x l ih =>
    rw [List.foldlM_cons] at h
    obtain ⟨s₁, h₁, h⟩ := bind_eq_ok.mp h
    exact ih (fun y hy => hstep y (List.mem_cons_of_mem _ hy)) (hstep x List.mem_cons_self s s₁ hs h₁) h

/-- A fold whose steps commute with a function. -/
theorem foldlM_map (hinv : ∀ x ∈ l, ∀ s s', I s → f s x = .ok s' → I s')
    (hstep : ∀ x ∈ l, ∀ s, I s → f (r s) x = (f s x).map r) (hs : I s) :
    l.foldlM f (r s) = (l.foldlM f s).map r := by
  induction l generalizing s with
  | nil => rfl
  | cons x l ih =>
    rw [List.foldlM_cons, List.foldlM_cons, hstep x List.mem_cons_self s hs]
    cases h₁ : f s x with
    | error e => rfl
    | ok s₁ =>
      exact ih (fun y hy => hinv y (List.mem_cons_of_mem _ hy)) (fun y hy => hstep y (List.mem_cons_of_mem _ hy))
        (hinv x List.mem_cons_self s s₁ hs h₁)

end

end Outcome
