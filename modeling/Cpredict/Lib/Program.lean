import Mathlib.Tactic.Common

/-!
# Programs that await

A program awaits the answers to commands; an answer may be an error (`Program`). It runs on a state that the commands
change, and between two commands others change the state too (`Others`). `Safe` says that every command is given only
when it is allowed, that an invariant holds after it, and a postcondition at the end; so a run that is cut off anywhere
leaves the invariant (`Safe.step`). `Triple` is for assertions that nobody else can break. `run` answers all commands
by one function.
-/

namespace Cpredict

/-- `R c` is what the command `c` is answered by. -/
inductive Program {C : Type} (R : C → Type) (ε α : Type) : Type
  | ret (a : α)
  | fail (e : ε)
  | call (c : C) (k : Except ε (R c) → Program R ε α)

namespace Program

variable {C : Type} {R : C → Type} {ε α β : Type}

def bind : Program R ε α → (α → Program R ε β) → Program R ε β
  | ret a, f => f a
  | fail e, _ => fail e
  | call c k, f => call c fun r => (k r).bind f

instance instMonad : Monad (Program R ε) where
  pure := ret
  bind := bind

/-- The end of a program as a value: what a `try` block sees. -/
def attempt : Program R ε α → Program R ε (Except ε α)
  | ret a => ret (.ok a)
  | fail e => ret (.error e)
  | call c k => call c fun r => (k r).attempt

/-- `await c` -/
def await (c : C) : Program R ε (R c) :=
  call c fun
    | .ok a => ret a
    | .error e => fail e

def ofExcept : Except ε α → Program R ε α
  | .ok a => ret a
  | .error e => fail e

@[simp] theorem bind_ret (a : α) (f : α → Program R ε β) : (ret a : Program R ε α) >>= f = f a := rfl

@[simp] theorem pure_bind' (a : α) (f : α → Program R ε β) : (pure a : Program R ε α) >>= f = f a := rfl

@[simp] theorem bind_fail (e : ε) (f : α → Program R ε β) : (fail e : Program R ε α) >>= f = fail e := rfl

/-- One command: the state before it, the answer, and the state after it. -/
abbrev Effect (R : C → Type) (ε σ : Type) := (c : C) → σ → Except ε (R c) → σ → Prop

section

variable {σ : Type} (E : Effect R ε σ) (Others : σ → σ → Prop) (A : C → σ → Prop) (I : σ → Prop)

/-- From the state `s` every command is allowed and keeps the invariant, and the program ends in the postcondition. -/
def Safe : Program R ε α → (Except ε α → σ → Prop) → σ → Prop
  | ret a, Q, s => ∀ t, Others s t → Q (.ok a) t
  | fail e, Q, s => ∀ t, Others s t → Q (.error e) t
  | call c k, Q, s => ∀ t, Others s t → A c t ∧ ∀ r u, E c t r u → I u ∧ (k r).Safe Q u

/-- A step of a program in progress: a command, or a change by others. -/
inductive Step : Program R ε α × σ → Program R ε α × σ → Prop
  | call {c : C} {k : Except ε (R c) → Program R ε α} {s t : σ} {r : Except ε (R c)} : E c s r t →
      Step (.call c k, s) (k r, t)
  | others {p : Program R ε α} {s t : σ} : Others s t → Step (p, s) (p, t)

end

section

variable {σ : Type} {E : Effect R ε σ} {Others : σ → σ → Prop} {A : C → σ → Prop} {I : σ → Prop}
  {p : Program R ε α} {s t : σ}
  {Q : Except ε α → σ → Prop}

theorem Safe.others (ht : ∀ s t u, Others s t → Others t u → Others s u) (h : p.Safe E Others A I Q s)
    (ho : Others s t) :
    p.Safe E Others A I Q t := by
  cases p with
  | ret a => exact fun u hu => h u (ht _ _ _ ho hu)
  | fail e => exact fun u hu => h u (ht _ _ _ ho hu)
  | call c k => exact fun u hu => h u (ht _ _ _ ho hu)

theorem Safe.mono {Q' : Except ε α → σ → Prop} (h : p.Safe E Others A I Q s) (hQ : ∀ r t, Q r t → Q' r t) :
    p.Safe E Others A I Q' s := by
  induction p generalizing s with
  | ret a => exact fun t ht => hQ _ _ (h t ht)
  | fail e => exact fun t ht => hQ _ _ (h t ht)
  | call c k ih =>
    intro t ht
    obtain ⟨ha, h⟩ := h t ht
    refine ⟨ha, ?_⟩
    intro r u he
    obtain ⟨hi, hk⟩ := h r u he
    exact ⟨hi, ih r hk⟩

/-- The rule of sequences: the second program is safe from every state in which the first one ends. -/
theorem Safe.bind {f : α → Program R ε β} {Q : Except ε β → σ → Prop} (hr : ∀ s, Others s s)
    (h : p.Safe E Others A I (fun r t => match r with
      | .ok a => (f a).Safe E Others A I Q t
      | .error e => ∀ u, Others t u → Q (.error e) u) s) : (p >>= f).Safe E Others A I Q s := by
  induction p generalizing s with
  | ret a => exact h s (hr s)
  | fail e => exact h s (hr s)
  | call c k ih =>
    intro t ht
    obtain ⟨ha, h⟩ := h t ht
    refine ⟨ha, ?_⟩
    intro r u he
    obtain ⟨hi, hk⟩ := h r u he
    exact ⟨hi, ih r hk⟩

/-- The rule of `try`. -/
theorem Safe.attempt {Q : Except ε (Except ε α) → σ → Prop} (h : p.Safe E Others A I (fun r t => Q (.ok r) t) s) :
    p.attempt.Safe E Others A I Q s := by
  induction p generalizing s with
  | ret a => exact h
  | fail e => exact h
  | call c k ih =>
    intro t ht
    obtain ⟨ha, h⟩ := h t ht
    refine ⟨ha, ?_⟩
    intro r u he
    obtain ⟨hi, hk⟩ := h r u he
    exact ⟨hi, ih r hk⟩

/-- The command that comes next is allowed. -/
theorem Safe.allowed {c : C} {k : Except ε (R c) → Program R ε α} (hr : ∀ s, Others s s)
    (h : (call c k).Safe E Others A I Q s) : A c s := (h s (hr s)).1

/-- One step of a program in progress keeps the invariant, and the rest of it is safe. -/
theorem Safe.step {q : Program R ε α} (ht : ∀ s t u, Others s t → Others t u → Others s u)
    (hr : ∀ s, Others s s) (hI : ∀ s t, Others s t → I s → I t) (hi : I s) (h : p.Safe E Others A I Q s)
    (hs : Step E Others (p, s) (q, t)) : I t ∧ q.Safe E Others A I Q t := by
  cases hs with
  | call he => exact (h s (hr s)).2 _ t he
  | others ho => exact ⟨hI s t ho hi, h.others ht ho⟩

end

/-! ## Fixed answers -/

section

variable {answer : (c : C) → Except ε (R c)}

/-- The end of a program all of whose commands are answered by one function: nothing changes while it runs. -/
def run (answer : (c : C) → Except ε (R c)) : Program R ε α → Except ε α
  | ret a => .ok a
  | fail e => .error e
  | call c k => (k (answer c)).run answer

@[simp] theorem run_ret (a : α) : (ret a : Program R ε α).run answer = .ok a := rfl

@[simp] theorem run_fail (e : ε) : (fail e : Program R ε α).run answer = .error e := rfl

@[simp] theorem run_await (c : C) : (await c : Program R ε (R c)).run answer = answer c := by
  show (match answer c with
    | .ok a => ret a
    | .error e => fail e : Program R ε (R c)).run answer = answer c
  cases answer c <;> rfl

@[simp] theorem run_ofExcept (x : Except ε α) : (ofExcept x : Program R ε α).run answer = x := by
  cases x <;> rfl

theorem run_bind (p : Program R ε α) (f : α → Program R ε β) :
    (p >>= f).run answer = p.run answer >>= fun a => (f a).run answer := by
  induction p with
  | ret a => rfl
  | fail e => rfl
  | call c k ih => exact ih (answer c)

end

/-! ## Triples -/

section

variable {σ : Type} {E : Effect R ε σ} {Others : σ → σ → Prop} {A : C → σ → Prop} {I : σ → Prop}

/-- Others do not break the assertion. -/
def Stable (Others : σ → σ → Prop) (P : σ → Prop) : Prop := ∀ s t, Others s t → P s → P t

/-- From the precondition the program keeps the invariant, and ends in the postcondition unless it fails. -/
def Triple (E : Effect R ε σ) (Others : σ → σ → Prop) (A : C → σ → Prop) (I P : σ → Prop) (p : Program R ε α)
    (Q : α → σ → Prop) : Prop :=
  ∀ s, I s → P s → p.Safe E Others A I (fun r t => I t ∧ ∀ a, r = .ok a → Q a t) s

variable {P : σ → Prop} {p : Program R ε α} {Q : α → σ → Prop}

theorem Triple.ret {a : α} (hI : Stable Others I) (hP : Stable Others P) (h : ∀ s, P s → Q a s) :
    Triple E Others A I P (ret a) Q := by
  intro s hi hp t ht
  refine ⟨hI s t ht hi, ?_⟩
  rintro _ ⟨⟩
  exact h t (hP s t ht hp)

theorem Triple.fail {e : ε} (hI : Stable Others I) : Triple E Others A I P (.fail e : Program R ε α) Q := by
  intro s hi _ t ht
  refine ⟨hI s t ht hi, ?_⟩
  rintro _ ⟨⟩

theorem Triple.bind {f : α → Program R ε β} {Q' : β → σ → Prop} (hr : ∀ s, Others s s) (hI : Stable Others I)
    (hp : Triple E Others A I P p Q) (hf : ∀ a, Triple E Others A I (Q a) (f a) Q') :
    Triple E Others A I P (p >>= f) Q' := by
  intro s hi h
  apply Safe.bind hr
  refine (hp s hi h).mono ?_
  intro r t ht
  cases r with
  | ok a => exact hf a t ht.1 (ht.2 a rfl)
  | error e =>
    intro u hu
    refine ⟨hI t u hu ht.1, ?_⟩
    rintro _ ⟨⟩

theorem Triple.attempt (hp : Triple E Others A I P p Q) :
    Triple E Others A I P p.attempt fun r s => ∀ a, r = .ok a → Q a s := by
  intro s hi h
  apply Safe.attempt
  refine (hp s hi h).mono ?_
  rintro r t ⟨ht, hq⟩
  refine ⟨ht, ?_⟩
  rintro _ ⟨⟩
  exact hq

theorem Triple.await {c : C} {Q : R c → σ → Prop} (hI : Stable Others I) (hP : Stable Others P)
    (hQ : ∀ a, Stable Others (Q a))
    (ha : ∀ s, I s → P s → A c s) (h : ∀ s r t, I s → P s → E c s r t → I t ∧ ∀ a, r = .ok a → Q a t) :
    Triple E Others A I P (await c) Q := by
  intro s hi hp t ht
  refine ⟨ha t (hI s t ht hi) (hP s t ht hp), ?_⟩
  intro r u he
  obtain ⟨hu, hq⟩ := h t r u (hI s t ht hi) (hP s t ht hp) he
  refine ⟨hu, ?_⟩
  cases r with
  | ok a =>
    intro v hv
    refine ⟨hI u v hv hu, ?_⟩
    rintro _ ⟨⟩
    exact hQ a u v hv (hq a rfl)
  | error e =>
    intro v hv
    refine ⟨hI u v hv hu, ?_⟩
    rintro _ ⟨⟩

theorem Triple.pre {P' : σ → Prop} (h : ∀ s, I s → P' s → P s) (hp : Triple E Others A I P p Q) :
    Triple E Others A I P' p Q := fun s hi hs => hp s hi (h s hi hs)

theorem Triple.post {Q' : α → σ → Prop} (h : ∀ a s, Q a s → Q' a s) (hp : Triple E Others A I P p Q) :
    Triple E Others A I P p Q' := by
  intro s hi hs
  refine (hp s hi hs).mono ?_
  rintro r t ⟨ht, hq⟩
  exact ⟨ht, fun a ha => h a t (hq a ha)⟩

/-- A fact in the precondition is a hypothesis. -/
theorem Triple.fact {φ : Prop} (h : φ → Triple E Others A I P p Q) : Triple E Others A I (fun s => φ ∧ P s) p Q :=
  fun s hi hs => h hs.1 s hi hs.2

theorem Triple.ofExcept {x : Except ε α} (hI : Stable Others I) (hP : Stable Others P)
    (h : ∀ a s, x = .ok a → P s → Q a s) :
    Triple E Others A I P (ofExcept x) Q := by
  cases x with
  | ok a => exact Triple.ret hI hP fun s hs => h a s rfl hs
  | error e => exact Triple.fail hI

end

end Program

end Cpredict
