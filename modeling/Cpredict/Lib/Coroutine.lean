import Cpredict.Lib.Reach
import Mathlib.Logic.Function.Basic
import Mathlib.Tactic.Common

/-!
# Coroutines

Coroutines share a state, and only one of them runs at a time: from an await to its next one it is not interrupted,
and at an await any other may go on (`System.Step`). What is awaited is answered in any way. The history has every
answer, and the end of every coroutine together with the moment at which it was started.

`Safe` is the rule for one coroutine among others: whatever a part of it does between two awaits is a change by `G`,
if all that the others do at an await is a change by `G`. A system of safe coroutines only ever changes by `G`
(`System.kept`).
-/

namespace Cpredict

/-- `R c` is what the await `c` is answered by. -/
inductive Coroutine {C : Type} (σ : Type) (R : C → Type) (ε α : Type) : Type
  | ret (a : α)
  | fail (e : ε)
  | get (k : σ → Coroutine σ R ε α)
  | set (s : σ) (k : Coroutine σ R ε α)
  | call (c : C) (k : Except ε (R c) → Coroutine σ R ε α)

namespace Coroutine

variable {C J σ ε α β : Type} {R : C → Type}

def bind : Coroutine σ R ε α → (α → Coroutine σ R ε β) → Coroutine σ R ε β
  | ret a, f => f a
  | fail e, _ => fail e
  | get k, f => get fun s => (k s).bind f
  | set s k, f => set s (k.bind f)
  | call c k, f => call c fun r => (k r).bind f

instance instMonad : Monad (Coroutine σ R ε) where
  pure := ret
  bind := bind

/-- The end of a coroutine as a value: what a `try` block sees. -/
def attempt : Coroutine σ R ε α → Coroutine σ R ε (Except ε α)
  | ret a => ret (.ok a)
  | fail e => ret (.error e)
  | get k => get fun s => (k s).attempt
  | set s k => set s k.attempt
  | call c k => call c fun r => (k r).attempt

/-- `await c` -/
def await (c : C) : Coroutine σ R ε (R c) :=
  call c fun
    | .ok a => ret a
    | .error e => fail e

def read : Coroutine σ R ε σ := get ret

def modify (f : σ → σ) : Coroutine σ R ε Unit := get fun s => set (f s) (ret ())

def ofExcept : Except ε α → Coroutine σ R ε α
  | .ok a => ret a
  | .error e => fail e

/-- What is left of a coroutine at its next await, or at its end, and the state that it leaves. -/
def run : Coroutine σ R ε α → σ → Coroutine σ R ε α × σ
  | get k, s => (k s).run s
  | set s k, _ => k.run s
  | p, s => (p, s)

theorem run_ne_get (p : Coroutine σ R ε α) (s : σ) (k : σ → Coroutine σ R ε α) : (p.run s).1 ≠ .get k := by
  induction p generalizing s with
  | get _ ih => exact ih _ s
  | set t _ ih => exact ih t
  | _ => nofun

theorem run_ne_set (p : Coroutine σ R ε α) (s t : σ) (k : Coroutine σ R ε α) : (p.run s).1 ≠ .set t k := by
  induction p generalizing s with
  | get _ ih => exact ih _ s
  | set t _ ih => exact ih t
  | _ => nofun

/-! ## Histories -/

/-- A coroutine that was started: what for, when, and in which state. -/
structure Activation (J σ : Type) where
  job : J
  since : Nat
  state : σ

inductive Entry (J σ : Type) (R : C → Type) (ε α : Type)
  | answered (c : C) (r : Except ε (R c))
  | ended (a : Activation J σ) (r : Except ε α)

/-- A state, and how it came about. -/
structure History (J σ : Type) (R : C → Type) (ε α : Type) where
  state : σ
  trace : List (Entry J σ R ε α)

namespace History

def put (X : History J σ R ε α) (s : σ) : History J σ R ε α := { X with state := s }

def answered (X : History J σ R ε α) (c : C) (r : Except ε (R c)) : History J σ R ε α :=
  { X with trace := X.trace ++ [.answered c r] }

def ended (X : History J σ R ε α) (a : Activation J σ) (r : Except ε α) : History J σ R ε α :=
  { X with trace := X.trace ++ [.ended a r] }

@[simp] theorem put_state (X : History J σ R ε α) (s : σ) : (X.put s).state = s := rfl

@[simp] theorem put_trace (X : History J σ R ε α) (s : σ) : (X.put s).trace = X.trace := rfl

@[simp] theorem answered_state (X : History J σ R ε α) (c : C) (r : Except ε (R c)) :
    (X.answered c r).state = X.state := rfl

@[simp] theorem answered_trace (X : History J σ R ε α) (c : C) (r : Except ε (R c)) :
    (X.answered c r).trace = X.trace ++ [.answered c r] := rfl

@[simp] theorem ended_state (X : History J σ R ε α) (a : Activation J σ) (r : Except ε α) :
    (X.ended a r).state = X.state := rfl

@[simp] theorem ended_trace (X : History J σ R ε α) (a : Activation J σ) (r : Except ε α) :
    (X.ended a r).trace = X.trace ++ [.ended a r] := rfl

end History

/-- A coroutine that runs while no other does. -/
inductive Solo : Coroutine σ R ε β → History J σ R ε α → Except ε β → History J σ R ε α → Prop
  | ret {b : β} {X : History J σ R ε α} : Solo (.ret b) X (.ok b) X
  | fail {e : ε} {X : History J σ R ε α} : Solo (.fail e) X (.error e) X
  | get {k : σ → Coroutine σ R ε β} {X Y : History J σ R ε α} {r : Except ε β} : Solo (k X.state) X r Y →
      Solo (.get k) X r Y
  | set {s : σ} {k : Coroutine σ R ε β} {X Y : History J σ R ε α} {r : Except ε β} : Solo k (X.put s) r Y →
      Solo (.set s k) X r Y
  | call {c : C} {k : Except ε (R c) → Coroutine σ R ε β} {a : Except ε (R c)} {X Y : History J σ R ε α}
      {r : Except ε β} :
      Solo (k a) (X.answered c a) r Y → Solo (.call c k) X r Y

/-! ## Systems -/

/-- A history, and what every coroutine in progress still has to run. -/
structure System (J σ : Type) (R : C → Type) (ε α : Type) where
  history : History J σ R ε α
  running : Nat → Option (Activation J σ × Coroutine σ R ε α)

/-- A coroutine goes on to its next await, or to its end. -/
def System.go (X : History J σ R ε α) (T : Nat → Option (Activation J σ × Coroutine σ R ε α)) (i : Nat)
    (a : Activation J σ)
    (p : Coroutine σ R ε α) : System J σ R ε α :=
  match p.run X.state with
  | (.ret v, s) => ⟨(X.put s).ended a (.ok v), Function.update T i none⟩
  | (.fail e, s) => ⟨(X.put s).ended a (.error e), Function.update T i none⟩
  | (q, s) => ⟨X.put s, Function.update T i (some (a, q))⟩

section

variable (body : J → Coroutine σ R ε α) (Starts : J → σ → Prop) (Env : σ → σ → Prop)

inductive System.Step : System J σ R ε α → System J σ R ε α → Prop
  | start {X : History J σ R ε α} {T : Nat → Option (Activation J σ × Coroutine σ R ε α)} {i : Nat} {j : J} :
      T i = none → Starts j X.state → Step ⟨X, T⟩ (System.go X T i ⟨j, X.trace.length, X.state⟩ (body j))
  | answer {X : History J σ R ε α} {T : Nat → Option (Activation J σ × Coroutine σ R ε α)} {i : Nat}
      {a : Activation J σ} {c : C}
      {k : Except ε (R c) → Coroutine σ R ε α} {r : Except ε (R c)} :
      T i = some (a, .call c k) → Step ⟨X, T⟩ (System.go (X.answered c r) T i a (k r))
  | env {X : History J σ R ε α} {T : Nat → Option (Activation J σ × Coroutine σ R ε α)} {s : σ} :
      Env X.state s → Step ⟨X, T⟩ ⟨X.put s, T⟩

end

/-- The beginning, in which nothing runs. -/
def System.Initial (Init : History J σ R ε α → Prop) (X : System J σ R ε α) : Prop :=
  Init X.history ∧ ∀ i, X.running i = none

/-! ## The rule for one among others -/

/-- `X` is where the part in progress began, and `Y` is how far it has come. The postcondition is about both. -/
def Safe (G : History J σ R ε α → History J σ R ε α → Prop) :
    Coroutine σ R ε β → (Except ε β → History J σ R ε α → History J σ R ε α → Prop) →
      History J σ R ε α → History J σ R ε α → Prop
  | ret b, Q, X, Y => Q (.ok b) X Y
  | fail e, Q, X, Y => Q (.error e) X Y
  | get k, Q, X, Y => (k Y.state).Safe G Q X Y
  | set s k, Q, X, Y => k.Safe G Q X (Y.put s)
  | call c k, Q, X, Y => G X Y ∧ ∀ Z, G Y Z → ∀ r, (k r).Safe G Q Z (Z.answered c r)

section

variable {G : History J σ R ε α → History J σ R ε α → Prop} {p : Coroutine σ R ε β} {X Y : History J σ R ε α}
  {Q Q' : Except ε β → History J σ R ε α → History J σ R ε α → Prop}

theorem Safe.mono (h : p.Safe G Q X Y) (hQ : ∀ r X Y, Q r X Y → Q' r X Y) : p.Safe G Q' X Y := by
  induction p generalizing X Y with
  | ret b => exact hQ _ _ _ h
  | fail e => exact hQ _ _ _ h
  | get k ih => exact ih _ h
  | set s k ih => exact ih h
  | call c k ih => exact ⟨h.1, fun Z hZ r => ih r (h.2 Z hZ r)⟩

/-- The rule of sequences. -/
theorem Safe.bind {γ : Type} {f : β → Coroutine σ R ε γ} {S : Except ε γ → History J σ R ε α → History J σ R ε α → Prop}
    (h : p.Safe G Q X Y) (hf : ∀ b X Y, Q (.ok b) X Y → (f b).Safe G S X Y) (he : ∀ e X Y, Q (.error e) X Y →
      S (.error e) X Y) :
    (p >>= f).Safe G S X Y := by
  induction p generalizing X Y with
  | ret b => exact hf _ _ _ h
  | fail e => exact he _ _ _ h
  | get k ih => exact ih _ h
  | set s k ih => exact ih h
  | call c k ih => exact ⟨h.1, fun Z hZ r => ih r (h.2 Z hZ r)⟩

/-- The rule of `try`. -/
theorem Safe.attempt {S : Except ε (Except ε β) → History J σ R ε α → History J σ R ε α → Prop}
    (h : p.Safe G (fun r => S (.ok r)) X Y) : p.attempt.Safe G S X Y := by
  induction p generalizing X Y with
  | ret b => exact h
  | fail e => exact h
  | get k ih => exact ih _ h
  | set s k ih => exact ih h
  | call c k ih => exact ⟨h.1, fun Z hZ r => ih r (h.2 Z hZ r)⟩

theorem Safe.await {c : C} {Q : Except ε (R c) → History J σ R ε α → History J σ R ε α → Prop} (hG : G X Y)
    (h : ∀ Z, G Y Z → ∀ r, Q r Z (Z.answered c r)) : (Coroutine.await c).Safe G Q X Y := by
  refine ⟨hG, fun Z hZ r => ?_⟩
  cases r with
  | ok a => exact h Z hZ (.ok a)
  | error e => exact h Z hZ (.error e)

theorem Safe.ofExcept {x : Except ε β} (h : Q x X Y) : (ofExcept x).Safe G Q X Y := by
  cases x with
  | ok b => exact h
  | error e => exact h

/-- The part in progress, run to its end. -/
theorem Safe.run (h : p.Safe G Q X Y) : (p.run Y.state).1.Safe G Q X (Y.put (p.run Y.state).2) := by
  induction p generalizing Y with
  | get k ih => exact ih _ h
  | set s k ih => exact ih (Y := Y.put s) h
  | ret b => exact h
  | fail e => exact h
  | call c k ih => exact h

theorem Safe.of_run (h : (p.run Y.state).1.Safe G Q X (Y.put (p.run Y.state).2)) : p.Safe G Q X Y := by
  induction p generalizing Y with
  | get k ih => exact ih _ h
  | set s k ih => exact ih (Y := Y.put s) h
  | ret b => exact h
  | fail e => exact h
  | call c k ih => exact h

/-- Nobody else changes anything. -/
theorem Safe.solo {r : Except ε β} {Z : History J σ R ε α} (hr : ∀ X Y, G X Y → G Y Y) (h : p.Safe G Q X Y)
    (hs : p.Solo Y r Z) :
    ∃ X', Q r X' Z := by
  induction hs generalizing X with
  | ret => exact ⟨X, h⟩
  | fail => exact ⟨X, h⟩
  | get _ ih => exact ih h
  | set _ ih => exact ih h
  | call _ ih => exact ih (h.2 _ (hr _ _ h.1) _)

end

/-! ## Parts without an await -/

/-- From `s` the coroutine comes to its end `r` without an await, and leaves `t`. -/
def Ends (p : Coroutine σ R ε β) (s : σ) (r : Except ε β) (t : σ) : Prop := p.run s = (ofExcept r, t)

theorem Safe.of_ends {G : History J σ R ε α → History J σ R ε α → Prop} {p : Coroutine σ R ε β}
    {Q : Except ε β → History J σ R ε α → History J σ R ε α → Prop} {X Y : History J σ R ε α} {r : Except ε β} {s : σ}
    (h : p.Ends Y.state r s) (hq : Q r X (Y.put s)) : p.Safe G Q X Y := by
  apply Safe.of_run
  rw [show p.run Y.state = (Coroutine.ofExcept r, s) from h]
  exact Safe.ofExcept hq

/-- From `P` the coroutine comes to its end without an await; the state changes by `T`. -/
def Sync (T : σ → σ → Prop) (P : σ → Prop) (p : Coroutine σ R ε β) (Q : β → σ → Prop) : Prop :=
  ∀ s, P s → ∃ r t, p.Ends s r t ∧ T s t ∧ ∀ b, r = .ok b → Q b t

section

variable {T : σ → σ → Prop} {P : σ → Prop} {p : Coroutine σ R ε β} {Q : β → σ → Prop}

theorem Ends.bind {γ : Type} {f : β → Coroutine σ R ε γ} {s t : σ} {b : β} (h : p.Ends s (.ok b) t) :
    (p >>= f).run s = (f b).run t := by
  unfold Ends at h
  induction p generalizing s with
  | ret b =>
    obtain ⟨hr, rfl⟩ := Prod.mk.inj h
    cases hr
    rfl
  | fail e => cases h
  | get k ih => exact ih _ h
  | set x k ih => exact ih h
  | call c k ih => cases h

theorem Ends.bind_error {γ : Type} {f : β → Coroutine σ R ε γ} {s t : σ} {e : ε} (h : p.Ends s (.error e) t) :
    (p >>= f).Ends s (.error e) t := by
  unfold Ends at h ⊢
  induction p generalizing s with
  | ret b => cases h
  | fail e =>
    obtain ⟨hr, rfl⟩ := Prod.mk.inj h
    cases hr
    rfl
  | get k ih => exact ih _ h
  | set x k ih => exact ih h
  | call c k ih => cases h

theorem Sync.ret {b : β} (hT : ∀ s, T s s) (h : ∀ s, P s → Q b s) : Sync T P (ret b : Coroutine σ R ε β) Q := by
  intro s hs
  refine ⟨.ok b, s, rfl, hT s, ?_⟩
  rintro _ ⟨⟩
  exact h s hs

theorem Sync.fail {e : ε} (hT : ∀ s, T s s) : Sync T P (fail e : Coroutine σ R ε β) Q := by
  intro s hs
  refine ⟨.error e, s, rfl, hT s, ?_⟩
  rintro _ ⟨⟩

theorem Sync.ofExcept {x : Except ε β} (hT : ∀ s, T s s) (h : ∀ b s, x = .ok b → P s → Q b s) :
    Sync T P (Coroutine.ofExcept x : Coroutine σ R ε β) Q := by
  cases x with
  | ok b => exact Sync.ret hT fun s hs => h b s rfl hs
  | error e => exact Sync.fail hT

theorem Sync.read (hT : ∀ s, T s s) : Sync T P (read : Coroutine σ R ε σ) fun b s => b = s ∧ P s := by
  intro s hs
  refine ⟨.ok s, s, rfl, hT s, ?_⟩
  rintro _ ⟨⟩
  exact ⟨rfl, hs⟩

theorem Sync.modify {f : σ → σ} {Q : Unit → σ → Prop} (hT : ∀ s, P s → T s (f s)) (h : ∀ s, P s → Q () (f s)) :
    Sync T P (Coroutine.modify f : Coroutine σ R ε Unit) Q := by
  intro s hs
  refine ⟨.ok (), f s, rfl, hT s hs, ?_⟩
  rintro _ ⟨⟩
  exact h s hs

theorem Sync.bind {γ : Type} {f : β → Coroutine σ R ε γ} {S : γ → σ → Prop} (ht : ∀ s t u, T s t → T t u → T s u)
    (h : Sync T P p Q) (hf : ∀ b, Sync T (Q b) (f b) S) : Sync T P (p >>= f) S := by
  intro s hs
  obtain ⟨r, t, he, hst, hq⟩ := h s hs
  cases r with
  | ok b =>
    obtain ⟨r', u, he', htu, hs'⟩ := hf b t (hq b rfl)
    exact ⟨r', u, he.bind.trans he', ht _ _ _ hst htu, hs'⟩
  | error e =>
    refine ⟨.error e, t, he.bind_error, hst, ?_⟩
    rintro _ ⟨⟩

theorem Sync.mono {P' : σ → Prop} {Q' : β → σ → Prop} (h : Sync T P p Q) (hP : ∀ s, P' s → P s)
    (hQ : ∀ b s, Q b s → Q' b s) :
    Sync T P' p Q' := by
  intro s hs
  obtain ⟨r, t, he, hst, hq⟩ := h s (hP s hs)
  exact ⟨r, t, he, hst, fun b hb => hQ b t (hq b hb)⟩

end

/-! ## Parts that only change by `G` -/

section

variable {G : History J σ R ε α → History J σ R ε α → Prop}

/-- From `P`, and whatever others do at an await, the coroutine ends in `Q`; all it does is a change by `G`. -/
def Spec (G : History J σ R ε α → History J σ R ε α → Prop) (P : History J σ R ε α → Prop) (p : Coroutine σ R ε β)
    (Q : β → History J σ R ε α → Prop) : Prop :=
  ∀ X Y, G X Y → P Y → p.Safe G (fun r X' Y' => (G X' Y' ∧ G Y Y') ∧ ∀ b, r = .ok b → Q b Y') X Y

/-- What a change by `G` leaves true. -/
def Persists (G : History J σ R ε α → History J σ R ε α → Prop) (P : History J σ R ε α → Prop) : Prop :=
  ∀ X Y, G X Y → P X → P Y

variable {P : History J σ R ε α → Prop} {p : Coroutine σ R ε β} {Q : β → History J σ R ε α → Prop}

theorem Spec.ret {b : β} (hr : ∀ X Y, G X Y → G Y Y) (h : ∀ X, P X → Q b X) : Spec G P (ret b) Q := by
  intro X Y hg hp
  refine ⟨⟨hg, hr _ _ hg⟩, ?_⟩
  rintro _ ⟨⟩
  exact h Y hp

theorem Spec.fail {e : ε} (hr : ∀ X Y, G X Y → G Y Y) : Spec G P (fail e : Coroutine σ R ε β) Q := by
  intro X Y hg hp
  refine ⟨⟨hg, hr _ _ hg⟩, ?_⟩
  rintro _ ⟨⟩

theorem Spec.bind {γ : Type} {f : β → Coroutine σ R ε γ} {S : γ → History J σ R ε α → Prop}
    (ht : ∀ X Y Z, G X Y → G Y Z → G X Z)
    (h : Spec G P p Q) (hf : ∀ b, Spec G (Q b) (f b) S) : Spec G P (p >>= f) S := by
  intro X Y hg hp
  refine (h X Y hg hp).bind ?_ ?_
  · rintro b X' Y' ⟨⟨hg', hy⟩, hq⟩
    refine (hf b X' Y' hg' (hq b rfl)).mono ?_
    rintro r X₂ Y₂ ⟨⟨hg₂, hy₂⟩, hs⟩
    exact ⟨⟨hg₂, ht _ _ _ hy hy₂⟩, hs⟩
  · rintro e X' Y' ⟨hg', -⟩
    exact ⟨hg', nofun⟩

theorem Spec.attempt (h : Spec G P p Q) : Spec G P p.attempt fun r X => ∀ b, r = .ok b → Q b X := by
  intro X Y hg hp
  refine ((h X Y hg hp).mono ?_).attempt
  rintro r X' Y' ⟨hg', hq⟩
  refine ⟨hg', ?_⟩
  rintro _ ⟨⟩
  exact hq

theorem Spec.pre {P' : History J σ R ε α → Prop} (h : Spec G P p Q) (hP : ∀ X, P' X → P X) : Spec G P' p Q :=
  fun X Y hg hp => h X Y hg (hP Y hp)

theorem Spec.post {Q' : β → History J σ R ε α → Prop} (h : Spec G P p Q) (hQ : ∀ b X, Q b X → Q' b X) :
    Spec G P p Q' := by
  intro X Y hg hp
  refine (h X Y hg hp).mono ?_
  rintro r X' Y' ⟨hg', hq⟩
  exact ⟨hg', fun b hb => hQ b Y' (hq b hb)⟩

/-- What persists holds afterwards as well. -/
theorem Spec.frame {F : History J σ R ε α → Prop} (hF : Persists G F) (h : Spec G P p Q) :
    Spec G (fun X => P X ∧ F X) p fun b X => Q b X ∧ F X := by
  rintro X Y hg ⟨hp, hf⟩
  refine (h X Y hg hp).mono ?_
  rintro r X' Y' ⟨⟨hg', hy⟩, hq⟩
  exact ⟨⟨hg', hy⟩, fun b hb => ⟨hq b hb, hF Y Y' hy hf⟩⟩

theorem Spec.await {c : C} {Q : R c → History J σ R ε α → Prop} (hr : ∀ X Y, G X Y → G Y Y)
    (hP : Persists G P) (ha : ∀ X Y r, G X Y → G X (Y.answered c r))
    (h : ∀ X a, P X → Q a (X.answered c (.ok a))) : Spec G P (Coroutine.await c) Q := by
  intro X Y hg hp
  refine Safe.await hg ?_
  intro Z hZ r
  refine ⟨⟨ha Z Z r (hr _ _ hZ), ha Y Z r hZ⟩, ?_⟩
  rintro a rfl
  exact h Z a (hP Y Z hZ hp)

/-- A part without an await whose change is one by `G`. -/
theorem Spec.ofSync {T : σ → σ → Prop} {A : σ → Prop} {B : β → σ → Prop} (h : Sync T A p B)
    (ht : ∀ X Y Z, G X Y → G Y Z → G X Z)
    (hP : ∀ X, P X → A X.state) (hT : ∀ X Y s, G X Y → P Y → T Y.state s → G Y (Y.put s))
    (hQ : ∀ X Y s b, G X Y → P Y → T Y.state s → B b s → Q b (Y.put s)) : Spec G P p Q := by
  intro X Y hg hp
  obtain ⟨r, s, he, hst, hq⟩ := h Y.state (hP Y hp)
  have hy := hT X Y s hg hp hst
  exact Safe.of_ends he ⟨⟨ht _ _ _ hg hy, hy⟩, fun b hb => hQ X Y s b hg hp hst (hq b hb)⟩

end

/-! ## Systems of safe coroutines -/

/-- What is left of a coroutine is safe. -/
def Waits (G : History J σ R ε α → History J σ R ε α → Prop) (X : History J σ R ε α) (a : Activation J σ) :
    Coroutine σ R ε α → Prop
  | call c k => ∀ Z, G X Z → ∀ r, (k r).Safe G (fun r X Y => G X (Y.ended a r)) Z (Z.answered c r)
  | _ => True

structure System.Kept (G : History J σ R ε α → History J σ R ε α → Prop) (X : System J σ R ε α) : Prop where
  now : G X.history X.history
  waits : ∀ i a p, X.running i = some (a, p) → Waits G X.history a p

section

variable {G : History J σ R ε α → History J σ R ε α → Prop} {body : J → Coroutine σ R ε α} {Starts : J → σ → Prop}
  {Env : σ → σ → Prop} {X Y : System J σ R ε α}

theorem Waits.later (ht : ∀ X Y Z, G X Y → G Y Z → G X Z) {X Y : History J σ R ε α} {a : Activation J σ}
    {p : Coroutine σ R ε α}
    (h : Waits G X a p) (hg : G X Y) : Waits G Y a p := by
  cases p with
  | call c k => exact fun Z hZ r => h Z (ht _ _ _ hg hZ) r
  | ret b => trivial
  | fail e => trivial
  | get k => trivial
  | set s k => trivial

/-- A coroutine goes on: the others keep what they rely on. -/
theorem System.Kept.go (ht : ∀ X Y Z, G X Y → G Y Z → G X Z) (hr : ∀ X Y, G X Y → G Y Y) {X Y : History J σ R ε α}
    {T : Nat → Option (Activation J σ × Coroutine σ R ε α)} {i : Nat} {a : Activation J σ} {p : Coroutine σ R ε α}
    (hT : ∀ i a p, T i = some (a, p) → Waits G X a p) (h : p.Safe G (fun r X Y => G X (Y.ended a r)) X Y) :
    (System.go Y T i a p).Kept G ∧ G X (System.go Y T i a p).history := by
  have hold : ∀ {Z : History J σ R ε α} {q : Option (Activation J σ × Coroutine σ R ε α)}, G X Z →
      (∀ a p, q = some (a, p) → Waits G Z a p) → System.Kept G ⟨Z, Function.update T i q⟩ := by
    intro Z q hg hq
    refine ⟨hr _ _ hg, ?_⟩
    intro j b s hj
    by_cases hji : j = i
    · subst hji
      exact hq b s (by simpa using hj)
    · exact (hT j b s (by simpa [hji] using hj)).later ht hg
  have hrun := h.run
  unfold System.go
  cases hp : p.run Y.state with
  | mk q s =>
    rw [hp] at hrun
    cases q with
    | ret v => exact ⟨hold hrun nofun, hrun⟩
    | fail e => exact ⟨hold hrun nofun, hrun⟩
    | call c k =>
      refine ⟨hold hrun.1 ?_, hrun.1⟩
      rintro _ _ ⟨⟩
      exact hrun.2
    | get k =>
      have := congrArg Prod.fst hp
      exact absurd this (run_ne_get p Y.state k)
    | set x k =>
      have := congrArg Prod.fst hp
      exact absurd this (run_ne_set p Y.state x k)

/-- A step of a system of safe coroutines is a change by `G`. -/
theorem System.Kept.step (ht : ∀ X Y Z, G X Y → G Y Z → G X Z) (hr : ∀ X Y, G X Y → G Y Y)
    (hb : ∀ X j, G X X → Starts j X.state →
      (body j).Safe G (fun r X' Y => G X' (Y.ended ⟨j, X.trace.length, X.state⟩ r)) X X)
    (he : ∀ X s, G X X → Env X.state s → G X (X.put s)) (hX : X.Kept G) (h : System.Step body Starts Env X Y) :
    Y.Kept G := by
  cases h with
  | @start Z T i j _ hs => exact (System.Kept.go ht hr hX.waits (hb Z j hX.now hs)).1
  | @answer Z T i a c k r hi => exact (System.Kept.go ht hr hX.waits (hX.waits i a _ hi Z hX.now r)).1
  | @env Z T s hs =>
    have hg := he Z s hX.now hs
    exact ⟨hr _ _ hg, fun i a p hi => (hX.waits i a p hi).later ht hg⟩

/-- **A system of safe coroutines keeps what `G` says of a history.** -/
theorem System.kept {Init : History J σ R ε α → Prop} (ht : ∀ X Y Z, G X Y → G Y Z → G X Z) (hr : ∀ X Y, G X Y → G Y Y)
    (hi : ∀ X, Init X → G X X)
    (hb : ∀ X j, G X X → Starts j X.state →
      (body j).Safe G (fun r X' Y => G X' (Y.ended ⟨j, X.trace.length, X.state⟩ r)) X X)
    (he : ∀ X s, G X X → Env X.state s → G X (X.put s))
    (h : Reach.Reachable (System.Initial Init) (System.Step body Starts Env) X) : G X.history X.history := by
  refine (Reach.Reachable.invariant (I := fun X => System.Kept G X) ?_ (fun X Y _ hX hs => hX.step ht hr hb he hs)
    h).now
  rintro X ⟨hX, hn⟩
  refine ⟨hi _ hX, ?_⟩
  intro i a p hp
  rw [hn i] at hp
  cases hp

end

/-! ## Schedules -/

/-- What happens next: a coroutine is started, or the await of one is answered. -/
inductive Action (J : Type) (R : C → Type) (ε : Type)
  | start (i : Nat) (j : J)
  | answer (i : Nat) (f : (c : C) → Except ε (R c))

def System.play (body : J → Coroutine σ R ε α) (X : System J σ R ε α) : Action J R ε → System J σ R ε α
  | .start i j => System.go X.history X.running i ⟨j, X.history.trace.length, X.history.state⟩ (body j)
  | .answer i f =>
    match X.running i with
    | some (a, .call c k) => System.go (X.history.answered c (f c)) X.running i a (k (f c))
    | _ => X

/-- All actions can be taken when their turn comes. -/
def Action.AllValid (body : J → Coroutine σ R ε α) (Starts : J → σ → Prop) :
    System J σ R ε α → List (Action J R ε) → Prop
  | _, [] => True
  | X, .start i j :: rest => (X.running i = none ∧ Starts j X.history.state) ∧
      AllValid body Starts (X.play body (.start i j)) rest
  | X, .answer i f :: rest => AllValid body Starts (X.play body (.answer i f)) rest

/-- A schedule is a run. -/
theorem System.play_run {body : J → Coroutine σ R ε α} {Starts : J → σ → Prop} {Env : σ → σ → Prop}
    {X : System J σ R ε α}
    {actions : List (Action J R ε)} (h : Action.AllValid body Starts X actions) :
    Reach.Run (System.Step body Starts Env) X (actions.foldl (System.play body) X) := by
  induction actions generalizing X with
  | nil => exact .refl
  | cons a rest ih =>
    cases a with
    | start i j => exact (Relation.ReflTransGen.single (System.Step.start h.1.1 h.1.2)).trans (ih h.2)
    | answer i f =>
      refine Relation.ReflTransGen.trans ?_ (ih h)
      unfold System.play
      dsimp only
      split
      · rename_i hi
        exact .single (System.Step.answer hi)
      · exact .refl

/-- A coroutine that runs alone, by answers that are given. -/
def solo (f : (c : C) → Except ε (R c)) : Coroutine σ R ε β → History J σ R ε α → Except ε β × History J σ R ε α
  | ret b, X => (.ok b, X)
  | fail e, X => (.error e, X)
  | get k, X => (k X.state).solo f X
  | set s k, X => k.solo f (X.put s)
  | call c k, X => (k (f c)).solo f (X.answered c (f c))

theorem solo_solo (f : (c : C) → Except ε (R c)) (p : Coroutine σ R ε β) (X : History J σ R ε α) :
    p.Solo X (p.solo f X).1 (p.solo f X).2 := by
  induction p generalizing X with
  | ret b => exact .ret
  | fail e => exact .fail
  | get k ih => exact .get (ih _ X)
  | set s k ih => exact .set (ih _)
  | call c k ih => exact .call (ih _ _)

end Coroutine

end Cpredict
