import Cpredict.Lib.Program
import Cpredict.Lib.Reach
import Mathlib.Logic.Function.Basic

/-!
# Threads and protocols

Programs that run at the same time on one state: any thread may make its next await, a thread may stop where it is,
and the surroundings may change the state. The trace has every await, with its thread and its answer, and the state
before it.

A protocol says which awaits a thread may make, by what it has awaited before. If every program conforms to the
protocol (`Conforms`), then a run of threads is a run of the protocol (`Threads.reachable`); what holds of all runs
is shown of those.
-/

namespace Cpredict

namespace Program

variable {C : Type} {R : C → Type} {ε σ α β : Type}

/-- An await and its answer. -/
structure Event (R : C → Type) (ε : Type) where
  cmd : C
  reply : Except ε (R cmd)

/-- What a thread may await next. -/
abbrev Protocol (R : C → Type) (ε : Type) := List (Event R ε) → C → Prop

/-! ## Programs that conform -/

/-- After the awaits `l` every await of the program is permitted, and if it ends, it ends in the postcondition. -/
def Conforms (P : Protocol R ε) : Program R ε α → (α → List (Event R ε) → Prop) → List (Event R ε) → Prop
  | ret a, Q, l => Q a l
  | fail _, _, _ => True
  | call c k, Q, l => P l c ∧ ∀ r, (k r).Conforms P Q (l ++ [⟨c, r⟩])

section

variable {P : Protocol R ε} {p : Program R ε α} {f : α → Program R ε β} {Q Q' : α → List (Event R ε) → Prop}
  {S : β → List (Event R ε) → Prop} {l : List (Event R ε)}

theorem Conforms.ret {a : α} (h : Q a l) : (ret a).Conforms P Q l := h

theorem Conforms.fail {e : ε} : (fail e).Conforms P Q l := trivial

theorem Conforms.mono (h : p.Conforms P Q l) (hQ : ∀ a m, l <+: m → Q a m → Q' a m) : p.Conforms P Q' l := by
  induction p generalizing l with
  | ret a => exact hQ _ _ (List.prefix_refl l) h
  | fail e => trivial
  | call c k ih =>
    refine ⟨h.1, fun r => ih r (h.2 r) ?_⟩
    intro a m hm
    exact hQ a m ((List.prefix_append l _).trans hm)

/-- The rule of sequences. -/
theorem Conforms.bind (h : p.Conforms P Q l) (hf : ∀ a m, l <+: m → Q a m → (f a).Conforms P S m) :
    (p >>= f).Conforms P S l := by
  induction p generalizing l with
  | ret a => exact hf a l (List.prefix_refl l) h
  | fail e => trivial
  | call c k ih =>
    refine ⟨h.1, fun r => ih r (h.2 r) ?_⟩
    intro a m hm
    exact hf a m ((List.prefix_append l _).trans hm)

/-- The rule of `try`. -/
theorem Conforms.attempt (h : p.Conforms P Q l) :
    p.attempt.Conforms P (fun r m => l <+: m ∧ ∀ a, r = .ok a → Q a m) l := by
  induction p generalizing l with
  | ret a =>
    refine ⟨List.prefix_refl l, ?_⟩
    rintro _ ⟨⟩
    exact h
  | fail e =>
    refine ⟨List.prefix_refl l, ?_⟩
    rintro _ ⟨⟩
  | call c k ih =>
    refine ⟨h.1, fun r => (ih r (h.2 r)).mono ?_⟩
    rintro _ m _ ⟨hm, hq⟩
    exact ⟨(List.prefix_append l _).trans hm, hq⟩

/-- An await whose error is caught. -/
theorem Conforms.attempt_bind {c : C} {f : Except ε (R c) → Program R ε β} (hc : P l c)
    (h : ∀ r, (f r).Conforms P S (l ++ [⟨c, r⟩])) : ((Program.await c).attempt >>= f).Conforms P S l := by
  refine ⟨hc, ?_⟩
  intro r
  cases r with
  | ok a => exact h (.ok a)
  | error e => exact h (.error e)

/-- The rule of an await. -/
theorem Conforms.await_bind {c : C} {f : R c → Program R ε β} (hc : P l c)
    (h : ∀ a, (f a).Conforms P S (l ++ [⟨c, .ok a⟩])) : (Program.await c >>= f).Conforms P S l := by
  refine ⟨hc, ?_⟩
  intro r
  cases r with
  | ok a => exact h a
  | error e => trivial

theorem Conforms.await {c : C} {S : R c → List (Event R ε) → Prop} (hc : P l c) (h : ∀ a, S a (l ++ [⟨c, .ok a⟩])) :
    (Program.await c).Conforms P S l := by
  refine ⟨hc, ?_⟩
  intro r
  cases r with
  | ok a => exact h a
  | error e => trivial

theorem Conforms.ofExcept {x : Except ε α} (h : ∀ a, x = .ok a → Q a l) :
    (Program.ofExcept x).Conforms P Q l := by
  cases x with
  | ok a => exact h a rfl
  | error e => trivial

theorem Conforms.ofExcept_bind {x : Except ε α} (h : ∀ a, x = .ok a → (f a).Conforms P S l) :
    (Program.ofExcept x >>= f).Conforms P S l := by
  cases x with
  | ok a => exact h a rfl
  | error e => trivial

end

/-! ## Runs of threads -/

/-- An await of a thread, and the states between which it was answered. -/
structure Occurrence (R : C → Type) (ε σ : Type) where
  thread : Nat
  event : Event R ε
  before : σ
  after : σ

/-- The awaits of a thread. -/
def own (i : Nat) (trace : List (Occurrence R ε σ)) : List (Event R ε) :=
  (trace.filter fun o => o.thread = i).map Occurrence.event

/-- A state, and how it came about. -/
structure Recorded (R : C → Type) (ε σ : Type) where
  state : σ
  trace : List (Occurrence R ε σ)

/-- A recorded state, and what every thread still has to run. -/
structure Threads (R : C → Type) (ε σ : Type) where
  recorded : Recorded R ε σ
  running : Nat → Option (Program R ε Unit)

/-- An await of the thread `i` that is answered by `r`, and leaves the state `t`. -/
def Recorded.after (X : Recorded R ε σ) (i : Nat) (c : C) (r : Except ε (R c)) (t : σ) : Recorded R ε σ :=
  ⟨t, X.trace ++ [⟨i, ⟨c, r⟩, X.state, t⟩]⟩

section

variable (E : Effect R ε σ) (Starts : Program R ε Unit → Prop) (Env : σ → σ → Prop) (P : Protocol R ε)

inductive Threads.Step : Threads R ε σ → Threads R ε σ → Prop
  | start {X : Recorded R ε σ} {T : Nat → Option (Program R ε Unit)} {i : Nat} {p : Program R ε Unit} :
      T i = none → Starts p → Step ⟨X, T⟩ ⟨X, Function.update T i (some p)⟩
  | call {X : Recorded R ε σ} {T : Nat → Option (Program R ε Unit)} {i : Nat} {c : C} {k : Except ε (R c) →
      Program R ε Unit}
      {r : Except ε (R c)} {t : σ} :
      T i = some (.call c k) → E c X.state r t → Step ⟨X, T⟩ ⟨X.after i c r t, Function.update T i (some (k r))⟩
  | crash {X : Recorded R ε σ} {T : Nat → Option (Program R ε Unit)} {i : Nat} {p : Program R ε Unit} {e : ε} :
      T i = some p → Step ⟨X, T⟩ ⟨X, Function.update T i (some (.fail e))⟩
  | env {X : Recorded R ε σ} {t : σ} {T : Nat → Option (Program R ε Unit)} :
      Env X.state t → Step ⟨X, T⟩ ⟨{ X with state := t }, T⟩

/-- A step of the protocol. -/
inductive Recorded.Step : Recorded R ε σ → Recorded R ε σ → Prop
  | call {X : Recorded R ε σ} {i : Nat} {c : C} {r : Except ε (R c)} {t : σ} :
      P (own i X.trace) c → E c X.state r t → Step X (X.after i c r t)
  | env {X : Recorded R ε σ} {t : σ} : Env X.state t → Step X { X with state := t }

end

/-- The beginning, in which nothing runs. -/
def Threads.Initial (Init : σ → Prop) (X : Threads R ε σ) : Prop :=
  Init X.recorded.state ∧ X.recorded.trace = [] ∧ ∀ i, X.running i = none

def Recorded.Initial (Init : σ → Prop) (X : Recorded R ε σ) : Prop := Init X.state ∧ X.trace = []

/-- What the threads still run conforms to the protocol. -/
structure Threads.Kept (P : Protocol R ε) (X : Threads R ε σ) : Prop where
  conforms : ∀ i p, X.running i = some p → p.Conforms P (fun _ _ => True) (own i X.recorded.trace)
  unused : ∀ i, X.running i = none → own i X.recorded.trace = []

@[simp] theorem own_nil (i : Nat) : own i ([] : List (Occurrence R ε σ)) = [] := rfl

theorem own_append (i : Nat) (a b : List (Occurrence R ε σ)) : own i (a ++ b) = own i a ++ own i b := by
  unfold own
  rw [List.filter_append, List.map_append]

theorem own_after_self (X : Recorded R ε σ) (i : Nat) (c : C) (r : Except ε (R c)) (t : σ) :
    own i (X.after i c r t).trace = own i X.trace ++ [⟨c, r⟩] := by
  unfold Recorded.after
  rw [own_append]
  unfold own
  simp

theorem own_after_other (X : Recorded R ε σ) {i j : Nat} (hne : j ≠ i) (c : C) (r : Except ε (R c)) (t : σ) :
    own j (X.after i c r t).trace = own j X.trace := by
  unfold Recorded.after
  rw [own_append]
  unfold own
  simp [hne.symm]

theorem mem_own {i : Nat} {tr : List (Occurrence R ε σ)} {e : Event R ε} :
    e ∈ own i tr ↔ ∃ o ∈ tr, o.thread = i ∧ o.event = e := by
  unfold own
  simp [and_assoc]

theorem pair_sublist {α : Type} {a b : α} {l : List α} (h : [a, b].Sublist l) :
    ∃ s t u, l = s ++ a :: (t ++ b :: u) := by
  obtain ⟨l₁, l₂, rfl, ha, hb⟩ := List.cons_sublist_iff.mp h
  obtain ⟨s, t, rfl⟩ := List.append_of_mem ha
  obtain ⟨t', u, rfl⟩ := List.append_of_mem (List.singleton_sublist.mp hb)
  exact ⟨s, t ++ t', u, by simp⟩

theorem sublist_pair {α : Type} {a b : α} (s t u : List α) : [a, b].Sublist (s ++ a :: (t ++ b :: u)) := by
  refine List.cons_sublist_iff.mpr ⟨s ++ [a], t ++ b :: u, by simp, by simp, ?_⟩
  exact List.singleton_sublist.mpr (by simp)

/-- Where an await of a thread stands in the trace. -/
theorem own_split {i : Nat} {tr : List (Occurrence R ε σ)} {a b : List (Event R ε)} {e : Event R ε}
    (h : own i tr = a ++ e :: b) :
    ∃ s o t, tr = s ++ o :: t ∧ o.thread = i ∧ o.event = e ∧ own i s = a ∧ own i t = b := by
  induction tr generalizing a with
  | nil =>
    rw [own_nil] at h
    cases a <;> cases h
  | cons x tr ih =>
    rw [show x :: tr = [x] ++ tr from rfl, own_append] at h
    by_cases hx : x.thread = i
    · have h₁ : own i [x] = [x.event] := by simp [own, hx]
      rw [h₁, List.singleton_append] at h
      cases a with
      | nil =>
        obtain ⟨he, hb⟩ := List.cons.inj h
        exact ⟨[], x, tr, rfl, hx, he, rfl, hb⟩
      | cons y a =>
        obtain ⟨hy, hr⟩ := List.cons.inj h
        obtain ⟨s, o, t, rfl, ho, he, hs, ht⟩ := ih hr
        refine ⟨x :: s, o, t, rfl, ho, he, ?_, ht⟩
        rw [show x :: s = [x] ++ s from rfl, own_append, h₁, hs, hy]
        rfl
    · have h₁ : own i [x] = [] := by simp [own, hx]
      rw [h₁, List.nil_append] at h
      obtain ⟨s, o, t, rfl, ho, he, hs, ht⟩ := ih h
      refine ⟨x :: s, o, t, rfl, ho, he, ?_, ht⟩
      rw [show x :: s = [x] ++ s from rfl, own_append, h₁, hs]
      rfl

/-- Awaits of a thread come in the same order in the trace. -/
theorem own_sublist {i : Nat} {tr : List (Occurrence R ε σ)} {l : List (Event R ε)} (h : l.Sublist (own i tr)) :
    ∃ os : List (Occurrence R ε σ), os.Sublist tr ∧ l = os.map Occurrence.event ∧ ∀ o ∈ os, o.thread = i := by
  obtain ⟨os, hos, rfl⟩ := List.sublist_map_iff.mp h
  refine ⟨os, hos.trans List.filter_sublist, rfl, ?_⟩
  intro o ho
  exact of_decide_eq_true (List.mem_filter.mp (hos.subset ho)).2

/-- Where two awaits of a thread stand in the trace. -/
theorem own_pair {i : Nat} {tr : List (Occurrence R ε σ)} {e f : Event R ε} (h : [e, f].Sublist (own i tr)) :
    ∃ s a t b u, tr = s ++ a :: (t ++ b :: u) ∧ a.thread = i ∧ a.event = e ∧ b.thread = i ∧ b.event = f := by
  obtain ⟨s, t, u, hl⟩ := pair_sublist h
  obtain ⟨s, a, t', rfl, ha, hae, -, ht⟩ := own_split hl
  obtain ⟨t, b, u, rfl, hb, hbe, -, -⟩ := own_split ht
  exact ⟨s, a, t, b, u, rfl, ha, hae, hb, hbe⟩

section

variable {E : Effect R ε σ} {Starts : Program R ε Unit → Prop} {Env : σ → σ → Prop} {P : Protocol R ε}
  {Init : σ → Prop} {X Y : Threads R ε σ}

/-- The state in which an await of the trace was made, and what came of it. -/
theorem Recorded.split {X : Recorded R ε σ} (h : Reach.Reachable (Recorded.Initial Init) (Recorded.Step E Env P) X)
    {s t : List (Occurrence R ε σ)} {o : Occurrence R ε σ} (ht : X.trace = s ++ o :: t) :
    ∃ Z, Reach.Reachable (Recorded.Initial Init) (Recorded.Step E Env P) Z ∧ Z.trace = s ∧ Z.state = o.before ∧
      P (own o.thread s) o.event.cmd ∧ E o.event.cmd o.before o.event.reply o.after ∧
      Reach.Run (Recorded.Step E Env P) ⟨o.after, s ++ [o]⟩ X := by
  obtain ⟨X₀, hi, hr⟩ := h
  induction hr generalizing t with
  | refl =>
    rw [hi.2] at ht
    cases s <;> cases ht
  | @tail Y X hrun hstep ih =>
    cases hstep with
    | @call i c r w hp he =>
      have ht' : Y.trace ++ [⟨i, ⟨c, r⟩, Y.state, w⟩] = s ++ o :: t := ht
      rcases List.eq_nil_or_concat t with rfl | ⟨t', e, rfl⟩
      · obtain ⟨rfl, ho⟩ := List.append_inj' ht' rfl
        obtain rfl := List.singleton_inj.mp ho
        exact ⟨Y, ⟨X₀, hi, hrun⟩, rfl, rfl, hp, he, .refl⟩
      · rw [List.concat_eq_append, ← List.cons_append, ← List.append_assoc] at ht'
        obtain ⟨hs, -⟩ := List.append_inj' ht' rfl
        obtain ⟨Z, hZ, htr, hst, hper, heff, hgo⟩ := ih hs
        exact ⟨Z, hZ, htr, hst, hper, heff, hgo.tail (.call hp he)⟩
    | env he =>
      obtain ⟨Z, hZ, htr, hst, hper, heff, hgo⟩ := ih ht
      exact ⟨Z, hZ, htr, hst, hper, heff, hgo.tail (.env he)⟩

/-- A run only adds to the trace. -/
theorem Recorded.trace_le {X Y : Recorded R ε σ} (h : Reach.Run (Recorded.Step E Env P) X Y) : X.trace <+: Y.trace := by
  induction h with
  | refl => exact List.prefix_refl _
  | tail _ hstep ih =>
    cases hstep with
    | call _ _ => exact ih.trans (List.prefix_append _ _)
    | env _ => exact ih

/-- A thread goes on, and the others keep where they are. -/
theorem Threads.Kept.update {Z : Recorded R ε σ} {T : Nat → Option (Program R ε Unit)} {Z' : Recorded R ε σ} {i : Nat}
    {q : Program R ε Unit} (hX : Threads.Kept P ⟨Z, T⟩) (hq : q.Conforms P (fun _ _ => True) (own i Z'.trace))
    (ho : ∀ j, j ≠ i → own j Z'.trace = own j Z.trace) : Threads.Kept P ⟨Z', Function.update T i (some q)⟩ where
  conforms j p hp := by
    by_cases hji : j = i
    · subst hji
      simp only [Function.update_self, Option.some.injEq] at hp
      rwa [← hp]
    · simp only [Function.update_of_ne hji] at hp
      rw [ho j hji]
      exact hX.conforms j p hp
  unused j hj := by
    by_cases hji : j = i
    · subst hji
      simp only [Function.update_self, reduceCtorEq] at hj
    · simp only [Function.update_of_ne hji] at hj
      rw [ho j hji]
      exact hX.unused j hj

/-- A step of threads that conform is a step of the protocol, or leaves no record. -/
theorem Threads.Kept.step (hs : ∀ p, Starts p → p.Conforms P (fun _ _ => True) []) (hX : X.Kept P)
    (h : Threads.Step E Starts Env X Y) :
    Y.Kept P ∧ (Y.recorded = X.recorded ∨ Recorded.Step E Env P X.recorded Y.recorded) := by
  cases h with
  | @start Z T i p hi hp =>
    refine ⟨hX.update ?_ fun _ _ => rfl, .inl rfl⟩
    have ho : own i Z.trace = [] := hX.unused i hi
    rw [ho]
    exact hs p hp
  | @call Z T i c k r t hi he =>
    have hc : (Program.call c k).Conforms P (fun _ _ => True) (own i Z.trace) := hX.conforms i _ hi
    refine ⟨hX.update ?_ fun j hj => own_after_other Z hj c r t, .inr (.call hc.1 he)⟩
    rw [own_after_self]
    exact hc.2 r
  | @crash Z T i p e hi => exact ⟨hX.update trivial fun _ _ => rfl, .inl rfl⟩
  | @env Z t T he => exact ⟨⟨hX.conforms, hX.unused⟩, .inr (.env he)⟩

/-- A run of threads that conform is a run of the protocol. -/
theorem Threads.Kept.run (hs : ∀ p, Starts p → p.Conforms P (fun _ _ => True) []) (hX : X.Kept P)
    (h : Reach.Run (Threads.Step E Starts Env) X Y) :
    Y.Kept P ∧ Reach.Run (Recorded.Step E Env P) X.recorded Y.recorded := by
  induction h with
  | refl => exact ⟨hX, .refl⟩
  | tail _ hstep ih =>
    obtain ⟨hY, hr⟩ := ih
    obtain ⟨hZ, he | he⟩ := hY.step hs hstep
    · rw [he]
      exact ⟨hZ, hr⟩
    · exact ⟨hZ, hr.tail he⟩

/-- **The record of reachable threads is reachable in the protocol.** -/
theorem Threads.reachable (hs : ∀ p, Starts p → p.Conforms P (fun _ _ => True) [])
    (h : Reach.Reachable (Threads.Initial Init) (Threads.Step E Starts Env) X) :
    X.Kept P ∧ Reach.Reachable (Recorded.Initial Init) (Recorded.Step E Env P) X.recorded := by
  obtain ⟨Z, ⟨hi, ht, hn⟩, hr⟩ := h
  have hZ : Z.Kept P := by
    refine ⟨?_, ?_⟩
    · intro i p hp
      rw [hn i] at hp
      cases hp
    · intro i _
      rw [ht]
      rfl
  obtain ⟨hX, hrun⟩ := hZ.run hs hr
  exact ⟨hX, Z.recorded, ⟨hi, ht⟩, hrun⟩

end

/-! ## Schedules -/

/-- What happens next: a thread starts, makes some awaits, or the surroundings change the state. -/
inductive Action (R : C → Type) (ε σ : Type)
  | start (i : Nat) (p : Program R ε Unit)
  | run (i n : Nat)
  | env (f : σ → σ)

section

variable (answer : (c : C) → σ → Except ε (R c) × σ)

/-- The next `n` awaits of a thread, by answers that are given. -/
def Threads.advance (i : Nat) : Nat → Threads R ε σ → Threads R ε σ
  | 0, X => X
  | n + 1, X =>
    match X.running i with
    | some (.call c k) =>
        Threads.advance i n ⟨X.recorded.after i c (answer c X.recorded.state).1 (answer c X.recorded.state).2,
        Function.update X.running i (some (k (answer c X.recorded.state).1))⟩
    | _ => X

def Threads.play (X : Threads R ε σ) : Action R ε σ → Threads R ε σ
  | .start i p => ⟨X.recorded, Function.update X.running i (some p)⟩
  | .run i n => X.advance answer i n
  | .env f => ⟨{ X.recorded with state := f X.recorded.state }, X.running⟩

end

section

variable {E : Effect R ε σ} {Starts : Program R ε Unit → Prop} {Env : σ → σ → Prop}
  {answer : (c : C) → σ → Except ε (R c) × σ}

/-- What an action needs. -/
def Action.Valid (Starts : Program R ε Unit → Prop) (Env : σ → σ → Prop) (X : Threads R ε σ) : Action R ε σ → Prop
  | .start i p => X.running i = none ∧ Starts p
  | .run _ _ => True
  | .env f => Env X.recorded.state (f X.recorded.state)

/-- All actions are valid when their turn comes. -/
def Action.AllValid (answer : (c : C) → σ → Except ε (R c) × σ) (Starts : Program R ε Unit → Prop)
    (Env : σ → σ → Prop) :
    Threads R ε σ → List (Action R ε σ) → Prop
  | _, [] => True
  | X, a :: rest => a.Valid Starts Env X ∧ AllValid answer Starts Env (X.play answer a) rest

theorem Threads.advance_run (ha : ∀ c s, E c s (answer c s).1 (answer c s).2) (i n : Nat) (X : Threads R ε σ) :
    Reach.Run (Threads.Step E Starts Env) X (X.advance answer i n) := by
  induction n generalizing X with
  | zero => exact .refl
  | succ n ih =>
    unfold Threads.advance
    split
    · rename_i c k hc
      exact (Relation.ReflTransGen.single (Threads.Step.call hc (ha c X.recorded.state))).trans (ih _)
    · exact .refl

/-- A schedule is a run. -/
theorem Threads.play_run (ha : ∀ c s, E c s (answer c s).1 (answer c s).2) {actions : List (Action R ε σ)}
    {X : Threads R ε σ}
    (hv : Action.AllValid answer Starts Env X actions) :
    Reach.Run (Threads.Step E Starts Env) X (actions.foldl (Threads.play answer) X) := by
  induction actions generalizing X with
  | nil => exact .refl
  | cons a rest ih =>
    refine Relation.ReflTransGen.trans ?_ (ih hv.2)
    cases a with
    | start i p => exact .single (.start hv.1.1 hv.1.2)
    | run i n => exact X.advance_run ha i n
    | env f => exact .single (.env hv.1)

end

end Program

end Cpredict
