import Cpredict.Rpc.Heads

/-!
# The pool does not go back

What every coroutine of the pool does is a change (`Change`), whatever the providers answer and whatever the others
do at its awaits; so the histories of the service are sound. A head is only ever accepted if it is not below the
highest one, at the moment at which it arrives (`Does.reportHead`); that is where the guard of a switch and the
order of the heads come from.
-/

namespace Cpredict

namespace Rpc

open Coroutine

/-- A part of a coroutine of the pool, with what is known of the entries before it and after it. -/
abbrev Does {β : Type} (serving : Prop) (P : History → Prop) (p : M β) (Q : β → History → Prop) : Prop :=
  Spec (Change serving) P p Q

variable {serving : Prop} {β γ : Type}

theorem Does.bind {p : M β} {f : β → M γ} {P : History → Prop} {Q : β → History → Prop} {S : γ → History → Prop}
    (h : Does serving P p Q) (hf : ∀ b, Does serving (Q b) (f b) S) : Does serving P (p >>= f) S :=
  Spec.bind (fun _ _ _ => Change.trans) h hf

theorem Does.ret {b : β} {P : History → Prop} {Q : β → History → Prop} (h : ∀ X, P X → Q b X) :
    Does serving P (.ret b) Q :=
  Spec.ret (fun _ _ => Change.refl_right) h

theorem Does.fail {e : Failure} {P : History → Prop} {Q : β → History → Prop} : Does serving P (.fail e : M β) Q :=
  Spec.fail fun _ _ => Change.refl_right

/-- What is known of the entries stays known. -/
theorem persists_of_trace {F : List Entry → Prop} (hF : ∀ l m, l <+: m → F l → F m) :
    Persists (Change serving) fun X => F X.trace := fun _ _ h => hF _ _ h.extends_

/-- A tame part: what is known of the entries and of the highest head stays known. -/
theorem Does.quiet {F : List Entry → Nat → Prop} {E : Nat → Prop} {P : Pool → Prop} {p : M β} {Q : β → Pool → Prop}
    (h : Quiet E P p Q) (hE : ∀ l n i, F l n → E i → Fresh i l) :
    Does serving (fun X => F X.trace X.state.pool.highWater ∧ P X.state.pool) p
      fun b X => F X.trace X.state.pool.highWater ∧ Q b X.state.pool := by
  refine Spec.ofSync h (fun _ _ _ => Change.trans) (fun X hX => hX.2) ?_ ?_
  · rintro X Y w hg ⟨hF, -⟩ ht
    exact hg.put (fun i => hE _ _ i hF) ht
  · rintro X Y w b - ⟨hF, -⟩ ht hq
    refine ⟨?_, hq⟩
    rw [History.put_state, ht.highWater]
    exact hF

/-- A tame part that qualifies nobody, of which nothing is needed. -/
theorem Does.tame {F : List Entry → Nat → Prop} {p : M β} {Q : β → Pool → Prop}
    (h : Quiet (fun _ => False) (fun _ => True) p Q) :
    Does serving (fun X => F X.trace X.state.pool.highWater) p fun _ X => F X.trace X.state.pool.highWater :=
  Spec.post (Spec.pre (Does.quiet h fun _ _ _ _ => False.elim) fun _ hF => ⟨hF, trivial⟩) fun _ _ hq => hq.1

/-- The answer to a call is the last entry. -/
def Answered (c : Command) (a : Answer c) (l : List Entry) : Prop := ∃ l', l = l' ++ [.answered c (.ok a)]

theorem Does.call {F : List Entry → Prop} (hF : ∀ l m, l <+: m → F l → F m) (i : Nat) (method : Method)
    (params : List Json)
    (timeoutMs : Int) (signal : Option Nat) :
    Does serving (fun X => F X.trace) (call i method params timeoutMs signal)
      fun a X => F X.trace ∧ Answered (.call i method params timeoutMs signal) a X.trace := by
  refine Spec.await (fun _ _ => Change.refl_right) (persists_of_trace hF) (fun _ _ r => Change.answered _ r) ?_
  intro X a hX
  exact ⟨hF _ _ (List.prefix_append _ _) hX, X.trace, rfl⟩

/-! ## A head that is reported -/

/-- The provider `i` has reported a head that is at least as high as those that `l₀` returned. -/
def AtLeast (i : Nat) (l₀ l : List Entry) : Prop := ∀ g ∈ heads l₀, ∃ h, g ≤ h ∧ Reported l i h

theorem AtLeast.extend {i : Nat} {l₀ l m : List Entry} (h : AtLeast i l₀ l) (hp : l <+: m) : AtLeast i l₀ m := by
  intro g hg
  obtain ⟨h', hle, hr⟩ := h g hg
  exact ⟨h', hle, hr.extend hp⟩

/-- The provider `i` was asked for its head last. -/
def Asked (i : Nat) (a : Json) (l : List Entry) : Prop :=
  ∃ params timeoutMs signal, Answered (.call i .eth_blockNumber params timeoutMs signal) a l

/-- What is known once a head is accepted. -/
structure Accepted (i h : Nat) (l : List Entry) : Prop where
  fresh : Fresh i l
  reported : Reported l i h
  highest : ∀ g ∈ heads l, g ≤ h

theorem Accepted.atLeast {i h : Nat} {l₀ l : List Entry} (ha : Accepted i h l) (hl : l₀ <+: l) : AtLeast i l₀ l := by
  intro g hg
  obtain ⟨t, rfl⟩ := hl
  refine ⟨h, ha.highest g ?_, ha.reported⟩
  rw [heads_append]
  exact List.mem_append_left _ hg

theorem accepted_of_asked {i h : Nat} {a : Json} {l : List Entry} (hl : Asked i a l) (ha : a.quantity = some h)
    (hh : ∀ g ∈ heads l, g ≤ h) : Accepted i h l := by
  obtain ⟨params, timeoutMs, signal, l', rfl⟩ := hl
  have hreport : reportOf i (.answered (.call i .eth_blockNumber params timeoutMs signal) (.ok a)) = some h := by
    simp [reportOf, ha]
  rw [heads_answered] at hh
  refine ⟨⟨l', _, [], h, rfl, hreport, hh⟩, ⟨_, List.mem_append_right _ List.mem_cons_self, hreport⟩, ?_⟩
  rw [heads_answered]
  exact hh

/-- **A head is accepted only if nothing higher has been returned.** -/
theorem Does.reportHead {F : List Entry → Prop} (i : Nat) (a : Json) :
    Does serving (fun X => F X.trace ∧ Asked i a X.trace) (reportHead i a)
      fun h X => F X.trace ∧ Accepted i h X.trace ∧ a.quantity = some h ∧ X.state.pool.highWater ≤ h := by
  refine Spec.ofSync (Quiet.reportHead (E := fun _ => False) (P := fun _ => True) i a) (fun _ _ _ => Change.trans)
    (fun _ _ => trivial)
    ?_ ?_
  · intro X Y w hg _ ht
    exact hg.put (fun _ => False.elim) ht
  · rintro X Y w h hg ⟨hF, hasked⟩ ht ⟨hq, hle⟩
    have hall : ∀ g ∈ heads Y.trace, g ≤ h := by
      intro g hgm
      have := hg.sound.below g hgm
      rw [ht.highWater] at hle
      omega
    exact ⟨hF, accepted_of_asked hasked hq hall, hq, hle⟩

/-! ## Checks of providers -/

theorem Does.throwIf {F : List Entry → Nat → Prop} (b : Bool) (e : Failure) :
    Does serving (fun X => F X.trace X.state.pool.highWater) (throwIf b e) fun _ X =>
      F X.trace X.state.pool.highWater :=
  Does.tame (Quiet.throwIf b e)

theorem Does.whenever {P Q : History → Prop} {b : Bool} {x : M Unit} (h : b = true → Does serving P x fun _ => Q)
    (hf : ∀ X, b = false → P X → Q X) : Does serving P (whenever b x) fun _ => Q := by
  cases b with
  | true => exact h rfl
  | false => exact Does.ret fun X hX => hf X rfl hX

variable (o : RpcPoolOptions)

theorem Does.baseCheck (i : Nat) : Does serving (fun _ => True) (baseCheck o i) fun _ X => Fresh i X.trace := by
  refine Does.bind
    (Spec.post (Does.call (F := fun _ => True) (fun _ _ _ _ => trivial) i .eth_chainId [] o.timeoutMs none)
    (fun _ _ _ => trivial)) ?_
  intro chain
  refine Does.bind (Does.throwIf (F := fun _ _ => True) _ _) ?_
  intro _
  refine Does.bind (Does.call (F := fun _ => True) (fun _ _ _ _ => trivial) i .eth_blockNumber [] o.timeoutMs none) ?_
  intro head
  refine Does.bind (Spec.pre (Does.reportHead (F := fun _ => True) i head) ?_) ?_
  · rintro X ⟨-, ha⟩
    exact ⟨trivial, [], o.timeoutMs, none, ha⟩
  · intro h
    exact Does.ret fun X hX => hX.2.1.fresh

/-- A check of a capability does not forget what is known. -/
theorem Does.capabilityCheck {F : List Entry → Prop} (hF : ∀ l m, l <+: m → F l → F m) (i : Nat) (p : RpcProbe)
    (c : Capability) :
    Does serving (fun X => F X.trace) (capabilityCheck o i p c) fun _ X => F X.trace := by
  cases c with
  | read => exact Does.ret fun _ h => h
  | history =>
    refine Does.bind (Spec.post (Does.call hF i .eth_getBlockByNumber _ o.timeoutMs none) fun _ _ h => h.1) ?_
    intro b
    refine Does.bind (Does.throwIf (F := fun l _ => F l) _ _) ?_
    intro _
    refine Does.bind (Spec.post (Does.call hF i .eth_getCode _ o.timeoutMs none) fun _ _ h => h.1) ?_
    intro code
    exact Does.throwIf (F := fun l _ => F l) _ _
  | receipt =>
    refine Does.bind (Spec.post (Does.call hF i .eth_getTransactionReceipt _ o.timeoutMs none) fun _ _ h => h.1) ?_
    intro r
    exact Does.throwIf (F := fun l _ => F l) _ _
  | logs =>
    refine Does.bind (Spec.post (Does.call hF i .eth_getLogs _ o.timeoutMs none) fun _ _ h => h.1) ?_
    intro logs
    refine Does.bind (Does.tame (F := fun l _ => F l) (Q := fun _ _ => True)
      (Sync.ofExcept Tame.refl fun _ _ _ _ => trivial)) ?_
    intro found
    exact Does.throwIf (F := fun l _ => F l) _ _

theorem fresh_extend (i : Nat) (l m : List Entry) (hp : l <+: m) (h : Fresh i l) : Fresh i m := h.extend hp

/-- Who passes has reported a head. -/
theorem Does.qualification (i : Nat) (c : Capability) (baseChecked : Bool) :
    Does serving (fun X => baseChecked = true → Fresh i X.trace) (qualification o i c baseChecked) fun _ X =>
      Fresh i X.trace := by
  refine Does.bind (Q := fun _ X => Fresh i X.trace) ?_ ?_
  · refine Does.whenever (fun _ => Spec.pre (Does.baseCheck o i) fun _ _ => trivial) ?_
    intro X hb hX
    exact hX (by simpa using hb)
  · intro _
    cases o.fallback with
    | none => exact Does.ret fun _ h => h
    | some f => exact Does.capabilityCheck o (fresh_extend i) i f.probe c

theorem Does.qualifyEach (i : Nat) (initial : Bool) (cs : List Capability) (baseChecked : Bool) :
    Does serving (fun X => baseChecked = true → Fresh i X.trace) (qualifyEach o i initial cs baseChecked)
      fun _ _ => True := by
  induction cs generalizing baseChecked with
  | nil => exact Does.ret fun _ _ => trivial
  | cons c rest ih =>
    have hpersists : Persists (Change serving) fun X => baseChecked = true → Fresh i X.trace :=
      fun X Y hg hX hb => (hX hb).extend hg.extends_
    refine Does.bind (Does.tame (F := fun l _ => baseChecked = true → Fresh i l) (Quiet.skips o i initial c)) ?_
    intro skip
    split
    · exact ih baseChecked
    · refine Does.bind (Does.tame (F := fun l _ => baseChecked = true → Fresh i l)
        (Quiet.modifyState i c fun s h => .inr h)) ?_
      intro _
      refine Does.bind (Spec.pre (Spec.frame hpersists (Spec.attempt (Does.qualification o i c baseChecked)))
        fun X hX => ⟨hX, hX⟩) ?_
      intro r
      cases r with
      | ok u =>
        refine Does.bind (Q := fun _ X => Fresh i X.trace) (Spec.post (Spec.pre
          (Does.quiet (F := fun l _ => Fresh i l) (E := (· = i)) (Quiet.pass (P := fun _ => True) i c initial rfl) ?_)
            ?_) ?_) ?_
        · rintro l n _ hf rfl
          exact hf
        · rintro X ⟨hf, -⟩
          exact ⟨hf u rfl, trivial⟩
        · exact fun _ X hX => hX.1
        · intro _
          refine Does.bind (Does.tame (F := fun l _ => Fresh i l) (Quiet.modifyState i c fun s h => .inr h)) ?_
          intro _
          exact Spec.pre (ih true) fun X hX _ => hX
      | error e =>
        refine Does.bind (Spec.pre (Does.tame (F := fun l _ => baseChecked = true → Fresh i l) (Quiet.failed o i c e))
          fun X hX => hX.2) ?_
        intro _
        refine Does.bind (Does.tame (F := fun l _ => baseChecked = true → Fresh i l)
          (Quiet.modifyState i c fun s h => .inr h)) ?_
        intro _
        exact ih baseChecked

theorem Does.qualify (i : Nat) (initial : Bool) : Does serving (fun _ => True) (qualify o i initial)
    fun _ _ => True := by
  refine Does.bind (Does.tame (F := fun _ _ => True) (Quiet.node i)) ?_
  intro n
  split
  · refine Spec.await (fun _ _ => Change.refl_right) (fun _ _ _ _ => trivial) (fun _ _ r => Change.answered _ r) ?_
    exact fun _ _ _ => trivial
  · refine Does.bind (Does.tame (F := fun _ _ => True) (Quiet.modifyNode i fun n c h => .inr h)) ?_
    intro _
    refine Does.bind (Spec.pre (Does.qualifyEach o i initial capabilities false) fun _ _ => nofun) ?_
    intro _
    exact Does.tame (F := fun _ _ => True) (Quiet.modifyNode i fun n c h => .inr h)

theorem Does.probe : Does serving (fun _ => True) (probe o) fun _ _ => True := by
  refine Does.bind (Does.tame (F := fun _ _ => True) Quiet.pool) ?_
  intro p
  split
  · exact Does.ret fun _ _ => trivial
  · refine Does.bind (Q := fun _ _ => True) ?_ ?_
    · refine Spec.await (fun _ _ => Change.refl_right) (fun _ _ _ _ => trivial) (fun _ _ r => Change.answered _ r) ?_
      exact fun _ _ _ => trivial
    · intro _
      exact Does.tame (F := fun _ _ => True) (Quiet.selectEach o true Quiet.selectRecovered capabilities)

/-! ## Requests -/

/-- All changes are sound. -/
theorem Does.sound {P : History → Prop} {p : M β} {Q : β → History → Prop}
    (h : Does serving (fun X => P X ∧ Sound X) p Q) :
    Does serving P p Q := fun X Y hg hp => h X Y hg ⟨hp, hg.sound⟩

/-- What is known of the provider `i` while a request that was started after `l₀` tries it; with `sw` it is switched
to. -/
structure Trying (sw : Prop) (i : Nat) (l₀ l : List Entry) : Prop where
  fresh : Fresh i l
  started : l₀ <+: l
  caughtUp : sw → AtLeast i l₀ l

theorem Trying.extend {sw : Prop} {i : Nat} {l₀ : List Entry} (l m : List Entry) (hp : l <+: m)
    (h : Trying sw i l₀ l) : Trying sw i l₀ m :=
  ⟨h.fresh.extend hp, h.started.trans hp, fun hs => (h.caughtUp hs).extend hp⟩

/-- What is known of a result, when `n` is the highest head. -/
structure Outcome (q : Request) (sw : Prop) (l₀ : List Entry) (served : Served) (l : List Entry) (n : Nat) : Prop where
  fresh : Fresh served.provider l
  caughtUp : q.method = .eth_blockNumber ∨ sw → AtLeast served.provider l₀ l
  head : q.method = .eth_blockNumber → served.result.quantity = some n ∧ ∀ g ∈ heads l, g ≤ n

section

variable {q : Request} {sw : Prop} {i : Nat} {l₀ : List Entry}

theorem Does.acceptHead {result : Json} :
    Does True (fun X => Trying sw i l₀ X.trace ∧ Asked i result X.trace) (acceptHead i result)
      fun _ X => Outcome q sw l₀ ⟨result, i⟩ X.trace X.state.pool.highWater := by
  refine Does.bind (Does.reportHead (F := Trying sw i l₀) i result) ?_
  intro h
  refine Spec.ofSync (T := fun w w' => w' = w.modifyPool fun p => { p with highWater := h }) (A := fun _ => True)
    (B := fun _ _ => True)
    (Sync.modify (fun _ _ => rfl) fun _ _ => trivial) (fun _ _ _ => Change.trans) (fun _ _ => trivial) ?_ ?_
  · rintro X Y w hg ⟨-, hacc, -, hle⟩ rfl
    exact ⟨⟨hg.sound.sorted, hacc.highest, hg.sound.fresh, hg.sound.served⟩, List.prefix_refl _, fun _ =>
      hle, hg.silent⟩
  · rintro X Y w _ hg ⟨ht, hacc, hq, -⟩ rfl -
    exact ⟨ht.fresh, fun _ => hacc.atLeast ht.started, fun _ => ⟨hq, hacc.highest⟩⟩

/-- A result is accepted. -/
theorem Does.accept (o : RpcPoolOptions) (c : Capability) {result : Json} :
    Does True (fun X => Trying sw i l₀ X.trace ∧ (q.method = .eth_blockNumber → Asked i result X.trace))
      (accept o i c q.method q.params result)
      fun served X => served.provider = i ∧ Outcome q sw l₀ served X.trace X.state.pool.highWater := by
  refine Does.bind (Does.throwIf (F := fun l _ => Trying sw i l₀ l ∧ (q.method = .eth_blockNumber → Asked i result l))
    _ _) ?_
  intro _
  refine Does.bind (Q := fun _ X => Outcome q sw l₀ ⟨result, i⟩ X.trace X.state.pool.highWater) ?_ ?_
  · refine Does.whenever ?_ ?_
    · intro hm
      exact Spec.pre Does.acceptHead fun X hX => ⟨hX.1, hX.2 (of_decide_eq_true hm)⟩
    · intro X hm hX
      have hne := of_decide_eq_false hm
      exact ⟨hX.1.fresh, fun h => h.elim (fun he => absurd he hne) hX.1.caughtUp, fun he => absurd he hne⟩
  · intro _
    refine Does.bind (Does.tame (F := Outcome q sw l₀ ⟨result, i⟩) (Quiet.whenever _ (Quiet.anchor i _ _ _))) ?_
    intro _
    refine Does.bind (Does.tame (F := Outcome q sw l₀ ⟨result, i⟩) (Quiet.modifyState i c fun s h => .inr h)) ?_
    intro _
    refine Does.bind (Does.tame (F := Outcome q sw l₀ ⟨result, i⟩) (Quiet.select i c)) ?_
    intro _
    exact Does.ret fun X hX => ⟨rfl, hX⟩

/-- The provider has caught up with all that was returned. -/
theorem Does.catchUp {allowance : Int} :
    Does True (fun X => Trying False i l₀ X.trace) (catchUp q i allowance) fun _ X => Trying sw i l₀ X.trace := by
  refine Does.bind (Does.call (F := Trying False i l₀) Trying.extend i .eth_blockNumber [] _ q.signal) ?_
  intro head
  refine Does.bind (Spec.pre (Does.reportHead (F := Trying False i l₀) i head) fun X hX =>
    ⟨hX.1, [], _, q.signal, hX.2⟩) ?_
  intro h
  exact Does.ret fun X hX => ⟨hX.1.fresh, hX.1.started, fun _ => hX.2.1.atLeast hX.1.started⟩

/-- While nothing above 0 was returned every provider has caught up. -/
theorem Trying.of_zero {X : History} (h : Trying False i l₀ X.trace) (hs : Sound X) (h0 : X.state.pool.highWater = 0) :
    Trying sw i l₀ X.trace where
  fresh := h.fresh
  started := h.started
  caughtUp _ := by
    intro g hg
    obtain ⟨t, ht⟩ := h.started
    obtain ⟨a, e, b, r, hl, hr, -⟩ := h.fresh
    have hle : g ≤ X.state.pool.highWater := by
      refine hs.below g ?_
      rw [← ht, heads_append]
      exact List.mem_append_left _ hg
    refine ⟨r, by omega, e, ?_, hr⟩
    rw [hl]
    exact List.mem_append_right _ List.mem_cons_self

theorem Does.tryServe {o : RpcPoolOptions} (ho : o.fallback.isSome) (l₀ : List Entry) (preferred : Option Nat)
    (allowance : Int) :
    Does True (fun X => Trying False i l₀ X.trace) (tryServe o q preferred i allowance)
      fun served X => served.provider = i ∧
        Outcome q (preferred.isSome ∧ preferred ≠ some i) l₀ served X.trace X.state.pool.highWater := by
  refine Does.bind (Does.tame (F := fun l _ => Trying False i l₀ l) Quiet.performanceNow) ?_
  intro attemptStart
  refine Does.bind
    (Spec.pre (Does.quiet (F := fun l _ => Trying False i l₀ l) (E := fun _ => False) (P := fun _ => True) Quiet.pool
    fun _ _ _ _ => False.elim) fun X hX => ⟨hX, trivial⟩) ?_
  intro p
  refine Does.bind (Q := fun _ X => Trying (preferred.isSome ∧ preferred ≠ some i) i l₀ X.trace) (Does.sound ?_) ?_
  · refine Does.whenever (fun _ => Spec.pre Does.catchUp fun X hX => hX.1.1) ?_
    rintro X hb ⟨⟨ht, rfl, -⟩, hs⟩
    by_cases hsw : preferred.isSome ∧ preferred ≠ some i
    · refine ht.of_zero hs ?_
      have := of_decide_eq_false hb
      by_contra h0
      exact this ⟨ho, hsw.1, hsw.2, Nat.pos_of_ne_zero h0⟩
    · exact ⟨ht.fresh, ht.started, fun h => absurd h hsw⟩
  · intro _
    refine Does.bind (Does.tame (F := fun l _ => Trying (preferred.isSome ∧ preferred ≠ some i) i l₀ l)
      Quiet.performanceNow) ?_
    intro t
    refine Does.bind (Does.call (F := Trying (preferred.isSome ∧ preferred ≠ some i) i l₀) Trying.extend i q.method
      q.params _ q.signal) ?_
    intro result
    refine Spec.pre (Does.accept o (category q.method q.params)) ?_
    rintro X ⟨ht, ha⟩
    refine ⟨ht, ?_⟩
    intro hm
    rw [hm] at ha
    exact ⟨_, _, _, ha⟩

end

/-- What is known of the result of a request that was started in `w`, after `l₀`. -/
def Result (q : Request) (w : World) (l₀ : List Entry) (served : Served) (X : History) : Prop :=
  Outcome q (Switches q w served.provider) l₀ served X.trace X.state.pool.highWater

theorem Does.serve {o : RpcPoolOptions} (ho : o.fallback.isSome) (q : Request) (w : World) (l₀ : List Entry)
    (deadline : Int) (count : Nat)
    (position : Nat) (last : Failure) (candidates : List Nat) :
    Does True (fun X => (∀ i ∈ candidates, Fresh i X.trace) ∧ l₀ <+: X.trace)
      (serve o q (w.pool.active (category q.method q.params)) deadline count position last candidates)
      (Result q w l₀) := by
  induction candidates generalizing position last with
  | nil => exact Does.fail
  | cons i rest ih =>
    refine Does.bind (Does.tame (F := fun l _ => (∀ j ∈ i :: rest, Fresh j l) ∧ l₀ <+: l) (Quiet.cancelled q.signal)) ?_
    intro stop
    split
    · exact Does.fail
    · refine Does.bind (Does.tame (F := fun l _ => (∀ j ∈ i :: rest, Fresh j l) ∧ l₀ <+: l) Quiet.performanceNow) ?_
      intro t
      split
      · exact Does.fail
      · have hpersists : Persists (Change True) fun X => (∀ j ∈ rest, Fresh j X.trace) ∧ l₀ <+: X.trace :=
          fun X Y hg hX => ⟨fun j hj => (hX.1 j hj).extend hg.extends_, hX.2.trans hg.extends_⟩
        refine Does.bind (Spec.pre (Spec.frame hpersists (Spec.attempt (Does.tryServe ho l₀ _ _))) ?_) ?_
        · rintro X ⟨hall, hl⟩
          exact ⟨⟨hall i List.mem_cons_self, hl, False.elim⟩, fun j hj => hall j (List.mem_cons_of_mem _ hj), hl⟩
        · intro r
          split
          · rename_i served
            refine Does.ret ?_
            rintro X ⟨hr, -⟩
            obtain ⟨hi, h⟩ := hr served rfl
            subst hi
            exact h
          · rename_i reason retryAfterMs
            refine Does.bind (Spec.pre (Does.tame (F := fun l _ => (∀ j ∈ rest, Fresh j l) ∧ l₀ <+: l)
              (Quiet.fault o i (category q.method q.params) reason retryAfterMs)) fun X hX => hX.2) ?_
            intro _
            exact ih _ _
          · exact Does.fail

theorem mem_preferredFirst {preferred : Option Nat} {candidates : List Nat} {i : Nat}
    (h : i ∈ preferredFirst preferred candidates) :
    i ∈ candidates := by
  unfold preferredFirst at h
  split at h
  · split at h
    case isTrue hm =>
      rcases List.mem_cons.mp h with rfl | h
      · exact hm
      · exact List.mem_of_mem_erase h
    case isFalse => exact h
  · exact h

theorem Does.request {o : RpcPoolOptions} (ho : o.fallback.isSome) (q : Request) (X₀ : History) :
    Does True (fun X => X = X₀) (request o q) (Result q X₀.state X₀.trace) := by
  unfold Rpc.request
  split
  · refine Does.bind
      (Spec.pre (Does.quiet (F := fun l _ => l = X₀.trace) (E := fun _ => False) (P := fun p => p = X₀.state.pool)
      Quiet.performanceNow fun _ _ _ _ => False.elim) ?_) ?_
    · rintro X rfl
      exact ⟨rfl, rfl⟩
    · intro t
      refine Does.bind (Does.quiet (F := fun l _ => l = X₀.trace) (E := fun _ => False)
        (P := fun p => p = X₀.state.pool) Quiet.pool
        fun _ _ _ _ => False.elim) ?_
      intro p
      dsimp only
      by_cases hp : p = X₀.state.pool
      case neg =>
        rintro X Y - ⟨-, he, he'⟩
        exact absurd (he.trans he') hp
      subst hp
      refine Does.bind (Spec.pre (Does.quiet (F := fun l _ => l = X₀.trace) (E := fun _ => False) (P := fun _ => True)
        (Quiet.filterEligible o (category q.method q.params) _) fun _ _ _ _ => False.elim) fun X hX =>
          ⟨hX.1, trivial⟩) ?_
      intro found
      refine Does.sound (Spec.pre (Does.serve ho q X₀.state X₀.trace _ _ 0 _ _) ?_)
      rintro X ⟨⟨hl, hfound, -⟩, hs⟩
      refine ⟨?_, hl ▸ List.prefix_refl _⟩
      intro i hi
      exact hs.fresh i _ (hfound i (mem_preferredFirst hi))
  · exact Does.fail

/-! ## The end of a job -/

theorem returnedHead_of_ne {a : Activation Job World} {r : Except Failure (Option Served)}
    (h : ∀ q served, a.job = .request q → r ≠ .ok (some served)) : returnedHead (.ended a r) = none := by
  unfold returnedHead
  split
  · rename_i q since w served he
    cases he
    exact absurd rfl (h q served rfl)
  · rfl

/-- An end that returns nothing. -/
theorem Change.ended_of_ne {X Y : History} {a : Activation Job World} {r : Except Failure (Option Served)}
    (h : Change True X Y)
    (hr : ∀ q served, a.job = .request q → r ≠ .ok (some served)) : Change True X (Y.ended a r) := by
  have hheads : heads (Y.ended a r).trace = heads Y.trace := by
    rw [History.ended_trace, heads_append]
    unfold heads
    rw [List.filterMap_cons, returnedHead_of_ne hr]
    exact List.append_nil _
  refine ⟨⟨hheads ▸ h.sound.sorted, hheads ▸ h.sound.below, ?_, ?_⟩, h.extends_.trans (List.prefix_append _ _),
    h.highWater, nofun ∘ (· trivial)⟩
  · exact fun i c hq => (h.sound.fresh i c hq).extend (List.prefix_append _ _)
  · intro l q since w served b ht
    rw [History.ended_trace] at ht
    rcases List.eq_nil_or_concat b with rfl | ⟨b', e, rfl⟩
    · have := List.append_inj_right' ht rfl
      cases this
      exact absurd rfl (hr q served rfl)
    · rw [List.concat_eq_append, ← List.cons_append, ← List.append_assoc] at ht
      exact h.sound.served l q since w served b' (List.append_inj_left' ht rfl)

/-- An end that returns a result. -/
theorem Change.ended_of_result {X₀ X Y : History} {q : Request} {served : Served} (h : Change True X Y)
    (hl : X₀.trace <+: Y.trace)
    (hr : Result q X₀.state X₀.trace served Y) :
    Change True X (Y.ended ⟨.request q, X₀.trace.length, X₀.state⟩ (.ok (some served))) := by
  have hguard : Guarded q X₀.trace.length X₀.state served.provider Y.trace := by
    refine ⟨hr.fresh, ?_⟩
    rw [← List.prefix_iff_eq_take.mp hl]
    exact hr.caughtUp
  have hheads : heads (Y.ended ⟨.request q, X₀.trace.length, X₀.state⟩ (.ok (some served))).trace =
      heads Y.trace ++ if q.method = .eth_blockNumber then [Y.state.pool.highWater] else [] := by
    rw [History.ended_trace, heads_append]
    congr 1
    unfold heads
    by_cases hm : q.method = .eth_blockNumber
    · simp [returnedHead, hm, (hr.head hm).1]
    · simp [returnedHead, hm]
  refine ⟨⟨?_, ?_, ?_, ?_⟩, h.extends_.trans (List.prefix_append _ _), h.highWater, nofun ∘ (· trivial)⟩
  · rw [hheads]
    by_cases hm : q.method = .eth_blockNumber
    · rw [if_pos hm, List.pairwise_append]
      refine ⟨h.sound.sorted, List.pairwise_singleton _ _, ?_⟩
      intro g hg n hn
      rw [List.mem_singleton.mp hn]
      exact h.sound.below g hg
    · rw [if_neg hm, List.append_nil]
      exact h.sound.sorted
  · intro g hg
    rw [hheads] at hg
    rcases List.mem_append.mp hg with hg | hg
    · exact h.sound.below g hg
    · split at hg
      · rw [List.mem_singleton.mp hg]
        exact le_refl _
      · cases hg
  · exact fun i c hq => (h.sound.fresh i c hq).extend (List.prefix_append _ _)
  · intro l q' since w served' b ht
    rw [History.ended_trace] at ht
    rcases List.eq_nil_or_concat b with rfl | ⟨b', e, rfl⟩
    · have hlast := List.append_inj_right' ht rfl
      have hinit := List.append_inj_left' ht rfl
      cases hlast
      rwa [← hinit]
    · rw [List.concat_eq_append, ← List.cons_append, ← List.append_assoc] at ht
      exact h.sound.served l q' since w served' b' (List.append_inj_left' ht rfl)

/-- **Every job only makes changes.** -/
theorem body_safe {o : RpcPoolOptions} (ho : o.fallback.isSome) (X₀ : History) (j : Job) (h : Change True X₀ X₀) :
    (body o j).Safe (Change True) (fun r X Y => Change True X (Y.ended ⟨j, X₀.trace.length, X₀.state⟩ r)) X₀ X₀ := by
  cases j with
  | request q =>
    have hbody : Does True (fun X => X = X₀) (body o (.request q))
        fun r X => ∃ served, r = some served ∧ Result q X₀.state X₀.trace served X :=
      Does.bind (Does.request ho q X₀) fun served => Does.ret fun X hX => ⟨served, rfl, hX⟩
    refine (hbody X₀ X₀ h rfl).mono ?_
    rintro r X Y ⟨⟨hXY, hY⟩, hr⟩
    cases r with
    | ok v =>
      obtain ⟨served, rfl, hres⟩ := hr v rfl
      exact hXY.ended_of_result hY.extends_ hres
    | error e => exact hXY.ended_of_ne nofun
  | probe =>
    have hbody : Does True (fun _ => True) (body o .probe) fun _ _ => True :=
      Does.bind (Does.probe o) fun _ => Does.ret fun _ _ => trivial
    refine (hbody X₀ X₀ h trivial).mono ?_
    rintro r X Y ⟨⟨hXY, -⟩, -⟩
    exact hXY.ended_of_ne nofun
  | qualify i =>
    have hbody : Does True (fun _ => True) (body o (.qualify i)) fun _ _ => True :=
      Does.bind (Does.qualify o i false) fun _ => Does.ret fun _ _ => trivial
    refine (hbody X₀ X₀ h trivial).mono ?_
    rintro r X Y ⟨⟨hXY, -⟩, -⟩
    exact hXY.ended_of_ne nofun

/-! ## The start -/

theorem Does.qualifyAll (o : RpcPoolOptions) (indices : List Nat) :
    Does serving (fun _ => True) (qualifyAll o indices) fun _ _ => True := by
  induction indices with
  | nil => exact Does.ret fun _ _ => trivial
  | cons i rest ih => exact Does.bind (Does.qualify o i true) fun _ => ih

/-- Before the pool serves, its highest head may be set to anything. -/
theorem Does.setHighWater (f : Pool → Nat) :
    Does False (fun _ => True) (modifyPool fun p => { p with highWater := f p }) fun _ _ => True := by
  refine Spec.ofSync (T := fun w w' => w' = w.modifyPool fun p => { p with highWater := f p }) (A := fun _ => True)
    (B := fun _ _ => True)
    (Sync.modify (fun _ _ => rfl) fun _ _ => trivial) (fun _ _ _ => Change.trans) (fun _ _ => trivial) ?_
      fun _ _ _ _ _ _ _ _ => trivial
  rintro X Y w hg - rfl
  have hnone : heads Y.trace = [] := hg.silent not_false
  refine ⟨⟨hg.sound.sorted, ?_, hg.sound.fresh, hg.sound.served⟩, List.prefix_refl _, False.elim, hg.silent⟩
  intro g hgm
  rw [History.put_trace, hnone] at hgm
  cases hgm

theorem Does.start (o : RpcPoolOptions) : Does False (fun _ => True) (start o) fun _ _ => True := by
  unfold Rpc.start
  split
  · exact Does.ret fun _ _ => trivial
  · refine Does.bind (Does.tame (F := fun _ _ => True) Quiet.pool) ?_
    intro p
    refine Does.bind (Does.qualifyAll o _) ?_
    intro _
    refine Does.bind (Does.setHighWater Pool.highestHead) ?_
    intro _
    refine Does.bind (Does.tame (F := fun _ _ => True) (Quiet.disqualifyLagging _)) ?_
    intro _
    refine Does.bind (Does.tame (F := fun _ _ => True) (Quiet.selectEach o false Quiet.selectFirst capabilities)) ?_
    intro _
    refine Does.bind (Does.tame (F := fun _ _ => True) Quiet.pool) ?_
    intro p
    split
    · exact Does.fail
    · have htimer : Quiet (fun _ => False) (fun _ => True) (modifyPool fun p => { p with timer := true })
        fun _ _ => True :=
        Sync.modify (fun w _ => ⟨rfl, fun _ _ h => .inr h⟩) fun _ _ => trivial
      exact Does.tame (F := fun _ _ => True) htimer

/-- A pool that was constructed knows nothing of its providers. -/
theorem constructed_sound {o : RpcPoolOptions} (ho : o.fallback.isSome) {w : World} (h : Constructed o w.pool) :
    Change False ⟨w, []⟩ ⟨w, []⟩ where
  sound := {
    sorted := List.Pairwise.nil
    below := nofun
    fresh := by
      rintro i c ⟨n, hn, hq⟩
      obtain ⟨now, hnodes⟩ := h.nodes
      have hn' : w.pool.nodes[i]? = some n := hn
      rw [hnodes, List.getElem?_mapIdx] at hn'
      obtain ⟨e, -, rfl⟩ := Option.map_eq_some_iff.mp hn'
      have : o.fallback.isNone = true := hq
      rw [Option.isNone_iff_eq_none] at this
      rw [this] at ho
      cases ho
    served := by
      intro a q since w' served b ht
      cases a <;> cases ht }
  extends_ := List.prefix_refl _
  highWater := False.elim
  silent _ := rfl

theorem started_sound {o : RpcPoolOptions} (ho : o.fallback.isSome) {X : History} (h : Started o X) :
    Change True X X := by
  obtain ⟨w, hw, hsolo⟩ := h
  have hsafe := Does.start o _ _ (constructed_sound ho hw) trivial
  obtain ⟨X', ⟨hX, -⟩, -⟩ := hsafe.solo (fun _ _ h => h.refl_right) hsolo
  exact ⟨hX.sound, List.prefix_refl _, fun _ => le_refl _, nofun ∘ (· trivial)⟩

/-! ## The service -/

/-- What is said of a history: the block numbers that are returned never decrease; a provider whose result is
returned has reported a head that was not below them at that time, and if the request has switched to it, or asks
for the head, then one that is not below what had been returned when the request started. -/
structure NeverBack (l : List Entry) : Prop where
  sorted : (heads l).Pairwise (· ≤ ·)
  served : ∀ a q since w served b, l = a ++ .ended ⟨.request q, since, w⟩ (.ok (some served)) :: b →
    Guarded q since w served.provider a

/-- **The pool does not go back**, whatever the providers answer, and whatever requests and probes run at the same
time. -/
theorem never_back {o : RpcPoolOptions} (ho : o.fallback.isSome) {X : Service} (h : X.Reachable o) :
    NeverBack X.history.trace := by
  have hsound := (System.kept (G := Change True) (fun _ _ _ => Change.trans) (fun _ _ => Change.refl_right)
    (fun X hX => started_sound ho hX) (fun X j hX _ => body_safe ho X j hX) ?_ h).sound
  · exact ⟨hsound.sorted, hsound.served⟩
  · intro Y w hY hw
    refine hY.put (E := fun _ => False) (fun _ => False.elim) ?_
    rcases hw with hw | hw
    · exact Tame.of_pool hw
    · refine ⟨by rw [hw], fun i c hq => .inr ?_⟩
      rw [hw] at hq
      exact hq

/-! A sample: an endpoint for logs, a primary and a fallback, all at the head 100 when the pool is started. -/

def sampleProbe : RpcProbe := ⟨1, "0x1", "b", "t", "0x2", "r", "a", "0x0"⟩

def sampleOptions : RpcPoolOptions :=
  ⟨"u", 421614, 1000, none, some ⟨none, [], [⟨"ankr", none, [], "v"⟩], sampleProbe⟩, some "w"⟩

/-- A provider that passes every check, at a head. -/
def sampleAnswer (head : String) : (c : Command) → Except Failure (Answer c)
  | .call _ .eth_chainId _ _ _ => .ok (.string "0x66eee")
  | .call _ .eth_blockNumber _ _ _ => .ok (.string head)
  | .call _ .eth_getBlockByNumber _ _ _ => .ok (.object [("hash", .string "b"), ("number", .string "0x1")])
  | .call _ .eth_getCode _ _ _ => .ok (.string "0x00")
  | .call _ .eth_getTransactionReceipt _ _ _ =>
    .ok (.object [("transactionHash", .string "t"), ("blockHash", .string "r"), ("blockNumber", .string "0x2")])
  | .call _ .eth_getLogs _ _ _ =>
    .ok (.array [.object [("transactionHash", .string "t"), ("logIndex", .string "0x0"), ("blockHash", .string "r")]])
  | .call _ _ _ _ _ => .ok .null
  | .checked => .ok ()

/-- A provider that does not answer. -/
def noAnswer : (c : Command) → Except Failure (Answer c) := fun _ => .error (.attempt .network 0)

def sampleWorld : World where
  pool := ⟨(raw sampleOptions).mapIdx fun _ e => initialNode sampleOptions (fun _ => 0) e, fun _ => none, fun _ =>
    none, 0, [], false, false⟩
  nowReadings _ := 0
  performanceReadings _ := 0
  aborted _ := false

theorem sampleWorld_constructed : Constructed sampleOptions sampleWorld.pool where
  urls := by decide
  nodes := ⟨fun _ _ => 0, rfl⟩
  active _ := rfl
  selectedAt _ := rfl
  highWater := rfl
  anchors := rfl
  timer := rfl
  closed := rfl

def sampleStarted : History := ((start sampleOptions).solo (sampleAnswer "0x64") ⟨sampleWorld, []⟩).2

theorem sampleStarted_started : Started sampleOptions sampleStarted := by
  refine ⟨sampleWorld, sampleWorld_constructed, ?_⟩
  have hrun := solo_solo (sampleAnswer "0x64") (start sampleOptions) (⟨sampleWorld, []⟩ : History)
  have hok : ((start sampleOptions).solo (sampleAnswer "0x64") (⟨sampleWorld, []⟩ : History)).1 =
    .ok () := by decide +kernel
  rw [hok] at hrun
  exact hrun

def headRequest : Request := ⟨.eth_blockNumber, [], none, none⟩

def logsRequest : Request := ⟨.eth_getLogs, [], none, none⟩

/-- The head is 200; then logs are asked for, of the endpoint that was at 100. -/
def laggingLogs : List (Action Job Answer Failure) :=
  [.start 0 (.request headRequest), .answer 0 (sampleAnswer "0xc8"), .start 1 (.request logsRequest),
    .answer 1 (sampleAnswer "0x64")]

/-- The head is 200; then the primary fails, and the fallback reports 201 and answers 202. -/
def switching : List (Action Job Answer Failure) :=
  [.start 0 (.request headRequest), .answer 0 (sampleAnswer "0xc8"), .start 1 (.request headRequest),
    .answer 1 noAnswer,
    .answer 1 (sampleAnswer "0xc9"), .answer 1 (sampleAnswer "0xca")]

def playSample (actions : List (Action Job Answer Failure)) : Service :=
  actions.foldl (System.play (body sampleOptions)) ⟨sampleStarted, fun _ => none⟩

theorem laggingLogs_reachable : Service.Reachable sampleOptions (playSample laggingLogs) := by
  refine ⟨⟨sampleStarted, fun _ => none⟩, ⟨sampleStarted_started, fun _ => rfl⟩, System.play_run ?_⟩
  exact ⟨⟨rfl, trivial⟩, ⟨by decide +kernel, trivial⟩, trivial⟩

theorem switching_reachable : Service.Reachable sampleOptions (playSample switching) := by
  refine ⟨⟨sampleStarted, fun _ => none⟩, ⟨sampleStarted_started, fun _ => rfl⟩, System.play_run ?_⟩
  exact ⟨⟨rfl, trivial⟩, ⟨by decide +kernel, trivial⟩, trivial⟩

/-- The heads of two providers, one after the other. -/
theorem never_back_sample : ∃ X, Service.Reachable sampleOptions X ∧ NeverBack X.history.trace ∧
    heads X.history.trace = [200, 202] :=
  ⟨playSample switching, switching_reachable, never_back rfl switching_reachable, by decide +kernel⟩

/-! ## Providers that stay active

The provider that is already active for a category is not asked for its head again: only a switch is guarded. -/

/-- Every result comes from a provider that has reported a head at least as high as all that had been returned when
the request started. -/
def AlwaysCaughtUp (l : List Entry) : Prop := ∀ a q since w served b,
  l = a ++ .ended ⟨.request q, since, w⟩ (.ok (some served)) :: b → AtLeast served.provider (a.take since) a

/-- The last entry is a result of a provider that has only reported heads below one that had been returned. -/
def endsBehind (l : List Entry) : Bool :=
  match l.getLast? with
  | some (.ended ⟨.request _, since, _⟩ (.ok (some served))) =>
    (heads (l.dropLast.take since)).any fun g => l.dropLast.all fun e => (reportOf served.provider e).all (· < g)
  | _ => false

theorem endsBehind_spec {l : List Entry} (h : endsBehind l = true) : ¬AlwaysCaughtUp l := by
  intro hall
  unfold endsBehind at h
  split at h
  case h_2 => cases h
  case h_1 q since w served hlast =>
    have hl : l = l.dropLast ++ [.ended ⟨.request q, since, w⟩ (.ok (some served))] :=
      (List.dropLast_append_getLast? _ hlast).symm
    obtain ⟨g, hg, hbelow⟩ := List.any_eq_true.mp h
    obtain ⟨h', hle, e, he, hr⟩ := hall _ q since w served [] hl g hg
    have hlt := List.all_eq_true.mp hbelow e he
    rw [hr] at hlt
    have : h' < g := of_decide_eq_true hlt
    omega

/-- The head 200 has been returned, and then logs come from an endpoint that has only reported 100. -/
theorem logs_left_behind : ∃ X, Service.Reachable sampleOptions X ∧
    ¬((heads X.history.trace).Pairwise (· ≤ ·) ∧ AlwaysCaughtUp X.history.trace) := by
  refine ⟨playSample laggingLogs, laggingLogs_reachable, ?_⟩
  rintro ⟨-, hall⟩
  have h : endsBehind (playSample laggingLogs).history.trace = true := by decide +kernel
  exact endsBehind_spec h hall

end Rpc

end Cpredict
