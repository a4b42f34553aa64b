import Cpredict.Rpc.Pool

/-!
# The heads that a pool returns

The numbers that `eth_blockNumber` returns never decrease, and a provider to which a request switches has reported a
head that is at least as high as all that were returned before. `Sound` is what holds of every history, and all that
the coroutines of the pool do are changes that keep it (`Change`): most of it leaves the heads and qualifies nobody
(`Tame`).
-/

namespace Cpredict

namespace Rpc

open Coroutine

/-! ## What a history says -/

/-- The head that an entry reports of the provider `i`. -/
def reportOf (i : Nat) : Entry → Option Nat
  | .answered (.call j .eth_blockNumber _ _ _) (.ok head) => if j = i then head.quantity else none
  | _ => none

/-- The block number that an entry returns. -/
def returnedHead : Entry → Option Nat
  | .ended ⟨.request q, _, _⟩ (.ok (some served)) =>
      if q.method = .eth_blockNumber then served.result.quantity else none
  | _ => none

/-- The block numbers that have been returned, in their order. -/
def heads (l : List Entry) : List Nat := l.filterMap returnedHead

/-- The provider `i` has reported the head `h`. -/
def Reported (l : List Entry) (i h : Nat) : Prop := ∃ e ∈ l, reportOf i e = some h

/-- The provider `i` has at some time reported a head that was not below what had been returned until then. -/
def Fresh (i : Nat) (l : List Entry) : Prop := ∃ a e b h, l = a ++ e :: b ∧ reportOf i e = some h ∧ ∀ g ∈ heads a, g ≤ h

/-- The request switches from the active provider of its category. -/
def Switches (q : Request) (w : World) (i : Nat) : Prop :=
  (w.pool.active (category q.method q.params)).isSome ∧ w.pool.active (category q.method q.params) ≠ some i

/-- What is said of a result of the provider `i` after `l`, for a request that was started after `since` entries. -/
structure Guarded (q : Request) (since : Nat) (w : World) (i : Nat) (l : List Entry) : Prop where
  fresh : Fresh i l
  caughtUp : q.method = .eth_blockNumber ∨ Switches q w i → ∀ h ∈ heads (l.take since), ∃ h', h ≤ h' ∧ Reported l i h'

/-! ## The invariant -/

def QualifiedAt (p : Pool) (i : Nat) (c : Capability) : Prop := ∃ n, p.nodes[i]? = some n ∧
    (n.states c).qualified = true

structure Sound (X : History) : Prop where
  sorted : (heads X.trace).Pairwise (· ≤ ·)
  below : ∀ h ∈ heads X.trace, h ≤ X.state.pool.highWater
  fresh : ∀ i c, QualifiedAt X.state.pool i c → Fresh i X.trace
  served : ∀ a q since w served b, X.trace = a ++ .ended ⟨.request q, since, w⟩ (.ok (some served)) :: b →
    Guarded q since w served.provider a

/-- What the pool does: while it serves, the highest head does not fall; before that nothing is returned. -/
structure Change (serving : Prop) (X Y : History) : Prop where
  sound : Sound Y
  extends_ : X.trace <+: Y.trace
  highWater : serving → X.state.pool.highWater ≤ Y.state.pool.highWater
  silent : ¬serving → heads Y.trace = []

section

variable {serving : Prop} {X Y Z : History}

theorem Change.refl_right (h : Change serving X Y) : Change serving Y Y :=
  ⟨h.sound, List.prefix_refl _, fun _ => le_refl _, h.silent⟩

theorem Change.trans (h : Change serving X Y) (h' : Change serving Y Z) : Change serving X Z where
  sound := h'.sound
  extends_ := h.extends_.trans h'.extends_
  highWater hs := (h.highWater hs).trans (h'.highWater hs)
  silent := h'.silent

end

/-! ## Lists of entries -/

section

variable {l m : List Entry} {i h : Nat}

theorem heads_append (l m : List Entry) : heads (l ++ m) = heads l ++ heads m := List.filterMap_append

theorem heads_answered (l : List Entry) (c : Command) (r : Except Failure (Answer c)) :
    heads (l ++ [.answered c r]) = heads l := by
  rw [heads_append]
  exact List.append_nil _

theorem Reported.extend (hr : Reported l i h) (hp : l <+: m) : Reported m i h := by
  obtain ⟨e, he, hh⟩ := hr
  exact ⟨e, hp.subset he, hh⟩

theorem Fresh.extend (hf : Fresh i l) (hp : l <+: m) : Fresh i m := by
  obtain ⟨a, e, b, h, rfl, he, hg⟩ := hf
  obtain ⟨t, rfl⟩ := hp
  exact ⟨a, e, b ++ t, h, by simp, he, hg⟩

end

/-! ## Tame changes -/

/-- The heads are left, and nobody is qualified but those in `E`. -/
structure Tame (E : Nat → Prop) (w w' : World) : Prop where
  highWater : w'.pool.highWater = w.pool.highWater
  qualified : ∀ i c, QualifiedAt w'.pool i c → E i ∨ QualifiedAt w.pool i c

section

variable {E : Nat → Prop} {w w' w'' : World}

theorem Tame.refl (w : World) : Tame E w w := ⟨rfl, fun _ _ h => .inr h⟩

theorem Tame.trans (h : Tame E w w') (h' : Tame E w' w'') : Tame E w w'' where
  highWater := h'.highWater.trans h.highWater
  qualified i c hq := (h'.qualified i c hq).elim .inl (h.qualified i c)

theorem Tame.of_pool (h : w'.pool = w.pool) : Tame E w w' :=
  ⟨by rw [h], fun i c hq => .inr (by rwa [h] at hq)⟩

theorem qualifiedAt_modify {p : Pool} {i j : Nat} {f : Node → Node} {c : Capability}
    (h : QualifiedAt (p.modifyNode i f) j c) :
    ∃ n, p.nodes[j]? = some n ∧ ((if i = j then f n else n).states c).qualified = true := by
  obtain ⟨n, hn, hq⟩ := h
  unfold Pool.modifyNode at hn
  rw [List.getElem?_modify] at hn
  obtain ⟨m, hm, rfl⟩ := Option.map_eq_some_iff.mp hn
  exact ⟨m, hm, hq⟩

/-- A change of one provider. -/
theorem Tame.modifyNode (w : World) (i : Nat) {f : Node → Node}
    (hf : ∀ n c, ((f n).states c).qualified = true → E i ∨ (n.states c).qualified = true) :
    Tame E w (w.modifyPool (Pool.modifyNode i f)) where
  highWater := rfl
  qualified j c h := by
    obtain ⟨n, hn, hq⟩ := qualifiedAt_modify h
    split at hq
    case isTrue hij =>
      subst hij
      exact (hf n c hq).imp_right fun hq => ⟨n, hn, hq⟩
    case isFalse => exact .inr ⟨n, hn, hq⟩

/-- A change of what is known of a provider for a category. -/
theorem Tame.modifyState (w : World) (i : Nat) (c : Capability) {f : State → State}
    (hf : ∀ s, (f s).qualified = true → E i ∨ s.qualified = true) :
    Tame E w (w.modifyPool (Pool.modifyNode i (Node.setState c f))) := by
  refine Tame.modifyNode w i ?_
  intro n d hd
  unfold Node.setState at hd
  by_cases hcd : d = c
  · subst hcd
    simp only [Function.update_self] at hd
    exact hf _ hd
  · simp only [Function.update_of_ne hcd] at hd
    exact .inr hd

end

/-- A tame change is a change. -/
theorem Change.put {serving : Prop} {E : Nat → Prop} {X Y : History} {w : World} (h : Change serving X Y)
    (hE : ∀ i, E i → Fresh i Y.trace) (ht : Tame E Y.state w) : Change serving Y (Y.put w) where
  sound := {
    sorted := h.sound.sorted
    below := by
      rw [History.put_state, ht.highWater]
      exact h.sound.below
    fresh := fun i c hq => (ht.qualified i c hq).elim (hE i) (h.sound.fresh i c)
    served := h.sound.served }
  extends_ := List.prefix_refl _
  highWater _ := by
    rw [History.put_state, ht.highWater]
  silent := h.silent

theorem Change.answered {serving : Prop} {X Y : History} (c : Command) (r : Except Failure (Answer c))
    (h : Change serving X Y) :
    Change serving X (Y.answered c r) where
  sound := {
    sorted := by
      rw [History.answered_trace, heads_answered]
      exact h.sound.sorted
    below := by
      rw [History.answered_trace, heads_answered]
      exact h.sound.below
    fresh := fun i d hq => (h.sound.fresh i d hq).extend (List.prefix_append _ _)
    served := by
      intro a q since w served b ht
      rw [History.answered_trace] at ht
      rcases List.eq_nil_or_concat b with rfl | ⟨b', e, rfl⟩
      · have := List.append_inj_right' ht rfl
        cases this
      · rw [List.concat_eq_append, ← List.cons_append, ← List.append_assoc] at ht
        exact h.sound.served a q since w served b' (List.append_inj_left' ht rfl) }
  extends_ := h.extends_.trans (List.prefix_append _ _)
  highWater := h.highWater
  silent hn := by
    rw [History.answered_trace, heads_answered]
    exact h.silent hn

/-! ## Parts that are tame -/

/-- A part without an await that is tame; its conditions are about the pool. -/
abbrev Quiet {β : Type} (E : Nat → Prop) (P : Pool → Prop) (p : M β) (Q : β → Pool → Prop) : Prop :=
  Sync (Tame E) (fun w => P w.pool) p fun b w => Q b w.pool

section

variable {E : Nat → Prop} {P : Pool → Prop} {β γ : Type}

theorem Quiet.ret {b : β} {Q : β → Pool → Prop} (h : ∀ p, P p → Q b p) : Quiet E P (.ret b) Q :=
  Sync.ret Tame.refl fun w => h w.pool

theorem Quiet.fail {e : Failure} {Q : β → Pool → Prop} : Quiet E P (.fail e) Q := Sync.fail Tame.refl

theorem Quiet.bind {p : M β} {f : β → M γ} {Q : β → Pool → Prop} {S : γ → Pool → Prop} (h : Quiet E P p Q)
    (hf : ∀ b, Quiet E (Q b) (f b) S) : Quiet E P (p >>= f) S := Sync.bind (fun _ _ _ => Tame.trans) h hf

/-- A part of which nothing is needed afterwards. -/
theorem Quiet.seq {p : M β} {f : β → M γ} {Q : β → Pool → Prop} {S : γ → Pool → Prop} (h : Quiet E P p Q)
    (hf : ∀ b, Quiet E (fun _ => True) (f b) S) : Quiet E P (p >>= f) S :=
  Quiet.bind (Sync.mono h (fun _ hp => hp) (fun _ _ _ => trivial)) hf

theorem Quiet.now : Quiet E P now fun _ => P := by
  intro w hw
  refine ⟨.ok (w.nowReadings 0), _, rfl, Tame.of_pool rfl, ?_⟩
  rintro _ ⟨⟩
  exact hw

theorem Quiet.performanceNow : Quiet E P performanceNow fun _ => P := by
  intro w hw
  refine ⟨.ok (w.performanceReadings 0), _, rfl, Tame.of_pool rfl, ?_⟩
  rintro _ ⟨⟩
  exact hw

theorem Quiet.cancelled (signal : Option Nat) : Quiet E P (cancelled signal) fun _ => P := by
  intro w hw
  refine ⟨.ok _, w, rfl, Tame.refl w, ?_⟩
  rintro _ ⟨⟩
  exact hw

theorem Quiet.pool : Quiet E P pool fun b p => b = p ∧ P p := by
  intro w hw
  refine ⟨.ok w.pool, w, rfl, Tame.refl w, ?_⟩
  rintro _ ⟨⟩
  exact ⟨rfl, hw⟩

theorem Quiet.node (i : Nat) : Quiet E P (node i) fun n p => n = p.nodes.getD i default ∧ P p := by
  intro w hw
  refine ⟨.ok (w.pool.nodes.getD i default), w, rfl, Tame.refl w, ?_⟩
  rintro _ ⟨⟩
  exact ⟨rfl, hw⟩

theorem Quiet.state (i : Nat) (c : Capability) : Quiet E P (state i c) fun _ => P := by
  intro w hw
  refine ⟨.ok ((w.pool.nodes.getD i default).states c), w, rfl, Tame.refl w, ?_⟩
  rintro _ ⟨⟩
  exact hw

theorem Quiet.modifyNode (i : Nat) {f : Node → Node} (hf : ∀ n c, ((f n).states c).qualified = true → E i ∨
    (n.states c).qualified = true) :
    Quiet E P (modifyNode i f) fun _ _ => True :=
  Sync.modify (fun w _ => Tame.modifyNode w i hf) fun _ _ => True.intro

theorem Quiet.modifyState (i : Nat) (c : Capability) {f : State → State} (hf : ∀ s, (f s).qualified = true → E i ∨
    s.qualified = true) :
    Quiet E P (modifyState i c f) fun _ _ => True :=
  Sync.modify (fun w _ => Tame.modifyState w i c hf) fun _ _ => True.intro

theorem Quiet.throwIf (b : Bool) (e : Failure) : Quiet E P (throwIf b e) fun _ p => b = false ∧ P p := by
  cases b with
  | true => exact Quiet.fail
  | false => exact Quiet.ret fun p hp => ⟨rfl, hp⟩

theorem Quiet.whenever (b : Bool) {x : M Unit} (h : Quiet E P x fun _ _ => True) :
    Quiet E P (whenever b x) fun _ _ => True := by
  cases b with
  | true => exact h
  | false => exact Quiet.ret fun _ _ => True.intro

/-! ### Selection -/

variable (o : RpcPoolOptions)

theorem qualifiedAt_of_getD {p : Pool} {i : Nat} {c : Capability}
    (h : ((p.nodes.getD i default).states c).qualified = true) :
    QualifiedAt p i c := by
  rw [List.getD_eq_getElem?_getD] at h
  cases hn : p.nodes[i]? with
  | none =>
    rw [hn] at h
    cases h
  | some n =>
    rw [hn] at h
    exact ⟨n, hn, h⟩

/-- Who is eligible is qualified. -/
theorem Quiet.eligible (i : Nat) (c : Capability) :
    Quiet E P (eligible o i c) fun b p => (b = true → QualifiedAt p i c) ∧ P p := by
  refine Quiet.bind (Quiet.node i) ?_
  intro n
  split
  case isTrue hn =>
    refine Quiet.bind (Q := fun _ p => n = p.nodes.getD i default ∧ P p) Quiet.now ?_
    intro t
    refine Quiet.ret ?_
    rintro p ⟨rfl, hp⟩
    exact ⟨fun _ => qualifiedAt_of_getD hn.2.2.2, hp⟩
  case isFalse =>
    refine Quiet.ret ?_
    rintro p ⟨-, hp⟩
    exact ⟨nofun, hp⟩

theorem Quiet.filterEligible (c : Capability) (indices : List Nat) :
    Quiet E P (filterEligible o c indices) fun l p => (∀ i ∈ l, QualifiedAt p i c) ∧ P p := by
  induction indices generalizing P with
  | nil => exact Quiet.ret fun p hp => ⟨nofun, hp⟩
  | cons i indices ih =>
    refine Quiet.bind (Quiet.eligible o i c) ?_
    intro e
    refine Quiet.bind ih ?_
    intro rest
    refine Quiet.ret ?_
    rintro p ⟨hrest, he, hp⟩
    refine ⟨?_, hp⟩
    intro j hj
    split at hj
    case isTrue h =>
      rcases List.mem_cons.mp hj with rfl | hj
      · exact he h
      · exact hrest j hj
    case isFalse => exact hrest j hj

theorem Quiet.findEligible (c : Capability) (healthy : Bool) (indices : List Nat) :
    Quiet E P (findEligible o c healthy indices) fun _ _ => True := by
  induction indices generalizing P with
  | nil => exact Quiet.ret fun _ _ => True.intro
  | cons i indices ih =>
    refine Quiet.seq (Quiet.eligible o i c) ?_
    intro e
    refine Quiet.seq (Quiet.state i c) ?_
    intro s
    split
    case isTrue => exact Quiet.ret fun _ _ => True.intro
    case isFalse => exact ih

theorem Quiet.select (i : Nat) (c : Capability) : Quiet E P (select i c) fun _ _ => True := by
  refine Quiet.seq Quiet.pool ?_
  intro p
  split
  case isTrue => exact Quiet.ret fun _ _ => True.intro
  case isFalse =>
    refine Quiet.seq (Quiet.modifyState i c fun s h => .inr h) ?_
    intro _
    refine Quiet.seq Quiet.now ?_
    intro t
    exact Sync.modify (fun w _ => ⟨rfl, fun _ _ h => .inr h⟩) fun _ _ => True.intro

theorem Quiet.selectEach (healthy : Bool) {choose : Capability → Option Nat → M Unit}
    (h : ∀ c best, Quiet E (fun _ => True) (choose c best) fun _ _ => True) (cs : List Capability) :
    Quiet E (fun _ => True) (selectEach o healthy choose cs) fun _ _ => True := by
  induction cs with
  | nil => exact Quiet.ret fun _ _ => True.intro
  | cons c rest ih =>
    refine Quiet.seq Quiet.pool ?_
    intro p
    refine Quiet.seq (Quiet.findEligible o c healthy _) ?_
    intro best
    exact Quiet.seq (h c best) fun _ => ih

theorem Quiet.selectFirst (c : Capability) (best : Option Nat) : Quiet E (fun _ => True) (selectFirst c best)
    fun _ _ => True := by
  cases best with
  | none => exact Quiet.ret fun _ _ => True.intro
  | some i => exact Quiet.select i c

theorem Quiet.selectRecovered (c : Capability) (best : Option Nat) :
    Quiet E (fun _ => True) (selectRecovered c best) fun _ _ => True := by
  refine Quiet.seq Quiet.pool ?_
  intro p
  split
  · exact Quiet.ret fun _ _ => True.intro
  · exact Quiet.select _ c
  · refine Quiet.seq Quiet.now ?_
    intro t
    exact Quiet.whenever _ (Quiet.select _ c)

/-! ### Faults -/

theorem Quiet.suspend (i : Nat) (c : Capability) (reason : Reason) (retryAfterMs : Nat) :
    Quiet E P (suspend i c reason retryAfterMs) fun _ _ => True :=
  Quiet.seq Quiet.now fun _ => Quiet.modifyState i c fun _ h => nomatch h

theorem Quiet.suspendOthers (i : Nat) (c : Capability) (s : State) (cs : List Capability) :
    Quiet E P (suspendOthers i c s cs) fun _ _ => True := by
  induction cs generalizing P with
  | nil => exact Quiet.ret fun _ _ => True.intro
  | cons d rest ih => exact Quiet.seq (Quiet.whenever _ (Quiet.modifyState i d fun _ h => nomatch h)) fun _ => ih

theorem Quiet.fault (i : Nat) (c : Capability) (reason : Reason) (retryAfterMs : Nat) :
    Quiet E P (fault o i c reason retryAfterMs) fun _ _ => True := by
  unfold Rpc.fault
  split
  case isTrue => exact Quiet.ret fun _ _ => True.intro
  case isFalse =>
    refine Quiet.seq (Quiet.modifyState i c fun s h => .inr h) ?_
    intro _
    refine Quiet.seq (Quiet.state i c) ?_
    intro s
    refine Quiet.seq (Quiet.whenever _ (Quiet.suspend i c reason retryAfterMs)) ?_
    intro _
    refine Quiet.seq (Quiet.state i c) ?_
    intro s
    exact Quiet.whenever _ (Quiet.suspendOthers i c s capabilities)

/-! ### Heads -/

/-- A head that is accepted is not below the highest one. -/
theorem Quiet.reportHead (i : Nat) (head : Json) :
    Quiet E P (reportHead i head) fun h p => head.quantity = some h ∧ p.highWater ≤ h := by
  unfold Rpc.reportHead
  split
  · exact Quiet.fail
  · rename_i h hh
    refine Quiet.seq (Quiet.modifyNode i fun n c hq => .inr hq) ?_
    intro _
    refine Quiet.bind Quiet.pool ?_
    intro p
    refine Quiet.bind (Quiet.throwIf _ _) ?_
    intro _
    refine Quiet.ret ?_
    rintro _ ⟨hlt, rfl, -⟩
    exact ⟨hh, not_lt.mp (of_decide_eq_false hlt)⟩

/-! ### Qualification -/

theorem Quiet.skips (i : Nat) (initial : Bool) (c : Capability) : Quiet E P (skips o i initial c) fun _ _ => True := by
  refine Quiet.seq (Quiet.node i) ?_
  intro n
  dsimp only
  split
  · exact Quiet.ret fun _ _ => True.intro
  · refine Quiet.seq Quiet.now ?_
    intro t
    split
    · exact Quiet.ret fun _ _ => True.intro
    · split
      · exact Quiet.ret fun _ _ => True.intro
      · split
        · exact Quiet.ret fun _ _ => True.intro
        · exact Quiet.seq Quiet.now fun _ => Quiet.ret fun _ _ => True.intro

theorem Quiet.pass (i : Nat) (c : Capability) (initial : Bool) (hE : E i) :
    Quiet E P (pass i c initial) fun _ _ => True := by
  refine Quiet.seq Quiet.now ?_
  intro t
  refine Quiet.seq (Quiet.modifyState i c fun s h => .inr h) ?_
  intro _
  refine Quiet.seq (Quiet.state i c) ?_
  intro s
  exact Quiet.whenever _ (Quiet.modifyState i c fun _ _ => .inl hE)

theorem Quiet.failed (i : Nat) (c : Capability) (e : Failure) : Quiet E P (failed o i c e) fun _ _ => True := by
  refine Quiet.seq (Quiet.modifyState i c fun _ h => nomatch h) ?_
  intro _
  refine Quiet.seq (Q := fun _ _ => True) ?_ ?_
  · cases e with
    | attempt reason retryAfterMs => exact Quiet.fault o i c reason retryAfterMs
    | _ => exact Quiet.ret fun _ _ => True.intro
  · intro _
    exact Quiet.seq Quiet.now fun _ => Quiet.modifyState i c fun s h => .inr h

theorem Quiet.disqualifyEach (i : Nat) (cs : List Capability) : Quiet E P (disqualifyEach i cs) fun _ _ => True := by
  induction cs generalizing P with
  | nil => exact Quiet.ret fun _ _ => True.intro
  | cons c rest ih =>
    refine Quiet.seq (Quiet.state i c) ?_
    intro s
    refine Quiet.seq (Quiet.whenever _ (Quiet.seq Quiet.now fun _ => Quiet.modifyState i c fun _ h => nomatch h)) ?_
    exact fun _ => ih

theorem Quiet.disqualifyLagging (indices : List Nat) : Quiet E P (disqualifyLagging indices) fun _ _ => True := by
  induction indices generalizing P with
  | nil => exact Quiet.ret fun _ _ => True.intro
  | cons i rest ih =>
    refine Quiet.seq (Quiet.node i) ?_
    intro n
    refine Quiet.seq Quiet.pool ?_
    intro p
    exact Quiet.seq (Quiet.whenever _ (Quiet.disqualifyEach i capabilities)) fun _ => ih

/-! ### Results -/

theorem Quiet.anchor (i : Nat) (method : Method) (params : List Json) (b : Json) :
    Quiet E P (anchor i method params b) fun _ _ => True := by
  refine Quiet.seq (Q := fun _ _ => True) (Sync.ofExcept Tame.refl fun _ _ _ _ => True.intro) ?_
  rintro ⟨number, hash⟩
  refine Quiet.seq (Q := fun _ _ => True) (Sync.ofExcept Tame.refl fun _ _ _ _ => True.intro) ?_
  intro _
  refine Quiet.seq (Quiet.node i) ?_
  intro n
  refine Quiet.seq Quiet.pool ?_
  intro p
  refine Quiet.seq (Quiet.throwIf _ _) ?_
  intro _
  exact Sync.modify (fun w _ => ⟨rfl, fun _ _ h => .inr h⟩) fun _ _ => True.intro

end

end Rpc

end Cpredict
