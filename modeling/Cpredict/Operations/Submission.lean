import Cpredict.Operations.Invariant
import Cpredict.Operations.Responder

/-!
# A user operation is submitted once

The gateway persists the hash of a user operation before it sends it, with a change that is made once; so it is sent
at most once, by the request that has made the change (`submitted_once`).
-/

namespace Cpredict.Operations

open Program

/-! ## Where an await stands -/

section

variable {cfg : ServiceConfig} {X Y : Recorded}

/-- The await `o` was made in the state of `Z`, after the trace `s`; from there the run went on to `X`. -/
structure Made (cfg : ServiceConfig) (X : Recorded) (s : List Occurrence) (o : Occurrence) (Z : Recorded) : Prop where
  reachable : Legal.Reachable cfg Z
  trace : Z.trace = s
  state : Z.state = o.before
  permits : Permits cfg (own o.thread s) o.event.cmd
  effect : Effect o.event.cmd o.before o.event.reply o.after
  after : Legal.Reachable cfg ⟨o.after, s ++ [o]⟩
  run : Reach.Run (Legal cfg) ⟨o.after, s ++ [o]⟩ X
  whole : Reach.Run (Legal cfg) Z X

/-- The state in which an await was made. -/
theorem Legal.Reachable.split (h : Legal.Reachable cfg X) {s t : List Occurrence} {o : Occurrence}
    (ht : X.trace = s ++ o :: t) :
    ∃ Z, Made cfg X s o Z := by
  obtain ⟨Z, hZ, rfl, hst, hp, he, hr⟩ := Recorded.split h ht
  have hstep : Legal cfg Z ⟨o.after, Z.trace ++ [o]⟩ := by
    have hs : Legal cfg Z (Z.after o.thread o.event.cmd o.event.reply o.after) := .call hp (hst ▸ he)
    unfold Recorded.after at hs
    rwa [hst] at hs
  exact ⟨Z, hZ, rfl, hst, hp, he, Reach.Reachable.next hZ hstep, hr, (Relation.ReflTransGen.single hstep).trans hr⟩

/-- The record of an operation when an await was made. -/
def Stored (o : Occurrence) (id : Nat) (hash : Bytes32) : Prop :=
  ∃ r, o.before.rows.find id = some r ∧ r.operation.userOperationHash = some hash

/-- The await moves the operation to its submission, with the hash. -/
def Marks (id : Nat) (hash : Bytes32) (o : Occurrence) : Prop :=
  ∃ at' x, o.event = ⟨.transition id (.submit hash) at', .ok (true, x)⟩

/-- The await sends a user operation of the operation. -/
def Sends (id : Nat) (o : Occurrence) : Prop := ∃ u, o.event.cmd = .sendUserOperation id u

/-- The await asks the bundler for something. -/
def Contacts (o : Occurrence) : Prop :=
  o.event.cmd = .bundler ∨ (∃ hash, o.event.cmd = .userOperationReceipt hash) ∨ ∃ id, Sends id o

/-- What an acknowledged transition has done. -/
theorem transition_acknowledged {id at' : Nat} {c : Change} {x : StoredOperation} {w w' : World}
    (h : Effect (.transition id c at') w (.ok (true, x)) w') :
    ∃ old, w.rows.find id = some old ∧ old.operation.state ∈ c.source ∧
      x = { old with operation := c.next at' old.operation } ∧ w'.rows.find id = some x := by
  rcases h.rows with ⟨⟨b, y⟩, hok, he | ⟨e, he⟩⟩ | ⟨-, e, he⟩
  · obtain ⟨rfl, rfl⟩ := Prod.mk.inj (Except.ok.inj he)
    obtain ⟨old, hf, ⟨-, hs, hset, hx⟩ | ⟨hb, -⟩⟩ := transition_ok hok
    · refine ⟨old, hf, hs, hx, ?_⟩
      rw [hset, hx]
      exact find_set hf ((next_admission c at' old.operation).id.trans (mem_of_find hf).2)
    · cases hb
  · cases he
  · cases he

/-- A mark is made before the submission, and leaves the hash. -/
theorem mark_effect {id : Nat} {hash : Bytes32} {o : Occurrence} (hm : Marks id hash o) {w' : World}
    (h : Effect o.event.cmd o.before o.event.reply w') :
    (∃ old, o.before.rows.find id = some old ∧ ¬Passed old.operation) ∧
      ∃ x, w'.rows.find id = some x ∧ Passed x.operation ∧ x.operation.userOperationHash = some hash := by
  obtain ⟨at', x, he⟩ := hm
  rw [he] at h
  obtain ⟨old, hf, hs, rfl, hx⟩ := transition_acknowledged h
  refine ⟨⟨old, hf, source_submit hs⟩, _, hx, ?_, ?_⟩
  · simp [Passed, next_state, Change.patch]
  · simp [next_userOperationHash, Change.patch]

/-- **An operation is marked once.** -/
theorem marks_once (h : Legal.Reachable cfg X) {id : Nat} {hash hash' : Bytes32} {a b : Occurrence}
    (hab : [a, b].Sublist X.trace) (ha : Marks id hash a) : ¬Marks id hash' b := by
  intro hb
  obtain ⟨s, t, u, htr⟩ := pair_sublist hab
  obtain ⟨Z, hZ⟩ := h.split (s := s ++ a :: t) (o := b) (t := u) (by simp [htr])
  obtain ⟨W, hW⟩ := hZ.reachable.split hZ.trace
  obtain ⟨-, x, hx, hpassed, -⟩ := mark_effect ha hW.effect
  obtain ⟨y, hy, hl⟩ := hW.after.later hW.run hx
  obtain ⟨⟨old, hold, hnot⟩, -⟩ := mark_effect hb hZ.effect
  rw [← hZ.state, hy] at hold
  obtain rfl := Option.some.inj hold
  exact hnot (hl.passed hpassed)

/-- Where an await of a thread stands. -/
theorem own_mem {X : Recorded} {i : Nat} {e : Event} (he : e ∈ own i X.trace) :
    ∃ s o t, X.trace = s ++ o :: t ∧ o.thread = i ∧ o.event = e := by
  obtain ⟨a, b, hab⟩ := List.append_of_mem he
  obtain ⟨s, o, t, ht, hi, ho, -, -⟩ := own_split hab
  exact ⟨s, o, t, ht, hi, ho⟩

/-- The record that a thread has read is an earlier version. -/
theorem Legal.Reachable.read_operation (h : Legal.Reachable cfg X) {i id : Nat} {r : StoredOperation}
    (he : ⟨.operation id, .ok (some r)⟩ ∈ own i X.trace) :
    r.operation.id = id ∧ ∃ r', X.state.rows.find id = some r' ∧ Later r.operation r'.operation := by
  obtain ⟨s, o, t, ht, -, ho⟩ := own_mem he
  obtain ⟨Z, hZ⟩ := h.split ht
  have heff := hZ.effect
  rw [ho] at heff
  obtain ⟨hrows, hans | ⟨_, hans⟩⟩ := heff.rows
  · have hfind : o.after.rows.find id = some r := by
      rw [hrows]
      exact (Except.ok.inj hans).symm
    exact ⟨(mem_of_find hfind).2, hZ.after.later hZ.run hfind⟩
  · cases hans

/-- The record that a transition has answered is an earlier version. -/
theorem Legal.Reachable.read_transition (h : Legal.Reachable cfg X) {i id at' : Nat} {c : Change} {b : Bool}
    {x : StoredOperation}
    (he : ⟨.transition id c at', .ok (b, x)⟩ ∈ own i X.trace) :
    x.operation.id = id ∧ ∃ r', X.state.rows.find id = some r' ∧ Later x.operation r'.operation := by
  obtain ⟨s, o, t, ht, -, ho⟩ := own_mem he
  obtain ⟨Z, hZ⟩ := h.split ht
  have heff := hZ.effect
  rw [ho] at heff
  have hfind : o.after.rows.find id = some x := by
    rcases heff.rows with ⟨⟨b', y⟩, hok, hans | ⟨_, hans⟩⟩ | ⟨-, _, hans⟩
    · obtain ⟨rfl, rfl⟩ := Prod.mk.inj (Except.ok.inj hans)
      obtain ⟨old, hf, ⟨-, -, hset, rfl⟩ | ⟨-, -, hsame, rfl⟩⟩ := transition_ok hok
      · rw [hset]
        exact find_set hf ((next_admission c at' old.operation).id.trans (mem_of_find hf).2)
      · rwa [hsame]
    · cases hans
    · cases hans
  exact ⟨(mem_of_find hfind).2, hZ.after.later hZ.run hfind⟩

/-- A send comes right after a mark, among the awaits of its thread. -/
theorem send_mark (h : Legal.Reachable cfg X) {s t : List Occurrence} {o : Occurrence} (ht : X.trace = s ++ o :: t)
    {id : Nat}
    {u : WireUserOperation} (ho : o.event.cmd = .sendUserOperation id u) :
    ∃ a k b r request, s = a ++ k :: b ∧ k.thread = o.thread ∧ own o.thread b = [] ∧
      Marks id (cfg.getUserOperationHash u) k ∧ Requested (own o.thread a) request u r ∧ r.operation.id = id := by
  obtain ⟨Z, hZ⟩ := h.split ht
  have hp := hZ.permits
  rw [ho] at hp
  obtain ⟨m, at', x, r, request, hm, hreq, hx⟩ := hp
  obtain ⟨a, k, b, hs, hk, hke, hka, hkb⟩ := own_split (b := []) hm
  have hlast : ⟨.transition r.operation.id (.submit (cfg.getUserOperationHash u)) at', .ok (true, x)⟩ ∈
    own o.thread Z.trace := by
    rw [hZ.trace, hm]
    exact List.mem_append_right m (List.mem_singleton_self _)
  obtain ⟨hid, -⟩ := hZ.reachable.read_transition hlast
  refine ⟨a, k, b, r, request, hs, hk, hkb, ⟨at', x, ?_⟩, hka ▸ hreq, hid.symm.trans hx⟩
  rw [hke, ← hx, hid]

/-- **An operation is sent once.** -/
theorem sends_once (h : Legal.Reachable cfg X) {id : Nat} {a b : Occurrence} (hab : [a, b].Sublist X.trace)
    (ha : Sends id a) :
    ¬Sends id b := by
  rintro ⟨u', hb⟩
  obtain ⟨u, ha⟩ := ha
  obtain ⟨s, t, v, htr⟩ := pair_sublist hab
  have htr' : X.trace = (s ++ a :: t) ++ b :: v := by simp [htr]
  obtain ⟨a₁, k₁, b₁, _, _, hs₁, hk₁, -, hm₁, -, -⟩ := send_mark h htr ha
  obtain ⟨a₂, k₂, b₂, _, _, hs₂, hk₂, hb₂, hm₂, -, -⟩ := send_mark h htr' hb
  have hmarks : ∀ {x y : Occurrence} {g g' : Bytes32}, [x, y].Sublist (s ++ a :: t) → Marks id g x → ¬Marks id g' y :=
    fun hxy => marks_once h (hxy.trans (htr' ▸ List.sublist_append_left _ _))
  have hpair : [k₁, a].Sublist (a₂ ++ k₂ :: b₂) := by
    rw [← hs₂, hs₁, List.append_assoc, List.cons_append]
    exact sublist_pair a₁ b₁ t
  have hbefore : k₁ ∉ a₂ := by
    intro hmem
    refine hmarks ?_ hm₁ hm₂
    rw [hs₂]
    exact (List.singleton_sublist.mpr hmem).append (List.singleton_sublist.mpr List.mem_cons_self)
  obtain ⟨l₁, l₂, hl, hl₁, hl₂⟩ := List.sublist_append_iff.mp hpair
  obtain rfl : l₁ = [] := by
    cases l₁ with
    | nil => rfl
    | cons x rest =>
      obtain ⟨rfl, -⟩ := List.cons.inj hl
      exact absurd (hl₁.subset List.mem_cons_self) hbefore
  rw [List.nil_append] at hl
  rw [← hl] at hl₂
  rcases List.sublist_cons_iff.mp hl₂ with hafter | ⟨rest, hrest, hsub⟩
  · -- the first mark would come after the second one
    refine hmarks ?_ hm₂ hm₁
    rw [hs₂]
    have hmem : k₁ ∈ b₂ := hafter.subset List.mem_cons_self
    exact ((List.singleton_sublist.mpr hmem).cons_cons k₂).trans (List.sublist_append_right a₂ _)
  · -- it is the second one: but between a mark and its send the thread sends nothing else
    obtain ⟨rfl, rfl⟩ := List.cons.inj hrest
    have hmem : a ∈ b₂ := List.singleton_sublist.mp hsub
    have hown : a.event ∈ own b.thread b₂ := mem_own.mpr ⟨a, hmem, hk₁.symm.trans hk₂, rfl⟩
    rw [hb₂] at hown
    cases hown

/-- After a mark the record has the hash. -/
theorem mark_stored (h : Legal.Reachable cfg X) {k : Occurrence} (hk : k ∈ X.trace) {id : Nat} {hash : Bytes32}
    (hm : Marks id hash k) : ∃ r, X.state.rows.find id = some r ∧ r.operation.userOperationHash = some hash := by
  obtain ⟨s, t, ht⟩ := List.append_of_mem hk
  obtain ⟨W, hW⟩ := h.split ht
  obtain ⟨-, x, hx, -, hhash⟩ := mark_effect hm hW.effect
  obtain ⟨y, hy, hl⟩ := hW.after.later hW.run hx
  exact ⟨y, hy, hl.hash hash hhash⟩

/-- A send comes after the mark of its request, and the record has its hash. -/
theorem send_stored (h : Legal.Reachable cfg X) {o : Occurrence} (ho : o ∈ X.trace) {id : Nat} {u : WireUserOperation}
    (hu : o.event.cmd = .sendUserOperation id u) :
    Stored o id (cfg.getUserOperationHash u) ∧
      ∃ k, [k, o].Sublist X.trace ∧ k.thread = o.thread ∧ Marks id (cfg.getUserOperationHash u) k := by
  obtain ⟨s, t, ht⟩ := List.append_of_mem ho
  obtain ⟨a, k, b, r, request, rfl, hk, -, hm, -, -⟩ := send_mark h ht hu
  obtain ⟨Z, hZ⟩ := h.split ht
  obtain ⟨y, hy, hhash⟩ := mark_stored hZ.reachable (hZ.trace ▸ by simp) hm
  refine ⟨⟨y, hZ.state ▸ hy, hhash⟩, k, ?_, hk, hm⟩
  rw [ht, List.append_assoc, List.cons_append]
  exact sublist_pair a b t

/-- A hash that is answered is the hash of the record. -/
theorem answer_stored (h : Legal.Reachable cfg X) {o : Occurrence} (ho : o ∈ X.trace) {id : Nat} {hash : Bytes32}
    (hc : o.event.cmd = .respond id (.userOperationHash hash)) : Stored o id hash := by
  obtain ⟨s, t, ht⟩ := List.append_of_mem ho
  obtain ⟨Z, hZ⟩ := h.split ht
  have hp := hZ.permits
  rw [hc, ← hZ.trace] at hp
  obtain ⟨⟨r, hr, hread⟩, -⟩ := hp
  obtain ⟨hid, r', hr', hl⟩ := hZ.reachable.read_operation hr
  rcases hread with hread | ⟨at', c, b, x, hx, hread⟩ | ⟨at', x, hx⟩
  · exact ⟨r', hZ.state ▸ hr', hl.hash hash hread⟩
  · obtain ⟨-, x', hx', hl'⟩ := hZ.reachable.read_transition hx
    rw [hid] at hx'
    exact ⟨x', hZ.state ▸ hx', hl'.hash hash hread⟩
  · obtain ⟨a, k, b, hk, -, hke⟩ := own_mem hx
    obtain ⟨y, hy, hhash⟩ := mark_stored hZ.reachable (k := k) (hk ▸ by simp) ⟨at', x, hke⟩
    exact ⟨y, hZ.state ▸ hid ▸ hy, hhash⟩

/-! ## Requests -/

/-- A request is the first await of its thread. -/
theorem request_first (h : Legal.Reachable cfg X) {s t : List Occurrence} {o : Occurrence}
    (ht : X.trace = s ++ o :: t) {id : Nat}
    {rpc : Rpc} (ho : o.event.cmd = .request id rpc) : own o.thread s = [] := by
  obtain ⟨Z, hZ⟩ := h.split ht
  have hp := hZ.permits
  rw [ho] at hp
  exact hp

/-- What a thread that has taken a request has awaited begins with the request. -/
theorem own_request (h : Legal.Reachable cfg X) {o : Occurrence} (ho : o ∈ X.trace) {id : Nat} {rpc : Rpc}
    (hc : o.event.cmd = .request id rpc) : ∃ m, own o.thread X.trace = o.event :: m := by
  obtain ⟨s, t, ht⟩ := List.append_of_mem ho
  refine ⟨own o.thread t, ?_⟩
  rw [ht, show s ++ o :: t = s ++ ([o] ++ t) from rfl, own_append, own_append, request_first h ht hc]
  simp [own]

/-- What the thread had awaited before begins so too, if it had awaited anything. -/
theorem own_request_split (h : Legal.Reachable cfg X) {s t : List Occurrence} {o b : Occurrence}
    (ht : X.trace = s ++ b :: t)
    (ho : o ∈ X.trace) (hthread : b.thread = o.thread) {id : Nat} {rpc : Rpc} (hc : o.event.cmd = .request id rpc)
    {e : Event}
    {m : List Event} (hm : own b.thread s = e :: m) : e = o.event := by
  obtain ⟨k, hk⟩ := own_request h ho hc
  rw [ht, own_append, ← hthread, hm] at hk
  exact (List.cons.inj hk).1

/-- A thread takes one request. -/
theorem request_unique (h : Legal.Reachable cfg X) {o k : Occurrence} (ho : o ∈ X.trace) (hk : k ∈ X.trace)
    (hthread : k.thread = o.thread) {id id' : Nat} {rpc rpc' : Rpc} (hoc : o.event.cmd = .request id rpc)
    (hkc : k.event.cmd = .request id' rpc') : id' = id ∧ rpc' = rpc := by
  obtain ⟨m, hm⟩ := own_request h ho hoc
  obtain ⟨n, hn⟩ := own_request h hk hkc
  rw [hthread, hm] at hn
  have he : o.event.cmd = k.event.cmd := congrArg Event.cmd (List.cons.inj hn).1
  rw [hoc, hkc] at he
  obtain ⟨rfl, rfl⟩ := Await.request.inj he
  exact ⟨rfl, rfl⟩

/-- A mark by the thread of a request comes after it, and the operation had not been submitted at the request. -/
theorem mark_after_request (h : Legal.Reachable cfg X) {o k : Occurrence} (ho : o ∈ X.trace) (hk : k ∈ X.trace)
    (hthread : k.thread = o.thread) {id id' : Nat} {rpc : Rpc} {hash : Bytes32} (hc : o.event.cmd = .request id rpc)
    (hm : Marks id' hash k) {r : StoredOperation} (hr : o.before.rows.find id' = some r) : ¬Passed r.operation := by
  obtain ⟨s, t, ht⟩ := List.append_of_mem ho
  have hkt : k ∈ t := by
    rw [ht] at hk
    rcases List.mem_append.mp hk with hk | hk
    · have hown : k.event ∈ own o.thread s := mem_own.mpr ⟨k, hk, hthread, rfl⟩
      rw [request_first h ht hc] at hown
      cases hown
    · rcases List.mem_cons.mp hk with rfl | hk
      · obtain ⟨at', x, hx⟩ := hm
        rw [hx] at hc
        cases hc
      · exact hk
  obtain ⟨t₁, t₂, rfl⟩ := List.append_of_mem hkt
  obtain ⟨Z, hZ⟩ := h.split (s := s ++ o :: t₁) (o := k) (t := t₂) (by simp [ht])
  obtain ⟨W, hW⟩ := hZ.reachable.split hZ.trace
  obtain ⟨⟨old, hold, hnot⟩, -⟩ := mark_effect hm hZ.effect
  obtain ⟨r', hr', hl⟩ := hW.reachable.later hW.whole (hW.state ▸ hr)
  rw [← hZ.state, hr'] at hold
  obtain rfl := Option.some.inj hold
  exact fun hp => hnot (hl.passed hp)

/-- What a thread that has taken a request for sending asks the bundler for. -/
theorem contact_of_request (h : Legal.Reachable cfg X) {o b : Occurrence} (ho : o ∈ X.trace)
    (hb : b ∈ X.trace) (hthread : b.thread = o.thread) {id : Nat} {rpc : Rpc} {u : WireUserOperation}
    (hc : o.event.cmd = .request id rpc) (hu : rpc.Sends u) (hcontact : Contacts b) :
    b.event.cmd = .sendUserOperation id u ∧ ∀ r, o.before.rows.find id = some r → ¬Passed r.operation := by
  obtain ⟨s, t, ht⟩ := List.append_of_mem hb
  have hunsent : ¬Unsent (own b.thread s) := by
    rintro ⟨e, m, hm, he⟩
    obtain rfl := own_request_split h ht ho hthread hc hm
    exact he id rpc u hc hu
  obtain ⟨Z, hZ⟩ := h.split ht
  have hp := hZ.permits
  rcases hcontact with hcmd | ⟨hash, hcmd⟩ | ⟨id', u', hcmd⟩
  · rw [hcmd] at hp
    exact absurd hp hunsent
  · rw [hcmd] at hp
    exact absurd hp hunsent
  · obtain ⟨a, k, c, r, request, rfl, hk, -, hm, hreq, hid⟩ := send_mark h ht hcmd
    obtain ⟨rpc', hu', hq⟩ := hreq.request
    obtain ⟨q, hqa, hqt, hqe⟩ := mem_own.mp hq
    obtain ⟨rfl, rfl⟩ := request_unique h ho (k := q) (by rw [ht]; simp [hqa]) (hqt.trans hthread) hc (by rw [hqe])
    obtain ⟨_, rfl⟩ := hu
    obtain ⟨_, hrpc⟩ := hu'
    obtain ⟨rfl, -⟩ := Rpc.sendUserOperation.inj hrpc
    have hread : ⟨.operation request, .ok (some r)⟩ ∈ own b.thread Z.trace := by
      rw [hZ.trace, own_append]
      exact List.mem_append_left _ hreq.operation
    obtain ⟨hr, -⟩ := hZ.reachable.read_operation hread
    obtain rfl : id' = request := hid.symm.trans hr
    exact ⟨hcmd, fun x hx => mark_after_request h ho (ht ▸ by simp) (hk.trans hthread) hc hm hx⟩

/-- How a thread that has taken a request for sending answers it. -/
theorem answer_of_request (h : Legal.Reachable cfg X) {o b : Occurrence} (ho : o ∈ X.trace)
    (hb : b ∈ X.trace) (hthread : b.thread = o.thread) {id id' : Nat} {rpc : Rpc} {u : WireUserOperation}
    {answer : Answer}
    (hc : o.event.cmd = .request id rpc) (hu : rpc.Sends u) (hans : b.event.cmd = .respond id' answer) :
    id' = id ∧ answer = .userOperationHash (cfg.getUserOperationHash u) := by
  obtain ⟨s, t, ht⟩ := List.append_of_mem hb
  obtain ⟨Z, hZ⟩ := h.split ht
  have hp := hZ.permits
  rw [hans] at hp
  cases answer with
  | result =>
    obtain ⟨e, m, hm, he⟩ := hp
    obtain rfl := own_request_split h ht ho hthread hc hm
    exact absurd hu (he id rpc u hc)
  | userOperationHash hash =>
    obtain ⟨-, u', ⟨rpc', m, hu', hm⟩, rfl⟩ := hp
    have he := congrArg Event.cmd (own_request_split h ht ho hthread hc hm)
    rw [hc] at he
    obtain ⟨rfl, rfl⟩ := Await.request.inj he
    obtain ⟨_, rfl⟩ := hu
    obtain ⟨_, hrpc⟩ := hu'
    obtain ⟨rfl, -⟩ := Rpc.sendUserOperation.inj hrpc
    exact ⟨rfl, rfl⟩

end

/-! ## The service submits once -/

/-- What is kept by the trace of the service. -/
structure SubmitsOnce (cfg : ServiceConfig) (trace : List Occurrence) : Prop where
  /-- No operation is sent twice. -/
  once : trace.Pairwise fun a b => ∀ id, Sends id a → ¬Sends id b
  /-- A user operation is sent by the request that has moved the operation to its submission, and the record has its
  hash. -/
  persisted : ∀ o ∈ trace, ∀ id u, o.event.cmd = .sendUserOperation id u → Stored o id (cfg.getUserOperationHash u) ∧
    ∃ k, [k, o].Sublist trace ∧ k.thread = o.thread ∧ Marks id (cfg.getUserOperationHash u) k
  /-- A hash that is answered is the hash of the record. -/
  answered : ∀ o ∈ trace, ∀ id hash, o.event.cmd = .respond id (.userOperationHash hash) → Stored o id hash
  /-- A request for sending asks the bundler for nothing else, and for nothing after the submission. -/
  requested : ∀ o ∈ trace, ∀ id rpc u, o.event.cmd = .request id rpc → rpc.Sends u → ∀ b ∈ trace, b.thread = o.thread →
    Contacts b → b.event.cmd = .sendUserOperation id u ∧ ∀ r, o.before.rows.find id = some r → ¬Passed r.operation
  /-- If a request for sending is answered, then by the hash of its user operation. -/
  responded : ∀ o ∈ trace, ∀ id rpc u, o.event.cmd = .request id rpc → rpc.Sends u → ∀ b ∈ trace, b.thread = o.thread →
    ∀ id' answer, b.event.cmd = .respond id' answer → id' = id ∧
      answer = .userOperationHash (cfg.getUserOperationHash u)

theorem Legal.Reachable.submitsOnce {cfg : ServiceConfig} {X : Recorded} (h : Legal.Reachable cfg X) :
    SubmitsOnce cfg X.trace where
  once := List.pairwise_iff_forall_sublist.mpr fun hab _ ha => sends_once h hab ha
  persisted _ ho _ _ hc := send_stored h ho hc
  answered _ ho _ _ hc := answer_stored h ho hc
  requested _ ho _ _ _ hc hu _ hb hthread hcontact := contact_of_request h ho hb hthread hc hu hcontact
  responded _ ho _ _ _ hc hu _ hb hthread _ _ hans := answer_of_request h ho hb hthread hc hu hans

/-- **A user operation is submitted at most once.** In every run of the service it is sent only by the request whose
own change has moved the operation to its submission with exactly its hash; the hash never changes; an operation
that is cancelled without a hash stays so and is never sent; other requests are answered by the record, or refused,
without the bundler. -/
theorem submitted_once {cfg : ServiceConfig} {X Y : Threads} (hX : Service.Reachable cfg X)
    (hY : Reach.Run (Service cfg) X Y) :
    SubmitsOnce cfg Y.recorded.trace ∧
      ∀ id r, X.recorded.state.rows.find id = some r →
        (∀ hash, r.operation.userOperationHash = some hash →
          ∃ r', Y.recorded.state.rows.find id = some r' ∧ r'.operation.userOperationHash = some hash) ∧
        (r.operation.state = .cancelled → r.operation.userOperationHash = none →
          (∃ r', Y.recorded.state.rows.find id = some r' ∧ r'.operation = r.operation) ∧
            ∀ o ∈ Y.recorded.trace, ¬Sends id o) := by
  have hrun := hX.run hY
  have hY' : Legal.Reachable cfg Y.recorded := Reach.Reachable.run hX.legal hrun
  refine ⟨hY'.submitsOnce, ?_⟩
  intro id r hr
  obtain ⟨r', hr', hl⟩ := hX.legal.later hrun hr
  refine ⟨fun hash hh => ⟨r', hr', hl.hash hash hh⟩, ?_⟩
  intro hcancelled hnone
  have hsame : r'.operation = r.operation := hl.cancelled hcancelled
  refine ⟨⟨r', hr', hsame⟩, ?_⟩
  rintro o ho ⟨u, hu⟩
  obtain ⟨-, k, hko, -, hm⟩ := send_stored hY' ho hu
  obtain ⟨y, hy, hyhash⟩ := mark_stored hY' (hko.subset List.mem_cons_self) hm
  obtain rfl := Option.some.inj (hy.symm.trans hr')
  rw [hsame, hnone] at hyhash
  cases hyhash

/-- The operation is marked; before it is sent, the user queries it, and the bundler names a transaction that the
chain does not have. -/
def overtaken : List Action :=
  sampleRegistration ++ [sampleRequest, .run 1 8, .start 2 (query sampleConfig true 1), .run 2 20, .run 1 1]

theorem overtaken_reachable :
    Service.Reachable sampleConfig (sampleResponder.play overtaken (beginning emptyChain [])) :=
  sampleResponder.reachable emptyChain_valid
    ⟨⟨rfl, .register _ _⟩, trivial, ⟨rfl, .serve _ _⟩, trivial, ⟨rfl, .query _ _⟩, trivial, trivial, trivial⟩

/-- A user operation may be sent when a refresh has moved the operation on. -/
theorem sent_after_refresh : ∃ X, Service.Reachable sampleConfig X ∧ ∃ o ∈ X.recorded.trace,
    o.event.cmd = .sendUserOperation 1 sampleUserOperation ∧
      ∃ r, o.before.rows.find 1 = some r ∧ r.operation.state ≠ .submitted := by
  refine ⟨_, overtaken_reachable, _, List.mem_of_getLast? rfl, rfl, _, rfl, ?_⟩
  decide

/-- A service whose hashes tell the gas of a user operation too, and the bundler that goes with it. -/
def rivalConfig : ServiceConfig :=
  { sampleConfig with getUserOperationHash := fun u => u.nonce + u.callGasLimit.getD 0 }

def rivalResponder :
    Responder := { sampleResponder with sendUserOperation := fun u => .ok (rivalConfig.getUserOperationHash u) }

/-- A request for sending the user operation with another limit. -/
def rivalRequest (thread callGasLimit : Nat) : Action :=
  .start thread
    (serve rivalConfig 1 (.sendUserOperation { sampleUserOperation with callGasLimit := some callGasLimit }
      ENTRY_POINT))

/-- Three requests pass all checks before the first one moves the operation on: two are for one user operation, the
third is for another one. -/
def rivals : List Action :=
  [.start 0 (register rivalConfig sampleInput 1), .run 0 20, rivalRequest 1 1, rivalRequest 2 1, rivalRequest 3 2,
    .run 1 7, .run 2 7, .run 3 7, .run 1 2, .run 2 9, .run 3 9, .run 1 9]

theorem rivals_reachable : Service.Reachable rivalConfig (rivalResponder.play rivals (beginning emptyChain [])) :=
  rivalResponder.reachable emptyChain_valid
    ⟨⟨rfl, .register _ _⟩, trivial, ⟨rfl, .serve _ _⟩, ⟨rfl, .serve _ _⟩, ⟨rfl, .serve _ _⟩, trivial, trivial,
      trivial, trivial, trivial,
      trivial, trivial, trivial⟩

/-- The sends and the answers of a trace, with their threads. -/
def said (trace : List Occurrence) : List (Nat × Await) :=
  (trace.map fun o => (o.thread, o.event.cmd)).filter fun x => match x.2 with
    | .sendUserOperation _ _ | .respond _ _ => true
    | _ => false

/-- Only the first of the rivals sends; the second is answered with the hash, and the third is refused. -/
theorem submitted_once_sample :
    Service.Reachable rivalConfig (rivalResponder.play rivals (beginning emptyChain [])) ∧
      said (rivalResponder.play rivals (beginning emptyChain [])).recorded.trace =
        [(1, .sendUserOperation 1 sampleUserOperation), (2, .respond 1 (.userOperationHash 6)),
          (1, .respond 1 (.userOperationHash 6))] ∧
      SubmitsOnce rivalConfig (rivalResponder.play rivals (beginning emptyChain [])).recorded.trace :=
  ⟨rivals_reachable, rfl, (submitted_once rivals_reachable .refl).1⟩

end Cpredict.Operations
