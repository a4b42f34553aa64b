import Cpredict.Paymaster.Service
import Cpredict.Paymaster.Agreement

/-!
# What the service issues

Every request that runs follows one protocol (`Permits`): it reserves, signs, and then commits or releases the lease
that it has reserved; a lease is released only if no signature was made, and a sponsorship is returned only after
its lease was committed. The tables therefore stay right whatever the requests do at the same time (`Inv`), and what
has been returned on a day is covered by what is committed on this day.
-/

namespace Cpredict

namespace Sponsor

open Program Paymaster Reservations

/-! ## The protocol -/

/-- The awaits that the protocol is about. -/
def Command.matters : Command → Bool
  | .reserve _ _ | .signDigest _ | .transitionLease _ _ | .reply (.issued _ _ _) => true
  | _ => false

/-- What a request has done of the protocol. -/
def steps (l : List Event) : List Event := l.filter fun e => e.cmd.matters

def reserved (leaseId : Nat) (request : SponsorBudgetRequest) : Event := ⟨.reserve leaseId request, .ok ()⟩

def signed (digest : Bytes32) (signature : Bytes) : Event := ⟨.signDigest digest, .ok signature⟩

def committed (leaseId : Nat) : Event := ⟨.transitionLease leaseId .committed, .ok ()⟩

/-- No signature has been made, for all that is known. -/
def Unsigned (r : Except Failure Bytes) : Prop := ∀ signature, r = .ok signature → signature.length ≠ 65

/-- What the sponsorship in a reply is: created for the cost of the request. -/
def For (o : Options) (request : SponsorBudgetRequest) (signature : Bytes) (s : Sponsorship) : Prop :=
  ∃ userOperation nowSeconds, createSponsorship o.keccak256 o.hashTypedData (fun _ => .ok signature)
    o.config userOperation
    request.maxCost nowSeconds = .ok s

/-- What a request may await next. -/
inductive Permits (o : Options) (l : List Event) : Command → Prop
  | other {c : Command} : c.matters = false → Permits o l c
  | reserve {id : Nat} {request : SponsorBudgetRequest} : steps l = [] → ValidRequest o.budgetLimits request →
      Permits o l (.reserve id request)
  | sign {id : Nat} {request : SponsorBudgetRequest} {digest : Bytes32} : steps l = [reserved id request] →
      Permits o l (.signDigest digest)
  | commit {id : Nat} {request : SponsorBudgetRequest} {digest : Bytes32} {signature : Bytes} : signature.length = 65 →
      steps l = [reserved id request, signed digest signature] → Permits o l (.transitionLease id .committed)
  | releaseEarly {id : Nat} {request : SponsorBudgetRequest} : steps l = [reserved id request] →
      Permits o l (.transitionLease id .released)
  | release {id : Nat} {request : SponsorBudgetRequest} {digest : Bytes32} {r : Except Failure Bytes} : Unsigned r →
      steps l = [reserved id request, ⟨.signDigest digest, r⟩] → Permits o l (.transitionLease id .released)
  | issue {id : Nat} {request : SponsorBudgetRequest} {digest : Bytes32} {signature : Bytes} {s : Sponsorship} :
      steps l = [reserved id request, signed digest signature, committed id] → For o request signature s →
      Permits o l (.reply (.issued id request s))

theorem steps_append (a b : List Event) : steps (a ++ b) = steps a ++ steps b := List.filter_append a b

theorem steps_matters {l : List Event} {e : Event} (h : e.cmd.matters = true) : steps (l ++ [e]) = steps l ++ [e] := by
  rw [steps_append]
  congr 1
  simp [steps, h]

/-! ## The handler conforms -/

section

variable {o : Options}

/-- With typed data hashed after EIP-712, every signature of 65 bytes makes a sponsorship. -/
theorem packSponsorship_ok (ho : ∀ t, o.hashTypedData t = Eip712.hash o.keccak256 t) {op : PackedUserOperationInput}
    {maxCost nowSeconds validAfter validUntil : Int} {digest : Bytes32}
    (h : prepareSponsorship o.keccak256 o.hashTypedData o.config op maxCost nowSeconds =
      .ok (digest, validAfter, validUntil))
    {signature : Bytes} (hlen : signature.length = 65) :
    ∃ s, packSponsorship o.config maxCost validAfter validUntil signature = .ok s := by
  unfold prepareSponsorship at h
  simp only [Outcome.bind_eq_ok, Outcome.revertIf_eq_ok, elim_eq_ok] at h
  obtain ⟨⟨⟩, hconfig, -, hcost, -, -, d, hd, hx⟩ := h
  have hsame := Except.ok.inj hx
  simp only [Prod.mk.injEq] at hsame
  obtain ⟨rfl, rfl, rfl⟩ := hsame
  rw [ho] at hd
  have hfits := hash_fits hd
  obtain ⟨⟨hv, hv'⟩, ⟨hg, hg'⟩, -, hp⟩ := validateSponsorshipConfig_ok hconfig
  have hvmax : o.config.verificationGasLimit ≤ 500000 := hv'
  have hgmax : o.config.postOpGasLimit ≤ 300000 := hg'
  have hvmin : 150000 ≤ o.config.verificationGasLimit := hv
  have hgmin : 100000 ≤ o.config.postOpGasLimit := hg
  have ha := hfits.validAfter
  have hu := hfits.validUntil
  unfold packSponsorship
  have hver : toHex o.config.verificationGasLimit 16 = .ok (Abi.beBytes 16 o.config.verificationGasLimit.toNat) :=
    toHex_eq_ok.mpr ⟨by norm_num; omega, rfl⟩
  have hpost : toHex o.config.postOpGasLimit 16 = .ok (Abi.beBytes 16 o.config.postOpGasLimit.toNat) :=
    toHex_eq_ok.mpr ⟨by norm_num; omega, rfl⟩
  have hafter : toHex (max 0 (nowSeconds - 30)) 6 = .ok (Abi.beBytes 6 (max 0 (nowSeconds - 30)).toNat) :=
    toHex_eq_ok.mpr ⟨⟨ha.1, ha.2.trans_eq (by norm_num)⟩, rfl⟩
  have huntil : toHex (nowSeconds + o.config.validitySeconds) 6 =
    .ok (Abi.beBytes 6 (nowSeconds + o.config.validitySeconds).toNat) :=
    toHex_eq_ok.mpr ⟨⟨hu.1, hu.2.trans_eq (by norm_num)⟩, rfl⟩
  have hmax : toHex maxCost 32 = .ok (Abi.beBytes 32 maxCost.toNat) :=
    toHex_eq_ok.mpr ⟨by norm_num at hcost ⊢; omega, rfl⟩
  have hversion : toHex o.config.policyVersion 4 = .ok (Abi.beBytes 4 o.config.policyVersion.toNat) :=
    toHex_eq_ok.mpr ⟨by norm_num at hp ⊢; omega, rfl⟩
  rw [Outcome.revertIf_neg _ (not_not.mpr hlen), Outcome.ok_bind, hver, Outcome.ok_bind, hpost, Outcome.ok_bind, hafter,
    Outcome.ok_bind, huntil, Outcome.ok_bind, hmax, Outcome.ok_bind, hversion, Outcome.ok_bind]
  exact ⟨_, rfl⟩

theorem packSponsorship_length {config : SponsorshipConfig} {maxCost validAfter validUntil : Int} {signature : Bytes}
    {s : Sponsorship}
    (h : packSponsorship config maxCost validAfter validUntil signature = .ok s) : signature.length = 65 := by
  unfold packSponsorship at h
  simp only [Outcome.bind_eq_ok, Outcome.revertIf_eq_ok] at h
  obtain ⟨-, hlen, -⟩ := h
  exact not_not.mp hlen

/-- What `sign` has done when it ends. -/
def Signs (o : Options) (id : Nat) (request : SponsorBudgetRequest) (result : Except Failure Sponsorship)
    (l : List Event) : Prop :=
  match result with
  | .ok s => ∃ digest signature, steps l = [reserved id request, signed digest signature] ∧ signature.length = 65 ∧
      For o request signature s
  | .error _ => steps l = [reserved id request] ∨
      ∃ digest r, steps l = [reserved id request, ⟨.signDigest digest, r⟩] ∧ Unsigned r

theorem sign_conforms (ho : ∀ t, o.hashTypedData t = Eip712.hash o.keccak256 t) {id : Nat}
    {request : SponsorBudgetRequest}
    {op : PackedUserOperationInput} {nowSeconds : Int} {k : Except Failure Sponsorship → Handler Response}
    {S : Response → List Event → Prop} {l : List Event} (hl : steps l = [reserved id request])
    (hk : ∀ result m, Signs o id request result m → (k result).Conforms (Permits o) S m) :
    ((sign o op request.maxCost nowSeconds).attempt >>= k).Conforms (Permits o) S l := by
  cases hp : prepareSponsorship o.keccak256 o.hashTypedData o.config op request.maxCost nowSeconds with
  | error e =>
    obtain ⟨e', he⟩ : ∃ e', sign o op request.maxCost nowSeconds = .fail e' := by
      unfold sign
      rw [hp]
      cases e <;> exact ⟨_, rfl⟩
    rw [he]
    exact hk (.error e') l (.inl hl)
  | ok x =>
    obtain ⟨digest, validAfter, validUntil⟩ := x
    have hsign : sign o op request.maxCost nowSeconds =
        ask (.signDigest digest) >>= fun signature =>
          ofSponsorship (packSponsorship o.config request.maxCost validAfter validUntil signature) := by
      unfold sign
      rw [hp]
      rfl
    rw [hsign]
    refine ⟨.sign hl, ?_⟩
    intro r
    have hstep : steps (l ++ [⟨.signDigest digest, r⟩]) = [reserved id request, ⟨.signDigest digest, r⟩] := by
      rw [steps_matters rfl, hl]
      rfl
    cases r with
    | error e => exact hk (.error e) _ (.inr ⟨digest, .error e, hstep, nofun⟩)
    | ok signature =>
      change ((ofSponsorship (packSponsorship o.config request.maxCost validAfter validUntil signature)).attempt >>=
        k).Conforms _ _ _
      cases hpack : packSponsorship o.config request.maxCost validAfter validUntil signature with
      | ok s =>
        have hfor : For o request signature s := by
          refine ⟨op, nowSeconds, ?_⟩
          unfold createSponsorship
          rw [hp, Outcome.ok_bind]
          exact hpack
        exact hk (.ok s) _ ⟨digest, signature, hstep, packSponsorship_length hpack, hfor⟩
      | error e =>
        have hbad : Unsigned (.ok signature) := by
          rintro _ ⟨⟩ hlen
          obtain ⟨s, hs⟩ := packSponsorship_ok ho hp hlen
          rw [hpack] at hs
          cases hs
        cases e <;> exact hk (.error _) _ (.inr ⟨digest, .ok signature, hstep, hbad⟩)

/-- What has been done for a response. -/
def Ready (o : Options) : Response → List Event → Prop
  | .issued id request s, l => ∃ digest signature, steps l = [reserved id request, signed digest signature,
      committed id] ∧
      For o request signature s
  | .rejected _ _, _ => True

theorem reserveAndSign_conforms (ho : ∀ t, o.hashTypedData t = Eip712.hash o.keccak256 t) (q : Incoming)
    {request : SponsorBudgetRequest} (hlimits : request.limits = o.budgetLimits) {op : PackedUserOperationInput}
    {l : List Event}
    (hl : steps l = []) : (reserveAndSign o q request op).Conforms (Permits o) (Ready o) l := by
  refine Conforms.ofExcept_bind ?_
  intro _ hvalid
  have hv := validateRequest_ok hvalid
  rw [hlimits] at hv
  refine Conforms.await_bind (.reserve hl hv) ?_
  intro _
  have hreserved : steps (l ++ [⟨.reserve q.leaseId request, .ok ()⟩]) = [reserved q.leaseId request] := by
    rw [steps_matters rfl, hl]
    rfl
  refine sign_conforms ho hreserved ?_
  intro result m hm
  cases result with
  | ok s =>
    obtain ⟨digest, signature, hsteps, hlen, hfor⟩ := hm
    refine Conforms.await_bind (.commit hlen hsteps) ?_
    intro _
    refine ⟨digest, signature, ?_, hfor⟩
    rw [steps_matters rfl, hsteps]
    rfl
  | error e =>
    rcases hm with hsteps | ⟨digest, r, hsteps, hunsigned⟩
    · exact Conforms.await_bind (.releaseEarly hsteps) fun _ => Conforms.fail
    · exact Conforms.await_bind (.release hunsigned hsteps) fun _ => Conforms.fail

theorem respond_conforms (ho : ∀ t, o.hashTypedData t = Eip712.hash o.keccak256 t) (q : Incoming) :
    (respond o q).Conforms (Permits o) (Ready o) [] := by
  refine Conforms.await_bind (.other rfl) ?_
  intro identity
  cases identity with
  | none => exact Conforms.ret trivial
  | some subject =>
    refine Conforms.ofExcept_bind ?_
    rintro ⟨op, requestedMaxCost⟩ -
    refine Conforms.await_bind (.other rfl) ?_
    intro operationCounts
    exact reserveAndSign_conforms ho q rfl rfl

/-- **Every request follows the protocol.** -/
theorem handle_conforms (ho : ∀ t, o.hashTypedData t = Eip712.hash o.keccak256 t) (q : Incoming) :
    (handle o q).Conforms (Permits o) (fun _ _ => True) [] := by
  refine Conforms.bind (respond_conforms ho q).attempt ?_
  intro outcome m _ hm
  cases outcome with
  | ok response =>
    refine Conforms.await ?_ fun _ => trivial
    have hready := hm.2 response rfl
    cases response with
    | issued id request s =>
      obtain ⟨digest, signature, hsteps, hfor⟩ := hready
      exact .issue hsteps hfor
    | rejected code error => exact .other rfl
  | error e =>
    refine Conforms.await (.other ?_) fun _ => trivial
    cases e <;> rfl

/-! ## The tables -/

/-- What an await may do to the leases. -/
structure Evolves (e : Event) (db db' : Database) : Prop where
  kept : ∀ l ∈ db.leases, ∃ l' ∈ db'.leases, l' = { l with state := l'.state } ∧
    (l.state = .committed → l'.state = .committed)
  released : ∀ l' ∈ db'.leases, l'.state = .released →
    (∃ l ∈ db.leases, l.leaseId = l'.leaseId ∧ l.state = .released) ∨ e.cmd = .transitionLease l'.leaseId .released
  reserved : ∀ id request, e = reserved id request → request.lease id ∈ db'.leases ∧ ∀ l ∈ db.leases, l.leaseId ≠ id
  committed : ∀ id, e = committed id → ∃ l ∈ db'.leases, l.leaseId = id ∧ l.state = .committed

theorem Evolves.same {e : Event} {db : Database} (hr : ∀ id request, e ≠ Sponsor.reserved id request)
    (hc : ∀ id, e ≠ Sponsor.committed id) :
    Evolves e db db where
  kept l hl := ⟨l, hl, rfl, id⟩
  released l hl hs := .inl ⟨l, hl, rfl, hs⟩
  reserved id request he := absurd he (hr id request)
  committed id he := absurd he (hc id)

theorem ended_evolves {limits : SponsorBudgetLimits} {id : Nat} {target : Phase} {db db' : Database}
    {r : Except Failure Unit}
    (hb : Books limits db) (h : Ended id target db db') : Evolves ⟨.transitionLease id target, r⟩ db db' := by
  cases h with
  | @before l hfind hstate hsame =>
    subst hsame
    refine ⟨fun l hl => ⟨l, hl, rfl, fun h => h⟩, fun l hl hs => .inl ⟨l, hl, rfl, hs⟩, nofun, ?_⟩
    rintro id' ⟨⟩
    obtain ⟨hmem, hid⟩ := Table.mem_of_find hfind
    exact ⟨l, hmem, hid, hstate⟩
  | @now l hfind hstate hleases =>
    obtain ⟨hmem, hid⟩ := Table.mem_of_find hfind
    have hown : ∀ q ∈ db.leases, q.leaseId = id → q = l := by
      intro q hq hk
      have hq' := Table.find_of_mem hb.ids hq
      rw [hk, hfind] at hq'
      exact (Option.some.inj hq').symm
    refine ⟨?_, ?_, nofun, ?_⟩
    · intro q hq
      refine ⟨if q.leaseId = id then { q with state := target } else q, ?_, ?_, ?_⟩
      · rw [hleases]
        exact Table.mem_update.mpr ⟨q, hq, rfl⟩
      · split <;> rfl
      · intro hc
        split
        case isTrue hk =>
          rw [hown q hq hk, hstate] at hc
          cases hc
        case isFalse => exact hc
    · intro q hq hs
      rw [hleases] at hq
      obtain ⟨p, hp, rfl⟩ := Table.mem_update.mp hq
      by_cases hk : p.leaseId = id
      · rw [if_pos hk] at hs ⊢
        have htarget : target = .released := hs
        rw [← hk, htarget]
        exact .inr rfl
      · rw [if_neg hk] at hs ⊢
        exact .inl ⟨p, hp, rfl, hs⟩
    · rintro id' ⟨⟩
      refine ⟨{ l with state := .committed }, ?_, hid, rfl⟩
      rw [hleases]
      exact Table.mem_update.mpr ⟨l, hmem, (if_pos hid).symm⟩

/-- An await that is permitted keeps the books. -/
theorem effects_evolve {l : List Event} {c : Command} {r : Except Failure (Answer c)} {db db' : Database}
    (hb : Books o.budgetLimits db) (hp : Permits o l c) (he : Effects c db r db') :
    Books o.budgetLimits db' ∧ Evolves ⟨c, r⟩ db db' := by
  cases he with
  | other htx =>
    refine ⟨hb, Evolves.same ?_ ?_⟩
    · rintro id request ⟨⟩
      cases htx
    · rintro id ⟨⟩
      cases htx
  | failed => exact ⟨hb, Evolves.same nofun nofun⟩
  | done htx hf =>
    cases hp with
    | other hm => cases c <;> cases htx <;> cases hm
    | reserve _ hv =>
      cases htx
      obtain ⟨hb', hleases, hnew⟩ := reserveLease_books hb hv hf
      refine ⟨hb', ?_, ?_, ?_, nofun⟩
      · intro q hq
        exact ⟨q, by rw [hleases]; exact List.mem_append_left _ hq, rfl, id⟩
      · intro q hq hs
        rw [hleases] at hq
        rcases List.mem_append.mp hq with hq | hq
        · exact .inl ⟨q, hq, rfl, hs⟩
        · rw [List.mem_singleton.mp hq] at hs
          cases hs
      · rintro id request ⟨⟩
        refine ⟨?_, hnew⟩
        rw [hleases]
        exact List.mem_append_right _ (List.mem_singleton.mpr rfl)
    | sign => cases htx
    | commit =>
      cases htx
      obtain ⟨hb', hend⟩ := transitionLease_books hb (by decide) hf
      exact ⟨hb', ended_evolves hb hend⟩
    | releaseEarly =>
      cases htx
      obtain ⟨hb', hend⟩ := transitionLease_books hb (by decide) hf
      exact ⟨hb', ended_evolves hb hend⟩
    | release =>
      cases htx
      obtain ⟨hb', hend⟩ := transitionLease_books hb (by decide) hf
      exact ⟨hb', ended_evolves hb hend⟩
    | issue => cases htx

/-! ## Whole runs -/

abbrev Record := Program.Recorded Answer Failure Database

/-- The record of a run of the protocol. -/
def Record.Reachable (o : Options) (X : Record) : Prop :=
  Reach.Reachable (Program.Recorded.Initial (· = Database.empty))
    (Program.Recorded.Step Effects (fun _ _ => False) (Permits o)) X

/-- The tables and what the requests have seen of them. -/
structure Inv (o : Options) (X : Record) : Prop where
  books : Books o.budgetLimits X.state
  owned : ∀ i id request, reserved id request ∈ own i X.trace →
    ∃ l ∈ X.state.leases, l = { request.lease id with state := l.state }
  distinct : ∀ i j id request request', reserved id request ∈ own i X.trace → reserved id request' ∈ own j X.trace →
    i = j
  committed : ∀ i id, committed id ∈ own i X.trace → ∃ l ∈ X.state.leases, l.leaseId = id ∧ l.state = .committed
  released : ∀ l ∈ X.state.leases, l.state = .released →
    ∃ i r, (⟨.transitionLease l.leaseId .released, r⟩ : Event) ∈ own i X.trace

theorem mem_own_after {X : Record} {i j : Nat} {c : Command} {r : Except Failure (Answer c)}
    {db : Database} {e : Event} :
    e ∈ own j (X.after i c r db).trace ↔ e ∈ own j X.trace ∨ j = i ∧ e = ⟨c, r⟩ := by
  by_cases h : j = i
  · subst h
    rw [own_after_self, List.mem_append, List.mem_singleton]
    simp
  · rw [own_after_other X h]
    simp [h]

theorem step_inv {X Y : Record} (h : Inv o X)
    (hs : Program.Recorded.Step Effects (fun _ _ => False) (Permits o) X Y) : Inv o Y := by
  cases hs with
  | env he => exact he.elim
  | @call i c r db hp he =>
    obtain ⟨hb, hev⟩ := effects_evolve h.books hp he
    refine ⟨hb, ?_, ?_, ?_, ?_⟩
    · intro j id request hm
      rcases mem_own_after.mp hm with hm | ⟨-, he⟩
      · obtain ⟨l, hl, hsame⟩ := h.owned j id request hm
        obtain ⟨l', hl', hsame', -⟩ := hev.kept l hl
        refine ⟨l', hl', ?_⟩
        rw [hsame] at hsame'
        exact hsame'
      · exact ⟨request.lease id, (hev.reserved id request he.symm).1, rfl⟩
    · intro j k id request request' hj hk
      have hfresh : ∀ n req, reserved id req ∈ own n X.trace → ∀ req', (⟨c, r⟩ : Event) = reserved id req' → False := by
        intro n req hn req' he
        obtain ⟨l, hl, hsame⟩ := h.owned n id req hn
        refine (hev.reserved id req' he).2 l hl ?_
        rw [hsame]
        rfl
      rcases mem_own_after.mp hj with hold | ⟨hji, hej⟩
      · rcases mem_own_after.mp hk with hold' | ⟨-, hek⟩
        · exact h.distinct j k id request request' hold hold'
        · exact (hfresh j request hold request' hek.symm).elim
      · rcases mem_own_after.mp hk with hold' | ⟨hki, -⟩
        · exact (hfresh k request' hold' request hej.symm).elim
        · exact hji.trans hki.symm
    · intro j id hm
      rcases mem_own_after.mp hm with hm | ⟨-, he⟩
      · obtain ⟨l, hl, hid, hst⟩ := h.committed j id hm
        obtain ⟨l', hl', hsame, hkeep⟩ := hev.kept l hl
        refine ⟨l', hl', ?_, hkeep hst⟩
        rw [hsame]
        exact hid
      · exact hev.committed id he.symm
    · intro l hl hst
      rcases hev.released l hl hst with ⟨l', hl', hid, hst'⟩ | hc
      · obtain ⟨j, r', hm⟩ := h.released l' hl' hst'
        rw [hid] at hm
        exact ⟨j, r', mem_own_after.mpr (.inl hm)⟩
      · dsimp only at hc
        subst hc
        exact ⟨i, r, mem_own_after.mpr (.inr ⟨rfl, rfl⟩)⟩

theorem reachable_inv {X : Record} (h : Record.Reachable o X) : Inv o X := by
  have hsteps : ∀ X Y : Record, Record.Reachable o X → Inv o X →
      Program.Recorded.Step Effects (fun _ _ => False) (Permits o) X Y → Inv o Y := fun _ _ _ hi hs => step_inv hi hs
  refine Reach.Reachable.invariant ?_ hsteps h
  rintro X ⟨hdb, htr⟩
  have hown : ∀ i, own i X.trace = [] := by
    intro i
    rw [htr]
    rfl
  refine ⟨hdb ▸ Books.empty _, ?_, ?_, ?_, ?_⟩
  · intro i id request hm
    rw [hown] at hm
    cases hm
  · intro i j id request request' hm
    rw [hown] at hm
    cases hm
  · intro i id hm
    rw [hown] at hm
    cases hm
  · intro l hl
    rw [hdb] at hl
    cases hl

/-- What was permitted when an await of a request was made. -/
theorem permitted {X : Record} (h : Record.Reachable o X) {i : Nat} {a b : List Event} {e : Event}
    (he : own i X.trace = a ++ e :: b) :
    Permits o a e.cmd := by
  obtain ⟨s, x, t, ht, rfl, rfl, ha, -⟩ := own_split he
  obtain ⟨Z, -, -, -, hp, -, -⟩ := Program.Recorded.split h ht
  rw [ha] at hp
  exact hp

theorem mem_steps {l : List Event} {e : Event} : e ∈ steps l ↔ e ∈ l ∧ e.cmd.matters = true := List.mem_filter

section

variable {X : Record} (h : Record.Reachable o X)

include h

/-- A lease that was released has no signature. -/
theorem unsigned_of_released {l : LeaseRow} (hl : l ∈ X.state.leases) (hst : l.state = .released) {j : Nat}
    {request : SponsorBudgetRequest} {digest : Bytes32} {signature : Bytes}
    (hres : reserved l.leaseId request ∈ own j X.trace)
    (hsig : signed digest signature ∈ own j X.trace) : signature.length ≠ 65 := by
  have hi := reachable_inv h
  obtain ⟨i, r, hrel⟩ := hi.released l hl hst
  obtain ⟨a, b, hab⟩ := List.append_of_mem hrel
  have hp := permitted h hab
  -- what the request had done when it released the lease
  obtain ⟨request', hres', hbefore⟩ : ∃ request', reserved l.leaseId request' ∈ a ∧
      ∀ e ∈ steps a, e = reserved l.leaseId request' ∨ ∃ d r, e = ⟨.signDigest d, r⟩ ∧ Unsigned r := by
    dsimp only at hp
    cases hp with
    | other hm => cases hm
    | @releaseEarly id req hs =>
      refine ⟨req, (mem_steps.mp (hs ▸ List.mem_singleton.mpr rfl)).1, ?_⟩
      intro e he
      rw [hs, List.mem_singleton] at he
      exact .inl he
    | @release id req d r' hu hs =>
      refine ⟨req, (mem_steps.mp (hs ▸ List.mem_cons_self)).1, ?_⟩
      intro e he
      rw [hs, List.mem_pair] at he
      rcases he with he | he
      · exact .inl he
      · exact .inr ⟨d, r', he, hu⟩
  have hij : i = j := hi.distinct i j l.leaseId request' request (by rw [hab]; exact List.mem_append_left _ hres') hres
  subst hij
  rw [hab, List.mem_append, List.mem_cons] at hsig
  rcases hsig with hsig | hsig | hsig
  · rcases hbefore _ (mem_steps.mpr ⟨hsig, rfl⟩) with he | ⟨d, r', he, hu⟩
    · cases he
    · cases he
      exact hu signature rfl
  · cases hsig
  · -- no signature is asked for after the release
    obtain ⟨b₁, b₂, rfl⟩ := List.append_of_mem hsig
    have hlater : own i X.trace = (a ++ ⟨.transitionLease l.leaseId .released, r⟩ :: b₁) ++ signed digest
      signature :: b₂ := by
      rw [hab, List.append_assoc]
      rfl
    have hp' := permitted h hlater
    have hrel' : (⟨.transitionLease l.leaseId .released, r⟩ : Event) ∈
      steps (a ++ ⟨.transitionLease l.leaseId .released, r⟩ :: b₁) :=
      mem_steps.mpr ⟨by simp, rfl⟩
    dsimp only [signed] at hp'
    cases hp' with
    | other hm => cases hm
    | sign hs =>
      rw [hs, List.mem_singleton] at hrel'
      cases hrel'

/-- A sponsorship that was returned has its own committed lease. -/
theorem lease_of_issued {i id : Nat} {request : SponsorBudgetRequest} {s : Sponsorship} {r : Except Failure Unit}
    (he : (⟨.reply (.issued id request s), r⟩ : Event) ∈ own i X.trace) :
    reserved id request ∈ own i X.trace ∧ { request.lease id with state := .committed } ∈ X.state.leases ∧
      ∃ signature, For o request signature s := by
  have hi := reachable_inv h
  obtain ⟨a, b, hab⟩ := List.append_of_mem he
  have hp := permitted h hab
  dsimp only at hp
  cases hp with
  | other hm => cases hm
  | @issue _ _ digest signature _ hs hfor =>
    have hmem : ∀ e ∈ steps a, e ∈ own i X.trace := by
      intro e he
      rw [hab]
      exact List.mem_append_left _ (mem_steps.mp he).1
    have hres := hmem (reserved id request) (by rw [hs]; simp)
    obtain ⟨l, hl, hsame⟩ := hi.owned i id request hres
    obtain ⟨l', hl', hid, hst⟩ := hi.committed i id (hmem (committed id) (by rw [hs]; simp))
    have hll : l = l' := List.inj_on_of_nodup_map hi.books.ids hl hl' (by rw [hid, hsame]; rfl)
    rw [← hll, hsame] at hst
    have hcom : l.state = .committed := hst
    rw [hcom] at hsame
    exact ⟨hres, hsame ▸ hl, signature, hfor⟩

end

/-! ## What was returned -/

/-- The sponsorship that a reply returns, with its lease and request. -/
def Command.issue : Command → Option (Nat × SponsorBudgetRequest × Sponsorship)
  | .reply (.issued id request s) => some (id, request, s)
  | _ => none

/-- The sponsorships that have been returned, in their order. -/
def issues (trace : List (Occurrence Answer Failure Database)) : List (Nat × SponsorBudgetRequest × Sponsorship) :=
  trace.filterMap fun x => x.event.cmd.issue

theorem issue_eq_some {c : Command} {x : Nat × SponsorBudgetRequest × Sponsorship} :
    c.issue = some x ↔ c = .reply (.issued x.1 x.2.1 x.2.2) := by
  constructor
  · intro h
    unfold Command.issue at h
    split at h
    · cases h
      rfl
    · cases h
  · rintro rfl
    rfl

theorem mem_issues {X : Record} {x : Nat × SponsorBudgetRequest × Sponsorship} (h : x ∈ issues X.trace) :
    ∃ i r, (⟨.reply (.issued x.1 x.2.1 x.2.2), r⟩ : Event) ∈ own i X.trace := by
  obtain ⟨⟨i, ⟨c, r⟩, b, a⟩, ho, hx⟩ := List.mem_filterMap.mp h
  have hc := issue_eq_some.mp hx
  dsimp only at hc
  subst hc
  exact ⟨i, r, mem_own.mpr ⟨_, ho, rfl, rfl⟩⟩

/-- No lease is used for two sponsorships. -/
theorem issues_nodup {X : Record} (h : Record.Reachable o X) : ((issues X.trace).map Prod.fst).Nodup := by
  refine Reach.Reachable.invariant (I := fun X : Record => ((issues X.trace).map Prod.fst).Nodup) ?_ ?_ h
  · rintro X ⟨-, htr⟩
    rw [htr]
    exact List.nodup_nil
  · intro X Y hX hn hs
    cases hs with
    | env he => exact hn
    | @call i c r db hp he =>
      have happ : issues (X.after i c r db).trace = issues X.trace ++ c.issue.toList := by
        unfold issues Program.Recorded.after
        rw [List.filterMap_append]
        cases hc : c.issue <;> simp [hc]
      rw [happ, List.map_append, List.nodup_append]
      refine ⟨hn, ?_, ?_⟩
      · cases c.issue <;> simp
      · intro id hid id' hid' heq
        subst heq
        obtain ⟨x, hx, rfl⟩ := List.mem_map.mp hid
        obtain ⟨y, hy, hyx⟩ := List.mem_map.mp hid'
        have hc := issue_eq_some.mp (Option.mem_toList.mp hy)
        subst hc
        obtain ⟨j, r', hj⟩ := mem_issues hx
        have hres := (lease_of_issued hX hj).1
        cases hp with
        | other hm => cases hm
        | issue hs hfor =>
          have hres' : reserved y.1 y.2.1 ∈ own i X.trace := (mem_steps.mp (hs ▸ List.mem_cons_self)).1
          rw [hyx] at hres'
          have hji := (reachable_inv hX).distinct j i x.1 _ _ hres hres'
          subst hji
          have hin := mem_steps.mpr ⟨hj, rfl⟩
          rw [hs] at hin
          simp [reserved, signed, committed] at hin

/-! ## The budget -/

/-- The cost that a sponsorship has signed. -/
def costIn (s : Sponsorship) : Int := (termsIn s.paymasterAndData).maxCost

theorem For.cost {request : SponsorBudgetRequest} {signature : Bytes} {s : Sponsorship}
    (h : For o request signature s) :
    costIn s = request.maxCost := by
  obtain ⟨op, nowSeconds, hs⟩ := h
  obtain ⟨digest, signature', hc⟩ := createSponsorship_created (C := ⟨o.keccak256, fun _ d => d, fun _ _ => none⟩) hs
  unfold costIn
  rw [hc.parsed.2]
  exact Int.toNat_of_nonneg hc.cost.1.le

/-- A column of the rows of subjects, over a day. -/
def usersOn (day : Int) (column : UserUsageRow → Int) (db : Database) : Int :=
  (db.userUsage.map fun u => if u.policyDay = day then column u else 0).sum

/-- A column of the leases in a state, over a day. -/
def leasesOn (day : Int) (state : Phase) (column : LeaseRow → Int) (db : Database) : Int :=
  (db.leases.map fun l => if l.policyDay = day then if l.state = state then column l else 0 else 0).sum

/-- A column of the leases in a state, for a subject on a day. -/
def leasesOf (key : Int × String) (state : Phase) (column : LeaseRow → Int) (db : Database) : Int :=
  (db.leases.map fun l => if l.key = key then if l.state = state then column l else 0 else 0).sum

section

variable {limits : SponsorBudgetLimits} {db : Database} (h : Books limits db)

include h

theorem Books.costs : Tracks UserUsageRow.key UserUsageRow.reservedCost UserUsageRow.committedCost
    LeaseRow.key LeaseRow.state
    LeaseRow.maxCost db.userUsage db.leases := h.user.map (AddMonoidHom.fst Int (Int × Int))

theorem Books.creates :
    Tracks UserUsageRow.key UserUsageRow.reservedCreateListing UserUsageRow.committedCreateListing LeaseRow.key
    LeaseRow.state LeaseRow.createListingCount db.userUsage db.leases :=
  h.user.map ((AddMonoidHom.fst Int Int).comp (AddMonoidHom.snd Int (Int × Int)))

theorem Books.cancels :
    Tracks UserUsageRow.key UserUsageRow.reservedCancelListing UserUsageRow.committedCancelListing LeaseRow.key
    LeaseRow.state LeaseRow.cancelListingCount db.userUsage db.leases :=
  h.user.map ((AddMonoidHom.snd Int Int).comp (AddMonoidHom.snd Int (Int × Int)))

theorem Books.usersOn_reserved (day : Int) :
    usersOn day UserUsageRow.reservedCost db = leasesOn day .reserved LeaseRow.maxCost db :=
  sum_rows h.costs.nodup h.costs.found Prod.fst h.costs.reserved day

theorem Books.usersOn_committed (day : Int) :
    usersOn day UserUsageRow.committedCost db = leasesOn day .committed LeaseRow.maxCost db :=
  sum_rows h.costs.nodup h.costs.found Prod.fst h.costs.committed day

end

/-- The budget is kept: the tables agree with each other and with the leases, and keep the limits; what was returned
is committed, what was released is not signed, and what was returned on a day is within the limits. -/
structure BudgetSound (o : Options) (db : Database) (trace : List (Occurrence Answer Failure Database)) : Prop where
  globalReserved : ∀ g ∈ db.globalUsage, g.reservedCost = usersOn g.policyDay UserUsageRow.reservedCost db ∧
    g.reservedCost = leasesOn g.policyDay .reserved LeaseRow.maxCost db
  globalCommitted : ∀ g ∈ db.globalUsage, g.committedCost = usersOn g.policyDay UserUsageRow.committedCost db ∧
    g.committedCost = leasesOn g.policyDay .committed LeaseRow.maxCost db
  userReserved : ∀ u ∈ db.userUsage, u.reservedCost = leasesOf u.key .reserved LeaseRow.maxCost db ∧
    u.reservedCreateListing = leasesOf u.key .reserved LeaseRow.createListingCount db ∧
    u.reservedCancelListing = leasesOf u.key .reserved LeaseRow.cancelListingCount db
  userCommitted : ∀ u ∈ db.userUsage, u.committedCost = leasesOf u.key .committed LeaseRow.maxCost db ∧
    u.committedCreateListing = leasesOf u.key .committed LeaseRow.createListingCount db ∧
    u.committedCancelListing = leasesOf u.key .committed LeaseRow.cancelListingCount db
  keys : (db.globalUsage.map GlobalUsageRow.policyDay).Nodup ∧ (db.userUsage.map UserUsageRow.key).Nodup ∧
    (db.leases.map LeaseRow.leaseId).Nodup
  rows : (∀ l ∈ db.leases, ∃ u ∈ db.userUsage, u.key = l.key) ∧ ∀ u ∈ db.userUsage, ∃ g ∈ db.globalUsage,
    g.policyDay = u.policyDay
  globalNonneg : ∀ g ∈ db.globalUsage, 0 ≤ g.reservedCost ∧ 0 ≤ g.committedCost
  userNonneg : ∀ u ∈ db.userUsage, 0 ≤ u.reservedCost ∧ 0 ≤ u.committedCost ∧ 0 ≤ u.reservedCreateListing ∧
    0 ≤ u.committedCreateListing ∧ 0 ≤ u.reservedCancelListing ∧ 0 ≤ u.committedCancelListing
  globalLimit : ∀ g ∈ db.globalUsage, g.reservedCost + g.committedCost ≤ o.budgetLimits.maxCostGlobalDay
  userLimit : ∀ u ∈ db.userUsage, u.reservedCost + u.committedCost ≤ o.budgetLimits.maxCostPerUserDay ∧
    u.reservedCreateListing + u.committedCreateListing ≤ o.budgetLimits.createListingPerUserDay ∧
    u.reservedCancelListing + u.committedCancelListing ≤ o.budgetLimits.cancelListingPerUserDay
  issued : ∀ x ∈ issues trace, ∃ l ∈ db.leases, l.leaseId = x.1 ∧ l.state = .committed ∧ l.subject = x.2.1.subject ∧
    l.policyDay = x.2.1.policyDay ∧ l.maxCost = x.2.1.maxCost ∧ costIn x.2.2 = l.maxCost
  once : ((issues trace).map Prod.fst).Nodup
  unsigned : ∀ l ∈ db.leases, l.state = .released → ∀ i request digest signature,
    reserved l.leaseId request ∈ own i trace →
    signed digest signature ∈ own i trace → signature.length ≠ 65
  dayLimit : ∀ x ∈ issues trace, ((issues trace).map fun y =>
    if y.2.1.policyDay = x.2.1.policyDay then costIn y.2.2 else 0).sum ≤ o.budgetLimits.maxCostGlobalDay
  userDayLimit : ∀ x ∈ issues trace, ((issues trace).map fun y =>
    if y.2.1.policyDay = x.2.1.policyDay ∧ y.2.1.subject = x.2.1.subject then costIn y.2.2 else 0).sum ≤
      o.budgetLimits.maxCostPerUserDay

/-- What was returned of a kind is covered by what the leases of this kind have committed. -/
theorem issues_le {X : Record} (h : Record.Reachable o X) {κ : Type} [DecidableEq κ] (key : LeaseRow → κ)
    (key' : SponsorBudgetRequest → κ)
    (hkey : ∀ (request : SponsorBudgetRequest) id state, key { request.lease id with state := state } = key' request)
    (k : κ) : ((issues X.trace).map fun y => if key' y.2.1 = k then costIn y.2.2 else 0).sum ≤
      (X.state.leases.map (share key LeaseRow.state LeaseRow.maxCost .committed k)).sum := by
  have hb := (reachable_inv h).books
  refine Table.sum_le_of_covered Prod.fst LeaseRow.leaseId (issues_nodup h)
    (fun l hl => share_nonneg (hb.amounts l hl).1) ?_
  intro x hx
  obtain ⟨i, r, hi⟩ := mem_issues hx
  obtain ⟨-, hl, signature, hfor⟩ := lease_of_issued h hi
  refine ⟨_, hl, rfl, ?_⟩
  unfold share
  rw [hkey, hfor.cost]
  exact le_refl _

/-- **The budget is kept in every run.** -/
theorem record_sound {X : Record} (h : Record.Reachable o X) : BudgetSound o X.state X.trace := by
  have hb := (reachable_inv h).books
  have hissued : ∀ x ∈ issues X.trace, { x.2.1.lease x.1 with state := .committed } ∈ X.state.leases ∧
    costIn x.2.2 = x.2.1.maxCost := by
    intro x hx
    obtain ⟨i, r, hi⟩ := mem_issues hx
    obtain ⟨-, hl, signature, hfor⟩ := lease_of_issued h hi
    exact ⟨hl, hfor.cost⟩
  exact {
    globalReserved := fun g hg => ⟨(hb.global.reserved g hg).trans (hb.usersOn_reserved g.policyDay).symm,
      hb.global.reserved g hg⟩
    globalCommitted := fun g hg => ⟨(hb.global.committed g hg).trans (hb.usersOn_committed g.policyDay).symm,
      hb.global.committed g hg⟩
    userReserved := fun u hu => ⟨hb.costs.reserved u hu, hb.creates.reserved u hu, hb.cancels.reserved u hu⟩
    userCommitted := fun u hu => ⟨hb.costs.committed u hu, hb.creates.committed u hu, hb.cancels.committed u hu⟩
    keys := ⟨hb.global.nodup, hb.user.nodup, hb.ids⟩
    rows := ⟨fun l hl => Table.isSome_find.mp (hb.user.found l hl), fun u hu => Table.isSome_find.mp (hb.days u hu)⟩
    globalNonneg := fun g hg => hb.global.nonneg (fun l hl => (hb.amounts l hl).1) hg
    userNonneg := by
      intro u hu
      obtain ⟨h₁, h₂⟩ := hb.costs.nonneg (fun l hl => (hb.amounts l hl).1) hu
      obtain ⟨h₃, h₄⟩ := hb.creates.nonneg (fun l hl => (hb.amounts l hl).2.1) hu
      obtain ⟨h₅, h₆⟩ := hb.cancels.nonneg (fun l hl => (hb.amounts l hl).2.2) hu
      exact ⟨h₁, h₂, h₃, h₄, h₅, h₆⟩
    globalLimit := hb.globalLimit
    userLimit := hb.userLimit
    issued := by
      intro x hx
      obtain ⟨hl, hcost⟩ := hissued x hx
      exact ⟨_, hl, rfl, rfl, rfl, rfl, rfl, hcost⟩
    once := issues_nodup h
    unsigned := fun l hl hst i request digest signature hres hsig => unsigned_of_released h hl hst hres hsig
    dayLimit := by
      intro x hx
      obtain ⟨u, hu, hku⟩ := Table.isSome_find.mp (hb.user.found _ (hissued x hx).1)
      obtain ⟨g, hg, hkg⟩ := Table.isSome_find.mp (hb.days u hu)
      have hday : g.policyDay = x.2.1.policyDay := hkg.trans (congrArg Prod.fst hku)
      have hle := issues_le h LeaseRow.policyDay SponsorBudgetRequest.policyDay (fun _ _ _ => rfl) x.2.1.policyDay
      have hcom := hb.global.committed g hg
      rw [hday] at hcom
      have hlim := hb.globalLimit g hg
      have hres := (hb.global.nonneg (fun l hl => (hb.amounts l hl).1) hg).1
      rw [← hcom] at hle
      omega
    userDayLimit := by
      intro x hx
      obtain ⟨u, hu, hku⟩ := Table.isSome_find.mp (hb.user.found _ (hissued x hx).1)
      have hkey : u.key = (x.2.1.policyDay, x.2.1.subject) := hku
      have hle := issues_le h LeaseRow.key (fun request => (request.policyDay, request.subject)) (fun _ _ _ => rfl)
        (x.2.1.policyDay, x.2.1.subject)
      have hcom := hb.costs.committed u hu
      rw [hkey] at hcom
      have hlim := (hb.userLimit u hu).1
      have hlim' : u.reservedCost + u.committedCost ≤ o.budgetLimits.maxCostPerUserDay := hlim
      have hres := (hb.costs.nonneg (fun l hl => (hb.amounts l hl).1) hu).1
      rw [← hcom] at hle
      simp only [Prod.mk.injEq] at hle
      omega }

end

/-- **The budget of the service.** Whatever requests run at the same time, wherever they stop, and whatever the
database, the signer and the policy answer, the budget is kept. -/
theorem budget_sound {o : Options} (ho : ∀ t, o.hashTypedData t = Eip712.hash o.keccak256 t) {X : Service}
    (h : X.Reachable o) :
    BudgetSound o X.recorded.state X.recorded.trace := by
  have hstarts : ∀ p, Starts o p → p.Conforms (Permits o) (fun _ _ => True) [] := by
    rintro _ ⟨q, rfl⟩
    exact handle_conforms ho q
  exact record_sound (Threads.reachable hstarts h).2

/-! A sample: one request is answered. -/

/-- A transaction that takes effect if it can. -/
def applied (db : Database) : Except Failure Database → Except Failure Unit × Database
  | .ok db' => (.ok (), db')
  | .error e => (.error e, db)

/-- Everything is answered. -/
def sampleAnswer : (c : Command) → Database → Except Failure (Answer c) × Database
  | .authorize authorization, db => (.ok authorization, db)
  | .validatePolicy _ _, db => (.ok ⟨1, 0⟩, db)
  | .reserve leaseId request, db => applied db (reserveLease leaseId request db)
  | .signDigest _, db => (.ok sampleSignature, db)
  | .transitionLease leaseId target, db => applied db (transitionLease leaseId target db)
  | .reply _, db => (.ok (), db)

theorem sampleAnswer_effects (c : Command) (db : Database) :
    Effects c db (sampleAnswer c db).1 (sampleAnswer c db).2 := by
  cases c with
  | reserve leaseId request =>
    change Effects (.reserve leaseId request) db (applied db (reserveLease leaseId request db)).1
      (applied db (reserveLease leaseId request db)).2
    cases h : reserveLease leaseId request db with
    | error e => exact .failed
    | ok db' => exact .done rfl h
  | transitionLease leaseId target =>
    change Effects (.transitionLease leaseId target) db (applied db (transitionLease leaseId target db)).1
      (applied db (transitionLease leaseId target db)).2
    cases h : transitionLease leaseId target db with
    | error e => exact .failed
    | ok db' => exact .done rfl h
  | _ => exact .other rfl

def sampleOptions : Options := ⟨sampleKeccak, Eip712.hash sampleKeccak, Paymaster.sampleConfig, ⟨5000, 9000, 10, 10⟩⟩

def sampleIncoming : Incoming := ⟨some "trader", .ok (sampleInput, 1000), 1000000, 7⟩

def sampleService : Service := ⟨⟨Database.empty, []⟩, fun _ => none⟩

def sampleSchedule : List (Program.Action Answer Failure Database) :=
  [.start 0 (handle sampleOptions sampleIncoming), .run 0 9]

/-- The sponsorship of the sample is returned, at a cost of 1000. -/
theorem budget_sound_sample : ∃ X, Service.Reachable sampleOptions X ∧
    BudgetSound sampleOptions X.recorded.state X.recorded.trace ∧
    (issues X.recorded.trace).map (fun x => (x.1, costIn x.2.2)) = [(7, 1000)] := by
  have hX : Service.Reachable sampleOptions (sampleSchedule.foldl (Threads.play sampleAnswer) sampleService) := by
    refine ⟨sampleService, ⟨rfl, rfl, fun _ => rfl⟩, Threads.play_run sampleAnswer_effects ?_⟩
    exact ⟨⟨rfl, sampleIncoming, rfl⟩, trivial, trivial⟩
  refine ⟨_, hX, budget_sound (fun _ => rfl) hX, ?_⟩
  decide +kernel

end Sponsor

end Cpredict
