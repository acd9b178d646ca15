import AsioProtocols.Http.CompletesOnce
import AsioProtocols.Http.Removal

/-!
# The slots of the pool

`connections_` should hold one entry for each connection that is not closed. An
entry is a future, and `remove()` recognises it by the connection it is done
with: a connection that closes before its future is done is not found, and
`erase` is applied to the end iterator (`slotAccounting_failedAttempt`). Nobody
else settles that future either, so whoever waits on it waits for ever
(`notStranded_failedResolve`).

Both happen only where an attempt to connect fails. As long as none does
(`establishes`), the accounting is right (`slotAccounting_of_run`) and every
pending future of `next()` has a connection on its way, or waits in `next_` while
a connection is open (`notStranded_of_run`).

The invariant is `Slots L x`: the entries are those of the connections that are
not closed, and a pending future is that of a connection being established. `L`
is what is known of the limit: that it is fixed, or that it is positive; `x` is
exempted while its future is about to be done. `Working L c` is `Slots` for the
handlers of an established connection, which may close it.
-/

namespace AsioProtocols

open Function

/-! ## The properties -/

/-- How many of the connections made are not closed. -/
def World.openCount (w : World) : Nat :=
  (List.range w.pool.created).countP fun c => !(w.conns c).closed

/-- **The accounting**: one entry for each connection that is not closed, none for
a closed one, and never more connections than slots. -/
structure SlotAccounting (max : Nat) (w : World) : Prop where
  openOnce : ∀ c, c < w.pool.created → (w.conns c).closed = false →
    w.pool.connections.count (some c) = 1
  noneClosed : ∀ e ∈ w.pool.connections, ∃ c, e = some c ∧ c < w.pool.created ∧
    (w.conns c).closed = false
  bounded : w.openCount ≤ max

/-- **Nobody is stranded**: a pending future of `next()` has a connection on its
way, or is queued while a connection is open. -/
structure NotStranded (w : World) : Prop where
  opened : ∀ f, f < w.pool.created → (w.pool.opened f).outcome = none →
    (w.conns f).setup ≠ none ∧ (w.conns f).closed = false
  queued : ∀ q, q < w.pool.nqueued → (w.pool.queued q).outcome = none →
    q ∈ w.pool.next_ ∧ ∃ c, some c ∈ w.pool.connections ∧ (w.conns c).closed = false

/-- No attempt to connect fails: no stage of one ends in an error, and its timer
does not expire. Connections are removed by closing them. -/
def establishes (w : World) : Event → Prop
  | .runSetup c => w.setupFails c = false
  | .runWait c i _ => w.expires c i = true → (w.pool.opened c).outcome ≠ none
  | .remove _ => False
  | _ => True

/-- … and the limit stays as it is. -/
def establishesFixed (w : World) (e : Event) : Prop :=
  establishes w e ∧ match e with
    | .maxConnections _ | .limitConnections _ => False
    | _ => True

/-- … and the limit stays positive. -/
def establishesPositive (w : World) (e : Event) : Prop :=
  establishes w e ∧ match e with
    | .maxConnections n => 0 < n
    | _ => True

instance (w : World) (e : Event) : Decidable (establishes w e) :=
  match e with
  | .runSetup _ => inferInstanceAs (Decidable (_ = _))
  | .runWait _ _ _ => inferInstanceAs (Decidable (_ → _ ≠ _))
  | .remove _ => inferInstanceAs (Decidable False)
  | .request _ _ | .next | .release _ | .close _ | .maxConnections _ | .limitConnections _
  | .setupDone _ _ | .receive _ _ _ | .readFails _ _ _ | .runRead _ _ _ | .writeDone _ _ _
  | .runWrite _ _ _ | .expire _ _ => inferInstanceAs (Decidable True)

instance (w : World) (e : Event) : Decidable (establishesFixed w e) :=
  @instDecidableAnd _ _ inferInstance <|
    match e with
    | .maxConnections _ | .limitConnections _ => inferInstanceAs (Decidable False)
    | .request _ _ | .next | .release _ | .close _ | .remove _ | .setupDone _ _ | .runSetup _
    | .receive _ _ _ | .readFails _ _ _ | .runRead _ _ _ | .writeDone _ _ _ | .runWrite _ _ _
    | .expire _ _ | .runWait _ _ _ => inferInstanceAs (Decidable True)

instance (w : World) (e : Event) : Decidable (establishesPositive w e) :=
  @instDecidableAnd _ _ inferInstance <|
    match e with
    | .maxConnections _ => inferInstanceAs (Decidable (0 < _))
    | .request _ _ | .next | .release _ | .close _ | .remove _ | .limitConnections _
    | .setupDone _ _ | .runSetup _ | .receive _ _ _ | .readFails _ _ _ | .runRead _ _ _
    | .writeDone _ _ _ | .runWrite _ _ _ | .expire _ _ | .runWait _ _ _ =>
      inferInstanceAs (Decidable True)

/-! ## What is known of the limit -/

/-- A fact about the limit that the operations of a pool keep. -/
structure LimitKept (L : Pool → Prop) : Prop where
  quiet : ∀ p q : Pool, q.connections = p.connections → q.limitConnections = p.limitConnections →
    q.maxConnections = p.maxConnections → (p.next_ = [] → q.next_ = []) → L p → L q
  connect : ∀ p q : Pool, p.canConnect = true → q.connections = p.connections ++ [some p.created] →
    q.limitConnections = p.limitConnections → q.maxConnections = p.maxConnections → L p → L q
  enqueue : ∀ p q : Pool, p.canConnect = false → q.connections = p.connections →
    q.limitConnections = p.limitConnections → q.maxConnections = p.maxConnections → L p → L q
  remove : ∀ eraseEnd valid (p : Pool) c, p.Entries →
    (∃ e ∈ p.connections, p.dead c e = true) → L p → L (p.remove eraseEnd valid c)

namespace Pool

/-- The limit is on and fixed, and respected. -/
def Bounded (max : Nat) (p : Pool) : Prop :=
  p.limitConnections = true ∧ p.maxConnections = max ∧ p.connections.length ≤ max

/-- There is a slot, and nobody waits while all of them are free. -/
def Occupied (p : Pool) : Prop :=
  0 < p.maxConnections ∧ (p.next_ ≠ [] → p.connections ≠ [])

theorem bounded_kept (max : Nat) : LimitKept (Bounded max) where
  quiet p q hc hl hm _ h := by
    rw [Bounded, hc, hl, hm]
    exact h
  connect p q hcan hc hl hm h := by
    obtain ⟨hlimit, hmax, hlen⟩ := h
    have : p.connections.length < max := by simpa [canConnect, hlimit, hmax] using hcan
    refine ⟨hl.trans hlimit, hm.trans hmax, ?_⟩
    rw [hc, List.length_append, List.length_singleton]
    exact this
  enqueue p q _ hc hl hm h := by
    rw [Bounded, hc, hl, hm]
    exact h
  remove eraseEnd valid p c hentries hit h := by
    obtain ⟨hlimit, hmax, hlen⟩ := h
    have hpruned := (prune_connections hentries eraseEnd valid hit).2
    rcases remove_cases eraseEnd valid p c with ⟨hr, -⟩ | ⟨hr, -, -⟩ <;> rw [hr]
    · exact ⟨hlimit, hmax, show (p.prune eraseEnd valid c).connections.length ≤ max by omega⟩
    · refine ⟨hlimit, hmax, ?_⟩
      rw [replace_connections, List.length_append, List.length_singleton, hpruned]
      exact hlen

theorem occupied_kept : LimitKept Occupied where
  quiet p q hc _ hm hn h := by
    refine ⟨hm ▸ h.1, fun hq => ?_⟩
    rw [hc]
    exact h.2 fun hp => hq (hn hp)
  connect p q _ hc _ hm h := ⟨hm ▸ h.1, fun _ => by simp [hc]⟩
  enqueue p q hcan hc _ hm h := by
    refine ⟨hm ▸ h.1, fun _ hnil => ?_⟩
    -- the limit is on and reached
    have := h.1
    simp [canConnect, ← hc, hnil] at hcan
    omega
  remove eraseEnd valid p c _ _ h := by
    rcases remove_cases eraseEnd valid p c with ⟨hr, hwhy⟩ | ⟨hr, -, -⟩ <;> rw [hr]
    · refine ⟨h.1, fun hn hnil => ?_⟩
      rcases hwhy with hnext | hcan
      · exact hn hnext
      · have := h.1
        simp [canConnect, hnil] at hcan
        omega
    · exact ⟨h.1, fun _ => by simp⟩

end Pool

/-! ## The invariant -/

/-- What the pool depends on in a connection: whether it is closed, and where its
attempt to connect is. -/
def Conn.shell (k : Conn) : Bool × Option SetupOp := (k.closed, k.setup)

/-- **The invariant**, with connection `x` exempted. -/
structure Slots (L : Pool → Prop) (x : Option ConnId) (w : World) : Prop where
  entries : w.pool.Entries
  entry_iff : ∀ c, some c ∈ w.pool.connections ↔ c < w.pool.created ∧ (w.conns c).closed = false
  pending : ∀ c, c < w.pool.created → (w.pool.opened c).outcome = none →
    (w.conns c).closed = false ∧ (some c ≠ x → (w.conns c).setup ≠ none)
  waiting : ∀ q, q < w.pool.nqueued → (w.pool.queued q).outcome = none → q ∈ w.pool.next_
  fresh : ∀ c, w.pool.created ≤ c → (w.conns c).closed = false ∧ (w.conns c).setup ≠ none
  limit : L w.pool

/-- The handlers of connection `c`, which is established, run in such a world. -/
structure Working (L : Pool → Prop) (c : ConnId) (w : World) : Prop where
  slots : Slots L none w
  created : c < w.pool.created
  opened : (w.pool.opened c).outcome ≠ none

section handlers

variable {L : Pool → Prop} {w : World} {c : ConnId} {x : Option ConnId}

namespace Slots

/-- The pool and what it depends on stay. -/
theorem congr (h : Slots L x w) {w' : World} (hpool : w'.pool = w.pool)
    (hconns : ∀ c, (w'.conns c).shell = (w.conns c).shell) : Slots L x w' := by
  have hclosed : ∀ c, (w'.conns c).closed = (w.conns c).closed := fun c => congrArg (·.1) (hconns c)
  have hsetup : ∀ c, (w'.conns c).setup = (w.conns c).setup := fun c => congrArg (·.2) (hconns c)
  obtain ⟨hentries, hiff, hpending, hwaiting, hfresh, hlimit⟩ := h
  constructor <;> simp only [hpool, hclosed, hsetup] <;> assumption

/-- A new record for `c` with the same shell. -/
theorem inner (h : Slots L x w) {k : Conn} (hk : k.shell = (w.conns c).shell) :
    Slots L x { w with conns := Function.update w.conns c k } := by
  refine h.congr rfl fun d => ?_
  show (Function.update w.conns c k d).shell = _
  rcases eq_or_ne d c with rfl | hne
  · rw [update_self, hk]
  · rw [update_of_ne hne]

/-- Something else is known of the limit. -/
theorem withLimit {L' : Pool → Prop} (h : Slots L x w) (hlimit : L' w.pool) : Slots L' x w :=
  ⟨h.entries, h.entry_iff, h.pending, h.waiting, h.fresh, hlimit⟩

theorem weaken (h : Slots L none w) (x : Option ConnId) : Slots L x w :=
  ⟨h.entries, h.entry_iff, fun c hc ho => ⟨(h.pending c hc ho).1, fun _ => (h.pending c hc ho).2 (by simp)⟩,
    h.waiting, h.fresh, h.limit⟩

/-- A connection that is not being established is established. -/
theorem opened_of_setup (h : Slots L none w) (hc : c < w.pool.created)
    (hs : (w.conns c).setup = none) : (w.pool.opened c).outcome ≠ none :=
  fun ho => (h.pending c hc ho).2 (by simp) hs

/-- An operation of a connection being established is taken off it. -/
theorem unstage (h : Slots L none w) (hc : c < w.pool.created) :
    Slots L (some c) (w.modConn c fun k => { k with setup := none }) := by
  have hclosed : ∀ d, ((w.modConn c fun k => { k with setup := none }).conns d).closed =
      (w.conns d).closed := by
    intro d
    rcases eq_or_ne d c with rfl | hne
    · simp [World.modConn]
    · simp [World.modConn, hne]
  have hsetup : ∀ d, d ≠ c → ((w.modConn c fun k => { k with setup := none }).conns d).setup =
      (w.conns d).setup := fun d hne => by simp [World.modConn, hne]
  refine ⟨h.entries, fun d => ?_, fun d hd ho => ?_, h.waiting, fun d hd => ?_, h.limit⟩ <;>
    rw [hclosed]
  · exact h.entry_iff d
  · refine ⟨(h.pending d hd ho).1, fun hne => ?_⟩
    rw [hsetup d fun he => hne (he ▸ rfl)]
    exact (h.pending d hd ho).2 (by simp)
  · rw [hsetup d fun he => absurd hc (Nat.not_lt.mpr (he ▸ hd))]
    exact h.fresh d hd

/-- It gets to another stage. -/
theorem restage (h : Slots L (some c) w) (op : SetupOp) :
    Slots L none (w.modConn c fun k => { k with setup := some op }) := by
  have hclosed : ∀ d, ((w.modConn c fun k => { k with setup := some op }).conns d).closed =
      (w.conns d).closed := by
    intro d
    rcases eq_or_ne d c with rfl | hne
    · simp [World.modConn]
    · simp [World.modConn, hne]
  have hsetup : ∀ d, (w.conns d).setup ≠ none ∨ d = c →
      ((w.modConn c fun k => { k with setup := some op }).conns d).setup ≠ none := by
    intro d hd
    rcases eq_or_ne d c with rfl | hne
    · simp [World.modConn]
    · simpa [World.modConn, hne] using hd
  refine ⟨h.entries, fun d => ?_, fun d hd ho => ?_, h.waiting, fun d hd => ?_, h.limit⟩ <;>
    rw [hclosed]
  · exact h.entry_iff d
  · refine ⟨(h.pending d hd ho).1, fun _ => hsetup d ?_⟩
    by_cases hdc : d = c
    · exact .inr hdc
    · exact .inl ((h.pending d hd ho).2 fun he => hdc (Option.some.inj he))
  · exact ⟨(h.fresh d hd).1, hsetup d (.inl (h.fresh d hd).2)⟩

/-! ## The pool -/

/-- Only the queues change. -/
theorem setQueues (h : Slots L x w) {p : Pool} (hconn : p.connections = w.pool.connections)
    (hcreated : p.created = w.pool.created) (hopened : p.opened = w.pool.opened)
    (hwaiting : ∀ q, q < p.nqueued → (p.queued q).outcome = none → q ∈ p.next_) (hlimit : L p) :
    Slots L x { w with pool := p } := by
  refine ⟨h.entries.of_eq hconn hcreated hopened, ?_, ?_, hwaiting, ?_, hlimit⟩
  · show ∀ c, some c ∈ p.connections ↔ c < p.created ∧ _
    rw [hconn, hcreated]
    exact h.entry_iff
  · show ∀ c, c < p.created → (p.opened c).outcome = none → _
    rw [hcreated, hopened]
    exact h.pending
  · show ∀ c, p.created ≤ c → _
    rw [hcreated]
    exact h.fresh

/-- A new connection, on its way. -/
theorem connect (h : Slots L x w) {p : Pool} (fut : Future ConnId OpenTask)
    (hconn : p.connections = w.pool.connections ++ [some w.pool.created])
    (hcreated : p.created = w.pool.created + 1)
    (hopened : p.opened = Function.update w.pool.opened w.pool.created fut)
    (hfut : fut.outcome = none) (hnqueued : p.nqueued = w.pool.nqueued)
    (hqueued : p.queued = w.pool.queued) (hnext : p.next_ = w.pool.next_) (hlimit : L p) :
    Slots L x { w with pool := p } := by
  have hnew := h.fresh w.pool.created (Nat.le_refl _)
  have old : ∀ c, c < p.created → c ≠ w.pool.created → c < w.pool.created := fun c hc hne =>
    Nat.lt_of_le_of_ne (Nat.le_of_lt_succ (Nat.lt_of_lt_of_eq hc hcreated)) hne
  refine ⟨h.entries.connect hconn hcreated fun f => ?_, fun c => ?_, fun c hc ho => ?_, ?_,
    fun c hc => ?_, hlimit⟩
  · rw [hopened]
    by_cases hf : f = w.pool.created <;> simp [hf, hfut]
  · show some c ∈ p.connections ↔ c < p.created ∧ (w.conns c).closed = false
    rw [hconn, List.mem_append, h.entry_iff c, List.mem_singleton, Option.some.injEq]
    constructor
    · rintro (⟨hlt, hopen⟩ | rfl)
      · exact ⟨hcreated ▸ Nat.lt_succ_of_lt hlt, hopen⟩
      · exact ⟨hcreated ▸ Nat.lt_succ_self _, hnew.1⟩
    · rintro ⟨hc, hopen⟩
      by_cases hne : c = w.pool.created
      · exact .inr hne
      · exact .inl ⟨old c hc hne, hopen⟩
  · show (w.conns c).closed = false ∧ (some c ≠ x → (w.conns c).setup ≠ none)
    by_cases hne : c = w.pool.created
    · rw [hne]
      exact ⟨hnew.1, fun _ => hnew.2⟩
    · change (p.opened c).outcome = none at ho
      rw [hopened, update_of_ne hne] at ho
      exact h.pending c (old c hc hne) ho
  · show ∀ q, q < p.nqueued → (p.queued q).outcome = none → q ∈ p.next_
    rw [hnqueued, hqueued, hnext]
    exact h.waiting
  · exact h.fresh c (Nat.le_of_succ_le (le_of_eq_of_le hcreated.symm hc))

/-- Handing on a connection leaves the pool and the shells alone. -/
theorem hand (h : Slots L x w) (d : ConnId) (tasks : List ClientTask) :
    Slots L x (w.hand d tasks) := by
  refine List.foldlRecOn (motive := Slots L x) tasks _ (h.congr rfl fun _ => rfl) ?_
  rintro u hu (r | _) -
  · refine hu.congr rfl fun e => ?_
    simp only [World.runTask, World.writeRequest, World.extendTimer, World.modConn, World.note]
    rcases eq_or_ne e d with rfl | hne
    · simp [Conn.shell]
    · simp [hne]
  · exact hu.congr rfl fun _ => rfl

/-- **`release()`** -/
theorem release (hL : LimitKept L) (h : Slots L x w) {n : Nat} (hq : Queues w.pool n)
    (d : ConnId) : Slots L x (w.release d) := by
  rcases hn : w.pool.next_ with _ | ⟨q, rest⟩
  · rw [World.release_of_nil w d hn]
    exact h.setQueues rfl rfl rfl h.waiting (hL.quiet w.pool _ rfl rfl rfl (fun hp => hp) h.limit)
  · rw [World.release_of_cons w d hn (hq.pending q (by simp [hn])).2]
    refine hand ?_ d _
    refine h.setQueues rfl rfl rfl (fun q' hq' ho => ?_)
      (hL.quiet w.pool _ rfl rfl rfl (fun hp => by simp [hn] at hp) h.limit)
    change (Function.update w.pool.queued q _ q').outcome = none at ho
    have hne : q' ≠ q := by
      rintro rfl
      simp at ho
    rw [update_of_ne hne] at ho
    have hmem := h.waiting q' hq' ho
    rw [hn] at hmem
    exact (List.mem_cons.mp hmem).resolve_left hne

/-- **`next()`** with its callback. -/
theorem nextThen (hL : LimitKept L) (h : Slots L x w) (t : ClientTask) :
    Slots L x (w.nextThen t) := by
  rcases World.nextThen_cases w t with ⟨d, rest, -, -, hn⟩ | ⟨-, hcan, hn⟩ | ⟨-, hcan, hn⟩ <;>
    rw [hn]
  · refine hand ?_ d _
    exact h.setQueues rfl rfl rfl h.waiting (hL.quiet w.pool _ rfl rfl rfl (fun hp => hp) h.limit)
  · refine h.connect { tasks := [.client t] } ?_ ?_ ?_ rfl ?_ ?_ ?_ ?_ <;> try rfl
    exact hL.connect w.pool _ hcan rfl rfl rfl h.limit
  · refine h.setQueues rfl rfl rfl (fun q hq ho => ?_)
      (hL.enqueue w.pool _ hcan rfl rfl rfl h.limit)
    change (Function.update w.pool.queued w.pool.nqueued _ q).outcome = none at ho
    by_cases hne : q = w.pool.nqueued
    · exact List.mem_append_right _ (List.mem_singleton.mpr hne)
    · rw [update_of_ne hne] at ho
      exact List.mem_append_left _
        (h.waiting q (Nat.lt_of_le_of_ne (Nat.le_of_lt_succ hq) hne) ho)

/-- The future of `c` is done. -/
theorem settleOpened (hL : LimitKept L) (h : Slots L (some c) w) {n : Nat} (hq : Queues w.pool n)
    (ho : (w.pool.opened c).outcome = none) : Slots L none (w.settleOpened c) := by
  have h₁ : Slots L none { w with pool := { w.pool with
      opened := Function.update w.pool.opened c { outcome := some (.done c), tasks := [] } } } := by
    refine ⟨⟨h.entries.nodup, h.entries.made, fun f => ?_⟩, h.entry_iff, fun d hd hp => ?_,
      h.waiting, h.fresh, hL.quiet w.pool _ rfl rfl rfl (fun hp => hp) h.limit⟩
    · show (Function.update w.pool.opened c _ f).outcome = none ∨ _
      rcases eq_or_ne f c with rfl | hne
      · simp
      · simpa [hne] using h.entries.outcome f
    · change (Function.update w.pool.opened c _ d).outcome = none at hp
      have hne : d ≠ c := by
        rintro rfl
        simp at hp
      rw [update_of_ne hne] at hp
      exact ⟨(h.pending d hd hp).1, fun _ => (h.pending d hd hp).2 (by simpa using hne)⟩
  rcases w.settleOpened_cases c ho (hq.openedOne c) with ⟨-, he⟩ | ⟨t, -, he⟩ | ⟨-, he⟩ <;> rw [he]
  · exact h₁
  · exact h₁.hand c _
  · exact h₁.release hL (hq.setOpened c { outcome := some (.done c), tasks := [] } (by simp)
      (by simp) rfl rfl rfl rfl) c

/-- **`close()`** on an established connection that is open: its entry is found. -/
theorem shut (hL : LimitKept L) (h : Slots L none w) (hc : c < w.pool.created)
    (ho : (w.pool.opened c).outcome ≠ none) (hopen : (w.conns c).closed = false)
    (valid : ConnId → Bool) : Slots L none { w with
      conns := Function.update w.conns c (w.conns c).shut
      pool := w.pool.remove w.eraseEnd valid c } := by
  have hmem : some c ∈ w.pool.connections := (h.entry_iff c).mpr ⟨hc, hopen⟩
  have hdone : (w.pool.opened c).outcome = some (.done c) := (h.entries.outcome c).resolve_left ho
  have hit : ∃ e ∈ w.pool.connections, w.pool.dead c e = true :=
    ⟨_, hmem, (h.entries.dead_iff hmem c).mpr ⟨rfl, hdone⟩⟩
  have hshut : ∀ d, d ≠ c → Function.update w.conns c (w.conns c).shut d = w.conns d :=
    fun d hne => update_of_ne hne _ _
  have hpruned : Slots (fun _ => True) none { w with
      conns := Function.update w.conns c (w.conns c).shut
      pool := w.pool.prune w.eraseEnd valid c } := by
    refine ⟨h.entries.prune w.eraseEnd valid hit, fun d => ?_, fun d hd hp => ?_, h.waiting,
      fun d hd => ?_, trivial⟩
    · show some d ∈ (w.pool.prune w.eraseEnd valid c).connections ↔
        d < w.pool.created ∧ (Function.update w.conns c (w.conns c).shut d).closed = false
      rw [(Pool.prune_connections h.entries w.eraseEnd valid hit).1, List.mem_filter]
      rcases eq_or_ne d c with rfl | hne
      · simp [(h.entries.dead_iff hmem d).mpr ⟨rfl, hdone⟩, Conn.shut]
      · rw [hshut d hne, h.entry_iff d]
        refine and_iff_left_of_imp fun hd => ?_
        rw [Bool.not_eq_true', Bool.eq_false_iff]
        intro hdead
        have := ((h.entries.dead_iff ((h.entry_iff d).mpr hd) c).mp hdead).1
        exact hne (Option.some.inj this)
    · have hne : d ≠ c := by
        rintro rfl
        exact ho hp
      show (Function.update w.conns c _ d).closed = false ∧
        (some d ≠ none → (Function.update w.conns c _ d).setup ≠ none)
      rw [hshut d hne]
      exact h.pending d hd hp
    · show (Function.update w.conns c _ d).closed = false ∧
        (Function.update w.conns c _ d).setup ≠ none
      rw [hshut d fun he => absurd hc (Nat.not_lt.mpr (he ▸ hd))]
      exact h.fresh d hd
  have hlimit := hL.remove w.eraseEnd valid w.pool c h.entries hit h.limit
  rcases Pool.remove_cases w.eraseEnd valid w.pool c with ⟨hr, -⟩ | ⟨hr, -, -⟩
  · rw [hr] at hlimit ⊢
    exact hpruned.withLimit hlimit
  · rw [hr] at hlimit ⊢
    refine (hpruned.connect (p := (w.pool.prune w.eraseEnd valid c).replace)
      { tasks := [.release] } rfl rfl ?_ rfl rfl rfl rfl trivial).withLimit hlimit
    exact Pool.replace_opened _

end Slots

namespace Working

/-- The pool and the shells stay. -/
theorem congr (h : Working L c w) {w' : World} (hpool : w'.pool = w.pool)
    (hconns : ∀ d, (w'.conns d).shell = (w.conns d).shell) : Working L c w' :=
  ⟨h.slots.congr hpool hconns, hpool ▸ h.created, hpool ▸ h.opened⟩

/-- A new record for `c` with the same shell. -/
theorem inner (h : Working L c w) {k : Conn} (hk : k.shell = (w.conns c).shell) :
    Working L c { w with conns := Function.update w.conns c k } :=
  ⟨h.slots.inner hk, h.created, h.opened⟩

/-- **`close()`** -/
theorem close (hL : LimitKept L) (h : Working L c w) : Working L c (w.close c) := by
  rcases hcl : (w.conns c).closed with _ | _
  · obtain ⟨valid, he⟩ := w.close_of_open c hcl
    rw [he]
    refine ⟨h.slots.shut hL h.created h.opened hcl valid, ?_, ?_⟩
    · show c < (w.pool.remove w.eraseEnd valid c).created
      rcases Pool.remove_cases w.eraseEnd valid w.pool c with ⟨hr, -⟩ | ⟨hr, -, -⟩ <;> rw [hr]
      · exact h.created
      · exact Nat.lt_succ_of_lt h.created
    · show ((w.pool.remove w.eraseEnd valid c).opened c).outcome ≠ none
      rcases Pool.remove_cases w.eraseEnd valid w.pool c with ⟨hr, -⟩ | ⟨hr, -, -⟩ <;> rw [hr]
      · exact h.opened
      · simpa [update_of_ne (Nat.ne_of_lt h.created)] using h.opened
  · rw [w.close_of_closed c hcl]
    exact h.inner rfl

/-- **`next()`** with its callback makes no future pending again. -/
theorem nextThen (hL : LimitKept L) (h : Working L c w) (t : ClientTask) :
    Working L c (w.nextThen t) := by
  refine ⟨h.slots.nextThen hL t, Nat.lt_of_lt_of_le h.created (w.created_nextThen t), ?_⟩
  rcases World.nextThen_cases w t with ⟨d, rest, -, -, hn⟩ | ⟨-, -, hn⟩ | ⟨-, -, hn⟩ <;> rw [hn]
  · simpa using h.opened
  · simpa [update_of_ne (Nat.ne_of_lt h.created)] using h.opened
  · exact h.opened

/-- Settling an attempt: at most a retry calls `next()`. -/
theorem settleUnlessReady (hL : LimitKept L) (h : Working L c w) (d : ConnId) (r : RespId)
    (o : Outcome Nat) (v : Verdict) : Working L c (w.settleUnlessReady d r o v) := by
  refine w.settleUnlessReady_preserves d (P := Working L c) r o v h (h.congr rfl fun _ => rfl) ?_
  rintro u ⟨s, n⟩ - hu
  refine u.completionHandler_cases (P := Working L c) _ o v s n
    (fun _ _ _ _ => hu.congr rfl fun _ => rfl) (fun _ => hu.congr rfl fun _ => rfl) ?_
  intro _
  refine nextThen hL ?_ _
  exact hu.congr rfl fun _ => rfl

theorem failResponse (hL : LimitKept L) (h : Working L c w) (d : ConnId) (err : Bytes)
    (v : Verdict) : Working L c (w.failResponse d err v) := by
  rw [World.failResponse]
  split
  · exact h.settleUnlessReady hL d _ _ v
  · exact h

/-- **`release()`** -/
theorem release (hL : LimitKept L) (h : Working L c w) {n : Nat} (hq : Queues w.pool n)
    (d : ConnId) : Working L c (w.release d) := by
  refine ⟨h.slots.release hL hq d, ?_, ?_⟩
  all_goals
    rcases hn : w.pool.next_ with _ | ⟨q, rest⟩
    · rw [World.release_of_nil w d hn]
      first | exact h.created | exact h.opened
    · rw [World.release_of_cons w d hn (hq.pending q (by simp [hn])).2, World.pool_hand]
      first | exact h.created | exact h.opened

/-- **The end of a response.** -/
theorem extractNextBodyChunk (hL : LimitKept L) (h : Working L c w) {n : Nat}
    (hq : Queues w.pool n) {r : RespId} (hr : (w.conns c).res = some r) (data : Bytes)
    (v : Verdict) : Working L c (w.extractNextBodyChunk c data v) := by
  have stored : ∀ u, (u = w ∨ ∃ m, u = w.store c r m) → Working L c u ∧ u.pool = w.pool := by
    rintro u (rfl | ⟨m, rfl⟩)
    · exact ⟨h, rfl⟩
    · exact ⟨h.congr rfl fun _ => rfl, rfl⟩
  have cleared : ∀ {u}, Working L c u →
      Working L c ((u.modConn c fun k => { k with res := none }).note (.finished c r)) :=
    fun {u} hu => congr (hu.inner (k := { u.conns c with res := none }) rfl) rfl fun _ => rfl
  refine World.extractNextBodyChunk_cases (P := Working L c) data hr ?_ ?_
  · intro u s hu
    exact ((cleared (stored u hu).1).settleUnlessReady hL c r _ v).close hL
  · intro u s hu
    obtain ⟨hu, hpool⟩ := stored u hu
    refine settleUnlessReady hL (release hL ?_ (n := n) ?_ c) c r _ v
    · exact (cleared hu).inner rfl
    · show Queues u.pool n
      rw [hpool]
      exact hq

/-- What a read handler does. -/
theorem readOutcome (hL : LimitKept L) {w' : World} {r : RespId} {v : Verdict} {gaveUp : Prop}
    (out : ReadOutcome c r v gaveUp w w') (h : Working L c w) {n : Nat} (hq : Queues w.pool n)
    (hr : (w.conns c).res = some r) : Working L c w' := by
  induction out with
  | timer _ ih => exact ih (h.inner rfl) hq (by simp [hr])
  | parser input mode expected _ ih => exact ih (h.inner rfl) hq (by simp [World.modConn, hr])
  | store m _ ih => exact ih (h.congr rfl fun _ => rfl) hq hr
  | idle => exact h
  | waits w op _ _ => exact h.inner rfl
  | escaped w e => exact h.congr rfl fun _ => rfl
  | givenUp w err _ => exact (h.close hL).failResponse hL c err v
  | finished w data => exact h.extractNextBodyChunk hL hq hr data v

/-- **The handler of a completed read.** -/
theorem finishRead (hL : LimitKept L) (h : Working L c w) {n : Nat} (hq : Queues w.pool n)
    (op : ReadOp) (hpoint : op.point ≠ .status → (w.conns c).res ≠ none)
    (result : Except Bytes Nat) (v : Verdict) : Working L c (w.finishRead c op result v) := by
  cases result with
  | error err =>
    simp only [World.finishRead]
    split
    · exact (h.close hL).failResponse hL c _ v
    · exact h.close hL
  | ok pos =>
    by_cases hp : op.point = .status
    · obtain ⟨input, hcases⟩ := World.finishRead_status (w := w) (c := c) (v := v) op pos hp
      have hu : Working L c (w.modConn c fun k => { k with input := input }) := h.inner rfl
      have ht : Working L c ((w.modConn c fun k => { k with input := input }).extendTimer c) :=
        hu.inner rfl
      rcases hcases with he | ⟨-, he⟩ | ⟨r, parsed, -, ⟨e, -, he⟩ | ⟨-, he⟩⟩ <;> rw [he]
      · exact hu
      · exact hu.close hL
      · exact ht.congr rfl fun _ => rfl
      · have hst : Working L c (((w.modConn c fun k => { k with input := input }).extendTimer
            c).storeStatus c r parsed) := ht.congr rfl fun _ => rfl
        exact hst.inner rfl
    · obtain ⟨r, hr⟩ := Option.ne_none_iff_exists'.mp (hpoint hp)
      exact readOutcome hL (World.finishRead_outcome op pos hp hr) h hq hr

theorem finishWrite (hL : LimitKept L) (h : Working L c w) (result : Except Bytes Unit)
    (v : Verdict) : Working L c (w.finishWrite c result v) := by
  cases result with
  | ok => exact h.inner rfl
  | error err =>
    simp only [World.finishWrite]
    split
    · exact h.congr rfl fun _ => rfl
    · exact (h.settleUnlessReady hL c _ _ v).close hL

end Working

namespace Slots

/-- **The handler of an attempt to connect** that did not fail. -/
theorem finishSetup (hL : LimitKept L) (h : Slots L (some c) w) {n : Nat} (hq : Queues w.pool n)
    (ho : (w.pool.opened c).outcome = none) (stage : Stage) :
    Slots L none (w.finishSetup c stage (.ok ())) := by
  have ht : Slots L (some c) (w.extendTimer c) := h.inner rfl
  have hread : Slots L (some c) ((w.extendTimer c).handleResponse c) := ht.inner rfl
  have hready : Slots L none (w.ready c) := hread.settleOpened hL hq ho
  cases stage with
  | resolve => exact h.restage _
  | connect =>
    simp only [World.finishSetup]
    split
    · exact ht.restage _
    · exact hready
  | handshake => exact hready

/-! ## The events -/

/-- **Every event keeps the slots** if no attempt to connect fails. -/
theorem step (hL : LimitKept L) (h : Slots L none w) (hw : Exclusive w) {e : Event} {w' : World}
    (hok : establishes w e)
    (hmax : ∀ n, e = .maxConnections n → L { w.pool with maxConnections := n })
    (hlimit : ∀ b, e = .limitConnections b → L { w.pool with limitConnections := b })
    (hstep : w.step e = some w') : Slots L none w' := by
  obtain ⟨-, hstep⟩ := World.step_eq_some hstep
  cases e with
  | request q stall =>
    cases hstep
    refine nextThen hL ?_ _
    exact h.congr rfl fun _ => rfl
  | next =>
    cases hstep
    exact h.nextThen hL _
  | release c =>
    obtain ⟨-, rfl⟩ := World.release_inv hstep
    exact release (w := { w with held := w.held.erase c }) hL (h.congr rfl fun _ => rfl) hw.queues c
  | close c =>
    obtain ⟨hc, hs, rfl⟩ := World.close_inv hstep
    exact (Working.close hL ⟨h, hc, h.opened_of_setup hc hs⟩).slots
  | remove c => cases hok
  | maxConnections n =>
    cases hstep
    exact h.setQueues rfl rfl rfl h.waiting (hmax n rfl)
  | limitConnections b =>
    cases hstep
    exact h.setQueues rfl rfl rfl h.waiting (hlimit b rfl)
  | setupDone c result =>
    obtain ⟨stage, -, -, -, rfl⟩ := World.setupDone_inv hstep
    exact (h.weaken (some c)).restage _
  | runSetup c =>
    obtain ⟨stage, result, hs, rfl⟩ := World.runSetup_inv hstep
    have hc := hw.created_of_setup hs
    cases result with
    | error err => simp [establishes, World.setupFails, hs] at hok
    | ok =>
      exact (h.unstage hc).finishSetup hL hw.queues ((hw.conn c).setup (by simp [hs])).1 stage
  | receive c i bytes =>
    obtain ⟨op, -, -, -, -, rfl⟩ := World.receive_inv hstep
    exact h.inner rfl
  | readFails c i err =>
    obtain ⟨op, -, -, rfl⟩ := World.readFails_inv hstep
    exact h.inner rfl
  | runRead c i v =>
    obtain ⟨op, result, hop, -, rfl⟩ := World.runRead_inv hstep
    obtain ⟨-, -, hpoint⟩ := hw.beforeRead hop
    -- nothing is read before the connection is established
    have hs : (w.conns c).setup = none := by
      by_contra hs
      rw [((hw.conn c).setup hs).2] at hop
      simp at hop
    have hc := hw.created_of_reads hop
    have h₁ : Working L c (w.modConn c fun k => { k with reads := k.reads.eraseIdx i }) :=
      Working.inner ⟨h, hc, h.opened_of_setup hc hs⟩ rfl
    exact (h₁.finishRead hL hw.queues op hpoint result v).slots
  | writeDone c i result =>
    obtain ⟨op, -, -, -, rfl⟩ := World.writeDone_inv hstep
    exact h.inner rfl
  | runWrite c i v =>
    obtain ⟨op, result, hop, -, rfl⟩ := World.runWrite_inv hstep
    -- nor is anything written before its future is settled
    have ho : (w.pool.opened c).outcome ≠ none := by
      intro ho
      rw [((hw.conn c).opening ho).2.2] at hop
      simp at hop
    have h₁ : Working L c (w.modConn c fun k => { k with writes := k.writes.eraseIdx i }) :=
      Working.inner ⟨h, hw.created_of_writes hop, ho⟩ rfl
    exact (h₁.finishWrite hL result v).slots
  | expire c i =>
    obtain ⟨t, -, -, rfl⟩ := World.expire_inv hstep
    exact h.inner rfl
  | runWait c i v =>
    obtain ⟨t, ht, -, rfl⟩ := World.runWait_inv hstep
    simp only [World.finishWait]
    split
    · -- a timer of a connection on its way runs as well: the condition rules that out
      rename_i hexp
      have h₁ : Working L c (w.modConn c fun k => { k with waits := k.waits.eraseIdx i }) :=
        Working.inner ⟨h, hw.created_of_waits ht, hok (by simp [World.expires, ht, hexp])⟩ rfl
      have h₂ : Working L c ((w.modConn c fun k =>
          { k with waits := k.waits.eraseIdx i }).cancelTimer c) := h₁.inner rfl
      exact ((h₂.close hL).failResponse hL c _ v).slots
    · exact h.inner rfl

theorem init (eraseEnd : List (Option FutId) → List (Option FutId)) (tls limit : Bool) (max : Nat)
    (hlimit : L (World.init eraseEnd tls limit max).pool) :
    Slots L none (World.init eraseEnd tls limit max) where
  entries := Pool.Entries.empty.of_eq rfl rfl rfl
  entry_iff c := by simp [World.init]
  pending c hc := absurd hc (Nat.not_lt_zero _)
  waiting q hq := absurd hq (Nat.not_lt_zero _)
  fresh c _ := ⟨rfl, by simp [World.init]⟩
  limit := hlimit

/-! ## What the invariant says -/

theorem openCount_le (h : Slots L none w) : w.openCount ≤ w.pool.connections.length := by
  rw [World.openCount, List.countP_eq_length_filter, ← List.length_map some]
  refine (List.subperm_of_subset (List.nodup_range.filter _ |>.map fun _ _ => Option.some.inj)
    ?_).length_le
  intro e he
  obtain ⟨c, hc, rfl⟩ := List.mem_map.mp he
  simp only [List.mem_filter, List.mem_range, Bool.not_eq_true'] at hc
  exact (h.entry_iff c).mpr hc

theorem slotAccounting {max : Nat} (h : Slots (Pool.Bounded max) none w) :
    SlotAccounting max w where
  openOnce c hc hopen :=
    List.count_eq_one_of_mem h.entries.nodup ((h.entry_iff c).mpr ⟨hc, hopen⟩)
  noneClosed e he := by
    obtain ⟨c, -, rfl⟩ := h.entries.made e he
    exact ⟨c, rfl, (h.entry_iff c).mp he⟩
  bounded := Nat.le_trans h.openCount_le h.limit.2.2

theorem notStranded (h : Slots Pool.Occupied none w) : NotStranded w where
  opened f hf ho := ⟨(h.pending f hf ho).2 (by simp), (h.pending f hf ho).1⟩
  queued q hq ho := by
    have hmem := h.waiting q hq ho
    refine ⟨hmem, ?_⟩
    obtain ⟨e, he⟩ := List.exists_mem_of_ne_nil _ (h.limit.2 (List.ne_nil_of_mem hmem))
    obtain ⟨c, -, rfl⟩ := h.entries.made e he
    exact ⟨c, he, ((h.entry_iff c).mp he).2⟩

end Slots

end handlers

/-! ## Runs -/

/-- **The accounting is right** in every run in which no attempt to connect fails
and the limit, which is on, stays as it is. -/
theorem slotAccounting_of_run {eraseEnd : List (Option FutId) → List (Option FutId)} {tls : Bool}
    {max : Nat} {w : World}
    (run : Run World.step establishesFixed (World.init eraseEnd tls true max) w) :
    SlotAccounting max w := by
  have hinv : Exclusive w ∧ Slots (Pool.Bounded max) none w := by
    refine run.invariant (P := fun u => Exclusive u ∧ Slots (Pool.Bounded max) none u)
      ⟨Exclusive.init eraseEnd tls true max, Slots.init eraseEnd tls true max ?_⟩ ?_
    · exact ⟨rfl, rfl, Nat.zero_le _⟩
    · rintro t u e ⟨hx, hs⟩ ⟨hok, hfixed⟩ hstep
      refine ⟨hx.step hstep, hs.step (Pool.bounded_kept max) hx hok ?_ ?_ hstep⟩
      · rintro n rfl
        cases hfixed
      · rintro b rfl
        cases hfixed
  exact hinv.2.slotAccounting

/-- One slot: the connection that breaks frees it, and the retry gets it. -/
theorem slotAccounting_retriedRequest :
    ∃ w, exec (guarded World.step establishesFixed) (World.init id false true 1) retriedRequest =
        some w ∧
      w.pool.created = 2 ∧ w.pool.connections = [some 1] ∧ SlotAccounting 1 w := by
  have hvals : (exec (guarded World.step establishesFixed) (World.init id false true 1)
      retriedRequest).map (fun w => (w.pool.created, w.pool.connections)) =
      some (2, [some 1]) := by decide
  obtain ⟨w, hw, hvals⟩ := Option.map_eq_some_iff.mp hvals
  obtain ⟨hcreated, hconn⟩ := Prod.mk.inj hvals
  exact ⟨w, hw, hcreated, hconn, slotAccounting_of_run (Run.of_guarded retriedRequest hw)⟩

/-- Two connections are on their way, and resolving fails for `c`. -/
def failedAttempt (c : ConnId) : List Event :=
  [.next, .next, .setupDone c (.error (ascii "Host not found")), .runSetup c]

/-- **No `erase(end())` gets the accounting right**: it is given the same vector
whichever of the two attempts failed. -/
theorem slotAccounting_failedAttempt :
    ¬ ∃ eraseEnd, ∀ c ∈ [0, 1], ∀ w,
      exec World.step (World.init eraseEnd false true 2) (failedAttempt c) = some w →
        SlotAccounting 2 w := by
  rintro ⟨eraseEnd, h⟩
  have hvals : ∀ c ∈ [0, 1], (exec World.step (World.init eraseEnd false true 2)
      (failedAttempt c)).map (fun w => (w.pool.connections, w.pool.created, (w.conns c).closed,
        (w.conns (1 - c)).closed)) = some (eraseEnd [some 0, some 1], 2, true, false) := by
    intro c hc
    simp only [List.mem_cons, List.not_mem_nil, or_false] at hc
    rcases hc with rfl | rfl <;> rfl
  -- the failed one has no entry, the other one has
  have hentry : ∀ c ∈ [0, 1], some c ∉ eraseEnd [some 0, some 1] ∧
      some (1 - c) ∈ eraseEnd [some 0, some 1] := by
    intro c hc
    obtain ⟨w, hw, hvals⟩ := Option.map_eq_some_iff.mp (hvals c hc)
    simp only [Prod.mk.injEq] at hvals
    obtain ⟨hconn, hcreated, hclosed, hopen⟩ := hvals
    have hacc := h c hc w hw
    rw [← hconn]
    constructor
    · intro hm
      obtain ⟨d, hd, -, hdopen⟩ := hacc.noneClosed _ hm
      cases hd
      rw [hclosed] at hdopen
      cases hdopen
    · refine List.count_pos_iff.mp ?_
      rw [hacc.openOnce (1 - c) (hcreated ▸ by omega) hopen]
      exact Nat.one_pos
  exact (hentry 0 (by simp)).1 (hentry 1 (by simp)).2

/-- **Nobody is stranded** in any run in which no attempt to connect fails and
`max_connections_` is positive. -/
theorem notStranded_of_run {eraseEnd : List (Option FutId) → List (Option FutId)}
    {tls limit : Bool} {max : Nat} (hmax : 0 < max) {w : World}
    (run : Run World.step establishesPositive (World.init eraseEnd tls limit max) w) :
    NotStranded w := by
  have hinv : Exclusive w ∧ Slots Pool.Occupied none w := by
    refine run.invariant (P := fun u => Exclusive u ∧ Slots Pool.Occupied none u)
      ⟨Exclusive.init eraseEnd tls limit max, Slots.init eraseEnd tls limit max ?_⟩ ?_
    · exact ⟨hmax, fun hn => absurd rfl hn⟩
    · rintro t u e ⟨hx, hs⟩ ⟨hok, hpositive⟩ hstep
      refine ⟨hx.step hstep, hs.step Pool.occupied_kept hx hok ?_ ?_ hstep⟩
      · rintro n rfl
        exact ⟨hpositive, hs.limit.2⟩
      · rintro b rfl
        exact hs.limit
  exact hinv.2.notStranded

/-- Two requests and one slot: the second waits while the connection is open. -/
theorem notStranded_sharedConnection :
    ∃ w, exec (guarded World.step establishesPositive) (World.init id false true 1)
        (sharedConnection.take 5) = some w ∧
      w.pool.next_ = [0] ∧ NotStranded w := by
  have hnext : (exec (guarded World.step establishesPositive) (World.init id false true 1)
      (sharedConnection.take 5)).map (fun w => w.pool.next_) = some [0] := by decide
  obtain ⟨w, hw, hnext⟩ := Option.map_eq_some_iff.mp hnext
  exact ⟨w, hw, hnext,
    notStranded_of_run Nat.one_pos (Run.of_guarded (sharedConnection.take 5) hw)⟩

/-- A request whose host cannot be resolved. -/
def failedResolve : List Event :=
  [.request getRequest 30000, .setupDone 0 (.error (ascii "Host not found")), .runSetup 0]

/-- **A failed attempt strands its request**, whatever `erase(end())` does: its
future is pending for ever, on a connection that is closed. -/
theorem notStranded_failedResolve :
    ¬ ∃ eraseEnd, ∀ w,
      exec World.step (World.init eraseEnd false true 8) failedResolve = some w →
        NotStranded w := by
  rintro ⟨eraseEnd, h⟩
  have hvals : (exec World.step (World.init eraseEnd false true 8) failedResolve).map
      (fun w => (w.pool.created, (w.pool.opened 0).outcome, (w.conns 0).closed)) =
      some (1, none, true) := rfl
  obtain ⟨w, hw, hvals⟩ := Option.map_eq_some_iff.mp hvals
  simp only [Prod.mk.injEq] at hvals
  obtain ⟨hcreated, hpending, hclosed⟩ := hvals
  have hopen := ((h w hw).opened 0 (hcreated ▸ Nat.one_pos) hpending).2
  rw [hclosed] at hopen
  cases hopen

end AsioProtocols
