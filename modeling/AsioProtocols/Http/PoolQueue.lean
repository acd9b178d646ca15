import Mathlib.Data.List.Nodup
import AsioProtocols.Base.Machine
import AsioProtocols.Http.ConnectionPool

/-!
# The queue discipline of the pool

The pool by itself, under any sequence of `next()`, `release(conn)` and
`remove(conn)`, with its connections established and invalidated by an
environment that does so whenever it likes. `grants` is a history variable: what
each call of `next()` was given, and which queued request each popped connection
went to.

`remove(conn)` may well be called for a connection whose entry is not found, and
then `erase` gets the end iterator. Of the vector the discipline needs the size
only, and that each `remove` makes it one shorter, at most: if that opens a slot
while requests wait, the replacement takes the slot again.
-/

namespace AsioProtocols

/-! ## The pool and its environment -/

/-- What the pool grants: `next()` gave an available connection, opened a new
one or queued the request; `release()` gave a connection to a queued request. -/
inductive Grant
  | available (c : ConnId)
  | opening (f : FutId)
  | queue (q : QueueId)
  | serve (q : QueueId) (c : ConnId)
  deriving DecidableEq, Repr

/-- The requests queued, in order. -/
def queuedIds (grants : List Grant) : List QueueId :=
  grants.filterMap fun
    | .queue q => some q
    | _ => none

/-- The queued requests given a connection, in order. -/
def servedIds (grants : List Grant) : List QueueId :=
  grants.filterMap fun
    | .serve q _ => some q
    | _ => none

/-- A call of `next()` was given a connection, an existing or a new one. -/
def Grant.direct : Grant → Bool
  | .available _ => true
  | .opening _ => true
  | _ => false

/-- The pool, which of its connections are valid, and the grants so far. -/
structure PoolState where
  pool : Pool
  valid : ConnId → Bool := fun _ => true
  grants : List Grant := []

/-- The three operations, and what the environment does: `established c` is the
success callback of `c`'s connection attempt, `invalidate c` ends `is_valid()`
(or the last reference) of `c`. -/
inductive PoolOp
  | next
  | release (c : ConnId)
  | remove (c : ConnId)
  | established (c : ConnId)
  | invalidate (c : ConnId)
  deriving DecidableEq, Repr

namespace PoolState

/-- An empty pool with the limit on and `max_connections_ = max`. -/
def init (max : Nat) : PoolState := { pool := { limitConnections := true, maxConnections := max } }

/-- The grant that a result of `next()` amounts to. -/
def grantOf : NextFuture → Grant
  | .ready c => .available c
  | .opened f => .opening f
  | .queued q => .queue q

/-- `next()` -/
def next (s : PoolState) : PoolState :=
  { s with pool := (s.pool.next s.valid).1
           grants := s.grants ++ [grantOf (s.pool.next s.valid).2] }

/-- `release(conn)`, with the popped callback settling its future. -/
def release (s : PoolState) (c : ConnId) : PoolState :=
  match s.pool.release c with
  | (p, none) => { s with pool := p }
  | (p, some q) =>
    let served := match (p.queued q).settle (.done c) with
      | some (f, _) => { p with queued := Function.update p.queued q f }
      | none => p
    { s with pool := served, grants := s.grants ++ [.serve q c] }

/-- The future of connection `c` is done; the hook of `remove()`, if this is a
replacement, releases it. -/
def established (s : PoolState) (c : ConnId) : Option PoolState :=
  match (s.pool.opened c).settle (.done c) with
  | none => none
  | some (f, tasks) =>
    let s := { s with pool := { s.pool with opened := Function.update s.pool.opened c f } }
    some (tasks.foldl (fun s t => match t with
      | .release => s.release c
      | .client _ => s) s)

/-- One operation on the pool; `release`, `remove` and the environment speak of
connections the pool has made. -/
def step (eraseEnd : List (Option FutId) → List (Option FutId)) (s : PoolState) :
    PoolOp → Option PoolState
  | .next => some s.next
  | .release c => if c < s.pool.created then some (s.release c) else none
  | .remove c =>
    if c < s.pool.created then
      some { s with pool := s.pool.remove eraseEnd s.valid c }
    else none
  | .established c => if c < s.pool.created then s.established c else none
  | .invalidate c => some { s with valid := Function.update s.valid c false }

end PoolState

/-- **The discipline**: never both queues non-empty, requests wait only while
the vector is full, queued requests are served at most once and in order, and
`next()` gives no connection past a request that is still queued. -/
structure QueueDiscipline (s : PoolState) : Prop where
  oneEmpty : s.pool.available = [] ∨ s.pool.next_ = []
  full : s.pool.next_ ≠ [] → s.pool.maxConnections ≤ s.pool.connections.length
  fifo : queuedIds s.grants = servedIds s.grants ++ s.pool.next_
  once : (queuedIds s.grants).Nodup
  noOvertaking : ∀ before g after, s.grants = before ++ g :: after → g.direct = true →
    queuedIds before = servedIds before

/-! ## Step lemmas -/

@[simp] theorem queuedIds_snoc_queue (gs : List Grant) (q : QueueId) :
    queuedIds (gs ++ [.queue q]) = queuedIds gs ++ [q] := by simp [queuedIds]

@[simp] theorem servedIds_snoc_queue (gs : List Grant) (q : QueueId) :
    servedIds (gs ++ [.queue q]) = servedIds gs := by simp [servedIds]

@[simp] theorem queuedIds_snoc_serve (gs : List Grant) (q : QueueId) (c : ConnId) :
    queuedIds (gs ++ [.serve q c]) = queuedIds gs := by simp [queuedIds]

@[simp] theorem servedIds_snoc_serve (gs : List Grant) (q : QueueId) (c : ConnId) :
    servedIds (gs ++ [.serve q c]) = servedIds gs ++ [q] := by simp [servedIds]

theorem ids_snoc_direct {g : Grant} (hg : g.direct = true) (gs : List Grant) :
    queuedIds (gs ++ [g]) = queuedIds gs ∧ servedIds (gs ++ [g]) = servedIds gs := by
  cases g with
  | available c => simp [queuedIds, servedIds]
  | opening f => simp [queuedIds, servedIds]
  | queue q => cases hg
  | serve q c => cases hg

/-- No-overtaking survives one more grant, provided nobody waits when the grant
is a direct one. -/
theorem noOvertaking_snoc {gs : List Grant} {new : Grant}
    (h : ∀ before g after, gs = before ++ g :: after → g.direct = true →
      queuedIds before = servedIds before)
    (hnew : new.direct = true → queuedIds gs = servedIds gs) :
    ∀ before g after, gs ++ [new] = before ++ g :: after → g.direct = true →
      queuedIds before = servedIds before := by
  intro before g after heq hg
  rcases List.eq_nil_or_concat after with rfl | ⟨after', last, rfl⟩
  · obtain ⟨rfl, hlast⟩ := List.append_inj' heq rfl
    cases hlast
    exact hnew hg
  · rw [List.concat_eq_append] at heq
    have heq' : gs ++ [new] = (before ++ g :: after') ++ [last] := by simpa using heq
    exact h before g after' (List.append_inj' heq' rfl).1 hg

/-- The discipline, with what else the operations keep. -/
structure QueueInv (s : PoolState) : Prop where
  discipline : QueueDiscipline s
  limit : s.pool.limitConnections = true
  numbered : ∀ q ∈ queuedIds s.grants, q < s.pool.nqueued

theorem queueInv_init (max : Nat) : QueueInv (PoolState.init max) where
  discipline :=
    { oneEmpty := .inl rfl
      full := fun h => absurd rfl h
      fifo := rfl
      once := List.nodup_nil
      noOvertaking := fun before g after h => by
        have hlen := congrArg List.length h
        simp [PoolState.init] at hlen }
  limit := rfl
  numbered := fun _ h => absurd h List.not_mem_nil

/-- The futures and which connections are valid do not matter to the invariant. -/
theorem QueueInv.of_eq {s : PoolState} (h : QueueInv s)
    {opened : FutId → Future ConnId OpenTask} {valid : ConnId → Bool} :
    QueueInv { s with pool := { s.pool with opened }, valid } where
  discipline :=
    { oneEmpty := h.discipline.oneEmpty
      full := h.discipline.full
      fifo := h.discipline.fifo
      once := h.discipline.once
      noOvertaking := h.discipline.noOvertaking }
  limit := h.limit
  numbered := h.numbered

/-- A queue that nobody waits in has served everyone it queued. -/
theorem QueueDiscipline.served_of_next_nil {s : PoolState} (h : QueueDiscipline s)
    (hn : s.pool.next_ = []) : queuedIds s.grants = servedIds s.grants := by
  rw [h.fifo, hn, List.append_nil]

/-- While a request waits, the vector is full: no new connection. -/
theorem QueueInv.next_nil_of_canConnect {s : PoolState} (h : QueueInv s)
    (hc : s.pool.canConnect = true) : s.pool.next_ = [] := by
  by_contra hn
  have hfull := h.discipline.full hn
  have hlt : s.pool.connections.length < s.pool.maxConnections := by
    simpa [Pool.canConnect, h.limit] using hc
  omega

/-- While nobody waits, a request gets its connection at once. -/
theorem QueueInv.direct {s : PoolState} (h : QueueInv s) (hn : s.pool.next_ = []) {g : Grant}
    (hg : g.direct = true) {p : Pool} (hp : p.next_ = s.pool.next_)
    (hl : p.limitConnections = s.pool.limitConnections) (hq : p.nqueued = s.pool.nqueued) :
    QueueInv { s with pool := p, grants := s.grants ++ [g] } := by
  have hd := h.discipline
  have hempty : p.next_ = [] := hp.trans hn
  have hserved := hd.served_of_next_nil hn
  obtain ⟨hqueued, hsame⟩ := ids_snoc_direct hg s.grants
  exact
    { discipline :=
        { oneEmpty := .inr hempty
          full := fun hne => absurd hempty hne
          fifo := by
            show queuedIds (s.grants ++ [g]) = servedIds (s.grants ++ [g]) ++ p.next_
            rw [hqueued, hsame, hempty, List.append_nil, hserved]
          once := hqueued.symm ▸ hd.once
          noOvertaking := noOvertaking_snoc hd.noOvertaking fun _ => hserved }
      limit := hl.trans h.limit
      numbered := by
        intro q hmem
        show q < p.nqueued
        rw [hq]
        exact h.numbered q (hqueued ▸ hmem) }

theorem QueueInv.next {s : PoolState} (h : QueueInv s) : QueueInv s.next := by
  have hd := h.discipline
  rcases Pool.next_cases s.valid s.pool with
    ⟨c, rest, hdrop, -, heq⟩ | ⟨-, hcan, heq⟩ | ⟨hdrop, hcan, heq⟩
  · -- an available connection: somebody is available, so nobody waits
    have hne : s.pool.available ≠ [] := by
      intro hnil
      rw [hnil] at hdrop
      cases hdrop
    have hn : s.pool.next_ = [] := hd.oneEmpty.resolve_left hne
    simp only [PoolState.next, heq, PoolState.grantOf]
    exact h.direct hn rfl rfl rfl rfl
  · -- a new connection: there is a free slot, so nobody waits
    have hn : s.pool.next_ = [] := h.next_nil_of_canConnect hcan
    simp only [PoolState.next, heq, PoolState.grantOf]
    exact h.direct hn rfl rfl rfl rfl
  · -- queued: nothing valid is available and the vector is full
    have hfull : s.pool.maxConnections ≤ s.pool.connections.length := by
      simpa [Pool.canConnect, h.limit] using hcan
    have hnew : s.pool.nqueued ∉ queuedIds s.grants :=
      fun hmem => Nat.lt_irrefl _ (h.numbered _ hmem)
    simp only [PoolState.next, heq, PoolState.grantOf]
    exact
      { discipline :=
          { oneEmpty := .inl rfl
            full := fun _ => hfull
            fifo := by simp [hd.fifo]
            once := by
              rw [queuedIds_snoc_queue]
              exact hd.once.append (List.nodup_singleton _)
                (List.disjoint_singleton.mpr hnew)
            noOvertaking := noOvertaking_snoc hd.noOvertaking fun hdir => by cases hdir }
        limit := h.limit
        numbered := by
          intro q hq
          rw [queuedIds_snoc_queue] at hq
          rcases List.mem_append.mp hq with hq | hq
          · exact Nat.lt_succ_of_lt (h.numbered q hq)
          · rw [List.mem_singleton.mp hq]
            exact Nat.lt_succ_self _ }

/-- The front request is served; which futures are settled by it does not matter. -/
theorem QueueInv.serve {s : PoolState} (h : QueueInv s) {q : QueueId} {rest : List QueueId}
    (hn : s.pool.next_ = q :: rest) (c : ConnId) {p : Pool} (hrest : p.next_ = rest)
    (havailable : p.available = s.pool.available)
    (hconnections : p.connections = s.pool.connections)
    (hmax : p.maxConnections = s.pool.maxConnections)
    (hl : p.limitConnections = s.pool.limitConnections) (hq : p.nqueued = s.pool.nqueued) :
    QueueInv { s with pool := p, grants := s.grants ++ [.serve q c] } := by
  have hd := h.discipline
  have hne : s.pool.next_ ≠ [] := by
    rw [hn]
    exact List.cons_ne_nil _ _
  have hfifo : queuedIds s.grants = (servedIds s.grants ++ [q]) ++ rest := by
    rw [hd.fifo, hn, List.append_assoc]
    rfl
  exact
    { discipline :=
        { oneEmpty := .inl (havailable.trans (hd.oneEmpty.resolve_right hne))
          full := by
            intro _
            show p.maxConnections ≤ p.connections.length
            rw [hmax, hconnections]
            exact hd.full hne
          fifo := by simpa [hrest] using hfifo
          once := by simpa using hd.once
          noOvertaking := noOvertaking_snoc hd.noOvertaking fun hdir => by cases hdir }
      limit := hl.trans h.limit
      numbered := by
        intro q' hq'
        rw [queuedIds_snoc_serve] at hq'
        show q' < p.nqueued
        rw [hq]
        exact h.numbered q' hq' }

theorem QueueInv.release {s : PoolState} (h : QueueInv s) (c : ConnId) :
    QueueInv (s.release c) := by
  have hd := h.discipline
  rcases Pool.release_cases s.pool c with ⟨hn, heq⟩ | ⟨q, rest, hn, heq⟩
  · -- nobody waits: the connection becomes available
    simp only [PoolState.release, heq]
    exact
      { discipline :=
          { oneEmpty := .inr hn
            full := hd.full
            fifo := hd.fifo
            once := hd.once
            noOvertaking := hd.noOvertaking }
        limit := h.limit
        numbered := h.numbered }
  · -- the front request is served; settling its future touches no queue
    simp only [PoolState.release, heq]
    cases (s.pool.queued q).settle (.done c) with
    | none => exact h.serve hn c rfl rfl rfl rfl rfl rfl
    | some r => exact h.serve hn c rfl rfl rfl rfl rfl rfl

/-- `remove()` frees one slot at most, and takes it again if a request waits. -/
theorem QueueInv.remove {s : PoolState} (h : QueueInv s)
    {eraseEnd : List (Option FutId) → List (Option FutId)} (hend : TakesAtMostOne eraseEnd)
    (c : ConnId) : QueueInv { s with pool := s.pool.remove eraseEnd s.valid c } := by
  have hd := h.discipline
  have hlen : s.pool.connections.length ≤
      (s.pool.prune eraseEnd s.valid c).connections.length + 1 :=
    length_le_eraseAt_removeIf hend (s.pool.dead c) none s.pool.connections
  have hempty : (s.pool.prune eraseEnd s.valid c).available = [] ∨ s.pool.next_ = [] := by
    rcases hd.oneEmpty with ha | hn
    · exact .inl (by simp [ha])
    · exact .inr hn
  rcases Pool.remove_cases eraseEnd s.valid s.pool c with ⟨heq, hwhy⟩ | ⟨heq, hn, hcan⟩
  · rw [heq]
    refine
      { discipline :=
          { oneEmpty := hempty
            full := fun hne => ?_
            fifo := hd.fifo
            once := hd.once
            noOvertaking := hd.noOvertaking }
        limit := h.limit
        numbered := h.numbered }
    have hno := hwhy.resolve_left hne
    simp only [Pool.canConnect, Pool.prune_limitConnections, h.limit] at hno
    exact Nat.not_lt.mp (of_decide_eq_false hno)
  · -- a slot was freed and is taken again by the replacement
    rw [heq]
    have hfull := hd.full hn
    exact
      { discipline :=
          { oneEmpty := hempty
            full := fun _ => by
              simp only [Pool.replace_maxConnections, Pool.replace_connections,
                Pool.prune_maxConnections, List.length_append, List.length_singleton]
              omega
            fifo := hd.fifo
            once := hd.once
            noOvertaking := hd.noOvertaking }
        limit := h.limit
        numbered := h.numbered }

theorem QueueInv.established {s t : PoolState} (h : QueueInv s) {c : ConnId}
    (ht : s.established c = some t) : QueueInv t := by
  rcases hs : (s.pool.opened c).settle (.done c) with _ | ⟨f, tasks⟩
  · simp [PoolState.established, hs] at ht
  obtain ⟨-, rfl, rfl⟩ := Future.settle_eq_some_iff.mp hs
  simp only [PoolState.established, hs, Option.some.injEq] at ht
  rw [← ht]
  -- induction over the callbacks: each leaves the invariant standing
  refine List.foldlRecOn _ _ h.of_eq fun s' ih t _ => ?_
  cases t with
  | release => exact ih.release c
  | client _ => exact ih

theorem QueueInv.step {s t : PoolState} {eraseEnd : List (Option FutId) → List (Option FutId)}
    {op : PoolOp} (h : QueueInv s) (hend : TakesAtMostOne eraseEnd)
    (ht : s.step eraseEnd op = some t) : QueueInv t := by
  cases op with
  | next =>
    cases ht
    exact h.next
  | release c =>
    obtain ⟨-, ht⟩ := Option.ite_none_right_eq_some.mp ht
    cases ht
    exact h.release c
  | remove c =>
    obtain ⟨-, ht⟩ := Option.ite_none_right_eq_some.mp ht
    cases ht
    exact h.remove hend c
  | established c =>
    obtain ⟨-, ht⟩ := Option.ite_none_right_eq_some.mp ht
    exact h.established ht
  | invalidate c =>
    cases ht
    exact h.of_eq

/-- **The queue discipline holds in every run**, for every limit, also where
`remove(conn)` does not find its connection: relied on is only that `erase` takes
out one entry at most, at the end iterator as elsewhere. -/
theorem queueDiscipline_of_run {eraseEnd : List (Option FutId) → List (Option FutId)}
    (hend : TakesAtMostOne eraseEnd) (max : Nat) {s : PoolState}
    (run : Run (PoolState.step eraseEnd) anyEvent (PoolState.init max) s) : QueueDiscipline s :=
  (run.invariant (queueInv_init max) fun h _ ht => h.step hend ht).discipline

/-- Two slots and three requests, and the first connection is removed while it is
still on its way: the entry of the second leaves in its stead, the replacement takes
the slot, and the request that waited gets it. Once the replacement is removed too,
the next request opens a connection of its own. -/
theorem queueDiscipline_failedAttempt :
    ∃ s, exec (PoolState.step List.dropLast) (PoolState.init 2)
        [.next, .next, .next, .remove 0, .established 2, .release 2, .invalidate 2, .remove 2,
          .next] = some s ∧
      s.grants = [.opening 0, .opening 1, .queue 0, .serve 0 2, .opening 3] ∧
      QueueDiscipline s := by
  have hgrants : ((exec (PoolState.step List.dropLast) (PoolState.init 2)
      [.next, .next, .next, .remove 0, .established 2, .release 2, .invalidate 2, .remove 2,
        .next]).map PoolState.grants)
      = some [.opening 0, .opening 1, .queue 0, .serve 0 2, .opening 3] := by decide
  obtain ⟨s, hs, hgrants⟩ := Option.map_eq_some_iff.mp hgrants
  exact ⟨s, hs, hgrants,
    queueDiscipline_of_run takesAtMostOne_dropLast 2 (Run.of_exec (fun _ _ => trivial) _ hs)⟩

end AsioProtocols
