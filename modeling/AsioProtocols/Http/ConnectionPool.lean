import Mathlib.Logic.Function.Basic
import AsioProtocols.Base.Future
import AsioProtocols.Base.Vector

/-!
# `net::http::connection_pool`

The pool of connections to one endpoint (`http/connection_pool.h`): the vector
`connections_` of connection futures, the queue `available_` of idle
connections, the queue `next_` of requests that wait for one.

Connections are numbered in the order `connect()` makes them, and the future
`connect()` makes along with connection `n` has the same number: `opened n` is
that future, settled with the connection by the success callback of
`connection::request`. The futures `next()` makes for queued requests are
numbered apart (`queued`). Callbacks are data (`Base/Future.lean`): what a
caller of `next()` hangs on its future is a `ClientTask`; the pool's own
`on_done` in `remove()`, which releases a replacement connection, is
`OpenTask.release` and only ever sits on futures made by `connect()`.

`connections_.erase(std::remove_if(..))` is the one-iterator `erase` of
`Base/Vector.lean`; what it does at the end iterator is the parameter
`eraseEnd`, about which nothing is assumed. `valid c` stands for the test of an
entry of `available_`: the weak pointer locks and `is_valid()` holds.
-/

namespace AsioProtocols

abbrev ConnId := Nat
abbrev FutId := Nat
abbrev QueueId := Nat
abbrev RespId := Nat

/-- What the caller of `next()` does when its future is done: the client writes
the request of a response (`client.h`, lines 73 and 103), any other caller keeps
the connection. -/
inductive ClientTask
  | writeRequest (r : RespId)
  | hold
  deriving DecidableEq, Repr

/-- Callbacks on a future made by `connect()`. -/
inductive OpenTask
  | client (t : ClientTask)
  | release
  deriving DecidableEq, Repr

/-- The state of a `connection_pool`. -/
structure Pool where
  limitConnections : Bool := true
  maxConnections : Nat := 8
  connections : List (Option FutId) := []
  available : List ConnId := []
  next_ : List QueueId := []
  /-- How many connections `connect()` has made. -/
  created : Nat := 0
  opened : FutId → Future ConnId OpenTask := fun _ => {}
  queued : QueueId → Future ConnId ClientTask := fun _ => {}
  /-- How many futures `next()` has made for queued requests. -/
  nqueued : Nat := 0

/-- The future returned by `next()`: already done with an available connection,
that of a new connection, or that of a queued request. -/
inductive NextFuture
  | ready (c : ConnId)
  | opened (f : FutId)
  | queued (q : QueueId)
  deriving DecidableEq, Repr

namespace Pool

/-- `!limit_connections_ || connections_.size() < max_connections_` -/
def canConnect (p : Pool) : Bool :=
  !p.limitConnections || p.connections.length < p.maxConnections

/-- `connect()`: a new connection, on its way, and its future. -/
def connect (p : Pool) : Pool × FutId :=
  ({ p with created := p.created + 1
            opened := Function.update p.opened p.created {} }, p.created)

/-- `next()` -/
def next (valid : ConnId → Bool) (p : Pool) : Pool × NextFuture :=
  match p.available.dropWhile (fun c => !valid c) with
  | c :: rest => ({ p with available := rest }, .ready c)
  | [] =>
    -- the loop has popped every invalid connection
    let p := { p with available := [] }
    if p.canConnect then
      let (p, f) := p.connect
      ({ p with connections := p.connections ++ [some f] }, .opened f)
    else
      ({ p with next_ := p.next_ ++ [p.nqueued]
                nqueued := p.nqueued + 1
                queued := Function.update p.queued p.nqueued {} }, .queued p.nqueued)

/-- `release(conn)`: the connection becomes available, or the front of `next_`
is popped and gets it. -/
def release (p : Pool) (c : ConnId) : Pool × Option QueueId :=
  match p.next_ with
  | [] => ({ p with available := p.available ++ [c] }, none)
  | q :: rest => ({ p with next_ := rest }, some q)

/-- The predicate of the `remove_if` in `remove(conn)`. -/
def dead (p : Pool) (c : ConnId) : Option FutId → Bool
  | none => true
  | some f =>
    match (p.opened f).outcome with
    | some (.failed _) => true
    | some .cancelled => true
    | some (.done d) => d == c
    -- still connecting: the entry stays, also when `c` is the one that gave up
    | none => false

/-- `remove(conn)` up to the test of `next_`: the erase, and the invalid front
of `available_`. -/
def prune (eraseEnd : List (Option FutId) → List (Option FutId)) (valid : ConnId → Bool)
    (p : Pool) (c : ConnId) : Pool :=
  { p with connections := eraseAt eraseEnd (removeIf (p.dead c) none p.connections)
           available := p.available.dropWhile (fun c => !valid c) }

/-- The replacement connection of `remove()`, with the hook that releases it. -/
def replace (p : Pool) : Pool :=
  let (p, f) := p.connect
  { p with connections := p.connections ++ [some f]
           opened := Function.update p.opened f ((p.opened f).attach .release) }

/-- `remove(conn)` -/
def remove (eraseEnd : List (Option FutId) → List (Option FutId)) (valid : ConnId → Bool)
    (p : Pool) (c : ConnId) : Pool :=
  let p := p.prune eraseEnd valid c
  if p.next_ = [] then p
  else if p.canConnect then p.replace
  else p

/-! ## What the three operations can do -/

theorem dropWhile_eq_cons_valid {valid : ConnId → Bool} {l rest : List ConnId} {c : ConnId}
    (h : l.dropWhile (fun c => !valid c) = c :: rest) : valid c = true := by
  have := List.head_dropWhile_not (fun c => !valid c)
    (show l.dropWhile (fun c => !valid c) ≠ [] by rw [h]; exact List.cons_ne_nil _ _)
  simpa [h] using this

/-- `next()` hands out an available connection, opens a new one, or queues. -/
theorem next_cases (valid : ConnId → Bool) (p : Pool) :
    (∃ c rest, p.available.dropWhile (fun c => !valid c) = c :: rest ∧ valid c = true ∧
      p.next valid = ({ p with available := rest }, .ready c)) ∨
    (p.available.dropWhile (fun c => !valid c) = [] ∧ p.canConnect = true ∧
      p.next valid =
        ({ p with available := []
                  created := p.created + 1
                  opened := Function.update p.opened p.created {}
                  connections := p.connections ++ [some p.created] }, .opened p.created)) ∨
    (p.available.dropWhile (fun c => !valid c) = [] ∧ p.canConnect = false ∧
      p.next valid =
        ({ p with available := []
                  next_ := p.next_ ++ [p.nqueued]
                  nqueued := p.nqueued + 1
                  queued := Function.update p.queued p.nqueued {} }, .queued p.nqueued)) := by
  rcases hd : p.available.dropWhile (fun c => !valid c) with _ | ⟨c, rest⟩
  · right
    by_cases hc : p.canConnect = true
    · have hc' : ({ p with available := [] } : Pool).canConnect = true := hc
      exact .inl ⟨rfl, hc, by simp only [next, hd, connect, hc', if_true]⟩
    · have hc' : ({ p with available := [] } : Pool).canConnect = false :=
        Bool.eq_false_iff.mpr hc
      exact .inr ⟨rfl, hc', by simp [next, hd, hc']⟩
  · exact .inl ⟨c, rest, rfl, dropWhile_eq_cons_valid hd, by simp only [next, hd]⟩

/-- `release()` makes the connection available, or pops the front request. -/
theorem release_cases (p : Pool) (c : ConnId) :
    (p.next_ = [] ∧ p.release c = ({ p with available := p.available ++ [c] }, none)) ∨
    (∃ q rest, p.next_ = q :: rest ∧ p.release c = ({ p with next_ := rest }, some q)) := by
  rcases hn : p.next_ with _ | ⟨q, rest⟩
  · exact .inl ⟨rfl, by simp only [release, hn]⟩
  · exact .inr ⟨q, rest, rfl, by simp only [release, hn]⟩

/-- `remove()` prunes, and starts a replacement when a request waits and the
limit allows it. -/
theorem remove_cases (eraseEnd : List (Option FutId) → List (Option FutId))
    (valid : ConnId → Bool) (p : Pool) (c : ConnId) :
    (p.remove eraseEnd valid c = p.prune eraseEnd valid c ∧
      (p.next_ = [] ∨ (p.prune eraseEnd valid c).canConnect = false)) ∨
    (p.remove eraseEnd valid c = (p.prune eraseEnd valid c).replace ∧
      p.next_ ≠ [] ∧ (p.prune eraseEnd valid c).canConnect = true) := by
  by_cases hn : p.next_ = []
  · left
    refine ⟨?_, .inl hn⟩
    have hn' : (p.prune eraseEnd valid c).next_ = [] := hn
    simp only [remove, hn', if_true]
  · have hn' : (p.prune eraseEnd valid c).next_ ≠ [] := hn
    by_cases hc : (p.prune eraseEnd valid c).canConnect = true
    · right
      exact ⟨by simp only [remove, hn', if_false, hc, if_true], hn, hc⟩
    · left
      rw [Bool.not_eq_true] at hc
      exact ⟨by simp [remove, hn', hc], .inr hc⟩

/-! ## What they leave alone -/

section frame

variable (eraseEnd : List (Option FutId) → List (Option FutId)) (valid : ConnId → Bool)
  (p : Pool) (c : ConnId)

@[simp] theorem prune_next_ : (p.prune eraseEnd valid c).next_ = p.next_ := rfl
@[simp] theorem prune_created : (p.prune eraseEnd valid c).created = p.created := rfl
@[simp] theorem prune_opened : (p.prune eraseEnd valid c).opened = p.opened := rfl
@[simp] theorem prune_queued : (p.prune eraseEnd valid c).queued = p.queued := rfl
@[simp] theorem prune_nqueued : (p.prune eraseEnd valid c).nqueued = p.nqueued := rfl
@[simp] theorem prune_limitConnections :
    (p.prune eraseEnd valid c).limitConnections = p.limitConnections := rfl
@[simp] theorem prune_maxConnections :
    (p.prune eraseEnd valid c).maxConnections = p.maxConnections := rfl
@[simp] theorem prune_available :
    (p.prune eraseEnd valid c).available = p.available.dropWhile (fun c => !valid c) := rfl

@[simp] theorem replace_next_ : p.replace.next_ = p.next_ := rfl
@[simp] theorem replace_created : p.replace.created = p.created + 1 := rfl
@[simp] theorem replace_queued : p.replace.queued = p.queued := rfl
@[simp] theorem replace_nqueued : p.replace.nqueued = p.nqueued := rfl
@[simp] theorem replace_available : p.replace.available = p.available := rfl
@[simp] theorem replace_limitConnections : p.replace.limitConnections = p.limitConnections := rfl
@[simp] theorem replace_maxConnections : p.replace.maxConnections = p.maxConnections := rfl
@[simp] theorem replace_connections :
    p.replace.connections = p.connections ++ [some p.created] := rfl
@[simp] theorem replace_opened :
    p.replace.opened = Function.update p.opened p.created { tasks := [.release] } := by
  funext f
  by_cases h : f = p.created
  · subst h
    simp [replace, connect, Future.attach]
  · simp [replace, connect, h]

theorem remove_next_ : (p.remove eraseEnd valid c).next_ = p.next_ := by
  rcases remove_cases eraseEnd valid p c with ⟨h, -⟩ | ⟨h, -, -⟩ <;> simp [h]

theorem remove_queued : (p.remove eraseEnd valid c).queued = p.queued := by
  rcases remove_cases eraseEnd valid p c with ⟨h, -⟩ | ⟨h, -, -⟩ <;> simp [h]

theorem remove_nqueued : (p.remove eraseEnd valid c).nqueued = p.nqueued := by
  rcases remove_cases eraseEnd valid p c with ⟨h, -⟩ | ⟨h, -, -⟩ <;> simp [h]

theorem remove_available :
    (p.remove eraseEnd valid c).available = p.available.dropWhile (fun c => !valid c) := by
  rcases remove_cases eraseEnd valid p c with ⟨h, -⟩ | ⟨h, -, -⟩ <;> simp [h]

end frame

end Pool

end AsioProtocols
