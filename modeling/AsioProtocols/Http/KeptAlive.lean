import Mathlib.Algebra.Order.Ring.Nat
import AsioProtocols.Http.CompletesOnce
import AsioProtocols.Http.Reading

/-!
# Requests on one kept-alive connection

A session: a client that issues the requests of a plan one after the other, and a
server that answers each with the reply the plan has for it, once it has been
written. The socket is read in any portions, at any time; writes complete,
handlers run and cancelled waits are collected in any order; nothing fails, no
stall timer expires, and `on_completion` accepts.

What is to be shown of it is `Framed`: each request that completed has the status,
the headers and the body of its own reply and completed once, and the connection is
back in the pool with nothing left to read. `Session.weight` says how much is left
to do, so that a session comes to an end.

The invariant is `Phase`. The whole work of a reply is in `Http/Reading.lean`; this
module goes as far as issuing a request, and `Http/KeptAliveRuns.lean` has the other
moves and the theorem about runs.
-/

namespace AsioProtocols

open Function

/-! ## Sessions -/

/-- A request with its stall timeout, and what the server answers. -/
structure Exchange where
  request : Request
  stall : Nat
  reply : Reply

/-- The response object of a new request. -/
def Exchange.response (e : Exchange) : Response :=
  { request := e.request, stallTimeout := e.stall }

/-- The client, what its socket holds, and how many requests of the plan have been
issued and answered. -/
structure Session where
  world : World
  wire : Bytes := []
  issued : Nat := 0
  answered : Nat := 0

/-- The next request is issued, the server answers the last one, the socket is
read, or something else happens at the client. -/
inductive Move
  | issue
  | answer
  | deliver (n : Nat)
  | client (e : Event)

/-- What else may happen: nothing fails, and `on_completion` accepts. -/
def Event.calm : Event → Bool
  | .setupDone 0 (.ok _) => true
  | .runSetup 0 => true
  | .writeDone 0 _ (.ok _) => true
  | .runWrite 0 _ _ => true
  | .runRead 0 0 .accept => true
  | .runWait 0 _ _ => true
  | _ => false

namespace Session

/-- The last request issued has completed, if there is one. -/
def idle (s : Session) : Bool :=
  s.issued == 0 || (s.world.completions.completion (s.issued - 1)).isSome

/-- The request to answer next has been written. -/
def written (s : Session) : Bool :=
  (s.world.conns 0).res == some s.answered && (s.world.conns 0).writes.all (·.result.isSome)

def step (plan : List Exchange) (s : Session) : Move → Option Session
  | .issue =>
    match plan[s.issued]? with
    | some e =>
      if s.idle then
        (s.world.step (.request e.request e.stall)).map fun w =>
          { s with world := w, issued := s.issued + 1 }
      else none
    | none => none
  | .answer =>
    match plan[s.answered]? with
    | some e =>
      if s.answered < s.issued ∧ s.written then
        some { s with wire := s.wire ++ e.reply.bytes, answered := s.answered + 1 }
      else none
    | none => none
  | .deliver n =>
    (s.world.step (.receive 0 0 (s.wire.take n))).map fun w =>
      { s with world := w, wire := s.wire.drop n }
  | .client e =>
    if e.calm then (s.world.step e).map fun w => { s with world := w } else none

def init (eraseEnd : List (Option FutId) → List (Option FutId)) (tls limit : Bool) (max : Nat) :
    Session :=
  { world := World.init eraseEnd tls limit max }

/-- All requests of the plan have completed. -/
def Finished (plan : List Exchange) (s : Session) : Prop :=
  s.issued = plan.length ∧ ∀ j, j < plan.length → s.world.completions.completion j ≠ none

end Session

/-- The response of request `j` is that of its own reply, and it completed once. -/
structure Served (plan : List Exchange) (w : World) (j : RespId) : Prop where
  stored : ∃ e, plan[j]? = some e ∧ w.responses j = e.reply.stored e.response ∧
    w.completions.completion j = some (.done e.reply.status)
  once : w.completions.history.countP (Deed.completes j) = 1

/-- **The property.** -/
structure Framed (plan : List Exchange) (s : Session) : Prop where
  served : ∀ j, s.world.completions.completion j ≠ none → Served plan s.world j
  inTurn : ∀ j, j + 1 < s.issued → s.world.completions.completion j ≠ none
  released : ∀ j, j + 1 = s.issued → s.world.completions.completion j ≠ none →
    s.world.pool.available = [0] ∧ (s.world.conns 0).closed = false ∧
      (s.world.conns 0).res = none ∧ (s.world.conns 0).input = [] ∧ s.wire = []

/-! ## How much is left to do -/

/-- What is left of establishing a connection. -/
def setupWeight : Option SetupOp → Nat
  | some ⟨.resolve, none⟩ => 13
  | some ⟨.resolve, some _⟩ => 12
  | some ⟨.connect, none⟩ => 11
  | some ⟨.connect, some _⟩ => 10
  | some ⟨.handshake, none⟩ => 8
  | some ⟨.handshake, some _⟩ => 7
  | none => 0

/-- What is left to do on a connection. -/
def Conn.weight (k : Conn) : Nat :=
  3 * k.input.length + 3 * k.writes.length + k.writes.countP (·.result.isNone) + k.waits.length +
    setupWeight k.setup

/-- What is left to do in a session. -/
def Session.weight (plan : List Exchange) (s : Session) : Nat :=
  (s.world.conns 0).weight + 4 * s.wire.length +
    ((plan.drop s.answered).map fun e => 4 * e.reply.bytes.length + 1).sum +
    10 * (plan.length - s.issued)

/-! ## The invariant -/

/-- What holds in every phase, with the first `n` requests served. -/
structure Calm (plan : List Exchange) (n : Nat) (w : World) : Prop where
  steady : Steady w
  fault : w.fault = none
  served : ∀ j, j < n → Served plan w j
  next_ : w.pool.next_ = []
  isOpen : (w.conns 0).closed = false ∧ (w.conns 0).valid = true
  waits : ∀ t ∈ (w.conns 0).waits, t.status ≠ .expired
  writes : ∀ op ∈ (w.conns 0).writes, ∀ err, op.result ≠ some (.error err)

/-- Request `i` is at work: its attempt is pending, and nobody else is served. -/
structure Active (plan : List Exchange) (s : Session) (i : RespId) (e : Exchange) : Prop where
  calm : Calm plan i s.world
  planned : plan[i]? = some e
  issued : s.issued = i + 1
  nresponses : s.world.completions.nresponses = i + 1
  available : s.world.pool.available = []
  pending : (s.world.completions.attempts (s.world.completions.current i)).outcome = none

/-- The connection of the first request is being established. -/
structure Establishing (s : Session) (e : Exchange) (stage : Stage)
    (result : Option (Except Bytes Unit)) : Prop where
  setup : (s.world.conns 0).setup = some ⟨stage, result⟩
  succeeds : ∀ err, result ≠ some (.error err)
  opened : s.world.pool.opened 0 = { tasks := [.client (.writeRequest 0)] }
  response : s.world.responses 0 = e.response
  input : (s.world.conns 0).input = []

/-- The connection waits for its next request. -/
structure Kept (s : Session) : Prop where
  available : s.world.pool.available = [0]
  res : (s.world.conns 0).res = none
  setup : (s.world.conns 0).setup = none
  reads : (s.world.conns 0).reads = [{ point := .status }]
  input : (s.world.conns 0).input = []

/-- **The phases of a session.** -/
inductive Phase (plan : List Exchange) (s : Session) : Prop
  | fresh (calm : Calm plan 0 s.world) (issued : s.issued = 0) (answered : s.answered = 0)
      (wire : s.wire = []) (created : s.world.pool.created = 0)
      (available : s.world.pool.available = []) (room : s.world.pool.canConnect = true)
      (nresponses : s.world.completions.nresponses = 0)
  | establishing (e : Exchange) (stage : Stage) (result : Option (Except Bytes Unit))
      (active : Active plan s 0 e) (answered : s.answered = 0) (wire : s.wire = [])
      (setup : Establishing s e stage result)
  | waiting (i : RespId) (e : Exchange) (active : Active plan s i e) (answered : s.answered = i)
      (wire : s.wire = [])
      (reading : Reading e.reply e.response 0 i e.reply.bytes .status s.world)
  | reading (i : RespId) (e : Exchange) (p : Position) (active : Active plan s i e)
      (answered : s.answered = i + 1)
      (reading : Reading e.reply e.response 0 i s.wire p s.world)
  | kept (i : RespId) (calm : Calm plan (i + 1) s.world) (issued : s.issued = i + 1)
      (answered : s.answered = i + 1) (wire : s.wire = [])
      (nresponses : s.world.completions.nresponses = i + 1) (kept : Kept s)

/-! ## What other events leave alone -/

/-- Writes, waits and the state of an attempt to connect apart, the connection is
as it was. -/
def Conn.SameParser (k k' : Conn) : Prop :=
  k'.closed = k.closed ∧ k'.valid = k.valid ∧ k'.input = k.input ∧ k'.res = k.res ∧
    k'.transferMode = k.transferMode ∧ k'.reads = k.reads

/-- The connection gets a new record. -/
theorem Calm.conn {plan : List Exchange} {n : Nat} {w : World} (h : Calm plan n w) {k : Conn}
    (hsteady : Steady { w with conns := update w.conns 0 k })
    (hk : k.closed = (w.conns 0).closed ∧ k.valid = (w.conns 0).valid)
    (hwaits : ∀ t ∈ k.waits, t.status ≠ .expired)
    (hwrites : ∀ op ∈ k.writes, ∀ err, op.result ≠ some (.error err)) :
    Calm plan n { w with conns := update w.conns 0 k } where
  steady := hsteady
  fault := h.fault
  served j hj := ⟨(h.served j hj).stored, (h.served j hj).once⟩
  next_ := h.next_
  isOpen := by
    simp only [update_self, hk]
    exact h.isOpen
  waits := by simpa using hwaits
  writes := by simpa using hwrites

theorem Reading.conn {x : Reply} {m : Response} {i : RespId} {wire : Bytes} {p : Position}
    {w : World} (h : Reading x m 0 i wire p w) {k : Conn} (hk : (w.conns 0).SameParser k) :
    Reading x m 0 i wire p { w with conns := update w.conns 0 k } := by
  obtain ⟨-, -, hinput, hres, hmode, hreads⟩ := hk
  constructor
  · exact h.fits
  · simpa [hres] using h.res
  · simpa [hreads, hinput] using h.reads
  · simpa [hmode] using h.mode
  · simpa [hinput] using h.rest
  · exact h.held

/-- **A write completes, its handler runs, or a wait is collected**: no phase
notices. -/
theorem Phase.conn {plan : List Exchange} {s : Session} (h : Phase plan s) {k : Conn}
    (hsteady : Steady { s.world with conns := update s.world.conns 0 k })
    (hk : (s.world.conns 0).SameParser k) (hsetup : k.setup = (s.world.conns 0).setup)
    (hwaits : (∀ t ∈ (s.world.conns 0).waits, t.status ≠ .expired) →
      ∀ t ∈ k.waits, t.status ≠ .expired)
    (hwrites : (∀ op ∈ (s.world.conns 0).writes, ∀ err, op.result ≠ some (.error err)) →
      ∀ op ∈ k.writes, ∀ err, op.result ≠ some (.error err)) :
    Phase plan { s with world := { s.world with conns := update s.world.conns 0 k } } := by
  have hcalm : ∀ {n}, Calm plan n s.world →
      Calm plan n { s.world with conns := update s.world.conns 0 k } :=
    fun hc => hc.conn hsteady ⟨hk.1, hk.2.1⟩ (hwaits hc.waits) (hwrites hc.writes)
  have hactive : ∀ {i e}, Active plan s i e →
      Active plan { s with world := { s.world with conns := update s.world.conns 0 k } } i e :=
    fun ha => ⟨hcalm ha.calm, ha.planned, ha.issued, ha.nresponses, ha.available, ha.pending⟩
  have hparser := hk
  obtain ⟨-, -, hinput, hres, -, hreads⟩ := hk
  cases h with
  | fresh calm hissued hanswered hwire hcreated havailable hroom hresponses =>
    exact .fresh (hcalm calm) hissued hanswered hwire hcreated havailable hroom hresponses
  | establishing e stage result active hanswered hwire setup =>
    refine .establishing e stage result (hactive active) hanswered hwire
      ⟨?_, setup.succeeds, setup.opened, setup.response, ?_⟩
    · simpa [hsetup] using setup.setup
    · simpa [hinput] using setup.input
  | waiting i e active hanswered hwire reading =>
    exact .waiting i e (hactive active) hanswered hwire (reading.conn hparser)
  | reading i e p active hanswered reading =>
    exact .reading i e p (hactive active) hanswered (reading.conn hparser)
  | kept i calm hissued hanswered hwire hresponses kept =>
    refine .kept i (hcalm calm) hissued hanswered hwire hresponses ⟨kept.available, ?_, ?_, ?_, ?_⟩
    · simpa [hres] using kept.res
    · simpa [hsetup] using kept.setup
    · simpa [hreads] using kept.reads
    · simpa [hinput] using kept.input

/-! ## The steps -/

section steps

variable {plan : List Exchange} {s s' : Session} {i : RespId} {e : Exchange}

theorem Active.uncompleted (h : Active plan s i e) : s.world.completions.completion i = none := by
  have ho : Orderly s.world.completions := h.calm.steady.settling.1
  exact (ho.pending i (h.nresponses ▸ Nat.lt_succ_self i) h.pending).2

/-- While a request is at work, no other is issued. -/
theorem Active.not_idle (h : Active plan s i e) : s.idle = false := by
  simp [Session.idle, h.issued, h.uncompleted]

theorem lt_length_of_planned {j : Nat} (h : plan[j]? = some e) : j < plan.length :=
  (List.getElem?_eq_some_iff.mp h).1

/-- A new response, before its request looks for a connection. -/
def registered (w : World) (e : Exchange) : World :=
  { w with
    completions := w.completions.create.1
    responses := update w.responses w.completions.nresponses e.response
    sources := update w.sources w.completions.nresponses []
    statusFrom := update w.statusFrom w.completions.nresponses none }

theorem request_eq (w : World) (e : Exchange) : w.request e.request e.stall =
    (registered w e).nextThen (.writeRequest w.completions.nresponses) := rfl

/-- Who was served stays served. -/
theorem Served.registered {w : World} {n j : Nat} (h : Served plan w j) (hj : j < n)
    (hn : w.completions.nresponses = n) {w' : World}
    (hresponses : w'.responses = update w.responses w.completions.nresponses e.response)
    (hcompletions : w'.completions = w.completions.create.1) : Served plan w' j := by
  have hne : j ≠ w.completions.nresponses := hn ▸ Nat.ne_of_lt hj
  obtain ⟨⟨e', hplan, hresponse, hcompletion⟩, honce⟩ := h
  refine ⟨⟨e', hplan, ?_, ?_⟩, ?_⟩
  · rw [hresponses, update_of_ne hne, hresponse]
  · rw [hcompletions]
    show update w.completions.completion w.completions.nresponses none j = _
    rw [update_of_ne hne, hcompletion]
  · rw [hcompletions]
    exact honce

/-- The attempt of a new response is pending. -/
theorem pending_create (k : Completions) :
    (k.create.1.attempts (k.create.1.current k.nresponses)).outcome = none := by
  simp [Completions.create, Future.attach]

/-- **The first request** opens the connection. -/
theorem Phase.issue_fresh (calm : Calm plan 0 s.world) (hissued : s.issued = 0)
    (hanswered : s.answered = 0) (hwire : s.wire = []) (hcreated : s.world.pool.created = 0)
    (havailable : s.world.pool.available = []) (hroom : s.world.pool.canConnect = true)
    (hresponses : s.world.completions.nresponses = 0) (hplan : plan[0]? = some e)
    (hsteady : Steady (s.world.request e.request e.stall)) :
    Phase plan { s with world := s.world.request e.request e.stall, issued := s.issued + 1 } ∧
      ((s.world.request e.request e.stall).conns 0).weight = (s.world.conns 0).weight := by
  have hfresh : s.world.conns 0 = {} :=
    (calm.steady.exclusive.fresh 0 (Nat.le_of_eq hcreated)).1
  revert hsteady
  rw [request_eq]
  rcases World.nextThen_cases (registered s.world e) (.writeRequest s.world.completions.nresponses)
    with ⟨d, rest, hd, -, -⟩ | ⟨-, -, he⟩ | ⟨-, hno, -⟩
  · simp [registered, havailable] at hd
  · rw [he]
    intro hsteady
    have hpending := pending_create s.world.completions
    rw [hresponses] at hpending
    refine ⟨.establishing e .resolve none ⟨⟨hsteady, calm.fault, ?_, calm.next_, calm.isOpen,
      calm.waits, calm.writes⟩, hplan, ?_, ?_, rfl, hpending⟩ hanswered hwire
      ⟨?_, by simp, ?_, ?_, ?_⟩, rfl⟩
    · exact fun j hj => absurd hj (Nat.not_lt_zero j)
    · rw [hissued]
    · simp [registered, Completions.create, hresponses]
    · simp [registered, hfresh]
    · simp [registered, hcreated, hresponses]
    · simp [registered, hresponses]
    · simp [registered, hfresh]
  · exact absurd (hno.symm.trans hroom) (by simp)

/-- **The next request** is written on the connection that is kept. -/
theorem Phase.issue_kept (calm : Calm plan (i + 1) s.world) (hissued : s.issued = i + 1)
    (hanswered : s.answered = i + 1) (hwire : s.wire = [])
    (hresponses : s.world.completions.nresponses = i + 1) (kept : Kept s)
    (hplan : plan[i + 1]? = some e) (hsteady : Steady (s.world.request e.request e.stall)) :
    Phase plan { s with world := s.world.request e.request e.stall, issued := s.issued + 1 } ∧
      ((s.world.request e.request e.stall).conns 0).weight ≤ (s.world.conns 0).weight + 5 := by
  have hvalid : (registered s.world e).isValid 0 = true := by
    simp [World.isValid, registered, calm.isOpen]
  have havailable : (registered s.world e).pool.available = [0] := kept.available
  revert hsteady
  rw [request_eq]
  rcases World.nextThen_cases (registered s.world e) (.writeRequest s.world.completions.nresponses)
    with ⟨d, rest, hd, -, he⟩ | ⟨hd, -, -⟩ | ⟨hd, -, -⟩
  · simp only [havailable, List.dropWhile_cons, hvalid, Bool.not_true, Bool.false_eq_true,
      if_false, List.cons.injEq] at hd
    obtain ⟨rfl, rfl⟩ := hd
    rw [he, World.hand_writeRequest]
    intro hsteady
    have hpending := pending_create s.world.completions
    rw [hresponses] at hpending
    refine ⟨.waiting (i + 1) e ⟨⟨hsteady, calm.fault, ?_, calm.next_, ?_, ?_, ?_⟩, hplan, ?_, ?_,
      rfl, hpending⟩ hanswered hwire ⟨trivial, ?_, ?_, by simp [Position.mode], ?_, ?_⟩, ?_⟩
    · exact fun j hj => (calm.served j hj).registered hj hresponses rfl rfl
    · simpa [Conn.carrying, registered] using calm.isOpen
    · simpa [Conn.carrying, registered] using not_expired_extend calm.waits _
    · intro op hop
      simp only [Conn.carrying, registered, update_self, List.mem_append, List.mem_singleton] at hop
      rcases hop with hop | rfl
      · exact calm.writes op hop
      · simp
    · rw [hissued]
    · simp [registered, Completions.create, hresponses]
    · simp [Conn.carrying, hresponses]
    · refine ⟨{ point := .status }, ?_, rfl, rfl, ?_⟩
      · simp [Conn.carrying, registered, kept.reads]
      · simp [Conn.carrying, registered, kept.input, ReadOp.completion, find, crlf]
    · simp [Conn.carrying, registered, kept.input, Position.rest]
    · simp [registered, hresponses, Position.held]
    · simp only [Conn.weight, Conn.carrying, registered, update_self, List.length_append,
        List.length_singleton, List.length_map, List.countP_append, List.countP_singleton]
      simp only [Option.isNone_none, if_true]
      omega
  all_goals
    simp [havailable, hvalid] at hd

end steps

end AsioProtocols
