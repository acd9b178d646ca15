import AsioProtocols.Http.Endings
import AsioProtocols.Http.ExclusiveRuns

/-!
# Usable connections

A request should get a connection that has not been closed. `next()` tests the
connections of `available_`, so what it hands out is open. `release()` passes its
connection on to the front of `next_` without a test, and the future of `connect()`
is done without one; each is reached from handlers that were queued before the
connection was closed.

`Usable` is the property. The history notes whether a connection was closed when a
future was done with it, and `valid_` and `closed_` never disagree, so an open
connection is one with `is_valid()`. `World.handsOpen` is the condition on a step
under which `Usable` is kept. It excludes that a closed connection

- is released by its caller while a request waits,
- becomes ready while somebody waits for it, or
- reads a response to its end, to be kept, while a request waits.
-/

namespace AsioProtocols

open Function

/-- A future done with a connection found it open. -/
def Note.handsOpen : Note → Bool
  | .handed _ _ closed => !closed
  | _ => true

/-- **Usable connections.** No future was ever done with a closed connection, and the
closed connections are those that are not valid. -/
structure Usable (w : World) : Prop where
  handed : ∀ n ∈ w.log, n.handsOpen = true
  valid : ∀ c, (w.conns c).valid = !(w.conns c).closed

/-! ## The condition -/

namespace World

/-- `release()` of `c` passes a closed connection to a request that waits. -/
def passesClosed (w : World) (c : ConnId) : Bool :=
  (w.conns c).closed && !w.pool.next_.isEmpty

/-- An operation that succeeded at this stage makes the connection ready. -/
def readies (w : World) : Stage → Bool
  | .resolve => false
  | .connect => !w.tls
  | .handshake => true

/-- Somebody gets the connection as soon as it is ready. -/
def awaited (w : World) (c : ConnId) : Bool :=
  (w.pool.opened c).tasks.any fun t => match t with
    | .client _ => true
    | .release => !w.pool.next_.isEmpty

/-- The step hands no closed connection on. -/
def handsOpen (w : World) : Event → Bool
  | .release c => !w.passesClosed c
  | .runSetup c =>
    match (w.conns c).setup with
    | some ⟨stage, some (.ok _)⟩ => !(w.readies stage && (w.conns c).closed && w.awaited c)
    | _ => true
  | .runRead c i _ =>
    match (w.conns c).reads[i]? with
    | some ⟨p, wanted, some (.ok pos)⟩ =>
      !(w.passesClosed c && w.keepsConnection c && w.endsResponse c p wanted pos)
    | _ => true
  | _ => true

end World

/-! ## What keeps connections usable -/

/-- Passing connection `c` on would pass on an open one, or it has nowhere to go. -/
def Passable (w : World) (c : ConnId) : Prop :=
  (w.conns c).closed = false ∨ w.pool.next_ = []

namespace Usable

variable {w : World} {c : ConnId}

/-- Nothing that matters changes. -/
theorem of_same (h : Usable w) {w' : World} (hlog : w'.log = w.log)
    (hclosed : ∀ d, (w'.conns d).closed = (w.conns d).closed)
    (hvalid : ∀ d, (w'.conns d).valid = (w.conns d).valid) : Usable w' :=
  ⟨hlog ▸ h.handed, fun d => by rw [hclosed, hvalid, h.valid]⟩

/-- A change of one record under which `valid_` and `closed_` still agree. -/
theorem modConn (h : Usable w) {f : Conn → Conn}
    (hf : (f (w.conns c)).valid = !(f (w.conns c)).closed) : Usable (w.modConn c f) := by
  refine ⟨h.handed, fun d => ?_⟩
  rw [World.conns_modConn]
  rcases eq_or_ne d c with rfl | hne
  · rw [update_self, hf]
  · rw [update_of_ne hne, h.valid]

theorem note (h : Usable w) {n : Note} (hn : n.handsOpen = true) : Usable (w.note n) := by
  refine ⟨fun m hm => ?_, h.valid⟩
  rcases List.mem_append.mp hm with hm | hm
  · exact h.handed m hm
  · obtain rfl := List.mem_singleton.mp hm
    exact hn

theorem extendTimer (h : Usable w) (d : ConnId) : Usable (w.extendTimer d) :=
  h.modConn (h.valid d)

theorem readDelimited (h : Usable w) (d : ConnId) (p : Point) : Usable (w.readDelimited d p) :=
  h.modConn (h.valid d)

theorem store (h : Usable w) (d : ConnId) (r : RespId) (m : Message) : Usable (w.store d r m) :=
  h.note (n := .content d r (w.completions.current r)) rfl |>.of_same rfl (fun _ => rfl) fun _ => rfl

theorem storeStatus (h : Usable w) (d : ConnId) (r : RespId) (parsed : Response × Option Exn) :
    Usable (w.storeStatus d r parsed) :=
  h.note (n := .content d r (w.completions.current r)) rfl |>.of_same rfl (fun _ => rfl) fun _ => rfl

theorem escape (h : Usable w) (d : ConnId) (e : Exn) : Usable (w.escape d e) := h.note rfl

theorem setPool (h : Usable w) (p : Pool) : Usable { w with pool := p } :=
  h.of_same rfl (fun _ => rfl) fun _ => rfl

theorem writeRequest (h : Usable w) (d : ConnId) (r : RespId) : Usable (w.writeRequest d r) := by
  have hnote : Usable (w.note (.assigned d r (w.completions.current r) (w.conns d).res)) :=
    h.note rfl
  have hres := hnote.modConn (c := d) (f := fun k =>
    { k with res := some r, attempt := some (w.completions.current r), closedThen := k.closed })
    (hnote.valid d)
  have htimer := hres.extendTimer d
  exact htimer.modConn (f := fun k => { k with
    writes := k.writes ++ [{ data := (w.responses r).request.bytes }] }) (htimer.valid d)

/-- **Handing on an open connection.** -/
theorem hand (h : Usable w) (hopen : (w.conns c).closed = false) (tasks : List ClientTask) :
    Usable (w.hand c tasks) := by
  have hn : (Note.handed c (w.conns c).res (w.conns c).closed).handsOpen = true := by
    simp [Note.handsOpen, hopen]
  refine List.foldlRecOn (motive := Usable) tasks _ (h.note hn) ?_
  rintro u hu (r | _) -
  · exact hu.writeRequest c r
  · exact hu.of_same rfl (fun _ => rfl) fun _ => rfl

/-- `release()` tests nothing, so it depends on its caller. -/
theorem release (h : Usable w) (hc : Passable w c) : Usable (w.release c) := by
  rcases hc with hopen | hn
  · simp only [World.release, World.settleQueued]
    rcases Pool.release_cases w.pool c with ⟨-, hr⟩ | ⟨q, rest, -, hr⟩ <;> rw [hr]
    · exact h.setPool _
    · dsimp only
      split
      · exact h.of_same rfl (fun _ => rfl) fun _ => rfl
      · rename_i f tasks _
        exact (h.setPool { w.pool with
          next_ := rest, queued := update w.pool.queued q f }).hand hopen tasks
  · rw [World.release_of_nil w c hn]
    exact h.setPool _

/-- **`next()` tests what it hands out.** -/
theorem nextThen (h : Usable w) (t : ClientTask) : Usable (w.nextThen t) := by
  rcases World.nextThen_cases w t with ⟨d, rest, -, hvalid, hn⟩ | ⟨-, -, hn⟩ | ⟨-, -, hn⟩ <;> rw [hn]
  · have hopen : (w.conns d).closed = false := by
      rw [World.isValid, Bool.and_eq_true] at hvalid
      simpa using hvalid.2
    exact (h.setPool { w.pool with available := rest }).hand hopen [t]
  · exact h.setPool _
  · exact h.setPool _

theorem close (h : Usable w) (d : ConnId) : Usable (w.close d) := by
  rcases hcl : (w.conns d).closed with _ | _
  · obtain ⟨valid, he⟩ := w.close_of_open d hcl
    rw [he]
    exact (h.modConn (c := d) (f := Conn.shut) rfl).of_same rfl (fun _ => rfl) fun _ => rfl
  · rw [w.close_of_closed d hcl]
    exact h.modConn (c := d) (f := fun k => { k with valid := false }) (by simp [hcl])

theorem settleUnlessReady (h : Usable w) (d : ConnId) (r : RespId) (o : Outcome Nat)
    (v : Verdict) : Usable (w.settleUnlessReady d r o v) := by
  refine w.settleUnlessReady_preserves d r o v h (h.of_same rfl (fun _ => rfl) fun _ => rfl) ?_
  rintro u ⟨s, n⟩ - hu
  refine u.completionHandler_cases _ o v s n
    (fun _ _ _ _ => hu.of_same rfl (fun _ => rfl) fun _ => rfl)
    (fun _ => hu.of_same rfl (fun _ => rfl) fun _ => rfl) fun _ => ?_
  have hreset : Usable { u with
      completions := (u.completions.ask s (w.completions.current r) n v).reset s (n + 1)
      responses := update u.responses s (u.responses s).reset
      sources := update u.sources s [] } := hu.of_same rfl (fun _ => rfl) fun _ => rfl
  exact hreset.nextThen _

theorem failResponse (h : Usable w) (d : ConnId) (err : Bytes) (v : Verdict) :
    Usable (w.failResponse d err v) := by
  rw [World.failResponse]
  split
  · exact h.settleUnlessReady d _ _ v
  · exact h

end Usable

/-! ## Read handlers -/

/-- At the end of response `r`, connection `c` may be released, or is closed instead. -/
def Spared (w : World) (c : ConnId) (r : RespId) : Prop :=
  Passable w c ∨ World.wantsClose (w.responses r).toMessage = true

theorem Spared.of_same {w w' : World} {c : ConnId} {r : RespId} (h : Spared w c r)
    (hclosed : (w'.conns c).closed = (w.conns c).closed) (hpool : w'.pool = w.pool)
    (hwants : World.wantsClose (w'.responses r).toMessage =
      World.wantsClose (w.responses r).toMessage) : Spared w' c r := by
  rw [Spared, Passable, hclosed, hpool, hwants]
  exact h

namespace Usable

variable {w : World} {c : ConnId} {r : RespId} {v : Verdict}

/-- On the way to its end, a read handler hands nothing on. -/
theorem readPath {u : World} (h : Usable w) (path : ReadPath c r w u) :
    Usable u ∧ (u.conns c).closed = (w.conns c).closed := by
  induction path with
  | refl => exact ⟨h, rfl⟩
  | timer _ ih => exact ⟨ih.1.extendTimer c, by simpa [World.conns_extendTimer] using ih.2⟩
  | parser _ _ _ _ ih =>
    exact ⟨ih.1.modConn (ih.1.valid c), by simpa [World.modConn] using ih.2⟩
  | store m _ _ ih => exact ⟨ih.1.store c r m, ih.2⟩

/-- **The end of a response** releases the connection, or closes it. -/
theorem extractNextBodyChunk (h : Usable w) (hr : (w.conns c).res = some r)
    (hs : Spared w c r) (data : Bytes) : Usable (w.extractNextBodyChunk c data v) := by
  simp only [World.extractNextBodyChunk, hr]
  generalize hu : (if (w.conns c).transferMode = .length then
    w.store c r ((w.responses r).setBody data) else w) = u
  obtain ⟨hu, hs⟩ : Usable u ∧ Spared u c r := by
    subst hu
    split
    · refine ⟨h.store c r _, hs.of_same rfl rfl ?_⟩
      simpa [World.store] using wantsClose_setBody (w.responses r).toMessage data
    · exact ⟨h, hs⟩
  have hcleared : Usable ((u.modConn c fun k => { k with res := none }).note (.finished c r)) :=
    (hu.modConn (hu.valid c)).note rfl
  split
  · exact (hcleared.settleUnlessReady c r _ v).close c
  · rename_i hkept
    refine ((hcleared.readDelimited c .status).release ?_).settleUnlessReady c r _ v
    obtain hpass | hwants := hs
    · simpa [Passable, World.readDelimited, World.modConn, World.note] using hpass
    · exact absurd hwants hkept

/-- A read handler that comes to the end of its response only where that is spared. -/
theorem readTurn {ends : Prop} {w' : World} (h : Usable w) (hr : (w.conns c).res = some r)
    (hs : ends → Spared w c r) (turn : ReadTurn c r v ends w w') : Usable w' := by
  obtain ⟨u, path, hend⟩ := turn
  obtain ⟨hu, hclosed⟩ := h.readPath path
  cases hend with
  | idle => exact hu
  | waits op => exact hu.modConn (hu.valid c)
  | line m => exact (hu.store c r m).readDelimited c .header
  | escaped e => exact hu.escape c e
  | givenUp err => exact (hu.close c).failResponse c err v
  | finished data hends =>
    exact hu.extractNextBodyChunk (path.res.trans hr)
      ((hs hends).of_same hclosed path.pool.1 path.wantsClose) data

/-- Where the condition allows the end of a response, it is spared. -/
theorem spared_of_allowed {ends : Bool}
    (hok : (w.passesClosed c && w.keepsConnection c && ends) = false) (hends : ends = true)
    (hr : (w.conns c).res = some r) : Spared w c r := by
  rw [hends, Bool.and_true, World.keepsConnection, hr, Bool.and_eq_false_iff] at hok
  obtain hpass | hwants := hok
  · rw [World.passesClosed, Bool.and_eq_false_iff] at hpass
    exact .inl (hpass.imp id fun hn => by simpa using hn)
  · exact .inr (by simpa using hwants)

/-- **The handler of a completed read.** -/
theorem finishRead (h : Usable w) (op : ReadOp) (result : Except Bytes Nat)
    (hres : op.point ≠ .status → (w.conns c).res ≠ none)
    (hok : ∀ pos, result = .ok pos → (w.passesClosed c && w.keepsConnection c &&
      w.endsResponse c op.point op.wanted pos) = false) :
    Usable (w.finishRead c op result v) := by
  obtain ⟨p, wanted, done⟩ := op
  cases result with
  | error err =>
    simp only [World.finishRead]
    split
    · exact (h.close c).failResponse c _ v
    · exact h.close c
  | ok pos =>
    have hok := hok pos rfl
    by_cases hp : p = .status
    · obtain ⟨input, hcases⟩ := World.finishRead_status (w := w) (c := c) (v := v) ⟨p, wanted, done⟩ pos hp
      have hu : Usable (w.modConn c fun k => { k with input := input }) := h.modConn (h.valid c)
      rcases hcases with he | ⟨-, he⟩ | ⟨r, parsed, hr, ⟨e, -, he⟩ | ⟨-, he⟩⟩ <;> rw [he]
      · exact hu
      · exact hu.close c
      · exact ((hu.extendTimer c).storeStatus c r parsed).escape c e
      · exact ((hu.extendTimer c).storeStatus c r parsed).readDelimited c .header
    · obtain ⟨r, hr⟩ := Option.ne_none_iff_exists'.mp (hres hp)
      exact h.readTurn hr (fun hends => spared_of_allowed hok hends hr)
        (World.finishRead_turn _ pos hp hr)

/-! ## The other handlers -/

theorem finishWrite (h : Usable w) (result : Except Bytes Unit) :
    Usable (w.finishWrite c result v) := by
  cases result with
  | ok => exact h.extendTimer c
  | error err =>
    simp only [World.finishWrite]
    split
    · exact h.of_same rfl (fun _ => rfl) fun _ => rfl
    · exact (h.settleUnlessReady c _ _ v).close c

theorem finishWait (h : Usable w) (t : Wait) : Usable (w.finishWait c t v) := by
  simp only [World.finishWait]
  split
  · have hcancelled : Usable (w.cancelTimer c) := h.modConn (h.valid c)
    exact (hcancelled.close c).failResponse c _ v
  · exact h

/-- **A connection is ready**: whoever waits for it gets it, if it is still open. -/
theorem ready (h : Usable w) (hx : Exclusive w) (ho : (w.pool.opened c).outcome = none)
    (hok : ((w.conns c).closed && w.awaited c) = false) : Usable (w.ready c) := by
  have hu := (h.extendTimer c).readDelimited c .status
  have hclosed : (((w.extendTimer c).handleResponse c).conns c).closed = (w.conns c).closed := by
    simp [World.handleResponse, World.readDelimited, World.modConn, World.conns_extendTimer]
  rw [World.ready]
  generalize hu' : (w.extendTimer c).handleResponse c = u at *
  have hpool : u.pool = w.pool := by rw [← hu']; rfl
  have hu : Usable u := hu' ▸ hu
  rw [Bool.and_eq_false_iff, World.awaited, ← hpool, ← hclosed] at hok
  have hsettled : Usable { u with pool := { u.pool with
      opened := update u.pool.opened c { outcome := some (.done c), tasks := [] } } } := hu.setPool _
  obtain ⟨-, hdone⟩ | ⟨t, htasks, hdone⟩ | ⟨htasks, hdone⟩ :=
    u.settleOpened_cases c (hpool ▸ ho) (hpool ▸ hx.queues.openedOne c) <;> rw [hdone]
  · exact hsettled
  · refine hsettled.hand (hok.resolve_right ?_) [t]
    simp [htasks]
  · refine hsettled.release (hok.imp id fun hn => ?_)
    simpa [htasks] using hn

theorem finishSetup (h : Usable w) (hx : Exclusive w) (ho : (w.pool.opened c).outcome = none)
    (stage : Stage) (result : Except Bytes Unit)
    (hok : ∀ u, result = .ok u →
      (w.readies stage && (w.conns c).closed && w.awaited c) = false) :
    Usable (w.finishSetup c stage result) := by
  cases result with
  | error err => exact h.close c
  | ok =>
    have hok := hok () rfl
    cases stage with
    | resolve => exact h.modConn (c := c) (f := fun k => { k with setup := _ }) (h.valid c)
    | connect =>
      simp only [World.finishSetup]
      split
      · exact (h.extendTimer c).modConn ((h.extendTimer c).valid c)
      · rename_i htls
        refine h.ready hx ho ?_
        simpa [World.readies, htls] using hok
    | handshake =>
      refine h.ready hx ho ?_
      simpa [World.readies] using hok

theorem request (h : Usable w) (q : Request) (stall : Nat) : Usable (w.request q stall) := by
  have hnew : Usable { w with
      completions := w.completions.create.1
      responses := update w.responses w.completions.create.2 { request := q, stallTimeout := stall }
      sources := update w.sources w.completions.create.2 []
      statusFrom := update w.statusFrom w.completions.create.2 none } :=
    h.of_same rfl (fun _ => rfl) fun _ => rfl
  exact hnew.nextThen _

/-! ## Every run -/

/-- **The step**: an event that the condition allows hands no closed connection on. -/
theorem step {w' : World} {e : Event} (h : Usable w) (hx : Exclusive w)
    (hok : w.handsOpen e = true) (hstep : w.step e = some w') : Usable w' := by
  obtain ⟨-, hstep⟩ := World.step_eq_some hstep
  cases e with
  | request q stall =>
    cases hstep
    exact h.request q stall
  | next =>
    cases hstep
    exact h.nextThen .hold
  | release c =>
    obtain ⟨-, rfl⟩ := World.release_inv hstep
    have hheld : Usable { w with held := w.held.erase c } :=
      h.of_same rfl (fun _ => rfl) fun _ => rfl
    refine hheld.release ?_
    rw [World.handsOpen, Bool.not_eq_true', World.passesClosed, Bool.and_eq_false_iff] at hok
    exact hok.imp id fun hn => by simpa using hn
  | close c =>
    obtain ⟨-, -, rfl⟩ := World.close_inv hstep
    exact h.close c
  | remove c =>
    obtain ⟨-, rfl⟩ := World.remove_inv hstep
    exact h.setPool _
  | maxConnections n =>
    cases hstep
    exact h.setPool _
  | limitConnections b =>
    cases hstep
    exact h.setPool _
  | setupDone c result =>
    obtain ⟨stage, -, -, -, rfl⟩ := World.setupDone_inv hstep
    exact h.modConn (c := c) (f := fun k => { k with setup := _ }) (h.valid c)
  | runSetup c =>
    obtain ⟨stage, result, hs, rfl⟩ := World.runSetup_inv hstep
    obtain ⟨hx', ho, -⟩ := hx.beforeSetup hs (hx.created_of_setup hs)
    have hu : Usable (w.modConn c fun k => { k with setup := none }) := h.modConn (h.valid c)
    refine hu.finishSetup hx' ho stage result fun u hresult => ?_
    simp only [World.handsOpen, hs, hresult, Bool.not_eq_true'] at hok
    simp only [World.modConn, update_self]
    exact hok
  | receive c i bytes =>
    obtain ⟨op, -, -, -, -, rfl⟩ := World.receive_inv hstep
    exact h.modConn (h.valid c)
  | readFails c i err =>
    obtain ⟨op, -, -, rfl⟩ := World.readFails_inv hstep
    exact h.modConn (h.valid c)
  | runRead c i v =>
    obtain ⟨op, result, hop, hresult, rfl⟩ := World.runRead_inv hstep
    obtain ⟨-, -, hpoint⟩ := hx.beforeRead hop
    have hu : Usable (w.modConn c fun k => { k with reads := k.reads.eraseIdx i }) :=
      h.modConn (h.valid c)
    refine hu.finishRead op result hpoint fun pos hpos => ?_
    obtain ⟨p, wanted, done⟩ := op
    obtain rfl : done = some (.ok pos) := hresult.trans (congrArg some hpos)
    simp only [World.handsOpen, hop, Bool.not_eq_true'] at hok
    -- neither depends on the reads of the connection
    simp only [World.passesClosed, World.keepsConnection, World.endsResponse, World.modConn,
      update_self] at hok ⊢
    exact hok
  | writeDone c i result =>
    obtain ⟨op, -, -, -, rfl⟩ := World.writeDone_inv hstep
    exact h.modConn (h.valid c)
  | runWrite c i v =>
    obtain ⟨op, result, -, -, rfl⟩ := World.runWrite_inv hstep
    have hu : Usable (w.modConn c fun k => { k with writes := k.writes.eraseIdx i }) :=
      h.modConn (h.valid c)
    exact hu.finishWrite result
  | expire c i =>
    obtain ⟨t, -, -, rfl⟩ := World.expire_inv hstep
    exact h.modConn (h.valid c)
  | runWait c i v =>
    obtain ⟨t, -, -, rfl⟩ := World.runWait_inv hstep
    have hu : Usable (w.modConn c fun k => { k with waits := k.waits.eraseIdx i }) :=
      h.modConn (h.valid c)
    exact hu.finishWait t

theorem init (eraseEnd : List (Option FutId) → List (Option FutId)) (tls limit : Bool) (max : Nat) :
    Usable (World.init eraseEnd tls limit max) :=
  ⟨by simp [World.init], fun _ => rfl⟩

end Usable

/-- **Connections that are handed on are usable**, in every run whose steps meet the
condition. -/
theorem usable_of_run {eraseEnd : List (Option FutId) → List (Option FutId)} {tls limit : Bool}
    {max : Nat} {w : World}
    (run : Run World.step (fun w e => w.handsOpen e = true) (World.init eraseEnd tls limit max) w) :
    Usable w := by
  have hboth : Exclusive w ∧ Usable w := run.invariant (P := fun u => Exclusive u ∧ Usable u)
    ⟨.init eraseEnd tls limit max, .init eraseEnd tls limit max⟩
    fun h hok hstep => ⟨h.1.step hstep, h.2.step h.1 hok hstep⟩
  exact hboth.2

/-- A counted response without a body. -/
def emptyResponse : Bytes :=
  ascii "HTTP/1.1 200 OK" ++ crlf ++ ascii "Content-Length: 0" ++ crlf ++ crlf

/-- The timer closes the only connection while it is idle, and another request
comes. -/
def idleExpiry : List Event :=
  [.request getRequest 30000] ++ connects 0 ++
    [.receive 0 0 emptyResponse, .runRead 0 0 .accept, .runRead 0 0 .accept, .runRead 0 0 .accept,
      .expire 0 5, .runWait 0 5 .accept, .request getRequest 30000] ++ connects 1

/-- The second request gets a connection of its own. -/
theorem usable_idleExpiry :
    ∃ w, exec (guarded World.step fun w e => w.handsOpen e = true) (World.init id false true 1)
        idleExpiry = some w ∧
      w.log.drop 5 = [.finished 0 0, .handed 1 none false, .assigned 1 1 1 none] ∧ Usable w := by
  have hlog : (exec (guarded World.step fun w e => w.handsOpen e = true)
      (World.init id false true 1) idleExpiry).map (fun w => w.log.drop 5) =
      some [.finished 0 0, .handed 1 none false, .assigned 1 1 1 none] := by decide
  obtain ⟨w, hw, hlog⟩ := Option.map_eq_some_iff.mp hlog
  exact ⟨w, hw, hlog, usable_of_run (Run.of_guarded idleExpiry hw)⟩

/-- A second request waits for the only connection. The read of the empty line behind
the headers has completed when the timer expires; its handler runs behind that of the
timer. -/
def lateRead : List Event :=
  [.request getRequest 30000, .request getRequest 30000] ++ connects 0 ++
    [.receive 0 0 emptyResponse, .runRead 0 0 .accept, .runRead 0 0 .accept,
      .expire 0 3, .runWait 0 3 .accept, .runRead 0 0 .accept]

/-- The second request is written on the closed connection. -/
theorem lateRead_handsClosed : ∃ w,
    exec World.step (World.init id false true 1) lateRead = some w ∧
      w.log.drop 5 = [.finished 0 0, .handed 0 none true, .assigned 0 1 1 none] ∧ ¬ Usable w := by
  have hlog : (exec World.step (World.init id false true 1) lateRead).map (fun w => w.log.drop 5) =
      some [.finished 0 0, .handed 0 none true, .assigned 0 1 1 none] := by decide
  obtain ⟨w, hw, hlog⟩ := Option.map_eq_some_iff.mp hlog
  refine ⟨w, hw, hlog, fun h => ?_⟩
  have hmem : Note.handed 0 none true ∈ w.log.drop 5 := by
    rw [hlog]
    decide
  exact absurd (h.handed _ (List.mem_of_mem_drop hmem)) (by decide)

end AsioProtocols
