import AsioProtocols.Http.Exclusive

/-!
# Exclusive use in every run

Every handler of an asio operation keeps `Exclusive`, so every event does, and so
does every run of the client. A handler of a completed read starts with no read
outstanding on its connection, since there was only the one that completed.
-/

namespace AsioProtocols

open Function

namespace Exclusive

variable {w : World} {c : ConnId}

/-! ## The handlers -/

/-- What a read handler does on a connection that carries a response. -/
theorem readOutcome {w' : World} {r : RespId} {v : Verdict} {gaveUp : Prop}
    (out : ReadOutcome c r v gaveUp w w') (h : Exclusive w) (hr : (w.conns c).res = some r)
    (hreads : (w.conns c).reads = []) : Exclusive w' := by
  induction out with
  | timer _ ih =>
    exact ih (h.extendTimer (h.created_of_res hr)) (by simp [hr])
      (by simp [World.conns_extendTimer, hreads])
  | parser input mode expected _ ih =>
    refine ih (h.inner (h.created_of_res hr) rfl rfl (fun hs => hs) rfl (fun hw => hw)) ?_ ?_
    · simp [World.modConn, hr]
    · simp [World.modConn, hreads]
  | store m _ ih => exact ih (h.store c r m) hr hreads
  | idle => exact h
  | waits w op hp _ =>
    exact h.addRead (h.created_of_res hr) hreads (h.setup_of_res hr) op (by simp [hr])
  | escaped w e => exact h.escape c e
  | givenUp w err _ => exact (h.close (h.created_of_res hr)).failResponse c err v
  | finished w data => exact h.extractNextBodyChunk hr hreads data v

/-- **The handler of a completed read.** -/
theorem finishRead (h : Exclusive w) (hc : c < w.pool.created) (op : ReadOp)
    (hreads : (w.conns c).reads = []) (hpoint : op.point ≠ .status → (w.conns c).res ≠ none)
    (result : Except Bytes Nat) (v : Verdict) : Exclusive (w.finishRead c op result v) := by
  cases result with
  | error err =>
    simp only [World.finishRead]
    split
    · exact (h.close hc).failResponse c _ v
    · exact h.close hc
  | ok pos =>
    by_cases hp : op.point = .status
    · obtain ⟨input, hcases⟩ := World.finishRead_status (w := w) (c := c) (v := v) op pos hp
      have hu : Exclusive (w.modConn c fun k => { k with input := input }) :=
        h.inner hc rfl rfl (fun hs => hs) rfl (fun hw => hw)
      rcases hcases with he | ⟨-, he⟩ | ⟨r, parsed, hr, ⟨e, -, he⟩ | ⟨-, he⟩⟩ <;> rw [he]
      · exact hu
      · exact hu.close hc
      · exact ((hu.extendTimer hc).storeStatus c r parsed).escape c e
      · refine ((hu.extendTimer hc).storeStatus c r parsed).addRead hc ?_ ?_ _ ?_
        · simp [World.storeStatus, World.conns_extendTimer, World.modConn, hreads]
        · simp [World.storeStatus, World.conns_extendTimer, World.modConn, h.setup_of_res hr]
        · simp [World.storeStatus, World.conns_extendTimer, World.modConn, hr]
    · obtain ⟨r, hr⟩ := Option.ne_none_iff_exists'.mp (hpoint hp)
      exact h.readOutcome (World.finishRead_outcome op pos hp hr) hr hreads

theorem finishWrite (h : Exclusive w) (hc : c < w.pool.created) (result : Except Bytes Unit)
    (v : Verdict) : Exclusive (w.finishWrite c result v) := by
  cases result with
  | ok => exact h.extendTimer hc
  | error err =>
    simp only [World.finishWrite]
    split
    · exact h.setCompletions (Nat.le_refl _) h.callbacksKnown _ _ _ _
    · exact (h.settleUnlessReady c _ _ v).close
        (Nat.lt_of_lt_of_le hc (World.created_settleUnlessReady _ _ _ _ _))

theorem finishWait (h : Exclusive w) (hc : c < w.pool.created) (t : Wait) (v : Verdict) :
    Exclusive (w.finishWait c t v) := by
  simp only [World.finishWait]
  split
  · have h₁ : Exclusive (w.cancelTimer c) :=
      h.inner hc rfl rfl (fun hs => hs) rfl (fun hw => hw)
    exact (h₁.close hc).failResponse c _ v
  · exact h

/-- **A connection is established**: the response handler starts and the future
is done. -/
theorem ready (h : Exclusive w) (hc : c < w.pool.created)
    (ho : (w.pool.opened c).outcome = none) (hs : (w.conns c).setup = none)
    (hreads : (w.conns c).reads = []) : Exclusive (w.ready c) := by
  have h₁ := h.extendTimer hc
  have h₂ := h₁.addRead (c := c) hc (by simp [World.conns_extendTimer, hreads])
    (by simp [World.conns_extendTimer, hs])
    { point := .status, result := (find crlf ((w.extendTimer c).conns c).input).map .ok }
    (fun _ => rfl)
  refine h₂.settleOpened ho hc ?_
  simp [World.modConn, World.conns_extendTimer, hs]

theorem finishSetup (h : Exclusive w) (hc : c < w.pool.created)
    (ho : (w.pool.opened c).outcome = none) (hs : (w.conns c).setup = none)
    (hreads : (w.conns c).reads = []) (stage : Stage) (result : Except Bytes Unit) :
    Exclusive (w.finishSetup c stage result) := by
  -- a new stage of a connection that is still being established
  have restage : ∀ {u : World}, Exclusive u → c < u.pool.created →
      (u.pool.opened c).outcome = none → (u.conns c).reads = [] → ∀ op,
      Exclusive (u.modConn c fun k => { k with setup := some op }) := by
    intro u hu hc' ho' hreads' op
    have hd := hu.conn c
    exact hu.update hc' ⟨hd.oneRead, hd.between, hd.known, hd.unread, hd.idle, hd.opening,
      fun _ => ⟨ho', hreads'⟩⟩
  cases result with
  | error err => exact h.close hc
  | ok =>
    cases stage with
    | resolve => exact restage h hc ho hreads _
    | connect =>
      simp only [World.finishSetup]
      split
      · exact restage (h.extendTimer hc) hc ho (by simp [World.conns_extendTimer, hreads]) _
      · exact h.ready hc ho hs hreads
    | handshake => exact h.ready hc ho hs hreads

/-- A new response, which no connection carries and no request waits for. -/
theorem newResponse (h : Exclusive w) (q : Request) (stall : Nat) :
    Exclusive { w with
      completions := w.completions.create.1
      responses := Function.update w.responses w.completions.create.2
        { request := q, stallTimeout := stall }
      sources := Function.update w.sources w.completions.create.2 []
      statusFrom := Function.update w.statusFrom w.completions.create.2 none } := by
  refine h.setCompletions ?_ ?_ _ _ _ w.fault
  · exact Nat.le_succ _
  · intro a t ht
    change t ∈ (Function.update w.completions.attempts _ _ a).tasks at ht
    show t.1 < w.completions.nresponses + 1
    rcases eq_or_ne a w.completions.nattempts with rfl | hne
    · rw [update_self] at ht
      obtain rfl := List.mem_singleton.mp ht
      exact Nat.lt_succ_self _
    · rw [update_of_ne hne] at ht
      exact Nat.lt_succ_of_lt (h.callbacksKnown a t ht)

theorem request (h : Exclusive w) (q : Request) (stall : Nat) : Exclusive (w.request q stall) := by
  refine (h.newResponse q stall).nextThen ?_
  intro r hr
  cases hr
  exact Nat.lt_succ_self _

/-! ## The events -/

/-- Completing a read does not change where it is. -/
theorem completeRead (h : Exclusive w) {i : Nat} {op : ReadOp}
    (hop : (w.conns c).reads[i]? = some op) (input : Bytes) (result : Option (Except Bytes Nat)) :
    Exclusive (w.modConn c fun k =>
      { k with input := input, reads := k.reads.set i { op with result := result } }) := by
  have hd := h.conn c
  refine h.update (h.created_of_reads hop) ⟨by simpa using hd.oneRead, ?_, hd.known, hd.unread,
    hd.idle, hd.opening, ?_⟩
  · intro hres op' hop'
    rcases List.mem_or_eq_of_mem_set hop' with hm | rfl
    · exact hd.between hres op' hm
    · exact hd.between hres op (List.mem_of_getElem? hop)
  · intro hs
    rw [(hd.setup hs).2] at hop
    simp at hop

/-- The handler of an operation of a connection being established runs without
it; nothing is read yet. -/
theorem beforeSetup (h : Exclusive w) {stage : Stage} {result : Option (Except Bytes Unit)}
    (hs : (w.conns c).setup = some ⟨stage, result⟩) (hc : c < w.pool.created) :
    Exclusive (w.modConn c fun k => { k with setup := none }) ∧
      (w.pool.opened c).outcome = none ∧
      ((w.modConn c fun k => { k with setup := none }).conns c).reads = [] := by
  obtain ⟨ho, hreads⟩ := (h.conn c).setup (by simp [hs])
  exact ⟨h.inner hc rfl rfl (fun hn => absurd rfl hn) rfl (fun hw => hw), ho,
    by simp [World.modConn, hreads]⟩

/-- The handler of a completed read runs with no read outstanding; unless it was
for a status line, the connection carries a response. -/
theorem beforeRead (h : Exclusive w) {i : Nat} {op : ReadOp}
    (hop : (w.conns c).reads[i]? = some op) :
    Exclusive (w.modConn c fun k => { k with reads := k.reads.eraseIdx i }) ∧
      ((w.modConn c fun k => { k with reads := k.reads.eraseIdx i }).conns c).reads = [] ∧
      (op.point ≠ .status →
        ((w.modConn c fun k => { k with reads := k.reads.eraseIdx i }).conns c).res ≠ none) := by
  have hd := h.conn c
  obtain ⟨hi, hget⟩ := List.getElem?_eq_some_iff.mp hop
  have hnone : (w.conns c).reads.eraseIdx i = [] := by
    refine List.eq_nil_of_length_eq_zero ?_
    have := hd.oneRead
    rw [List.length_eraseIdx_of_lt hi]
    omega
  refine ⟨?_, by simp [World.modConn, hnone], ?_⟩
  · refine h.update (h.created_of_reads hop) ⟨by simp [hnone], by simp [hnone], hd.known, hd.unread,
      hd.idle, hd.opening, ?_⟩
    intro hs
    exact ⟨(hd.setup hs).1, hnone⟩
  · intro hp hres
    refine hp (hd.between ?_ op (List.mem_of_getElem? hop))
    simpa [World.modConn] using hres

theorem beforeWrite (h : Exclusive w) {i : Nat} {op : WriteOp}
    (hop : (w.conns c).writes[i]? = some op) :
    Exclusive (w.modConn c fun k => { k with writes := k.writes.eraseIdx i }) :=
  h.inner (h.created_of_writes hop) rfl rfl (fun hs => hs) rfl (fun hw => by simp [hw])

theorem beforeWait (h : Exclusive w) {i : Nat} {t : Wait} (ht : (w.conns c).waits[i]? = some t) :
    Exclusive (w.modConn c fun k => { k with waits := k.waits.eraseIdx i }) :=
  h.inner (h.created_of_waits ht) rfl rfl (fun hs => hs) rfl (fun hw => hw)

/-- **Every event keeps the invariant.** -/
theorem step (h : Exclusive w) {e : Event} {w' : World} (hstep : w.step e = some w') :
    Exclusive w' := by
  obtain ⟨-, hstep⟩ := World.step_eq_some hstep
  cases e with
  | request q stall =>
    cases hstep
    exact h.request q stall
  | next =>
    cases hstep
    exact h.nextThen (by simp)
  | release c =>
    obtain ⟨hc, rfl⟩ := World.release_inv hstep
    have hidle := (h.conn c).idle (.inr hc)
    have hnodup := List.nodup_append.mp h.idleNodup
    have h₁ : Exclusive { w with held := w.held.erase c } := by
      refine ⟨h.queues, h.callbacksKnown, h.fresh, ?_, ?_, h.handedRead, h.nothingOverwritten⟩
      · intro d
        have hd := h.conn d
        exact ⟨hd.oneRead, hd.between, hd.known, hd.unread,
          fun hm => hd.idle (hm.imp_right List.mem_of_mem_erase), hd.opening, hd.setup⟩
      · exact h.idleNodup.sublist ((List.Sublist.refl _).append (List.erase_sublist ..))
    refine h₁.release ⟨hidle.2, hidle.1, ?_, ?_⟩
    -- a held connection is not available, and is held once
    · intro hm
      exact hnodup.2.2 c hm c hc rfl
    · exact hnodup.2.1.not_mem_erase
  | close c =>
    obtain ⟨hc, -, rfl⟩ := World.close_inv hstep
    exact h.close hc
  | remove c =>
    obtain ⟨-, rfl⟩ := World.remove_inv hstep
    exact h.remove w.eraseEnd w.isValid c
  | maxConnections n =>
    cases hstep
    exact h.setPool (h.queues.of_eq rfl rfl rfl rfl) (Nat.le_refl _) (fun d hd => (h.fresh d hd).2)
      (fun _ => rfl) (List.Sublist.refl _)
  | limitConnections b =>
    cases hstep
    exact h.setPool (h.queues.of_eq rfl rfl rfl rfl) (Nat.le_refl _) (fun d hd => (h.fresh d hd).2)
      (fun _ => rfl) (List.Sublist.refl _)
  | setupDone c result =>
    obtain ⟨stage, hs, hc, -, rfl⟩ := World.setupDone_inv hstep
    exact h.inner hc rfl rfl (fun _ => by simp [hs]) rfl (fun hw => hw)
  | runSetup c =>
    obtain ⟨stage, result, hs, rfl⟩ := World.runSetup_inv hstep
    have hc := h.created_of_setup hs
    obtain ⟨h₁, ho, hreads⟩ := h.beforeSetup hs hc
    exact h₁.finishSetup hc ho (by simp [World.modConn]) hreads stage result
  | receive c i bytes =>
    obtain ⟨op, hop, -, -, -, rfl⟩ := World.receive_inv hstep
    exact h.completeRead hop ((w.conns c).input ++ bytes) _
  | readFails c i err =>
    obtain ⟨op, hop, -, rfl⟩ := World.readFails_inv hstep
    exact h.completeRead hop (w.conns c).input _
  | runRead c i v =>
    obtain ⟨op, result, hop, -, rfl⟩ := World.runRead_inv hstep
    obtain ⟨h₁, hreads, hpoint⟩ := h.beforeRead hop
    exact h₁.finishRead (h.created_of_reads hop) op hreads hpoint result v
  | writeDone c i result =>
    obtain ⟨op, hop, -, -, rfl⟩ := World.writeDone_inv hstep
    refine h.inner (h.created_of_writes hop) rfl rfl (fun hs => hs) rfl ?_
    intro hw
    simp [hw]
  | runWrite c i v =>
    obtain ⟨op, result, hop, -, rfl⟩ := World.runWrite_inv hstep
    exact (h.beforeWrite hop).finishWrite (h.created_of_writes hop) result v
  | expire c i =>
    obtain ⟨t, ht, -, rfl⟩ := World.expire_inv hstep
    exact h.inner (h.created_of_waits ht) rfl rfl (fun hs => hs) rfl (fun hw => hw)
  | runWait c i v =>
    obtain ⟨t, ht, -, rfl⟩ := World.runWait_inv hstep
    exact (h.beforeWait ht).finishWait (h.created_of_waits ht) t v

theorem init (eraseEnd : List (Option FutId) → List (Option FutId)) (tls limit : Bool) (max : Nat) :
    Exclusive (World.init eraseEnd tls limit max) where
  queues := ⟨List.nodup_nil, by simp [World.init], by simp [World.init], by simp [World.init],
    by simp [World.init], by simp [World.init]⟩
  callbacksKnown := by simp [World.init]
  fresh _ _ := ⟨rfl, rfl⟩
  conn _ := ⟨by simp [World.init], by simp [World.init], by simp [World.init], rfl,
    by simp [World.init], fun _ => ⟨rfl, rfl, rfl⟩, fun _ => ⟨rfl, rfl⟩⟩
  idleNodup := List.nodup_nil
  handedRead log c res closed hp := by
    have := List.prefix_nil.mp hp
    simp at this
  nothingOverwritten _ _ _ _ hm := by simp [World.init] at hm

/-- The invariant holds in every reachable state. -/
theorem run {ok : World → Event → Prop} {eraseEnd : List (Option FutId) → List (Option FutId)}
    {tls limit : Bool} {max : Nat}
    (run : Run World.step ok (World.init eraseEnd tls limit max) w) : Exclusive w :=
  run.invariant (init eraseEnd tls limit max) fun h _ hstep => h.step hstep

end Exclusive

/-- **Connections are used exclusively**: in every state reached by any events,
whatever the limit, the transport and the meaning of `erase(end())`. -/
theorem exclusiveUse_of_run {eraseEnd : List (Option FutId) → List (Option FutId)}
    {tls limit : Bool} {max : Nat} {w : World}
    (run : Run World.step anyEvent (World.init eraseEnd tls limit max) w) : ExclusiveUse w :=
  (Exclusive.run run).exclusiveUse

/-- A request without headers. -/
def getRequest : Request :=
  { method := ascii "GET", requestPath := ascii "/", version := ascii "HTTP/1.1" }

/-- A connection that resolves and connects. -/
def connects (c : ConnId) : List Event :=
  [.setupDone c (.ok ()), .runSetup c, .setupDone c (.ok ()), .runSetup c]

/-- A counted response of two bytes. -/
def shortResponse : Bytes :=
  ascii "HTTP/1.1 200 OK" ++ crlf ++ ascii "Content-Length: 2" ++ crlf ++ crlf ++ ascii "hi"

/-- Two requests and one slot: the second waits and gets the connection when the
first has its response. -/
def sharedConnection : List Event :=
  [.request getRequest 30000, .request getRequest 30000] ++ connects 0 ++
    [.receive 0 0 shortResponse, .runRead 0 0 .accept, .runRead 0 0 .accept, .runRead 0 0 .accept]

/-- In the run that shares a connection, it is handed on behind the note that
the first response was read to its end. -/
theorem exclusiveUse_sharedConnection :
    ∃ w, exec World.step (World.init id false true 1) sharedConnection = some w ∧
      w.log = [.handed 0 none false, .assigned 0 0 0 none, .content 0 0 0, .content 0 0 0,
        .content 0 0 0, .finished 0 0, .handed 0 none false, .assigned 0 1 1 none] ∧
      ExclusiveUse w := by
  have hlog : (exec World.step (World.init id false true 1) sharedConnection).map World.log =
      some [.handed 0 none false, .assigned 0 0 0 none, .content 0 0 0, .content 0 0 0,
        .content 0 0 0, .finished 0 0, .handed 0 none false, .assigned 0 1 1 none] := by decide
  obtain ⟨w, hw, hlog⟩ := Option.map_eq_some_iff.mp hlog
  exact ⟨w, hw, hlog,
    exclusiveUse_of_run (Run.of_exec (fun _ _ => trivial) sharedConnection hw)⟩

end AsioProtocols
