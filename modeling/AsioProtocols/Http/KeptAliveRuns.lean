import AsioProtocols.Http.KeptAlive

/-!
# Requests on one kept-alive connection: the runs

What each move of a session does to its phase and to its weight, and from that
`framing_of_run`.
-/

namespace AsioProtocols

open Function

/-! ## The end of a reply -/

section ending

variable {x : Reply} {m : Response} {i : RespId} {wire data : Bytes} {u : World}

/-- Storing a counted body, or nothing, completes the response. -/
theorem AtEnd.stored_eq (h : AtEnd x m 0 i wire data u) :
    ∃ sources log, (if (u.conns 0).transferMode = .length then
      u.store 0 i ((u.responses i).setBody data) else u) =
        { u with responses := update u.responses i (x.stored m), sources := sources, log := log } := by
  have hstored := h.stored
  split at hstored
  · rename_i hmode
    rw [if_pos hmode]
    exact ⟨_, _, by rw [World.store, hstored]⟩
  · rename_i hmode
    rw [if_neg hmode]
    refine ⟨u.sources, u.log, ?_⟩
    rw [← hstored, update_eq_self]

/-- The world in which a reply has been read: `res_` is cleared, the next status
line is read, and the connection is available. -/
def readOff (u : World) (i : RespId) (stored : Response) (sources : RespId → List ConnId)
    (log : List Note) : World :=
  { u with
      conns := update u.conns 0 { u.conns 0 with res := none, reads := [{ point := .status }] }
      pool := { u.pool with available := u.pool.available ++ [0] }
      responses := update u.responses i stored
      sources := sources
      log := log }

/-- **The end of a reply**: it is read off, and its request completes. -/
theorem AtEnd.extractNextBodyChunk (h : AtEnd x m 0 i wire data u) (hx : x.WellFormed)
    (hnext : u.pool.next_ = []) (hs : Settling u.futures) (hi : i < u.completions.nresponses)
    (hpending : (u.completions.attempts (u.completions.current i)).outcome = none) :
    ∃ k sources log, u.extractNextBodyChunk 0 data .accept =
      { readOff u i (x.stored m) sources log with completions := k } ∧
      k.nresponses = u.completions.nresponses ∧
      k.completion = update u.completions.completion i (some (.done x.status)) ∧
      ∀ j, k.history.countP (Deed.completes j) =
        u.completions.history.countP (Deed.completes j) + if i = j then 1 else 0 := by
  obtain ⟨sources, log, hstored⟩ := h.stored_eq
  have hkeeps : World.wantsClose (x.stored m).toMessage = false := hx.wantsClose rfl
  have hoff : ((((({ u with
      responses := update u.responses i (x.stored m), sources := sources, log := log } :
      World).modConn 0 fun k => { k with res := none }).note (.finished 0 i)).handleResponse
        0).release 0) = readOff u i (x.stored m) sources (log ++ [.finished 0 i]) := by
    rw [World.release_of_nil _ _ (by exact hnext)]
    simp [World.handleResponse, World.readDelimited, World.note, World.modConn, readOff, h.reads,
      h.input, find, crlf]
  have he : u.extractNextBodyChunk 0 data .accept =
      (readOff u i (x.stored m) sources (log ++ [.finished 0 i])).settleUnlessReady 0 i
        (.done x.status) .accept := by
    simp only [World.extractNextBodyChunk, h.res, hstored]
    rw [if_neg (by simp [World.note, World.modConn, hkeeps]), hoff]
    simp [readOff, Reply.stored]
  have hoffSettling : Settling
      (readOff u i (x.stored m) sources (log ++ [.finished 0 i])).futures := hs
  rcases hoffSettling.settleUnlessReady_cases (c := 0) (r := i) hi (.done x.status) .accept with
    ⟨hready, -⟩ | ⟨-, -, n, ⟨-, o, ho, hsettled⟩ | ⟨hretry, -⟩⟩
  · exact absurd hpending hready
  · obtain rfl : o = .done x.status := ho.resolve_right fun ho => ho.1 rfl
    refine ⟨_, _, _, he.trans hsettled, rfl, rfl, ?_⟩
    intro j
    simp [Deed.completes, List.countP_cons, readOff]
  · cases hretry

end ending

/-! ## The handler of a read -/

section reading

variable {plan : List Exchange} {s : Session} {i : RespId} {e : Exchange} {n : Nat} {u w' : World}

/-- Who was served stays served while others are. -/
theorem Served.of_eq {w : World} {j : RespId} (h : Served plan w j)
    (hresponse : w'.responses j = w.responses j)
    (hcompletion : w'.completions.completion j = w.completions.completion j)
    (hcount : w'.completions.history.countP (Deed.completes j) =
      w.completions.history.countP (Deed.completes j)) : Served plan w' j where
  stored := by
    obtain ⟨e, hplan, hstored, hdone⟩ := h.stored
    exact ⟨e, hplan, hresponse.trans hstored, hcompletion.trans hdone⟩
  once := hcount.trans h.once

/-- The work of a handler is paid for by the input it consumes. -/
theorem Untouched.weight (h : Untouched 0 i n u w') :
    (w'.conns 0).weight + 3 * (u.conns 0).input.length ≤
      (u.conns 0).weight + 3 * (w'.conns 0).input.length + n := by
  obtain ⟨-, -, hsetup, hwrites⟩ := h.shell
  have := h.waits
  simp only [Conn.weight, hsetup, hwrites]
  omega

/-- The handlers of a reply keep its request at work. -/
theorem Active.untouched (h : Active plan s i e) (hu : Untouched 0 i n s.world w')
    (hsteady : Steady w') : Active plan { s with world := w' } i e where
  calm := by
    have hcompletions : w'.completions = s.world.completions := congrArg Prod.fst hu.futures
    obtain ⟨hclosed, hvalid, -, hwrites⟩ := hu.shell
    refine ⟨hsteady, (congrArg Prod.snd hu.futures).trans h.calm.fault, ?_, ?_, ?_,
      hu.calm h.calm.waits, ?_⟩
    · intro j hj
      exact (h.calm.served j hj).of_eq (hu.others j (Nat.ne_of_lt hj)) (by rw [hcompletions])
        (by rw [hcompletions])
    · rw [hu.pool]
      exact h.calm.next_
    · rw [hclosed, hvalid]
      exact h.calm.isOpen
    · rw [hwrites]
      exact h.calm.writes
  planned := h.planned
  issued := h.issued
  nresponses := (congrArg (Completions.nresponses ∘ Prod.fst) hu.futures).trans h.nresponses
  available := (congrArg Pool.available hu.pool).trans h.available
  pending := by
    rw [show w'.completions = s.world.completions from congrArg Prod.fst hu.futures]
    exact h.pending

/-- **The end of a reply** takes the session to a kept connection. -/
theorem Active.ended {data : Bytes} (h : Active plan s i e) (hanswered : s.answered = i + 1)
    (hx : e.reply.WellFormed) (hu : Untouched 0 i n s.world u)
    (hsetup : (s.world.conns 0).setup = none)
    (hend : AtEnd e.reply e.response 0 i s.wire data u)
    (hsteady : Steady (u.extractNextBodyChunk 0 data .accept)) :
    Phase plan { s with world := u.extractNextBodyChunk 0 data .accept } ∧
      ((u.extractNextBodyChunk 0 data .accept).conns 0).weight = (u.conns 0).weight := by
  have hcompletions : u.completions = s.world.completions := congrArg Prod.fst hu.futures
  obtain ⟨hclosed, hvalid, hsetup', hwrites⟩ := hu.shell
  have hsettling : Settling u.futures := hu.futures ▸ h.calm.steady.settling
  obtain ⟨k, sources, log, he, hresponses, hcompletion, hcount⟩ :=
    hend.extractNextBodyChunk hx ((congrArg Pool.next_ hu.pool).trans h.calm.next_) hsettling
      (by rw [hcompletions, h.nresponses]; exact Nat.lt_succ_self i)
      (by rw [hcompletions]; exact h.pending)
  revert hsteady
  rw [he]
  intro hsteady
  refine ⟨.kept i ⟨hsteady, ?_, ?_, ?_, ?_, ?_, ?_⟩ h.issued hanswered hend.wire ?_
    ⟨?_, ?_, ?_, ?_, ?_⟩, ?_⟩
  · exact (congrArg Prod.snd hu.futures).trans h.calm.fault
  · intro j hj
    rcases Nat.lt_succ_iff_lt_or_eq.mp hj with hlt | rfl
    · have hne := Nat.ne_of_lt hlt
      refine (h.calm.served j hlt).of_eq ?_ ?_ ?_
      · exact (update_of_ne hne _ _).trans (hu.others j hne)
      · show k.completion j = _
        rw [hcompletion, update_of_ne hne, hcompletions]
      · show k.history.countP _ = _
        rw [hcount, if_neg (Ne.symm hne), hcompletions, Nat.add_zero]
    · refine ⟨⟨e, h.planned, by simp [readOff], ?_⟩, ?_⟩
      · show k.completion j = _
        rw [hcompletion, update_self]
      · have horderly : Orderly u.completions := hsettling.1
        show k.history.countP _ = 1
        rw [hcount, if_pos rfl, horderly.uncompleted j (by rw [hcompletions]; exact h.uncompleted)]
  · exact (congrArg Pool.next_ hu.pool).trans h.calm.next_
  · simpa [readOff, hclosed, hvalid] using h.calm.isOpen
  · simpa [readOff] using hu.calm h.calm.waits
  · simpa [readOff, hwrites] using h.calm.writes
  · exact hresponses.trans (by rw [hcompletions, h.nresponses])
  · simp [readOff, hu.pool, h.available]
  · simp [readOff]
  · simpa [readOff, hsetup'] using hsetup
  · simp [readOff]
  · simp [readOff, hend.input]
  · simp [readOff, Conn.weight]

/-- **The handler of a read** takes a session that reads a reply to another
position in it, or behind it, and makes the session lighter. -/
theorem Active.runRead {p : Position} (h : Active plan s i e) (hanswered : s.answered = i + 1)
    (hx : e.reply.WellFormed)
    (hreading : Reading e.reply e.response 0 i s.wire p s.world)
    (hstep : s.world.step (.runRead 0 0 .accept) = some w') :
    Phase plan { s with world := w' } ∧ (w'.conns 0).weight < (s.world.conns 0).weight := by
  have hsteady := h.calm.steady.step hstep
  obtain ⟨op, result, hop, hresult, rfl⟩ := World.runRead_inv (World.step_eq_some hstep).2
  obtain ⟨op', hreads, -, -, hcompletion⟩ := hreading.reads
  obtain rfl : op' = op := by simpa [hreads] using hop
  obtain ⟨pos, rfl⟩ : ∃ pos, result = .ok pos := by
    rw [hresult, ReadOp.completion] at hcompletion
    split at hcompletion
    · obtain ⟨pos, -, hpos⟩ := Option.map_eq_some_iff.mp hcompletion.symm
      exact ⟨pos, hpos.symm⟩
    · obtain ⟨-, hpos⟩ := Option.ite_none_right_eq_some.mp hcompletion.symm
      exact ⟨_, (Option.some.inj hpos).symm⟩
  obtain ⟨u, hu, hlt, hafter⟩ := hreading.finishRead hx rfl rfl hreads hresult
  have hw := hu.weight
  revert hsteady hafter
  generalize (s.world.modConn 0 fun k => { k with reads := k.reads.eraseIdx 0 }).finishRead 0 op'
    (.ok pos) .accept = w'
  intro hsteady hafter
  cases hafter with
  | reading q hq hu' =>
    refine ⟨.reading i e q (h.untouched (hu.trans hu') hsteady) hanswered hq, ?_⟩
    have := hu'.weight
    have := hu'.input
    omega
  | ended t data hend hu' he =>
    subst he
    obtain ⟨hphase, hweight⟩ := h.ended hanswered hx (hu.trans hu')
      (h.calm.steady.exclusive.setup_of_res hreading.res) hend hsteady
    refine ⟨hphase, ?_⟩
    have := hu'.weight
    have := hu'.input
    omega

end reading

/-! ## Establishing the connection -/

section establishing

variable {plan : List Exchange} {s : Session} {i : RespId} {e : Exchange} {w w' : World}

/-- The connection of a request at work gets a new record. -/
theorem Active.conn (h : Active plan s i e) {k : Conn}
    (hsteady : Steady { s.world with conns := update s.world.conns 0 k })
    (hk : k.closed = (s.world.conns 0).closed ∧ k.valid = (s.world.conns 0).valid)
    (hwaits : ∀ t ∈ k.waits, t.status ≠ .expired) (hwrites : k.writes = (s.world.conns 0).writes) :
    Active plan { s with world := { s.world with conns := update s.world.conns 0 k } } i e :=
  ⟨h.calm.conn hsteady hk hwaits (hwrites ▸ h.calm.writes), h.planned, h.issued, h.nresponses,
    h.available, h.pending⟩

/-- The next stage of establishing the connection. -/
theorem Establishing.conn {stage : Stage} {result : Option (Except Bytes Unit)}
    (h : Establishing s e stage result) {k : Conn} {stage' : Stage}
    {result' : Option (Except Bytes Unit)} (hk : k.setup = some ⟨stage', result'⟩)
    (hresult : ∀ err, result' ≠ some (.error err)) (hinput : k.input = (s.world.conns 0).input) :
    Establishing { s with world := { s.world with conns := update s.world.conns 0 k } } e stage'
      result' :=
  ⟨by simpa using hk, hresult, h.opened, h.response, by simpa [hinput] using h.input⟩

/-- The record of a connection that is ready and reads its first status line. -/
def Conn.opened (k : Conn) (target : Nat) : Conn :=
  { k with
      waits := k.waits.map Wait.cancel ++ [{ target := target }]
      reads := [{ point := .status }] }

/-- The future of the connection is done, and the first request gets it. -/
theorem settleOpened_eq (hopened : w.pool.opened 0 = { tasks := [.client (.writeRequest 0)] }) :
    ∃ log, w.settleOpened 0 = { w with
      conns := update w.conns 0 ((w.conns 0).carrying 0 (w.completions.current 0)
        (w.responses 0).stallTimeout (w.responses 0).request.bytes)
      pool := { w.pool with
        opened := update w.pool.opened 0 { outcome := some (.done 0), tasks := [] } }
      log := log } := by
  rcases w.settleOpened_cases 0 (by rw [hopened]) (by simp [hopened]) with
    ⟨ht, -⟩ | ⟨t, ht, he⟩ | ⟨ht, -⟩
  · simp [hopened] at ht
  · obtain rfl : .writeRequest 0 = t := by simpa [hopened] using ht
    rw [he, World.hand_writeRequest]
    exact ⟨_, rfl⟩
  · simp [hopened] at ht

/-- The connection is ready: it reads a status line, and gets its first request. -/
theorem ready_eq (hopened : w.pool.opened 0 = { tasks := [.client (.writeRequest 0)] })
    (hreads : (w.conns 0).reads = []) (hinput : (w.conns 0).input = []) :
    ∃ log, w.ready 0 = { w with
      conns := update w.conns 0 (((w.conns 0).opened (w.stallTarget 0)).carrying 0
        (w.completions.current 0) (w.responses 0).stallTimeout (w.responses 0).request.bytes)
      pool := { w.pool with
        opened := update w.pool.opened 0 { outcome := some (.done 0), tasks := [] } }
      log := log } := by
  have hready : (w.extendTimer 0).handleResponse 0 =
      { w with conns := update w.conns 0 ((w.conns 0).opened (w.stallTarget 0)) } := by
    simp [Conn.opened, World.handleResponse, World.readDelimited, World.extendTimer, World.modConn,
      hreads, hinput, find, crlf]
  obtain ⟨log, he⟩ := settleOpened_eq
    (w := { w with conns := update w.conns 0 ((w.conns 0).opened (w.stallTarget 0)) }) hopened
  refine ⟨log, ?_⟩
  rw [World.ready, hready, he]
  simp

/-- **The request is written** on the connection that has become ready. -/
theorem Active.ready {stage : Stage} {result : Option (Except Bytes Unit)}
    (h : Active plan s 0 e) (hanswered : s.answered = 0) (hwire : s.wire = [])
    (hsetup : Establishing s e stage result)
    (hsteady : Steady ((s.world.modConn 0 fun k => { k with setup := none }).ready 0)) :
    Phase plan
        { s with world := (s.world.modConn 0 fun k => { k with setup := none }).ready 0 } ∧
      (((s.world.modConn 0 fun k => { k with setup := none }).ready 0).conns 0).weight +
          setupWeight (s.world.conns 0).setup = (s.world.conns 0).weight + 6 := by
  have hreads : (s.world.conns 0).reads = [] :=
    ((h.calm.steady.exclusive.conn 0).setup (by simp [hsetup.setup])).2
  obtain ⟨log, he⟩ := ready_eq (w := s.world.modConn 0 fun k => { k with setup := none })
    hsetup.opened (by simpa [World.modConn] using hreads) (by simpa [World.modConn] using hsetup.input)
  revert hsteady
  rw [he]
  simp only [World.modConn, update_self, update_idem]
  intro hsteady
  refine ⟨.waiting 0 e ⟨⟨hsteady, h.calm.fault, ?_, h.calm.next_, ?_, ?_, ?_⟩, h.planned, h.issued,
    h.nresponses, h.available, h.pending⟩ hanswered hwire ⟨trivial, ?_, ?_, ?_, ?_, ?_⟩, ?_⟩
  · exact fun j hj => absurd hj (Nat.not_lt_zero j)
  · simpa [Conn.carrying, Conn.opened] using h.calm.isOpen
  · simpa [Conn.carrying, Conn.opened] using not_expired_extend (not_expired_extend h.calm.waits _) _
  · intro op hop
    simp only [Conn.carrying, Conn.opened, update_self, List.mem_append, List.mem_singleton] at hop
    rcases hop with hop | rfl
    · exact h.calm.writes op hop
    · simp
  · simp [Conn.carrying, Conn.opened]
  · refine ⟨{ point := .status }, by simp [Conn.carrying, Conn.opened], rfl, rfl, ?_⟩
    simp [Conn.carrying, Conn.opened, hsetup.input, ReadOp.completion, find, crlf]
  · simp [Position.mode]
  · simp [Conn.carrying, Conn.opened, hsetup.input, Position.rest]
  · exact hsetup.response
  · simp only [Conn.weight, Conn.carrying, Conn.opened, List.length_append, List.length_singleton,
      List.length_map, List.countP_append, List.countP_singleton, setupWeight]
    simp only [Option.isNone_none, if_true]
    omega

/-- **A stage of establishing the connection is over.** -/
theorem Active.runSetup {stage : Stage} {result : Option (Except Bytes Unit)}
    (h : Active plan s 0 e) (hanswered : s.answered = 0) (hwire : s.wire = [])
    (hsetup : Establishing s e stage result) (hstep : s.world.step (.runSetup 0) = some w') :
    Phase plan { s with world := w' } ∧ (w'.conns 0).weight < (s.world.conns 0).weight := by
  have hsteady := h.calm.steady.step hstep
  obtain ⟨stage', result', hs, rfl⟩ := World.runSetup_inv (World.step_eq_some hstep).2
  obtain ⟨rfl, rfl⟩ : stage = stage' ∧ result = some result' := by
    simpa using hsetup.setup.symm.trans hs
  cases result' with
  | error err => exact absurd rfl (hsetup.succeeds err)
  | ok =>
    have hready := h.ready hanswered hwire hsetup
    rw [hs] at hready
    cases stage with
    | resolve =>
      revert hsteady
      simp only [World.finishSetup, World.modConn_modConn]
      intro hsteady
      refine ⟨.establishing e .connect none (h.conn hsteady ⟨rfl, rfl⟩ h.calm.waits rfl) hanswered
        hwire (hsetup.conn rfl (by simp) rfl), ?_⟩
      simp [World.modConn, Conn.weight, hs, setupWeight]
    | connect =>
      revert hsteady
      simp only [World.finishSetup]
      split
      · simp only [World.extendTimer, World.modConn_modConn]
        intro hsteady
        refine ⟨.establishing e .handshake none
          (h.conn hsteady ⟨rfl, rfl⟩ (not_expired_extend h.calm.waits _) rfl) hanswered hwire
          (hsetup.conn rfl (by simp) rfl), ?_⟩
        simp [World.modConn, Conn.weight, hs, setupWeight]
        omega
      · intro hsteady
        obtain ⟨hphase, hweight⟩ := hready hsteady
        refine ⟨hphase, ?_⟩
        simp only [setupWeight] at hweight
        omega
    | handshake =>
      obtain ⟨hphase, hweight⟩ := hready hsteady
      refine ⟨hphase, ?_⟩
      simp only [setupWeight] at hweight
      simp only [World.finishSetup]
      omega

end establishing

/-! ## The moves -/

section moves

variable {plan : List Exchange} {s s' : Session} {w' : World} {n : Nat}

/-- Each phase has served some requests. -/
theorem Phase.calm (h : Phase plan s) : ∃ n, Calm plan n s.world := by
  cases h with
  | fresh calm => exact ⟨0, calm⟩
  | establishing e stage result active => exact ⟨0, active.calm⟩
  | waiting i e active => exact ⟨i, active.calm⟩
  | reading i e p active => exact ⟨i, active.calm⟩
  | kept i calm => exact ⟨i + 1, calm⟩

/-- Before the first request there is no connection. -/
theorem Calm.conn_fresh (h : Calm plan n s.world) (hcreated : s.world.pool.created = 0) :
    s.world.conns 0 = {} :=
  (h.steady.exclusive.fresh 0 (Nat.le_of_eq hcreated)).1

/-- While a connection is established nothing is read or written on it. -/
theorem Establishing.blank {e : Exchange} {stage : Stage} {result : Option (Except Bytes Unit)}
    (h : Establishing s e stage result) (hsteady : Steady s.world) :
    (s.world.conns 0).reads = [] ∧ (s.world.conns 0).res = none := by
  obtain ⟨hopened, hreads⟩ := (hsteady.exclusive.conn 0).setup (by simp [h.setup])
  exact ⟨hreads, ((hsteady.exclusive.conn 0).opening hopened).1⟩

/-- A connection is being established in one phase only. -/
theorem Phase.setup (h : Phase plan s) {stage : Stage} {result : Option (Except Bytes Unit)}
    (hs : (s.world.conns 0).setup = some ⟨stage, result⟩) :
    s.world.pool.created = 0 ∧ result = none ∨
    ∃ e, Active plan s 0 e ∧ s.answered = 0 ∧ s.wire = [] ∧ Establishing s e stage result := by
  cases h with
  | fresh calm _ _ _ hcreated =>
    rw [calm.conn_fresh hcreated] at hs
    cases hs
    exact .inl ⟨hcreated, rfl⟩
  | establishing e stage' result' active hanswered hwire setup =>
    obtain ⟨rfl, rfl⟩ : stage' = stage ∧ result' = result := by
      simpa using setup.setup.symm.trans hs
    exact .inr ⟨e, active, hanswered, hwire, setup⟩
  | waiting i e active _ _ reading =>
    rw [active.calm.steady.exclusive.setup_of_res reading.res] at hs
    cases hs
  | reading i e p active _ reading =>
    rw [active.calm.steady.exclusive.setup_of_res reading.res] at hs
    cases hs
  | kept i _ _ _ _ _ kept =>
    rw [kept.setup] at hs
    cases hs

/-- A read is outstanding in three phases; while the socket is empty and a reply is
waited for, or none is, it is pending. -/
theorem Phase.reads (h : Phase plan s) {j : Nat} {op : ReadOp}
    (hop : (s.world.conns 0).reads[j]? = some op) :
    (op.result = none ∧ s.wire = []) ∨
    ∃ i e p, Active plan s i e ∧ s.answered = i + 1 ∧
      Reading e.reply e.response 0 i s.wire p s.world ∧ (s.world.conns 0).reads = [op] := by
  cases h with
  | fresh calm _ _ _ hcreated =>
    rw [calm.conn_fresh hcreated] at hop
    simp at hop
  | establishing e stage result active _ _ setup =>
    rw [(setup.blank active.calm.steady).1] at hop
    simp at hop
  | waiting i e active _ hwire reading =>
    obtain ⟨op', hreads, -, hwanted, hcompletion⟩ := reading.reads
    obtain rfl : op = op' := by
      rw [hreads] at hop
      exact List.mem_singleton.mp (List.mem_of_getElem? hop)
    have hinput : (s.world.conns 0).input = [] := by simpa [Position.rest] using reading.rest
    refine .inl ⟨?_, hwire⟩
    rw [hcompletion, ReadOp.completion, hwanted, hinput]
    rfl
  | reading i e p active hanswered reading =>
    obtain ⟨op', hreads, -⟩ := reading.reads
    obtain rfl : op = op' := by
      rw [hreads] at hop
      exact List.mem_singleton.mp (List.mem_of_getElem? hop)
    exact .inr ⟨i, e, p, active, hanswered, reading, hreads⟩
  | kept i _ _ _ hwire _ kept =>
    rw [kept.reads] at hop
    obtain rfl := List.mem_singleton.mp (List.mem_of_getElem? hop)
    exact .inl ⟨rfl, hwire⟩

/-- **The client issues a request.** -/
theorem Phase.issue (h : Phase plan s) (hstep : s.step plan .issue = some s') :
    Phase plan s' ∧ s'.weight plan < s.weight plan := by
  simp only [Session.step] at hstep
  split at hstep
  · rename_i e hplan
    obtain ⟨hidle, hstep⟩ := Option.ite_none_right_eq_some.mp hstep
    obtain ⟨w, hw, rfl⟩ := Option.map_eq_some_iff.mp hstep
    obtain ⟨n, calm⟩ := h.calm
    have hsteady := calm.steady.step hw
    obtain rfl : s.world.request e.request e.stall = w :=
      Option.some.inj (World.step_eq_some hw).2
    have hlt := lt_length_of_planned hplan
    cases h with
    | fresh calm hissued hanswered hwire hcreated havailable hroom hresponses =>
      rw [hissued] at hplan
      obtain ⟨hphase, hweight⟩ := Phase.issue_fresh calm hissued hanswered hwire hcreated
        havailable hroom hresponses hplan hsteady
      refine ⟨hphase, ?_⟩
      simp only [Session.weight]
      omega
    | establishing e' stage result active =>
      rw [active.not_idle] at hidle
      cases hidle
    | waiting i e' active =>
      rw [active.not_idle] at hidle
      cases hidle
    | reading i e' p active =>
      rw [active.not_idle] at hidle
      cases hidle
    | kept i calm hissued hanswered hwire hresponses kept =>
      rw [hissued] at hplan
      obtain ⟨hphase, hweight⟩ := Phase.issue_kept calm hissued hanswered hwire hresponses kept
        hplan hsteady
      refine ⟨hphase, ?_⟩
      simp only [Session.weight]
      omega
  · cases hstep

/-- **The server answers.** -/
theorem Phase.answer (h : Phase plan s) (hstep : s.step plan .answer = some s') :
    Phase plan s' ∧ s'.weight plan < s.weight plan := by
  simp only [Session.step] at hstep
  split at hstep
  · rename_i e hplan
    obtain ⟨⟨hlt, hwritten⟩, hstep⟩ := Option.ite_none_right_eq_some.mp hstep
    cases hstep
    have hres : (s.world.conns 0).res = some s.answered := by
      simp only [Session.written, Bool.and_eq_true, beq_iff_eq] at hwritten
      exact hwritten.1
    have hdrop : plan.drop s.answered = e :: plan.drop (s.answered + 1) := by
      obtain ⟨hj, he⟩ := List.getElem?_eq_some_iff.mp hplan
      rw [List.drop_eq_getElem_cons hj, he]
    refine ⟨?_, ?_⟩
    · cases h with
      | fresh _ hissued =>
        rw [hissued] at hlt
        exact absurd hlt (Nat.not_lt_zero _)
      | establishing e' stage result active _ _ setup =>
        rw [(setup.blank active.calm.steady).2] at hres
        cases hres
      | waiting i e' active hanswered hwire reading =>
        obtain rfl : e' = e := by
          rw [hanswered, active.planned] at hplan
          exact Option.some.inj hplan
        refine .reading i e' .status ⟨active.calm, active.planned, active.issued, active.nresponses,
          active.available, active.pending⟩ (congrArg (· + 1) hanswered) ?_
        rwa [hwire, List.nil_append]
      | reading i e' p active hanswered =>
        rw [hanswered, active.issued] at hlt
        exact absurd hlt (Nat.lt_irrefl _)
      | kept i _ hissued hanswered =>
        rw [hanswered, hissued] at hlt
        exact absurd hlt (Nat.lt_irrefl _)
    · simp only [Session.weight, hdrop, List.map_cons, List.sum_cons, List.length_append]
      omega
  · cases hstep

/-- **The socket is read.** -/
theorem Phase.deliver (h : Phase plan s) {k : Nat} (hstep : s.step plan (.deliver k) = some s') :
    Phase plan s' ∧ s'.weight plan < s.weight plan := by
  obtain ⟨w, hw, rfl⟩ := Option.map_eq_some_iff.mp hstep
  obtain ⟨n, calm⟩ := h.calm
  have hsteady := calm.steady.step hw
  obtain ⟨op, hop, hnone, -, hadmits, rfl⟩ := World.receive_inv (World.step_eq_some hw).2
  have hne : s.wire.take k ≠ [] := by
    rintro hnil
    rw [hnil, ReadOp.admits] at hadmits
    split at hadmits <;> simp at hadmits
  rcases h.reads hop with ⟨-, hwire⟩ | ⟨i, e, p, active, hanswered, reading, hreads⟩
  · rw [hwire] at hne
    simp at hne
  · refine ⟨.reading i e p ?_ hanswered ?_, ?_⟩
    · have := active.conn (k := { s.world.conns 0 with
          input := (s.world.conns 0).input ++ s.wire.take k
          reads := (s.world.conns 0).reads.set 0 { op with
            result := op.completion ((s.world.conns 0).input ++ s.wire.take k) } }) hsteady ⟨rfl, rfl⟩
        active.calm.waits rfl
      exact ⟨this.calm, this.planned, this.issued, this.nresponses, this.available, this.pending⟩
    · rw [← List.take_append_drop k s.wire] at reading
      exact reading.receive hreads
    · have hlen := congrArg List.length (List.take_append_drop k s.wire)
      have hpos := List.length_pos_iff.mpr hne
      rw [List.length_append] at hlen
      simp only [Session.weight, Conn.weight, World.receive, World.modConn, update_self,
        List.length_append]
      omega

/-- Neither writes nor waits nor the state of an attempt to connect say in which
phase the session is. -/
theorem Phase.event (h : Phase plan s) (hplan : ∀ e ∈ plan, e.reply.WellFormed) {ev : Event} (hcalm : ev.calm = true)
    (hstep : s.world.step ev = some w') :
    Phase plan { s with world := w' } ∧ (w'.conns 0).weight < (s.world.conns 0).weight := by
  obtain ⟨n, calm⟩ := h.calm
  have hsteady := calm.steady.step hstep
  have happly := (World.step_eq_some hstep).2
  match ev, hcalm with
  | .setupDone 0 (.ok _), _ =>
    obtain ⟨stage, hs, hcreated, -, rfl⟩ := World.setupDone_inv happly
    rcases h.setup hs with ⟨hzero, -⟩ | ⟨e, active, hanswered, hwire, setup⟩
    · rw [hzero] at hcreated
      cases hcreated
    · refine ⟨.establishing e stage (some (.ok ())) (active.conn hsteady ⟨rfl, rfl⟩
        active.calm.waits rfl) hanswered hwire (setup.conn rfl (by simp) rfl), ?_⟩
      cases stage <;> simp [World.modConn, Conn.weight, hs, setupWeight]
  | .runSetup 0, _ =>
    obtain ⟨stage, result, hs, -⟩ := World.runSetup_inv happly
    rcases h.setup hs with ⟨-, hnone⟩ | ⟨e, active, hanswered, hwire, setup⟩
    · cases hnone
    · exact active.runSetup hanswered hwire setup hstep
  | .runRead 0 0 .accept, _ =>
    obtain ⟨op, result, hop, hresult, -⟩ := World.runRead_inv happly
    rcases h.reads hop with ⟨hnone, -⟩ | ⟨i, e, p, active, hanswered, reading, -⟩
    · rw [hnone] at hresult
      cases hresult
    · exact active.runRead hanswered (hplan e (List.mem_of_getElem? active.planned)) reading hstep
  | .writeDone 0 j (.ok _), _ =>
    obtain ⟨op, hop, hnone, -, rfl⟩ := World.writeDone_inv happly
    obtain ⟨hj, hget⟩ := List.getElem?_eq_some_iff.mp hop
    refine ⟨h.conn hsteady ⟨rfl, rfl, rfl, rfl, rfl, rfl⟩ rfl (fun hw => hw) ?_, ?_⟩
    · intro hw op' hop' err
      rcases List.mem_or_eq_of_mem_set hop' with hmem | rfl
      · exact hw op' hmem err
      · simp
    · -- one write less is outstanding
      have hpos : 0 < (s.world.conns 0).writes.countP (·.result.isNone) :=
        List.countP_pos_iff.mpr ⟨op, List.mem_of_getElem? hop, by simp [hnone]⟩
      simp only [World.modConn, Conn.weight, update_self, List.length_set, List.countP_set hj, hget,
        hnone, Option.isNone_none, Option.isNone_some, if_true, Bool.false_eq_true, if_false]
      omega
  | .runWrite 0 j _, _ =>
    obtain ⟨op, result, hop, hresult, rfl⟩ := World.runWrite_inv happly
    obtain ⟨hj, -⟩ := List.getElem?_eq_some_iff.mp hop
    cases result with
    | error err => exact absurd hresult (calm.writes op (List.mem_of_getElem? hop) err)
    | ok =>
      revert hsteady
      simp only [World.finishWrite, World.extendTimer, World.modConn_modConn]
      intro hsteady
      refine ⟨h.conn hsteady ⟨rfl, rfl, rfl, rfl, rfl, rfl⟩ rfl
        (fun hw => not_expired_extend hw _) (fun hw op' hop' => hw op' (List.mem_of_mem_eraseIdx hop')),
        ?_⟩
      have hcount := (List.eraseIdx_sublist (s.world.conns 0).writes j).countP_le
        (p := (·.result.isNone))
      simp only [World.modConn, Conn.weight, update_self, List.length_append, List.length_map,
        List.length_singleton, List.length_eraseIdx_of_lt hj]
      omega
  | .runWait 0 j _, _ =>
    obtain ⟨t, ht, hpending, rfl⟩ := World.runWait_inv happly
    obtain ⟨hj, -⟩ := List.getElem?_eq_some_iff.mp ht
    -- no timer has expired, and a pending wait has no handler to run
    have hcancelled : t.status = .cancelled := by
      have := calm.waits t (List.mem_of_getElem? ht)
      cases hs : t.status <;> simp_all
    revert hsteady
    simp only [World.finishWait, hcancelled]
    intro hsteady
    refine ⟨h.conn hsteady ⟨rfl, rfl, rfl, rfl, rfl, rfl⟩ rfl
      (fun hw t' ht' => hw t' (List.mem_of_mem_eraseIdx ht')) (fun hw => hw), ?_⟩
    simp only [World.modConn, Conn.weight, update_self, List.length_eraseIdx_of_lt hj]
    omega

/-- **Every move** leads from phase to phase and makes the session lighter. -/
theorem Phase.step (h : Phase plan s) (hplan : ∀ e ∈ plan, e.reply.WellFormed) {move : Move}
    (hstep : s.step plan move = some s') : Phase plan s' ∧ s'.weight plan < s.weight plan := by
  cases move with
  | issue => exact h.issue hstep
  | answer => exact h.answer hstep
  | deliver k => exact h.deliver hstep
  | client ev =>
    obtain ⟨hcalm, hstep⟩ := Option.ite_none_right_eq_some.mp hstep
    obtain ⟨w, hw, rfl⟩ := Option.map_eq_some_iff.mp hstep
    obtain ⟨hphase, hweight⟩ := h.event hplan hcalm hw
    refine ⟨hphase, ?_⟩
    simp only [Session.weight]
    omega

end moves

/-! ## Progress -/

section progress

variable {plan : List Exchange} {s : Session} {i : RespId} {e : Exchange}

theorem Session.can_move {m : Move} (h : (s.step plan m).isSome = true) :
    ∃ move s', s.step plan move = some s' :=
  ⟨m, Option.isSome_iff_exists.mp h⟩

/-- The client goes on. -/
theorem Session.client_move {v : Event} (hcalm : v.calm = true)
    (h : (s.world.step v).isSome = true) : ∃ move s', s.step plan move = some s' :=
  Session.can_move (m := .client v) (by simp [Session.step, hcalm, h])

/-- An idle session issues the next request, if there is one. -/
theorem Session.issue_move (hplan : plan[s.issued]? = some e) (hidle : s.idle = true)
    (hfault : s.world.fault = none) : ∃ move s', s.step plan move = some s' :=
  Session.can_move (m := .issue) (by
    simp [Session.step, hplan, hidle, World.step, hfault, World.apply])

/-- A connection is established stage by stage. -/
theorem Establishing.move {stage : Stage} {result : Option (Except Bytes Unit)}
    (h : Establishing s e stage result) (active : Active plan s 0 e) :
    ∃ move s', s.step plan move = some s' := by
  have hcreated : 0 < s.world.pool.created := by
    by_contra hzero
    have hfresh := (active.calm.steady.exclusive.fresh 0 (Nat.not_lt.mp hzero)).2
    rw [h.opened] at hfresh
    cases hfresh
  cases result with
  | none =>
    refine Session.client_move (v := .setupDone 0 (.ok ())) rfl ?_
    simp [World.step, active.calm.fault, World.apply, h.setup, hcreated, allowedResult,
      active.calm.isOpen.1]
  | some result =>
    refine Session.client_move (v := .runSetup 0) rfl ?_
    simp [World.step, active.calm.fault, World.apply, h.setup]

/-- A request is written, and then answered. -/
theorem Active.written_move (h : Active plan s i e) (hanswered : s.answered = i)
    (hres : (s.world.conns 0).res = some i) : ∃ move s', s.step plan move = some s' := by
  by_cases hwritten : (s.world.conns 0).writes.all (·.result.isSome) = true
  · refine Session.can_move (m := .answer) ?_
    simp [Session.step, Session.written, h.planned, hanswered, h.issued, hres, hwritten]
  · obtain ⟨op, hmem, hnone⟩ : ∃ op ∈ (s.world.conns 0).writes, op.result = none := by
      simpa using hwritten
    obtain ⟨j, hj⟩ := List.mem_iff_getElem?.mp hmem
    refine Session.client_move (v := .writeDone 0 j (.ok ())) rfl ?_
    simp [World.step, h.calm.fault, World.apply, hj, hnone, allowedResult, h.calm.isOpen.1]

/-- A reply is read, byte by byte if need be. -/
theorem Active.reading_move {p : Position} (h : Active plan s i e)
    (hreading : Reading e.reply e.response 0 i s.wire p s.world) :
    ∃ move s', s.step plan move = some s' := by
  obtain ⟨op, hreads, -⟩ := hreading.reads
  rcases hresult : op.result with _ | result
  · obtain ⟨-, hadmits⟩ := hreading.admits hreads hresult
    refine Session.can_move (m := .deliver 1) ?_
    simp [Session.step, World.step, h.calm.fault, World.apply, hreads, hresult, h.calm.isOpen.1,
      hadmits]
  · refine Session.client_move (v := .runRead 0 0 .accept) rfl ?_
    simp [World.step, h.calm.fault, World.apply, hreads, hresult]

/-- **There is a move left** until all requests have completed. -/
theorem Phase.progress (h : Phase plan s) :
    s.Finished plan ∨ ∃ move s', s.step plan move = some s' := by
  cases h with
  | fresh calm hissued =>
    rcases hplan : plan[0]? with _ | e
    · have hlen : plan.length = 0 := Nat.le_zero.mp (List.getElem?_eq_none_iff.mp hplan)
      exact .inl ⟨hissued.trans hlen.symm, fun j hj => absurd hj (hlen ▸ Nat.not_lt_zero j)⟩
    · exact .inr (Session.issue_move (hissued ▸ hplan) (by simp [Session.idle, hissued]) calm.fault)
  | establishing e stage result active _ _ setup => exact .inr (setup.move active)
  | waiting i e active hanswered _ reading => exact .inr (active.written_move hanswered reading.res)
  | reading i e p active _ reading => exact .inr (active.reading_move reading)
  | kept i calm hissued =>
    have hcompleted : ∀ j, j < i + 1 → s.world.completions.completion j ≠ none := by
      intro j hj
      obtain ⟨e, -, -, hdone⟩ := (calm.served j hj).stored
      simp [hdone]
    rcases hplan : plan[i + 1]? with _ | e
    · obtain ⟨e, hlast, -⟩ := (calm.served i (Nat.lt_succ_self i)).stored
      have hlen : plan.length = i + 1 := Nat.le_antisymm (List.getElem?_eq_none_iff.mp hplan)
        (lt_length_of_planned hlast)
      exact .inl ⟨hissued.trans hlen.symm, fun j hj => hcompleted j (hlen ▸ hj)⟩
    · refine .inr (Session.issue_move (hissued ▸ hplan) ?_ calm.fault)
      simp [Session.idle, hissued, Option.isSome_iff_ne_none, hcompleted i (Nat.lt_succ_self i)]

end progress

/-! ## Runs -/

section runs

variable {plan : List Exchange} {s : Session} {i : RespId} {e : Exchange} {n : Nat}

theorem Calm.uncompleted (h : Calm plan n s.world) {j : RespId}
    (hj : s.world.completions.nresponses ≤ j) : s.world.completions.completion j = none := by
  have ho : Orderly s.world.completions := h.steady.settling.1
  exact (ho.freshResponse j hj).1

/-- While a request is at work, those before it have completed, and no other. -/
theorem Active.framed (h : Active plan s i e) : Framed plan s where
  served j hj := by
    refine h.calm.served j (Nat.lt_of_not_le fun hle => hj ?_)
    rcases Nat.eq_or_lt_of_le hle with rfl | hlt
    · exact h.uncompleted
    · exact h.calm.uncompleted (h.nresponses ▸ hlt)
  inTurn j hj := by
    obtain ⟨e, -, -, hdone⟩ := (h.calm.served j (by have := h.issued; omega)).stored
    simp [hdone]
  released j hj hne := by
    obtain rfl : j = i := Nat.succ.inj (hj.trans h.issued)
    exact absurd h.uncompleted hne

/-- **Each phase has the property.** -/
theorem Phase.framed (h : Phase plan s) : Framed plan s := by
  cases h with
  | fresh calm hissued _ _ _ _ _ hresponses =>
    refine ⟨fun j hj => absurd (calm.uncompleted (hresponses ▸ Nat.zero_le j)) hj, ?_, ?_⟩
    · intro j hj
      rw [hissued] at hj
      exact absurd hj (Nat.not_lt_zero _)
    · intro j hj
      rw [hissued] at hj
      cases hj
  | establishing e stage result active => exact active.framed
  | waiting i e active => exact active.framed
  | reading i e p active => exact active.framed
  | kept i calm hissued _ hwire hresponses kept =>
    refine ⟨?_, ?_, ?_⟩
    · exact fun j hj => calm.served j (Nat.lt_of_not_le fun hle =>
        hj (calm.uncompleted (hresponses ▸ hle)))
    · intro j hj
      obtain ⟨e, -, -, hdone⟩ := (calm.served j (by omega)).stored
      simp [hdone]
    · exact fun j _ _ => ⟨kept.available, calm.isOpen.1, kept.res, kept.input, hwire⟩

/-- A session starts fresh, with room for a connection. -/
theorem Phase.init (plan : List Exchange)
    (eraseEnd : List (Option FutId) → List (Option FutId)) (tls limit : Bool) (max : Nat)
    (hroom : limit = true → 0 < max) : Phase plan (Session.init eraseEnd tls limit max) := by
  refine .fresh ⟨Steady.init eraseEnd tls limit max, rfl, fun j hj => absurd hj (Nat.not_lt_zero j),
    rfl, ⟨rfl, rfl⟩, ?_, ?_⟩ rfl rfl rfl rfl rfl ?_ rfl
  · intro t ht
    cases ht
  · intro op hop
    cases hop
  · cases limit with
    | false => rfl
    | true => simp [Session.init, World.init, Pool.canConnect, hroom]

end runs

/-- **Framing over a kept-alive connection**: in every run of a session, with any
number of requests and any socket reads, each completed request has its own reply
and completed once, they complete in turn, and the connection is back in the pool
with nothing left to read behind each; a move is left until all have completed,
and no run goes on for ever. -/
theorem framing_of_run {plan : List Exchange}
    {eraseEnd : List (Option FutId) → List (Option FutId)} {tls limit : Bool} {max : Nat}
    (hplan : ∀ e ∈ plan, e.reply.WellFormed) (hroom : limit = true → 0 < max) {s : Session}
    (run : Run (Session.step plan) anyEvent (Session.init eraseEnd tls limit max) s) :
    Framed plan s ∧ (s.Finished plan ∨ ∃ move s', s.step plan move = some s') ∧
      ∀ move s', s.step plan move = some s' → s'.weight plan < s.weight plan := by
  have h : Phase plan s := run.invariant (Phase.init plan eraseEnd tls limit max hroom)
    fun hphase _ hstep => (hphase.step hplan hstep).1
  exact ⟨h.framed, h.progress, fun _ _ hstep => (h.step hplan hstep).2⟩

/-- A reply with a counted body, which is a line separator. -/
def countedReply : Reply :=
  { version := ascii "HTTP/1.1", code := ascii "200", message := ascii "OK"
    lines := [ascii "Content-Length: 2"], framing := .counted crlf }

/-- A reply in one chunk. -/
def chunkedReply : Reply :=
  { version := ascii "HTTP/1.1", code := ascii "404", message := ascii "Not Found"
    lines := [ascii "Transfer-Encoding: chunked"]
    framing := .chunked [(ascii "3", ascii "hey")] (ascii "0") }

theorem countedReply_wellFormed : countedReply.WellFormed where
  version := by decide
  code := by decide
  statusLine := by decide
  lines := by decide
  keepsOpen := by decide
  framed := ⟨⟨_, rfl, by decide⟩, by decide, by decide⟩

theorem chunkedReply_wellFormed : chunkedReply.WellFormed where
  version := by decide
  code := by decide
  statusLine := by decide
  lines := by decide
  keepsOpen := by decide
  framed := ⟨⟨_, rfl, by decide⟩, by decide, by
    intro chunk hchunk
    obtain rfl := List.mem_singleton.mp hchunk
    exact ⟨⟨by decide, by decide, by decide, by decide⟩, by decide⟩,
    ⟨by decide, by decide, by decide, by decide⟩⟩

/-- Two requests, one for each framing. -/
def keptAlivePlan : List Exchange :=
  [⟨getRequest, 30000, countedReply⟩, ⟨getRequest, 30000, chunkedReply⟩]

/-- The first reply is cut inside its first line separator, the second comes at
once. -/
def keptAliveMoves : List Move :=
  [.issue] ++ (connects 0).map .client ++
    [.client (.writeDone 0 0 (.ok ())), .client (.runWrite 0 0 .accept), .answer, .deliver 16,
      .deliver 100] ++ List.replicate 3 (.client (.runRead 0 0 .accept)) ++
    [.issue, .client (.writeDone 0 0 (.ok ())), .answer, .deliver 100] ++
    List.replicate 6 (.client (.runRead 0 0 .accept))

/-- Both requests of the two-request session complete, each with its own reply. -/
theorem framing_keptAlive :
    ∃ s, exec (Session.step keptAlivePlan) (Session.init id false true 1) keptAliveMoves = some s ∧
      (s.world.responses 0).body = crlf ∧ (s.world.responses 1).body = ascii "hey" ∧
      Framed keptAlivePlan s := by
  have hbodies : (exec (Session.step keptAlivePlan) (Session.init id false true 1)
      keptAliveMoves).map (fun s => ((s.world.responses 0).body, (s.world.responses 1).body)) =
      some (crlf, ascii "hey") := by decide
  obtain ⟨s, hs, hbodies⟩ := Option.map_eq_some_iff.mp hbodies
  rw [Prod.mk.injEq] at hbodies
  refine ⟨s, hs, hbodies.1, hbodies.2, (framing_of_run ?_ (fun _ => Nat.one_pos)
    (Run.of_exec (fun _ _ => trivial) keptAliveMoves hs)).1⟩
  intro e he
  simp only [keptAlivePlan, List.mem_cons, List.not_mem_nil, or_false] at he
  rcases he with rfl | rfl
  · exact countedReply_wellFormed
  · exact chunkedReply_wellFormed

end AsioProtocols
