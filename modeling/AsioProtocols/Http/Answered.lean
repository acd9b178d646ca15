import AsioProtocols.Http.Effects
import AsioProtocols.Http.Slots
import AsioProtocols.Http.Watchdog

/-!
# A client at rest owes nobody an answer

When no operation is outstanding and no handler is queued, only the program can make
anything happen: the client is `Quiescent`. A request that is not completed then would
never be. `answered_of_run` says that there is none, in every run that is `dependable`:
`completion()` of every request and every future that `next()` returned is settled, and every
connection is closed. What a run depends on is that no attempt to connect fails and every
failing read has a hook, and that the program leaves the connections to the client: it closes
none that owes an answer and removes none.

A request gets lost if nobody has it. `Owed` says who does: as long as `completion()` of a
response is pending its current attempt is, and the request is a callback of a pending
future of `next()`, or a connection carries the response with that attempt (`Whereabouts`).
This holds in every run, whatever fails. At rest the pool has no pending future left
(`Slots`), every connection is closed because its stall timer would be running
(`Guarded`), and a closed connection owes nothing (`Carried`).
-/

namespace AsioProtocols

open Function

/-! ## The property -/

/-- A call of the program; all other events are completions and handlers. -/
def Event.called : Event → Bool
  | .request _ _ | .next | .release _ | .close _ | .remove _ | .maxConnections _
  | .limitConnections _ => true
  | _ => false

/-- The program has not stopped, and nothing can happen before it makes a call. -/
structure Quiescent (w : World) : Prop where
  running : w.fault = none
  silent : ∀ e, e.called = false → w.step e = none

/-- **Everything is answered**: the requests, and the futures of `next()`. -/
structure Answered (w : World) : Prop where
  requests : ∀ r < w.completions.nresponses, w.completions.completion r ≠ none
  opened : ∀ f < w.pool.created, (w.pool.opened f).outcome ≠ none
  queued : ∀ q < w.pool.nqueued, (w.pool.queued q).outcome ≠ none
  closed : ∀ c < w.pool.created, (w.conns c).closed = true

/-- Every failing read has its hook, and no attempt to connect fails; the program closes no
connection that owes an answer, removes none, and sets no maximum of 0. -/
def dependable (w : World) (e : Event) : Prop := hooked w e ∧ establishesPositive w e

instance (w : World) (e : Event) : Decidable (dependable w e) :=
  inferInstanceAs (Decidable (_ ∧ _))

/-! ## Nothing outstanding -/

/-- Nothing is outstanding on a connection. -/
structure Conn.Still (k : Conn) : Prop where
  setup : k.setup = none
  reads : k.reads = []
  writes : k.writes = []
  waits : k.waits = []

instance (k : Conn) : Decidable k.Still :=
  decidable_of_iff (k.setup.isNone ∧ k.reads.isEmpty ∧ k.writes.isEmpty ∧ k.waits.isEmpty) <| by
    simp only [Option.isNone_iff_eq_none, List.isEmpty_iff]
    exact ⟨fun ⟨hs, hr, hw, ht⟩ => ⟨hs, hr, hw, ht⟩, fun h => ⟨h.setup, h.reads, h.writes, h.waits⟩⟩

namespace Quiescent

variable {w : World} {c : ConnId}

/-- An operation that is outstanding can complete, and a handler can run. -/
theorem still (h : Quiescent w) (hc : c < w.pool.created) : (w.conns c).Still := by
  have silent : ∀ e, e.called = false → w.apply e = none := by
    intro e he
    have hstep := h.silent e he
    rwa [World.step, h.running] at hstep
  constructor
  · by_contra hne
    obtain ⟨⟨stage, result⟩, hset⟩ := Option.ne_none_iff_exists'.mp hne
    cases result with
    | none =>
      have hnone := silent (.setupDone c (.error [])) rfl
      simp [World.apply, hset, hc, allowedResult] at hnone
    | some result =>
      have hnone := silent (.runSetup c) rfl
      simp [World.apply, hset] at hnone
  · by_contra hne
    obtain ⟨⟨p, wanted, result⟩, rest, hreads⟩ := List.exists_cons_of_ne_nil hne
    cases result with
    | none =>
      have hnone := silent (.readFails c 0 []) rfl
      simp [World.apply, hreads] at hnone
    | some result =>
      have hnone := silent (.runRead c 0 .accept) rfl
      simp [World.apply, hreads] at hnone
  · by_contra hne
    obtain ⟨⟨data, result⟩, rest, hwrites⟩ := List.exists_cons_of_ne_nil hne
    cases result with
    | none =>
      have hnone := silent (.writeDone c 0 (.error [])) rfl
      simp [World.apply, hwrites, allowedResult] at hnone
    | some result =>
      have hnone := silent (.runWrite c 0 .accept) rfl
      simp [World.apply, hwrites] at hnone
  · by_contra hne
    obtain ⟨⟨target, status⟩, rest, hwaits⟩ := List.exists_cons_of_ne_nil hne
    by_cases hpending : status = .pending
    · have hnone := silent (.expire c 0) rfl
      simp [World.apply, hwaits, hpending] at hnone
    · have hnone := silent (.runWait c 0 .accept) rfl
      simp [World.apply, hwaits, hpending] at hnone

/-- Where nothing is outstanding, nothing can happen by itself. -/
theorem of_still (hw : Exclusive w) (running : w.fault = none)
    (still : ∀ c < w.pool.created, (w.conns c).Still) : Quiescent w := by
  refine ⟨running, fun e he => ?_⟩
  rw [World.step, running]
  -- a connection that was not made has nothing outstanding either, but for its first stage
  have lists : ∀ c, (w.conns c).reads = [] ∧ (w.conns c).writes = [] ∧ (w.conns c).waits = [] := by
    intro c
    rcases Nat.lt_or_ge c w.pool.created with hc | hc
    · exact ⟨(still c hc).reads, (still c hc).writes, (still c hc).waits⟩
    · rw [(hw.fresh c hc).1]
      exact ⟨rfl, rfl, rfl⟩
  have setup : ∀ c op, (w.conns c).setup = some op → ¬ c < w.pool.created ∧ op.result = none := by
    intro c op hop
    rcases Nat.lt_or_ge c w.pool.created with hc | hc
    · rw [(still c hc).setup] at hop
      cases hop
    · rw [(hw.fresh c hc).1] at hop
      cases hop
      exact ⟨Nat.not_lt.mpr hc, rfl⟩
  cases e with
  | setupDone c result =>
    rcases hset : (w.conns c).setup with _ | ⟨stage, _ | result'⟩
    · simp [World.apply, hset]
    · simp [World.apply, hset, (setup c _ hset).1]
    · simp [World.apply, hset]
  | runSetup c =>
    rcases hset : (w.conns c).setup with _ | ⟨stage, _ | result'⟩
    · simp [World.apply, hset]
    · simp [World.apply, hset]
    · cases (setup c _ hset).2
  | receive c i bytes => simp [World.apply, (lists c).1]
  | readFails c i err => simp [World.apply, (lists c).1]
  | runRead c i v => simp [World.apply, (lists c).1]
  | writeDone c i result => simp [World.apply, (lists c).2.1]
  | runWrite c i v => simp [World.apply, (lists c).2.1]
  | expire c i => simp [World.apply, (lists c).2.2]
  | runWait c i v => simp [World.apply, (lists c).2.2]
  | _ => cases he

end Quiescent

/-! ## Who has a request -/

/-- Where the request of `r` is: among the callbacks `ts` that are about to run, on a
pending future of `next()`, or written on the connection that carries the response. -/
inductive Whereabouts (ts : List ClientTask) (w : World) (r : RespId) : Prop
  | atWork (task : .writeRequest r ∈ ts)
  | queued (q : QueueId) (made : q < w.pool.nqueued) (pending : (w.pool.queued q).outcome = none)
      (task : .writeRequest r ∈ (w.pool.queued q).tasks)
  | opened (f : FutId) (made : f < w.pool.created) (pending : (w.pool.opened f).outcome = none)
      (task : .client (.writeRequest r) ∈ (w.pool.opened f).tasks)
  | carried (c : ConnId) (res : (w.conns c).res = some r)
      (attempt : (w.conns c).attempt = some (w.completions.current r))

/-- **Somebody has every request** that is not completed, `x` aside, and its current attempt
is pending. -/
structure Owed (x : Option RespId) (ts : List ClientTask) (w : World) : Prop where
  pending : ∀ r < w.completions.nresponses, w.completions.completion r = none →
    (w.completions.attempts (w.completions.current r)).outcome = none
  placed : ∀ r < w.completions.nresponses, w.completions.completion r = none → some r ≠ x →
    Whereabouts ts w r

namespace Whereabouts

variable {ts ts' : List ClientTask} {w w' : World} {r : RespId}

/-- What has the request still has it. -/
theorem mono (h : Whereabouts ts w r) (tasks : .writeRequest r ∈ ts → Whereabouts ts' w' r)
    (nqueued : w.pool.nqueued ≤ w'.pool.nqueued)
    (queued : ∀ q < w.pool.nqueued, w'.pool.queued q = w.pool.queued q)
    (created : w.pool.created ≤ w'.pool.created)
    (opened : ∀ f < w.pool.created, w'.pool.opened f = w.pool.opened f)
    (current : w'.completions.current r = w.completions.current r)
    (conns : ∀ c, (w.conns c).res = some r →
      (w'.conns c).res = some r ∧ (w'.conns c).attempt = (w.conns c).attempt) :
    Whereabouts ts' w' r := by
  cases h with
  | atWork task => exact tasks task
  | queued q made pending task =>
    refine .queued q (Nat.lt_of_lt_of_le made nqueued) ?_ ?_ <;> rw [queued q made]
    · exact pending
    · exact task
  | opened f made pending task =>
    refine .opened f (Nat.lt_of_lt_of_le made created) ?_ ?_ <;> rw [opened f made]
    · exact pending
    · exact task
  | carried c res attempt =>
    obtain ⟨hres, hattempt⟩ := conns c res
    exact .carried c hres (by rw [hattempt, attempt, current])

end Whereabouts

namespace Owed

variable {x : Option RespId} {ts : List ClientTask} {w w' : World} {c : ConnId} {r : RespId}

theorem weaken (h : Owed none ts w) (x : Option RespId) : Owed x ts w :=
  ⟨h.pending, fun r hr hopen _ => h.placed r hr hopen (by simp)⟩

/-- Connections and the pool change, but what has a request still has it. -/
theorem mono (h : Owed x ts w) {ts' : List ClientTask}
    (completions : w'.completions = w.completions)
    (placed : ∀ r, some r ≠ x → Whereabouts ts w r → Whereabouts ts' w' r) : Owed x ts' w' := by
  refine ⟨?_, ?_⟩ <;> rw [completions]
  · exact h.pending
  · exact fun r hr hopen hx => placed r hx (h.placed r hr hopen hx)

/-- Nothing that matters changes. -/
theorem congr (h : Owed x ts w) (completions : w'.completions = w.completions)
    (pool : w'.pool = w.pool) (conns : ∀ d, (w'.conns d).res = (w.conns d).res ∧
      (w'.conns d).attempt = (w.conns d).attempt) : Owed x ts w' := by
  refine h.mono completions fun r _ hr => hr.mono .atWork ?_ ?_ ?_ ?_ ?_ fun d hd => ?_
  · rw [pool]
  · rw [pool]
    exact fun _ _ => rfl
  · rw [pool]
  · rw [pool]
    exact fun _ _ => rfl
  · rw [completions]
  · exact ⟨(conns d).1.trans hd, (conns d).2⟩

/-- Another record for `c`, which carries what it carried. -/
theorem update (h : Owed x ts w) {k : Conn} (res : k.res = (w.conns c).res)
    (attempt : k.attempt = (w.conns c).attempt) :
    Owed x ts { w with conns := Function.update w.conns c k } := by
  refine h.congr rfl rfl fun d => ?_
  show (Function.update w.conns c k d).res = _ ∧ (Function.update w.conns c k d).attempt = _
  rcases eq_or_ne d c with rfl | hne
  · rw [update_self]
    exact ⟨res, attempt⟩
  · rw [update_of_ne hne]
    exact ⟨rfl, rfl⟩

/-- A new future of `next()` does not matter to the old ones. -/
theorem setPool (h : Owed x ts w) {p : Pool} {ts' : List ClientTask}
    (tasks : ∀ r, .writeRequest r ∈ ts → Whereabouts ts' { w with pool := p } r)
    (nqueued : w.pool.nqueued ≤ p.nqueued)
    (queued : ∀ q < w.pool.nqueued, p.queued q = w.pool.queued q)
    (created : w.pool.created ≤ p.created)
    (opened : ∀ f < w.pool.created, p.opened f = w.pool.opened f) :
    Owed x ts' { w with pool := p } :=
  h.mono rfl fun r _ hr => hr.mono (tasks r) nqueued queued created opened rfl fun _ hd => ⟨hd, rfl⟩

theorem note (h : Owed x ts w) (n : Note) : Owed x ts (w.note n) :=
  h.congr rfl rfl fun _ => ⟨rfl, rfl⟩

theorem faulted (h : Owed x ts w) (f : Fault) : Owed x ts (w.faulted f) :=
  h.congr rfl rfl fun _ => ⟨rfl, rfl⟩

theorem store (h : Owed x ts w) (c : ConnId) (r : RespId) (m : Message) :
    Owed x ts (w.store c r m) := h.congr rfl rfl fun _ => ⟨rfl, rfl⟩

theorem storeStatus (h : Owed x ts w) (c : ConnId) (r : RespId) (parsed : Response × Option Exn) :
    Owed x ts (w.storeStatus c r parsed) := h.congr rfl rfl fun _ => ⟨rfl, rfl⟩

theorem extendTimer (h : Owed x ts w) (c : ConnId) : Owed x ts (w.extendTimer c) := h.update rfl rfl

theorem readDelimited (h : Owed x ts w) (c : ConnId) (p : Point) :
    Owed x ts (w.readDelimited c p) := h.update rfl rfl

/-! ## The pool -/

theorem remove (h : Owed x ts w) (eraseEnd : List (Option FutId) → List (Option FutId))
    (valid : ConnId → Bool) (c : ConnId) :
    Owed x ts { w with pool := w.pool.remove eraseEnd valid c } := by
  rcases Pool.remove_cases eraseEnd valid w.pool c with ⟨he, -⟩ | ⟨he, -, -⟩ <;> rw [he]
  · exact h.setPool (fun _ => .atWork) (Nat.le_refl _) (fun _ _ => rfl) (Nat.le_refl _)
      fun _ _ => rfl
  · refine h.setPool (fun _ => .atWork) (Nat.le_refl _) (fun _ _ => rfl) (Nat.le_succ _) ?_
    intro f hf
    rw [Pool.replace_opened]
    exact update_of_ne (Nat.ne_of_lt hf) _ _

theorem close (h : Owed x ts w) (c : ConnId) : Owed x ts (w.close c) := by
  rcases hcl : (w.conns c).closed with _ | _
  · obtain ⟨valid, he⟩ := w.close_of_open c hcl
    rw [he]
    have hshut : Owed x ts { w with conns := Function.update w.conns c (w.conns c).shut } :=
      h.update rfl rfl
    exact hshut.remove _ _ _
  · rw [w.close_of_closed c hcl]
    exact h.update rfl rfl

/-- **A free connection is handed on**, and carries the request it is given. -/
theorem hand (h : Owed x ts w) (hres : (w.conns c).res = none) (hone : ts.length ≤ 1) :
    Owed x [] (w.hand c ts) := by
  match ts, hone with
  | [], _ => exact h.note _
  | [.hold], _ =>
    refine h.mono rfl fun r _ hr => hr.mono ?_ (Nat.le_refl _) (fun _ _ => rfl) (Nat.le_refl _)
      (fun _ _ => rfl) rfl fun _ hd => ⟨hd, rfl⟩
    simp
  | [.writeRequest s], _ =>
    rw [World.hand_writeRequest]
    refine h.mono rfl fun r _ hr => hr.mono ?_ (Nat.le_refl _) (fun _ _ => rfl) (Nat.le_refl _)
      (fun _ _ => rfl) rfl fun d hd => ?_
    · intro hs
      obtain rfl : r = s := ClientTask.writeRequest.inj (List.mem_singleton.mp hs)
      exact .carried c (by simp [Conn.carrying]) (by simp [Conn.carrying])
    · have hne : d ≠ c := by
        rintro rfl
        rw [hres] at hd
        cases hd
      show (Function.update w.conns c _ d).res = _ ∧ (Function.update w.conns c _ d).attempt = _
      rw [update_of_ne hne]
      exact ⟨hd, rfl⟩
  | _ :: _ :: _, hone => simp at hone

/-- **`release()`** passes the connection to the request that waits first. -/
theorem release (h : Owed x [] w) (hq : Queues w.pool w.completions.nresponses)
    (hres : (w.conns c).res = none) : Owed x [] (w.release c) := by
  rcases hn : w.pool.next_ with _ | ⟨q, rest⟩
  · rw [World.release_of_nil w c hn]
    exact h.setPool (by simp) (Nat.le_refl _) (fun _ _ => rfl) (Nat.le_refl _) fun _ _ => rfl
  · rw [World.release_of_cons w c hn (hq.pending q (by simp [hn])).2]
    have hpopped : Owed x (w.pool.queued q).tasks
        { w with pool := { w.pool with
          next_ := rest
          queued := Function.update w.pool.queued q
            { outcome := some (.done c), tasks := [] } } } := by
      refine h.mono rfl fun r _ hr => ?_
      cases hr with
      | atWork task => simp at task
      | queued s made pending task =>
        rcases eq_or_ne s q with rfl | hne
        · exact .atWork task
        · exact .queued s made (by simpa [hne] using pending) (by simpa [hne] using task)
      | opened f made pending task => exact .opened f made pending task
      | carried d res attempt => exact .carried d res attempt
    exact hpopped.hand hres (hq.queuedOne q)

/-- **`next()`** leaves its callback with somebody. -/
theorem nextThen {t : ClientTask} (h : Owed x [t] w)
    (hidle : ∀ d ∈ w.pool.available, (w.conns d).res = none) : Owed x [] (w.nextThen t) := by
  rcases w.nextThen_cases t with ⟨d, rest, hd, -, hn⟩ | ⟨-, -, hn⟩ | ⟨-, -, hn⟩ <;> rw [hn]
  · have hmem : d ∈ w.pool.available :=
      (List.dropWhile_sublist _).mem (hd ▸ List.mem_cons_self)
    have htaken : Owed x [t] { w with pool := { w.pool with available := rest } } :=
      h.setPool (fun _ => .atWork) (Nat.le_refl _) (fun _ _ => rfl) (Nat.le_refl _) fun _ _ => rfl
    exact htaken.hand (hidle d hmem) (by simp)
  · refine h.setPool (fun r hr => ?_) (Nat.le_refl _) (fun _ _ => rfl) (Nat.le_succ _) fun f hf =>
      update_of_ne (Nat.ne_of_lt hf) _ _
    obtain rfl := List.mem_singleton.mp hr
    exact .opened w.pool.created (Nat.lt_succ_self _) (by simp) (by simp)
  · refine h.setPool (fun r hr => ?_) (Nat.le_succ _)
      (fun q hq => update_of_ne (Nat.ne_of_lt hq) _ _) (Nat.le_refl _) fun _ _ => rfl
    obtain rfl := List.mem_singleton.mp hr
    exact .queued w.pool.nqueued (Nat.lt_succ_self _) (by simp) (by simp)

/-- The future of `c` is done, and who waits for it gets the connection. -/
theorem settleOpened (h : Owed x [] w) (hq : Queues w.pool w.completions.nresponses)
    (ho : (w.pool.opened c).outcome = none) (hres : (w.conns c).res = none) :
    Owed x [] (w.settleOpened c) := by
  have hdone : ∀ ts, (∀ r, .client (.writeRequest r) ∈ (w.pool.opened c).tasks →
      .writeRequest r ∈ ts) → Owed x ts { w with pool := { w.pool with
        opened := Function.update w.pool.opened c
          { outcome := some (.done c), tasks := [] } } } := by
    intro ts hts
    refine h.mono rfl fun r _ hr => ?_
    cases hr with
    | atWork task => simp at task
    | queued q made pending task => exact .queued q made pending task
    | opened f made pending task =>
      rcases eq_or_ne f c with rfl | hne
      · exact .atWork (hts r task)
      · exact .opened f made (by simpa [hne] using pending) (by simpa [hne] using task)
    | carried d res attempt => exact .carried d res attempt
  rcases w.settleOpened_cases c ho (hq.openedOne c) with ⟨ht, he⟩ | ⟨t, ht, he⟩ | ⟨ht, he⟩ <;>
    rw [he]
  · exact hdone [] (by simp [ht])
  · exact (hdone [t] (by simp [ht])).hand hres (by simp)
  · exact (hdone [] (by simp [ht])).release (hq.setOpened c
      { outcome := some (.done c), tasks := [] } (by simp) (by simp) rfl rfl rfl rfl) hres

/-! ## Settling -/

/-- The attempt of `r` is not pending, so `r` need not be exempted. -/
theorem of_settled (h : Owed (some r) ts w)
    (hr : (w.completions.attempts (w.completions.current r)).outcome ≠ none) : Owed none ts w := by
  refine ⟨h.pending, fun s hs hopen _ => h.placed s hs hopen ?_⟩
  intro he
  exact hr (Option.some.inj he ▸ h.pending s hs hopen)

/-- **An attempt settles**: the request is completed, or its retry is left with somebody. -/
theorem settleUnlessReady (h : Owed (some r) [] w) (hw : Steady w)
    (hr : r < w.completions.nresponses) (d : ConnId) (o : Outcome Nat) (v : Verdict) :
    Owed none [] (w.settleUnlessReady d r o v) := by
  have ho : Orderly w.completions := hw.settling.1
  -- the other responses have other attempts
  have other : ∀ s < w.completions.nresponses, s ≠ r →
      w.completions.current s ≠ w.completions.current r :=
    fun s hs hne he => hne (ho.currentOwn s r hs hr he)
  have placed : ∀ s < w.completions.nresponses, s ≠ r → w.completions.completion s = none →
      Whereabouts [] w s := fun s hs hne hopen => h.placed s hs hopen (by simpa using hne)
  rcases hw.settling.settleUnlessReady_cases (c := d) hr o v with
    ⟨hready, he⟩ | ⟨-, -, n, ⟨-, o', -, he⟩ | ⟨-, he⟩⟩ <;> rw [he]
  · exact h.of_settled hready
  · refine ⟨fun s hs hopen => ?_, fun s hs hopen _ => ?_⟩
    · rcases eq_or_ne s r with rfl | hne
      · simp at hopen
      · show (Function.update w.completions.attempts _ _ (w.completions.current s)).outcome = none
        rw [update_of_ne (other s hs hne)]
        exact h.pending s hs (by simpa [hne] using hopen)
    · rcases eq_or_ne s r with rfl | hne
      · simp at hopen
      · exact (placed s hs hne (by simpa [hne] using hopen)).mono .atWork (Nat.le_refl _)
          (fun _ _ => rfl) (Nat.le_refl _) (fun _ _ => rfl) rfl fun _ hd => ⟨hd, rfl⟩
  · refine nextThen ⟨fun s hs hopen => ?_, fun s hs hopen _ => ?_⟩ ?_
    · show (Function.update (Function.update w.completions.attempts _ _) _ _
        (Function.update w.completions.current r w.completions.nattempts s)).outcome = none
      rcases eq_or_ne s r with rfl | hne
      · simp
      · rw [update_of_ne hne, update_of_ne (Nat.ne_of_lt (ho.currentMade s hs)),
          update_of_ne (other s hs hne)]
        exact h.pending s hs hopen
    · rcases eq_or_ne s r with rfl | hne
      · exact .atWork (List.mem_singleton_self _)
      · refine (placed s hs hne hopen).mono (by simp) (Nat.le_refl _) (fun _ _ => rfl)
          (Nat.le_refl _) (fun _ _ => rfl) ?_ fun _ hd => ⟨hd, rfl⟩
        exact update_of_ne hne _ _
    · exact fun d hd => ((hw.exclusive.conn d).idle (.inl hd)).1

theorem failResponse (h : Owed none [] w) (hw : Steady w) (err : Bytes) (v : Verdict) :
    Owed none [] (w.failResponse c err v) := by
  rw [World.failResponse]
  split
  · rename_i r hr
    exact (h.weaken _).settleUnlessReady hw ((hw.exclusive.conn c).known r hr) c _ v
  · exact h

theorem closeAndFail (h : Owed none [] w) (hw : Steady w) (hc : c < w.pool.created) (err : Bytes)
    (v : Verdict) : Owed none [] ((w.close c).failResponse c err v) :=
  (h.close c).failResponse (hw.close hc) err v

/-! ## Reading -/

/-- **The end of a response**: the connection lets go of it before its attempt settles. -/
theorem extractNextBodyChunk (h : Owed none [] w) (hw : Steady w)
    (hr : (w.conns c).res = some r) (hreads : (w.conns c).reads = []) (data : Bytes) (v : Verdict) :
    Owed none [] (w.extractNextBodyChunk c data v) := by
  have cleared : ∀ u, (u = w ∨ ∃ m, u = w.store c r m) → Steady u ∧ (u.conns c).res = some r ∧
      (u.conns c).reads = [] ∧
      Owed (some r) [] ((u.modConn c fun k => { k with res := none }).note (.finished c r)) := by
    have clear : ∀ u, Owed none [] u → (u.conns c).res = some r →
        Owed (some r) [] ((u.modConn c fun k => { k with res := none }).note (.finished c r)) := by
      intro u hu hres
      refine hu.weaken _ |>.mono rfl fun s hs hplaced => hplaced.mono .atWork (Nat.le_refl _)
        (fun _ _ => rfl) (Nat.le_refl _) (fun _ _ => rfl) rfl fun d hd => ?_
      -- what this connection carries is exempted
      have hne : d ≠ c := by
        rintro rfl
        exact hs (hd.symm.trans hres)
      show (Function.update u.conns c _ d).res = _ ∧ (Function.update u.conns c _ d).attempt = _
      rw [update_of_ne hne]
      exact ⟨hd, rfl⟩
    rintro u (rfl | ⟨m, rfl⟩)
    · exact ⟨hw, hr, hreads, clear _ h hr⟩
    · exact ⟨hw.store c r m, hr, hreads, clear _ (h.store c r m) hr⟩
  refine World.extractNextBodyChunk_cases (P := Owed none []) data hr ?_ ?_
  · intro u s hu
    obtain ⟨hsteady, hres, hnone, howed⟩ := cleared u hu
    have hclear := hsteady.exclusive.clear hres hnone
    exact (howed.settleUnlessReady ⟨hclear, hsteady.settling⟩
      ((hsteady.exclusive.conn c).known r hres) c _ v).close c
  · intro u s hu
    obtain ⟨hsteady, hres, hnone, howed⟩ := cleared u hu
    obtain ⟨hawaits, hfree⟩ := hsteady.exclusive.clearRead hres hnone
    have hreleased := hsteady.exclusive.releaseRead hres hnone
    have hread : Owed (some r) [] (((u.modConn c fun k => { k with res := none }).note
        (.finished c r)).handleResponse c) := howed.readDelimited c .status
    have hsettling : Settling (((u.modConn c fun k => { k with res := none }).note
        (.finished c r)).handleResponse c).futures := hsteady.settling
    have hknown : r < (((u.modConn c fun k => { k with res := none }).note
        (.finished c r)).handleResponse c).completions.nresponses :=
      (hsteady.exclusive.conn c).known r hres
    generalize ((u.modConn c fun k => { k with res := none }).note (.finished c r)).handleResponse
      c = z at *
    have hfutures : (z.release c).futures = z.futures :=
      World.futures_release z c fun q hq => (hawaits.queues.pending q hq).2
    refine (hread.release hawaits.queues hfree.res).settleUnlessReady
      ⟨hreleased, hfutures ▸ hsettling⟩ ?_ c _ v
    rwa [show (z.release c).completions = z.completions from congrArg Prod.fst hfutures]

/-- What a read handler does on the way. -/
theorem readPath {u : World} (h : Owed none [] w) (path : ReadPath c r w u) : Owed none [] u := by
  induction path with
  | refl => exact h
  | timer _ ih => exact ih.extendTimer c
  | parser _ _ _ _ ih => exact ih.update rfl rfl
  | store m _ _ ih => exact ih.store c r m

/-- How it ends. -/
theorem readTurn {v : Verdict} {ends : Prop} (h : Owed none [] w) (hw : Steady w)
    (hr : (w.conns c).res = some r) (hreads : (w.conns c).reads = [])
    (turn : ReadTurn c r v ends w w') : Owed none [] w' := by
  obtain ⟨u, path, hend⟩ := turn
  have hu := hw.readPath hr path
  have howed := h.readPath path
  cases hend with
  | idle => exact howed
  | waits op => exact howed.update rfl rfl
  | line m => exact (howed.store c r m).readDelimited c .header
  | escaped e => exact howed.note _
  | givenUp err =>
    exact howed.closeAndFail hu (hu.exclusive.created_of_res (path.res.trans hr)) err v
  | finished data _ =>
    exact howed.extractNextBodyChunk hu (path.res.trans hr) (path.reads.trans hreads) data v

/-! ## The handlers -/

/-- **The handler of a completed read.** -/
theorem finishRead (h : Owed none [] w) (hw : Steady w) (hc : c < w.pool.created) (op : ReadOp)
    (hreads : (w.conns c).reads = []) (hpoint : op.point ≠ .status → (w.conns c).res ≠ none)
    (result : Except Bytes Nat) (v : Verdict) : Owed none [] (w.finishRead c op result v) := by
  cases result with
  | error err =>
    simp only [World.finishRead]
    split
    · exact h.closeAndFail hw hc _ v
    · exact h.close c
  | ok pos =>
    by_cases hp : op.point = .status
    · obtain ⟨input, hcases⟩ := World.finishRead_status (w := w) (c := c) (v := v) op pos hp
      have hu : Owed none [] (w.modConn c fun k => { k with input := input }) := h.update rfl rfl
      rcases hcases with he | ⟨-, he⟩ | ⟨r, parsed, -, ⟨e, -, he⟩ | ⟨-, he⟩⟩ <;> rw [he]
      · exact hu
      · exact hu.close c
      · exact ((hu.extendTimer c).storeStatus c r parsed).note _
      · exact ((hu.extendTimer c).storeStatus c r parsed).readDelimited c .header
    · obtain ⟨r, hr⟩ := Option.ne_none_iff_exists'.mp (hpoint hp)
      exact h.readTurn hw hr hreads (World.finishRead_turn op pos hp hr)

/-- The handler of a completed write. -/
theorem finishWrite (h : Owed none [] w) (hw : Steady w) (result : Except Bytes Unit)
    (v : Verdict) : Owed none [] (w.finishWrite c result v) := by
  cases result with
  | ok => exact h.extendTimer c
  | error err =>
    simp only [World.finishWrite]
    split
    · exact h.faulted _
    · rename_i r hr
      exact ((h.weaken _).settleUnlessReady hw ((hw.exclusive.conn c).known r hr) c _ v).close c

/-- The handler of a wait. -/
theorem finishWait (h : Owed none [] w) (hw : Steady w) (hc : c < w.pool.created) (t : Wait)
    (v : Verdict) : Owed none [] (w.finishWait c t v) := by
  simp only [World.finishWait]
  split
  · have hcancelled : Owed none [] (w.cancelTimer c) := h.update rfl rfl
    exact hcancelled.closeAndFail ⟨hw.exclusive.inner hc rfl rfl (fun hs => hs) rfl (fun hk => hk),
      hw.settling⟩ hc _ v
  · exact h

/-- **A connection is established**, and given to whoever waits for it. -/
theorem ready (h : Owed none [] w) (hw : Exclusive w) (ho : (w.pool.opened c).outcome = none) :
    Owed none [] (w.ready c) := by
  have hres : (((w.extendTimer c).handleResponse c).conns c).res = none := by
    simp [World.handleResponse, World.readDelimited, World.modConn, World.conns_extendTimer,
      ((hw.conn c).opening ho).1]
  exact ((h.extendTimer c).readDelimited c .status).settleOpened hw.queues ho hres

theorem finishSetup (h : Owed none [] w) (hw : Exclusive w) (ho : (w.pool.opened c).outcome = none)
    (stage : Stage) (result : Except Bytes Unit) : Owed none [] (w.finishSetup c stage result) := by
  cases result with
  | error err => exact h.close c
  | ok =>
    cases stage with
    | resolve => exact h.update rfl rfl
    | connect =>
      simp only [World.finishSetup]
      split
      · exact (h.extendTimer c).update rfl rfl
      · exact h.ready hw ho
    | handshake => exact h.ready hw ho

/-- **A request is submitted**, and left with somebody. -/
theorem request (h : Owed none [] w) (hw : Steady w) (q : Request) (stall : Nat) :
    Owed none [] (w.request q stall) := by
  have ho : Orderly w.completions := hw.settling.1
  have old : ∀ s < w.completions.nresponses + 1, s ≠ w.completions.nresponses →
      s < w.completions.nresponses :=
    fun s hs hne => Nat.lt_of_le_of_ne (Nat.le_of_lt_succ hs) hne
  have uncompleted : ∀ s ≠ w.completions.nresponses, w.completions.create.1.completion s = none →
      w.completions.completion s = none := by
    intro s hne hopen
    rwa [show w.completions.create.1.completion s = w.completions.completion s from
      update_of_ne hne _ _] at hopen
  have hnew : Owed none [.writeRequest w.completions.nresponses] { w with
      completions := w.completions.create.1
      responses := Function.update w.responses w.completions.create.2
        { request := q, stallTimeout := stall }
      sources := Function.update w.sources w.completions.create.2 []
      statusFrom := Function.update w.statusFrom w.completions.create.2 none } := by
    refine ⟨fun s hs hopen => ?_, fun s hs hopen _ => ?_⟩
    · show (Function.update w.completions.attempts w.completions.nattempts _
        (Function.update w.completions.current w.completions.nresponses _ s)).outcome = none
      rcases eq_or_ne s w.completions.nresponses with rfl | hne
      · simp [Future.attach]
      · rw [update_of_ne hne, update_of_ne (Nat.ne_of_lt (ho.currentMade s (old s hs hne)))]
        exact h.pending s (old s hs hne) (uncompleted s hne hopen)
    · rcases eq_or_ne s w.completions.nresponses with rfl | hne
      · exact .atWork (List.mem_singleton_self _)
      · refine (h.placed s (old s hs hne) (uncompleted s hne hopen) (by simp)).mono (by simp)
          (Nat.le_refl _) (fun _ _ => rfl) (Nat.le_refl _) (fun _ _ => rfl) ?_ fun _ hd => ⟨hd, rfl⟩
        exact update_of_ne hne _ _
  exact hnew.nextThen fun d hd => ((hw.exclusive.conn d).idle (.inl hd)).1

/-! ## The events -/

/-- **Every event leaves every request with somebody.** -/
theorem step (h : Owed none [] w) (hw : Steady w) {e : Event} (hstep : w.step e = some w') :
    Owed none [] w' := by
  obtain ⟨-, hstep⟩ := World.step_eq_some hstep
  have hx := hw.exclusive
  cases e with
  | request q stall =>
    cases hstep
    exact h.request hw q stall
  | next =>
    cases hstep
    refine nextThen (h.mono rfl fun r _ hr => hr.mono (by simp) (Nat.le_refl _) (fun _ _ => rfl)
      (Nat.le_refl _) (fun _ _ => rfl) rfl fun _ hd => ⟨hd, rfl⟩) ?_
    exact fun d hd => ((hx.conn d).idle (.inl hd)).1
  | release c =>
    obtain ⟨hc, rfl⟩ := World.release_inv hstep
    have hheld : Owed none [] { w with held := w.held.erase c } :=
      h.congr rfl rfl fun _ => ⟨rfl, rfl⟩
    exact hheld.release hx.queues ((hx.conn c).idle (.inr hc)).1
  | close c =>
    obtain ⟨-, -, rfl⟩ := World.close_inv hstep
    exact h.close c
  | remove c =>
    obtain ⟨-, rfl⟩ := World.remove_inv hstep
    exact h.remove _ _ c
  | maxConnections n =>
    cases hstep
    exact h.setPool (by simp) (Nat.le_refl _) (fun _ _ => rfl) (Nat.le_refl _) fun _ _ => rfl
  | limitConnections b =>
    cases hstep
    exact h.setPool (by simp) (Nat.le_refl _) (fun _ _ => rfl) (Nat.le_refl _) fun _ _ => rfl
  | setupDone c result =>
    obtain ⟨stage, -, -, -, rfl⟩ := World.setupDone_inv hstep
    exact h.update rfl rfl
  | runSetup c =>
    obtain ⟨stage, result, hset, rfl⟩ := World.runSetup_inv hstep
    obtain ⟨hbefore, ho, -⟩ := hx.beforeSetup hset (hx.created_of_setup hset)
    have howed : Owed none [] (w.modConn c fun k => { k with setup := none }) := h.update rfl rfl
    exact howed.finishSetup hbefore ho stage result
  | receive c i bytes =>
    obtain ⟨op, -, -, -, -, rfl⟩ := World.receive_inv hstep
    exact h.update rfl rfl
  | readFails c i err =>
    obtain ⟨op, -, -, rfl⟩ := World.readFails_inv hstep
    exact h.update rfl rfl
  | runRead c i v =>
    obtain ⟨op, result, hop, -, rfl⟩ := World.runRead_inv hstep
    obtain ⟨hbefore, hreads, hpoint⟩ := hx.beforeRead hop
    have howed : Owed none [] (w.modConn c fun k => { k with reads := k.reads.eraseIdx i }) :=
      h.update rfl rfl
    exact howed.finishRead ⟨hbefore, hw.settling⟩ (hx.created_of_reads hop) op hreads hpoint
      result v
  | writeDone c i result =>
    obtain ⟨op, -, -, -, rfl⟩ := World.writeDone_inv hstep
    exact h.update rfl rfl
  | runWrite c i v =>
    obtain ⟨op, result, hop, -, rfl⟩ := World.runWrite_inv hstep
    have howed : Owed none [] (w.modConn c fun k => { k with writes := k.writes.eraseIdx i }) :=
      h.update rfl rfl
    exact howed.finishWrite ⟨hx.beforeWrite hop, hw.settling⟩ result v
  | expire c i =>
    obtain ⟨t, -, -, rfl⟩ := World.expire_inv hstep
    exact h.update rfl rfl
  | runWait c i v =>
    obtain ⟨t, ht, -, rfl⟩ := World.runWait_inv hstep
    have howed : Owed none [] (w.modConn c fun k => { k with waits := k.waits.eraseIdx i }) :=
      h.update rfl rfl
    exact howed.finishWait ⟨hx.beforeWait ht, hw.settling⟩ (hx.created_of_waits ht) t v

theorem init (eraseEnd : List (Option FutId) → List (Option FutId)) (tls limit : Bool) (max : Nat) :
    Owed none [] (World.init eraseEnd tls limit max) :=
  ⟨fun _ hr => absurd hr (Nat.not_lt_zero _), fun _ hr => absurd hr (Nat.not_lt_zero _)⟩

end Owed

/-! ## At rest -/

namespace Quiescent

variable {w : World}

/-- **At rest every connection is closed**: the stall timer of an open one would run. -/
theorem closed (h : Quiescent w) (hguarded : Guarded none none w) {c : ConnId}
    (hc : c < w.pool.created) : (w.conns c).closed = true := by
  have hstill := h.still hc
  by_contra hopen
  obtain ⟨t, ht, -⟩ := (hguarded c).timed (by simp) (by simpa using hopen)
    (by simp [Conn.connected, hstill.setup])
  rw [hstill.waits] at ht
  cases ht

/-- **At rest a request that is not completed waits for a connection**: what a connection
carries is settled by then. -/
theorem waits_of_uncompleted (h : Quiescent w) (hw : Exclusive w) (howed : Owed none [] w)
    (hguarded : Guarded none none w) (hcarried : Carried none w) {r : RespId}
    (hr : r < w.completions.nresponses) (hopen : w.completions.completion r = none) :
    (∃ q < w.pool.nqueued, (w.pool.queued q).outcome = none) ∨
      ∃ f < w.pool.created, (w.pool.opened f).outcome = none := by
  cases howed.placed r hr hopen (by simp) with
  | atWork task => simp at task
  | queued q made pending _ => exact .inl ⟨q, made, pending⟩
  | opened f made pending _ => exact .inr ⟨f, made, pending⟩
  | carried c res attempt =>
    have hc := hw.created_of_res res
    obtain ⟨-, t, ht, -⟩ := (hcarried c).watched _ attempt (howed.pending r hr hopen) (by simp)
      (h.closed hguarded hc)
    rw [(h.still hc).waits] at ht
    cases ht

end Quiescent

/-- The first connection breaks, the request is retried on a second one, which answers, waits
for the next request and times out. Every handler runs. -/
def restsAfterRetry : List Event :=
  [.request getRequest 30000] ++ connects 0 ++
    [.writeDone 0 0 (.ok ()), .runWrite 0 0 .accept, .readFails 0 0 (ascii "End of file"),
      .runRead 0 0 .retry] ++ List.replicate 3 (.runWait 0 0 .accept) ++ connects 1 ++
    [.writeDone 1 0 (.ok ()), .runWrite 1 0 .accept, .receive 1 0 shortResponse,
      .runRead 1 0 .accept, .runRead 1 0 .accept, .runRead 1 0 .accept] ++
    List.replicate 6 (.runWait 1 0 .accept) ++
    [.expire 1 0, .runWait 1 0 .accept, .readFails 1 0 (ascii "Operation canceled"),
      .runRead 1 0 .accept]

end AsioProtocols
