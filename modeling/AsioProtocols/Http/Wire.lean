import AsioProtocols.Http.Effects
import AsioProtocols.Http.Records

/-!
# What goes out on a connection, and when

A caller submits a request once, and the client may write it many times: on the first
connection it gets, and once more for every retry. `Wire` says what is on its way: the
outstanding writes of a connection are the bytes of the requests written on it, in that
order, each as its caller submitted it, and the stall timer runs for as long as the
submission says. `Secured` says when: nothing is written on a connection, and nobody is
given it, before it has resolved and connected and, on a TLS endpoint, completed the
handshake, in this order and each once.

The history is a `Chronicle`: what was submitted, and which stages each connection has
passed. Both results rest on one invariant, `Traced`, which compares a state with an
`Account` of it.
-/

namespace AsioProtocols

open Function

/-! ## The history -/

/-- What a caller of `request()` submits, with the stall timeout the client has then. -/
structure Submission where
  request : Request := {}
  stall : Nat := 30000
  deriving DecidableEq, Repr

/-- The submissions in order, and the stages each connection has passed. -/
structure Chronicle where
  submitted : List Submission := []
  stages : ConnId → List Stage := fun _ => []

namespace Chronicle

/-- What was submitted for response `r`. -/
def told (h : Chronicle) (r : RespId) : Submission := h.submitted[r]?.getD {}

/-- One event more. -/
def record (w : World) (e : Event) (_ : World) (h : Chronicle) : Chronicle :=
  match e with
  | .request q stall => { h with submitted := h.submitted ++ [⟨q, stall⟩] }
  | .setupDone c (.ok _) =>
    match (w.conns c).setup with
    | some op => { h with stages := update h.stages c (h.stages c ++ [op.stage]) }
    | none => h
  | _ => h

end Chronicle

/-- The stages in front of a stage. -/
def Stage.behind : Stage → List Stage
  | .resolve => []
  | .connect => [.resolve]
  | .handshake => [.resolve, .connect]

/-- The stages that are passed when this operation is the outstanding one. -/
def SetupOp.passed (op : SetupOp) : List Stage :=
  match op.result with
  | some (.ok _) => op.stage.behind ++ [op.stage]
  | _ => op.stage.behind

/-- What it takes to establish a connection. -/
def stagesRequired (tls : Bool) : List Stage :=
  if tls then [.resolve, .connect, .handshake] else [.resolve, .connect]

/-- **What is on its way.** -/
structure Wire (h : Chronicle) (w : World) : Prop where
  submitted : w.completions.nresponses = h.submitted.length
  kept : ∀ r s, h.submitted[r]? = some s → (w.responses r).request = s.request
  known : ∀ c, ∀ r ∈ writtenOn c w.log, r < h.submitted.length
  sent : ∀ c, ((w.conns c).writes.map WriteOp.data).Sublist
    ((writtenOn c w.log).map fun r => (h.told r).request.bytes)
  timed : ∀ c r, (w.conns c).res = some r → ∀ t ∈ (w.conns c).waits, t.status = .pending →
    t.target = (h.told r).stall

/-- **What it takes** before a connection is used. -/
structure Secured (tls : Bool) (h : Chronicle) (w : World) : Prop where
  inOrder : ∀ c, h.stages c <+: stagesRequired tls
  used : ∀ c, writtenOn c w.log ≠ [] ∨ (w.conns c).writes ≠ [] → h.stages c = stagesRequired tls
  offered : ∀ c, c ∈ w.pool.available ∨ c ∈ w.held → h.stages c = stagesRequired tls

/-! ## The invariant -/

/-- An account of a state: its transport, what was submitted and how often, by which
operations each connection may be being established, and which ones may be in use. -/
structure Account where
  tls : Bool
  told : RespId → Submission
  made : Nat
  course : ConnId → Option SetupOp → Prop
  established : ConnId → Prop

/-- What the history has to say. -/
def Chronicle.account (tls : Bool) (h : Chronicle) : Account where
  tls := tls
  told := h.told
  made := h.submitted.length
  course c setup := h.stages c <+: stagesRequired tls ∧
    ∀ op, setup = some op → h.stages c = op.passed ∧ (op.stage = .handshake → tls = true)
  established c := h.stages c = stagesRequired tls

/-- One connection, with the responses whose requests were written on it. -/
structure Carrier (told : RespId → Submission) (made : Nat) (x : Conn × List RespId) : Prop where
  known : ∀ r ∈ x.2, r < made
  carried : ∀ r, x.1.res = some r → r < made
  attempt : x.1.attempt = none → x.2 = []
  sent : (x.1.writes.map WriteOp.data).Sublist (x.2.map fun r => (told r).request.bytes)
  timed : ∀ r, x.1.res = some r → ∀ t ∈ x.1.waits, t.status = .pending → t.target = (told r).stall

/-- The pool, with the callbacks it keeps. -/
structure PoolTraced (x : Account) (p : Pool) : Prop where
  queued : ∀ q r, .writeRequest r ∈ (p.queued q).tasks → r < x.made
  opened : ∀ f r, .client (.writeRequest r) ∈ (p.opened f).tasks → r < x.made
  established : ∀ c, (p.opened c).outcome ≠ none → x.established c

/-- The state is as the account has it. -/
structure Traced (x : Account) (w : World) : Prop where
  tls : w.tls = x.tls
  count : w.completions.nresponses = x.made
  kept : ∀ r, (w.responses r).request = (x.told r).request ∧
    (w.responses r).stallTimeout = (x.told r).stall
  callbacks : ∀ a t, t ∈ (w.completions.attempts a).tasks → t.1 < x.made
  setup : ∀ c, x.course c (w.conns c).setup
  pool : PoolTraced x w.pool
  conn : ∀ c, Carrier x.told x.made (w.side c)

namespace Carrier

variable {told : RespId → Submission} {made : Nat} {k k' : Conn} {l : List RespId}

/-- Fewer writes, and the waits as they were. -/
theorem inner (h : Carrier told made (k, l)) (res : k'.res = k.res ∨ k'.res = none)
    (attempt : k'.attempt = k.attempt) (writes : k'.writes.Sublist k.writes)
    (waits : ∀ t ∈ k'.waits, t.status = .pending → t ∈ k.waits) : Carrier told made (k', l) where
  known := h.known
  carried r hr := by
    rcases res with hsame | hnone
    · exact h.carried r (hsame ▸ hr)
    · exact absurd (hnone.symm.trans hr) (by simp)
  attempt hnone := h.attempt (attempt ▸ hnone)
  sent := (writes.map _).trans h.sent
  timed r hr t ht hp := by
    rcases res with hsame | hnone
    · exact h.timed r (hsame ▸ hr) t (waits t ht hp) hp
    · exact absurd (hnone.symm.trans hr) (by simp)

/-- No cancelled wait is pending. -/
theorem not_pending_cancel {waits : List Wait} {t : Wait} (ht : t ∈ waits.map Wait.cancel) :
    t.status ≠ .pending := by
  obtain ⟨⟨target, status⟩, -, rfl⟩ := List.mem_map.mp ht
  cases status <;> simp [Wait.cancel]

/-- The timer starts anew, for as long as the response says. -/
theorem arm (h : Carrier told made (k, l)) {target : Nat}
    (htarget : ∀ r, k.res = some r → target = (told r).stall) :
    Carrier told made ({ k with waits := k.waits.map Wait.cancel ++ [{ target := target }] }, l) where
  known := h.known
  carried := h.carried
  attempt := h.attempt
  sent := h.sent
  timed r hr t ht hp := by
    rcases List.mem_append.mp ht with hold | hnew
    · exact absurd hp (not_pending_cancel hold)
    · rw [List.mem_singleton.mp hnew]
      exact htarget r hr

/-- A request is written. -/
theorem carrying (h : Carrier told made (k, l)) {r : RespId} (hr : r < made) (a : AttemptId) :
    Carrier told made (k.carrying r a (told r).stall (told r).request.bytes, l ++ [r]) where
  known s hs := by
    rcases List.mem_append.mp hs with hold | hnew
    · exact h.known s hold
    · exact List.mem_singleton.mp hnew ▸ hr
  carried s hs := by
    obtain rfl : r = s := Option.some.inj hs
    exact hr
  attempt hnone := nomatch hnone
  sent := by
    show ((k.writes ++ [_]).map WriteOp.data).Sublist ((l ++ [r]).map _)
    rw [List.map_append, List.map_append]
    exact h.sent.append (List.Sublist.refl _)
  timed s hs t ht hp := by
    obtain rfl : r = s := Option.some.inj hs
    rcases List.mem_append.mp ht with hold | hnew
    · exact absurd hp (not_pending_cancel hold)
    · rw [List.mem_singleton.mp hnew]

end Carrier

namespace PoolTraced

variable {x : Account} {p p' : Pool}

/-- The queues and the connections do not matter, and one future of a queued request may
change. -/
theorem setQueued (h : PoolTraced x p) {q : QueueId} {f : Future ConnId ClientTask}
    (known : ∀ r, .writeRequest r ∈ f.tasks → r < x.made)
    (queued : p'.queued = update p.queued q f) (opened : p'.opened = p.opened) :
    PoolTraced x p' where
  queued s r hr := by
    rw [queued] at hr
    rcases eq_or_ne s q with rfl | hne
    · rw [update_self] at hr
      exact known r hr
    · rw [update_of_ne hne] at hr
      exact h.queued s r hr
  opened := opened ▸ h.opened
  established := opened ▸ h.established

/-- Nor may the future of a connection, which is settled only once that is established. -/
theorem setOpened (h : PoolTraced x p) {c : FutId} {f : Future ConnId OpenTask}
    (known : ∀ r, .client (.writeRequest r) ∈ f.tasks → r < x.made)
    (established : f.outcome ≠ none → x.established c)
    (queued : p'.queued = p.queued) (opened : p'.opened = update p.opened c f) :
    PoolTraced x p' where
  queued := queued ▸ h.queued
  opened g r hr := by
    rw [opened] at hr
    rcases eq_or_ne g c with rfl | hne
    · rw [update_self] at hr
      exact known r hr
    · rw [update_of_ne hne] at hr
      exact h.opened g r hr
  established g hg := by
    rw [opened] at hg
    rcases eq_or_ne g c with rfl | hne
    · rw [update_self] at hg
      exact established hg
    · rw [update_of_ne hne] at hg
      exact h.established g hg

theorem of_eq (h : PoolTraced x p) (queued : p'.queued = p.queued) (opened : p'.opened = p.opened) :
    PoolTraced x p' where
  queued := queued ▸ h.queued
  opened := opened ▸ h.opened
  established := opened ▸ h.established

theorem remove (h : PoolTraced x p) (eraseEnd : List (Option FutId) → List (Option FutId))
    (valid : ConnId → Bool) (c : ConnId) : PoolTraced x (p.remove eraseEnd valid c) := by
  rcases Pool.remove_cases eraseEnd valid p c with ⟨he, -⟩ | ⟨he, -, -⟩
  · rw [he]
    exact h.of_eq rfl rfl
  · rw [he]
    have hpruned : PoolTraced x (p.prune eraseEnd valid c) := h.of_eq rfl rfl
    exact hpruned.setOpened (by simp) (by simp) rfl (Pool.replace_opened _)

end PoolTraced

namespace Traced

variable {x : Account} {w : World} {c : ConnId}

/-- Another record for `c`. -/
theorem update (h : Traced x w) {k : Conn} (setup : k.setup = (w.conns c).setup)
    (hk : Carrier x.told x.made (k, writtenOn c w.log)) :
    Traced x { w with conns := Function.update w.conns c k } where
  tls := h.tls
  count := h.count
  kept := h.kept
  callbacks := h.callbacks
  setup d := by
    show x.course d (Function.update w.conns c k d).setup
    rcases eq_or_ne d c with rfl | hne
    · rw [update_self, setup]
      exact h.setup d
    · rw [update_of_ne hne]
      exact h.setup d
  pool := h.pool
  conn d := by
    show Carrier _ _ (Function.update w.conns c k d, _)
    rcases eq_or_ne d c with rfl | hne
    · rw [update_self]
      exact hk
    · rw [update_of_ne hne]
      exact h.conn d

theorem setPool (h : Traced x w) {p : Pool} (hp : PoolTraced x p) :
    Traced x { w with pool := p } :=
  ⟨h.tls, h.count, h.kept, h.callbacks, h.setup, hp, h.conn⟩

theorem note (h : Traced x w) {n : Note} (hn : ∀ d, writtenOn d [n] = []) : Traced x (w.note n) where
  tls := h.tls
  count := h.count
  kept := h.kept
  callbacks := h.callbacks
  setup := h.setup
  pool := h.pool
  conn d := by
    show Carrier _ _ (_, writtenOn d (w.log ++ [n]))
    rw [writtenOn_append, hn d, List.append_nil]
    exact h.conn d

/-- What a response says changes, not whose it is. -/
theorem setResponses (h : Traced x w) {f : RespId → Response} {sources : RespId → List ConnId}
    {statusFrom : RespId → Option ConnId}
    (kept : ∀ r, (f r).request = (w.responses r).request ∧
      (f r).stallTimeout = (w.responses r).stallTimeout) :
    Traced x { w with responses := f, sources := sources, statusFrom := statusFrom } :=
  ⟨h.tls, h.count, fun r => ⟨(kept r).1.trans (h.kept r).1, (kept r).2.trans (h.kept r).2⟩,
    h.callbacks, h.setup, h.pool, h.conn⟩

/-- One response changes. -/
theorem kept_update {m : Response} {r : RespId} (request : m.request = (w.responses r).request)
    (stall : m.stallTimeout = (w.responses r).stallTimeout) (s : RespId) :
    (Function.update w.responses r m s).request = (w.responses s).request ∧
      (Function.update w.responses r m s).stallTimeout = (w.responses s).stallTimeout := by
  rcases eq_or_ne s r with rfl | hne
  · rw [update_self]
    exact ⟨request, stall⟩
  · rw [update_of_ne hne]
    exact ⟨rfl, rfl⟩

theorem store (h : Traced x w) (c : ConnId) (r : RespId) (m : Message) :
    Traced x (w.store c r m) :=
  (h.note (n := .content c r (w.completions.current r)) fun _ => rfl).setResponses
    (kept_update rfl rfl)

theorem storeStatus (h : Traced x w) (c : ConnId) (r : RespId) (line : Bytes) :
    Traced x (w.storeStatus c r ((w.responses r).parseInitialLine line)) := by
  refine (h.note (n := .content c r (w.completions.current r)) fun _ => rfl).setResponses
    (kept_update ?_ ?_)
  · simp only [Response.parseInitialLine]
    repeat' split
    all_goals rfl
  · simp only [Response.parseInitialLine]
    repeat' split
    all_goals rfl

/-! ## The timer, closing -/

theorem stallTarget_eq (h : Traced x w) {r : RespId} (hr : (w.conns c).res = some r) :
    w.stallTarget c = (x.told r).stall := by
  rw [World.stallTarget, hr]
  exact (h.kept r).2

theorem extendTimer (h : Traced x w) (c : ConnId) : Traced x (w.extendTimer c) := by
  refine h.update rfl ((h.conn c).arm fun r hr => ?_)
  exact h.stallTarget_eq hr

theorem not_pending {waits : List Wait} {t : Wait} (ht : t ∈ waits.map Wait.cancel)
    (hp : t.status = .pending) : t ∈ waits := absurd hp (Carrier.not_pending_cancel ht)

theorem cancelTimer (h : Traced x w) (c : ConnId) : Traced x (w.cancelTimer c) :=
  h.update rfl ((h.conn c).inner (.inl rfl) rfl (List.Sublist.refl _) fun _ => not_pending)

theorem remove (h : Traced x w) (c : ConnId) : Traced x (w.remove c) :=
  h.setPool (h.pool.remove _ _ _)

theorem close (h : Traced x w) (c : ConnId) : Traced x (w.close c) := by
  rcases hcl : (w.conns c).closed with _ | _
  · obtain ⟨valid, he⟩ := w.close_of_open c hcl
    rw [he]
    have hshut : Traced x { w with conns := Function.update w.conns c (w.conns c).shut } :=
      h.update rfl ((h.conn c).inner (.inl rfl) rfl (List.Sublist.refl _) fun _ => not_pending)
    exact hshut.setPool (h.pool.remove _ _ _)
  · rw [w.close_of_closed c hcl]
    exact h.update rfl ((h.conn c).inner (.inl rfl) rfl (List.Sublist.refl _) fun _ ht _ => ht)

/-! ## Handing on -/

/-- The callback of a caller of `next()` is for a request that was submitted. -/
def Knows (x : Account) (t : ClientTask) : Prop := ∀ r, t = .writeRequest r → r < x.made

theorem writeRequest (h : Traced x w) (c : ConnId) {r : RespId} (hr : r < x.made) :
    Traced x (w.writeRequest c r) where
  tls := h.tls
  count := h.count
  kept := h.kept
  callbacks := h.callbacks
  setup d := by
    rw [World.writeRequest_eq]
    show x.course d (Function.update w.conns c _ d).setup
    rcases eq_or_ne d c with rfl | hne
    · rw [update_self]
      exact h.setup d
    · rw [update_of_ne hne]
      exact h.setup d
  pool := h.pool
  conn d := by
    rw [World.writeRequest_eq]
    show Carrier _ _ (Function.update w.conns c _ d, writtenOn d (w.log ++ [.assigned c r _ _]))
    rw [writtenOn_append]
    rcases eq_or_ne d c with rfl | hne
    · have hnew : ∀ a res, writtenOn d [.assigned d r a res] = [r] := by simp [writtenOn]
      rw [update_self, (h.kept r).1, (h.kept r).2, hnew]
      exact (h.conn d).carrying hr _
    · have hnone : ∀ a res, writtenOn d [.assigned c r a res] = [] := by simp [writtenOn, hne.symm]
      rw [update_of_ne hne, hnone, List.append_nil]
      exact h.conn d

theorem hand (h : Traced x w) (c : ConnId) {tasks : List ClientTask} (known : ∀ t ∈ tasks, Knows x t) :
    Traced x (w.hand c tasks) := by
  refine List.foldlRecOn (motive := Traced x) tasks _ (h.note fun _ => rfl) ?_
  rintro u hu (r | _) ht
  · exact hu.writeRequest c (known _ ht r rfl)
  · exact ⟨hu.tls, hu.count, hu.kept, hu.callbacks, hu.setup, hu.pool, hu.conn⟩

/-- A fault changes nothing. -/
theorem faulted (h : Traced x w) (f : Fault) : Traced x (w.faulted f) :=
  ⟨h.tls, h.count, h.kept, h.callbacks, h.setup, h.pool, h.conn⟩

theorem release (h : Traced x w) (c : ConnId) : Traced x (w.release c) := by
  unfold World.release
  rcases Pool.release_cases w.pool c with ⟨-, he⟩ | ⟨q, rest, -, he⟩ <;> rw [he]
  · exact h.setPool (h.pool.of_eq rfl rfl)
  · show Traced x (({ w with pool := { w.pool with next_ := rest } } : World).settleQueued q c)
    have hpop : Traced x { w with pool := { w.pool with next_ := rest } } :=
      h.setPool (h.pool.of_eq rfl rfl)
    rw [World.settleQueued]
    split
    · exact hpop.faulted _
    · rename_i f tasks hf
      obtain ⟨-, rfl, rfl⟩ := Future.settle_eq_some_iff.mp hf
      have hpopped : Traced x { w with pool := { w.pool with
          next_ := rest
          queued := Function.update w.pool.queued q { outcome := some (.done c), tasks := [] } } } :=
        h.setPool (h.pool.setQueued (by simp) rfl rfl)
      exact hpopped.hand c fun t ht r hr => h.pool.queued q r (hr ▸ ht)

theorem nextThen (h : Traced x w) {t : ClientTask} (ht : Knows x t) : Traced x (w.nextThen t) := by
  rcases w.nextThen_cases t with ⟨d, rest, -, -, hn⟩ | ⟨-, -, hn⟩ | ⟨-, -, hn⟩ <;> rw [hn]
  · have htaken : Traced x { w with pool := { w.pool with available := rest } } :=
      h.setPool (h.pool.of_eq rfl rfl)
    exact htaken.hand d fun t' ht' => List.mem_singleton.mp ht' ▸ ht
  · refine h.setPool (h.pool.setOpened (fun r hr => ?_) (by simp) rfl rfl)
    exact ht r (OpenTask.client.inj (List.mem_singleton.mp hr)).symm
  · refine h.setPool (h.pool.setQueued (fun r hr => ?_) rfl rfl)
    exact ht r (List.mem_singleton.mp hr).symm

/-- A connection that the account calls established is handed to who waits for it. -/
theorem settleOpened (h : Traced x w) (hc : x.established c) : Traced x (w.settleOpened c) := by
  rw [World.settleOpened]
  split
  · exact h.faulted _
  · rename_i f tasks hf
    obtain ⟨-, rfl, rfl⟩ := Future.settle_eq_some_iff.mp hf
    refine List.foldlRecOn (motive := Traced x) _ _
      (h.setPool (h.pool.setOpened (by simp) (fun _ => hc) rfl rfl)) ?_
    rintro u hu (t | _) ht
    · refine hu.hand c fun t' ht' r hr => ?_
      obtain rfl := List.mem_singleton.mp ht'
      exact h.pool.opened c r (hr ▸ ht)
    · exact hu.release c

/-! ## Settling -/

theorem setCompletions (h : Traced x w) {k : Completions}
    (count : k.nresponses = w.completions.nresponses)
    (callbacks : ∀ a t, t ∈ (k.attempts a).tasks → t.1 < x.made) :
    Traced x { w with completions := k } :=
  ⟨h.tls, count.trans h.count, h.kept, callbacks, h.setup, h.pool, h.conn⟩

/-- One attempt changes. -/
theorem callbacks_update (h : Traced x w) {a : AttemptId} {f : Future Nat (RespId × Nat)}
    (known : ∀ t ∈ f.tasks, t.1 < x.made) (b : AttemptId) (t : RespId × Nat)
    (ht : t ∈ (Function.update w.completions.attempts a f b).tasks) : t.1 < x.made := by
  rcases eq_or_ne b a with rfl | hne
  · rw [update_self] at ht
    exact known t ht
  · rw [update_of_ne hne] at ht
    exact h.callbacks b t ht

/-- A retry goes on with the request that was submitted. -/
theorem completionHandler (h : Traced x w) (a : AttemptId) (o : Outcome Nat) (v : Verdict)
    {t : RespId × Nat} (ht : t.1 < x.made) : Traced x (w.completionHandler a o v t) := by
  obtain ⟨r, n⟩ := t
  refine w.completionHandler_cases (P := Traced x) a o v r n (fun _ _ _ _ => ?_) (fun _ => ?_)
    fun _ => ?_
  · exact h.setCompletions rfl h.callbacks
  · have hasked : Traced x { w with completions := w.completions.ask r a n v } :=
      h.setCompletions rfl h.callbacks
    exact hasked.faulted _
  · have hreset : Traced x { w with
        completions := (w.completions.ask r a n v).reset r (n + 1) } := by
      refine h.setCompletions rfl (h.callbacks_update fun t' ht' => ?_)
      obtain rfl := List.mem_singleton.mp ht'
      exact ht
    have hretried : Traced x { w with
        completions := (w.completions.ask r a n v).reset r (n + 1)
        responses := Function.update w.responses r (w.responses r).reset
        sources := Function.update w.sources r [] } :=
      hreset.setResponses (kept_update rfl rfl)
    refine hretried.nextThen fun s hs => ?_
    obtain rfl : r = s := ClientTask.writeRequest.inj hs
    exact ht

theorem settleUnlessReady (h : Traced x w) (c : ConnId) (r : RespId) (o : Outcome Nat)
    (v : Verdict) : Traced x (w.settleUnlessReady c r o v) := by
  refine w.settleUnlessReady_preserves c r o v h ?_ ?_
  · exact h.setCompletions rfl (h.callbacks_update (by simp))
  · intro u t ht hu
    exact hu.completionHandler _ o v (h.callbacks _ t ht)

theorem failResponse (h : Traced x w) (c : ConnId) (err : Bytes) (v : Verdict) :
    Traced x (w.failResponse c err v) := by
  rw [World.failResponse]
  split
  · exact h.settleUnlessReady c _ _ v
  · exact h

/-! ## Reading -/

theorem readDelimited (h : Traced x w) (c : ConnId) (p : Point) : Traced x (w.readDelimited c p) :=
  h.update rfl ((h.conn c).inner (.inl rfl) rfl (List.Sublist.refl _) fun _ ht _ => ht)

theorem extractNextBodyChunk (h : Traced x w) {r : RespId} (hr : (w.conns c).res = some r)
    (data : Bytes) (v : Verdict) : Traced x (w.extractNextBodyChunk c data v) := by
  have stored : ∀ u, (u = w ∨ ∃ m, u = w.store c r m) → Traced x u := by
    rintro u (rfl | ⟨m, rfl⟩)
    · exact h
    · exact h.store c r m
  have finished : ∀ u, Traced x u →
      Traced x ((u.modConn c fun k => { k with res := none }).note (.finished c r)) := by
    intro u hu
    have hcleared : Traced x (u.modConn c fun k => { k with res := none }) :=
      hu.update rfl ((hu.conn c).inner (.inr rfl) rfl (List.Sublist.refl _) fun _ ht _ => ht)
    exact hcleared.note fun _ => rfl
  refine World.extractNextBodyChunk_cases (P := Traced x) data hr ?_ ?_
  · intro u s hu
    exact ((finished u (stored u hu)).settleUnlessReady c r _ v).close c
  · intro u s hu
    exact (((finished u (stored u hu)).readDelimited c .status).release c).settleUnlessReady c r _ v

/-- What a read handler does on the way. -/
theorem readPath (h : Traced x w) {r : RespId} {u : World} (path : ReadPath c r w u) :
    Traced x u := by
  induction path with
  | refl => exact h
  | timer _ ih => exact ih.extendTimer c
  | parser _ _ _ _ ih =>
    exact ih.update rfl ((ih.conn c).inner (.inl rfl) rfl (List.Sublist.refl _) fun _ ht _ => ht)
  | store m _ _ ih => exact ih.store c r m

/-- How it ends. -/
theorem readTurn (h : Traced x w) {r : RespId} (hr : (w.conns c).res = some r) {v : Verdict}
    {ends : Prop} {w' : World} (turn : ReadTurn c r v ends w w') : Traced x w' := by
  obtain ⟨u, path, hend⟩ := turn
  have hu := h.readPath path
  cases hend with
  | idle => exact hu
  | waits op =>
    exact hu.update rfl ((hu.conn c).inner (.inl rfl) rfl (List.Sublist.refl _) fun _ ht _ => ht)
  | line m => exact (hu.store c r m).readDelimited c .header
  | escaped e => exact hu.note fun _ => rfl
  | givenUp err => exact (hu.close c).failResponse c err v
  | finished data _ => exact hu.extractNextBodyChunk (path.res.trans hr) data v

theorem onStatus (h : Traced x w) (c : ConnId) (line : Bytes) : Traced x (w.onStatus c line) := by
  rw [World.onStatus]
  split
  · exact h.close c
  · have hs := (h.extendTimer c).storeStatus c ‹_› line
    dsimp only
    split
    · exact hs.note fun _ => rfl
    · exact hs.readDelimited c .header

theorem finishRead (h : Traced x w) (c : ConnId) (op : ReadOp)
    (hp : op.point ≠ .status → (w.conns c).res ≠ none) (result : Except Bytes Nat) (v : Verdict) :
    Traced x (w.finishRead c op result v) := by
  cases result with
  | error err =>
    simp only [World.finishRead]
    split
    · exact (h.close c).failResponse c _ v
    · exact h.close c
  | ok pos =>
    by_cases hstatus : op.point = .status
    · have htaken : ∀ input, Traced x (w.modConn c fun k => { k with input := input }) := fun _ =>
        h.update rfl ((h.conn c).inner (.inl rfl) rfl (List.Sublist.refl _) fun _ ht _ => ht)
      obtain ⟨p, wanted, done⟩ := op
      cases hstatus
      cases wanted with
      | none => exact (htaken _).onStatus c _
      | some n => exact htaken _
    · obtain ⟨r, hr⟩ := Option.ne_none_iff_exists'.mp (hp hstatus)
      exact h.readTurn hr (World.finishRead_turn op pos hstatus hr)

/-! ## Writing, waiting, connecting -/

theorem finishWrite (h : Traced x w) (c : ConnId) (result : Except Bytes Unit) (v : Verdict) :
    Traced x (w.finishWrite c result v) := by
  cases result with
  | ok => exact h.extendTimer c
  | error err =>
    simp only [World.finishWrite]
    split
    · exact h.faulted _
    · exact (h.settleUnlessReady c _ _ v).close c

theorem finishWait (h : Traced x w) (c : ConnId) (t : Wait) (v : Verdict) :
    Traced x (w.finishWait c t v) := by
  simp only [World.finishWait]
  split
  · exact ((h.cancelTimer c).close c).failResponse c _ v
  · exact h

theorem ready (h : Traced x w) (hc : x.established c) : Traced x (w.ready c) :=
  ((h.extendTimer c).readDelimited c .status).settleOpened hc

/-- Another operation establishes `c`. -/
theorem setSetup (h : Traced x w) {op : Option SetupOp} (hop : x.course c op) :
    Traced x (w.modConn c fun k => { k with setup := op }) where
  tls := h.tls
  count := h.count
  kept := h.kept
  callbacks := h.callbacks
  setup d := by
    show x.course d (Function.update w.conns c _ d).setup
    rcases eq_or_ne d c with rfl | hne
    · rw [update_self]
      exact hop
    · rw [update_of_ne hne]
      exact h.setup d
  pool := h.pool
  conn d := by
    show Carrier _ _ (Function.update w.conns c _ d, _)
    rcases eq_or_ne d c with rfl | hne
    · rw [update_self]
      exact (h.conn d).inner (.inl rfl) rfl (List.Sublist.refl _) fun _ ht _ => ht
    · rw [update_of_ne hne]
      exact h.conn d

/-- **A stage is passed**, and the next one follows it. -/
theorem finishSetup {tls : Bool} {chronicle : Chronicle} (h : Traced (chronicle.account tls) w)
    {stage : Stage} {result : Except Bytes Unit}
    (hstages : chronicle.stages c = SetupOp.passed ⟨stage, some result⟩)
    (hsecure : stage = .handshake → tls = true) :
    Traced (chronicle.account tls) (w.finishSetup c stage result) := by
  have hpassed := (h.setup c).1
  cases result with
  | error err => exact h.close c
  | ok =>
    cases stage with
    | resolve =>
      refine h.setSetup ⟨hpassed, fun op hop => ?_⟩
      obtain rfl := Option.some.inj hop
      exact ⟨hstages, fun hstage => nomatch hstage⟩
    | connect =>
      simp only [World.finishSetup]
      rw [h.tls]
      cases tls with
      | false => exact h.ready hstages
      | true =>
        refine (h.extendTimer c).setSetup ⟨hpassed, fun op hop => ?_⟩
        obtain rfl := Option.some.inj hop
        exact ⟨hstages, fun _ => rfl⟩
    | handshake =>
      obtain rfl := hsecure rfl
      exact h.ready hstages

/-- A response is made for a submission. -/
theorem create (h : Traced x w) (q : Request) (stall : Nat) :
    Traced { x with told := Function.update x.told x.made ⟨q, stall⟩, made := x.made + 1 }
      { w with
        completions := w.completions.create.1
        responses := Function.update w.responses w.completions.create.2
          { request := q, stallTimeout := stall }
        sources := Function.update w.sources w.completions.create.2 []
        statusFrom := Function.update w.statusFrom w.completions.create.2 none } := by
  obtain ⟨tls, told, made, course, established⟩ := x
  obtain rfl : w.completions.nresponses = made := h.count
  have hold : ∀ r, r < w.completions.nresponses →
      Function.update told w.completions.nresponses ⟨q, stall⟩ r = told r :=
    fun r hr => update_of_ne (Nat.ne_of_lt hr) _ _
  constructor
  · exact h.tls
  · rfl
  · intro r
    show (Function.update w.responses w.completions.nresponses _ r).request =
        (Function.update told w.completions.nresponses _ r).request ∧
      (Function.update w.responses w.completions.nresponses _ r).stallTimeout =
        (Function.update told w.completions.nresponses _ r).stall
    rcases eq_or_ne r w.completions.nresponses with rfl | hne
    · simp only [update_self, true_and]
    · simp only [update_of_ne hne]
      exact h.kept r
  · intro a t ht
    change t ∈ (Function.update w.completions.attempts w.completions.nattempts
      (Future.attach {} (w.completions.nresponses, 0)) a).tasks at ht
    rcases eq_or_ne a w.completions.nattempts with rfl | hne
    · rw [update_self] at ht
      obtain rfl := List.mem_singleton.mp ht
      exact Nat.lt_succ_self _
    · rw [update_of_ne hne] at ht
      exact Nat.lt_succ_of_lt (h.callbacks a t ht)
  · exact h.setup
  · exact ⟨fun s r hr => Nat.lt_succ_of_lt (h.pool.queued s r hr),
      fun f r hr => Nat.lt_succ_of_lt (h.pool.opened f r hr), h.pool.established⟩
  · intro d
    have hd := h.conn d
    refine ⟨fun r hr => Nat.lt_succ_of_lt (hd.known r hr),
      fun r hr => Nat.lt_succ_of_lt (hd.carried r hr), hd.attempt, ?_, fun r hr t ht hp => ?_⟩
    · have hsame : (writtenOn d w.log).map (fun r =>
          (Function.update told w.completions.nresponses ⟨q, stall⟩ r).request.bytes) =
          (writtenOn d w.log).map fun r => (told r).request.bytes :=
        List.map_congr_left fun r hr => by rw [hold r (hd.known r hr)]
      exact hsame ▸ hd.sent
    · exact (hd.timed r hr t ht hp).trans (congrArg Submission.stall (hold r (hd.carried r hr)).symm)

/-- **A request is submitted.** -/
theorem request (h : Traced x w) (q : Request) (stall : Nat) :
    Traced { x with told := Function.update x.told x.made ⟨q, stall⟩, made := x.made + 1 }
      (w.request q stall) := by
  refine (h.create q stall).nextThen fun r hr => ?_
  obtain rfl : w.completions.nresponses = r := ClientTask.writeRequest.inj hr
  exact h.count ▸ Nat.lt_succ_self _

/-! ## One event -/

theorem account_submitted (tls : Bool) (h : Chronicle) (s : Submission) :
    Chronicle.account tls { h with submitted := h.submitted ++ [s] } =
      { h.account tls with
        told := Function.update h.told h.submitted.length s, made := h.submitted.length + 1 } := by
  have htold : Chronicle.told { h with submitted := h.submitted ++ [s] } =
      Function.update h.told h.submitted.length s := by
    funext r
    show (h.submitted ++ [s])[r]?.getD {} = _
    rcases Nat.lt_trichotomy r h.submitted.length with hlt | rfl | hgt
    · rw [update_of_ne (Nat.ne_of_lt hlt), List.getElem?_append_left hlt]
      rfl
    · simp
    · rw [update_of_ne (Nat.ne_of_gt hgt), Chronicle.told,
        List.getElem?_eq_none (by rw [List.length_append]; exact hgt),
        List.getElem?_eq_none (Nat.le_of_lt hgt)]
  simp [Chronicle.account, htold]

/-- A stage completes. -/
theorem setupDone {tls : Bool} {h : Chronicle} (t : Traced (h.account tls) w) {stage : Stage}
    (hset : (w.conns c).setup = some ⟨stage, none⟩) (hopen : (w.pool.opened c).outcome = none) :
    Traced (Chronicle.account tls
        { h with stages := Function.update h.stages c (h.stages c ++ [stage]) })
      (w.modConn c fun k => { k with setup := some ⟨stage, some (.ok ())⟩ }) := by
  obtain ⟨-, hcourse⟩ := t.setup c
  obtain ⟨hbehind, hsecure⟩ := hcourse _ hset
  have hnew : h.stages c ++ [stage] <+: stagesRequired tls := by
    rw [hbehind]
    cases stage with
    | resolve => cases tls <;> decide
    | connect => cases tls <;> decide
    | handshake =>
      obtain rfl := hsecure rfl
      decide
  constructor
  · exact t.tls
  · exact t.count
  · exact t.kept
  · exact t.callbacks
  · intro d
    show Function.update h.stages c _ d <+: _ ∧
      ∀ op, (Function.update w.conns c _ d).setup = some op →
        Function.update h.stages c _ d = op.passed ∧ _
    rcases eq_or_ne d c with rfl | hne
    · rw [update_self, update_self]
      refine ⟨hnew, fun op hop => ?_⟩
      obtain rfl := Option.some.inj hop
      exact ⟨congrArg (· ++ [stage]) hbehind, hsecure⟩
    · rw [update_of_ne hne, update_of_ne hne]
      exact t.setup d
  · refine ⟨t.pool.queued, t.pool.opened, fun d hd => ?_⟩
    have hne : d ≠ c := fun he => hd (he ▸ hopen)
    show Function.update h.stages c _ d = _
    rw [update_of_ne hne]
    exact t.pool.established d hd
  · intro d
    show Carrier _ _ (Function.update w.conns c _ d, _)
    rcases eq_or_ne d c with rfl | hne
    · rw [update_self]
      exact (t.conn d).inner (.inl rfl) rfl (List.Sublist.refl _) fun _ ht _ => ht
    · rw [update_of_ne hne]
      exact t.conn d

/-- **Every event keeps the invariant**, with the history it goes into. -/
theorem step {tls : Bool} {h : Chronicle} (t : Traced (h.account tls) w) (hw : Exclusive w)
    {e : Event} {w' : World} (hstep : w.step e = some w') :
    Traced ((Chronicle.record w e w' h).account tls) w' := by
  obtain ⟨-, hstep⟩ := World.step_eq_some hstep
  -- what an operation does to its own list
  have inner : ∀ c (f : Conn → Conn), (f (w.conns c)).setup = (w.conns c).setup →
      Carrier h.told h.submitted.length (f (w.conns c), writtenOn c w.log) →
      Traced (h.account tls) (w.modConn c f) := fun c f hset hk => t.update hset hk
  cases e with
  | request q stall =>
    cases hstep
    rw [Chronicle.record, account_submitted]
    exact t.request q stall
  | next =>
    cases hstep
    exact t.nextThen fun _ hr => nomatch hr
  | release c =>
    obtain ⟨-, rfl⟩ := World.release_inv hstep
    have hheld : Traced (h.account tls) { w with held := w.held.erase c } :=
      ⟨t.tls, t.count, t.kept, t.callbacks, t.setup, t.pool, t.conn⟩
    exact hheld.release c
  | close c =>
    obtain ⟨-, -, rfl⟩ := World.close_inv hstep
    exact t.close c
  | remove c =>
    obtain ⟨-, rfl⟩ := World.remove_inv hstep
    exact t.remove c
  | maxConnections n =>
    cases hstep
    exact t.setPool (t.pool.of_eq rfl rfl)
  | limitConnections b =>
    cases hstep
    exact t.setPool (t.pool.of_eq rfl rfl)
  | setupDone c result =>
    obtain ⟨stage, hset, -, -, rfl⟩ := World.setupDone_inv hstep
    have hopen := ((hw.conn c).setup (by simp [hset])).1
    cases result with
    | ok =>
      simp only [Chronicle.record, hset]
      exact t.setupDone hset hopen
    | error err =>
      refine t.setSetup ⟨(t.setup c).1, fun op hop => ?_⟩
      obtain rfl := Option.some.inj hop
      exact (t.setup c).2 ⟨stage, none⟩ hset
  | runSetup c =>
    obtain ⟨stage, result, hset, rfl⟩ := World.runSetup_inv hstep
    obtain ⟨hpassed, hcourse⟩ := t.setup c
    obtain ⟨hstages, hsecure⟩ := hcourse _ hset
    have hbefore : Traced (h.account tls) (w.modConn c fun k => { k with setup := none }) :=
      t.setSetup ⟨hpassed, fun _ hop => nomatch hop⟩
    exact hbefore.finishSetup hstages hsecure
  | receive c i bytes =>
    obtain ⟨op, -, -, -, -, rfl⟩ := World.receive_inv hstep
    exact inner c _ rfl ((t.conn c).inner (.inl rfl) rfl (List.Sublist.refl _) fun _ ht _ => ht)
  | readFails c i err =>
    obtain ⟨op, -, -, rfl⟩ := World.readFails_inv hstep
    exact inner c _ rfl ((t.conn c).inner (.inl rfl) rfl (List.Sublist.refl _) fun _ ht _ => ht)
  | runRead c i v =>
    obtain ⟨op, result, hop, -, rfl⟩ := World.runRead_inv hstep
    obtain ⟨-, -, hpoint⟩ := hw.beforeRead hop
    have hbefore := inner c (fun k => { k with reads := k.reads.eraseIdx i }) rfl
      ((t.conn c).inner (.inl rfl) rfl (List.Sublist.refl _) fun _ ht _ => ht)
    exact hbefore.finishRead c op hpoint result v
  | writeDone c i result =>
    obtain ⟨op, hop, -, -, rfl⟩ := World.writeDone_inv hstep
    refine inner c (fun k => { k with writes := k.writes.set i { op with result := some result } })
      rfl ?_
    have hk := t.conn c
    have hdata : ((w.conns c).writes.set i { op with result := some result }).map WriteOp.data =
        (w.conns c).writes.map WriteOp.data := by
      obtain ⟨hi, rfl⟩ := List.getElem?_eq_some_iff.mp hop
      rw [List.map_set, ← List.getElem_map WriteOp.data (h := by simpa using hi),
        List.set_getElem_self]
    exact ⟨hk.known, hk.carried, hk.attempt, hdata ▸ hk.sent, hk.timed⟩
  | runWrite c i v =>
    obtain ⟨op, result, -, -, rfl⟩ := World.runWrite_inv hstep
    have hbefore := inner c (fun k => { k with writes := k.writes.eraseIdx i }) rfl
      ((t.conn c).inner (.inl rfl) rfl (List.eraseIdx_sublist _ _) fun _ ht _ => ht)
    exact hbefore.finishWrite c result v
  | expire c i =>
    obtain ⟨op, -, -, rfl⟩ := World.expire_inv hstep
    refine inner c _ rfl ((t.conn c).inner (.inl rfl) rfl (List.Sublist.refl _) fun s hs hp => ?_)
    rcases List.mem_or_eq_of_mem_set hs with hold | rfl
    · exact hold
    · cases hp
  | runWait c i v =>
    obtain ⟨op, -, -, rfl⟩ := World.runWait_inv hstep
    have hbefore := inner c (fun k => { k with waits := k.waits.eraseIdx i }) rfl
      ((t.conn c).inner (.inl rfl) rfl (List.Sublist.refl _) fun _ ht _ =>
        List.mem_of_mem_eraseIdx ht)
    exact hbefore.finishWait c op v

theorem init (eraseEnd : List (Option FutId) → List (Option FutId)) (tls limit : Bool) (max : Nat) :
    Traced (Chronicle.account tls {}) (World.init eraseEnd tls limit max) where
  tls := rfl
  count := rfl
  kept _ := ⟨rfl, rfl⟩
  callbacks := by simp [World.init]
  setup c := by
    refine ⟨List.nil_prefix, fun op hop => ?_⟩
    obtain rfl := Option.some.inj hop
    exact ⟨rfl, fun hstage => absurd hstage (by decide)⟩
  pool := ⟨by simp [World.init], by simp [World.init], by simp [World.init]⟩
  conn c := ⟨by simp [World.side, World.init, writtenOn], by simp [World.side, World.init],
    fun _ => rfl, List.Sublist.refl _, by simp [World.side, World.init]⟩

/-- The invariant holds in every run, with its history. -/
theorem run {eraseEnd : List (Option FutId) → List (Option FutId)} {tls limit : Bool} {max : Nat}
    {h : Chronicle} (run : Run (recorded World.step Chronicle.record) anyEvent
      (World.init eraseEnd tls limit max, {}) (w, h)) : Exclusive w ∧ Traced (h.account tls) w :=
  run.invariant_recorded (P := Exclusive) (Q := fun w h => Traced (h.account tls) w)
    ⟨Exclusive.init eraseEnd tls limit max, init eraseEnd tls limit max⟩
    (fun hw hstep => hw.step hstep) fun hw t _ hstep => t.step hw hstep

/-- What the invariant says about what is on its way, -/
theorem wire {tls : Bool} {h : Chronicle} (t : Traced (h.account tls) w) : Wire h w where
  submitted := t.count
  kept r s hs := by
    have htold : h.told r = s := by rw [Chronicle.told, hs, Option.getD_some]
    exact (t.kept r).1.trans (congrArg Submission.request htold)
  known c := (t.conn c).known
  sent c := (t.conn c).sent
  timed c := (t.conn c).timed

/-- and about when. -/
theorem secured {tls : Bool} {h : Chronicle} (t : Traced (h.account tls) w) (hw : Exclusive w) :
    Secured tls h w where
  inOrder c := (t.setup c).1
  used c hused := by
    refine t.pool.established c fun hopen => ?_
    obtain ⟨-, hattempt, hwrites⟩ := (hw.conn c).opening hopen
    rcases hused with hwritten | hout
    · exact hwritten ((t.conn c).attempt hattempt)
    · exact hout hwrites
  offered c hc := t.pool.established c ((hw.conn c).idle hc).2

end Traced

/-! ## The results -/

section runs

variable {eraseEnd : List (Option FutId) → List (Option FutId)} {tls limit : Bool} {max : Nat}
  {w : World} {h : Chronicle}

/-- **Requests go out as they were submitted**, in any run and whatever is retried. -/
theorem wire_of_run (run : Run (recorded World.step Chronicle.record) anyEvent
    (World.init eraseEnd tls limit max, {}) (w, h)) : Wire h w := by
  obtain ⟨-, t⟩ := Traced.run run
  exact t.wire

/-- The first connection breaks before the request is out, and it is retried on another. -/
def brokenUpload : List Event :=
  [.request getRequest 30000] ++ connects 0 ++
    [.readFails 0 0 (ascii "End of file"), .runRead 0 0 .retry] ++ connects 1

theorem wire_brokenUpload :
    ∃ w h, exec (recorded World.step Chronicle.record) (World.init id false true 1, {})
        brokenUpload = some (w, h) ∧
      (w.conns 0).writes.map WriteOp.data = [getRequest.bytes] ∧
      (w.conns 1).writes.map WriteOp.data = [getRequest.bytes] ∧ Wire h w := by
  have hvals : (exec (recorded World.step Chronicle.record) (World.init id false true 1, {})
      brokenUpload).map (fun s => ((s.1.conns 0).writes.map WriteOp.data,
        (s.1.conns 1).writes.map WriteOp.data)) =
      some ([getRequest.bytes], [getRequest.bytes]) := by decide
  obtain ⟨⟨w, h⟩, hexec, hvals⟩ := Option.map_eq_some_iff.mp hvals
  exact ⟨w, h, hexec, (Prod.mk.inj hvals).1, (Prod.mk.inj hvals).2,
    wire_of_run (.of_exec (fun _ _ => trivial) brokenUpload hexec)⟩

/-- **Nothing goes out before the connection is established**, on a TLS endpoint with its
handshake. -/
theorem secured_of_run (run : Run (recorded World.step Chronicle.record) anyEvent
    (World.init eraseEnd tls limit max, {}) (w, h)) : Secured tls h w := by
  obtain ⟨hw, t⟩ := Traced.run run
  exact t.secured hw

/-- A connection that resolves, connects and shakes hands. -/
def connectsSecurely (c : ConnId) : List Event :=
  connects c ++ [.setupDone c (.ok ()), .runSetup c]

/-- A request on a TLS endpoint. -/
def securedRequest : List Event := .request getRequest 30000 :: connectsSecurely 0

theorem secured_securedRequest :
    ∃ w h, exec (recorded World.step Chronicle.record) (World.init id true true 1, {})
        securedRequest = some (w, h) ∧ writtenOn 0 w.log = [0] ∧
      h.stages 0 = [.resolve, .connect, .handshake] ∧ Secured true h w := by
  have hvals : (exec (recorded World.step Chronicle.record) (World.init id true true 1, {})
      securedRequest).map (fun s => (writtenOn 0 s.1.log, s.2.stages 0)) =
      some ([0], [.resolve, .connect, .handshake]) := by decide
  obtain ⟨⟨w, h⟩, hexec, hvals⟩ := Option.map_eq_some_iff.mp hvals
  exact ⟨w, h, hexec, (Prod.mk.inj hvals).1, (Prod.mk.inj hvals).2,
    secured_of_run (.of_exec (fun _ _ => trivial) securedRequest hexec)⟩

end runs

end AsioProtocols
