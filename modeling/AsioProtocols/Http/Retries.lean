import AsioProtocols.Http.CompletesOnce

/-!
# Retries, and who decides on them

`on_completion` is a signal with any number of slots, combined by `chained<bool>`: the
slots are called in order until one answers `false`, which calls for a retry, or throws,
which fails the request. The `Verdict` of an event is what the chain makes of the answers.

Seen from outside, a request is being tried for the n-th time or is completed, and what
the pool and the connections do does not show. `Retrying` is that machine: a request is
submitted, and an attempt that settles goes through the slots. `Retrying.simulates_step`:
each event of the client is one step of it or none (`retrying_of_run` for runs), and what
the machine keeps is what the slots may rely on (`disciplined_of_run`).

`Settlement` is the inversion of an event of the client for the futures of the responses.
-/

namespace AsioProtocols

open Function

/-! ## The slots -/

/-- What a slot does when it is called: it answers, or throws. -/
abbrev Answer := Except Bytes Bool

/-- `chained<bool>` over what the slots would do: the answers of those it calls, and what
the chain comes to (client.h, lines 20-32 and 62-69). -/
def chained : List Answer → List Answer × Verdict
  | [] => ([], .accept)
  | .ok true :: rest => (.ok true :: (chained rest).1, (chained rest).2)
  | .ok false :: _ => ([.ok false], .retry)
  | .error e :: _ => ([.error e], .throw e)

/-- One call of `on_completion`: for which response, with which retry number, and the
answers of the slots that were called. -/
structure Consult where
  resp : RespId
  retry : Nat
  answers : List Answer

namespace Consult

/-- Every slot was called, and answered `true`. -/
def Approved (slots : Nat) (k : Consult) : Prop := k.answers = List.replicate slots (.ok true)

/-- Some slots answered `true`, and the one behind them ended the chain with `last`. -/
def EndedBy (slots : Nat) (last : Answer) (k : Consult) : Prop :=
  ∃ m < slots, k.answers = List.replicate m (.ok true) ++ [last]

end Consult

/-- The three ways a chain can end. -/
theorem chained_cases (answers : List Answer) :
    chained answers = (List.replicate answers.length (.ok true), .accept) ∨
    (∃ m < answers.length, chained answers = (List.replicate m (.ok true) ++ [.ok false], .retry)) ∨
    ∃ m < answers.length, ∃ e,
      chained answers = (List.replicate m (.ok true) ++ [.error e], .throw e) := by
  induction answers with
  | nil => exact .inl rfl
  | cons answer rest ih =>
    match answer with
    | .ok true =>
      rcases ih with h | ⟨m, hm, h⟩ | ⟨m, hm, e, h⟩
      · exact .inl (by rw [chained, h]; rfl)
      · exact .inr (.inl ⟨m + 1, Nat.succ_lt_succ hm, by rw [chained, h]; rfl⟩)
      · exact .inr (.inr ⟨m + 1, Nat.succ_lt_succ hm, e, by rw [chained, h]; rfl⟩)
    | .ok false => exact .inr (.inl ⟨0, Nat.succ_pos _, rfl⟩)
    | .error e => exact .inr (.inr ⟨0, Nat.succ_pos _, e, rfl⟩)

/-! ## The machine of the retries -/

/-- Where a request is. -/
inductive Status
  | trying (retry : Nat)
  | completed (o : Outcome Nat)

/-- The requests in the order of their submission, and the calls of `on_completion`. -/
structure Retrying where
  statuses : List Status := []
  consults : List Consult := []

/-- What can happen: a request is submitted, or the attempt of one settles with an outcome
and the slots are asked. -/
inductive RetryingEvent
  | submit
  | settle (r : RespId) (o : Outcome Nat) (answers : List Answer)

/-- The slots would give these answers, if they are asked. -/
def RetryingEvent.Hears (answers : List Answer) : RetryingEvent → Prop
  | .submit => True
  | .settle _ _ heard => heard = answers

namespace Retrying

/-- What becomes of a request behind attempt `n`. -/
def next (n : Nat) (o : Outcome Nat) : Verdict → Status
  | .accept => .completed o
  | .retry => .trying (n + 1)
  | .throw e => .completed (.failed e)

def step (s : Retrying) : RetryingEvent → Option Retrying
  | .submit => some { s with statuses := s.statuses ++ [.trying 0] }
  | .settle r o answers =>
    match s.statuses[r]? with
    | some (.trying n) =>
      some { statuses := s.statuses.set r (next n o (chained answers).2)
             consults := s.consults ++ [⟨r, n, (chained answers).1⟩] }
    | _ => none

/-- The calls of `on_completion` for a response. -/
def consultsOf (s : Retrying) (r : RespId) : List Consult := s.consults.filter (·.resp == r)

/-- **What the slots may rely on.** The retry numbers of a request are 0, 1, 2, …; a request
that is being tried was rejected every time before; a completed one was rejected until the
last time, when all slots approved of it, or one of them threw what it failed with; and
without slots it is tried once. -/
structure Disciplined (slots : Nat) (s : Retrying) : Prop where
  inOrder : ∀ r, (s.consultsOf r).map Consult.retry = List.range (s.consultsOf r).length
  going : ∀ r n, s.statuses[r]? = some (.trying n) → n = (s.consultsOf r).length ∧
    ∀ k ∈ s.consultsOf r, k.EndedBy slots (.ok false)
  ended : ∀ r o, s.statuses[r]? = some (.completed o) → ∃ earlier last,
    s.consultsOf r = earlier ++ [last] ∧ (∀ k ∈ earlier, k.EndedBy slots (.ok false)) ∧
      (last.Approved slots ∨ ∃ e, last.EndedBy slots (.error e) ∧ o = .failed e)
  unknown : ∀ r, s.statuses.length ≤ r → s.consultsOf r = []
  unheard : slots = 0 → ∀ r, (s.consultsOf r).length ≤ 1

theorem consultsOf_append (s : Retrying) (statuses : List Status) (k : Consult) (r : RespId) :
    consultsOf { statuses := statuses, consults := s.consults ++ [k] } r =
      if k.resp = r then s.consultsOf r ++ [k] else s.consultsOf r := by
  by_cases hr : k.resp = r <;> simp [consultsOf, List.filter_append, hr]

/-- Only a slot can reject. -/
theorem not_endedBy_zero {slots : Nat} (hslots : slots = 0) {last : Answer} {k : Consult} :
    ¬ k.EndedBy slots last := by
  rintro ⟨m, hm, -⟩
  exact Nat.not_lt_zero m (hslots ▸ hm)

/-- The slots of one settled attempt. -/
theorem Disciplined.settle {slots : Nat} {s : Retrying} (h : Disciplined slots s) {r n : Nat}
    (hr : s.statuses[r]? = some (.trying n)) (o : Outcome Nat) {answers : List Answer}
    (hanswers : answers.length = slots) :
    Disciplined slots { statuses := s.statuses.set r (next n o (chained answers).2)
                        consults := s.consults ++ [⟨r, n, (chained answers).1⟩] } := by
  obtain ⟨hn, hrejected⟩ := h.going r n hr
  have hlt := (List.getElem?_eq_some_iff.mp hr).1
  have hself : ∀ status, (s.statuses.set r status)[r]? = some status :=
    fun _ => List.getElem?_set_self hlt
  constructor
  · intro t
    rw [consultsOf_append]
    split
    · rename_i ht
      obtain rfl : r = t := ht
      rw [List.map_append, h.inOrder, List.length_append, List.length_singleton, List.range_succ, hn]
      rfl
    · exact h.inOrder t
  · intro t m ht
    rw [consultsOf_append]
    rcases eq_or_ne r t with rfl | hne
    · rw [hself] at ht
      rw [if_pos rfl]
      rcases chained_cases answers with hc | ⟨i, hi, hc⟩ | ⟨i, -, e, hc⟩
      · rw [hc] at ht
        cases ht
      · rw [hc] at ht ⊢
        obtain rfl : n + 1 = m := Status.trying.inj (Option.some.inj ht)
        refine ⟨by rw [List.length_append, ← hn]; rfl, fun k hk => ?_⟩
        rcases List.mem_append.mp hk with hold | hnew
        · exact hrejected k hold
        · rw [List.mem_singleton.mp hnew]
          exact ⟨i, hanswers ▸ hi, rfl⟩
      · rw [hc] at ht
        cases ht
    · rw [if_neg hne]
      rw [List.getElem?_set_ne hne] at ht
      exact h.going t m ht
  · intro t o' ht
    rw [consultsOf_append]
    rcases eq_or_ne r t with rfl | hne
    · rw [hself] at ht
      refine ⟨s.consultsOf r, ⟨r, n, (chained answers).1⟩, if_pos rfl, hrejected, ?_⟩
      rcases chained_cases answers with hc | ⟨i, -, hc⟩ | ⟨i, hi, e, hc⟩
      · exact .inl (by rw [Consult.Approved, hc, hanswers])
      · rw [hc] at ht
        cases ht
      · rw [hc] at ht ⊢
        exact .inr ⟨e, ⟨i, hanswers ▸ hi, rfl⟩, (Status.completed.inj (Option.some.inj ht)).symm⟩
    · rw [if_neg hne]
      rw [List.getElem?_set_ne hne] at ht
      exact h.ended t o' ht
  · intro t ht
    rw [List.length_set] at ht
    have hne : r ≠ t := fun he => Nat.not_le.mpr hlt (he ▸ ht)
    rw [consultsOf_append, if_neg hne]
    exact h.unknown t ht
  · intro hslots t
    rw [consultsOf_append]
    split
    · rename_i ht
      obtain rfl : r = t := ht
      have hnone : s.consultsOf r = [] :=
        List.eq_nil_iff_forall_not_mem.mpr fun k hk => not_endedBy_zero hslots (hrejected k hk)
      simp [hnone]
    · exact h.unheard hslots t

/-- A request is submitted. -/
theorem Disciplined.submit {slots : Nat} {s : Retrying} (h : Disciplined slots s) :
    Disciplined slots { s with statuses := s.statuses ++ [.trying 0] } := by
  have hcases : ∀ {r status}, (s.statuses ++ [.trying 0])[r]? = some status →
      s.statuses[r]? = some status ∨ (s.statuses.length ≤ r ∧ status = .trying 0) := by
    intro r status hr
    rcases Nat.lt_or_ge r s.statuses.length with hlt | hge
    · rw [List.getElem?_append_left hlt] at hr
      exact .inl hr
    · rw [List.getElem?_append_right hge] at hr
      exact .inr ⟨hge, (List.mem_singleton.mp (List.mem_of_getElem? hr))⟩
  constructor
  · exact h.inOrder
  · intro r n hr
    rcases hcases hr with hold | ⟨hge, hnew⟩
    · exact h.going r n hold
    · cases hnew
      have hnone : ({ s with statuses := s.statuses ++ [.trying 0] } : Retrying).consultsOf r = [] :=
        h.unknown r hge
      simp [hnone]
  · intro r o hr
    rcases hcases hr with hold | ⟨-, hnew⟩
    · exact h.ended r o hold
    · cases hnew
  · intro r hr
    refine h.unknown r (Nat.le_trans ?_ hr)
    simp
  · exact h.unheard

/-- **The discipline is kept.** -/
theorem Disciplined.step {slots : Nat} {s s' : Retrying} (h : Disciplined slots s)
    {e : RetryingEvent} {answers : List Answer} (heard : e.Hears answers)
    (hanswers : answers.length = slots) (hstep : s.step e = some s') : Disciplined slots s' := by
  cases e with
  | submit =>
    obtain rfl := Option.some.inj hstep
    exact h.submit
  | settle r o heard' =>
    obtain rfl : heard' = answers := heard
    rw [Retrying.step] at hstep
    split at hstep
    · rename_i n hr
      obtain rfl := Option.some.inj hstep
      exact h.settle hr o hanswers
    · cases hstep

end Retrying

/-! ## What an event makes of the futures -/

/-- **Settlement**: the futures of the responses stay as they are, a response is made for
a request, or one attempt settles, with the one callback on it: `completion()` is settled,
or the next attempt is made. -/
inductive Settlement (v : Verdict) (k : Completions) : Completions → Prop
  | same : Settlement v k k
  | created : Settlement v k k.create.1
  | completed (c : ConnId) (r : RespId) (a : AttemptId) (o o' : Outcome Nat)
      (attempts : AttemptId → Future Nat (RespId × Nat)) (known : r < k.nresponses)
      (open_ : k.completion r = none)
      (answered : (v = .accept ∧ o' = o) ∨ ∃ e, v = .throw e ∧ o' = .failed e) :
      Settlement v k { k with
        attempts := attempts
        completion := update k.completion r (some o')
        history := k.history ++ [.settled c r a, .asked r a (retries r k.history).length v,
          .completed r a] }
  | retried (c : ConnId) (r : RespId) (a : AttemptId) (o : Outcome Nat)
      (attempts : AttemptId → Future Nat (RespId × Nat)) (nattempts : Nat)
      (current : RespId → AttemptId) (known : r < k.nresponses) (open_ : k.completion r = none)
      (answered : v = .retry) :
      Settlement v k { k with
        attempts := attempts
        nattempts := nattempts
        current := current
        history := k.history ++ [.settled c r a, .asked r a (retries r k.history).length v] }

namespace Settlement

variable {w : World} {c : ConnId} {v : Verdict}

/-- The futures are those of another state. -/
theorem of_futures {k : Completions} {u : World} (h : Settlement v u.completions k)
    (hu : u.futures = w.futures) : Settlement v w.completions k :=
  (show u.completions = w.completions from congrArg Prod.fst hu) ▸ h

theorem settleUnlessReady (h : Settling w.futures) {r : RespId} (hr : r < w.completions.nresponses)
    (o : Outcome Nat) : Settlement v w.completions (w.settleUnlessReady c r o v).completions := by
  rcases w.settleUnlessReady_cases c r o v with ⟨-, he⟩ | ⟨hp, he⟩
  · rw [he]
    exact .same
  · have ho : Orderly w.completions := h.1
    obtain ⟨htasks, hc⟩ := ho.pending r hr hp
    rw [he, htasks, List.foldl_cons, List.foldl_nil]
    cases v with
    | accept =>
      simpa [World.completionHandler, World.complete, Completions.complete, Completions.ask, hc]
        using Settlement.completed (v := .accept) c r _ o o _ hr hc (.inl ⟨rfl, rfl⟩)
    | throw e =>
      simpa [World.completionHandler, World.complete, Completions.complete, Completions.ask, hc]
        using Settlement.completed (v := .throw e) c r _ o (.failed e) _ hr hc (.inr ⟨e, rfl, rfl⟩)
    | retry =>
      rw [World.completionHandler, World.completions_nextThen]
      simpa [Completions.ask, Completions.reset] using
        Settlement.retried (v := .retry) c r _ o _ _ _ hr hc rfl

theorem failResponse (h : Settling w.futures)
    (hres : ∀ r, (w.conns c).res = some r → r < w.completions.nresponses) (err : Bytes) :
    Settlement v w.completions (w.failResponse c err v).completions := by
  rw [World.failResponse]
  split
  · rename_i r hr
    exact settleUnlessReady h (hres r hr) _
  · exact .same

theorem closeAndFail (h : Settling w.futures)
    (hres : ∀ r, (w.conns c).res = some r → r < w.completions.nresponses) (err : Bytes) :
    Settlement v w.completions ((w.close c).failResponse c err v).completions := by
  have hk := w.completions_close c
  refine (failResponse (by rwa [World.futures_close]) ?_ err).of_futures (w.futures_close c)
  intro r hr
  rw [World.res_close] at hr
  rw [hk]
  exact hres r hr

theorem extractNextBodyChunk (h : Settling w.futures) {r : RespId}
    (hr : (w.conns c).res = some r) (hknown : r < w.completions.nresponses)
    (hq : ∀ q ∈ w.pool.next_, (w.pool.queued q).outcome = none) (data : Bytes) :
    Settlement v w.completions (w.extractNextBodyChunk c data v).completions := by
  have stored : ∀ u, (u = w ∨ ∃ m, u = w.store c r m) → u.futures = w.futures ∧
      u.pool = w.pool := by
    rintro u (rfl | ⟨m, rfl⟩) <;> exact ⟨rfl, rfl⟩
  -- settled in a state with the same futures
  have settled : ∀ (u : World) (s : Nat), u.futures = w.futures →
      Settlement v w.completions (u.settleUnlessReady c r (.done s) v).completions := by
    intro u s hu
    refine (settleUnlessReady (w := u) (hu ▸ h) ?_ _).of_futures hu
    show r < u.futures.1.nresponses
    rw [hu]
    exact hknown
  refine World.extractNextBodyChunk_cases
    (P := fun u => Settlement v w.completions u.completions) data hr ?_ ?_
  · intro u s hu
    rw [World.completions_close]
    exact settled ((u.modConn c _).note _) s (stored u hu).1
  · intro u s hu
    obtain ⟨hf, hpool⟩ := stored u hu
    refine settled _ s ?_
    rw [World.futures_release]
    · exact hf
    · show ∀ q ∈ u.pool.next_, (u.pool.queued q).outcome = none
      rw [hpool]
      exact hq

theorem readOutcome {w' : World} {r : RespId} {gaveUp : Prop}
    (out : ReadOutcome c r v gaveUp w w') (h : Settling w.futures)
    (hr : (w.conns c).res = some r) (hknown : r < w.completions.nresponses)
    (hq : ∀ q ∈ w.pool.next_, (w.pool.queued q).outcome = none) :
    Settlement v w.completions w'.completions := by
  induction out with
  | timer _ ih => exact ih h (by simp [hr]) hknown hq
  | parser _ _ _ _ ih => exact ih h (by simp [World.modConn, hr]) hknown hq
  | store _ _ ih => exact ih h hr hknown hq
  | idle => exact .same
  | waits => exact .same
  | escaped => exact .same
  | givenUp w err _ =>
    refine closeAndFail h (fun s hs => ?_) err
    obtain rfl : r = s := Option.some.inj (hr.symm.trans hs)
    exact hknown
  | finished w data => exact extractNextBodyChunk h hr hknown hq data

theorem finishRead (hw : Exclusive w) (h : Settling w.futures) (op : ReadOp)
    (hpoint : op.point ≠ .status → (w.conns c).res ≠ none) (result : Except Bytes Nat) :
    Settlement v w.completions (w.finishRead c op result v).completions := by
  cases result with
  | error err =>
    simp only [World.finishRead]
    split
    · exact closeAndFail h (hw.conn c).known _
    · rw [World.completions_close]
      exact .same
  | ok pos =>
    by_cases hp : op.point = .status
    · obtain ⟨input, hcases⟩ := World.finishRead_status (w := w) (c := c) (v := v) op pos hp
      rcases hcases with he | ⟨-, he⟩ | ⟨r, parsed, -, ⟨e, -, he⟩ | ⟨-, he⟩⟩ <;> rw [he]
      · exact .same
      · rw [World.completions_close]
        exact .same
      · exact .same
      · exact .same
    · obtain ⟨r, hr⟩ := Option.ne_none_iff_exists'.mp (hpoint hp)
      exact readOutcome (World.finishRead_outcome op pos hp hr) h hr ((hw.conn c).known r hr)
        (fun q hq => (hw.queues.pending q hq).2)

theorem finishWrite (hw : Exclusive w) (h : Settling w.futures) (result : Except Bytes Unit) :
    Settlement v w.completions (w.finishWrite c result v).completions := by
  cases result with
  | ok => exact .same
  | error err =>
    simp only [World.finishWrite]
    split
    · exact .same
    · rename_i r hr
      rw [World.completions_close]
      exact settleUnlessReady h ((hw.conn c).known r hr) _

theorem finishWait (hw : Exclusive w) (h : Settling w.futures) (t : Wait) :
    Settlement v w.completions (w.finishWait c t v).completions := by
  simp only [World.finishWait]
  split
  · refine closeAndFail (w := w.cancelTimer c) h (fun r hr => (hw.conn c).known r ?_) _
    simpa [World.cancelTimer, World.modConn] using hr
  · exact .same

end Settlement

namespace World

variable {w : World} {c : ConnId}

theorem futures_settleOpened {n : Nat} (hq : Queues w.pool n)
    (ho : (w.pool.opened c).outcome = none) : (w.settleOpened c).futures = w.futures := by
  rcases w.settleOpened_cases c ho (hq.openedOne c) with ⟨-, he⟩ | ⟨t, -, he⟩ | ⟨-, he⟩
  · rw [he]
    rfl
  · rw [he, futures_hand]
    rfl
  · rw [he, futures_release]
    · rfl
    · exact fun q hq' => (hq.pending q hq').2

/-- Establishing a connection settles no attempt. -/
theorem futures_finishSetup {n : Nat} (hq : Queues w.pool n)
    (ho : (w.pool.opened c).outcome = none) (stage : Stage) (result : Except Bytes Unit) :
    (w.finishSetup c stage result).futures = w.futures := by
  have hready : (w.ready c).futures = w.futures :=
    futures_settleOpened (w := (w.extendTimer c).handleResponse c) hq ho
  cases result with
  | error err => exact w.futures_close c
  | ok =>
    cases stage with
    | resolve => rfl
    | connect =>
      simp only [finishSetup]
      split
      · rfl
      · exact hready
    | handshake => exact hready

end World

/-- The event with what the slots make of it. -/
def Event.answered (v : Verdict) : Event → Event
  | .runRead c i _ => .runRead c i v
  | .runWrite c i _ => .runWrite c i v
  | .runWait c i _ => .runWait c i v
  | e => e

/-- **One event settles one attempt at most.** -/
theorem step_settlement {w w' : World} (hw : Steady w) {e : Event} {v : Verdict}
    (hstep : w.step (e.answered v) = some w') : Settlement v w.completions w'.completions := by
  obtain ⟨-, hstep⟩ := World.step_eq_some hstep
  have hx := hw.exclusive
  have hq : ∀ q ∈ w.pool.next_, (w.pool.queued q).outcome = none :=
    fun q hq => (hx.queues.pending q hq).2
  -- the futures are as they were
  have same : ∀ u : World, u.futures = w.futures → Settlement v w.completions u.completions :=
    fun u hu => (Settlement.same (k := u.completions)).of_futures hu
  cases e with
  | request q stall =>
    cases hstep
    rw [World.request, World.completions_nextThen]
    exact .created
  | next =>
    cases hstep
    exact same _ (World.futures_nextThen _ _)
  | release c =>
    obtain ⟨-, rfl⟩ := World.release_inv hstep
    exact same _ (World.futures_release _ c hq)
  | close c =>
    obtain ⟨-, -, rfl⟩ := World.close_inv hstep
    exact same _ (World.futures_close _ c)
  | remove c =>
    obtain ⟨-, rfl⟩ := World.remove_inv hstep
    exact same _ rfl
  | maxConnections n =>
    cases hstep
    exact same _ rfl
  | limitConnections b =>
    cases hstep
    exact same _ rfl
  | setupDone c result =>
    obtain ⟨stage, -, -, -, rfl⟩ := World.setupDone_inv hstep
    exact same _ rfl
  | runSetup c =>
    obtain ⟨stage, result, hset, rfl⟩ := World.runSetup_inv hstep
    obtain ⟨hx', ho, -⟩ := hx.beforeSetup hset (hx.created_of_setup hset)
    exact same _ (World.futures_finishSetup hx'.queues ho stage result)
  | receive c i bytes =>
    obtain ⟨op, -, -, -, -, rfl⟩ := World.receive_inv hstep
    exact same _ rfl
  | readFails c i err =>
    obtain ⟨op, -, -, rfl⟩ := World.readFails_inv hstep
    exact same _ rfl
  | runRead c i _ =>
    obtain ⟨op, result, hop, -, rfl⟩ := World.runRead_inv hstep
    obtain ⟨hx', -, hpoint⟩ := hx.beforeRead hop
    exact Settlement.finishRead hx' hw.settling op hpoint result
  | writeDone c i result =>
    obtain ⟨op, -, -, -, rfl⟩ := World.writeDone_inv hstep
    exact same _ rfl
  | runWrite c i _ =>
    obtain ⟨op, result, hop, -, rfl⟩ := World.runWrite_inv hstep
    exact Settlement.finishWrite (hx.beforeWrite hop) hw.settling result
  | expire c i =>
    obtain ⟨t, -, -, rfl⟩ := World.expire_inv hstep
    exact same _ rfl
  | runWait c i _ =>
    obtain ⟨t, ht, -, rfl⟩ := World.runWait_inv hstep
    exact Settlement.finishWait (hx.beforeWait ht) hw.settling t

/-! ## The client is the machine of the retries -/

/-- Where a request is. -/
def Completions.status (k : Completions) (r : RespId) : Status :=
  match k.completion r with
  | some o => .completed o
  | none => .trying (retries r k.history).length

/-- Where every request is. -/
def Completions.statuses (k : Completions) : List Status := (List.range k.nresponses).map k.status

/-- A call of `on_completion` in the history, with the answers given to it. -/
def Deed.consult (called : List Answer) : Deed → Option Consult
  | .asked r _ n _ => some ⟨r, n, called⟩
  | _ => none

/-- An event with the answers the slots would give to it. -/
def World.consulting (w : World) (e : Event × List Answer) : Option World :=
  w.step (e.1.answered (chained e.2).2)

/-- What the slots were asked in a step. -/
def World.consulted (w : World) (e : Event × List Answer) (w' : World) (h : List Consult) :
    List Consult :=
  h ++ (w'.completions.history.drop w.completions.history.length).filterMap
    (Deed.consult (chained e.2).1)

/-- The client and the calls of `on_completion`, seen from outside. -/
def Retrying.seen (s : World × List Consult) : Retrying := ⟨s.1.completions.statuses, s.2⟩

/-- There are as many slots all the time. -/
def withSlots (slots : Nat) (_ : World × List Consult) (e : Event × List Answer) : Prop :=
  e.2.length = slots

instance (slots : Nat) (s : World × List Consult) (e : Event × List Answer) :
    Decidable (withSlots slots s e) := inferInstanceAs (Decidable (_ = _))

section simulation

variable {k k' : Completions} {r : RespId}

/-- Another status for one request. -/
theorem statuses_set {status : Status}
    (hcount : k'.nresponses = k.nresponses) (hself : k'.status r = status)
    (hother : ∀ s, s ≠ r → k'.status s = k.status s) : k'.statuses = k.statuses.set r status := by
  refine List.ext_getElem (by simp [Completions.statuses, hcount]) fun s hs _ => ?_
  rw [List.getElem_set]
  rcases eq_or_ne r s with rfl | hne
  · simp [Completions.statuses, hself]
  · simp [Completions.statuses, hne, hother s hne.symm]

theorem getElem?_statuses (hr : r < k.nresponses) (hopen : k.completion r = none) :
    k.statuses[r]? = some (.trying (retries r k.history).length) := by
  simp [Completions.statuses, Completions.status, List.getElem?_range hr, hopen]

/-- What was added to a history. -/
theorem drop_append (history new : List Deed) : (history ++ new).drop history.length = new :=
  List.drop_left

/-- **One event** is one step of the machine of the retries, or none. -/
theorem Retrying.simulates {answers : List Answer} (h : List Consult) (ho : Orderly k)
    (hs : Settlement (chained answers).2 k k') :
    (⟨k'.statuses, h ++ (k'.history.drop k.history.length).filterMap
      (Deed.consult (chained answers).1)⟩ : Retrying) = ⟨k.statuses, h⟩ ∨
    ∃ e, e.Hears answers ∧ Retrying.step ⟨k.statuses, h⟩ e = some ⟨k'.statuses,
      h ++ (k'.history.drop k.history.length).filterMap (Deed.consult (chained answers).1)⟩ := by
  cases hs with
  | same =>
    left
    simp
  | created =>
    refine .inr ⟨.submit, trivial, ?_⟩
    obtain ⟨-, hfresh⟩ := ho.freshResponse k.nresponses (Nat.le_refl _)
    have hstatuses : k.create.1.statuses = k.statuses ++ [.trying 0] := by
      have hnew : k.create.1.status k.nresponses = .trying 0 := by
        simp [Completions.status, Completions.create, hfresh]
      have hold : ∀ r ∈ List.range k.nresponses, k.create.1.status r = k.status r := by
        intro r hr
        have hne := Nat.ne_of_lt (List.mem_range.mp hr)
        simp [Completions.status, Completions.create, update_of_ne hne]
      show (List.range (k.nresponses + 1)).map k.create.1.status = _
      rw [List.range_succ, List.map_append, List.map_congr_left hold, List.map_singleton, hnew]
      rfl
    have hnone : k.create.1.history.drop k.history.length = [] := by simp [Completions.create]
    rw [hstatuses, hnone]
    simp [Retrying.step]
  | completed c r a o o' attempts known open_ answered =>
    refine .inr ⟨.settle r o answers, rfl, ?_⟩
    have hnext : Retrying.next (retries r k.history).length o (chained answers).2 =
        .completed o' := by
      rcases answered with ⟨hv, rfl⟩ | ⟨e, hv, rfl⟩ <;> rw [hv] <;> rfl
    rw [Retrying.step, getElem?_statuses known open_]
    simp only [hnext]
    rw [drop_append]
    refine congrArg some (congrArg₂ Retrying.mk ?_ rfl)
    refine Eq.symm (statuses_set (by rfl) ?_ fun s hs => ?_)
    · simp [Completions.status]
    · simp [Completions.status, update_of_ne hs, retries, List.filterMap_cons, Deed.retryOf, hs.symm]
  | retried c r a o attempts nattempts current known open_ answered =>
    refine .inr ⟨.settle r o answers, rfl, ?_⟩
    have hnext : Retrying.next (retries r k.history).length o (chained answers).2 =
        .trying ((retries r k.history).length + 1) := by
      rw [answered]
      rfl
    rw [Retrying.step, getElem?_statuses known open_]
    simp only [hnext]
    rw [drop_append]
    refine congrArg some (congrArg₂ Retrying.mk ?_ rfl)
    refine Eq.symm (statuses_set (by rfl) ?_ fun s hs => ?_)
    · simp [Completions.status, open_, retries, List.filterMap_cons, Deed.retryOf]
    · simp [Completions.status, retries, List.filterMap_cons, Deed.retryOf, hs.symm]

end simulation

section runs

variable {eraseEnd : List (Option FutId) → List (Option FutId)} {tls limit : Bool} {max : Nat}
  {slots : Nat} {s t : World × List Consult} {e : Event × List Answer}

/-- The invariant and what it is for, one event on. -/
theorem Retrying.simulates_step (hw : Steady s.1)
    (hstep : recorded World.consulting World.consulted s e = some t) : Steady t.1 ∧
    (Retrying.seen t = Retrying.seen s ∨
      ∃ e', e'.Hears e.2 ∧ (Retrying.seen s).step e' = some (Retrying.seen t)) := by
  obtain ⟨w, h⟩ := s
  obtain ⟨w', hw', rfl⟩ := Option.map_eq_some_iff.mp hstep
  exact ⟨hw.step hw', Retrying.simulates h hw.settling.1 (step_settlement hw hw')⟩

/-- **The client refines the machine of the retries**: every run of it, with any slots, is a
run of that machine. -/
theorem retrying_of_run (run : Run (recorded World.consulting World.consulted) anyEvent
    (World.init eraseEnd tls limit max, []) t) : Run Retrying.step anyEvent {} (Retrying.seen t) :=
  run.simulated (P := fun s => Steady s.1) Retrying.seen (Steady.init eraseEnd tls limit max)
    (fun hw _ hstep => (Retrying.simulates_step hw hstep).1)
    fun hw _ hstep => (Retrying.simulates_step hw hstep).2.imp_right fun ⟨e', _, he⟩ => ⟨e', he⟩

/-- A response is read, and the slots answer to it. -/
def readsResponse (answers : List Answer) : List (Event × List Answer) :=
  [.receive 0 0 shortResponse, .runRead 0 0 .accept, .runRead 0 0 .accept,
    .runRead 0 0 .accept].map fun e => (e, answers)

/-- A request that is tried twice: the second slot rejects the first attempt. -/
def rejectedOnce : List (Event × List Answer) :=
  (.request getRequest 30000 :: connects 0).map (fun e => (e, [.ok true, .ok true])) ++
    readsResponse [.ok true, .ok false] ++ readsResponse [.ok true, .ok true]

/-- It is answered on the connection it came by. -/
def Status.isDone : Status → Bool
  | .completed (.done _) => true
  | _ => false

theorem retrying_rejectedOnce :
    ∃ w h, exec (recorded World.consulting World.consulted) (World.init id false true 1, [])
        rejectedOnce = some (w, h) ∧
      w.completions.statuses.map Status.isDone = [true] ∧
      h.map (fun k => (k.retry, k.answers.length)) = [(0, 2), (1, 2)] ∧
      Run Retrying.step anyEvent {} (Retrying.seen (w, h)) := by
  have hvals : (exec (recorded World.consulting World.consulted) (World.init id false true 1, [])
      rejectedOnce).map (fun s => (s.1.completions.statuses.map Status.isDone,
        s.2.map fun k => (k.retry, k.answers.length))) = some ([true], [(0, 2), (1, 2)]) := by decide
  obtain ⟨⟨w, h⟩, hexec, hvals⟩ := Option.map_eq_some_iff.mp hvals
  exact ⟨w, h, hexec, (Prod.mk.inj hvals).1, (Prod.mk.inj hvals).2,
    retrying_of_run (.of_exec (fun _ _ => trivial) rejectedOnce hexec)⟩

/-- **The slots are asked in order**, in any run with any number of them. -/
theorem disciplined_of_run (run : Run (recorded World.consulting World.consulted) (withSlots slots)
    (World.init eraseEnd tls limit max, []) t) : Retrying.Disciplined slots (Retrying.seen t) := by
  have hinv : Steady t.1 ∧ Retrying.Disciplined slots (Retrying.seen t) := by
    refine run.invariant (P := fun s => Steady s.1 ∧ Retrying.Disciplined slots (Retrying.seen s))
      ⟨Steady.init eraseEnd tls limit max, ?_⟩ ?_
    · constructor
      · exact fun _ => rfl
      · exact fun _ _ hr => nomatch hr
      · exact fun _ _ hr => nomatch hr
      · exact fun _ _ => rfl
      · exact fun _ _ => Nat.zero_le _
    · rintro s t e ⟨hw, hd⟩ hslots hstep
      obtain ⟨hw', hsame | ⟨e', heard, habs⟩⟩ := Retrying.simulates_step hw hstep
      · exact ⟨hw', hsame ▸ hd⟩
      · exact ⟨hw', hd.step heard hslots habs⟩
  exact hinv.2

theorem disciplined_rejectedOnce :
    ∃ w h, exec (guarded (recorded World.consulting World.consulted) (withSlots 2))
        (World.init id false true 1, []) rejectedOnce = some (w, h) ∧
      h.map (fun k => (k.retry, k.answers.length)) = [(0, 2), (1, 2)] ∧
      Retrying.Disciplined 2 (Retrying.seen (w, h)) := by
  have hvals : (exec (guarded (recorded World.consulting World.consulted) (withSlots 2))
      (World.init id false true 1, []) rejectedOnce).map
        (fun s => s.2.map fun k => (k.retry, k.answers.length)) = some [(0, 2), (1, 2)] := by decide
  obtain ⟨⟨w, h⟩, hexec, hvals⟩ := Option.map_eq_some_iff.mp hvals
  exact ⟨w, h, hexec, hvals, disciplined_of_run (.of_guarded rejectedOnce hexec)⟩

end runs

end AsioProtocols
