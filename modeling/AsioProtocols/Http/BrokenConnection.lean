import AsioProtocols.Http.CompletesOnce

/-!
# A broken connection settles its request

When a connection breaks, the attempt it carries is settled by the handler that
sees it: a failed read through the `on_fail` hook of that read, a failed write, an
expired stall timer, headers that frame nothing. The two reads of a chunked body
that have no hook, of a chunk-size line and of the line behind the last chunk,
are the exception: they close the connection, which cancels the timer too, and
nobody settles the attempt (`brokenSettles_chunkSize`).

`brokenSettles_of_run` is what holds otherwise. The invariant is `Carried x`: an
attempt that a connection carries and that is still pending is the current one of
its `res_`, and on a closed connection it was written after the closing and the
stall timer runs for it. `x` exempts one attempt, the one that the handler at
work is about to settle.
-/

namespace AsioProtocols

open Function

namespace World

/-- Connection `c` owes an answer: the attempt it carries is not settled. -/
def owes (w : World) (c : ConnId) : Bool :=
  match (w.conns c).attempt with
  | some a => !(w.completions.attempts a).isReady
  | none => false

/-- The point of a failed read whose handler is queued. -/
def failedRead (w : World) (c : ConnId) (i : Nat) : Option Point :=
  match (w.conns c).reads[i]? with
  | some ⟨p, _, some (.error _)⟩ => some p
  | _ => none

/-- The event runs the handler that sees connection `c` break: a failed read, a
failed write, an expired timer. -/
def seesBreak (w : World) (c : ConnId) : Event → Prop
  | .runRead d i _ => d = c ∧ (w.failedRead c i).isSome
  | .runWrite d i _ => d = c ∧ ∃ data err, (w.conns c).writes[i]? = some ⟨data, some (.error err)⟩
  | .runWait d i _ => d = c ∧ ∃ target, (w.conns c).waits[i]? = some ⟨target, .expired⟩
  | _ => False

end World

/-- Every failure has its hook: no read fails at a point without one while its
connection owes an answer; and callers do not close a connection that does. -/
def hooked (w : World) : Event → Prop
  | .runRead c i _ => ∀ p ∈ w.failedRead c i, p.hooked = true ∨ w.owes c = false
  | .close c => w.owes c = false
  | _ => True

/-- **Broken connections settle.** Where a closed connection owes an answer, the
request was written to it after the closing and its stall timer runs; and behind
the handler that sees a connection break, it owes nothing. -/
structure BrokenSettles (w : World) : Prop where
  closed : ∀ c, (w.conns c).closed = true → w.owes c = true →
    (w.conns c).closedThen = true ∧ ∃ t ∈ (w.conns c).waits, t.status ≠ .cancelled
  seen : ∀ c e w', w.seesBreak c e → hooked w e → w.step e = some w' → w'.owes c = false

/-! ## The invariant -/

/-- What holds of the record of a connection, apart from attempt `x`. -/
structure CarriedBy (k : Completions) (x : Option AttemptId) (conn : Conn) : Prop where
  made : ∀ a, conn.attempt = some a → a < k.nattempts
  current : ∀ a, conn.attempt = some a → (k.attempts a).outcome = none → some a ≠ x →
    ∃ r, conn.res = some r ∧ k.current r = a
  watched : ∀ a, conn.attempt = some a → (k.attempts a).outcome = none → some a ≠ x →
    conn.closed = true → conn.closedThen = true ∧ ∃ t ∈ conn.waits, t.status ≠ .cancelled

/-- **The invariant**, with attempt `x` exempted. -/
def Carried (x : Option AttemptId) (w : World) : Prop :=
  ∀ c, CarriedBy w.completions x (w.conns c)

/-- The attempt that failing the response of `c` settles. -/
def World.carriedAttempt (w : World) (c : ConnId) : Option AttemptId :=
  (w.conns c).res.map w.completions.current

theorem World.owes_iff (w : World) (c : ConnId) : w.owes c = true ↔
    ∃ a, (w.conns c).attempt = some a ∧ (w.completions.attempts a).outcome = none := by
  rw [World.owes]
  rcases (w.conns c).attempt with _ | a
  · simp
  · simp [Future.not_isReady_iff]

/-- Closing changes nothing about who owes what. -/
theorem World.owes_close (w : World) (c d : ConnId) : (w.close c).owes d = w.owes d := by
  have hk := w.completions_close c
  rw [World.owes, World.owes, World.attempt_close, hk]

namespace CarriedBy

variable {k : Completions} {x : Option AttemptId} {conn : Conn}

theorem weaken (h : CarriedBy k none conn) (x : Option AttemptId) : CarriedBy k x conn :=
  ⟨h.made, fun a ha hp _ => h.current a ha hp (by simp),
    fun a ha hp _ => h.watched a ha hp (by simp)⟩

/-- Whose pending attempts are all exempted. -/
theorem of_exempt (hmade : ∀ a, conn.attempt = some a → a < k.nattempts)
    (hx : ∀ a, conn.attempt = some a → (k.attempts a).outcome = none → some a = x) :
    CarriedBy k x conn :=
  ⟨hmade, fun a ha hp hne => absurd (hx a ha hp) hne, fun a ha hp hne => absurd (hx a ha hp) hne⟩

/-- A record with the same attempt and response, and at least as good a timer. -/
theorem congr (h : CarriedBy k x conn) {conn' : Conn} (hattempt : conn'.attempt = conn.attempt)
    (hres : conn'.res = conn.res) (hclosed : conn'.closed = conn.closed)
    (hthen : conn'.closedThen = conn.closedThen)
    (hwaits : (∃ t ∈ conn.waits, t.status ≠ .cancelled) →
      ∃ t ∈ conn'.waits, t.status ≠ .cancelled) : CarriedBy k x conn' := by
  refine ⟨hattempt ▸ h.made, ?_, ?_⟩
  · rw [hattempt, hres]
    exact h.current
  · rw [hattempt, hclosed, hthen]
    intro a ha hp hne hc
    obtain ⟨ht, hw⟩ := h.watched a ha hp hne hc
    exact ⟨ht, hwaits hw⟩

/-- `write_request` starts a timer. -/
theorem carrying {r : RespId} (hr : k.current r < k.nattempts) (stall : Nat) (data : Bytes) :
    CarriedBy k x (conn.carrying r (k.current r) stall data) where
  made a ha := by
    cases ha
    exact hr
  current a ha _ _ := by
    cases ha
    exact ⟨r, rfl, rfl⟩
  watched a _ _ _ hc :=
    ⟨hc, { target := stall }, List.mem_append_right _ (List.mem_singleton_self _), by simp⟩

end CarriedBy

namespace Carried

variable {w : World} {c : ConnId} {x : Option AttemptId}

theorem weaken (h : Carried none w) (x : Option AttemptId) : Carried x w :=
  fun c => (h c).weaken x

theorem update (h : Carried x w) {k : Conn} (hk : CarriedBy w.completions x k) :
    Carried x { w with conns := Function.update w.conns c k } := by
  intro d
  show CarriedBy _ x (Function.update w.conns c k d)
  rcases eq_or_ne d c with rfl | hne
  · rw [update_self]
    exact hk
  · rw [update_of_ne hne]
    exact h d

/-- The pending attempt of a connection is that of its response. -/
theorem carriedAttempt (h : Carried none w) (a : AttemptId) (ha : (w.conns c).attempt = some a)
    (hp : (w.completions.attempts a).outcome = none) : some a = w.carriedAttempt c := by
  obtain ⟨r, hr, hcur⟩ := (h c).current a ha hp (by simp)
  simp [World.carriedAttempt, hr, hcur]

theorem extendTimer (h : Carried x w) : Carried x (w.extendTimer c) := by
  refine h.update ((h c).congr rfl rfl rfl rfl fun _ => ?_)
  exact ⟨{ target := w.stallTarget c }, List.mem_append_right _ (List.mem_singleton_self _),
    by simp⟩

/-! ## Handing out -/

/-- The pool does not matter. -/
theorem setPool (h : Carried x w) (p : Pool) : Carried x { w with pool := p } := h

theorem hand (h : Carried x w) (d : ConnId) {tasks : List ClientTask} (hone : tasks.length ≤ 1)
    (hmade : ∀ r, .writeRequest r ∈ tasks → w.completions.current r < w.completions.nattempts) :
    Carried x (w.hand d tasks) := by
  refine World.hand_cases w d hone h h ?_
  intro r ht
  rw [World.hand_writeRequest]
  exact h.update (CarriedBy.carrying (hmade r (by simp [ht])) _ _)

theorem release (h : Carried x w) (hq : Queues w.pool w.completions.nresponses)
    (ho : Orderly w.completions) (d : ConnId) : Carried x (w.release d) := by
  rcases hn : w.pool.next_ with _ | ⟨q, rest⟩
  · rw [World.release_of_nil w d hn]
    exact h
  · rw [World.release_of_cons w d hn (hq.pending q (by simp [hn])).2]
    exact (h.setPool _).hand d (hq.queuedOne q) fun r hr =>
      ho.currentMade r (hq.queuedKnown q r hr)

theorem nextThen (h : Carried x w) {t : ClientTask}
    (ht : ∀ r, t = .writeRequest r → w.completions.current r < w.completions.nattempts) :
    Carried x (w.nextThen t) := by
  rcases World.nextThen_cases w t with ⟨d, rest, -, -, hn⟩ | ⟨-, -, hn⟩ | ⟨-, -, hn⟩ <;> rw [hn]
  · refine (h.setPool _).hand d (by simp) ?_
    intro r hr
    exact ht r (List.mem_singleton.mp hr).symm
  · exact h
  · exact h

theorem settleOpened (h : Carried x w) (hq : Queues w.pool w.completions.nresponses)
    (ho : Orderly w.completions) {d : ConnId} (hp : (w.pool.opened d).outcome = none) :
    Carried x (w.settleOpened d) := by
  rcases w.settleOpened_cases d hp (hq.openedOne d) with ⟨-, he⟩ | ⟨t, ht, he⟩ | ⟨-, he⟩ <;> rw [he]
  · exact h
  · refine (h.setPool _).hand d (by simp) ?_
    intro r hr
    obtain rfl := List.mem_singleton.mp hr
    exact ho.currentMade r (hq.openedKnown d r (by simp [ht]))
  · refine release ?_ ?_ ?_ d
    · exact h
    · exact hq.setOpened d { outcome := some (.done d), tasks := [] } (by simp) (by simp)
        rfl rfl rfl rfl
    · exact ho

/-! ## Closing and settling -/

/-- Closing a connection whose pending attempt is exempted. -/
theorem close (h : Carried x w) (hx : ∀ a, (w.conns c).attempt = some a →
    (w.completions.attempts a).outcome = none → some a = x) : Carried x (w.close c) := by
  rcases hcl : (w.conns c).closed with _ | _
  · obtain ⟨valid, he⟩ := w.close_of_open c hcl
    rw [he]
    exact h.update (CarriedBy.of_exempt (h c).made hx)
  · rw [w.close_of_closed c hcl]
    exact h.update ((h c).congr rfl rfl rfl rfl fun hw => hw)

/-- **Settling the exempted attempt.** -/
theorem settleUnlessReady {r : RespId} (h : Carried (some (w.completions.current r)) w)
    (hs : Settling w.futures) (hr : r < w.completions.nresponses) (d : ConnId)
    (o : Outcome Nat) (v : Verdict) : Carried none (w.settleUnlessReady d r o v) := by
  have ho : Orderly w.completions := hs.1
  rcases hs.settleUnlessReady_cases (c := d) hr o v with
    ⟨hready, he⟩ | ⟨-, -, n, ⟨-, o', -, he⟩ | ⟨-, he⟩⟩ <;> rw [he]
  · intro c
    have hne : ∀ a, (w.completions.attempts a).outcome = none →
        some a ≠ some (w.completions.current r) := by
      rintro a hp heq
      rw [Option.some.inj heq] at hp
      exact hready hp
    exact ⟨(h c).made, fun a ha hp _ => (h c).current a ha hp (hne a hp),
      fun a ha hp _ => (h c).watched a ha hp (hne a hp)⟩
  · intro c
    -- pending afterwards: pending before, and not the attempt just settled
    have old : ∀ a, (Function.update w.completions.attempts (w.completions.current r)
        { outcome := some o, tasks := [] } a).outcome = none →
        (w.completions.attempts a).outcome = none ∧ some a ≠ some (w.completions.current r) := by
      intro a hp
      rcases eq_or_ne a (w.completions.current r) with rfl | hne
      · simp at hp
      · rw [update_of_ne hne] at hp
        exact ⟨hp, fun heq => hne (Option.some.inj heq)⟩
    exact ⟨(h c).made, fun a ha hp _ => (h c).current a ha (old a hp).1 (old a hp).2,
      fun a ha hp _ => (h c).watched a ha (old a hp).1 (old a hp).2⟩
  · have hretry : Carried none { w with
        completions := { w.completions with
          attempts := Function.update (Function.update w.completions.attempts
            (w.completions.current r) { outcome := some o, tasks := [] }) w.completions.nattempts
            { tasks := [(r, n + 1)] }
          nattempts := w.completions.nattempts + 1
          current := Function.update w.completions.current r w.completions.nattempts
          history := w.completions.history ++ [.settled d r (w.completions.current r)] ++
            [.asked r (w.completions.current r) n v] }
        responses := Function.update w.responses r (w.responses r).reset
        sources := Function.update w.sources r [] } := by
      intro c
      have old : ∀ a, (w.conns c).attempt = some a → (Function.update (Function.update
          w.completions.attempts (w.completions.current r) { outcome := some o, tasks := [] })
          w.completions.nattempts { tasks := [(r, n + 1)] } a).outcome = none →
          (w.completions.attempts a).outcome = none ∧
            some a ≠ some (w.completions.current r) := by
        intro a ha hp
        rw [update_of_ne (Nat.ne_of_lt ((h c).made a ha))] at hp
        rcases eq_or_ne a (w.completions.current r) with rfl | hne
        · simp at hp
        · rw [update_of_ne hne] at hp
          exact ⟨hp, fun heq => hne (Option.some.inj heq)⟩
      refine ⟨fun a ha => Nat.lt_succ_of_lt ((h c).made a ha), ?_, ?_⟩
      · intro a ha hp _
        obtain ⟨s, hs', hcur⟩ := (h c).current a ha (old a ha hp).1 (old a ha hp).2
        refine ⟨s, hs', ?_⟩
        -- the response of a pending attempt is not the one being retried
        have hne : s ≠ r := by
          rintro rfl
          exact (old a ha hp).2 (by rw [hcur])
        show Function.update w.completions.current r w.completions.nattempts s = a
        rw [update_of_ne hne, hcur]
      · intro a ha hp _
        exact (h c).watched a ha (old a ha hp).1 (old a ha hp).2
    refine hretry.nextThen ?_
    intro s hs'
    cases hs'
    show Function.update w.completions.current r w.completions.nattempts r <
      w.completions.nattempts + 1
    rw [update_self]
    exact Nat.lt_succ_self _

/-- Behind settling, a connection whose pending attempt it was owes nothing. -/
theorem owes_settleUnlessReady {r : RespId} (h : Carried x w) (hs : Settling w.futures)
    (hr : r < w.completions.nresponses) (hav : c ∉ w.pool.available)
    (hc : ∀ a, (w.conns c).attempt = some a → (w.completions.attempts a).outcome = none →
      a = w.completions.current r) (d : ConnId) (o : Outcome Nat) (v : Verdict) :
    (w.settleUnlessReady d r o v).owes c = false := by
  rw [← Bool.not_eq_true, World.owes_iff]
  rintro ⟨a, ha, hp⟩
  rw [hs.conns_settleUnlessReady hr hav] at ha
  refine hs.ready_settleUnlessReady hr ((h c).made a ha) ?_ d o v hp
  by_cases hpend : (w.completions.attempts a).outcome = none
  · exact .inr (hc a ha hpend)
  · exact .inl hpend

/-- Failing the response of `c`, whose attempt is exempted. -/
theorem failResponse (h : Carried (w.carriedAttempt c) w) (hs : Settling w.futures)
    (hknown : ∀ r, (w.conns c).res = some r → r < w.completions.nresponses) (err : Bytes)
    (v : Verdict) : Carried none (w.failResponse c err v) := by
  rw [World.failResponse]
  split
  · rename_i r hr
    rw [World.carriedAttempt, hr] at h
    exact h.settleUnlessReady hs (hknown r hr) c _ v
  · rename_i hr
    rw [World.carriedAttempt, hr] at h
    exact h

theorem owes_failResponse (h : Carried x w) (hs : Settling w.futures)
    (hknown : ∀ r, (w.conns c).res = some r → r < w.completions.nresponses)
    (hav : ∀ r, (w.conns c).res = some r → c ∉ w.pool.available)
    (hc : ∀ a, (w.conns c).attempt = some a → (w.completions.attempts a).outcome = none →
      some a = w.carriedAttempt c) (err : Bytes) (v : Verdict) :
    (w.failResponse c err v).owes c = false := by
  rw [World.failResponse]
  split
  · rename_i r hr
    refine h.owes_settleUnlessReady hs (hknown r hr) (hav r hr) ?_ c _ v
    intro a ha hp
    have := hc a ha hp
    rw [World.carriedAttempt, hr] at this
    exact Option.some.inj this
  · rename_i hr
    rw [← Bool.not_eq_true, World.owes_iff]
    rintro ⟨a, ha, hp⟩
    have := hc a ha hp
    rw [World.carriedAttempt, hr] at this
    cases this

/-- **Closing and then failing the response**: the invariant may be broken for
this connection before, if what it owes is the attempt of its response. -/
theorem closeAndFail (h : Carried (w.carriedAttempt c) w) (hs : Settling w.futures)
    (hknown : ∀ r, (w.conns c).res = some r → r < w.completions.nresponses)
    (hav : ∀ r, (w.conns c).res = some r → c ∉ w.pool.available)
    (hc : ∀ a, (w.conns c).attempt = some a → (w.completions.attempts a).outcome = none →
      some a = w.carriedAttempt c) (err : Bytes) (v : Verdict) :
    Carried none ((w.close c).failResponse c err v) ∧
      ((w.close c).failResponse c err v).owes c = false := by
  have hk := w.completions_close c
  have hs' : Settling (w.close c).futures := by
    rw [World.futures_close]
    exact hs
  have hcar : (w.close c).carriedAttempt c = w.carriedAttempt c := by
    simp only [World.carriedAttempt, World.res_close, hk]
  have hclosed : Carried ((w.close c).carriedAttempt c) (w.close c) := by
    rw [hcar]
    exact h.close hc
  have hknown' : ∀ r, ((w.close c).conns c).res = some r →
      r < (w.close c).completions.nresponses := by
    intro r hr
    rw [World.res_close] at hr
    rw [hk]
    exact hknown r hr
  refine ⟨hclosed.failResponse hs' hknown' err v,
    hclosed.owes_failResponse hs' hknown' ?_ ?_ err v⟩
  · intro r hr hm
    rw [World.res_close] at hr
    exact hav r hr ((w.available_close c).mem hm)
  · intro a ha hp
    rw [World.attempt_close] at ha
    rw [hk] at hp
    rw [hcar]
    exact hc a ha hp

/-! ## Reading -/

/-- What the handlers of a response need to know of a world in which `c` carries
`r`. -/
structure Carrying (c : ConnId) (r : RespId) (w : World) : Prop where
  carried : Carried none w
  settling : Settling w.futures
  queues : Queues w.pool w.completions.nresponses
  res : (w.conns c).res = some r
  known : r < w.completions.nresponses
  notAvailable : c ∉ w.pool.available

namespace Carrying

variable {r : RespId}

theorem attempt_eq (h : Carrying c r w) {a : AttemptId} (ha : (w.conns c).attempt = some a)
    (hp : (w.completions.attempts a).outcome = none) : a = w.completions.current r := by
  have := h.carried.carriedAttempt a ha hp
  rw [World.carriedAttempt, h.res] at this
  exact Option.some.inj this

/-- Work on the fields that nobody else looks at. -/
theorem inner (h : Carrying c r w) {k : Conn} (hattempt : k.attempt = (w.conns c).attempt)
    (hres : k.res = (w.conns c).res) (hclosed : k.closed = (w.conns c).closed)
    (hthen : k.closedThen = (w.conns c).closedThen)
    (hwaits : (∃ t ∈ (w.conns c).waits, t.status ≠ .cancelled) →
      ∃ t ∈ k.waits, t.status ≠ .cancelled) :
    Carrying c r { w with conns := Function.update w.conns c k } :=
  ⟨h.carried.update ((h.carried c).congr hattempt hres hclosed hthen hwaits), h.settling, h.queues,
    by simp [hres, h.res], h.known, h.notAvailable⟩

theorem extendTimer (h : Carrying c r w) : Carrying c r (w.extendTimer c) :=
  ⟨h.carried.extendTimer, h.settling, h.queues, by simp [h.res], h.known, h.notAvailable⟩

/-- `res_` is cleared, so the attempt is exempted until it is settled. -/
theorem clear (h : Carrying c r w) : Carried (some (w.completions.current r))
    ((w.modConn c fun k => { k with res := none }).note (.finished c r)) := by
  refine (h.carried.weaken _).update (CarriedBy.of_exempt (h.carried c).made ?_)
  intro a ha hp
  rw [h.attempt_eq ha hp]

/-- **The end of a response.** -/
theorem extractNextBodyChunk (h : Carrying c r w) (data : Bytes) (v : Verdict) :
    Carried none (w.extractNextBodyChunk c data v) := by
  refine World.extractNextBodyChunk_cases (P := Carried none) data h.res ?_ ?_
  · intro u s hu
    have hu' : Carrying c r u := by
      rcases hu with rfl | ⟨m, rfl⟩ <;> exact ⟨h.carried, h.settling, h.queues, h.res, h.known,
        h.notAvailable⟩
    have hsettled := hu'.clear.settleUnlessReady hu'.settling hu'.known c (.done s) v
    refine hsettled.close ?_
    intro a ha hp
    have howes := hu'.clear.owes_settleUnlessReady (c := c) hu'.settling hu'.known
      hu'.notAvailable ?_ c (.done s) v
    · rw [← Bool.not_eq_true, World.owes_iff] at howes
      exact absurd ⟨a, ha, hp⟩ howes
    · intro b hb hp'
      refine hu'.attempt_eq ?_ hp'
      simpa [World.note, World.modConn] using hb
  · intro u s hu
    have hu' : Carrying c r u := by
      rcases hu with rfl | ⟨m, rfl⟩ <;> exact ⟨h.carried, h.settling, h.queues, h.res, h.known,
        h.notAvailable⟩
    have hread : Carried (some (u.completions.current r))
        (((u.modConn c fun k => { k with res := none }).note (.finished c r)).handleResponse c) :=
      hu'.clear.update ((hu'.clear c).congr rfl rfl rfl rfl fun hw => hw)
    have hf : ((((u.modConn c fun k => { k with res := none }).note (.finished c r)).handleResponse
        c).release c).futures = u.futures := by
      rw [World.futures_release]
      · rfl
      · exact fun q hq => (hu'.queues.pending q hq).2
    have hk : ((((u.modConn c fun k => { k with res := none }).note (.finished c r)).handleResponse
        c).release c).completions = u.completions := congrArg Prod.fst hf
    have hrel := hread.release hu'.queues hu'.settling.1 c
    refine settleUnlessReady ?_ ?_ ?_ c (.done s) v
    · rw [hk]
      exact hrel
    · rw [hf]
      exact hu'.settling
    · rw [hk]
      exact hu'.known

/-- **What a read handler does** on a connection that carries a response. -/
theorem readOutcome {w' : World} {v : Verdict} {gaveUp : Prop}
    (out : ReadOutcome c r v gaveUp w w') (h : Carrying c r w) : Carried none w' := by
  induction out with
  | timer _ ih => exact ih h.extendTimer
  | parser _ _ _ _ ih => exact ih (h.inner rfl rfl rfl rfl fun hw => hw)
  | store _ _ ih => exact ih ⟨h.carried, h.settling, h.queues, h.res, h.known, h.notAvailable⟩
  | idle => exact h.carried
  | waits w op _ _ => exact h.carried.update ((h.carried c).congr rfl rfl rfl rfl fun hw => hw)
  | escaped => exact h.carried
  | givenUp w err _ =>
    have hr : ∀ s, (w.conns c).res = some s → s = r := by
      intro s hs
      rw [h.res] at hs
      exact (Option.some.inj hs).symm
    exact ((h.carried.weaken _).closeAndFail h.settling (fun s hs => hr s hs ▸ h.known)
      (fun _ _ => h.notAvailable) h.carried.carriedAttempt err v).1
  | finished w data => exact h.extractNextBodyChunk data v

end Carrying

/-- Closing and failing, from a state in which the invariant holds. -/
theorem closeAndFail_of_steady (h : Carried none w) (hw : Exclusive w) (hs : Settling w.futures)
    (err : Bytes) (v : Verdict) : Carried none ((w.close c).failResponse c err v) ∧
      ((w.close c).failResponse c err v).owes c = false :=
  (h.weaken _).closeAndFail hs (hw.conn c).known (fun _ hr => (hw.not_idle_of_res hr).1)
    h.carriedAttempt err v

/-- A connection that owes nothing may be closed. -/
theorem close_of_owes (h : Carried none w) (ho : w.owes c = false) : Carried none (w.close c) := by
  refine h.close fun a ha hp => ?_
  rw [← Bool.not_eq_true, World.owes_iff] at ho
  exact absurd ⟨a, ha, hp⟩ ho

/-- A connection without a response owes nothing. -/
theorem owes_of_res (h : Carried none w) (hr : (w.conns c).res = none) : w.owes c = false := by
  rw [← Bool.not_eq_true, World.owes_iff]
  rintro ⟨a, ha, hp⟩
  obtain ⟨r, hr', -⟩ := (h c).current a ha hp (by simp)
  rw [hr] at hr'
  cases hr'

/-- **The handler of a completed read** whose failure is hooked. -/
theorem finishRead (h : Carried none w) (hw : Exclusive w) (hs : Settling w.futures) (op : ReadOp)
    (hpoint : op.point ≠ .status → (w.conns c).res ≠ none) (result : Except Bytes Nat)
    (hhook : ∀ err, result = .error err → op.point.hooked = true ∨ w.owes c = false)
    (v : Verdict) : Carried none (w.finishRead c op result v) := by
  cases result with
  | error err =>
    simp only [World.finishRead]
    split
    · exact (h.closeAndFail_of_steady hw hs _ v).1
    · rename_i hnot
      exact h.close_of_owes ((hhook err rfl).resolve_left hnot)
  | ok pos =>
    by_cases hp : op.point = .status
    · obtain ⟨input, hcases⟩ := World.finishRead_status (w := w) (c := c) (v := v) op pos hp
      have hu : Carried none (w.modConn c fun k => { k with input := input }) :=
        h.update ((h c).congr rfl rfl rfl rfl fun hw => hw)
      rcases hcases with he | ⟨hr, he⟩ | ⟨r, parsed, -, ⟨e, -, he⟩ | ⟨-, he⟩⟩ <;> rw [he]
      · exact hu
      · exact hu.close_of_owes (hu.owes_of_res (by simp [World.modConn, hr]))
      · exact hu.extendTimer
      · have ht := hu.extendTimer (c := c)
        exact ht.update ((ht c).congr rfl rfl rfl rfl fun hw => hw)
    · obtain ⟨r, hr⟩ := Option.ne_none_iff_exists'.mp (hpoint hp)
      exact Carrying.readOutcome (World.finishRead_outcome op pos hp hr)
        ⟨h, hs, hw.queues, hr, (hw.conn c).known r hr, (hw.not_idle_of_res hr).1⟩

/-! ## The other handlers -/

/-- **The handler of a failed write** settles the attempt and then closes. -/
theorem finishWrite_error (h : Carried none w) (hw : Exclusive w) (hs : Settling w.futures)
    (err : Bytes) (v : Verdict) : Carried none (w.finishWrite c (.error err) v) ∧
      (w.finishWrite c (.error err) v).owes c = false := by
  simp only [World.finishWrite]
  split
  · rename_i hr
    exact ⟨h, h.owes_of_res hr⟩
  · rename_i r hr
    have hknown := (hw.conn c).known r hr
    have howes : (w.settleUnlessReady c r (.failed err) v).owes c = false := by
      refine h.owes_settleUnlessReady hs hknown (hw.not_idle_of_res hr).1 ?_ c _ v
      intro a ha hp
      have := h.carriedAttempt a ha hp
      rw [World.carriedAttempt, hr] at this
      exact Option.some.inj this
    refine ⟨((h.weaken _).settleUnlessReady hs hknown c _ v).close_of_owes howes, ?_⟩
    rw [World.owes_close]
    exact howes

/-- **The handler of an expired timer** runs without the wait, which is what the
invariant asked of a closed connection. -/
theorem finishWait_expired (h : Carried none w) (hw : Exclusive w) (hs : Settling w.futures)
    (waits : List Wait) (target : Nat) (v : Verdict) :
    Carried none ((w.modConn c fun k => { k with waits := waits }).finishWait c
        ⟨target, .expired⟩ v) ∧
      ((w.modConn c fun k => { k with waits := waits }).finishWait c
        ⟨target, .expired⟩ v).owes c = false := by
  have hcancelled : Carried (w.carriedAttempt c)
      ((w.modConn c fun k => { k with waits := waits }).cancelTimer c) := by
    rw [World.cancelTimer, World.modConn_modConn]
    exact (h.weaken _).update (CarriedBy.of_exempt (h c).made h.carriedAttempt)
  have hconn : ((w.modConn c fun k => { k with waits := waits }).cancelTimer c).conns c =
      { w.conns c with waits := waits.map Wait.cancel } := by
    simp [World.cancelTimer, World.modConn]
  refine closeAndFail (w := (w.modConn c fun k => { k with waits := waits }).cancelTimer c) ?_ hs
    ?_ ?_ ?_ (World.timeoutText target) v
  · rw [World.carriedAttempt, hconn]
    exact hcancelled
  · rw [hconn]
    exact (hw.conn c).known
  · rw [hconn]
    exact fun _ hr => (hw.not_idle_of_res hr).1
  · rw [World.carriedAttempt, hconn]
    exact h.carriedAttempt

/-- A cancelled wait is not the one the invariant asks for. -/
theorem eraseCancelled (h : Carried none w) {i : Nat} {t : Wait}
    (ht : (w.conns c).waits[i]? = some t) (hcancelled : t.status = .cancelled) :
    Carried none (w.modConn c fun k => { k with waits := k.waits.eraseIdx i }) := by
  refine h.update ((h c).congr rfl rfl rfl rfl ?_)
  rintro ⟨t', ht', hstatus⟩
  refine ⟨t', ?_, hstatus⟩
  obtain ⟨j, hj⟩ := List.mem_iff_getElem?.mp ht'
  refine List.mem_eraseIdx_iff_getElem?.mpr ⟨j, ?_, hj⟩
  rintro rfl
  rw [ht] at hj
  exact hstatus (Option.some.inj hj ▸ hcancelled)

theorem ready (h : Carried none w) (hw : Exclusive w) (hs : Settling w.futures)
    (ho : (w.pool.opened c).outcome = none) : Carried none (w.ready c) := by
  have ht := h.extendTimer (c := c)
  have hr : Carried none ((w.extendTimer c).handleResponse c) :=
    ht.update ((ht c).congr rfl rfl rfl rfl fun hw => hw)
  exact hr.settleOpened hw.queues hs.1 ho

theorem finishSetup (h : Carried none w) (hw : Exclusive w) (hs : Settling w.futures)
    (ho : (w.pool.opened c).outcome = none) (stage : Stage) (result : Except Bytes Unit) :
    Carried none (w.finishSetup c stage result) := by
  cases result with
  | error err => exact h.close_of_owes (h.owes_of_res ((hw.conn c).opening ho).1)
  | ok =>
    cases stage with
    | resolve => exact h.update ((h c).congr rfl rfl rfl rfl fun hw => hw)
    | connect =>
      simp only [World.finishSetup]
      split
      · have ht := h.extendTimer (c := c)
        exact ht.update ((ht c).congr rfl rfl rfl rfl fun hw => hw)
      · exact h.ready hw hs ho
    | handshake => exact h.ready hw hs ho

theorem request (h : Carried none w) (hw : Exclusive w) (q : Request) (stall : Nat) :
    Carried none (w.request q stall) := by
  have hnew : Carried none { w with
      completions := w.completions.create.1
      responses := Function.update w.responses w.completions.create.2
        { request := q, stallTimeout := stall }
      sources := Function.update w.sources w.completions.create.2 []
      statusFrom := Function.update w.statusFrom w.completions.create.2 none } := by
    intro c
    have old : ∀ a, (w.conns c).attempt = some a →
        w.completions.create.1.attempts a = w.completions.attempts a :=
      fun a ha => update_of_ne (Nat.ne_of_lt ((h c).made a ha)) _ _
    refine ⟨fun a ha => Nat.lt_succ_of_lt ((h c).made a ha), ?_, ?_⟩
    · intro a ha hp _
      rw [old a ha] at hp
      obtain ⟨r, hr, hcur⟩ := (h c).current a ha hp (by simp)
      refine ⟨r, hr, ?_⟩
      show Function.update w.completions.current w.completions.nresponses _ r = a
      rw [update_of_ne (Nat.ne_of_lt ((hw.conn c).known r hr)), hcur]
    · intro a ha hp _
      rw [old a ha] at hp
      exact (h c).watched a ha hp (by simp)
  refine hnew.nextThen ?_
  intro r hr
  cases hr
  show Function.update w.completions.current w.completions.nresponses w.completions.nattempts
    w.completions.nresponses < w.completions.nattempts + 1
  rw [update_self]
  exact Nat.lt_succ_self _

/-! ## The events -/

/-- **Every hooked event keeps the invariant.** -/
theorem step (h : Carried none w) (hw : Steady w) {e : Event} {w' : World} (hok : hooked w e)
    (hstep : w.step e = some w') : Carried none w' := by
  obtain ⟨-, hstep⟩ := World.step_eq_some hstep
  have hs := hw.settling
  have hx := hw.exclusive
  cases e with
  | request q stall =>
    cases hstep
    exact h.request hx q stall
  | next =>
    cases hstep
    exact h.nextThen (by simp)
  | release c =>
    obtain ⟨-, rfl⟩ := World.release_inv hstep
    exact release (w := { w with held := w.held.erase c }) h hx.queues hs.1 c
  | close c =>
    obtain ⟨-, -, rfl⟩ := World.close_inv hstep
    exact h.close_of_owes hok
  | remove c =>
    obtain ⟨-, rfl⟩ := World.remove_inv hstep
    exact h
  | maxConnections n =>
    cases hstep
    exact h
  | limitConnections b =>
    cases hstep
    exact h
  | setupDone c result =>
    obtain ⟨stage, -, -, -, rfl⟩ := World.setupDone_inv hstep
    exact h.update ((h c).congr rfl rfl rfl rfl fun hw => hw)
  | runSetup c =>
    obtain ⟨stage, result, hset, rfl⟩ := World.runSetup_inv hstep
    obtain ⟨hx₁, ho, -⟩ := hx.beforeSetup hset (hx.created_of_setup hset)
    have h₁ : Carried none (w.modConn c fun k => { k with setup := none }) :=
      h.update ((h c).congr rfl rfl rfl rfl fun hw => hw)
    exact h₁.finishSetup hx₁ hs ho stage result
  | receive c i bytes =>
    obtain ⟨op, -, -, -, -, rfl⟩ := World.receive_inv hstep
    exact h.update ((h c).congr rfl rfl rfl rfl fun hw => hw)
  | readFails c i err =>
    obtain ⟨op, -, -, rfl⟩ := World.readFails_inv hstep
    exact h.update ((h c).congr rfl rfl rfl rfl fun hw => hw)
  | runRead c i v =>
    obtain ⟨op, result, hop, hres, rfl⟩ := World.runRead_inv hstep
    obtain ⟨hx₁, -, hpoint⟩ := hx.beforeRead hop
    have h₁ : Carried none (w.modConn c fun k => { k with reads := k.reads.eraseIdx i }) :=
      h.update ((h c).congr rfl rfl rfl rfl fun hw => hw)
    refine h₁.finishRead hx₁ hs op hpoint result ?_ v
    -- where the read failed, its callback has a hook or the connection owes nothing
    rintro err rfl
    obtain ⟨p, wanted, result'⟩ := op
    cases hres
    simpa [hooked, World.failedRead, hop, World.owes, World.modConn] using hok
  | writeDone c i result =>
    obtain ⟨op, -, -, -, rfl⟩ := World.writeDone_inv hstep
    exact h.update ((h c).congr rfl rfl rfl rfl fun hw => hw)
  | runWrite c i v =>
    obtain ⟨op, result, hop, -, rfl⟩ := World.runWrite_inv hstep
    have h₁ : Carried none (w.modConn c fun k => { k with writes := k.writes.eraseIdx i }) :=
      h.update ((h c).congr rfl rfl rfl rfl fun hw => hw)
    cases result with
    | ok => exact h₁.extendTimer
    | error err => exact (h₁.finishWrite_error (hx.beforeWrite hop) hs err v).1
  | expire c i =>
    -- the expired wait is the one that still has to fail the attempt
    obtain ⟨t, ht, -, rfl⟩ := World.expire_inv hstep
    refine h.update ((h c).congr rfl rfl rfl rfl fun _ => ?_)
    obtain ⟨hi, -⟩ := List.getElem?_eq_some_iff.mp ht
    exact ⟨{ t with status := .expired }, List.mem_set hi _, by simp⟩
  | runWait c i v =>
    obtain ⟨⟨target, status⟩, ht, hst, rfl⟩ := World.runWait_inv hstep
    cases status with
    | pending => exact absurd rfl hst
    | cancelled => exact h.eraseCancelled ht rfl
    | expired => exact (h.finishWait_expired hx hs _ target v).1

/-- **The handler that sees a connection break leaves it owing nothing.** -/
theorem seen (h : Carried none w) (hw : Steady w) {e : Event} {w' : World}
    (hsees : w.seesBreak c e) (hok : hooked w e) (hstep : w.step e = some w') :
    w'.owes c = false := by
  obtain ⟨-, hstep⟩ := World.step_eq_some hstep
  have hs := hw.settling
  have hx := hw.exclusive
  cases e with
  | runRead d i v =>
    obtain ⟨rfl, hfailed⟩ := hsees
    obtain ⟨op, result, hop, hres, rfl⟩ := World.runRead_inv hstep
    obtain ⟨hx₁, -, -⟩ := hx.beforeRead hop
    have h₁ : Carried none (w.modConn d fun k => { k with reads := k.reads.eraseIdx i }) :=
      h.update ((h d).congr rfl rfl rfl rfl fun hw => hw)
    obtain ⟨p, wanted, result'⟩ := op
    cases hres
    cases result with
    | ok pos => simp [World.failedRead, hop] at hfailed
    | error err =>
      simp only [World.finishRead]
      split
      · exact (h₁.closeAndFail_of_steady hx₁ hs _ v).2
      · rename_i hnot
        rw [World.owes_close]
        simpa [hooked, World.failedRead, hop, World.owes, World.modConn, hnot] using hok
  | runWrite d i v =>
    obtain ⟨rfl, data, err, hfailed⟩ := hsees
    obtain ⟨op, result, hop, hres, rfl⟩ := World.runWrite_inv hstep
    rw [hfailed] at hop
    cases hop
    cases hres
    have h₁ : Carried none (w.modConn d fun k => { k with writes := k.writes.eraseIdx i }) :=
      h.update ((h d).congr rfl rfl rfl rfl fun hw => hw)
    exact (h₁.finishWrite_error (hx.beforeWrite hfailed) hs err v).2
  | runWait d i v =>
    obtain ⟨rfl, target, hexp⟩ := hsees
    obtain ⟨t, ht, -, rfl⟩ := World.runWait_inv hstep
    rw [hexp] at ht
    cases ht
    exact (h.finishWait_expired hx hs _ target v).2
  | _ => cases hsees

end Carried

/-- **Broken connections settle their requests** in every run in which every
failure has its hook. -/
theorem brokenSettles_of_run {eraseEnd : List (Option FutId) → List (Option FutId)}
    {tls limit : Bool} {max : Nat} {w : World}
    (run : Run World.step hooked (World.init eraseEnd tls limit max) w) : BrokenSettles w := by
  have hinv : Steady w ∧ Carried none w := by
    refine run.invariant (P := fun u => Steady u ∧ Carried none u)
      ⟨Steady.init eraseEnd tls limit max, fun c => ⟨by simp [World.init], by simp [World.init],
        by simp [World.init]⟩⟩ ?_
    intro t u e h hok hstep
    exact ⟨h.1.step hstep, h.2.step h.1 hok hstep⟩
  refine ⟨?_, fun c e w' hsees hok hstep => hinv.2.seen hinv.1 hsees hok hstep⟩
  intro c hc ho
  obtain ⟨a, ha, hp⟩ := (w.owes_iff c).mp ho
  exact (hinv.2 c).watched a ha hp (by simp) hc

instance (w : World) (e : Event) : Decidable (hooked w e) :=
  match e with
  | .runRead _ _ _ => inferInstanceAs (Decidable (∀ _ ∈ _, _ ∨ _ = _))
  | .close _ => inferInstanceAs (Decidable (_ = _))
  | .request _ _ | .next | .release _ | .remove _ | .maxConnections _ | .limitConnections _
  | .setupDone _ _ | .runSetup _ | .receive _ _ _ | .readFails _ _ _ | .writeDone _ _ _
  | .runWrite _ _ _ | .expire _ _ | .runWait _ _ _ => inferInstanceAs (Decidable True)

/-- A connection that breaks while it waits for a status line settles its request:
it is retried on another connection. -/
theorem brokenSettles_retriedRequest :
    ∃ w, exec (guarded World.step hooked) (World.init id false true 1) retriedRequest = some w ∧
      (w.conns 0).closed = true ∧ w.owes 0 = false ∧ BrokenSettles w := by
  have hvals : (exec (guarded World.step hooked) (World.init id false true 1) retriedRequest).map
      (fun w => ((w.conns 0).closed, w.owes 0)) = some (true, false) := by decide
  obtain ⟨w, hw, hvals⟩ := Option.map_eq_some_iff.mp hvals
  obtain ⟨hclosed, howes⟩ := Prod.mk.inj hvals
  exact ⟨w, hw, hclosed, howes, brokenSettles_of_run (Run.of_guarded retriedRequest hw)⟩

/-- The head of a chunked response. -/
def chunkedHead : Bytes :=
  ascii "HTTP/1.1 200 OK" ++ crlf ++ ascii "Transfer-Encoding: chunked" ++ crlf ++ crlf

/-- The request is written, the head of a chunked response arrives, and then the
server closes the connection. -/
def brokenChunkSize : List Event :=
  [.request getRequest 30000] ++ connects 0 ++
    [.writeDone 0 0 (.ok ()), .runWrite 0 0 .accept, .receive 0 0 chunkedHead,
      .runRead 0 0 .accept, .runRead 0 0 .accept, .runRead 0 0 .accept,
      .readFails 0 0 (ascii "End of file"), .runRead 0 0 .accept]

/-- **End of file where a chunk-size line is due**: the connection is closed and
owes an answer, nothing is outstanding on it, and every wait on its timer has
been cancelled. -/
theorem brokenSettles_chunkSize :
    ∃ w, exec World.step (World.init id false true 8) brokenChunkSize = some w ∧
      (w.conns 0).reads.length = 0 ∧ (w.conns 0).writes.length = 0 ∧
      ¬ BrokenSettles w := by
  have hvals : (exec World.step (World.init id false true 8) brokenChunkSize).map
      (fun w => ((w.conns 0).reads.length, (w.conns 0).writes.length, (w.conns 0).closed, w.owes 0,
        (w.conns 0).waits.all fun t => t.status == .cancelled)) =
      some (0, 0, true, true, true) := by decide
  obtain ⟨w, hw, hvals⟩ := Option.map_eq_some_iff.mp hvals
  simp only [Prod.mk.injEq] at hvals
  obtain ⟨hreads, hwrites, hclosed, howes, hall⟩ := hvals
  refine ⟨w, hw, hreads, hwrites, fun h => ?_⟩
  obtain ⟨-, t, ht, hstatus⟩ := h.closed 0 hclosed howes
  exact hstatus (by simpa using List.all_eq_true.mp hall t ht)

end AsioProtocols
