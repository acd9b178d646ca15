import AsioProtocols.Http.CompletesOnce

/-!
# Whose attempt a connection settles

`write_request` assigns the current attempt of a response to a connection. A
connection keeps its `res_` on every failure path, and `current_completion()` is
looked up through it each time, so after a retry an old connection would settle
the new attempt if anything of it were still to run: a failed write, a read that
has completed, an expired timer (`ownAttempts_lateWrite`).

`ownAttempts_of_run` says that this is all that can go wrong: as long as each
retry of a failed attempt leaves its connection with nothing else to run
(`retriesQuietly`), every settled attempt was assigned to the connection that
settles it, every byte stored in a response comes from the connection its current
attempt was assigned to, and a response that completes holds the bytes of one
connection.

The invariant is `Own x`. A connection that has a `res_` was assigned an attempt
of it, which is the current one unless the connection is `Quiet`: closed and with
nothing left to run that would touch the response. `x` exempts the connection
whose handler is between settling the attempt and closing. `Ledger` is the part
about the history: an attempt is assigned once, because as long as a request
waits for a connection its current attempt is not assigned, and it waits in one
place only.
-/

namespace AsioProtocols

open Function

/-! ## The property -/

/-- `write_request` handed `r` to `c` while `a` was its current attempt. -/
def World.Assigned (w : World) (c : ConnId) (r : RespId) (a : AttemptId) : Prop :=
  ∃ res, Note.assigned c r a res ∈ w.log

/-- **Attempts belong to connections.** -/
structure OwnAttempts (w : World) : Prop where
  settled : ∀ c r a, Deed.settled c r a ∈ w.completions.history → w.Assigned c r a
  content : ∀ c r a, Note.content c r a ∈ w.log → w.Assigned c r a
  oneConnection : ∀ r code, w.completions.completion r = some (.done code) →
    ∃ c, (∀ d ∈ w.sources r, d = c) ∧ w.statusFrom r = some c

/-! ## The condition -/

/-- A read that cannot touch the response any more, on a closed connection: it has
no hook and has not succeeded. -/
def ReadOp.harmless (op : ReadOp) : Bool :=
  !op.point.hooked &&
    match op.result with
    | some (.ok _) => false
    | _ => true

/-- Nothing is outstanding on a connection that could run after it closes. -/
def Conn.spent (k : Conn) : Bool :=
  k.writes.isEmpty && k.reads.all ReadOp.harmless && k.waits.all (·.status != .expired)

/-- If it is closed already, so that `close()` cancels nothing, no wait is
pending either. -/
def Conn.cancelled (k : Conn) : Bool := !k.closed || k.waits.all (·.status == .cancelled)

namespace World

/-- The attempt of the response of `c` is pending. -/
def awaits (w : World) (c : ConnId) : Bool :=
  match (w.conns c).res with
  | some r => !w.completions.isReady r
  | none => false

theorem awaits_of_pending (w : World) {c : ConnId} {r : RespId} (hr : (w.conns c).res = some r)
    (hp : (w.completions.attempts (w.completions.current r)).outcome = none) :
    w.awaits c = true := by
  simp [awaits, hr, Completions.isReady, Future.not_isReady_iff, hp]

/-- The handler of the read sees it failed, and has a hook. -/
def failsHooked (w : World) (c : ConnId) (i : Nat) : Bool :=
  match (w.conns c).reads[i]? with
  | some ⟨p, _, some (.error _)⟩ => p.hooked
  | _ => false

/-- The handler of the read sees the end of headers that frame nothing. -/
def endsUnframed (w : World) (c : ConnId) (i : Nat) : Bool :=
  match (w.conns c).reads[i]?, (w.conns c).res with
  | some ⟨.header, _, some (.ok pos)⟩, some r =>
    decide ((w.conns c).input.take pos = [] ∧ (w.responses r).unframed)
  | _, _ => false

/-- The handler of the write sees it failed. -/
def failsWrite (w : World) (c : ConnId) (i : Nat) : Bool :=
  match (w.conns c).writes[i]? with
  | some ⟨_, some (.error _)⟩ => true
  | _ => false

end World

/-- Where a failed attempt is retried, its connection has nothing else to run. -/
def retriesQuietly (w : World) : Event → Prop
  | .runRead c i .retry =>
    let rest := { w.conns c with reads := (w.conns c).reads.eraseIdx i }
    w.awaits c = true →
      (w.failsHooked c i = true → rest.spent = true ∧ rest.cancelled = true) ∧
      (w.endsUnframed c i = true → rest.spent = true ∧ rest.closed = false)
  | .runWrite c i .retry =>
    let rest := { w.conns c with writes := (w.conns c).writes.eraseIdx i }
    w.awaits c = true → w.failsWrite c i = true → rest.spent = true ∧ rest.cancelled = true
  | .runWait c i .retry =>
    let rest := { w.conns c with waits := (w.conns c).waits.eraseIdx i }
    w.awaits c = true → w.expires c i = true → rest.spent = true
  | _ => True

instance (w : World) (e : Event) : Decidable (retriesQuietly w e) := by
  rcases e with _ | _ | _ | _ | _ | _ | _ | _ | _ | _ | _ | ⟨_, _, _ | _ | _⟩ | _ |
    ⟨_, _, _ | _ | _⟩ | _ | ⟨_, _, _ | _ | _⟩ <;> unfold retriesQuietly <;> infer_instance

/-! ## The invariant -/

/-- Closed, and nothing left to run that touches the response. -/
structure Conn.Quiet (k : Conn) : Prop where
  closed : k.closed = true
  writes : k.writes = []
  reads : ∀ op ∈ k.reads, op.harmless = true
  waits : ∀ t ∈ k.waits, t.status = .cancelled

/-- The request of `r` waits in this place: in the future of a queued request or
in that of a connection on its way. -/
def Pool.holds (p : Pool) (r : RespId) : QueueId ⊕ FutId → Prop
  | .inl q => .writeRequest r ∈ (p.queued q).tasks
  | .inr f => .client (.writeRequest r) ∈ (p.opened f).tasks

/-- What the history and the places of the waiting requests satisfy. -/
structure Ledger (w : World) : Prop where
  settled : ∀ c r a, Deed.settled c r a ∈ w.completions.history → w.Assigned c r a
  content : ∀ c r a, Note.content c r a ∈ w.log → w.Assigned c r a
  made : ∀ c r a, w.Assigned c r a → a < w.completions.nattempts ∧ r < w.completions.nresponses
  own : ∀ c r a, w.Assigned c r a → ∀ s, s < w.completions.nresponses →
    w.completions.current s = a → s = r
  unique : ∀ c d r s a, w.Assigned c r a → w.Assigned d s a → c = d
  first : ∀ r place, w.pool.holds r place → ∀ c s, ¬ w.Assigned c s (w.completions.current r)
  once : ∀ r place place', w.pool.holds r place → w.pool.holds r place' → place = place'
  sources : ∀ r, ∀ d ∈ w.sources r, w.Assigned d r (w.completions.current r)
  done : ∀ r code, w.completions.completion r = some (.done code) →
    ∃ c, w.Assigned c r (w.completions.current r) ∧ w.statusFrom r = some c

/-- What the record `k` of connection `c` satisfies. -/
structure OwnerOf (w : World) (x : Option ConnId) (c : ConnId) (k : Conn) : Prop where
  assigned : ∀ r, k.res = some r → ∃ a, k.attempt = some a ∧ w.Assigned c r a
  current : ∀ r, k.res = some r → some c ≠ x →
    k.attempt = some (w.completions.current r) ∨ k.Quiet
  status : ∀ r, k.res = some r → k.attempt = some (w.completions.current r) →
    ∀ op ∈ k.reads, op.point ≠ .status → w.statusFrom r = some c

/-- **The invariant**, with connection `x` exempted. -/
structure Own (x : Option ConnId) (w : World) : Prop where
  ledger : Ledger w
  conn : ∀ c, OwnerOf w x c (w.conns c)

theorem Ledger.ownAttempts {w : World} (h : Ledger w) : OwnAttempts w where
  settled := h.settled
  content := h.content
  oneConnection r code hr := by
    obtain ⟨c, hc, hs⟩ := h.done r code hr
    exact ⟨c, fun d hd => h.unique d c r r _ (h.sources r d hd) hc, hs⟩

namespace Own

variable {w : World} {c : ConnId} {x : Option ConnId}

theorem weaken (h : Own none w) (x : Option ConnId) : Own x w :=
  ⟨h.ledger, fun c => ⟨(h.conn c).assigned, fun r hr _ => (h.conn c).current r hr (by simp),
    (h.conn c).status⟩⟩

/-! ## Changes of one connection -/

/-- A new record for `c`. -/
theorem update (h : Own x w) {k : Conn} (hk : OwnerOf w x c k) :
    Own x { w with conns := Function.update w.conns c k } := by
  refine ⟨⟨h.ledger.settled, h.ledger.content, h.ledger.made, h.ledger.own, h.ledger.unique,
    h.ledger.first, h.ledger.once, h.ledger.sources, h.ledger.done⟩, fun d => ?_⟩
  show OwnerOf _ x d (Function.update w.conns c k d)
  rcases eq_or_ne d c with rfl | hne
  · rw [update_self]
    exact ⟨hk.assigned, hk.current, hk.status⟩
  · rw [update_of_ne hne]
    exact ⟨(h.conn d).assigned, (h.conn d).current, (h.conn d).status⟩

/-- Changes that keep the response, the attempt and the points of the reads, and
that make no quiet connection loud. -/
theorem inner (h : Own x w) {k : Conn} (hres : k.res = (w.conns c).res)
    (hattempt : k.attempt = (w.conns c).attempt)
    (hreads : ∀ op ∈ k.reads, ∃ op' ∈ (w.conns c).reads, op.point = op'.point)
    (hquiet : (w.conns c).Quiet → k.Quiet) :
    Own x { w with conns := Function.update w.conns c k } := by
  have hc := h.conn c
  refine h.update ⟨?_, ?_, ?_⟩
  · rw [hres, hattempt]
    exact hc.assigned
  · rw [hres, hattempt]
    exact fun r hr hx => (hc.current r hr hx).imp_right hquiet
  · rw [hres, hattempt]
    intro r hr ha op hop hp
    obtain ⟨op', hop', hpoint⟩ := hreads op hop
    exact hc.status r hr ha op' hop' (hpoint ▸ hp)

/-- A connection at work is not quiet, so its attempt is the current one. -/
theorem attempt_of_not_quiet (h : Own none w) {r : RespId} (hr : (w.conns c).res = some r)
    (hq : ¬ (w.conns c).Quiet) : (w.conns c).attempt = some (w.completions.current r) :=
  ((h.conn c).current r hr (by simp)).resolve_right hq

/-- Neither who holds a connection nor a fault matters. -/
theorem aside (h : Own x w) (held : List ConnId) (fault : Option Fault) :
    Own x { w with held := held, fault := fault } :=
  ⟨⟨h.ledger.settled, h.ledger.content, h.ledger.made, h.ledger.own, h.ledger.unique,
    h.ledger.first, h.ledger.once, h.ledger.sources, h.ledger.done⟩,
    fun c => ⟨(h.conn c).assigned, (h.conn c).current, (h.conn c).status⟩⟩

/-- What a connection at work does to its timer and to the parser is its own
business. -/
theorem loud (h : Own x w) {k : Conn} (hres : k.res = (w.conns c).res)
    (hattempt : k.attempt = (w.conns c).attempt)
    (hreads : ∀ op ∈ k.reads, ∃ op' ∈ (w.conns c).reads, op.point = op'.point)
    (hcur : ∀ r, (w.conns c).res = some r →
      (w.conns c).attempt = some (w.completions.current r)) :
    Own x { w with conns := Function.update w.conns c k } := by
  have hc := h.conn c
  refine h.update ⟨?_, ?_, ?_⟩
  · rw [hres, hattempt]
    exact hc.assigned
  · rw [hres, hattempt]
    exact fun r hr _ => .inl (hcur r hr)
  · rw [hres, hattempt]
    intro r hr ha op hop hp
    obtain ⟨op', hop', hpoint⟩ := hreads op hop
    exact hc.status r hr ha op' hop' (hpoint ▸ hp)

/-! ## Notes -/

theorem assigned_append {n : Note} {c : ConnId} {r : RespId} {a : AttemptId}
    (h : w.Assigned c r a) : ({ w with log := w.log ++ [n] } : World).Assigned c r a := by
  obtain ⟨res, hres⟩ := h
  exact ⟨res, List.mem_append_left _ hres⟩

theorem assigned_of_append {n : Note} (hn : ∀ d s b res, n ≠ .assigned d s b res) {c : ConnId}
    {r : RespId} {a : AttemptId}
    (h : ({ w with log := w.log ++ [n] } : World).Assigned c r a) : w.Assigned c r a := by
  obtain ⟨res, hres⟩ := h
  rcases List.mem_append.mp hres with hm | hm
  · exact ⟨res, hm⟩
  · exact absurd (List.mem_singleton.mp hm).symm (hn c r a res)

/-- A note that assigns nothing; content comes from the connection its attempt
was assigned to. -/
theorem noted (h : Own x w) {n : Note} (hn : ∀ d s b res, n ≠ .assigned d s b res)
    (hcontent : ∀ d s b, n = .content d s b → w.Assigned d s b) :
    Own x { w with log := w.log ++ [n] } where
  ledger :=
    { settled := fun d r a hd => assigned_append (h.ledger.settled d r a hd)
      content := by
        intro d r a hm
        refine assigned_append ?_
        rcases List.mem_append.mp hm with hm | hm
        · exact h.ledger.content d r a hm
        · exact hcontent d r a (List.mem_singleton.mp hm).symm
      made := fun d r a ha => h.ledger.made d r a (assigned_of_append hn ha)
      own := fun d r a ha => h.ledger.own d r a (assigned_of_append hn ha)
      unique := fun d e r s a ha hb =>
        h.ledger.unique d e r s a (assigned_of_append hn ha) (assigned_of_append hn hb)
      first := fun r place hp d s ha => h.ledger.first r place hp d s (assigned_of_append hn ha)
      once := h.ledger.once
      sources := fun r d hd => assigned_append (h.ledger.sources r d hd)
      done := by
        intro r code hr
        obtain ⟨d, hd, hs⟩ := h.ledger.done r code hr
        exact ⟨d, assigned_append hd, hs⟩ }
  conn d := by
    refine ⟨?_, (h.conn d).current, (h.conn d).status⟩
    intro r hr
    obtain ⟨a, ha, has⟩ := (h.conn d).assigned r hr
    exact ⟨a, ha, assigned_append has⟩

/-! ## Handing out -/

/-- A change of the pool that adds at most the place of one more request, which
waited nowhere and whose attempt is not assigned. -/
theorem addPlace (h : Own x w) {p : Pool} (t : ClientTask) (place₀ : QueueId ⊕ FutId)
    (hplaces : ∀ r place, p.holds r place →
      w.pool.holds r place ∨ (t = .writeRequest r ∧ place = place₀))
    (hnew : ∀ r, t = .writeRequest r → (∀ place, ¬ w.pool.holds r place) ∧
      ∀ c s, ¬ w.Assigned c s (w.completions.current r)) : Own x { w with pool := p } := by
  refine ⟨⟨h.ledger.settled, h.ledger.content, h.ledger.made, h.ledger.own, h.ledger.unique,
    ?_, ?_, h.ledger.sources, h.ledger.done⟩,
    fun d => ⟨(h.conn d).assigned, (h.conn d).current, (h.conn d).status⟩⟩
  · intro r place hp
    rcases hplaces r place hp with hp | ⟨ht, -⟩
    · exact h.ledger.first r place hp
    · exact (hnew r ht).2
  · intro r place place' hp hp'
    rcases hplaces r place hp with hp | ⟨ht, rfl⟩ <;>
      rcases hplaces r place' hp' with hp' | ⟨ht', rfl⟩
    · exact h.ledger.once r place place' hp hp'
    · exact absurd hp ((hnew r ht').1 place)
    · exact absurd hp' ((hnew r ht).1 place')
    · rfl

/-- A change of the pool that makes no request wait. -/
theorem setPool (h : Own x w) {p : Pool}
    (hplaces : ∀ r place, p.holds r place → w.pool.holds r place) : Own x { w with pool := p } :=
  h.addPlace .hold (.inl 0) (fun r place hp => .inl (hplaces r place hp)) (by simp)

/-- A response that waits in the pool has been made. -/
theorem known_of_holds (hq : Queues w.pool w.completions.nresponses) {r : RespId}
    {place : QueueId ⊕ FutId} (hp : w.pool.holds r place) : r < w.completions.nresponses := by
  rcases place with q | f
  · exact hq.queuedKnown q r hp
  · exact hq.openedKnown f r hp

/-- Behind the note of `write_request`, what is assigned was before or is what the
note says. -/
theorem assigned_cases {d : ConnId} {r : RespId} {a : AttemptId} {res : Option RespId} {c : ConnId}
    {s : RespId} {b : AttemptId}
    (h : ({ w with log := w.log ++ [.assigned d r a res] } : World).Assigned c s b) :
    w.Assigned c s b ∨ (c = d ∧ s = r ∧ b = a) := by
  obtain ⟨res', hm⟩ := h
  rcases List.mem_append.mp hm with hm | hm
  · exact .inl ⟨res', hm⟩
  · cases List.mem_singleton.mp hm
    exact .inr ⟨rfl, rfl, rfl⟩

/-- **The history behind `write_request`**: the current attempt of `r`, which
nothing waits for and no connection has, is assigned to `d`. -/
theorem assignLedger (h : Ledger w) (hq : Queues w.pool w.completions.nresponses)
    (ho : Orderly w.completions) {d : ConnId} {r : RespId} (hr : r < w.completions.nresponses)
    (hnone : ∀ place, ¬ w.pool.holds r place)
    (hfirst : ∀ c s, ¬ w.Assigned c s (w.completions.current r)) (res : Option RespId) :
    Ledger { w with log := w.log ++ [.assigned d r (w.completions.current r) res] } where
  settled c s a hd := assigned_append (h.settled c s a hd)
  content c s a hm := by
    rcases List.mem_append.mp hm with hm | hm
    · exact assigned_append (h.content c s a hm)
    · cases List.mem_singleton.mp hm
  made c s a ha := by
    rcases assigned_cases ha with ha | ⟨-, rfl, rfl⟩
    · exact h.made c s a ha
    · exact ⟨ho.currentMade _ hr, hr⟩
  own c s a ha s' hs' hcur := by
    rcases assigned_cases ha with ha | ⟨-, rfl, rfl⟩
    · exact h.own c s a ha s' hs' hcur
    · exact ho.currentOwn s' _ hs' hr hcur
  unique c c' s s' a ha ha' := by
    rcases assigned_cases ha with hold | ⟨hc, -, hcur⟩ <;>
      rcases assigned_cases ha' with hold' | ⟨hc', -, hcur'⟩
    · exact h.unique c c' s s' a hold hold'
    · exact absurd (hcur' ▸ hold) (hfirst c s)
    · exact absurd (hcur ▸ hold') (hfirst c' s')
    · exact hc.trans hc'.symm
  first s place hp c s' ha := by
    rcases assigned_cases ha with ha | ⟨-, -, hcur⟩
    · exact h.first s place hp c s' ha
    · -- two responses have no attempt in common, so `r` itself would be waiting
      have := ho.currentOwn s r (known_of_holds hq hp) hr hcur
      exact hnone place (this ▸ hp)
  once := h.once
  sources s c hc := assigned_append (h.sources s c hc)
  done s code hs := by
    obtain ⟨c, hc, hst⟩ := h.done s code hs
    exact ⟨c, assigned_append hc, hst⟩

/-- **`write_request`**: the current attempt of `r`, not assigned so far, is
assigned to `d`, which is between two responses. -/
theorem assign (h : Own x w) (hq : Queues w.pool w.completions.nresponses)
    (ho : Orderly w.completions) {d : ConnId} {r : RespId} (hr : r < w.completions.nresponses)
    (hnone : ∀ place, ¬ w.pool.holds r place)
    (hfirst : ∀ c s, ¬ w.Assigned c s (w.completions.current r))
    (hreads : ∀ op ∈ (w.conns d).reads, op.point = .status) (stall : Nat) (data : Bytes)
    (res : Option RespId) :
    Own x { w with
      conns := Function.update w.conns d
        ((w.conns d).carrying r (w.completions.current r) stall data)
      log := w.log ++ [.assigned d r (w.completions.current r) res] } := by
  have h₁ : Own x { w with log := w.log ++ [.assigned d r (w.completions.current r) res] } := by
    refine ⟨assignLedger h.ledger hq ho hr hnone hfirst res, fun c => ?_⟩
    refine ⟨?_, (h.conn c).current, (h.conn c).status⟩
    intro s hs
    obtain ⟨a, ha, has⟩ := (h.conn c).assigned s hs
    exact ⟨a, ha, assigned_append has⟩
  refine h₁.update ⟨?_, ?_, ?_⟩
  · intro s hs
    cases hs
    exact ⟨_, rfl, res, List.mem_append_right _ (List.mem_singleton_self _)⟩
  · intro s hs _
    cases hs
    exact .inl rfl
  · intro s _ _ op hop hp
    exact absurd (hreads op hop) hp

/-- Handing on a connection that is between two responses. -/
theorem hand (h : Own x w) (hq : Queues w.pool w.completions.nresponses)
    (ho : Orderly w.completions) {d : ConnId}
    (hreads : ∀ op ∈ (w.conns d).reads, op.point = .status) {tasks : List ClientTask}
    (hone : tasks.length ≤ 1)
    (htask : ∀ r, .writeRequest r ∈ tasks → r < w.completions.nresponses ∧
      (∀ place, ¬ w.pool.holds r place) ∧ ∀ c s, ¬ w.Assigned c s (w.completions.current r)) :
    Own x (w.hand d tasks) := by
  have h₁ := h.noted (n := .handed d (w.conns d).res (w.conns d).closed) (by simp) (by simp)
  refine World.hand_cases w d hone h₁ ?_ ?_
  · exact h₁.aside _ _
  · intro r ht
    obtain ⟨hr, hnone, hfirst⟩ := htask r (by simp [ht])
    rw [World.hand_writeRequest]
    have h₂ := h₁.assign hq ho (d := d) hr hnone
      (fun c s ha => hfirst c s (assigned_of_append (by simp) ha)) hreads
      (w.responses r).stallTimeout (w.responses r).request.bytes (w.conns d).res
    simpa only [List.append_assoc, List.singleton_append] using h₂

/-- The front request leaves its place and gets the connection. -/
theorem release (h : Own x w) (hq : Queues w.pool w.completions.nresponses)
    (ho : Orderly w.completions) {d : ConnId}
    (hreads : ∀ op ∈ (w.conns d).reads, op.point = .status) : Own x (w.release d) := by
  rcases hn : w.pool.next_ with _ | ⟨q, rest⟩
  · rw [World.release_of_nil w d hn]
    exact h.setPool fun r place hp => by rcases place with q | f <;> exact hp
  · rw [World.release_of_cons w d hn (hq.pending q (by simp [hn])).2]
    have hplaces : ∀ r place, ({ w.pool with
        next_ := rest
        queued := Function.update w.pool.queued q
          { outcome := some (.done d), tasks := [] } } : Pool).holds r place →
        w.pool.holds r place ∧ place ≠ .inl q := by
      rintro r (q' | f) hp
      · change _ ∈ (Function.update w.pool.queued q _ q').tasks at hp
        rcases eq_or_ne q' q with rfl | hne
        · simp at hp
        · rw [update_of_ne hne] at hp
          exact ⟨hp, fun he => hne (Sum.inl.inj he)⟩
      · exact ⟨hp, by simp⟩
    refine hand (h.setPool fun r place hp => (hplaces r place hp).1) ?_ ?_ ?_ (hq.queuedOne q) ?_
    · exact hq.pop hn d
    · exact ho
    · exact hreads
    · intro r hr
      have hheld : w.pool.holds r (.inl q) := hr
      refine ⟨hq.queuedKnown q r hr, fun place hp => ?_, h.ledger.first r _ hheld⟩
      obtain ⟨hp, hne⟩ := hplaces r place hp
      exact hne (h.ledger.once r place _ hp hheld)

/-- `next()` with a callback whose request waits nowhere. -/
theorem nextThen (h : Own x w) (hw : Exclusive w) (ho : Orderly w.completions) {t : ClientTask}
    (hnew : ∀ r, t = .writeRequest r → r < w.completions.nresponses ∧
      (∀ place, ¬ w.pool.holds r place) ∧ ∀ c s, ¬ w.Assigned c s (w.completions.current r)) :
    Own x (w.nextThen t) := by
  rcases World.nextThen_cases w t with ⟨d, rest, hd, -, hn⟩ | ⟨-, -, hn⟩ | ⟨-, -, hn⟩ <;> rw [hn]
  · have hsub : (d :: rest).Sublist w.pool.available := hd ▸ List.dropWhile_sublist _
    have hidle := (hw.conn d).idle (.inl (hsub.mem (by simp)))
    have hplaces : ∀ r place,
        ({ w.pool with available := rest } : Pool).holds r place → w.pool.holds r place := by
      rintro r (q | f) hp <;> exact hp
    refine hand (h.setPool hplaces) ?_ ?_ ?_ (by simp) ?_
    · exact hw.queues.of_eq rfl rfl rfl rfl
    · exact ho
    · exact (hw.conn d).between hidle.1
    · intro r hr
      obtain ⟨hlt, hnone, hfirst⟩ := hnew r (List.mem_singleton.mp hr).symm
      exact ⟨hlt, fun place hp => hnone place (hplaces r place hp), hfirst⟩
  · refine h.addPlace t (.inr w.pool.created) ?_ fun r hr => (hnew r hr).2
    rintro r (q | f) hp
    · exact .inl hp
    · change _ ∈ (Function.update w.pool.opened w.pool.created _ f).tasks at hp
      rcases eq_or_ne f w.pool.created with rfl | hne
      · rw [update_self] at hp
        simp only [List.mem_singleton, OpenTask.client.injEq] at hp
        exact .inr ⟨hp.symm, rfl⟩
      · rw [update_of_ne hne] at hp
        exact .inl hp
  · refine h.addPlace t (.inl w.pool.nqueued) ?_ fun r hr => (hnew r hr).2
    rintro r (q | f) hp
    · change _ ∈ (Function.update w.pool.queued w.pool.nqueued _ q).tasks at hp
      rcases eq_or_ne q w.pool.nqueued with rfl | hne
      · rw [update_self] at hp
        exact .inr ⟨(List.mem_singleton.mp hp).symm, rfl⟩
      · rw [update_of_ne hne] at hp
        exact .inl hp
    · exact .inl hp

/-- The request that waits in the future of a connection gets it. -/
theorem settleOpened (h : Own x w) (hq : Queues w.pool w.completions.nresponses)
    (ho : Orderly w.completions) {d : ConnId} (hp : (w.pool.opened d).outcome = none)
    (hreads : ∀ op ∈ (w.conns d).reads, op.point = .status) : Own x (w.settleOpened d) := by
  have hplaces : ∀ r place, ({ w.pool with
      opened := Function.update w.pool.opened d
        { outcome := some (.done d), tasks := [] } } : Pool).holds r place →
      w.pool.holds r place ∧ place ≠ .inr d := by
    rintro r (q | f) hp
    · exact ⟨hp, by simp⟩
    · change _ ∈ (Function.update w.pool.opened d _ f).tasks at hp
      rcases eq_or_ne f d with rfl | hne
      · simp at hp
      · rw [update_of_ne hne] at hp
        exact ⟨hp, fun he => hne (Sum.inr.inj he)⟩
  have h₁ := h.setPool fun r place hp => (hplaces r place hp).1
  have hq₁ : Queues
      { w.pool with
        opened := Function.update w.pool.opened d { outcome := some (.done d), tasks := [] } }
      w.completions.nresponses :=
    hq.setOpened d { outcome := some (.done d), tasks := [] } (by simp) (by simp) rfl rfl rfl rfl
  rcases w.settleOpened_cases d hp (hq.openedOne d) with ⟨-, he⟩ | ⟨t, ht, he⟩ | ⟨-, he⟩ <;> rw [he]
  · exact h₁
  · refine hand h₁ hq₁ ho hreads (by simp) ?_
    intro r hr
    obtain rfl := List.mem_singleton.mp hr
    have hheld : w.pool.holds r (.inr d) := by simp [Pool.holds, ht]
    refine ⟨hq.openedKnown d r (by simp [ht]), fun place hp => ?_, h.ledger.first r _ hheld⟩
    obtain ⟨hp, hne⟩ := hplaces r place hp
    exact hne (h.ledger.once r place _ hp hheld)
  · exact release h₁ hq₁ ho hreads

/-- `remove()` makes no request wait. -/
theorem remove (h : Own x w) (eraseEnd : List (Option FutId) → List (Option FutId))
    (valid : ConnId → Bool) (d : ConnId) :
    Own x { w with pool := w.pool.remove eraseEnd valid d } := by
  refine h.setPool ?_
  rcases Pool.remove_cases eraseEnd valid w.pool d with ⟨hr, -⟩ | ⟨hr, -, -⟩ <;> rw [hr]
  · rintro r (q | f) hp <;> exact hp
  · rintro r (q | f) hp
    · exact hp
    · simp only [Pool.holds, Pool.replace_opened] at hp
      rcases eq_or_ne f w.pool.created with rfl | hne
      · simp at hp
      · simpa [Pool.holds, update_of_ne hne] using hp

end Own

end AsioProtocols
