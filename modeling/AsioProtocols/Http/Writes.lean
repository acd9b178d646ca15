import AsioProtocols.Http.Effects

/-!
# The writes of a connection

`write_request` leaves its write to itself, and the connection is released when the
response has been read. Nothing waits for the write. Where the server answers in full
before it has read the request in full, the response ends while the write is
outstanding: `res_` is empty then, so a failure of the write is reported through an empty
pointer, or to the response of a later request; and the connection may go to the next
request, which starts a second write beside the first.

`Sending` is the history of the writes of a connection: whose requests the outstanding
ones carry, which requests were begun, and which have been written in full. `OneWriter`
is the property. `World.writesApart` is the condition on a step:

- it gives no connection to a request while a write on it is outstanding,
- a write does not fail once the response it belongs to has been read to its end,
- no response is read to its end while the failure of a write is yet to be handled.

Only an early answer can break it: `writesApart_of_unhurried` derives it from the
condition that a response ends when its request has been written.
-/

namespace AsioProtocols

open Function

/-! ## The property -/

/-- The history of the writes of one connection. -/
structure Sending where
  /-- The responses whose requests the outstanding writes carry. -/
  writers : List RespId := []
  /-- The requests whose write began while the connection was open, in that order. -/
  begun : List Bytes := []
  /-- The requests written in full, in the order in which their writes succeeded. -/
  whole : List Bytes := []

/-- A write is complete, or its handler is taken off the queue. -/
def Sending.before (s : Sending) (w : World) (e : Event) (c : ConnId) : Sending :=
  match e with
  | .writeDone d i (.ok _) =>
    if d = c then { s with whole := s.whole ++ ((w.conns c).writes[i]?.toList.map WriteOp.data) }
    else s
  | .runWrite d i _ => if d = c then { s with writers := s.writers.eraseIdx i } else s
  | _ => s

/-- What a step does to the history. The writes it begins stand behind those there
are, and nothing is sent on a connection that was closed before. -/
def World.recordWrites (w : World) (e : Event) (w' : World) (s : ConnId → Sending) :
    ConnId → Sending := fun c =>
  let s := (s c).before w e c
  { writers := s.writers ++ (writtenOn c w'.log).drop (writtenOn c w.log).length
    begun := if (w'.conns c).closedThen then s.begun
      else s.begun ++ ((w'.conns c).writes.drop s.writers.length).map WriteOp.data
    whole := s.whole }

/-- **One write at a time.** No two writes of a connection are outstanding; what has been
sent on it are whole requests, and at most one begun behind them; and a failed write is
reported to the response whose request was being written. -/
structure OneWriter (w : World) (s : ConnId → Sending) : Prop where
  outstanding : ∀ (c : ConnId) (i j : Nat) (op op' : WriteOp), (w.conns c).writes[i]? = some op →
    (w.conns c).writes[j]? = some op' → op.result = none → op'.result = none → i = j
  sent : ∀ c, ∃ rest, (s c).begun = (s c).whole ++ rest ∧ rest.length ≤ 1
  reported : ∀ (c : ConnId) (i : Nat) (op : WriteOp) (err : Bytes) (v : Verdict),
    (w.conns c).writes[i]? = some op → op.result = some (.error err) → w.fault = none →
    ∃ r, (s c).writers[i]? = some r ∧ w.step (.runWrite c i v) =
      some (((w.modConn c fun k => { k with writes := k.writes.eraseIdx i }).settleUnlessReady c r
        (.failed err) v).close c)

/-! ## The condition -/

namespace WriteOp

/-- The write is still going on. -/
def outstanding (op : WriteOp) : Bool := op.result.isNone

/-- The request has been written. -/
def succeeded (op : WriteOp) : Bool :=
  match op.result with
  | some (.ok _) => true
  | _ => false

/-- The write has failed, with its handler queued. -/
def failed (op : WriteOp) : Bool := !op.outstanding && !op.succeeded

end WriteOp

/-- The writes of a connection and its response are kept apart. -/
def World.writesApart (w : World) (e : Event) : Bool :=
  (w.handsTo e).all (fun c => (w.conns c).writes.all (!·.outstanding)) &&
  (w.ends e).all (fun c => (w.conns c).writes.all (!·.failed)) &&
  match e with
  | .writeDone c _ (.error _) => (w.conns c).res.isSome
  | _ => true

/-! ## What an effect does to the writes -/

/-- What may become of the writes of a connection `x`: they stay, while its response may
end, or, if `gives`, a request is written on it when it carries no response any more. -/
inductive Written (gives ends : Prop) (x y : Conn × List RespId) : Prop
  | kept (writes : y.1.writes = x.1.writes) (written : y.2 = x.2)
      (closed : x.1.closed = true → y.1.closed = true)
      (res : y.1.res = x.1.res ∨ (ends ∧ y.1.res = none))
  | given (h : gives) (r : RespId) (data : Bytes)
      (writes : y.1.writes = x.1.writes ++ [{ data := data }]) (written : y.2 = x.2 ++ [r])
      (closed : x.1.closed = true → y.1.closedThen = true)
      (closedThen : y.1.closedThen = true → y.1.closed = true)
      (free : x.1.res = none ∨ ends) (res : y.1.res = some r)

/-- What happens to a connection besides may close it. -/
theorem Written.congr {gives ends : Prop} {x y z : Conn × List RespId} (h : Written gives ends x y)
    (writes : z.1.writes = y.1.writes) (written : z.2 = y.2) (res : z.1.res = y.1.res)
    (closed : y.1.closed = true → z.1.closed = true)
    (closedThen : z.1.closedThen = y.1.closedThen) : Written gives ends x z := by
  cases h with
  | kept hwrites hwritten hclosed hres =>
    exact .kept (writes.trans hwrites) (written.trans hwritten) (closed ∘ hclosed) (res ▸ hres)
  | given hg r data hwrites hwritten hclosed hthen hfree hres =>
    exact .given hg r data (writes.trans hwrites) (written.trans hwritten)
      (fun h => closedThen.trans (hclosed h)) (fun h => closed (hthen (closedThen ▸ h))) hfree
      (res.trans hres)

theorem Effect.written {arms gives ends : Prop} {x y : Conn × List RespId}
    (h : Effect arms gives ends x y) : Written gives ends x y := by
  induction h with
  | refl => exact .kept rfl rfl id (.inl rfl)
  | inner _ _ writes res closed closedThen ih =>
    exact ih.congr writes rfl res (fun h => closed.trans h) closedThen
  | cancel _ ih => exact ih.congr rfl rfl rfl id rfl
  | shut _ ih => exact ih.congr rfl rfl rfl (fun _ => rfl) rfl
  | arm _ _ _ ih => exact ih.congr rfl rfl rfl id rfl
  | clear _ hends first ih =>
    cases ih with
    | kept hwrites hwritten hclosed _ => exact .kept hwrites hwritten hclosed (.inr ⟨hends, rfl⟩)
    | given _ r _ _ hwritten _ _ _ _ =>
      -- a response ends before the connection is given to another request
      have hlen := congrArg List.length (first.symm.trans hwritten)
      simp at hlen
  | give _ hg hnone r a stall data ih =>
    cases ih with
    | kept hwrites hwritten hclosed hres =>
      refine .given hg r data (congrArg (· ++ [({ data := data } : WriteOp)]) hwrites)
        (congrArg (· ++ [r]) hwritten) hclosed id ?_ rfl
      exact hres.imp (fun h => h.symm.trans hnone) And.left
    | given _ _ _ _ _ _ _ _ hres =>
      rw [hnone] at hres
      cases hres

/-! ## The invariant -/

/-- The writes of one connection and their history. At most one write has not succeeded;
it is that of the response the connection carries, or it is outstanding behind the end of
its response. If `open_`, what has been begun and is not whole is what that write sends. -/
structure Apart (k : Conn) (s : Sending) (open_ : Prop) : Prop where
  length : s.writers.length = k.writes.length
  one : ∀ (i j : Nat) (op op' : WriteOp), k.writes[i]? = some op → k.writes[j]? = some op' →
    op.succeeded = false → op'.succeeded = false → i = j
  own : ∀ (i : Nat) (op : WriteOp), k.writes[i]? = some op → op.succeeded = false →
    k.res = s.writers[i]? ∨ (op.outstanding = true ∧ k.res = none)
  sent : ∃ rest, s.begun = s.whole ++ rest ∧ rest.length ≤ 1 ∧
    (open_ → (rest = [] ∧ ∀ op ∈ k.writes, op.succeeded = true) ∨
      ∃ op ∈ k.writes, op.succeeded = false ∧ rest = [op.data])

namespace Apart

variable {k k' : Conn} {s : Sending} {o o' : Prop}

/-- The connection keeps its writes; its response may end if none has failed. -/
theorem kept (h : Apart k s o) (hwrites : k'.writes = k.writes)
    (hres : k'.res = k.res ∨ ((∀ op ∈ k.writes, op.failed = false) ∧ k'.res = none))
    (ho : o' → o) : Apart k' s o' where
  length := h.length.trans (congrArg List.length hwrites.symm)
  one := hwrites ▸ h.one
  own i op hop hunfinished := by
    rw [hwrites] at hop
    obtain hres | ⟨hfailed, hres⟩ := hres
    · rw [hres]
      exact h.own i op hop hunfinished
    · refine .inr ⟨?_, hres⟩
      have := hfailed op (List.mem_of_getElem? hop)
      simpa [WriteOp.failed, hunfinished] using this
  sent := by
    obtain ⟨rest, hbegun, hlen, hopen⟩ := h.sent
    exact ⟨rest, hbegun, hlen, hwrites ▸ fun h => hopen (ho h)⟩

/-- **A write begins** where all writes before it have succeeded. -/
theorem given (h : Apart k s o) (hdone : ∀ op ∈ k.writes, op.succeeded = true) {r : RespId}
    {data : Bytes} (hwrites : k'.writes = k.writes ++ [{ data := data }]) (hres : k'.res = some r)
    {begun : List Bytes} (hbegun : begun = s.begun ∧ ¬ o' ∨ begun = s.begun ++ [data] ∧ o) :
    Apart k' { s with writers := s.writers ++ [r], begun := begun } o' where
  length := by simp [hwrites, h.length]
  one i j op op' hop hop' hunfinished hunfinished' := by
    -- whatever has not succeeded is the new one
    have new : ∀ (i : Nat) (op : WriteOp), k'.writes[i]? = some op → op.succeeded = false →
        i = k.writes.length := by
      intro i op hop hunfinished
      rw [hwrites, List.getElem?_append] at hop
      split at hop
      · have := hdone op (List.mem_of_getElem? hop)
        rw [hunfinished] at this
        cases this
      · obtain ⟨hi, -⟩ := List.getElem?_eq_some_iff.mp hop
        rw [List.length_singleton] at hi
        omega
    exact (new i op hop hunfinished).trans (new j op' hop' hunfinished').symm
  own i op hop hunfinished := by
    left
    rw [hwrites, List.getElem?_append] at hop
    split at hop
    · have := hdone op (List.mem_of_getElem? hop)
      rw [hunfinished] at this
      cases this
    · rename_i hi
      obtain ⟨hi', -⟩ := List.getElem?_eq_some_iff.mp hop
      rw [List.length_singleton] at hi'
      obtain rfl : i = s.writers.length := by
        rw [h.length]
        omega
      simp [hres]
  sent := by
    obtain ⟨rest, hrest, hlen, hopen⟩ := h.sent
    obtain ⟨rfl, hclosed⟩ | ⟨rfl, ho⟩ := hbegun
    · exact ⟨rest, hrest, hlen, fun ho => absurd ho hclosed⟩
    · obtain ⟨rfl, -⟩ | ⟨op, hop, hunfinished, -⟩ := hopen ho
      · refine ⟨[data], by simp [hrest], by simp, fun _ => .inr ⟨{ data := data }, ?_, rfl, rfl⟩⟩
        rw [hwrites]
        exact List.mem_append_right _ (List.mem_singleton_self _)
      · rw [hdone op hop] at hunfinished
        cases hunfinished

/-- The only write that has not succeeded is the one at `i`. -/
theorem others (h : Apart k s o) {i j : Nat} {op op' : WriteOp} (hop : k.writes[i]? = some op)
    (hunfinished : op.succeeded = false) (hop' : k.writes[j]? = some op') (hne : i ≠ j) :
    op'.succeeded = true := by
  by_contra hunfinished'
  exact hne (h.one i j op op' hop hop' hunfinished (Bool.not_eq_true _ ▸ hunfinished'))

/-- What is sent and not whole is what that write sends. -/
theorem sent_of_unfinished (h : Apart k s o) {i : Nat} {op : WriteOp} (hop : k.writes[i]? = some op)
    (hunfinished : op.succeeded = false) :
    ∃ rest, s.begun = s.whole ++ rest ∧ rest.length ≤ 1 ∧ (o → rest = [op.data]) := by
  obtain ⟨rest, hrest, hlen, hopen⟩ := h.sent
  refine ⟨rest, hrest, hlen, fun ho => ?_⟩
  obtain ⟨-, hall⟩ | ⟨op', hop', hunfinished', rfl⟩ := hopen ho
  · rw [hall op (List.mem_of_getElem? hop)] at hunfinished
    cases hunfinished
  · obtain ⟨j, hj⟩ := List.getElem?_of_mem hop'
    obtain rfl := h.one i j op op' hop hj hunfinished hunfinished'
    obtain rfl : op = op' := Option.some.inj (hop.symm.trans hj)
    rfl

/-- **A write succeeds**: the request it sends is whole. -/
theorem succeed (h : Apart k s o) {i : Nat} {op : WriteOp} (hop : k.writes[i]? = some op)
    (hpending : op.result = none) (ho : o) :
    Apart { k with writes := k.writes.modify i fun op => { op with result := some (.ok ()) } }
      { s with whole := s.whole ++ [op.data] } o := by
  have hunfinished : op.succeeded = false := by
    rw [WriteOp.succeeded, hpending]
  have hdone : ∀ (j : Nat) (op' : WriteOp),
      (k.writes.modify i fun op => { op with result := some (.ok ()) })[j]? = some op' →
      op'.succeeded = true := by
    intro j op' hop'
    rw [List.getElem?_modify] at hop'
    obtain ⟨x, hx, hop'⟩ := Option.map_eq_some_iff.mp hop'
    by_cases hij : i = j
    · rw [if_pos hij] at hop'
      rw [← hop']
      rfl
    · rw [if_neg hij] at hop'
      exact hop' ▸ h.others hop hunfinished hx hij
  refine ⟨by simp [h.length], ?_, ?_, ?_⟩
  · intro j _ op' _ hop' _ hunfinished' _
    rw [hdone j op' hop'] at hunfinished'
    cases hunfinished'
  · intro j op' hop' hunfinished'
    rw [hdone j op' hop'] at hunfinished'
    cases hunfinished'
  · obtain ⟨rest, hrest, -, hopen⟩ := h.sent_of_unfinished hop hunfinished
    refine ⟨[], ?_, by simp, fun _ => .inl ⟨rfl, fun op' hop' => ?_⟩⟩
    · rw [hrest, hopen ho, List.append_nil]
    · obtain ⟨j, hj⟩ := List.getElem?_of_mem hop'
      exact hdone j op' hj

/-- **A write fails** while the connection carries the response it belongs to. -/
theorem fail (h : Apart k s o) {i : Nat} {op : WriteOp} (hop : k.writes[i]? = some op)
    (hpending : op.result = none) (hres : k.res ≠ none) (err : Bytes) :
    Apart { k with writes := k.writes.modify i fun op => { op with result := some (.error err) } }
      s o := by
  have hunfinished : op.succeeded = false := by
    rw [WriteOp.succeeded, hpending]
  -- each write was one of the same data that has not succeeded where it has not
  have old : ∀ (j : Nat) (op' : WriteOp),
      (k.writes.modify i fun op => { op with result := some (.error err) })[j]? = some op' →
      op'.succeeded = false → ∃ x, k.writes[j]? = some x ∧ x.succeeded = false := by
    intro j op' hop' hunfinished'
    rw [List.getElem?_modify] at hop'
    obtain ⟨x, hx, hop'⟩ := Option.map_eq_some_iff.mp hop'
    refine ⟨x, hx, ?_⟩
    by_cases hij : i = j
    · subst hij
      obtain rfl : op = x := Option.some.inj (hop.symm.trans hx)
      exact hunfinished
    · rw [if_neg hij] at hop'
      exact hop' ▸ hunfinished'
  refine ⟨by simp [h.length], ?_, ?_, ?_⟩
  · intro j j' op' op'' hop' hop'' hu hu'
    obtain ⟨x, hx, hxu⟩ := old j op' hop' hu
    obtain ⟨y, hy, hyu⟩ := old j' op'' hop'' hu'
    exact h.one j j' x y hx hy hxu hyu
  · intro j op' hop' hu
    obtain ⟨x, hx, hxu⟩ := old j op' hop' hu
    exact .inl ((h.own j x hx hxu).resolve_right fun hnone => hres hnone.2)
  · obtain ⟨rest, hrest, hlen, hopen⟩ := h.sent_of_unfinished hop hunfinished
    refine ⟨rest, hrest, hlen, fun ho => ?_⟩
    refine .inr ⟨{ op with result := some (.error err) }, ?_, rfl, hopen ho⟩
    refine List.mem_of_getElem? (i := i) ?_
    rw [List.getElem?_modify, hop]
    simp

/-- A write whose handler runs is taken off. -/
theorem eraseIdx (h : Apart k s o) {i : Nat} {op : WriteOp} (hop : k.writes[i]? = some op)
    (ho : o' → o ∧ op.succeeded = true) :
    Apart { k with writes := k.writes.eraseIdx i } { s with writers := s.writers.eraseIdx i } o' where
  length := by simp [List.length_eraseIdx, h.length]
  one j j' op' op'' hop' hop'' hu hu' := by
    rw [List.getElem?_eraseIdx] at hop' hop''
    split_ifs at hop' hop'' <;> have := h.one _ _ op' op'' hop' hop'' hu hu' <;> omega
  own j op' hop' hu := by
    rw [List.getElem?_eraseIdx] at hop'
    rw [List.getElem?_eraseIdx]
    split_ifs at hop' ⊢ with hj
    · exact h.own j op' hop' hu
    · exact h.own (j + 1) op' hop' hu
  sent := by
    obtain ⟨rest, hrest, hlen, hopen⟩ := h.sent
    refine ⟨rest, hrest, hlen, fun ho' => ?_⟩
    obtain ⟨ho, hdone⟩ := ho ho'
    obtain ⟨hnil, hall⟩ | ⟨op', hop', hunfinished, hdata⟩ := hopen ho
    · exact .inl ⟨hnil, fun op hop => hall op (List.mem_of_mem_eraseIdx hop)⟩
    · refine .inr ⟨op', ?_, hunfinished, hdata⟩
      obtain ⟨j, hj⟩ := List.getElem?_of_mem hop'
      refine List.mem_eraseIdx_iff_getElem?.mpr ⟨j, ?_, hj⟩
      rintro rfl
      obtain rfl : op = op' := Option.some.inj (hop.symm.trans hj)
      rw [hdone] at hunfinished
      cases hunfinished

theorem weaken (h : Apart k s o) (ho : o' → o) : Apart k s o' := h.kept rfl (.inl rfl) ho

end Apart

/-! ## The step -/

namespace World

variable {w w' : World} {s : ConnId → Sending} {e : Event} {c : ConnId}

/-- The event runs the handler of a failed write of `c`. -/
def handlesFailure (w : World) (c : ConnId) : Event → Prop
  | .runWrite d i _ => d = c ∧ ∃ data err, (w.conns c).writes[i]? = some ⟨data, some (.error err)⟩
  | _ => False

/-- The writes that the handler of an event finds, and their history. -/
theorem apart_before (h : ∀ c, Apart (w.conns c) (s c) ((w.conns c).closed = false))
    (hapart : w.writesApart e = true) (hstep : w.step e = some w') (c : ConnId) :
    Apart ((w.before e).conns c) ((s c).before w e c)
      (((w.before e).conns c).closed = false ∧ ¬ w.handlesFailure c e) := by
  obtain ⟨-, hstep⟩ := step_eq_some hstep
  obtain ⟨hres, hclosed⟩ := w.res_before e c
  have same : ((w.before e).conns c).writes = (w.conns c).writes → Apart ((w.before e).conns c)
      (s c) (((w.before e).conns c).closed = false ∧ ¬ w.handlesFailure c e) :=
    fun hwrites => (h c).kept hwrites (.inl hres) fun ho => hclosed ▸ ho.1
  cases e with
  | writeDone d i result =>
    obtain ⟨op, hop, hpending, hallowed, -⟩ := writeDone_inv hstep
    by_cases hc : c = d
    · subst hc
      simp only [before, conns_modConn_apply, Sending.before, if_true]
      cases result with
      | ok =>
        have hopen : (w.conns c).closed = false := by simpa [allowedResult] using hallowed
        have hdone : Apart _ _ ((w.conns c).closed = false ∧
            ¬ w.handlesFailure c (.writeDone c i (.ok ()))) :=
          ((h c).succeed hop hpending hopen).weaken And.left
        simpa [hop] using hdone
      | error err =>
        have hres : (w.conns c).res ≠ none := by
          simp only [writesApart, Bool.and_eq_true] at hapart
          exact Option.isSome_iff_ne_none.mp hapart.2
        exact ((h c).fail hop hpending hres err).weaken And.left
    · have hother := same (writes_before (by simp [Ne.symm hc]) (by simp))
      cases result with
      | ok =>
        rw [Sending.before, if_neg (Ne.symm hc)]
        exact hother
      | error err => exact hother
  | runWrite d i v =>
    obtain ⟨op, result, hop, hresult, -⟩ := runWrite_inv hstep
    by_cases hc : c = d
    · subst hc
      simp only [before, conns_modConn_apply, Sending.before, if_true]
      refine (h c).eraseIdx hop fun ho => ⟨ho.1, ?_⟩
      obtain ⟨data, done⟩ := op
      obtain rfl : done = some result := hresult
      cases result with
      | ok => rfl
      | error err => exact absurd ⟨rfl, data, err, hop⟩ ho.2
    · rw [Sending.before, if_neg (Ne.symm hc)]
      exact same (writes_before (by simp) (by simp [Ne.symm hc]))
  | _ => exact same (writes_before (by simp) (by simp))

theorem closed_close (w : World) (c : ConnId) : ((w.close c).conns c).closed = true := by
  rcases hcl : (w.conns c).closed with _ | _
  · obtain ⟨valid, he⟩ := w.close_of_open c hcl
    simp [he, Conn.shut]
  · simp [w.close_of_closed c hcl, hcl]

/-- The handler of a failed write closes the connection, which carries a response. -/
theorem closed_of_handlesFailure (h : Apart (w.conns c) (s c) ((w.conns c).closed = false))
    (hfails : w.handlesFailure c e) (hstep : w.step e = some w') :
    (w'.conns c).closed = true ∧ ((w.before e).conns c).res ≠ none ∧ c ∉ w.ends e := by
  obtain ⟨-, hstep⟩ := step_eq_some hstep
  cases e with
  | runWrite d i v =>
    obtain ⟨rfl, data, err, hop⟩ := hfails
    obtain ⟨op, result, hop', hresult, rfl⟩ := runWrite_inv hstep
    obtain rfl : op = ⟨data, some (.error err)⟩ := Option.some.inj (hop'.symm.trans hop)
    obtain rfl : result = .error err := (Option.some.inj hresult).symm
    -- the write has not succeeded, so it is that of the response
    obtain ⟨r, hr⟩ : ∃ r, (w.conns d).res = some r := by
      obtain ⟨hi, -⟩ := List.getElem?_eq_some_iff.mp hop
      obtain hown | ⟨hpending, -⟩ := h.own i _ hop rfl
      · exact ⟨_, hown.trans (List.getElem?_eq_getElem (h.length.symm ▸ hi))⟩
      · cases hpending
    refine ⟨?_, by simp [before, modConn, hr], by simp [ends]⟩
    simp only [finishWrite, modConn, update_self, hr]
    exact closed_close _ _
  | _ => exact absurd hfails id

/-- A step that uses a connection completes no write of it. -/
theorem mem_writes_before (huses : c ∈ w.handsTo e ∨ c ∈ w.ends e) :
    ∀ op ∈ ((w.before e).conns c).writes, op ∈ (w.conns c).writes := by
  cases e with
  | writeDone d i result => simp [handsTo, ends] at huses
  | runWrite d i v =>
    simp only [before, conns_modConn_apply]
    split
    · exact fun op hop => List.mem_of_mem_eraseIdx hop
    · exact fun op hop => hop
  | _ =>
    rw [writes_before (by simp) (by simp)]
    exact fun op hop => hop

/-- **The step** keeps the writes apart. -/
theorem apart_step (hw : Steady w) (h : ∀ c, Apart (w.conns c) (s c) ((w.conns c).closed = false))
    (hapart : w.writesApart e = true) (hstep : w.step e = some w') (c : ConnId) :
    Apart (w'.conns c) (w.recordWrites e w' s c) ((w'.conns c).closed = false) := by
  have hbefore := apart_before h hapart hstep c
  have hfails := fun hf => closed_of_handlesFailure (h c) hf hstep
  have hlog : (w.before e).log = w.log := by cases e <;> rfl
  simp only [writesApart, Bool.and_eq_true, List.all_eq_true, Bool.not_eq_true'] at hapart
  obtain ⟨⟨hgives, hends⟩, -⟩ := hapart
  -- the writes that the handler finds were there before
  have hmem : c ∈ w.handsTo e ∨ c ∈ w.ends e →
      ∀ op ∈ ((w.before e).conns c).writes, op ∈ (w.conns c).writes :=
    fun huses => mem_writes_before huses
  have hwritten := (step_effects hw hstep c).written
  simp only [side, hlog] at hwritten
  simp only [recordWrites]
  generalize (w.before e).conns c = k at *
  generalize (s c).before w e c = t at *
  cases hwritten with
  | kept hwrites hsame hclosed hres =>
    dsimp only at hwrites hsame hclosed hres
    simp only [hsame, hwrites, hbefore.length, List.drop_length, List.append_nil, List.map_nil,
      ite_self]
    refine hbefore.kept hwrites (hres.imp id fun hend => ⟨fun op hop => ?_, hend.2⟩) fun hopen => ?_
    · exact hends c hend.1 op (hmem (.inr hend.1) op hop)
    · rw [← Bool.not_eq_true] at hopen ⊢
      exact ⟨fun hc => hopen (hclosed hc), fun hf => hopen (hfails hf).1⟩
  | given hg r data hwrites hsame hclosed hthen hfree hres =>
    dsimp only at hwrites hsame hclosed hthen hfree hres
    have hnofail : ¬ w.handlesFailure c e := fun hf =>
      hfree.elim (hfails hf).2.1 (hfails hf).2.2
    have hdone : ∀ op ∈ k.writes, op.succeeded = true := by
      intro op hop
      by_contra hunfinished
      rw [Bool.not_eq_true] at hunfinished
      obtain ⟨i, hi⟩ := List.getElem?_of_mem hop
      have hcomplete := hgives c hg op (hmem (.inl hg) op hop)
      obtain hown | ⟨hpending, -⟩ := hbefore.own i op hi hunfinished
      · obtain hnone | hend := hfree
        · obtain ⟨hlt, -⟩ := List.getElem?_eq_some_iff.mp hi
          rw [hnone, List.getElem?_eq_getElem (hbefore.length.symm ▸ hlt)] at hown
          cases hown
        · have hfailed := hends c hend op (hmem (.inr hend) op hop)
          simp [WriteOp.failed, hcomplete, hunfinished] at hfailed
      · rw [hcomplete] at hpending
        cases hpending
    simp only [hsame, hwrites, hbefore.length, List.drop_left]
    refine hbefore.given hdone hwrites hres ?_
    cases hthen' : (w'.conns c).closedThen with
    | true => exact .inl ⟨by simp, by simp [hthen hthen']⟩
    | false =>
      refine .inr ⟨by simp, ?_, hnofail⟩
      rw [← Bool.not_eq_true] at hthen' ⊢
      exact fun hc => hthen' (hclosed hc)

end World

/-- Writes that are kept apart are one at a time. -/
theorem OneWriter.of_apart {w : World} {s : ConnId → Sending}
    (h : ∀ c, Apart (w.conns c) (s c) ((w.conns c).closed = false)) : OneWriter w s where
  outstanding c i j op op' hop hop' hpending hpending' := by
    refine (h c).one i j op op' hop hop' ?_ ?_
    · rw [WriteOp.succeeded, hpending]
    · rw [WriteOp.succeeded, hpending']
  sent c := by
    obtain ⟨rest, hrest, hlen, -⟩ := (h c).sent
    exact ⟨rest, hrest, hlen⟩
  reported c i op err v hop hresult hrunning := by
    obtain ⟨data, done⟩ := op
    obtain rfl : done = some (.error err) := hresult
    obtain ⟨hi, -⟩ := List.getElem?_eq_some_iff.mp hop
    obtain hown | ⟨hpending, -⟩ := (h c).own i _ hop rfl
    · have hwriter := List.getElem?_eq_getElem ((h c).length.symm ▸ hi)
      refine ⟨_, hwriter, ?_⟩
      simp [World.step, hrunning, World.apply, hop, World.finishWrite, World.modConn,
        hown.trans hwriter]
    · cases hpending

/-- **A connection writes one request at a time**, in every run whose steps keep its
writes and its response apart. -/
theorem oneWriter_of_run {eraseEnd : List (Option FutId) → List (Option FutId)} {tls limit : Bool}
    {max : Nat} {w : World} {s : ConnId → Sending}
    (run : Run (recorded World.step World.recordWrites) (fun x e => x.1.writesApart e = true)
      (World.init eraseEnd tls limit max, fun _ => {}) (w, s)) : OneWriter w s := by
  obtain ⟨-, hapart⟩ := run.invariant_recorded (P := Steady)
    (Q := fun w s => ∀ c, Apart (w.conns c) (s c) ((w.conns c).closed = false))
    ⟨Steady.init eraseEnd tls limit max, fun _ => ⟨rfl, by simp [World.init], by simp [World.init],
      [], rfl, by simp, fun _ => .inl ⟨rfl, by simp [World.init]⟩⟩⟩
    (fun hw hstep => hw.step hstep) World.apart_step
  exact .of_apart hapart

/-- The response has been read before the write of its request has completed; the write
succeeds, and the connection gets another request, whose write fails. -/
def patientPool : List Event :=
  [.request getRequest 30000] ++ connects 0 ++
    [.receive 0 0 shortResponse, .runRead 0 0 .accept, .runRead 0 0 .accept, .runRead 0 0 .accept,
      .writeDone 0 0 (.ok ()), .runWrite 0 0 .accept, .request getRequest 30000,
      .writeDone 0 0 (.error (ascii "Broken pipe"))]

/-- An early answer does no harm where its connection is left alone until the write has
succeeded. -/
theorem oneWriter_patientPool :
    ∃ w s, exec (guarded (recorded World.step World.recordWrites)
        fun x e => x.1.writesApart e = true) (World.init id false true 1, fun _ => {})
        patientPool = some (w, s) ∧
      ((s 0).begun, (s 0).whole) = ([getRequest.bytes, getRequest.bytes], [getRequest.bytes]) ∧
      OneWriter w s := by
  have hvals : (exec (guarded (recorded World.step World.recordWrites)
      fun x e => x.1.writesApart e = true) (World.init id false true 1, fun _ => {})
      patientPool).map (fun x => ((x.2 0).begun, (x.2 0).whole)) =
      some ([getRequest.bytes, getRequest.bytes], [getRequest.bytes]) := by decide
  obtain ⟨⟨w, s⟩, hw, hvals⟩ := Option.map_eq_some_iff.mp hvals
  exact ⟨w, s, hw, hvals, oneWriter_of_run (Run.of_guarded patientPool hw)⟩

/-- The server answers the first of two requests in full while it is being written. -/
def earlyAnswer : List Event :=
  [.request getRequest 30000, .request getRequest 30000] ++ connects 0 ++
    [.receive 0 0 shortResponse, .runRead 0 0 .accept, .runRead 0 0 .accept, .runRead 0 0 .accept]

/-- The first write fails. -/
def brokenWrite : List Event :=
  [.writeDone 0 0 (.error (ascii "Broken pipe")), .runWrite 0 0 .accept]

/-- **Two writes are outstanding on one connection**, and when the first fails, it is the
second response that is told. -/
theorem earlyAnswer_overlaps :
    ∃ w s, exec (recorded World.step World.recordWrites) (World.init id false true 1, fun _ => {})
        earlyAnswer = some (w, s) ∧
      ((w.conns 0).writes.map (·.outstanding), (s 0).writers) = ([true, true], [0, 1]) ∧
      (exec World.step w brokenWrite).map (·.completions.completion 1) =
        some (some (.failed (ascii "Broken pipe"))) ∧
      ¬ OneWriter w s := by
  have hvals : (exec (recorded World.step World.recordWrites)
      (World.init id false true 1, fun _ => {}) earlyAnswer).map
      (fun x => (((x.1.conns 0).writes.map (·.outstanding), (x.2 0).writers),
        (exec World.step x.1 brokenWrite).map (·.completions.completion 1))) =
      some (([true, true], [0, 1]), some (some (.failed (ascii "Broken pipe")))) := by decide
  obtain ⟨⟨w, s⟩, hw, hvals⟩ := Option.map_eq_some_iff.mp hvals
  obtain ⟨hwrites, hfailed⟩ := Prod.mk.inj hvals
  refine ⟨w, s, hw, hwrites, hfailed, fun h => ?_⟩
  have pending : ∀ i < 2, ∃ op, (w.conns 0).writes[i]? = some op ∧ op.result = none := by
    intro i hi
    have hi : ((w.conns 0).writes.map (·.outstanding))[i]? = some true := by
      rw [(Prod.mk.inj hwrites).1]
      match i, hi with
      | 0, _ => rfl
      | 1, _ => rfl
    rw [List.getElem?_map] at hi
    obtain ⟨op, hop, hpending⟩ := Option.map_eq_some_iff.mp hi
    exact ⟨op, hop, Option.isNone_iff_eq_none.mp hpending⟩
  obtain ⟨op, hop, hpending⟩ := pending 0 (by decide)
  obtain ⟨op', hop', hpending'⟩ := pending 1 (by decide)
  exact absurd (h.outstanding 0 0 1 op op' hop hop' hpending hpending') (by decide)

/-! ## Early answers -/

/-- The response that ends is that of a request that has been written. -/
def World.unhurried (w : World) (e : Event) : Bool :=
  (w.ends e).all fun c => (w.conns c).writes.all (·.succeeded)

/-- Where no response is due, every request has been written. -/
def IdleWritten (w : World) : Prop :=
  ∀ c, (w.conns c).res = none → ∀ op ∈ (w.conns c).writes, op.succeeded = true

namespace IdleWritten

variable {w w' : World} {e : Event} {c : ConnId}

/-- A connection that a step gives to a request carries no response, or one that ends. -/
theorem res_of_handsTo (hx : Exclusive w) (hstep : w.step e = some w') (hc : c ∈ w.handsTo e) :
    (w.conns c).res = none ∨ c ∈ w.ends e := by
  obtain ⟨-, hstep⟩ := World.step_eq_some hstep
  have next : w.nextAvailable = some c → (w.conns c).res = none := fun h =>
    ((hx.conn c).idle (.inl (List.mem_of_find?_eq_some h))).1
  have retry : ∀ v, c ∈ w.retried v → (w.conns c).res = none := by
    intro v hv
    cases v with
    | retry => exact next (Option.mem_toList.mp hv)
    | accept => cases hv
    | throw what => cases hv
  cases e with
  | request q stall => exact .inl (next (Option.mem_toList.mp hc))
  | release d =>
    obtain ⟨hheld, -⟩ := World.release_inv hstep
    simp only [World.handsTo] at hc
    split at hc
    · obtain rfl := List.mem_singleton.mp hc
      exact .inl ((hx.conn c).idle (.inr hheld)).1
    · cases hc
  | runSetup d =>
    obtain ⟨stage, result, hs, -⟩ := World.runSetup_inv hstep
    have hd : c = d := by
      simp only [World.handsTo, hs] at hc
      split at hc
      · cases hc
      · exact List.mem_singleton.mp hc
      · cases hc
    subst hd
    have hopening := ((hx.conn c).setup (by simp [hs])).1
    exact .inl ((hx.conn c).opening hopening).1
  | runRead d i v =>
    obtain hretried | hends := List.mem_append.mp hc
    · exact .inl (retry v hretried)
    · split at hends
      · rename_i h
        obtain rfl := List.mem_singleton.mp hends
        exact .inr h.1
      · cases hends
  | runWrite d i v => exact .inl (retry v hc)
  | runWait d i v => exact .inl (retry v hc)
  | _ => cases hc

/-- The writes are kept apart. -/
theorem writesApart (h : IdleWritten w) (hx : Exclusive w) (hok : w.unhurried e = true)
    (hstep : w.step e = some w') : w.writesApart e = true := by
  have hends : ∀ c ∈ w.ends e, ∀ op ∈ (w.conns c).writes, op.succeeded = true := by
    simpa [World.unhurried] using hok
  have complete : ∀ {op : WriteOp}, op.succeeded = true → op.outstanding = false := by
    rintro ⟨data, _ | result⟩ hop
    · cases hop
    · rfl
  unfold World.writesApart
  rw [Bool.and_eq_true, Bool.and_eq_true]
  refine ⟨⟨?_, ?_⟩, ?_⟩
  · rw [List.all_eq_true]
    intro c hc
    rw [List.all_eq_true]
    intro op hop
    have hdone : op.succeeded = true := by
      obtain hnone | hend := res_of_handsTo hx hstep hc
      · exact h c hnone op hop
      · exact hends c hend op hop
    rw [complete hdone]
    rfl
  · rw [List.all_eq_true]
    intro c hc
    rw [List.all_eq_true]
    intro op hop
    simp [WriteOp.failed, hends c hc op hop]
  · split
    · rename_i c i err
      obtain ⟨op, hop, hpending, -⟩ := World.writeDone_inv (World.step_eq_some hstep).2
      rw [Option.isSome_iff_ne_none]
      intro hnone
      have hdone := h c hnone op (List.mem_of_getElem? hop)
      rw [WriteOp.succeeded, hpending] at hdone
      cases hdone
    · rfl

/-- A write of a connection without a response has succeeded, so none completes. -/
theorem before (h : IdleWritten w) (hstep : w.step e = some w')
    (hnone : ((w.before e).conns c).res = none) :
    ∀ op ∈ ((w.before e).conns c).writes, op.succeeded = true := by
  obtain ⟨-, hstep⟩ := World.step_eq_some hstep
  rw [(w.res_before e c).1] at hnone
  cases e with
  | writeDone d i result =>
    obtain ⟨op, hop, hpending, -⟩ := World.writeDone_inv hstep
    simp only [World.before, World.conns_modConn_apply]
    split
    · rename_i hd
      have hdone := h c hnone op (List.mem_of_getElem? (hd ▸ hop))
      rw [WriteOp.succeeded, hpending] at hdone
      cases hdone
    · exact h c hnone
  | runWrite d i v =>
    simp only [World.before, World.conns_modConn_apply]
    split
    · exact fun op hop => h c hnone op (List.mem_of_mem_eraseIdx hop)
    · exact h c hnone
  | _ =>
    rw [World.writes_before (by simp) (by simp)]
    exact h c hnone

theorem step (h : IdleWritten w) (hw : Steady w) (hok : w.unhurried e = true)
    (hstep : w.step e = some w') : IdleWritten w' := by
  have hends : ∀ c ∈ w.ends e, ∀ op ∈ (w.conns c).writes, op.succeeded = true := by
    simpa [World.unhurried] using hok
  intro c hnone op hop
  cases (World.step_effects hw hstep c).written with
  | kept hwrites _ _ hres =>
    have hop : op ∈ ((w.before e).conns c).writes := hwrites ▸ hop
    obtain hres | ⟨hend, -⟩ := hres
    · exact h.before hstep (hres.symm.trans hnone) op hop
    · exact hends c hend op (World.mem_writes_before (.inr hend) op hop)
  | given _ r _ _ _ _ _ _ hres => cases hres.symm.trans hnone

end IdleWritten

/-- **Only early answers can break it**: where each response ends behind the write of its
request, the writes and the responses are kept apart. -/
theorem writesApart_of_unhurried {eraseEnd : List (Option FutId) → List (Option FutId)}
    {tls limit : Bool} {max : Nat} {x : World × (ConnId → Sending)}
    (run : Run (recorded World.step World.recordWrites) (fun x e => x.1.unhurried e = true)
      (World.init eraseEnd tls limit max, fun _ => {}) x) :
    Run (recorded World.step World.recordWrites) (fun x e => x.1.writesApart e = true)
      (World.init eraseEnd tls limit max, fun _ => {}) x := by
  refine run.mono_of_invariant (P := fun x => Steady x.1 ∧ IdleWritten x.1)
    ⟨Steady.init eraseEnd tls limit max, by simp [IdleWritten, World.init]⟩ ?_ ?_
  · rintro ⟨w, s⟩ x e ⟨hw, h⟩ hok hstep
    obtain ⟨w', hw', rfl⟩ := Option.map_eq_some_iff.mp hstep
    exact ⟨hw.step hw', h.step hw hok hw'⟩
  · rintro ⟨w, s⟩ x e ⟨hw, h⟩ hok hstep
    obtain ⟨w', hw', rfl⟩ := Option.map_eq_some_iff.mp hstep
    exact h.writesApart hw.exclusive hok hw'

end AsioProtocols
