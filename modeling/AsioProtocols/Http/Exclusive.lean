import AsioProtocols.Http.Events
import AsioProtocols.Http.Handlers

/-!
# Exclusive use of a connection

A connection is handed to one request at a time: whenever a future is done with
it, every request written to it before has had its response read to the end
(`ExclusiveUse`). The history says what was written and what was read: `unread
c` follows the `assigned` and `finished` notes of connection `c`.

The invariant is `Exclusive`. It ties the pool to the connections: those
in `available_` and those that callers hold are pairwise distinct and carry no
response, one that is being established carries none and is in neither place,
every connection has at most one read outstanding, and a queued request has a
pending future with one callback. `Free c` is what a connection satisfies at the
moment it is handed on or released; each function that hands on a connection
is shown to preserve `Exclusive` where the connection is `Free`.
-/

namespace AsioProtocols

open Function

/-! ## The property -/

/-- What one note does to the response that connection `c` still has to read. -/
def unreadAfter (c : ConnId) (res : Option RespId) : Note → Option RespId
  | .assigned d r _ _ => if d = c then some r else res
  | .finished d _ => if d = c then none else res
  | _ => res

/-- The response written to `c` last and not read to its end. -/
def unread (c : ConnId) (log : List Note) : Option RespId := log.foldl (unreadAfter c) none

theorem unread_append (c : ConnId) (log : List Note) (n : Note) :
    unread c (log ++ [n]) = unreadAfter c (unread c log) n := by
  simp [unread]

/-- **Exclusive use.** One read chain for each connection, one place in
`available_`, no hand-over of a connection that still has a response to read, no
`res_` overwritten by `write_request`. A response counts as read to its end when
`extract_next_body_chunk` has run for it, which is where `res_` is reset. -/
structure ExclusiveUse (w : World) : Prop where
  oneRead : ∀ c, (w.conns c).reads.length ≤ 1
  availableOnce : ∀ c, w.pool.available.count c ≤ 1
  handedRead : ∀ log c res closed, log ++ [Note.handed c res closed] <+: w.log →
    unread c log = none
  nothingOverwritten : ∀ c r a res, Note.assigned c r a res ∈ w.log → res = none

/-! ## The invariant -/

/-- What the pool's futures look like between two operations. -/
structure Queues (p : Pool) (nresponses : Nat) : Prop where
  nodup : p.next_.Nodup
  pending : ∀ q ∈ p.next_, q < p.nqueued ∧ (p.queued q).outcome = none
  queuedOne : ∀ q, (p.queued q).tasks.length ≤ 1
  openedOne : ∀ f, (p.opened f).tasks.length ≤ 1
  queuedKnown : ∀ q r, .writeRequest r ∈ (p.queued q).tasks → r < nresponses
  openedKnown : ∀ f r, .client (.writeRequest r) ∈ (p.opened f).tasks → r < nresponses

/-- What holds of the record `k` of connection `c`. -/
structure ConnInv (w : World) (c : ConnId) (k : Conn) : Prop where
  oneRead : k.reads.length ≤ 1
  between : k.res = none → ∀ op ∈ k.reads, op.point = .status
  known : ∀ r, k.res = some r → r < w.completions.nresponses
  unread : unread c w.log = k.res
  idle : c ∈ w.pool.available ∨ c ∈ w.held → k.res = none ∧ (w.pool.opened c).outcome ≠ none
  opening : (w.pool.opened c).outcome = none →
    k.res = none ∧ k.attempt = none ∧ k.writes = []
  setup : k.setup ≠ none → (w.pool.opened c).outcome = none ∧ k.reads = []

/-- **The invariant of the connections and their pool.** -/
structure Exclusive (w : World) : Prop where
  queues : Queues w.pool w.completions.nresponses
  callbacksKnown : ∀ a t, t ∈ (w.completions.attempts a).tasks → t.1 < w.completions.nresponses
  fresh : ∀ c, w.pool.created ≤ c → w.conns c = {} ∧ w.pool.opened c = {}
  conn : ∀ c, ConnInv w c (w.conns c)
  idleNodup : (w.pool.available ++ w.held).Nodup
  handedRead : ∀ log c res closed, log ++ [Note.handed c res closed] <+: w.log →
    AsioProtocols.unread c log = none
  nothingOverwritten : ∀ c r a res, Note.assigned c r a res ∈ w.log → res = none

/-- Connection `c` is in nobody's hands. -/
structure Free (w : World) (c : ConnId) : Prop where
  opened : (w.pool.opened c).outcome ≠ none
  res : (w.conns c).res = none
  notAvailable : c ∉ w.pool.available
  notHeld : c ∉ w.held

namespace Queues

variable {p : Pool} {n : Nat}

/-- The front request leaves the queue with its future done. -/
theorem pop (h : Queues p n) {q : QueueId} {rest : List QueueId} (hn : p.next_ = q :: rest)
    (c : ConnId) :
    Queues { p with
      next_ := rest
      queued := update p.queued q { outcome := some (.done c), tasks := [] } } n where
  nodup := by
    have := h.nodup
    rw [hn, List.nodup_cons] at this
    exact this.2
  pending q' hq' := by
    have hne : q' ≠ q := by
      rintro rfl
      have := h.nodup
      rw [hn, List.nodup_cons] at this
      exact this.1 hq'
    show _ ∧ (update p.queued q _ q').outcome = none
    rw [update_of_ne hne]
    exact h.pending q' (by rw [hn]; exact List.mem_cons_of_mem _ hq')
  queuedOne q' := by
    show (update p.queued q _ q').tasks.length ≤ 1
    rcases eq_or_ne q' q with rfl | hne
    · simp
    · rw [update_of_ne hne]
      exact h.queuedOne q'
  openedOne := h.openedOne
  queuedKnown q' r hr := by
    change _ ∈ (update p.queued q _ q').tasks at hr
    rcases eq_or_ne q' q with rfl | hne
    · simp at hr
    · rw [update_of_ne hne] at hr
      exact h.queuedKnown q' r hr
  openedKnown := h.openedKnown

/-- A request queues, with its callback. -/
theorem enqueue (h : Queues p n) {t : ClientTask} (ht : ∀ r, t = .writeRequest r → r < n) :
    Queues { p with
      available := []
      next_ := p.next_ ++ [p.nqueued]
      nqueued := p.nqueued + 1
      queued := update p.queued p.nqueued { tasks := [t] } } n where
  nodup := by
    rw [List.nodup_append]
    refine ⟨h.nodup, List.nodup_singleton _, ?_⟩
    rintro q hq q' hq' rfl
    obtain rfl := List.mem_singleton.mp hq'
    exact Nat.lt_irrefl _ (h.pending _ hq).1
  pending q hq := by
    show _ ∧ (update p.queued p.nqueued _ q).outcome = none
    rcases List.mem_append.mp hq with hq | hq
    · obtain ⟨hlt, hp⟩ := h.pending q hq
      rw [update_of_ne (Nat.ne_of_lt hlt)]
      exact ⟨Nat.lt_succ_of_lt hlt, hp⟩
    · obtain rfl := List.mem_singleton.mp hq
      simp
  queuedOne q := by
    show (update p.queued p.nqueued _ q).tasks.length ≤ 1
    rcases eq_or_ne q p.nqueued with rfl | hne
    · simp
    · rw [update_of_ne hne]
      exact h.queuedOne q
  openedOne := h.openedOne
  queuedKnown q r hr := by
    change _ ∈ (update p.queued p.nqueued _ q).tasks at hr
    rcases eq_or_ne q p.nqueued with rfl | hne
    · rw [update_self] at hr
      exact ht r (List.mem_singleton.mp hr).symm
    · rw [update_of_ne hne] at hr
      exact h.queuedKnown q r hr
  openedKnown := h.openedKnown

/-- The queues and the futures of queued requests stay; the future `f` of a
connection gets new callbacks. -/
theorem setOpened (h : Queues p n) {p' : Pool} (f : FutId) (fut : Future ConnId OpenTask)
    (hone : fut.tasks.length ≤ 1)
    (hknown : ∀ r, .client (.writeRequest r) ∈ fut.tasks → r < n)
    (hnext : p'.next_ = p.next_) (hqueued : p'.queued = p.queued)
    (hnqueued : p'.nqueued = p.nqueued) (hopened : p'.opened = update p.opened f fut) :
    Queues p' n where
  nodup := hnext ▸ h.nodup
  pending := by
    rw [hnext, hqueued, hnqueued]
    exact h.pending
  queuedOne := hqueued ▸ h.queuedOne
  openedOne g := by
    rw [hopened]
    rcases eq_or_ne g f with rfl | hne
    · rw [update_self]
      exact hone
    · rw [update_of_ne hne]
      exact h.openedOne g
  queuedKnown := hqueued ▸ h.queuedKnown
  openedKnown g r hr := by
    rw [hopened] at hr
    rcases eq_or_ne g f with rfl | hne
    · rw [update_self] at hr
      exact hknown r hr
    · rw [update_of_ne hne] at hr
      exact h.openedKnown g r hr

theorem mono (h : Queues p n) {n' : Nat} (hn : n ≤ n') : Queues p n' :=
  ⟨h.nodup, h.pending, h.queuedOne, h.openedOne,
    fun q r hr => Nat.lt_of_lt_of_le (h.queuedKnown q r hr) hn,
    fun f r hr => Nat.lt_of_lt_of_le (h.openedKnown f r hr) hn⟩

/-- Nothing that matters to the queues changes. -/
theorem of_eq (h : Queues p n) {p' : Pool} (hnext : p'.next_ = p.next_)
    (hqueued : p'.queued = p.queued) (hnqueued : p'.nqueued = p.nqueued)
    (hopened : p'.opened = p.opened) : Queues p' n :=
  h.setOpened 0 (p.opened 0) (h.openedOne 0) (h.openedKnown 0) hnext hqueued hnqueued
    (by rw [hopened, update_eq_self])

end Queues

namespace Exclusive

variable {w : World} {c : ConnId}

theorem exclusiveUse (h : Exclusive w) : ExclusiveUse w where
  oneRead c := (h.conn c).oneRead
  availableOnce c := List.nodup_iff_count_le_one.mp (List.nodup_append.mp h.idleNodup).1 c
  handedRead := h.handedRead
  nothingOverwritten := h.nothingOverwritten

/-- A connection that differs from a fresh one has been made. -/
theorem created_of_ne (h : Exclusive w) (hne : w.conns c ≠ {}) : c < w.pool.created := by
  by_contra hc
  exact hne (h.fresh c (Nat.not_lt.mp hc)).1

theorem created_of_opened (h : Exclusive w) (ho : (w.pool.opened c).outcome ≠ none) :
    c < w.pool.created := by
  by_contra hc
  rw [(h.fresh c (Nat.not_lt.mp hc)).2] at ho
  exact ho rfl

theorem created_of_res (h : Exclusive w) {r : RespId} (hr : (w.conns c).res = some r) :
    c < w.pool.created := by
  refine h.created_of_ne fun he => ?_
  rw [he] at hr
  cases hr

theorem created_of_reads (h : Exclusive w) {i : Nat} {op : ReadOp}
    (ho : (w.conns c).reads[i]? = some op) : c < w.pool.created := by
  refine h.created_of_ne fun he => ?_
  rw [he] at ho
  simp at ho

theorem created_of_writes (h : Exclusive w) {i : Nat} {op : WriteOp}
    (ho : (w.conns c).writes[i]? = some op) : c < w.pool.created := by
  refine h.created_of_ne fun he => ?_
  rw [he] at ho
  simp at ho

theorem created_of_waits (h : Exclusive w) {i : Nat} {t : Wait}
    (ht : (w.conns c).waits[i]? = some t) : c < w.pool.created := by
  refine h.created_of_ne fun he => ?_
  rw [he] at ht
  simp at ht

theorem created_of_setup (h : Exclusive w) {stage : Stage} {result : Except Bytes Unit}
    (hs : (w.conns c).setup = some ⟨stage, some result⟩) : c < w.pool.created := by
  refine h.created_of_ne fun he => ?_
  rw [he] at hs
  cases hs

/-- A connection that carries a response is established. -/
theorem opened_of_res (h : Exclusive w) {r : RespId} (hr : (w.conns c).res = some r) :
    (w.pool.opened c).outcome ≠ none := by
  intro ho
  rw [((h.conn c).opening ho).1] at hr
  cases hr

theorem setup_of_res (h : Exclusive w) {r : RespId} (hr : (w.conns c).res = some r) :
    (w.conns c).setup = none := by
  by_contra hs
  exact h.opened_of_res hr ((h.conn c).setup hs).1

/-- A connection that carries a response is nobody else's. -/
theorem not_idle_of_res (h : Exclusive w) {r : RespId} (hr : (w.conns c).res = some r) :
    c ∉ w.pool.available ∧ c ∉ w.held := by
  constructor <;> intro hm
  · rw [((h.conn c).idle (.inl hm)).1] at hr
    cases hr
  · rw [((h.conn c).idle (.inr hm)).1] at hr
    cases hr

/-! ## Changes that touch one connection only -/

/-- A new record for `c` that satisfies what holds of records. -/
theorem update (h : Exclusive w) (hc : c < w.pool.created) {k : Conn} (hk : ConnInv w c k) :
    Exclusive { w with conns := Function.update w.conns c k } where
  queues := h.queues
  callbacksKnown := h.callbacksKnown
  fresh d hd := by
    have hne : d ≠ c := fun he => absurd hc (Nat.not_lt.mpr (he ▸ hd))
    show Function.update w.conns c k d = {} ∧ _
    rw [update_of_ne hne]
    exact h.fresh d hd
  conn d := by
    show ConnInv _ d (Function.update w.conns c k d)
    rcases eq_or_ne d c with rfl | hne
    · rw [update_self]
      exact ⟨hk.oneRead, hk.between, hk.known, hk.unread, hk.idle, hk.opening, hk.setup⟩
    · rw [update_of_ne hne]
      have hd := h.conn d
      exact ⟨hd.oneRead, hd.between, hd.known, hd.unread, hd.idle, hd.opening, hd.setup⟩
  idleNodup := h.idleNodup
  handedRead := h.handedRead
  nothingOverwritten := h.nothingOverwritten

/-- The timer, the parser state, the flags and (once there are any) the writes
of a connection are its own business. -/
theorem inner (h : Exclusive w) (hc : c < w.pool.created) {k : Conn}
    (hres : k.res = (w.conns c).res) (hattempt : k.attempt = (w.conns c).attempt)
    (hsetup : k.setup ≠ none → (w.conns c).setup ≠ none) (hreads : k.reads = (w.conns c).reads)
    (hwrites : (w.conns c).writes = [] → k.writes = []) :
    Exclusive { w with conns := Function.update w.conns c k } := by
  have hd := h.conn c
  refine h.update hc ⟨hreads ▸ hd.oneRead, ?_, hres ▸ hd.known, hres ▸ hd.unread, hres ▸ hd.idle,
    ?_, ?_⟩
  · rw [hres, hreads]
    exact hd.between
  · intro ho
    obtain ⟨h₁, h₂, h₃⟩ := hd.opening ho
    exact ⟨hres.trans h₁, hattempt.trans h₂, hwrites h₃⟩
  · intro hs
    rw [hreads]
    exact hd.setup (hsetup hs)

/-- A read starts on a connection that has none outstanding. -/
theorem addRead (h : Exclusive w) (hc : c < w.pool.created) (hreads : (w.conns c).reads = [])
    (hsetup : (w.conns c).setup = none) (op : ReadOp)
    (hpoint : (w.conns c).res = none → op.point = .status) :
    Exclusive (w.modConn c fun k => { k with reads := k.reads ++ [op] }) := by
  have hd := h.conn c
  refine h.update hc ⟨by simp [hreads], ?_, hd.known, hd.unread, hd.idle, hd.opening,
    fun hs => absurd hsetup hs⟩
  intro hres op' hop
  have hop : op' ∈ (w.conns c).reads ++ [op] := hop
  rw [hreads, List.nil_append, List.mem_singleton] at hop
  exact hop ▸ hpoint hres

/-- One more note: what was handed out before it is still in order. -/
theorem handedRead_append (h : Exclusive w) {n : Note}
    (hnew : ∀ d res closed, n = .handed d res closed → AsioProtocols.unread d w.log = none)
    (log : List Note) (d : ConnId) (res : Option RespId) (closed : Bool)
    (hp : log ++ [.handed d res closed] <+: w.log ++ [n]) : AsioProtocols.unread d log = none := by
  rcases List.prefix_concat_iff.mp hp with he | hp
  · obtain ⟨rfl, hnote⟩ := List.append_inj' he rfl
    exact hnew d res closed (List.cons.inj hnote).1.symm
  · exact h.handedRead log d res closed hp

/-- One more note: no assignment before it overwrites anything. -/
theorem nothingOverwritten_append (h : Exclusive w) {n : Note}
    (hnew : ∀ d r a res, n = .assigned d r a res → res = none) (d : ConnId) (r : RespId)
    (a : AttemptId) (res : Option RespId) (hm : .assigned d r a res ∈ w.log ++ [n]) :
    res = none := by
  rcases List.mem_append.mp hm with hm | hm
  · exact h.nothingOverwritten d r a res hm
  · exact hnew d r a res (List.mem_singleton.mp hm).symm

/-- Notes that say nothing about who carries what. -/
theorem noted (h : Exclusive w) {n : Note} (hn : ∀ d res, unreadAfter d res n = res)
    (hh : ∀ d res closed, n ≠ .handed d res closed) :
    Exclusive { w with log := w.log ++ [n] } where
  queues := h.queues
  callbacksKnown := h.callbacksKnown
  fresh := h.fresh
  conn d := by
    have hd := h.conn d
    refine ⟨hd.oneRead, hd.between, hd.known, ?_, hd.idle, hd.opening, hd.setup⟩
    show AsioProtocols.unread d (w.log ++ [n]) = _
    rw [unread_append, hn]
    exact hd.unread
  idleNodup := h.idleNodup
  handedRead := h.handedRead_append fun d res closed he => absurd he (hh d res closed)
  nothingOverwritten := h.nothingOverwritten_append fun d r a res he => by
    have hunread := hn d none
    simp [he, unreadAfter] at hunread

/-! ## Handing out -/

theorem noteHanded (h : Exclusive w) (hres : (w.conns c).res = none) (res : Option RespId)
    (closed : Bool) : Exclusive (w.note (.handed c res closed)) where
  queues := h.queues
  callbacksKnown := h.callbacksKnown
  fresh := h.fresh
  conn d := by
    have hd := h.conn d
    refine ⟨hd.oneRead, hd.between, hd.known, ?_, hd.idle, hd.opening, hd.setup⟩
    show AsioProtocols.unread d (w.log ++ [_]) = _
    rw [unread_append]
    exact hd.unread
  idleNodup := h.idleNodup
  handedRead := h.handedRead_append fun d res' closed' he => by
    cases he
    exact (h.conn c).unread.trans hres
  nothingOverwritten := h.nothingOverwritten_append nofun

/-- A free connection goes to a caller that keeps it. -/
theorem hold (h : Exclusive w) (hfree : Free w c) :
    Exclusive { w with held := w.held ++ [c] } where
  queues := h.queues
  callbacksKnown := h.callbacksKnown
  fresh := h.fresh
  conn d := by
    have hd := h.conn d
    refine ⟨hd.oneRead, hd.between, hd.known, hd.unread, ?_, hd.opening, hd.setup⟩
    intro hm
    rcases eq_or_ne d c with rfl | hne
    · exact ⟨hfree.res, hfree.opened⟩
    · apply hd.idle
      rcases hm with hm | hm
      · exact .inl hm
      · rcases List.mem_append.mp hm with hm | hm
        · exact .inr hm
        · exact absurd (List.mem_singleton.mp hm) hne
  idleNodup := by
    show (w.pool.available ++ (w.held ++ [c])).Nodup
    rw [← List.append_assoc, List.nodup_append]
    refine ⟨h.idleNodup, List.nodup_singleton c, ?_⟩
    rintro d hd e he rfl
    obtain rfl := List.mem_singleton.mp he
    rcases List.mem_append.mp hd with hd | hd
    · exact hfree.notAvailable hd
    · exact hfree.notHeld hd
  handedRead := h.handedRead
  nothingOverwritten := h.nothingOverwritten

/-- `write_request` on a free connection. -/
theorem assign (h : Exclusive w) (hfree : Free w c) {r : RespId}
    (hr : r < w.completions.nresponses) (a : AttemptId) (stall : Nat) (data : Bytes) :
    Exclusive { w with
      conns := Function.update w.conns c ((w.conns c).carrying r a stall data)
      log := w.log ++ [.assigned c r a (w.conns c).res] } where
  queues := h.queues
  callbacksKnown := h.callbacksKnown
  fresh d hd := by
    have hne : d ≠ c :=
      fun he => absurd (h.created_of_opened hfree.opened) (Nat.not_lt.mpr (he ▸ hd))
    show Function.update w.conns c _ d = {} ∧ _
    rw [update_of_ne hne]
    exact h.fresh d hd
  conn d := by
    have hd := h.conn d
    show ConnInv _ d (Function.update w.conns c _ d)
    rcases eq_or_ne d c with rfl | hne
    · rw [update_self]
      refine ⟨hd.oneRead, fun hn => absurd hn (by simp [Conn.carrying]), ?_, ?_, ?_,
        fun ho => absurd ho hfree.opened, hd.setup⟩
      · intro r' hr'
        cases hr'
        exact hr
      · show AsioProtocols.unread d (w.log ++ [_]) = some r
        rw [unread_append]
        simp [unreadAfter]
      · rintro (hm | hm)
        · exact absurd hm hfree.notAvailable
        · exact absurd hm hfree.notHeld
    · rw [update_of_ne hne]
      refine ⟨hd.oneRead, hd.between, hd.known, ?_, hd.idle, hd.opening, hd.setup⟩
      show AsioProtocols.unread d (w.log ++ [_]) = _
      rw [unread_append, ← hd.unread]
      simp [unreadAfter, Ne.symm hne]
  idleNodup := h.idleNodup
  handedRead := h.handedRead_append nofun
  nothingOverwritten := h.nothingOverwritten_append fun d r' a' res' he => by
    cases he
    exact hfree.res

/-- **Handing on a free connection.** -/
theorem hand (h : Exclusive w) (hfree : Free w c) {tasks : List ClientTask}
    (hone : tasks.length ≤ 1)
    (hknown : ∀ r, .writeRequest r ∈ tasks → r < w.completions.nresponses) :
    Exclusive (w.hand c tasks) := by
  have h₁ := h.noteHanded hfree.res (w.conns c).res (w.conns c).closed
  have hfree₁ : Free (w.note (.handed c (w.conns c).res (w.conns c).closed)) c :=
    ⟨hfree.opened, hfree.res, hfree.notAvailable, hfree.notHeld⟩
  refine World.hand_cases w c hone h₁ (h₁.hold hfree₁) ?_
  intro r ht
  have hr : r < w.completions.nresponses := hknown r (by simp [ht])
  rw [World.hand_writeRequest]
  have h₂ := h₁.assign hfree₁ hr (w.completions.current r) (w.responses r).stallTimeout
    (w.responses r).request.bytes
  simpa only [World.note, List.append_assoc, List.singleton_append] using h₂

/-! ## The pool's functions -/

/-- A change of the pool that adds nothing to `available_` and settles no future
of a connection. -/
theorem setPool (h : Exclusive w) {p : Pool} (hq : Queues p w.completions.nresponses)
    (hcreated : w.pool.created ≤ p.created) (hfresh : ∀ c, p.created ≤ c → p.opened c = {})
    (hopened : ∀ c, (p.opened c).outcome = (w.pool.opened c).outcome)
    (hav : p.available.Sublist w.pool.available) : Exclusive { w with pool := p } where
  queues := hq
  callbacksKnown := h.callbacksKnown
  fresh d hd := ⟨(h.fresh d (Nat.le_trans hcreated hd)).1, hfresh d hd⟩
  conn d := by
    have hd := h.conn d
    refine ⟨hd.oneRead, hd.between, hd.known, hd.unread, ?_, ?_, ?_⟩
    · intro hm
      show _ ∧ (p.opened d).outcome ≠ none
      rw [hopened d]
      exact hd.idle (hm.imp_left (hav.mem ·))
    · intro ho
      exact hd.opening ((hopened d).symm.trans ho)
    · intro hs
      exact ⟨(hopened d).trans (hd.setup hs).1, (hd.setup hs).2⟩
  idleNodup := h.idleNodup.sublist (hav.append (List.Sublist.refl _))
  handedRead := h.handedRead
  nothingOverwritten := h.nothingOverwritten

/-- `connect()` under a future with the given callback. -/
theorem connect (h : Exclusive w) (tasks : List OpenTask) (hone : tasks.length ≤ 1)
    (hknown : ∀ r, .client (.writeRequest r) ∈ tasks → r < w.completions.nresponses)
    {p : Pool} (hnext : p.next_ = w.pool.next_) (hqueued : p.queued = w.pool.queued)
    (hnqueued : p.nqueued = w.pool.nqueued) (hcreated : p.created = w.pool.created + 1)
    (hopened : p.opened = Function.update w.pool.opened w.pool.created { tasks := tasks })
    (hav : p.available.Sublist w.pool.available) : Exclusive { w with pool := p } := by
  refine h.setPool (h.queues.setOpened _ _ hone hknown hnext hqueued hnqueued hopened)
    (by rw [hcreated]; exact Nat.le_succ _) ?_ ?_ hav
  · intro d hd
    rw [hcreated] at hd
    rw [hopened, update_of_ne (Nat.ne_of_gt hd)]
    exact (h.fresh d (Nat.le_of_succ_le hd)).2
  · intro d
    rw [hopened]
    rcases eq_or_ne d w.pool.created with rfl | hne
    · rw [update_self, (h.fresh _ (Nat.le_refl _)).2]
    · rw [update_of_ne hne]

/-- **`release()` of a free connection.** -/
theorem release (h : Exclusive w) (hfree : Free w c) : Exclusive (w.release c) := by
  rcases hn : w.pool.next_ with _ | ⟨q, rest⟩
  · rw [World.release_of_nil w c hn]
    refine ⟨h.queues.of_eq rfl rfl rfl rfl, h.callbacksKnown, h.fresh, ?_, ?_, h.handedRead, h.nothingOverwritten⟩
    · intro d
      have hd := h.conn d
      refine ⟨hd.oneRead, hd.between, hd.known, hd.unread, ?_, hd.opening, hd.setup⟩
      rintro (hm | hm)
      · rcases List.mem_append.mp hm with hm | hm
        · exact hd.idle (.inl hm)
        · obtain rfl := List.mem_singleton.mp hm
          exact ⟨hfree.res, hfree.opened⟩
      · exact hd.idle (.inr hm)
    · show (w.pool.available ++ [c] ++ w.held).Nodup
      rw [List.append_assoc, List.singleton_append, List.nodup_middle, List.nodup_cons]
      refine ⟨fun hm => ?_, h.idleNodup⟩
      rcases List.mem_append.mp hm with hm | hm
      · exact hfree.notAvailable hm
      · exact hfree.notHeld hm
  · rw [World.release_of_cons w c hn (h.queues.pending q (by simp [hn])).2]
    have h₁ := h.setPool (h.queues.pop hn c) (Nat.le_refl _) (fun d hd => (h.fresh d hd).2)
      (fun _ => rfl) (List.Sublist.refl _)
    exact h₁.hand ⟨hfree.opened, hfree.res, hfree.notAvailable, hfree.notHeld⟩
      (h.queues.queuedOne q) (h.queues.queuedKnown q)

/-- **`next()` with its callback.** -/
theorem nextThen (h : Exclusive w) {t : ClientTask}
    (ht : ∀ r, t = .writeRequest r → r < w.completions.nresponses) : Exclusive (w.nextThen t) := by
  rcases World.nextThen_cases w t with ⟨d, rest, hd, -, hn⟩ | ⟨-, -, hn⟩ | ⟨-, -, hn⟩
  · rw [hn]
    have hsub : (d :: rest).Sublist w.pool.available := hd ▸ List.dropWhile_sublist _
    have hidle := (h.conn d).idle (.inl (hsub.mem (by simp)))
    have hnodup : (d :: rest ++ w.held).Nodup :=
      h.idleNodup.sublist (hsub.append (List.Sublist.refl _))
    rw [List.cons_append, List.nodup_cons, List.mem_append, not_or] at hnodup
    have h₁ := h.setPool (p := { w.pool with available := rest })
      (h.queues.of_eq rfl rfl rfl rfl) (Nat.le_refl _) (fun e he => (h.fresh e he).2)
      (fun _ => rfl) ((List.sublist_cons_self d rest).trans hsub)
    refine h₁.hand ⟨hidle.2, hidle.1, hnodup.1.1, hnodup.1.2⟩ (by simp) ?_
    intro r hr
    exact ht r (List.mem_singleton.mp hr).symm
  · rw [hn]
    refine h.connect [.client t] (by simp) ?_ rfl rfl rfl rfl rfl (List.nil_sublist _)
    intro r hr
    simp only [List.mem_singleton, OpenTask.client.injEq] at hr
    exact ht r hr.symm
  · rw [hn]
    exact h.setPool (h.queues.enqueue ht) (Nat.le_refl _) (fun e he => (h.fresh e he).2)
      (fun _ => rfl) (List.nil_sublist _)

/-- `remove()` -/
theorem remove (h : Exclusive w) (eraseEnd : List (Option FutId) → List (Option FutId))
    (valid : ConnId → Bool) (d : ConnId) :
    Exclusive { w with pool := w.pool.remove eraseEnd valid d } := by
  rcases Pool.remove_cases eraseEnd valid w.pool d with ⟨hr, -⟩ | ⟨hr, -, -⟩
  · rw [hr]
    exact h.setPool (h.queues.of_eq rfl rfl rfl rfl) (Nat.le_refl _) (fun e he => (h.fresh e he).2)
      (fun _ => rfl) (List.dropWhile_sublist _)
  · rw [hr]
    exact h.connect [.release] (by simp) (by simp) (Pool.replace_next_ _) (Pool.replace_queued _)
      (Pool.replace_nqueued _) (Pool.replace_created _) (Pool.replace_opened _)
      (List.dropWhile_sublist _)

/-- **`close()`** -/
theorem close (h : Exclusive w) (hc : c < w.pool.created) : Exclusive (w.close c) := by
  rcases hcl : (w.conns c).closed with _ | _
  · obtain ⟨valid, he⟩ := w.close_of_open c hcl
    rw [he]
    exact (h.inner hc (k := (w.conns c).shut) rfl rfl (fun hs => hs) rfl (fun hw => hw)).remove
      w.eraseEnd valid c
  · rw [w.close_of_closed c hcl]
    exact h.inner hc rfl rfl (fun hs => hs) rfl (fun hw => hw)

/-- **The future of a connection is done.** Its set-up is over, so the
connection is free. -/
theorem settleOpened (h : Exclusive w) (ho : (w.pool.opened c).outcome = none)
    (hc : c < w.pool.created) (hs : (w.conns c).setup = none) : Exclusive (w.settleOpened c) := by
  have hcc := h.conn c
  have h₁ : Exclusive { w with pool := { w.pool with
      opened := Function.update w.pool.opened c { outcome := some (.done c), tasks := [] } } } := by
    refine ⟨h.queues.setOpened c { outcome := some (.done c), tasks := [] } (by simp) (by simp)
      rfl rfl rfl rfl, h.callbacksKnown, ?_, ?_, h.idleNodup, h.handedRead, h.nothingOverwritten⟩
    · intro d hd
      have hne : d ≠ c := fun he => absurd hc (Nat.not_lt.mpr (he ▸ hd))
      show _ ∧ Function.update w.pool.opened c _ d = {}
      rw [update_of_ne hne]
      exact h.fresh d hd
    · intro d
      have hd := h.conn d
      rcases eq_or_ne d c with rfl | hne
      · refine ⟨hd.oneRead, hd.between, hd.known, hd.unread, ?_, ?_, fun h' => absurd hs h'⟩
        · intro hm
          exact absurd ho (hd.idle hm).2
        · intro ho'
          simp at ho'
      · have he : Function.update w.pool.opened c ({ outcome := some (.done c), tasks := [] } :
            Future ConnId OpenTask) d = w.pool.opened d := update_of_ne hne _ _
        refine ⟨hd.oneRead, hd.between, hd.known, hd.unread, ?_, ?_, ?_⟩ <;>
          simp only [he]
        · exact hd.idle
        · exact hd.opening
        · exact hd.setup
  have hfree : Free { w with pool := { w.pool with
      opened := Function.update w.pool.opened c { outcome := some (.done c), tasks := [] } } } c :=
    ⟨by simp, (hcc.opening ho).1, fun hm => (hcc.idle (.inl hm)).2 ho,
      fun hm => (hcc.idle (.inr hm)).2 ho⟩
  rcases w.settleOpened_cases c ho (h.queues.openedOne c) with ⟨-, he⟩ | ⟨t, ht, he⟩ | ⟨-, he⟩
  · rw [he]
    exact h₁
  · rw [he]
    refine h₁.hand hfree (by simp) ?_
    intro r hr
    obtain rfl := List.mem_singleton.mp hr
    exact h.queues.openedKnown c r (by simp [ht])
  · rw [he]
    exact h₁.release hfree

/-! ## Settling -/

/-- The contents of the responses, and of their futures, do not matter. -/
theorem setCompletions (h : Exclusive w) {k : Completions}
    (hk : w.completions.nresponses ≤ k.nresponses)
    (hcb : ∀ a t, t ∈ (k.attempts a).tasks → t.1 < k.nresponses)
    (responses : RespId → Response) (sources : RespId → List ConnId)
    (statusFrom : RespId → Option ConnId) (fault : Option Fault) :
    Exclusive { w with
      completions := k, responses := responses, sources := sources, statusFrom := statusFrom
      fault := fault } where
  queues := h.queues.mono hk
  callbacksKnown := hcb
  fresh := h.fresh
  conn d := by
    have hd := h.conn d
    exact ⟨hd.oneRead, hd.between, fun r hr => Nat.lt_of_lt_of_le (hd.known r hr) hk, hd.unread,
      hd.idle, hd.opening, hd.setup⟩
  idleNodup := h.idleNodup
  handedRead := h.handedRead
  nothingOverwritten := h.nothingOverwritten

/-- A new future for attempt `a`, with callbacks on known responses. -/
theorem callbacks_update (h : Exclusive w) (a : AttemptId) {f : Future Nat (RespId × Nat)}
    (hf : ∀ t ∈ f.tasks, t.1 < w.completions.nresponses) (b : AttemptId) (t : RespId × Nat)
    (ht : t ∈ (Function.update w.completions.attempts a f b).tasks) :
    t.1 < w.completions.nresponses := by
  rcases eq_or_ne b a with rfl | hne
  · rw [update_self] at ht
    exact hf t ht
  · rw [update_of_ne hne] at ht
    exact h.callbacksKnown b t ht

theorem completionHandler (h : Exclusive w) (a : AttemptId) (o : Outcome Nat) (v : Verdict)
    {t : RespId × Nat} (ht : t.1 < w.completions.nresponses) :
    Exclusive (w.completionHandler a o v t) ∧
      (w.completionHandler a o v t).completions.nresponses = w.completions.nresponses := by
  obtain ⟨r, n⟩ := t
  refine w.completionHandler_cases
    (P := fun u => Exclusive u ∧ u.completions.nresponses = w.completions.nresponses) a o v r n
    ?_ ?_ ?_
  · intro o' _ _ _
    refine ⟨h.setCompletions ?_ ?_ _ _ _ _, rfl⟩
    · exact Nat.le_refl _
    · exact h.callbacksKnown
  · intro _
    refine ⟨h.setCompletions ?_ ?_ _ _ _ _, rfl⟩
    · exact Nat.le_refl _
    · exact h.callbacksKnown
  · intro _
    have h₁ := h.setCompletions (k := (w.completions.ask r a n v).reset r (n + 1))
      (Nat.le_refl _) (h.callbacks_update w.completions.nattempts fun t' ht' => by
        obtain rfl := List.mem_singleton.mp ht'
        exact ht)
      (Function.update w.responses r (w.responses r).reset) (Function.update w.sources r [])
      w.statusFrom w.fault
    refine ⟨h₁.nextThen ?_, ?_⟩
    · intro r' hr
      cases hr
      exact ht
    · rw [World.completions_nextThen]
      rfl

/-- **Settling an attempt**, with the retry it may lead to. -/
theorem settleUnlessReady (h : Exclusive w) (d : ConnId) (r : RespId) (o : Outcome Nat)
    (v : Verdict) : Exclusive (w.settleUnlessReady d r o v) := by
  refine (w.settleUnlessReady_preserves d
    (P := fun u => Exclusive u ∧ u.completions.nresponses = w.completions.nresponses) r o v
    ⟨h, rfl⟩ ⟨?_, rfl⟩ ?_).1
  · refine h.setCompletions ?_ ?_ _ _ _ _
    · exact Nat.le_refl _
    · exact h.callbacks_update _ (by simp)
  · rintro u t ht ⟨hu, hn⟩
    have := hu.completionHandler (w.completions.current r) o v
      (t := t) (hn ▸ h.callbacksKnown _ t ht)
    exact ⟨this.1, this.2.trans hn⟩

theorem failResponse (h : Exclusive w) (d : ConnId) (err : Bytes) (v : Verdict) :
    Exclusive (w.failResponse d err v) := by
  rw [World.failResponse]
  split
  · exact h.settleUnlessReady _ _ _ _
  · exact h

/-! ## Reading -/

/-- The timer is restarted. -/
theorem extendTimer (h : Exclusive w) (hc : c < w.pool.created) : Exclusive (w.extendTimer c) :=
  h.inner hc rfl rfl (fun hs => hs) rfl (fun hw => hw)

/-- `res_` is cleared at the end of a response. -/
theorem clear (h : Exclusive w) {r : RespId} (hr : (w.conns c).res = some r)
    (hreads : (w.conns c).reads = []) :
    Exclusive ((w.modConn c fun k => { k with res := none }).note (.finished c r)) where
  queues := h.queues
  callbacksKnown := h.callbacksKnown
  fresh d hd := by
    have hne : d ≠ c := fun he => absurd (h.created_of_res hr) (Nat.not_lt.mpr (he ▸ hd))
    show Function.update w.conns c _ d = {} ∧ _
    rw [update_of_ne hne]
    exact h.fresh d hd
  conn d := by
    have hd := h.conn d
    show ConnInv _ d (Function.update w.conns c _ d)
    rcases eq_or_ne d c with rfl | hne
    · rw [update_self]
      refine ⟨hd.oneRead, by simp [hreads], by simp, ?_, ?_,
        fun ho => absurd ho (h.opened_of_res hr), hd.setup⟩
      · show AsioProtocols.unread d (w.log ++ [_]) = none
        rw [unread_append]
        simp [unreadAfter]
      · intro hm
        exact ⟨rfl, h.opened_of_res hr⟩
    · rw [update_of_ne hne]
      refine ⟨hd.oneRead, hd.between, hd.known, ?_, hd.idle, hd.opening, hd.setup⟩
      show AsioProtocols.unread d (w.log ++ [_]) = _
      rw [unread_append, ← hd.unread]
      simp [unreadAfter, Ne.symm hne]
  idleNodup := h.idleNodup
  handedRead := h.handedRead_append nofun
  nothingOverwritten := h.nothingOverwritten_append nofun

/-- Bytes go into a response. -/
theorem store (h : Exclusive w) (d : ConnId) (r : RespId) (m : Message) :
    Exclusive (w.store d r m) := by
  have h₁ := h.setCompletions (k := w.completions) (Nat.le_refl _) h.callbacksKnown
    (Function.update w.responses r { w.responses r with toMessage := m })
    (Function.update w.sources r (w.sources r ++ [d])) w.statusFrom w.fault
  exact h₁.noted (n := .content d r (w.completions.current r)) (fun _ _ => rfl)
    (fun _ _ _ => by simp)

theorem storeStatus (h : Exclusive w) (d : ConnId) (r : RespId) (parsed : Response × Option Exn) :
    Exclusive (w.storeStatus d r parsed) := by
  have h₁ := h.setCompletions (k := w.completions) (Nat.le_refl _) h.callbacksKnown
    (Function.update w.responses r parsed.1)
    (Function.update w.sources r (w.sources r ++ [d]))
    (if parsed.2 = none then Function.update w.statusFrom r (some d) else w.statusFrom) w.fault
  exact h₁.noted (n := .content d r (w.completions.current r)) (fun _ _ => rfl)
    (fun _ _ _ => by simp)

theorem escape (h : Exclusive w) (d : ConnId) (e : Exn) : Exclusive (w.escape d e) :=
  h.noted (fun _ _ => rfl) (fun _ _ _ => by simp)

/-- A connection whose response was read to its end waits for the next status line,
and is free. -/
theorem clearRead (h : Exclusive w) {r : RespId} (hr : (w.conns c).res = some r)
    (hreads : (w.conns c).reads = []) :
    Exclusive (((w.modConn c fun k => { k with res := none }).note (.finished c r)).handleResponse c) ∧
      Free (((w.modConn c fun k => { k with res := none }).note (.finished c r)).handleResponse c)
        c := by
  have hread := (h.clear hr hreads).addRead (c := c) (h.created_of_res hr)
    (by simp [World.note, World.modConn, hreads])
    (by simp [World.note, World.modConn, h.setup_of_res hr])
    { point := .status, result := (find crlf ((w.conns c).input)).map .ok } (fun _ => rfl)
  have hidle := h.not_idle_of_res hr
  refine ⟨?_, h.opened_of_res hr, ?_, hidle.1, hidle.2⟩
  · simpa [World.handleResponse, World.readDelimited, World.note, World.modConn] using hread
  · simp [World.handleResponse, World.readDelimited, World.note, World.modConn]

/-- It is released. -/
theorem releaseRead (h : Exclusive w) {r : RespId} (hr : (w.conns c).res = some r)
    (hreads : (w.conns c).reads = []) :
    Exclusive ((((w.modConn c fun k => { k with res := none }).note
      (.finished c r)).handleResponse c).release c) := by
  obtain ⟨hcleared, hfree⟩ := h.clearRead hr hreads
  exact hcleared.release hfree

/-- **The end of a response.** -/
theorem extractNextBodyChunk (h : Exclusive w) {r : RespId} (hr : (w.conns c).res = some r)
    (hreads : (w.conns c).reads = []) (data : Bytes) (v : Verdict) :
    Exclusive (w.extractNextBodyChunk c data v) := by
  have stored : ∀ u, (u = w ∨ ∃ m, u = w.store c r m) → Exclusive u ∧ (u.conns c).res = some r ∧
      (u.conns c).reads = [] := by
    rintro u (rfl | ⟨m, rfl⟩)
    · exact ⟨h, hr, hreads⟩
    · exact ⟨h.store c r m, hr, hreads⟩
  refine World.extractNextBodyChunk_cases data hr ?_ ?_
  · intro u s hu
    obtain ⟨h₁, hr₁, hreads₁⟩ := stored u hu
    refine ((h₁.clear hr₁ hreads₁).settleUnlessReady c r _ v).close ?_
    refine Nat.lt_of_lt_of_le ?_ (World.created_settleUnlessReady _ _ _ _ _)
    exact h₁.created_of_res hr₁
  · intro u s hu
    obtain ⟨h₁, hr₁, hreads₁⟩ := stored u hu
    exact (h₁.releaseRead hr₁ hreads₁).settleUnlessReady c r _ v

end Exclusive

end AsioProtocols
