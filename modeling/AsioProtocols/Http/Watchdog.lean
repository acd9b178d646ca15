import AsioProtocols.Http.BrokenConnection
import AsioProtocols.Http.Records
import AsioProtocols.Http.Writes

/-!
# No connection is forgotten

A connection that is connected and open has its stall timer running, and once it is
established a read is outstanding on it, so that it notices when the server speaks or
hangs up. That includes the connections that wait in `available_`, where the read is the
one for a status line that nobody has asked for. The exception is an exception: where one
leaves a read handler, no read follows, and the timer is all that is left.

`Guard` is what holds of one record, `watchdog_of_run` says it of every reachable state,
and `stallEnds_of_run` says what the timer is for: an attempt that a connected, open
connection still owes an answer is settled as soon as the timer expires. The request may
be tried again then.
-/

namespace AsioProtocols

open Function

/-- The read at this point is for a number of bytes, not up to the end of a line. -/
def Point.counted : Point → Bool
  | .chunkData | .body => true
  | .status | .header | .chunkSize | .last => false

namespace Conn

/-- The socket is connected; a TLS handshake may be under way. -/
def connected (k : Conn) : Bool :=
  match k.setup with
  | none => true
  | some op => op.stage == .handshake

/-- The stall timer is running, or has expired with its handler queued. -/
def watched (k : Conn) : Prop := ∃ t ∈ k.waits, t.status ≠ .cancelled

end Conn

/-- **No connection is forgotten**: it is watched by at most one running timer and, once
established, by a read; an idle one by the read of a status line. -/
structure Watchdog (w : World) : Prop where
  timed : ∀ c, (w.conns c).closed = false → (w.conns c).connected = true → (w.conns c).watched
  single : ∀ c, (w.conns c).waits.countP (·.status = .pending) ≤ 1
  reading : ∀ c, (w.conns c).closed = false → (w.conns c).setup = none → w.broken c = false →
    ∃ op, (w.conns c).reads = [op]
  idle : ∀ c, c ∈ w.pool.available ∨ c ∈ w.held → (w.conns c).closed = false →
    ∃ op, (w.conns c).reads = [op] ∧ op.point = .status

/-! ## One record -/

/-- What holds of a record, its timer and its read aside where they are exempted. -/
structure Guard (timing reading : Prop) (broken : Bool) (k : Conn) : Prop where
  timed : timing → k.closed = false → k.connected = true → k.watched
  reads : reading → k.closed = false → k.setup = none → broken = false → k.reads ≠ []
  single : k.waits.countP (·.status = .pending) ≤ 1
  shaped : ∀ op ∈ k.reads, op.point.counted = op.wanted.isSome
  stopped : broken = true → k.reads = [] ∧ k.res ≠ none

theorem countP_cancel (waits : List Wait) :
    (waits.map Wait.cancel).countP (·.status = .pending) = 0 := by
  rw [List.countP_eq_zero]
  rintro _ hmem
  obtain ⟨t, -, rfl⟩ := List.mem_map.mp hmem
  obtain ⟨target, status⟩ := t
  cases status <;> simp [Wait.cancel]

/-- A timer that has just been armed is the only one. -/
theorem countP_armed (waits : List Wait) (target : Nat) :
    (waits.map Wait.cancel ++ [({ target := target } : Wait)]).countP (·.status = .pending) ≤ 1 := by
  rw [List.countP_append, countP_cancel]
  simp

theorem watched_armed {k : Conn} {waits : List Wait} {target : Nat}
    (h : k.waits = waits ++ [{ target := target }]) : k.watched :=
  ⟨{ target := target }, h ▸ List.mem_append_right _ (List.mem_singleton_self _), by simp⟩

namespace Guard

variable {timing reading timing' reading' : Prop} {broken : Bool} {k : Conn}

/-- What is exempted does not matter on a closed connection. -/
theorem of_closed (h : Guard timing reading broken k) (hclosed : k.closed = true) :
    Guard timing' reading' broken k where
  timed _ hopen := absurd hclosed (by simp [hopen])
  reads _ hopen := absurd hclosed (by simp [hopen])
  single := h.single
  shaped := h.shaped
  stopped := h.stopped

theorem weaken (h : Guard timing reading broken k) (ht : timing' → timing)
    (hr : reading' → reading) : Guard timing' reading' broken k :=
  ⟨fun hx => h.timed (ht hx), fun hx => h.reads (hr hx), h.single, h.shaped, h.stopped⟩

/-- A record that differs in what nobody here looks at. -/
theorem inner (h : Guard timing reading broken k) {k' : Conn} (setup : k'.setup = k.setup)
    (closed : k'.closed = k.closed) (waits : k'.waits = k.waits) (reads : k'.reads = k.reads)
    (res : k'.res = k.res) : Guard timing reading broken k' where
  timed ht hopen hconn := by
    rw [Conn.connected, setup] at hconn
    obtain ⟨t, hmem, hlive⟩ := h.timed ht (closed ▸ hopen) hconn
    exact ⟨t, waits ▸ hmem, hlive⟩
  reads hr hopen hsetup hb := by
    rw [reads]
    exact h.reads hr (closed ▸ hopen) (setup ▸ hsetup) hb
  single := waits ▸ h.single
  shaped := reads ▸ h.shaped
  stopped := by
    rw [reads, res]
    exact h.stopped

/-- Arming the timer lifts its exemption. -/
theorem arm (h : Guard timing reading broken k) (target : Nat) : Guard timing' reading broken
    { k with waits := k.waits.map Wait.cancel ++ [{ target := target }] } where
  timed _ _ _ := watched_armed rfl
  reads := h.reads
  single := countP_armed _ _
  shaped := h.shaped
  stopped := h.stopped

/-- A read lifts the other one. -/
theorem addRead (h : Guard timing reading broken k) (hb : broken = false) {op : ReadOp}
    (hop : op.point.counted = op.wanted.isSome) :
    Guard timing reading' broken { k with reads := k.reads ++ [op] } where
  timed := h.timed
  reads _ _ _ _ := by simp
  single := h.single
  shaped op' hop' := by
    rcases List.mem_append.mp hop' with hmem | hmem
    · exact h.shaped op' hmem
    · rw [List.mem_singleton.mp hmem]
      exact hop
  stopped hx := absurd hx (by simp [hb])

/-- A connection that is being established has no read yet. -/
theorem stage (h : Guard timing reading broken k) (op : SetupOp)
    (hop : op.stage = .handshake → k.watched) :
    Guard timing' reading' broken { k with setup := some op } where
  timed _ _ hconn := hop (by simpa [Conn.connected] using hconn)
  reads _ _ hset := nomatch hset
  single := h.single
  shaped := h.shaped
  stopped := h.stopped

/-- Completing a read, or failing it, leaves it what it is for. -/
theorem setRead (h : Guard timing reading broken k) {i : Nat} {op : ReadOp}
    (hop : k.reads[i]? = some op) (input : Bytes) (result : Option (Except Bytes Nat)) :
    Guard timing reading broken
      { k with input := input, reads := k.reads.set i { op with result := result } } where
  timed := h.timed
  reads _ _ _ _ := by
    have hi := (List.getElem?_eq_some_iff.mp hop).1
    exact List.ne_nil_of_length_pos (by rw [List.length_set]; omega)
  single := h.single
  shaped op' hop' := by
    rcases List.mem_or_eq_of_mem_set hop' with hmem | rfl
    · exact h.shaped op' hmem
    · exact h.shaped op (List.mem_of_getElem? hop)
  stopped hb := by
    rw [(h.stopped hb).1] at hop
    simp at hop

/-- An expired timer is as good as a running one. -/
theorem expire (h : Guard timing reading broken k) {i : Nat} {t : Wait}
    (ht : k.waits[i]? = some t) : Guard timing reading broken
      { k with waits := k.waits.set i { t with status := .expired } } where
  timed _ _ _ := by
    have hi := (List.getElem?_eq_some_iff.mp ht).1
    exact ⟨{ t with status := .expired }, List.mem_set hi _, by simp⟩
  reads := h.reads
  single := by
    have hi := (List.getElem?_eq_some_iff.mp ht).1
    show (k.waits.set i { t with status := .expired }).countP _ ≤ 1
    rw [List.countP_set hi]
    simpa using (Nat.sub_le _ _).trans h.single
  shaped := h.shaped
  stopped := h.stopped

/-- The handler of a cancelled wait is gone. -/
theorem eraseCancelled (h : Guard timing reading broken k) {i : Nat} {t : Wait}
    (ht : k.waits[i]? = some t) (hcancelled : t.status = .cancelled) :
    Guard timing reading broken { k with waits := k.waits.eraseIdx i } where
  timed hx hopen hconn := by
    obtain ⟨u, hmem, hlive⟩ := h.timed hx hopen hconn
    refine ⟨u, List.mem_eraseIdx_iff_getElem?.mpr ?_, hlive⟩
    obtain ⟨j, hj⟩ := List.mem_iff_getElem?.mp hmem
    refine ⟨j, fun hij => hlive ?_, hj⟩
    rw [hij, ht] at hj
    exact Option.some.inj hj ▸ hcancelled
  reads := h.reads
  single := (List.eraseIdx_sublist _ _).countP_le.trans h.single
  shaped := h.shaped
  stopped := h.stopped

end Guard

/-- The records of all connections, with the exemptions. -/
def Guarded (untimed unread : Option ConnId) : World → Prop :=
  Everywhere fun d broken k => Guard (untimed ≠ some d) (unread ≠ some d) broken k

namespace Guarded

variable {x y : Option ConnId} {w : World} {c : ConnId} {r : RespId} {v : Verdict}

theorem keptCarrying (x y : Option ConnId) :
    KeptCarrying fun d broken k => Guard (x ≠ some d) (y ≠ some d) broken k :=
  fun _ _ _ h _ _ _ _ =>
    { timed := fun _ _ _ => watched_armed rfl
      reads := h.reads
      single := countP_armed _ _
      shaped := h.shaped
      stopped := fun hb => ⟨(h.stopped hb).1, by simp [Conn.carrying]⟩ }

theorem shut {timing reading timing' reading' : Prop} {broken : Bool} {k : Conn}
    (h : Guard timing reading broken k) : Guard timing' reading' broken k.shut where
  timed _ hopen := nomatch hopen
  reads _ hopen := nomatch hopen
  single := (countP_cancel k.waits).trans_le (Nat.zero_le _)
  shaped := h.shaped
  stopped := h.stopped

theorem update (h : Guarded x y w) {k : Conn}
    (hk : Guard (x ≠ some c) (y ≠ some c) (w.broken c) k) :
    Guarded x y { w with conns := Function.update w.conns c k } :=
  Everywhere.update h hk

/-- A record that is made good again needs no exemption. -/
theorem repair (h : Guarded x y w) (hx : ∀ d, x = some d → d = c) (hy : ∀ d, y = some d → d = c)
    {k : Conn} (hk : Guard True True (w.broken c) k) :
    Guarded none none { w with conns := Function.update w.conns c k } := by
  intro d
  show Guard _ _ (w.broken d) (Function.update w.conns c k d)
  rcases eq_or_ne d c with rfl | hne
  · rw [update_self]
    exact hk.weaken (fun _ => trivial) fun _ => trivial
  · rw [update_of_ne hne]
    exact (h d).weaken (fun _ he => hne (hx d he)) fun _ he => hne (hy d he)

theorem close (h : Guarded x y w) (hx : ∀ d, x = some d → d = c) (hy : ∀ d, y = some d → d = c) :
    Guarded none none (w.close c) := by
  rcases hcl : (w.conns c).closed with _ | _
  · obtain ⟨valid, he⟩ := w.close_of_open c hcl
    rw [he]
    exact h.repair hx hy (shut (h c))
  · rw [w.close_of_closed c hcl]
    have hk : Guard True True (w.broken c) (w.conns c) := (h c).of_closed hcl
    exact h.repair hx hy (hk.inner rfl rfl rfl rfl rfl)

/-- Arming the timer lifts its exemption. -/
theorem extendTimer (h : Guarded x y w) (hx : ∀ d, x = some d → d = c) :
    Guarded none y (w.extendTimer c) := by
  intro d
  show Guard _ _ (w.broken d) (Function.update w.conns c _ d)
  rcases eq_or_ne d c with rfl | hne
  · rw [update_self]
    exact (h d).arm (w.stallTarget d)
  · rw [update_of_ne hne]
    exact (h d).weaken (fun _ he => hne (hx d he)) fun hr => hr

theorem closeAndFail (h : Guarded x y w) (hx : ∀ d, x = some d → d = c)
    (hy : ∀ d, y = some d → d = c) (err : Bytes) (v : Verdict) :
    Guarded none none ((w.close c).failResponse c err v) :=
  Everywhere.failResponse (keptCarrying none none) (h.close hx hy) c err v

/-- A read handler of `c` at work: no read is outstanding, and what is missing is the
next one. -/
structure Busy (c : ConnId) (r : RespId) (w : World) : Prop where
  guarded : Guarded none (some c) w
  reads : (w.conns c).reads = []
  whole : w.broken c = false
  res : (w.conns c).res = some r

namespace Busy

theorem extendTimer (h : Busy c r w) : Busy c r (w.extendTimer c) where
  guarded := h.guarded.extendTimer (by simp)
  reads := by simp [World.conns_extendTimer, h.reads]
  whole := h.whole
  res := by simp [h.res]

/-- Work on the parser. -/
theorem parser (h : Busy c r w) (input : Bytes) (mode : Transfer) (expected : Nat) :
    Busy c r (w.modConn c fun k =>
      { k with input := input, transferMode := mode, expectedBytes := expected }) where
  guarded := h.guarded.update ((h.guarded c).inner rfl rfl rfl rfl rfl)
  reads := by simp [World.modConn, h.reads]
  whole := h.whole
  res := by simp [World.modConn, h.res]

theorem store (h : Busy c r w) (m : Message) : Busy c r (w.store c r m) where
  guarded := Everywhere.store h.guarded c r m
  reads := h.reads
  whole := (congrFun (World.broken_note w (n := .content c r (w.completions.current r))
    (by simp)) c).trans h.whole
  res := h.res

/-! ### How a read handler ends -/

/-- With the next read. -/
theorem addRead (h : Busy c r w) {op : ReadOp} (hop : op.point.counted = op.wanted.isSome) :
    Guarded none none (w.modConn c fun k => { k with reads := k.reads ++ [op] }) := by
  refine h.guarded.repair (by simp) (by simp) ?_
  exact ((h.guarded c).addRead h.whole hop).weaken (fun _ => by simp) fun hr => hr

theorem readDelimited (h : Busy c r w) {p : Point} (hp : p.counted = false) :
    Guarded none none (w.readDelimited c p) :=
  h.addRead hp

/-- With an exception. -/
theorem escape (h : Busy c r w) (e : Exn) : Guarded none none (w.escape c e) := by
  intro d
  rw [World.broken_escape]
  rcases eq_or_ne d c with rfl | hne
  · have hd := h.guarded d
    exact
      { timed := fun _ => hd.timed (by simp)
        reads := fun _ _ _ hb => absurd hb (by simp)
        single := hd.single
        shaped := hd.shaped
        stopped := fun _ => ⟨h.reads, by simp [World.escape, World.note, h.res]⟩ }
  · have hd := h.guarded d
    rw [show (c == d) = false from beq_false_of_ne hne.symm, Bool.or_false]
    exact hd.weaken (fun _ => by simp) fun _ he => hne (Option.some.inj he).symm

theorem closeAndFail (h : Busy c r w) (err : Bytes) (v : Verdict) :
    Guarded none none ((w.close c).failResponse c err v) :=
  h.guarded.closeAndFail (by simp) (by simp) err v

/-- **At the end of a response**, the next status line is read before the connection is
released. -/
theorem extractNextBodyChunk (h : Busy c r w) (data : Bytes) (v : Verdict) :
    Guarded none none (w.extractNextBodyChunk c data v) := by
  have cleared : ∀ u, (u = w ∨ ∃ m, u = w.store c r m) → Busy c r u ∧
      Guarded none (some c) ((u.modConn c fun k => { k with res := none }).note (.finished c r)) := by
    intro u hu
    have hbusy : Busy c r u := by
      rcases hu with rfl | ⟨m, rfl⟩
      · exact h
      · exact h.store m
    have hk := hbusy.guarded c
    refine ⟨hbusy, Everywhere.note (hbusy.guarded.update ?_) (by simp)⟩
    exact ⟨hk.timed, hk.reads, hk.single, hk.shaped,
      fun hb => absurd hbusy.whole (by simp [hb])⟩
  refine World.extractNextBodyChunk_cases (P := Guarded none none) data h.res ?_ ?_
  · intro u s hu
    obtain ⟨-, hclear⟩ := cleared u hu
    exact close (Everywhere.settleUnlessReady (keptCarrying _ _) hclear c r _ v) (by simp) (by simp)
  · intro u s hu
    obtain ⟨hbusy, hclear⟩ := cleared u hu
    have hread : Guarded none none (((u.modConn c fun k => { k with res := none }).note
        (.finished c r)).handleResponse c) := by
      refine hclear.repair (by simp) (by simp) ?_
      have hwhole : ((u.modConn c fun k => { k with res := none }).note (.finished c r)).broken c =
          false := (congrFun (World.broken_note _ (by simp)) c).trans hbusy.whole
      exact ((hclear c).addRead hwhole rfl).weaken (fun _ => by simp) fun hr => hr
    exact Everywhere.settleUnlessReady (keptCarrying _ _)
      (Everywhere.release (keptCarrying _ _) hread c) c r _ v

/-! ### The read handlers -/

theorem onBody (h : Busy c r w) (data : Bytes) (v : Verdict) :
    Guarded none none (w.onBody c data v) :=
  h.extendTimer.extractNextBodyChunk data v

/-- A read waits for the socket, or its callback runs at once. -/
theorem read (h : Busy c r w) (wanted : Nat) {p : Point} (hp : p.counted = true)
    {code : World → Bytes → World} (hcode : ∀ u data, Busy c r u → Guarded none none (code u data)) :
    Guarded none none (w.read c wanted p code) := by
  rw [World.read]
  split
  · exact h.addRead hp
  · exact hcode _ _ (h.parser ((w.conns c).input.drop wanted) (w.conns c).transferMode
      (w.conns c).expectedBytes)

theorem readNextBodyChunk (h : Busy c r w) (v : Verdict) :
    Guarded none none (w.readNextBodyChunk c v) := by
  rw [World.readNextBodyChunk]
  split
  · exact h.readDelimited rfl
  · exact h.read _ rfl fun u data hu => hu.onBody data v

theorem onChunkData (h : Busy c r w) (data : Bytes) (v : Verdict) :
    Guarded none none (w.onChunkData c data v) := by
  simp only [World.onChunkData, h.res]
  exact (h.store _).extendTimer.readNextBodyChunk v

theorem onChunkSize (h : Busy c r w) (line : Bytes) (v : Verdict) :
    Guarded none none (w.onChunkSize c line v) := by
  have ht := h.extendTimer
  simp only [World.onChunkSize]
  split
  · exact ht.escape _
  · split
    · exact (ht.parser ((w.extendTimer c).conns c).input ((w.extendTimer c).conns c).transferMode
        _).read _ rfl fun u data hu => hu.onChunkData data v
    · exact ht.readDelimited rfl

theorem headersEnd (h : Busy c r w) (v : Verdict) : Guarded none none (w.headersEnd c r v) := by
  rw [World.headersEnd]
  split
  · split
    · exact h.escape _
    · exact (h.parser (w.conns c).input .length _).readNextBodyChunk v
  · split
    · split
      · exact h.closeAndFail _ v
      · exact (h.parser (w.conns c).input .chunked 0).readNextBodyChunk v
    · exact h.closeAndFail _ v

theorem onHeader (h : Busy c r w) (line : Bytes) (v : Verdict) :
    Guarded none none (w.onHeader c line v) := by
  have ht := h.extendTimer
  simp only [World.onHeader, ht.res]
  split
  · exact ht.headersEnd v
  · split
    · exact ht.escape _
    · exact (ht.store _).readDelimited rfl

end Busy

/-- A status line: nobody has asked for it, or it is parsed. -/
theorem onStatus (h : Guarded none (some c) w) (hreads : (w.conns c).reads = [])
    (hwhole : w.broken c = false) (line : Bytes) : Guarded none none (w.onStatus c line) := by
  rw [World.onStatus]
  split
  · exact h.close (by simp) (by simp)
  · rename_i r hr
    have ht := (Busy.mk h hreads hwhole hr).extendTimer
    have hs : Busy c r ((w.extendTimer c).storeStatus c r
        (((w.extendTimer c).responses r).parseInitialLine line)) :=
      ⟨Everywhere.storeStatus ht.guarded c r _, ht.reads,
        (congrFun (World.broken_note _ (n := .content c r (w.completions.current r))
          (by simp)) c).trans ht.whole, ht.res⟩
    dsimp only
    split
    · exact hs.escape _
    · exact hs.readDelimited rfl

/-- What has been read is taken off the buffer. -/
theorem takeInput (h : Guarded none (some c) w) (hreads : (w.conns c).reads = [])
    (hwhole : w.broken c = false) (input : Bytes) :
    let u := w.modConn c fun k => { k with input := input }
    Guarded none (some c) u ∧ (u.conns c).reads = [] ∧
      ((w.conns c).res ≠ none → ∃ r, Busy c r u) := by
  have hg : Guarded none (some c) (w.modConn c fun k => { k with input := input }) :=
    h.update ((h c).inner rfl rfl rfl rfl rfl)
  have hr : ((w.modConn c fun k => { k with input := input }).conns c).reads = [] := by
    simp [World.modConn, hreads]
  refine ⟨hg, hr, fun hres => ?_⟩
  obtain ⟨r, hsome⟩ := Option.ne_none_iff_exists'.mp hres
  exact ⟨r, hg, hr, hwhole, by simp [World.modConn, hsome]⟩

/-- **The handler of a completed read.** -/
theorem finishRead (h : Guarded none (some c) w) (hreads : (w.conns c).reads = [])
    (hwhole : w.broken c = false) {op : ReadOp} (hop : op.point.counted = op.wanted.isSome)
    (hpoint : op.point ≠ .status → (w.conns c).res ≠ none) (result : Except Bytes Nat)
    (v : Verdict) : Guarded none none (w.finishRead c op result v) := by
  cases result with
  | error err =>
    simp only [World.finishRead]
    split
    · exact h.closeAndFail (by simp) (by simp) _ v
    · exact h.close (by simp) (by simp)
  | ok pos =>
    obtain ⟨p, wanted, done⟩ := op
    cases wanted with
    | none =>
      obtain ⟨hg, hr, hbusy⟩ := h.takeInput hreads hwhole ((w.conns c).input.drop (pos + 2))
      cases p with
      | status => exact onStatus hg hr hwhole _
      | header =>
        obtain ⟨r, hb⟩ := hbusy (hpoint (by simp))
        exact hb.onHeader _ v
      | chunkSize =>
        obtain ⟨r, hb⟩ := hbusy (hpoint (by simp))
        exact hb.onChunkSize _ v
      | last =>
        obtain ⟨r, hb⟩ := hbusy (hpoint (by simp))
        exact hb.extendTimer.extractNextBodyChunk [] v
      | chunkData | body => cases hop
    | some n =>
      obtain ⟨-, -, hbusy⟩ := h.takeInput hreads hwhole ((w.conns c).input.drop n)
      cases p with
      | chunkData =>
        obtain ⟨r, hb⟩ := hbusy (hpoint (by simp))
        exact hb.onChunkData _ v
      | body =>
        obtain ⟨r, hb⟩ := hbusy (hpoint (by simp))
        exact hb.onBody _ v
      | status | header | chunkSize | last => cases hop

/-! ## Establishing a connection -/

/-- The timer starts and the first status line is read before anybody gets the
connection. -/
theorem ready (h : Guarded (some c) (some c) w) (hwhole : w.broken c = false) : Guarded none none (w.ready c) := by
  have hstarted : Guarded none none ((w.extendTimer c).handleResponse c) := by
    have ht := h.extendTimer (c := c) (by simp)
    exact ht.repair (by simp) (by simp)
      (((ht c).addRead hwhole rfl).weaken (fun _ => by simp) fun hr => hr)
  exact Everywhere.settleOpened (keptCarrying _ _) hstarted c

theorem finishSetup (h : Guarded (some c) (some c) w) (hwhole : w.broken c = false) (stage : Stage)
    (result : Except Bytes Unit) : Guarded none none (w.finishSetup c stage result) := by
  cases result with
  | error err => exact h.close (by simp) (by simp)
  | ok =>
    cases stage with
    | resolve => exact h.repair (by simp) (by simp) ((h c).stage _ (by simp))
    | connect =>
      simp only [World.finishSetup]
      split
      · have ht := h.extendTimer (c := c) (by simp)
        refine ht.repair (by simp) (by simp) ((ht c).stage _ fun _ => ?_)
        rw [World.conns_extendTimer, update_self]
        exact watched_armed rfl
      · exact h.ready hwhole
    | handshake => exact h.ready hwhole

/-! ## The events -/

theorem weaken (h : Guarded none none w) (x y : Option ConnId) : Guarded x y w :=
  fun d => (h d).weaken (fun _ => by simp) fun _ => by simp

/-- A change that leaves one connection exempted. -/
theorem exempt (h : Guarded none none w) (x y : Option ConnId) {k : Conn}
    (hk : Guard (x ≠ some c) (y ≠ some c) (w.broken c) k) :
    Guarded x y { w with conns := Function.update w.conns c k } :=
  (h.weaken x y).update hk

/-- **Every event keeps the invariant.** -/
theorem step (h : Guarded none none w) (hw : Exclusive w) {e : Event} {w' : World}
    (hstep : w.step e = some w') : Guarded none none w' := by
  obtain ⟨-, hstep⟩ := World.step_eq_some hstep
  have hP := keptCarrying none none
  cases e with
  | request q stall =>
    cases hstep
    exact Everywhere.request hP h q stall
  | next =>
    cases hstep
    exact Everywhere.nextThen hP h _
  | release c =>
    obtain ⟨-, rfl⟩ := World.release_inv hstep
    exact Everywhere.release (w := { w with held := w.held.erase c }) hP h c
  | close c =>
    obtain ⟨-, -, rfl⟩ := World.close_inv hstep
    exact h.close (by simp) (by simp)
  | remove c =>
    obtain ⟨-, rfl⟩ := World.remove_inv hstep
    exact h
  | maxConnections n =>
    cases hstep
    exact h
  | limitConnections b =>
    cases hstep
    exact h
  | setupDone c result =>
    obtain ⟨stage, hset, -, -, rfl⟩ := World.setupDone_inv hstep
    refine h.update ⟨fun ht hopen hconn => (h c).timed ht hopen ?_, fun _ _ hn => (nomatch hn),
      (h c).single, (h c).shaped, (h c).stopped⟩
    simpa [Conn.connected, hset] using hconn
  | runSetup c =>
    obtain ⟨stage, result, hset, rfl⟩ := World.runSetup_inv hstep
    have ho := ((hw.conn c).setup (by simp [hset])).1
    have hk := h c
    -- a connection that is being established has had no exception
    have hwhole : w.broken c = false := by
      rw [← Bool.not_eq_true]
      intro hb
      exact (hk.stopped hb).2 ((hw.conn c).opening ho).1
    have hbefore : Guarded (some c) (some c) (w.modConn c fun k => { k with setup := none }) :=
      h.exempt _ _ ⟨by simp, by simp, hk.single, hk.shaped, hk.stopped⟩
    exact hbefore.finishSetup hwhole stage result
  | receive c i bytes =>
    obtain ⟨op, hop, -, -, -, rfl⟩ := World.receive_inv hstep
    exact h.update ((h c).setRead hop _ _)
  | readFails c i err =>
    obtain ⟨op, hop, -, rfl⟩ := World.readFails_inv hstep
    exact h.update ((h c).setRead hop (w.conns c).input _)
  | runRead c i v =>
    obtain ⟨op, result, hop, -, rfl⟩ := World.runRead_inv hstep
    obtain ⟨-, hreads, hpoint⟩ := hw.beforeRead hop
    have hk := h c
    have hwhole : w.broken c = false := by
      rw [← Bool.not_eq_true]
      intro hb
      rw [(hk.stopped hb).1] at hop
      simp at hop
    have hbefore : Guarded none (some c)
        (w.modConn c fun k => { k with reads := k.reads.eraseIdx i }) :=
      h.exempt _ _ ⟨fun _ => hk.timed (by simp), by simp, hk.single,
        fun o ho => hk.shaped o (List.mem_of_mem_eraseIdx ho),
        fun hb => absurd hb (by simp [hwhole])⟩
    exact hbefore.finishRead hreads hwhole (hk.shaped op (List.mem_of_getElem? hop)) hpoint result v
  | writeDone c i result =>
    obtain ⟨op, -, -, -, rfl⟩ := World.writeDone_inv hstep
    exact h.update ((h c).inner rfl rfl rfl rfl rfl)
  | runWrite c i v =>
    obtain ⟨op, result, -, -, rfl⟩ := World.runWrite_inv hstep
    have hbefore : Guarded none none (w.modConn c fun k => { k with writes := k.writes.eraseIdx i }) :=
      h.update ((h c).inner rfl rfl rfl rfl rfl)
    cases result with
    | ok => exact hbefore.extendTimer (by simp)
    | error err =>
      simp only [World.finishWrite]
      split
      · exact hbefore
      · exact close (Everywhere.settleUnlessReady hP hbefore c _ _ v) (by simp) (by simp)
  | expire c i =>
    obtain ⟨t, ht, -, rfl⟩ := World.expire_inv hstep
    exact h.update ((h c).expire ht)
  | runWait c i v =>
    obtain ⟨⟨target, status⟩, ht, hst, rfl⟩ := World.runWait_inv hstep
    have hk := h c
    cases status with
    | pending => exact absurd rfl hst
    | cancelled => exact h.update (hk.eraseCancelled ht rfl)
    | expired =>
      -- the connection closes, and what was pending is cancelled
      have hbefore : Guarded (some c) none
          ((w.modConn c fun k => { k with waits := k.waits.eraseIdx i }).cancelTimer c) := by
        rw [World.cancelTimer, World.modConn_modConn]
        exact h.exempt _ _ ⟨by simp, fun _ => hk.reads (by simp),
          (countP_cancel _).trans_le (Nat.zero_le _), hk.shaped, hk.stopped⟩
      exact hbefore.closeAndFail (by simp) (by simp) _ v

theorem init (eraseEnd : List (Option FutId) → List (Option FutId)) (tls limit : Bool) (max : Nat) :
    Guarded none none (World.init eraseEnd tls limit max) := by
  intro d
  refine ⟨fun _ _ hconn => ?_, fun _ _ hset => ?_, Nat.zero_le _, ?_, ?_⟩
  · simp [World.init, Conn.connected] at hconn
  · simp [World.init] at hset
  · simp [World.init]
  · simp [World.init, World.broken]

/-- What the invariant says about all connections. -/
theorem watchdog (h : Guarded none none w) (hw : Exclusive w) : Watchdog w where
  timed c := (h c).timed (by simp)
  single c := (h c).single
  reading c hopen hset hb :=
    List.length_eq_one_iff.mp (Nat.le_antisymm (hw.conn c).oneRead
      (List.length_pos_iff.mpr ((h c).reads (by simp) hopen hset hb)))
  idle c hc hopen := by
    obtain ⟨hres, ho⟩ := (hw.conn c).idle hc
    -- nothing has gone wrong on a connection without a response
    have hb : w.broken c = false := by
      rw [← Bool.not_eq_true]
      exact fun hb => ((h c).stopped hb).2 hres
    have hset : (w.conns c).setup = none := by
      by_contra hne
      exact ho ((hw.conn c).setup hne).1
    have hone := Nat.le_antisymm (hw.conn c).oneRead
      (List.length_pos_iff.mpr ((h c).reads (by simp) hopen hset hb))
    obtain ⟨op, hop⟩ := List.length_eq_one_iff.mp hone
    exact ⟨op, hop, (hw.conn c).between hres op (hop ▸ List.mem_singleton_self op)⟩

end Guarded

/-- **No connection is forgotten**, in any run. -/
theorem watchdog_of_run {eraseEnd : List (Option FutId) → List (Option FutId)} {tls limit : Bool}
    {max : Nat} {w : World}
    (run : Run World.step anyEvent (World.init eraseEnd tls limit max) w) : Watchdog w := by
  have hinv : Steady w ∧ Guarded none none w := by
    refine run.invariant (P := fun u => Steady u ∧ Guarded none none u)
      ⟨Steady.init eraseEnd tls limit max, Guarded.init eraseEnd tls limit max⟩ ?_
    intro t u e h _ hstep
    exact ⟨h.1.step hstep, h.2.step h.1.exclusive hstep⟩
  exact hinv.2.watchdog hinv.1.exclusive

/-- The response has been read, and the connection waits for the next request. -/
def idleConnection : List Event :=
  [.request getRequest 30000] ++ connects 0 ++
    [.receive 0 0 shortResponse, .runRead 0 0 .accept, .runRead 0 0 .accept, .runRead 0 0 .accept]

theorem watchdog_idleConnection :
    ∃ w, exec World.step (World.init id false true 1) idleConnection = some w ∧
      w.pool.available = [0] ∧ (w.conns 0).closed = false ∧ Watchdog w := by
  have hvals : (exec World.step (World.init id false true 1) idleConnection).map
      (fun w => (w.pool.available, (w.conns 0).closed)) = some ([0], false) := by decide
  obtain ⟨w, hw, hvals⟩ := Option.map_eq_some_iff.mp hvals
  obtain ⟨havailable, hopen⟩ := Prod.mk.inj hvals
  exact ⟨w, hw, havailable, hopen,
    watchdog_of_run (Run.of_exec (fun _ _ => trivial) idleConnection hw)⟩

/-! ## What the timer is for -/

/-- Wait `i` of connection `c` expires, unless it has, and its handler runs. -/
def runsOut (c : ConnId) (i : Nat) (t : Wait) (v : Verdict) : List Event :=
  match t.status with
  | .pending => [.expire c i, .runWait c i v]
  | _ => [.runWait c i v]

/-- **A stall ends**: every connected, open connection has a wait that, once its time is up,
closes the connection and leaves the attempt it carries settled, whatever the verdict; with
`retry` that is all, and the request itself goes on. -/
def StallEnds (w : World) : Prop :=
  ∀ c, (w.conns c).closed = false → (w.conns c).connected = true →
    ∃ i t, (w.conns c).waits[i]? = some t ∧ ∀ v, ∃ w', exec World.step w (runsOut c i t v) = some w' ∧
      (w'.conns c).closed = true ∧ w'.owes c = false

/-- Failing a response closes nothing and opens nothing. -/
theorem World.closed_closeAndFail (w : World) (c : ConnId) (err : Bytes) (v : Verdict) :
    (((w.close c).failResponse c err v).conns c).closed = true := by
  have h : Everywhere (fun d _ k => d = c → k.closed = true) (w.close c) := by
    rintro d rfl
    exact w.closed_close d
  exact Everywhere.failResponse (fun d b k hk _ _ _ _ => hk) h c err v c rfl

/-- The handler of an expired wait. -/
theorem stallEnds_expired {w : World} {c : ConnId} {i target : Nat} (hw : Steady w)
    (hcarried : Carried none w) (hfault : w.fault = none)
    (ht : (w.conns c).waits[i]? = some ⟨target, .expired⟩) (v : Verdict) :
    ∃ w', w.step (.runWait c i v) = some w' ∧ (w'.conns c).closed = true ∧ w'.owes c = false := by
  have hstep : w.step (.runWait c i v) =
      some ((w.modConn c fun k => { k with waits := k.waits.eraseIdx i }).finishWait c
        ⟨target, .expired⟩ v) := by
    simp [World.step, hfault, World.apply, ht]
  refine ⟨_, hstep, World.closed_closeAndFail _ c _ v, ?_⟩
  exact hcarried.seen hw (e := .runWait c i v) ⟨rfl, target, ht⟩ trivial hstep

/-- **Every stall ends**, in any run in which no read without a hook fails on a connection
that owes an answer and the program closes no such connection, for as long as it has not
stopped. -/
theorem stallEnds_of_run {eraseEnd : List (Option FutId) → List (Option FutId)} {tls limit : Bool}
    {max : Nat} {w : World} (run : Run World.step hooked (World.init eraseEnd tls limit max) w)
    (hfault : w.fault = none) : StallEnds w := by
  have hinv : Steady w ∧ Guarded none none w ∧ Carried none w := by
    refine run.invariant (P := fun u => Steady u ∧ Guarded none none u ∧ Carried none u)
      ⟨Steady.init eraseEnd tls limit max, Guarded.init eraseEnd tls limit max,
        fun c => ⟨by simp [World.init], by simp [World.init], by simp [World.init]⟩⟩ ?_
    intro t u e h hok hstep
    exact ⟨h.1.step hstep, h.2.1.step h.1.exclusive hstep, h.2.2.step h.1 hok hstep⟩
  obtain ⟨hw, hguarded, hcarried⟩ := hinv
  intro c hopen hconn
  obtain ⟨⟨target, status⟩, hmem, hlive⟩ := (hguarded c).timed (by simp) hopen hconn
  obtain ⟨i, ht⟩ := List.mem_iff_getElem?.mp hmem
  refine ⟨i, _, ht, fun v => ?_⟩
  cases status with
  | cancelled => exact absurd rfl hlive
  | expired =>
    obtain ⟨w', hstep, hend⟩ := stallEnds_expired hw hcarried hfault ht v
    exact ⟨w', by simp [runsOut, exec, hstep], hend⟩
  | pending =>
    have hexpire : w.step (.expire c i) = some (w.modConn c fun k =>
        { k with waits := k.waits.set i ⟨target, .expired⟩ }) := by
      simp [World.step, hfault, World.apply, ht]
    have hset : ((w.modConn c fun k =>
        { k with waits := k.waits.set i ⟨target, .expired⟩ }).conns c).waits[i]? =
          some ⟨target, .expired⟩ := by
      have hi := (List.getElem?_eq_some_iff.mp ht).1
      simp [World.modConn, hi]
    obtain ⟨w', hstep, hend⟩ := stallEnds_expired (hw.step hexpire)
      (hcarried.step hw (e := .expire c i) trivial hexpire) hfault hset v
    exact ⟨w', by simp [runsOut, exec, hexpire, hstep], hend⟩

/-- A request is written, and the server says nothing. -/
def silentServer : List Event := [.request getRequest 30000] ++ connects 0

theorem stallEnds_silentServer :
    ∃ w, exec (guarded World.step hooked) (World.init id false true 8) silentServer = some w ∧
      w.owes 0 = true ∧ StallEnds w := by
  have hvals : (exec (guarded World.step hooked) (World.init id false true 8) silentServer).map
      (fun w => (w.owes 0, w.fault)) = some (true, none) := by decide
  obtain ⟨w, hw, hvals⟩ := Option.map_eq_some_iff.mp hvals
  obtain ⟨howes, hfault⟩ := Prod.mk.inj hvals
  exact ⟨w, hw, howes, stallEnds_of_run (Run.of_guarded silentServer hw) hfault⟩

end AsioProtocols
