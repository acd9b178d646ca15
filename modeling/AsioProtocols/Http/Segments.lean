import AsioProtocols.Base.Segments
import AsioProtocols.Http.Arrivals
import AsioProtocols.Http.ExclusiveRuns
import AsioProtocols.Http.Request

/-!
# However a response is cut

What a connection makes of the bytes of a server depends on the bytes alone: in two runs
in which only this connection is read, and in which it has received the same bytes, the
handlers that are left lead to the same state of the whole client, whatever the bytes
are, however they were cut into socket reads, and however late the handlers ran.
`sameOutcome_of_run` says so of every reachable state.

The instance of `Patient` behind it takes `World.arrive` for its first move and
`World.handleRead`, the handler of the outstanding read, for its second. The two commute
but for a counted read: if its bytes are in the buffer when it starts, its callback runs
at once, where it is a turn of its own if they come in later. `Turn` is what a callback
leaves behind, and allows for that.
-/

namespace AsioProtocols

open Function StateTransition

/-! ## A turn of the read handler -/

namespace World

/-- The handler of the read of `c`; the slots of `on_completion` answer by what has been
settled and asked before. -/
def handleRead (w : World) (c : ConnId) (answers : List Deed → Verdict) : Option World :=
  w.step (.runRead c 0 (answers w.completions.history))

theorem handleRead_eq {w : World} {c : ConnId} {answers : List Deed → Verdict} {v : Verdict}
    {op : ReadOp} {result : Except Bytes Nat} (hreads : (w.conns c).reads = [op])
    (hresult : op.result = some result) (hrunning : w.fault = none)
    (hanswer : answers w.completions.history = v) : w.handleRead c answers =
      some ((w.modConn c fun k => { k with reads := k.reads.eraseIdx 0 }).finishRead c op
        result v) := by
  simp [handleRead, step, hrunning, apply, hreads, hresult, hanswer]

end World

/-- While a handler runs: the connection has no read, and at most `n` bytes. -/
structure Handling (c : ConnId) (answers : List Deed → Verdict) (v : Verdict) (n : Nat)
    (w : World) : Prop where
  prompt : Prompt w
  reads : (w.conns c).reads = []
  input : (w.conns c).input.length ≤ n
  running : w.fault = none
  answered : answers w.completions.history = v

/-- Where it leads, `u`, and where it leads when `s` has arrived before, `x`: the same, or
there a read has its bytes at once that has a handler of its own here. -/
structure Turn (c : ConnId) (answers : List Deed → Verdict) (s : Bytes) (n : Nat) (u x : World) :
    Prop where
  prompt : Prompt u
  one : (u.conns c).reads.length ≤ 1
  input : (u.conns c).input.length ≤ n
  late : x = u.arrive c s ∨ (u.arrive c s).handleRead c answers = some x

theorem Turn.mono {c : ConnId} {answers : List Deed → Verdict} {s : Bytes} {n k : Nat}
    {u x : World} (h : Turn c answers s n u x) (hk : n ≤ k) : Turn c answers s k u x :=
  ⟨h.prompt, h.one, h.input.trans hk, h.late⟩

namespace Handling

variable {c : ConnId} {r : RespId} {answers : List Deed → Verdict} {v : Verdict} {n : Nat}
  {w u x : World} {s : Bytes}

/-- What looks at no buffer. -/
theorem quiet (h : Handling c answers v n w) (hu : u.buffers = w.buffers)
    (hx : x = u.arrive c s) : Turn c answers s n u x := by
  have hreads : (u.conns c).reads = [] := (congrArg (fun b => (b c).2) hu).trans h.reads
  exact ⟨h.prompt.of_buffers hu, by simp [hreads],
    (congrArg (fun b => (b c).1.length) hu).trans_le h.input, .inl hx⟩

theorem of_buffers (h : Handling c answers v n w) (hu : u.buffers = w.buffers)
    (hfault : u.fault = w.fault) (hhistory : u.completions = w.completions) :
    Handling c answers v n u :=
  ⟨h.prompt.of_buffers hu, (congrArg (fun b => (b c).2) hu).trans h.reads,
    (congrArg (fun b => (b c).1.length) hu).trans_le h.input, hfault.trans h.running,
    hhistory ▸ h.answered⟩

theorem mono (h : Handling c answers v n w) {k : Nat} (hk : n ≤ k) : Handling c answers v k w :=
  ⟨h.prompt, h.reads, h.input.trans hk, h.running, h.answered⟩

theorem extendTimer (h : Handling c answers v n w) : Handling c answers v n (w.extendTimer c) :=
  h.of_buffers World.buffers_extendTimer rfl rfl

theorem store (h : Handling c answers v n w) (r : RespId) (m : Message) :
    Handling c answers v n (w.store c r m) :=
  h.of_buffers rfl rfl rfl

/-- The parser of the connection goes on, with less to read perhaps. -/
theorem parser (h : Handling c answers v n w) (input : Bytes) {k : Nat} (hk : input.length ≤ k)
    (mode : Transfer) (expected : Nat) : Handling c answers v k (w.modConn c fun k =>
      { k with input := input, transferMode := mode, expectedBytes := expected }) := by
  refine ⟨h.prompt.update fun op hop => ?_, ?_, ?_, h.running, h.answered⟩
  · rw [show _ = [] from h.reads] at hop
    cases hop
  · simpa [World.modConn] using h.reads
  · simpa [World.modConn] using hk

/-! ### Reads -/

theorem readDelimited (h : Handling c answers v n w) (p : Point) :
    Turn c answers s n (w.readDelimited c p) ((w.arrive c s).readDelimited c p) := by
  refine ⟨h.prompt.readDelimited c p, ?_, ?_, .inl (World.readDelimited_arrive p)⟩
  · simp [World.readDelimited, World.modConn, h.reads]
  · simpa [World.readDelimited, World.modConn] using h.input

/-- Bytes are taken off the buffer. -/
theorem drop (h : Handling c answers v n w) {m : Nat} (hm : m ≤ (w.conns c).input.length) :
    Handling c answers v ((w.conns c).input.length - m)
      (w.modConn c fun k => { k with input := k.input.drop m }) ∧
    (w.arrive c s).modConn c (fun k => { k with input := k.input.drop m }) =
      (w.modConn c fun k => { k with input := k.input.drop m }).arrive c s := by
  constructor
  · refine h.parser ((w.conns c).input.drop m) ?_ (w.conns c).transferMode (w.conns c).expectedBytes
    exact (List.length_drop ..).le
  · rw [World.arrive, World.arrive, World.modConn_modConn, World.modConn_modConn]
    refine World.modConn_congr ?_
    simp [Conn.arrive, h.reads, List.drop_append_of_le_length hm]

/-- A counted read whose callback is `code`, also when it runs at once. -/
theorem read (h : Handling c answers v n w) {m : Nat} {p : Point} {code : World → Bytes → World}
    (hcode : ∀ {u : World} (data : Bytes), Handling c answers v n u →
      Turn c answers s n (code u data) (code (u.arrive c s) data))
    (hdata : ∀ u data, code u data = u.onData c p data v) :
    Turn c answers s n (w.read c m p code) ((w.arrive c s).read c m p code) := by
  have hinput : ((w.arrive c s).conns c).input = (w.conns c).input ++ s := by
    rw [World.conns_arrive, if_pos rfl]
    rfl
  rw [World.read, World.read, hinput]
  by_cases hshort : (w.conns c).input.length < m
  · have hprompt : Prompt (w.modConn c fun k =>
        { k with reads := k.reads ++ [{ point := p, wanted := some m }] }) := by
      refine h.prompt.addRead ⟨.inl (if_neg (Nat.not_le.mpr hshort)).symm, ?_⟩
      simp only [ne_eq, Option.some.injEq]
      omega
    rw [if_pos hshort]
    refine ⟨hprompt, by simp [World.modConn, h.reads], by simpa [World.modConn] using h.input, ?_⟩
    by_cases hlate : ((w.conns c).input ++ s).length < m
    · -- it waits for more in any case
      rw [if_pos hlate]
      refine .inl ?_
      rw [World.arrive, World.arrive, World.modConn_modConn, World.modConn_modConn]
      refine World.modConn_congr ?_
      rw [List.length_append] at hlate
      simp [Conn.arrive, h.reads, ReadOp.arrive, ReadOp.completion, hlate]
    · rw [if_neg hlate]
      refine .inr ?_
      -- the bytes are there now: the callback gets a turn of its own
      have hreads : (((w.modConn c fun k => { k with
            reads := k.reads ++ [{ point := p, wanted := some m }] }).arrive c s).conns c).reads =
          [{ point := p, wanted := some m, result := some (.ok m) }] := by
        rw [List.length_append] at hlate
        simp [World.arrive, World.modConn, Conn.arrive, h.reads, ReadOp.arrive, ReadOp.completion,
          Nat.not_lt.mp hlate]
      rw [World.handleRead_eq hreads rfl h.running h.answered, World.finishRead_data rfl, hdata]
      congr 2
      · rw [Reading.taken, World.arrive, World.arrive, World.modConn_modConn, World.modConn_modConn,
          World.modConn_modConn, World.modConn_modConn]
        refine World.modConn_congr ?_
        simp [Conn.arrive, h.reads]
      · simp [World.arrive, World.modConn, Conn.arrive]
  · have hlong : ¬ ((w.conns c).input ++ s).length < m := by
      rw [List.length_append]
      omega
    -- at once in both
    rw [if_neg hshort, if_neg hlong]
    obtain ⟨hbehind, hdrop⟩ := h.drop (s := s) (Nat.not_lt.mp hshort)
    rw [hdrop, List.take_append_of_le_length (Nat.not_lt.mp hshort)]
    exact hcode _ (hbehind.mono ((Nat.sub_le _ _).trans h.input))

/-! ### Callbacks -/

/-- The end of a response starts the read of the next status line. -/
theorem extractNextBodyChunk (h : Handling c answers v n w) (data : Bytes) :
    Turn c answers s n (w.extractNextBodyChunk c data v)
      ((w.arrive c s).extractNextBodyChunk c data v) := by
  have hlate := World.extractNextBodyChunk_arrive (w := w) (c := c) (d := c) (s := s) (v := v) data
  cases hr : (w.conns c).res with
  | none => exact h.quiet (by simp only [World.extractNextBodyChunk, hr]; rfl) hlate
  | some r =>
    have cleared : ∀ u, (u = w ∨ ∃ m, u = w.store c r m) → Handling c answers v n
        ((u.modConn c fun k => { k with res := none }).note (.finished c r)) := by
      have buffers : ∀ u : World,
          (u.modConn c fun k => { k with res := none }).buffers = u.buffers :=
        fun u => World.buffers_modConn u fun _ => ⟨rfl, rfl⟩
      rintro u (rfl | ⟨m, rfl⟩)
      · exact h.of_buffers (buffers u) rfl rfl
      · exact h.of_buffers (buffers _) rfl rfl
    have hends : Prompt (w.extractNextBodyChunk c data v) ∧
        ((w.extractNextBodyChunk c data v).buffers c).2.length ≤ 1 ∧
        ((w.extractNextBodyChunk c data v).buffers c).1.length ≤ n := by
      refine World.extractNextBodyChunk_cases
        (P := fun u => Prompt u ∧ (u.buffers c).2.length ≤ 1 ∧ (u.buffers c).1.length ≤ n)
        data hr ?_ ?_
      · intro u status hu
        have hcleared := cleared u hu
        rw [World.buffers_close, World.buffers_settleUnlessReady]
        refine ⟨hcleared.prompt.of_buffers ?_, ?_, hcleared.input⟩
        rotate_left
        · exact (congrArg List.length hcleared.reads).trans_le (Nat.zero_le 1)
        exact World.buffers_close.trans (World.buffers_settleUnlessReady _)
      · intro u status hu
        have hreads := (cleared u hu).readDelimited (s := s) .status
        rw [World.buffers_settleUnlessReady, World.buffers_release]
        refine ⟨hreads.prompt.of_buffers ?_, hreads.one, hreads.input⟩
        exact (World.buffers_settleUnlessReady _).trans World.buffers_release
    exact ⟨hends.1, hends.2.1, hends.2.2, .inl hlate⟩

theorem onBody (h : Handling c answers v n w) (data : Bytes) :
    Turn c answers s n (w.onBody c data v) ((w.arrive c s).onBody c data v) := by
  rw [World.onBody, World.onBody, World.extendTimer_arrive]
  exact h.extendTimer.extractNextBodyChunk data

theorem onLast (h : Handling c answers v n w) :
    Turn c answers s n (w.onLast c v) ((w.arrive c s).onLast c v) := by
  rw [World.onLast, World.onLast, World.extendTimer_arrive]
  exact h.extendTimer.extractNextBodyChunk []

theorem readNextBodyChunk (h : Handling c answers v n w) :
    Turn c answers s n (w.readNextBodyChunk c v) ((w.arrive c s).readNextBodyChunk c v) := by
  rw [World.readNextBodyChunk, World.readNextBodyChunk, World.transferMode_arrive,
    World.expectedBytes_arrive]
  split
  · exact h.readDelimited .chunkSize
  · exact h.read (fun data hu => hu.onBody data) fun _ _ => rfl

theorem onChunkData (h : Handling c answers v n w) (data : Bytes) :
    Turn c answers s n (w.onChunkData c data v) ((w.arrive c s).onChunkData c data v) := by
  simp only [World.onChunkData, World.res_arrive]
  split
  · exact h.quiet rfl rfl
  · rw [World.responses_arrive, World.store_arrive, World.extendTimer_arrive]
    exact (h.store _ _).extendTimer.readNextBodyChunk

theorem onChunkSize (h : Handling c answers v n w) (line : Bytes) :
    Turn c answers s n (w.onChunkSize c line v) ((w.arrive c s).onChunkSize c line v) := by
  simp only [World.onChunkSize, World.extendTimer_arrive]
  split
  · exact h.extendTimer.quiet rfl rfl
  · split
    · rw [World.modConn_arrive (by intro k; rfl)]
      refine Handling.read ?_ (fun data hu => hu.onChunkData data) fun _ _ => rfl
      exact h.extendTimer.of_buffers (World.buffers_modConn _ fun _ => ⟨rfl, rfl⟩) rfl rfl
    · exact h.extendTimer.readDelimited .last

theorem headersEnd (h : Handling c answers v n w) (r : RespId) :
    Turn c answers s n (w.headersEnd c r v) ((w.arrive c s).headersEnd c r v) := by
  have framed : ∀ mode expected, Turn c answers s n
      ((w.modConn c fun k =>
        { k with expectedBytes := expected, transferMode := mode }).readNextBodyChunk c v)
      (((w.arrive c s).modConn c fun k =>
        { k with expectedBytes := expected, transferMode := mode }).readNextBodyChunk c v) := by
    intro mode expected
    rw [World.modConn_arrive (by intro k; rfl)]
    refine Handling.readNextBodyChunk ?_
    exact h.of_buffers (World.buffers_modConn _ fun _ => ⟨rfl, rfl⟩) rfl rfl
  have givenUp : ∀ err, Turn c answers s n ((w.close c).failResponse c err v)
      (((w.arrive c s).close c).failResponse c err v) := by
    intro err
    rw [World.close_arrive, World.failResponse_arrive]
    exact h.quiet (by simp) rfl
  simp only [World.headersEnd, World.responses_arrive]
  split
  · split
    · exact h.quiet rfl rfl
    · exact framed _ _
  · split
    · split
      · exact givenUp _
      · exact framed _ _
    · exact givenUp _

theorem onHeader (h : Handling c answers v n w) (line : Bytes) :
    Turn c answers s n (w.onHeader c line v) ((w.arrive c s).onHeader c line v) := by
  simp only [World.onHeader, World.extendTimer_arrive, World.res_arrive, World.responses_arrive]
  split
  · exact h.extendTimer.quiet rfl rfl
  · split
    · exact h.extendTimer.headersEnd _
    · split
      · exact h.extendTimer.quiet rfl rfl
      · exact (h.extendTimer.store _ _).readDelimited .header

theorem onStatus (h : Handling c answers v n w) (line : Bytes) :
    Turn c answers s n (w.onStatus c line) ((w.arrive c s).onStatus c line) := by
  simp only [World.onStatus, World.res_arrive, World.extendTimer_arrive, World.responses_arrive]
  split
  · exact h.quiet (by simp) World.close_arrive
  · rename_i r _
    have hstored : ∀ parsed, Handling c answers v n ((w.extendTimer c).storeStatus c r parsed) :=
      fun parsed => h.extendTimer.of_buffers rfl rfl rfl
    split
    · exact (hstored (((w.extendTimer c).responses r).parseInitialLine line)).quiet rfl rfl
    · exact (hstored (((w.extendTimer c).responses r).parseInitialLine line)).readDelimited .header

theorem onLine (h : Handling c answers v n w) (p : Point) (line : Bytes) :
    Turn c answers s n (w.onLine c p line v) ((w.arrive c s).onLine c p line v) := by
  cases p with
  | status => exact h.onStatus line
  | header => exact h.onHeader line
  | chunkSize => exact h.onChunkSize line
  | last => exact h.onLast
  | chunkData => exact h.quiet rfl rfl
  | body => exact h.quiet rfl rfl

theorem onData (h : Handling c answers v n w) (p : Point) (data : Bytes) :
    Turn c answers s n (w.onData c p data v) ((w.arrive c s).onData c p data v) := by
  cases p with
  | chunkData => exact h.onChunkData data
  | body => exact h.onBody data
  | status => exact h.quiet rfl rfl
  | header => exact h.quiet rfl rfl
  | chunkSize => exact h.quiet rfl rfl
  | last => exact h.quiet rfl rfl

/-- **The handler of a completed read** takes something off the buffer, or the connection
reads no more. -/
theorem finishRead (h : Handling c answers v (w.conns c).input.length w) {op : ReadOp}
    {result : Except Bytes Nat} (hop : op.Prompt (w.conns c).input)
    (hresult : op.result = some result) :
    Turn c answers s (w.conns c).input.length (w.finishRead c op result v)
      ((w.arrive c s).finishRead c op result v) ∧
    (((w.finishRead c op result v).conns c).input.length < (w.conns c).input.length ∨
      ((w.finishRead c op result v).conns c).reads = []) := by
  have hlonger : ((w.arrive c s).conns c).input = (w.conns c).input ++ s := by
    rw [World.conns_arrive, if_pos rfl]
    rfl
  cases result with
  | error err =>
    have hsame : (w.finishRead c op (.error err) v).buffers = w.buffers := by
      simp only [World.finishRead]
      split <;> simp
    refine ⟨h.quiet hsame ?_, .inr ((congrArg (fun b => (b c).2) hsame).trans h.reads)⟩
    simp only [World.finishRead, World.close_arrive, World.failResponse_arrive]
    split <;> rfl
  | ok pos =>
    have hfound : op.completion (w.conns c).input = some (.ok pos) := by
      rcases hop.result with hr | ⟨err, hr⟩
      · exact hr.symm.trans hresult
      · rw [hr] at hresult
        cases hresult
    cases hwanted : op.wanted with
    | none =>
      simp only [ReadOp.completion, hwanted] at hfound
      obtain ⟨i, hfind, hi⟩ := Option.map_eq_some_iff.mp hfound
      cases hi
      have hlen : pos + 2 ≤ (w.conns c).input.length := find_crlf_lt hfind
      -- the line was there before `s`
      obtain ⟨hbehind, hdrop⟩ := h.drop (s := s) hlen
      have hturn := hbehind.onLine (s := s) op.point ((w.conns c).input.take pos)
      simp only [World.finishRead, hwanted, hlonger, hdrop]
      rw [List.take_append_of_le_length (Nat.le_of_add_right_le hlen)]
      exact ⟨hturn.mono (Nat.sub_le _ _), .inl (hturn.input.trans_lt (by omega))⟩
    | some m =>
      simp only [ReadOp.completion, hwanted] at hfound
      obtain ⟨hlen, -⟩ := Option.ite_none_right_eq_some.mp hfound
      have hpos : 0 < m := Nat.pos_of_ne_zero fun hm => hop.wanted (hm ▸ hwanted)
      obtain ⟨hbehind, hdrop⟩ := h.drop (s := s) hlen
      have hturn := hbehind.onData (s := s) op.point ((w.conns c).input.take m)
      simp only [World.finishRead, hwanted, hlonger, hdrop]
      rw [List.take_append_of_le_length hlen]
      exact ⟨hturn.mono (Nat.sub_le _ _), .inl (hturn.input.trans_lt (by omega))⟩

end Handling

namespace World

variable {w t : World} {c : ConnId} {answers : List Deed → Verdict} {s : Bytes}

/-- The only one of a list. -/
theorem only_of_getElem? {α : Type*} {l : List α} {i : Nat} {a : α} (hone : l.length ≤ 1)
    (h : l[i]? = some a) : i = 0 ∧ l = [a] := by
  match l, i, hone with
  | [b], 0, _ => exact ⟨rfl, congrArg (fun x => [x]) (Option.some.inj h)⟩
  | [b], i + 1, _ => simp at h
  | [], i, _ => simp at h

/-- A read that has completed before `s` arrives. -/
theorem reads_arrive {op : ReadOp} {result : Except Bytes Nat} (hreads : (w.conns c).reads = [op])
    (hresult : op.result = some result) : ((w.arrive c s).conns c).reads = [op] := by
  rw [conns_arrive, if_pos rfl]
  simp [Conn.arrive, hreads, ReadOp.arrive, hresult]

/-- **A turn of the read handler**, before `s` arrives and behind it. -/
theorem handleRead_turn (s : Bytes) (h : Prompt w) (hone : (w.conns c).reads.length ≤ 1)
    (hstep : w.handleRead c answers = some t) :
    ∃ x, (w.arrive c s).handleRead c answers = some x ∧
      Turn c answers s (w.conns c).input.length t x ∧
      ((t.conns c).input.length < (w.conns c).input.length ∨ (t.conns c).reads = []) := by
  obtain ⟨hrunning, happly⟩ := step_eq_some hstep
  obtain ⟨op, result, hop, hresult, rfl⟩ := runRead_inv happly
  have hreads : (w.conns c).reads = [op] := (only_of_getElem? hone hop).2
  have hinput : ((w.modConn c fun k => { k with reads := k.reads.eraseIdx 0 }).conns c).input =
      (w.conns c).input := by simp [modConn]
  have htaken : Handling c answers (answers w.completions.history)
      ((w.modConn c fun k => { k with reads := k.reads.eraseIdx 0 }).conns c).input.length
      (w.modConn c fun k => { k with reads := k.reads.eraseIdx 0 }) := by
    refine ⟨h.update ?_, ?_, Nat.le_refl _, hrunning, rfl⟩
    · simp [hreads]
    · simp [modConn, hreads]
  have hlate : (w.arrive c s).modConn c (fun k => { k with reads := k.reads.eraseIdx 0 }) =
      (w.modConn c fun k => { k with reads := k.reads.eraseIdx 0 }).arrive c s := by
    rw [arrive, arrive, modConn_modConn, modConn_modConn]
    refine modConn_congr ?_
    simp [Conn.arrive, hreads]
  have hprompt : op.Prompt (w.conns c).input := h c op (by simp [buffers, hreads])
  obtain ⟨hturn, hless⟩ := htaken.finishRead (s := s) (hinput.symm ▸ hprompt) hresult
  rw [hinput] at hturn hless
  refine ⟨_, ?_, hturn, hless⟩
  rw [handleRead_eq (reads_arrive hreads hresult) hresult hrunning rfl, hlate]
  rfl

end World

/-! ## The events -/

namespace Prompt

variable {w w' : World} {c : ConnId}

/-- **Every event keeps the reads prompt.** -/
theorem step (h : Prompt w) (hw : Exclusive w) {e : Event} (hstep : w.step e = some w') :
    Prompt w' := by
  obtain ⟨hrunning, happly⟩ := World.step_eq_some hstep
  -- what changes neither the input of a connection nor its reads
  have kept : ∀ {u : World} {c : ConnId} {f : Conn → Conn}, Prompt u →
      (∀ k : Conn, (f k).input = k.input ∧ (f k).reads = k.reads) → Prompt (u.modConn c f) :=
    fun hu hf => hu.of_buffers (World.buffers_modConn _ hf)
  cases e with
  | request q stall =>
    cases happly
    exact h.of_buffers (World.buffers_nextThen _)
  | next =>
    cases happly
    exact h.of_buffers (World.buffers_nextThen _)
  | release c =>
    obtain ⟨-, rfl⟩ := World.release_inv happly
    exact h.of_buffers World.buffers_release
  | close c =>
    obtain ⟨-, -, rfl⟩ := World.close_inv happly
    exact h.of_buffers World.buffers_close
  | remove c =>
    obtain ⟨-, rfl⟩ := World.remove_inv happly
    exact h.of_buffers rfl
  | maxConnections n =>
    cases happly
    exact h.of_buffers rfl
  | limitConnections b =>
    cases happly
    exact h.of_buffers rfl
  | setupDone c result =>
    obtain ⟨stage, -, -, -, rfl⟩ := World.setupDone_inv happly
    exact kept h fun _ => ⟨rfl, rfl⟩
  | runSetup c =>
    obtain ⟨stage, result, -, rfl⟩ := World.runSetup_inv happly
    have hu : Prompt (w.modConn c fun k => { k with setup := none }) := kept h fun _ => ⟨rfl, rfl⟩
    generalize w.modConn c (fun k => { k with setup := none }) = u at hu
    have ready : Prompt (u.ready c) :=
      ((hu.of_buffers World.buffers_extendTimer).readDelimited c .status).of_buffers
        World.buffers_settleOpened
    cases result with
    | error err => exact hu.of_buffers World.buffers_close
    | ok =>
      cases stage with
      | resolve =>
        show Prompt (u.modConn c fun k => { k with setup := some { stage := .connect } })
        exact kept hu fun _ => ⟨rfl, rfl⟩
      | connect =>
        simp only [World.finishSetup]
        split
        · exact kept (hu.of_buffers World.buffers_extendTimer) fun _ => ⟨rfl, rfl⟩
        · exact ready
      | handshake => exact ready
  | receive c i bytes =>
    obtain ⟨op, hop, -, -, -, rfl⟩ := World.receive_inv happly
    obtain ⟨rfl, hreads⟩ := World.only_of_getElem? (hw.conn c).oneRead hop
    refine h.update fun o ho => ?_
    obtain rfl : o = { op with result := op.completion ((w.conns c).input ++ bytes) } := by
      simpa [hreads] using ho
    exact ⟨.inl rfl, (h c op (by simp [World.buffers, hreads])).wanted⟩
  | readFails c i err =>
    obtain ⟨op, hop, -, rfl⟩ := World.readFails_inv happly
    refine h.update fun o ho => ?_
    rcases List.mem_or_eq_of_mem_set ho with hold | rfl
    · exact h c o hold
    · exact ⟨.inr ⟨err, rfl⟩, (h c op (List.mem_of_getElem? hop)).wanted⟩
  | runRead c i v =>
    obtain ⟨op, result, hop, -, -⟩ := World.runRead_inv happly
    have hone := (hw.conn c).oneRead
    obtain ⟨rfl, -⟩ := World.only_of_getElem? hone hop
    have hread : w.handleRead c (fun _ => v) = some w' := hstep
    obtain ⟨x, -, hturn, -⟩ := World.handleRead_turn [] h hone hread
    exact hturn.prompt
  | writeDone c i result =>
    obtain ⟨op, -, -, -, rfl⟩ := World.writeDone_inv happly
    exact kept h fun _ => ⟨rfl, rfl⟩
  | runWrite c i v =>
    obtain ⟨op, result, -, -, rfl⟩ := World.runWrite_inv happly
    have hu : Prompt (w.modConn c fun k => { k with writes := k.writes.eraseIdx i }) :=
      kept h fun _ => ⟨rfl, rfl⟩
    cases result with
    | ok => exact hu.of_buffers World.buffers_extendTimer
    | error err =>
      simp only [World.finishWrite]
      split
      · exact hu.of_buffers rfl
      · exact hu.of_buffers (World.buffers_close.trans (World.buffers_settleUnlessReady _))
  | expire c i =>
    obtain ⟨t, -, -, rfl⟩ := World.expire_inv happly
    exact kept h fun _ => ⟨rfl, rfl⟩
  | runWait c i v =>
    obtain ⟨t, -, -, rfl⟩ := World.runWait_inv happly
    have hu : Prompt (w.modConn c fun k => { k with waits := k.waits.eraseIdx i }) :=
      kept h fun _ => ⟨rfl, rfl⟩
    simp only [World.finishWait]
    split
    · exact hu.of_buffers (by simp)
    · exact hu

theorem init (eraseEnd : List (Option FutId) → List (Option FutId)) (tls limit : Bool)
    (max : Nat) : Prompt (World.init eraseEnd tls limit max) := by
  intro d op hop
  cases hop

end Prompt

/-! ## One outcome -/

/-- **Reading is patient.** -/
theorem patient (c : ConnId) (answers : List Deed → Verdict) :
    Patient (World.arrive c) (fun w => w.handleRead c answers)
      (fun w => Prompt w ∧ (w.conns c).reads.length ≤ 1)
      fun w => (w.conns c).input.length + (w.conns c).reads.length where
  nil := by
    rintro w ⟨hprompt, -⟩
    have hreads : (w.conns c).reads.map (fun op => op.arrive (w.conns c).input) =
        (w.conns c).reads :=
      (List.map_congr_left fun op hop => (hprompt c op hop).arrive_self).trans (List.map_id' _)
    rw [World.arrive, World.modConn, Conn.arrive, List.append_nil, hreads, update_eq_self]
  append := by
    rintro w - a b
    rw [World.arrive, World.arrive, World.arrive, World.modConn_modConn]
    refine World.modConn_congr ?_
    simp [Conn.arrive, ReadOp.arrive_arrive, ← List.append_assoc]
  arrives := by
    rintro w ⟨hprompt, hone⟩ a
    refine ⟨hprompt.arrive c a, ?_⟩
    rw [World.conns_arrive, if_pos rfl]
    simpa [Conn.arrive] using hone
  handles := by
    rintro w t ⟨hprompt, hone⟩ hstep
    obtain ⟨x, -, hturn, -⟩ := World.handleRead_turn [] hprompt hone hstep
    exact ⟨hturn.prompt, hturn.one⟩
  late := by
    rintro w t ⟨hprompt, hone⟩ hstep a
    obtain ⟨x, hx, hturn, -⟩ := World.handleRead_turn a hprompt hone hstep
    have moves : ∀ {u x : World}, u.handleRead c answers = some x →
        eval (fun w : World => w.handleRead c answers) u =
          eval (fun w => w.handleRead c answers) x :=
      fun hux => reaches_eval (.single hux)
    rcases hturn.late with rfl | hlate
    · exact moves hx
    · exact (moves hx).trans (moves hlate).symm
  ends := by
    rintro w t ⟨hprompt, hone⟩ hstep
    obtain ⟨x, -, hturn, hless⟩ := World.handleRead_turn [] hprompt hone hstep
    obtain ⟨-, happly⟩ := World.step_eq_some hstep
    obtain ⟨op, result, hop, -, -⟩ := World.runRead_inv happly
    have hreads : (w.conns c).reads.length = 1 := by simp [(World.only_of_getElem? hone hop).2]
    have hinput := hturn.input
    have hone' := hturn.one
    show (t.conns c).input.length + (t.conns c).reads.length <
      (w.conns c).input.length + (w.conns c).reads.length
    rcases hless with hless | hnone
    · omega
    · simp only [hnone, List.length_nil]
      omega

/-- The bytes that an event brings. -/
def Event.brings : Event → Bytes
  | .receive _ _ bytes => bytes
  | _ => []

/-- The client, and the bytes that have been received. -/
def reading : World × Bytes → Event → Option (World × Bytes) :=
  recorded World.step fun _ e _ s => s ++ e.brings

/-- Only connection `c` is read, and the slots answer by `answers`. -/
def onlyReads (c : ConnId) (answers : List Deed → Verdict) (x : World × Bytes) : Event → Prop
  | .receive d _ _ => d = c
  | .runRead d _ v => d = c ∧ v = answers x.1.completions.history
  | _ => False

/-- Only handlers of reads of `c` run. -/
def onlyHandles (c : ConnId) (answers : List Deed → Verdict) (w : World) (e : Event) : Prop :=
  ∃ i, e = .runRead c i (answers w.completions.history)

/-- No handler of a read of `c` can run. -/
def World.Drained (w : World) (c : ConnId) : Prop := ∀ i v, w.step (.runRead c i v) = none

section outcome

variable {w u z : World} {c : ConnId} {answers : List Deed → Verdict} {s : Bytes}

/-- A socket read is an arrival. -/
theorem World.receive_eq_arrive {op : ReadOp} {bytes : Bytes} (hreads : (w.conns c).reads = [op])
    (hnone : op.result = none) : w.receive c 0 op bytes = w.arrive c bytes := by
  refine modConn_congr ?_
  simp [Conn.arrive, hreads, ReadOp.arrive, hnone]

/-- A run that only reads takes the bytes in. -/
theorem takesIn_of_run (h : Prompt w) (hone : (w.conns c).reads.length ≤ 1) {x : World × Bytes}
    (run : Run reading (onlyReads c answers) (w, []) x) :
    TakesIn (World.arrive c) (fun u => u.handleRead c answers) w x.2 x.1 := by
  refine run.invariant (P := fun x =>
    TakesIn (World.arrive c) (fun u => u.handleRead c answers) w x.2 x.1) (.refl w) ?_
  rintro ⟨t, a⟩ y e ih allowed stepped
  obtain ⟨u, hstep, rfl⟩ := Option.map_eq_some_iff.mp stepped
  obtain ⟨-, happly⟩ := World.step_eq_some hstep
  have hfew : (t.conns c).reads.length ≤ 1 := ((patient c answers).eval_eq ih ⟨h, hone⟩).1.2
  cases e with
  | receive d i bytes =>
    obtain rfl : d = c := allowed
    obtain ⟨op, hop, hnone, -, -, rfl⟩ := World.receive_inv happly
    obtain ⟨rfl, hreads⟩ := World.only_of_getElem? hfew hop
    exact World.receive_eq_arrive hreads hnone ▸ ih.arrive bytes
  | runRead d i v =>
    obtain ⟨rfl, rfl⟩ := allowed
    obtain ⟨op, result, hop, -, -⟩ := World.runRead_inv happly
    obtain ⟨rfl, -⟩ := World.only_of_getElem? hfew hop
    simp only [Event.brings, List.append_nil]
    exact ih.handle hstep
  | _ => exact allowed.elim

/-- Handlers alone. -/
theorem run_of_reaches (h : Reaches (fun w : World => w.handleRead c answers) u z) :
    Run World.step (onlyHandles c answers) u z := by
  induction h with
  | refl => exact .refl u
  | tail _ hstep ih => exact .tail ih ⟨0, rfl⟩ hstep

theorem World.Drained.eq_of_run (h : u.Drained c)
    (run : Run World.step (onlyHandles c answers) u z) : z = u := by
  refine run.invariant (P := fun t => t = u) rfl ?_
  rintro t x e rfl ⟨i, rfl⟩ hstep
  rw [h] at hstep
  cases hstep

/-- **The bytes decide, not the reads**: from any reachable state, the runs in which only
`c` is read and in which it receives `s` lead to one and the same state of the whole
client, once the handlers have run. -/
theorem sameOutcome_of_run {eraseEnd : List (Option FutId) → List (Option FutId)}
    {tls limit : Bool} {max : Nat}
    (run : Run World.step anyEvent (World.init eraseEnd tls limit max) w) (c : ConnId)
    (answers : List Deed → Verdict) (s : Bytes) :
    ∃ z : World, z.Drained c ∧
      ∀ u, Run reading (onlyReads c answers) (w, []) (u, s) →
        Run World.step (onlyHandles c answers) u z ∧ (u.Drained c → u = z) := by
  have hinv : Exclusive w ∧ Prompt w := by
    refine run.invariant (P := fun u => Exclusive u ∧ Prompt u)
      ⟨Exclusive.init eraseEnd tls limit max, Prompt.init eraseEnd tls limit max⟩ ?_
    rintro t u e ⟨hw, hprompt⟩ - hstep
    exact ⟨hw.step hstep, hprompt.step hw hstep⟩
  have hone := (hinv.1.conn c).oneRead
  obtain ⟨z, ⟨-, hfew⟩, hend, hz⟩ := (patient c answers).outcome ⟨hinv.2, hone⟩ s
  refine ⟨z, fun i v => ?_, fun u hu => ?_⟩
  · by_contra hstep
    obtain ⟨t, ht⟩ := Option.ne_none_iff_exists'.mp hstep
    obtain ⟨hrunning, happly⟩ := World.step_eq_some ht
    obtain ⟨op, result, hop, hresult, -⟩ := World.runRead_inv happly
    rw [World.handleRead_eq (World.only_of_getElem? hfew hop).2 hresult hrunning rfl] at hend
    cases hend
  · have hrun := run_of_reaches (hz u (takesIn_of_run hinv.2 hone hu))
    exact ⟨hrun, fun hdrained => (hdrained.eq_of_run hrun).symm⟩

end outcome

/-- A short response, received in one piece, or in two with a handler in between. -/
def inOnePiece : List Event :=
  [.receive 0 0 shortResponse, .runRead 0 0 .accept, .runRead 0 0 .accept, .runRead 0 0 .accept]

def inTwoPieces : List Event :=
  [.receive 0 0 (shortResponse.take 20), .runRead 0 0 .accept, .receive 0 0 (shortResponse.drop 20),
    .runRead 0 0 .accept, .runRead 0 0 .accept]

theorem sameOutcome_inTwoPieces :
    ∃ w u u' z,
      exec World.step (World.init id false true 1) (.request getRequest 30000 :: connects 0) =
        some w ∧
      exec reading (w, []) inOnePiece = some (u, shortResponse) ∧
      exec reading (w, []) inTwoPieces = some (u', shortResponse) ∧
      u.completions.completion 0 = some (.done 200) ∧ z.Drained 0 ∧
      Run World.step (onlyHandles 0 fun _ => .accept) u z ∧
      Run World.step (onlyHandles 0 fun _ => .accept) u' z := by
  have hvals : (exec World.step (World.init id false true 1)
      (.request getRequest 30000 :: connects 0)).bind (fun w =>
        (exec reading (w, []) inOnePiece).bind fun x =>
          (exec reading (w, []) inTwoPieces).map fun y =>
            (x.2, y.2, x.1.completions.completion 0)) =
      some (shortResponse, shortResponse, some (.done 200)) := by decide
  obtain ⟨w, hw, hvals⟩ := Option.bind_eq_some_iff.mp hvals
  obtain ⟨⟨u, a⟩, hu, hvals⟩ := Option.bind_eq_some_iff.mp hvals
  obtain ⟨⟨u', b⟩, hu', hvals⟩ := Option.map_eq_some_iff.mp hvals
  obtain ⟨rfl, rfl, hcompleted⟩ := by simpa using hvals
  obtain ⟨z, hdrained, hz⟩ := sameOutcome_of_run (Run.of_exec (fun _ _ => trivial) _ hw) 0
    (fun _ => .accept) shortResponse
  refine ⟨w, u, u', z, hw, hu, hu', hcompleted, hdrained, (hz u ?_).1, (hz u' ?_).1⟩
  · exact Run.of_exec_mem inOnePiece (by simp [inOnePiece, onlyReads]) hu
  · exact Run.of_exec_mem inTwoPieces (by simp [inTwoPieces, onlyReads]) hu'

end AsioProtocols
