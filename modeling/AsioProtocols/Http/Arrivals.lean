import AsioProtocols.Http.Delimiter

/-!
# Bytes that arrive

`World.arrive` is the state in which bytes have come in on a connection: they are in its
buffer, and a read that waited for them has completed. Most of the client looks at no
buffer, so that it does the same in front of an arrival and behind it, which is what the
lemmas in `_arrive` say, and leaves the buffers alone (the lemmas `buffers_`).

`Prompt` is the invariant of the reads themselves: a read has completed as soon as what it
waits for is in the buffer, and it waits for something.
-/

namespace AsioProtocols

open Function

/-! ## Bytes that arrive -/

/-- A read that waits, once the buffer is `input`. -/
def ReadOp.arrive (op : ReadOp) (input : Bytes) : ReadOp :=
  match op.result with
  | none => { op with result := op.completion input }
  | some _ => op

/-- `s` has arrived. -/
def Conn.arrive (k : Conn) (s : Bytes) : Conn :=
  { k with input := k.input ++ s, reads := k.reads.map fun op => op.arrive (k.input ++ s) }

namespace World

/-- `s` has arrived on connection `c`. -/
def arrive (c : ConnId) (w : World) (s : Bytes) : World := w.modConn c fun k => k.arrive s

variable {w : World} {c d : ConnId} {r : RespId} {s : Bytes} {v : Verdict}

theorem conns_arrive (w : World) (c d : ConnId) (s : Bytes) : (w.arrive c s).conns d =
    if d = c then (w.conns d).arrive s else w.conns d := by
  rcases eq_or_ne d c with rfl | hne
  · simp [arrive, modConn]
  · simp [arrive, modConn, hne]

@[simp] theorem res_arrive : ((w.arrive c s).conns d).res = (w.conns d).res := by
  rw [conns_arrive]
  split <;> rfl

@[simp] theorem closed_arrive : ((w.arrive c s).conns d).closed = (w.conns d).closed := by
  rw [conns_arrive]
  split <;> rfl

@[simp] theorem transferMode_arrive :
    ((w.arrive c s).conns d).transferMode = (w.conns d).transferMode := by
  rw [conns_arrive]
  split <;> rfl

@[simp] theorem expectedBytes_arrive :
    ((w.arrive c s).conns d).expectedBytes = (w.conns d).expectedBytes := by
  rw [conns_arrive]
  split <;> rfl

@[simp] theorem isValid_arrive : (w.arrive c s).isValid = w.isValid := by
  funext d
  rw [isValid, isValid, conns_arrive]
  split <;> rfl

@[simp] theorem stallTarget_arrive : (w.arrive c s).stallTarget d = w.stallTarget d := by
  rw [stallTarget, stallTarget, res_arrive]
  rfl

/-- A change that looks at no input is the same in front of an arrival and behind it. -/
theorem modConn_arrive {f : Conn → Conn} (hf : ∀ k : Conn, f (k.arrive s) = (f k).arrive s) :
    (w.arrive c s).modConn d f = (w.modConn d f).arrive c s := by
  rcases eq_or_ne d c with rfl | hne
  · simp only [arrive, modConn_modConn, hf]
  · simp only [arrive, modConn, update_of_ne hne, update_of_ne hne.symm, update_comm hne]

theorem modConn_congr {f g : Conn → Conn} (h : f (w.conns c) = g (w.conns c)) :
    w.modConn c f = w.modConn c g := by
  rw [modConn, modConn, h]

theorem responses_arrive : (w.arrive c s).responses = w.responses := rfl

theorem completions_arrive : (w.arrive c s).completions = w.completions := rfl

theorem pool_arrive : (w.arrive c s).pool = w.pool := rfl

theorem note_arrive (n : Note) : (w.arrive c s).note n = (w.note n).arrive c s := rfl

theorem cancelTimer_arrive : (w.arrive c s).cancelTimer d = (w.cancelTimer d).arrive c s :=
  modConn_arrive fun _ => rfl

theorem extendTimer_arrive : (w.arrive c s).extendTimer d = (w.extendTimer d).arrive c s := by
  rw [extendTimer, extendTimer, stallTarget_arrive]
  exact modConn_arrive fun _ => rfl

theorem remove_arrive : (w.arrive c s).remove d = (w.remove d).arrive c s := by
  rw [remove, remove, isValid_arrive]
  rfl

theorem close_arrive : (w.arrive c s).close d = (w.close d).arrive c s := by
  rw [close, close, closed_arrive]
  split
  · exact modConn_arrive fun _ => rfl
  · rw [modConn_arrive (by intro k; rfl), cancelTimer_arrive, remove_arrive]

/-! ## Handing out -/

theorem writeRequest_arrive :
    (w.arrive c s).writeRequest d r = (w.writeRequest d r).arrive c s := by
  simp only [writeRequest, res_arrive, completions_arrive, note_arrive]
  rw [modConn_arrive (by intro k; rfl), extendTimer_arrive, modConn_arrive (by intro k; rfl)]
  rfl

theorem runTask_arrive (t : ClientTask) :
    (w.arrive c s).runTask d t = (w.runTask d t).arrive c s := by
  cases t with
  | writeRequest r => exact writeRequest_arrive
  | hold => rfl

theorem hand_arrive (tasks : List ClientTask) :
    (w.arrive c s).hand d tasks = (w.hand d tasks).arrive c s := by
  have fold : ∀ u : World, tasks.foldl (fun w t => w.runTask d t) (u.arrive c s) =
      (tasks.foldl (fun w t => w.runTask d t) u).arrive c s := by
    induction tasks with
    | nil => exact fun _ => rfl
    | cons t tasks ih =>
      intro u
      rw [List.foldl_cons, List.foldl_cons, runTask_arrive, ih]
  rw [hand, hand, res_arrive, closed_arrive, note_arrive, fold]

theorem settleQueued_arrive (q : QueueId) :
    (w.arrive c s).settleQueued q d = (w.settleQueued q d).arrive c s := by
  rw [settleQueued, settleQueued, pool_arrive]
  split
  · rfl
  · rename_i f tasks _
    exact hand_arrive (w := { w with
      pool := { w.pool with queued := update w.pool.queued q f } }) tasks

theorem release_arrive : (w.arrive c s).release d = (w.release d).arrive c s := by
  rw [release, release, pool_arrive]
  split
  · rfl
  · rename_i p q _
    exact settleQueued_arrive (w := { w with pool := p }) q

theorem onDone_arrive (f : NextFuture) (t : ClientTask) :
    (w.arrive c s).onDone f t = (w.onDone f t).arrive c s := by
  cases f with
  | ready d => exact hand_arrive [t]
  | opened f =>
    simp only [onDone, pool_arrive]
    split
    · rfl
    · exact hand_arrive [t]
    · rfl
  | queued q =>
    simp only [onDone, pool_arrive]
    split
    · rfl
    · exact hand_arrive [t]
    · rfl

theorem nextThen_arrive (t : ClientTask) :
    (w.arrive c s).nextThen t = (w.nextThen t).arrive c s := by
  rw [nextThen, nextThen, next, next, isValid_arrive]
  exact onDone_arrive (w := { w with pool := (w.pool.next w.isValid).1 }) _ t

/-! ## Settling -/

theorem complete_arrive (a : AttemptId) (o : Outcome Nat) :
    (w.arrive c s).complete r a o = (w.complete r a o).arrive c s := by
  rw [complete, complete, completions_arrive]
  split <;> rfl

theorem completionHandler_arrive (a : AttemptId) (o : Outcome Nat) (t : RespId × Nat) :
    (w.arrive c s).completionHandler a o v t = (w.completionHandler a o v t).arrive c s := by
  cases v with
  | throw e =>
    exact complete_arrive (w := { w with
      completions := w.completions.ask t.1 a t.2 (.throw e) }) _ _
  | accept =>
    exact complete_arrive (w := { w with
      completions := w.completions.ask t.1 a t.2 .accept }) _ _
  | retry =>
    exact nextThen_arrive (w := { w with
      completions := (w.completions.ask t.1 a t.2 .retry).reset t.1 (t.2 + 1)
      responses := update w.responses t.1 (w.responses t.1).reset
      sources := update w.sources t.1 [] }) _

theorem settle_arrive (o : Outcome Nat) :
    (w.arrive c s).settle d r o v = (w.settle d r o v).arrive c s := by
  rw [settle, settle, completions_arrive]
  split
  · rfl
  · rename_i k tasks _
    have fold : ∀ u : World,
        tasks.foldl (fun w t => w.completionHandler (k.current r) o v t) (u.arrive c s) =
        (tasks.foldl (fun w t => w.completionHandler (k.current r) o v t) u).arrive c s := by
      clear * -
      induction tasks with
      | nil => exact fun _ => rfl
      | cons t tasks ih =>
        intro u
        rw [List.foldl_cons, List.foldl_cons, completionHandler_arrive, ih]
    exact fold { w with completions := k }

theorem settleUnlessReady_arrive (o : Outcome Nat) :
    (w.arrive c s).settleUnlessReady d r o v = (w.settleUnlessReady d r o v).arrive c s := by
  rw [settleUnlessReady, settleUnlessReady, completions_arrive]
  split
  · rfl
  · exact settle_arrive o

theorem failResponse_arrive (err : Bytes) :
    (w.arrive c s).failResponse d err v = (w.failResponse d err v).arrive c s := by
  rw [failResponse, failResponse, res_arrive]
  split
  · exact settleUnlessReady_arrive _
  · rfl

/-! ## Buffers -/

/-- What each connection has buffered, and its reads. -/
def buffers (w : World) (d : ConnId) : Bytes × List ReadOp := ((w.conns d).input, (w.conns d).reads)

theorem buffers_modConn (w : World) {f : Conn → Conn}
    (hf : ∀ k : Conn, (f k).input = k.input ∧ (f k).reads = k.reads) :
    (w.modConn c f).buffers = w.buffers := by
  funext d
  rcases eq_or_ne d c with rfl | hne
  · simp [buffers, modConn, hf]
  · simp [buffers, modConn, hne]

@[simp] theorem buffers_extendTimer : (w.extendTimer c).buffers = w.buffers :=
  buffers_modConn w fun _ => ⟨rfl, rfl⟩

@[simp] theorem buffers_cancelTimer : (w.cancelTimer c).buffers = w.buffers :=
  buffers_modConn w fun _ => ⟨rfl, rfl⟩

@[simp] theorem buffers_close : (w.close c).buffers = w.buffers := by
  rw [close]
  split
  · exact buffers_modConn w fun _ => ⟨rfl, rfl⟩
  · exact (buffers_cancelTimer (w := w.modConn c _)).trans (buffers_modConn w fun _ => ⟨rfl, rfl⟩)

@[simp] theorem buffers_hand (tasks : List ClientTask) : (w.hand c tasks).buffers = w.buffers :=
  funext fun d => congrArg Prod.snd (stream_hand w c d tasks)

@[simp] theorem buffers_release : (w.release c).buffers = w.buffers :=
  funext fun d => congrArg Prod.snd (stream_release w c d).1

@[simp] theorem buffers_nextThen (t : ClientTask) : (w.nextThen t).buffers = w.buffers :=
  funext fun d => congrArg Prod.snd (stream_nextThen w d t)

theorem buffers_settleOpened : (w.settleOpened c).buffers = w.buffers := by
  rw [settleOpened]
  split
  · rfl
  · rename_i f tasks _
    refine List.foldlRecOn (motive := fun u : World => u.buffers = w.buffers) tasks _ rfl ?_
    rintro u hu (t | _) -
    · exact (buffers_hand _).trans hu
    · exact buffers_release.trans hu

theorem buffers_complete (a : AttemptId) (o : Outcome Nat) :
    (w.complete r a o).buffers = w.buffers := by
  rw [complete]
  split <;> rfl

theorem buffers_completionHandler (a : AttemptId) (o : Outcome Nat) (t : RespId × Nat) :
    (w.completionHandler a o v t).buffers = w.buffers := by
  cases v with
  | throw e => exact buffers_complete _ _
  | accept => exact buffers_complete _ _
  | retry => exact buffers_nextThen _

@[simp] theorem buffers_settleUnlessReady (o : Outcome Nat) :
    (w.settleUnlessReady c r o v).buffers = w.buffers :=
  w.settleUnlessReady_preserves c (P := fun u => u.buffers = w.buffers) r o v rfl rfl
    fun _ _ _ hu => (buffers_completionHandler _ _ _).trans hu

@[simp] theorem buffers_failResponse (err : Bytes) :
    (w.failResponse c err v).buffers = w.buffers := by
  rw [failResponse]
  split
  · exact buffers_settleUnlessReady _
  · rfl

end World

/-! ## What a read waits for -/

/-- A read has completed as soon as what it waits for is there, unless it failed; and it
waits for something. -/
structure ReadOp.Prompt (op : ReadOp) (input : Bytes) : Prop where
  result : op.result = op.completion input ∨ ∃ err, op.result = some (.error err)
  wanted : op.wanted ≠ some 0

/-- Every read of every connection. -/
def Prompt (w : World) : Prop := ∀ d, ∀ op ∈ (w.buffers d).2, op.Prompt (w.buffers d).1

namespace ReadOp

variable {op : ReadOp} {input s : Bytes}

/-- What has completed stays as it is. -/
theorem completion_append {x : Except Bytes Nat} (h : op.completion input = some x) (s : Bytes) :
    op.completion (input ++ s) = some x := by
  rw [completion] at h ⊢
  cases hw : op.wanted with
  | none =>
    simp only [hw] at h
    obtain ⟨pos, hfind, rfl⟩ := Option.map_eq_some_iff.mp h
    simp [find_append_of_some s hfind]
  | some n =>
    simp only [hw] at h
    obtain ⟨hlen, hx⟩ := Option.ite_none_right_eq_some.mp h
    rw [← hx]
    exact if_pos (hlen.trans (by simp))

theorem Prompt.arrive (h : op.Prompt input) (s : Bytes) :
    (op.arrive (input ++ s)).Prompt (input ++ s) := by
  rcases h.result with hr | ⟨err, hr⟩
  · cases hres : op.result with
    | none => 
      refine ⟨.inl ?_, ?_⟩
      · simp [ReadOp.arrive, hres, completion]
      · simpa [ReadOp.arrive, hres] using h.wanted
    | some x =>
      have hx : op.completion input = some x := hr.symm.trans hres
      refine ⟨.inl ?_, ?_⟩
      · simp [ReadOp.arrive, hres, completion_append hx]
      · simpa [ReadOp.arrive, hres] using h.wanted
  · refine ⟨.inr ⟨err, ?_⟩, ?_⟩
    · simp [ReadOp.arrive, hr]
    · simpa [ReadOp.arrive, hr] using h.wanted

/-- Nothing arrives. -/
theorem Prompt.arrive_self (h : op.Prompt input) : op.arrive input = op := by
  obtain ⟨p, wanted, result⟩ := op
  cases result with
  | none =>
    rcases h.result with hr | ⟨err, hr⟩
    · simp only [ReadOp.arrive]
      rw [← hr]
    · cases hr
  | some x => rfl

/-- Bytes that arrive one after the other. -/
theorem arrive_arrive (op : ReadOp) (input s : Bytes) :
    (op.arrive input).arrive (input ++ s) = op.arrive (input ++ s) := by
  obtain ⟨p, wanted, result⟩ := op
  cases result with
  | some x => rfl
  | none =>
    cases hx : completion ⟨p, wanted, none⟩ input with
    | none => simp only [ReadOp.arrive, hx]
    | some x =>
      simp only [ReadOp.arrive, hx, completion_append hx]

end ReadOp

namespace World

variable {w : World} {c d : ConnId} {r : RespId} {s : Bytes} {v : Verdict}

/-- A line that has arrived in part. -/
theorem readDelimited_arrive (p : Point) :
    (w.arrive c s).readDelimited d p = (w.readDelimited d p).arrive c s := by
  refine modConn_arrive fun k => ?_
  have hop : ReadOp.arrive { point := p, result := (find crlf k.input).map .ok } (k.input ++ s) =
      { point := p, result := (find crlf (k.input ++ s)).map .ok } :=
    ReadOp.arrive_arrive { point := p } k.input s
  simp only [Conn.arrive, List.map_append, List.map_cons, List.map_nil, hop]

theorem store_arrive (m : Message) : (w.arrive c s).store d r m = (w.store d r m).arrive c s := rfl

/-- The end of a response looks at no input. -/
theorem extractNextBodyChunk_arrive (data : Bytes) :
    (w.arrive c s).extractNextBodyChunk d data v =
      (w.extractNextBodyChunk d data v).arrive c s := by
  have cleared : ∀ (u : World) (r : RespId),
      ((u.arrive c s).modConn d fun k => { k with res := none }).note (.finished d r) =
      ((u.modConn d fun k => { k with res := none }).note (.finished d r)).arrive c s := by
    intro u r
    rw [modConn_arrive (by intro k; rfl), note_arrive]
  simp only [extractNextBodyChunk, res_arrive, transferMode_arrive]
  split
  · rfl
  · split <;> (
      simp only [responses_arrive, store_arrive, cleared, handleResponse, readDelimited_arrive,
        release_arrive, settleUnlessReady_arrive, close_arrive]
      split <;> rfl)

end World

namespace Prompt

variable {w u : World} {c : ConnId} {r : RespId} {op : ReadOp}

theorem of_buffers (h : Prompt w) (hu : u.buffers = w.buffers) : Prompt u := by
  rw [Prompt, hu]
  exact h

/-- What one connection has buffered, and its reads, change. -/
theorem update (h : Prompt w) {f : Conn → Conn}
    (hf : ∀ op ∈ (f (w.conns c)).reads, op.Prompt (f (w.conns c)).input) :
    Prompt (w.modConn c f) := by
  intro d op hop
  rcases eq_or_ne d c with rfl | hne
  · simp only [World.buffers, World.modConn, update_self] at hop ⊢
    exact hf op hop
  · simp only [World.buffers, World.modConn, update_of_ne hne] at hop ⊢
    exact h d op hop

/-- A read starts. -/
theorem addRead (h : Prompt w) (hop : op.Prompt (w.conns c).input) :
    Prompt (w.modConn c fun k => { k with reads := k.reads ++ [op] }) := by
  refine h.update fun o ho => ?_
  rcases List.mem_append.mp ho with hold | hnew
  · exact h c o hold
  · exact List.mem_singleton.mp hnew ▸ hop

theorem readDelimited (h : Prompt w) (c : ConnId) (p : Point) : Prompt (w.readDelimited c p) :=
  h.addRead ⟨.inl rfl, by simp⟩

theorem arrive (h : Prompt w) (c : ConnId) (s : Bytes) : Prompt (w.arrive c s) := by
  refine h.update fun o ho => ?_
  obtain ⟨op, hop, rfl⟩ := List.mem_map.mp ho
  exact (h c op hop).arrive s

end Prompt

end AsioProtocols
