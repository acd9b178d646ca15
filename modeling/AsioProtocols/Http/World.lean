import AsioProtocols.Http.Completions
import AsioProtocols.Http.ConnectionPool
import AsioProtocols.Http.Message

/-!
# The client, its pool and its connections

The state of one endpoint of `net::http::client`: the pool, the connections it
made, the responses of the requests sent to it, and the functions of
`http/connection.h`, `http/connection/tcp.h`, `http/connection/tls.h` and
`http/client.h` as functions on that state. A callback that a future runs
synchronously is a call here; what goes through the event loop is an outstanding
operation of the connection (`reads`, `writes`, `waits`, `setup`), completed and
run by the events of `Http/Events.lean`.

- An outstanding operation has a `result` once it has completed and its handler
  is queued. `read_until` completes as soon as the buffer holds the delimiter,
  which it may do when it starts.
- The timer object is represented by its waits alone: `expires_from_now`,
  `cancel` and the destruction of the timer all turn pending waits into
  cancelled ones, and there is no pending wait where there is no timer.
- `conns c` is the freshly made connection, about to resolve, for every `c` that
  `connect()` has not made yet.
- `eraseEnd` is what the implementation makes of `erase(end())`, and `tls` the
  transport of the endpoint; both are fixed in a run.
- `attempt`, `closedThen`, `sources`, `statusFrom` and `log` are history
  variables that no handler reads.
- `fault` is set where the program dereferences an empty `res_` or settles a
  future twice; nothing happens after it.

`already_active_`, which is written but never read, is left out.
-/

namespace AsioProtocols

/-- Where the chain of read handlers is: the callback of the outstanding read. -/
inductive Point
  | status
  | header
  | chunkSize
  | chunkData
  | last
  | body
  deriving DecidableEq, Repr

/-- Whether the read at this point has an `on_fail` hook: those of a chunk-size
line and of the line behind the last chunk have none. -/
def Point.hooked : Point → Bool
  | .chunkSize => false
  | .last => false
  | _ => true

/-- `read_delimited` (`wanted = none`) or `read(wanted)`. A completed
`read_delimited` carries the position of the delimiter, `bytes - delim_size`. -/
structure ReadOp where
  point : Point
  wanted : Option Nat := none
  result : Option (Except Bytes Nat) := none

/-- An `async_write` of a request. -/
structure WriteOp where
  data : Bytes
  result : Option (Except Bytes Unit) := none

/-- A wait on the stall timer: pending, cancelled, or expired with its handler
queued. -/
inductive WaitStatus
  | pending
  | cancelled
  | expired
  deriving DecidableEq, Repr

/-- An `async_wait` for `target` milliseconds. -/
structure Wait where
  target : Nat
  status : WaitStatus := .pending
  deriving DecidableEq, Repr

/-- `expires_from_now` and `cancel` on a wait. -/
def Wait.cancel (t : Wait) : Wait :=
  match t.status with
  | .pending => { t with status := .cancelled }
  | _ => t

/-- The steps of establishing a connection. -/
inductive Stage
  | resolve
  | connect
  | handshake
  deriving DecidableEq, Repr

/-- The outstanding operation of a connection being established. -/
structure SetupOp where
  stage : Stage
  result : Option (Except Bytes Unit) := none

/-- `enum class transfer` -/
inductive Transfer
  | chunked
  | length
  deriving DecidableEq, Repr

/-- The state of a connection, and its outstanding operations. -/
structure Conn where
  closed : Bool := false
  valid : Bool := true
  input : Bytes := []
  res : Option RespId := none
  transferMode : Transfer := .chunked
  expectedBytes : Nat := 0
  setup : Option SetupOp := some { stage := .resolve }
  reads : List ReadOp := []
  writes : List WriteOp := []
  waits : List Wait := []
  /-- The attempt that was current when `write_request` last handed over a
  response. -/
  attempt : Option AttemptId := none
  /-- Whether the connection was closed by then. -/
  closedThen : Bool := false

/-- Where the program stops: `res_->` on an empty pointer, or a future settled
twice. -/
inductive Fault
  | nullResponse
  | settledTwice
  deriving DecidableEq, Repr

/-- What the history records: a future done with connection `c` (its `res_` and
`closed_` at that moment), `write_request` handing over a response (the attempt,
and the `res_` it overwrites), bytes of `c` stored in a response, a response read
to its end, an exception leaving a handler. -/
inductive Note
  | handed (c : ConnId) (res : Option RespId) (closed : Bool)
  | assigned (c : ConnId) (r : RespId) (a : AttemptId) (overwritten : Option RespId)
  | content (c : ConnId) (r : RespId) (a : AttemptId)
  | finished (c : ConnId) (r : RespId)
  | escaped (c : ConnId) (e : Exn)
  deriving DecidableEq, Repr

/-- The state of the client for one endpoint. -/
structure World where
  eraseEnd : List (Option FutId) → List (Option FutId) := id
  tls : Bool := false
  pool : Pool := {}
  conns : ConnId → Conn := fun _ => {}
  responses : RespId → Response := fun _ => { request := {} }
  completions : Completions := {}
  /-- Connections that callers of `next()` hold without having written on them. -/
  held : List ConnId := []
  /-- Whose bytes the version, headers and body of a response hold since `reset`. -/
  sources : RespId → List ConnId := fun _ => []
  /-- Whose bytes the status code and message of a response hold. -/
  statusFrom : RespId → Option ConnId := fun _ => none
  log : List Note := []
  fault : Option Fault := none

namespace World

/-- Change the record of one connection. -/
def modConn (w : World) (c : ConnId) (f : Conn → Conn) : World :=
  { w with conns := Function.update w.conns c (f (w.conns c)) }

/-- Add to the history. -/
def note (w : World) (n : Note) : World := { w with log := w.log ++ [n] }

/-- The program stops. -/
def faulted (w : World) (f : Fault) : World := { w with fault := some f }

/-- `is_valid()`; a connection whose last reference is gone was closed before. -/
def isValid (w : World) (c : ConnId) : Bool := (w.conns c).valid && !(w.conns c).closed

/-! ## The stall timer and closing -/

/-- `cancel_timer()` (connection.h, lines 351-356) -/
def cancelTimer (w : World) (c : ConnId) : World :=
  w.modConn c fun k => { k with waits := k.waits.map Wait.cancel }

/-- The interval of `extend_timer`: the response's stall timeout, or 5 s. -/
def stallTarget (w : World) (c : ConnId) : Nat :=
  match (w.conns c).res with
  | some r => (w.responses r).stallTimeout
  | none => 5000

/-- `extend_timer()` (connection.h, lines 318-345) -/
def extendTimer (w : World) (c : ConnId) : World :=
  w.modConn c fun k =>
    { k with waits := k.waits.map Wait.cancel ++ [{ target := w.stallTarget c }] }

/-- `remove()` (connection.h, lines 405-407) -/
def remove (w : World) (c : ConnId) : World :=
  { w with pool := w.pool.remove w.eraseEnd w.isValid c }

/-- `close()` (tcp.h, lines 202-221; tls.h, lines 229-250). From then on the
outstanding operations on the socket complete with an error. -/
def close (w : World) (c : ConnId) : World :=
  -- `already_closing()` takes `valid_` back in any case
  if (w.conns c).closed then w.modConn c fun k => { k with valid := false }
  else
    ((w.modConn c fun k => { k with valid := false, closed := true }).cancelTimer c).remove c

/-! ## Handing out connections -/

/-- `write_request(res)` (connection.h, lines 106-133) -/
def writeRequest (w : World) (c : ConnId) (r : RespId) : World :=
  let a := w.completions.current r
  let w := w.note (.assigned c r a (w.conns c).res)
  let w := w.modConn c fun k =>
    { k with res := some r, attempt := some a, closedThen := k.closed }
  let w := w.extendTimer c
  -- nothing asks whether the connection is still open, or whether another write is under way
  w.modConn c fun k => { k with writes := k.writes ++ [{ data := (w.responses r).request.bytes }] }

/-- The callback of a caller of `next()`. -/
def runTask (w : World) (c : ConnId) : ClientTask → World
  | .writeRequest r => w.writeRequest c r
  | .hold => { w with held := w.held ++ [c] }

/-- A future is done with connection `c`: its callbacks run. -/
def hand (w : World) (c : ConnId) (tasks : List ClientTask) : World :=
  tasks.foldl (fun w t => w.runTask c t) (w.note (.handed c (w.conns c).res (w.conns c).closed))

/-- The future of a queued request is done (connection_pool.h, lines 82-86). -/
def settleQueued (w : World) (q : QueueId) (c : ConnId) : World :=
  match (w.pool.queued q).settle (.done c) with
  | none => w.faulted .settledTwice
  | some (f, tasks) =>
    { w with pool := { w.pool with queued := Function.update w.pool.queued q f } }.hand c tasks

/-- `release()` (connection.h, lines 409-411) -/
def release (w : World) (c : ConnId) : World :=
  match w.pool.release c with
  | (p, none) => { w with pool := p }
  | (p, some q) => { w with pool := p }.settleQueued q c

/-- `endpoint->next()` -/
def next (w : World) : World × NextFuture :=
  ({ w with pool := (w.pool.next w.isValid).1 }, (w.pool.next w.isValid).2)

/-- `->on_done(..)` on the result of `next()`: at once if it is done already. -/
def onDone (w : World) (f : NextFuture) (t : ClientTask) : World :=
  match f with
  | .ready c => w.hand c [t]
  | .opened f =>
    match (w.pool.opened f).outcome with
    | none =>
      { w with pool := { w.pool with
        opened := Function.update w.pool.opened f ((w.pool.opened f).attach (.client t)) } }
    | some (.done c) => w.hand c [t]
    -- a failed or cancelled future never calls `on_done`
    | some _ => w
  | .queued q =>
    match (w.pool.queued q).outcome with
    | none =>
      { w with pool := { w.pool with
        queued := Function.update w.pool.queued q ((w.pool.queued q).attach t) } }
    | some (.done c) => w.hand c [t]
    | some _ => w

/-- `next()` with its callback. -/
def nextThen (w : World) (t : ClientTask) : World := w.next.1.onDone w.next.2 t

/-- The success callback of `connect()`, `f->done(conn)`
(connection_pool.h, lines 275-277). -/
def settleOpened (w : World) (c : ConnId) : World :=
  match (w.pool.opened c).settle (.done c) with
  | none => w.faulted .settledTwice
  | some (f, tasks) =>
    tasks.foldl
      (fun w t => match t with
        | .client t => w.hand c [t]
        | .release => w.release c)
      { w with pool := { w.pool with opened := Function.update w.pool.opened c f } }

/-! ## Settling an attempt -/

/-- `res->completion()` is settled. -/
def complete (w : World) (r : RespId) (a : AttemptId) (o : Outcome Nat) : World :=
  match w.completions.complete r a o with
  | some k => { w with completions := k }
  | none => w.faulted .settledTwice

/-- `completion_handler(endpoint, res, retry)` run on attempt `a` settled with
`o` (client.h, lines 56-85); `v` is what the slots of `on_completion` answer. -/
def completionHandler (w : World) (a : AttemptId) (o : Outcome Nat) (v : Verdict)
    (t : RespId × Nat) : World :=
  let w := { w with completions := w.completions.ask t.1 a t.2 v }
  match v with
  | .throw e => w.complete t.1 a (.failed e)
  | .accept => w.complete t.1 a o
  | .retry =>
    { w with
      completions := w.completions.reset t.1 (t.2 + 1)
      responses := Function.update w.responses t.1 (w.responses t.1).reset
      sources := Function.update w.sources t.1 [] }.nextThen (.writeRequest t.1)

/-- Connection `c` settles `res->current_completion()`. -/
def settle (w : World) (c : ConnId) (r : RespId) (o : Outcome Nat) (v : Verdict) : World :=
  match w.completions.settle c r o with
  | none => w.faulted .settledTwice
  | some (k, tasks) =>
    tasks.foldl (fun w t => w.completionHandler (k.current r) o v t)
      { w with completions := k }

/-- `if(!res->current_completion()->is_ready())` and then settle it. -/
def settleUnlessReady (w : World) (c : ConnId) (r : RespId) (o : Outcome Nat) (v : Verdict) :
    World :=
  if w.completions.isReady r then w else w.settle c r o v

/-- `if(self->res_)` and then fail its attempt, unless it is ready. -/
def failResponse (w : World) (c : ConnId) (err : Bytes) (v : Verdict) : World :=
  match (w.conns c).res with
  | some r => w.settleUnlessReady c r (.failed err) v
  | none => w

/-! ## Reading a response -/

/-- An exception leaves the handler. -/
def escape (w : World) (c : ConnId) (e : Exn) : World := w.note (.escaped c e)

/-- Bytes of `c` go into the version, headers or body of `r`. -/
def store (w : World) (c : ConnId) (r : RespId) (m : Message) : World :=
  { w with
    responses := Function.update w.responses r { w.responses r with toMessage := m }
    sources := Function.update w.sources r (w.sources r ++ [c])
    log := w.log ++ [.content c r (w.completions.current r)] }

/-- The first line of a response of `c` is parsed into `r`, as far as it goes. -/
def storeStatus (w : World) (c : ConnId) (r : RespId) (parsed : Response × Option Exn) : World :=
  { w with
    responses := Function.update w.responses r parsed.1
    sources := Function.update w.sources r (w.sources r ++ [c])
    statusFrom := if parsed.2 = none then Function.update w.statusFrom r (some c)
      else w.statusFrom
    log := w.log ++ [.content c r (w.completions.current r)] }

/-- `read_delimited("\\r\\n")` (tcp.h, lines 105-146) -/
def readDelimited (w : World) (c : ConnId) (p : Point) : World :=
  w.modConn c fun k =>
    { k with reads := k.reads ++ [{ point := p, result := (find crlf k.input).map .ok }] }

/-- `read(wanted)` (tcp.h, lines 148-192): at once when the buffer holds enough. -/
def read (w : World) (c : ConnId) (wanted : Nat) (p : Point) (code : World → Bytes → World) :
    World :=
  if (w.conns c).input.length < wanted then
    w.modConn c fun k => { k with reads := k.reads ++ [{ point := p, wanted := some wanted }] }
  else
    code (w.modConn c fun k => { k with input := k.input.drop wanted })
      ((w.conns c).input.take wanted)

/-- `handle_response()` (connection.h, lines 150-170) -/
def handleResponse (w : World) (c : ConnId) : World := w.readDelimited c .status

/-- `read_next_header()` (connection.h, lines 172-225) -/
def readNextHeader (w : World) (c : ConnId) : World := w.readDelimited c .header

/-- `have_header("Connection")` with the value `close`. -/
def wantsClose (m : Message) : Bool :=
  m.haveHeader (ascii "Connection") &&
    m.headerValue (ascii "Connection") == some (ascii "close")

/-- `extract_next_body_chunk(data)` (connection.h, lines 276-299) -/
def extractNextBodyChunk (w : World) (c : ConnId) (data : Bytes) (v : Verdict) : World :=
  match (w.conns c).res with
  | none => w.faulted .nullResponse
  | some r =>
    -- the chunks of a body are stored as they come
    let w := if (w.conns c).transferMode = .length then
        w.store c r ((w.responses r).setBody data)
      else w
    let w := (w.modConn c fun k => { k with res := none }).note (.finished c r)
    if wantsClose (w.responses r).toMessage then
      (w.settleUnlessReady c r (.done (w.responses r).statusCode) v).close c
    else
      -- another request may be on the connection before this one is settled
      let w := (w.handleResponse c).release c
      w.settleUnlessReady c r (.done (w.responses r).statusCode) v

/-- The callback of `read(expected_bytes_)` (connection.h, lines 262-264) -/
def onBody (w : World) (c : ConnId) (data : Bytes) (v : Verdict) : World :=
  (w.extendTimer c).extractNextBodyChunk c data v

/-- `read_next_body_chunk()` (connection.h, lines 227-274) -/
def readNextBodyChunk (w : World) (c : ConnId) (v : Verdict) : World :=
  match (w.conns c).transferMode with
  | .chunked => w.readDelimited c .chunkSize
  | .length => w.read c (w.conns c).expectedBytes .body fun w data => w.onBody c data v

/-- `data.substr(0, data.size() - 2)`, where the subtraction wraps. -/
def dropCrlf (data : Bytes) : Bytes :=
  if data.length < 2 then data else data.take (data.length - 2)

/-- The callback of `read(chunk_size + 2)` (connection.h, lines 241-244) -/
def onChunkData (w : World) (c : ConnId) (data : Bytes) (v : Verdict) : World :=
  match (w.conns c).res with
  | none => w.faulted .nullResponse
  | some r =>
    let w := w.store c r ((w.responses r).appendBody (dropCrlf data))
    (w.extendTimer c).readNextBodyChunk c v

/-- The callback on a chunk-size line (connection.h, lines 230-258); `chunk_size
+ 2` wraps. -/
def onChunkSize (w : World) (c : ConnId) (line : Bytes) (v : Verdict) : World :=
  let w := w.extendTimer c
  match stoi 16 line with
  | .error e => w.escape c (.logicError e)
  | .ok n =>
    -- a negative number is a large `size_t`
    if 0 < toSize n then
      let w := w.modConn c fun k => { k with expectedBytes := toSize n }
      w.read c ((toSize n + 2) % 18446744073709551616) .chunkData
        fun w data => w.onChunkData c data v
    -- one line more, whatever it says
    else w.readDelimited c .last

/-- The callback on the line behind the last chunk (connection.h, lines 254-257) -/
def onLast (w : World) (c : ConnId) (v : Verdict) : World :=
  (w.extendTimer c).extractNextBodyChunk c [] v

/-- The end of the headers: `Content-Length`, else `Transfer-Encoding`, else give
up (connection.h, lines 181-215). -/
def headersEnd (w : World) (c : ConnId) (r : RespId) (v : Verdict) : World :=
  match (w.responses r).headerValue (ascii "Content-Length") with
  | some t =>
    match stoi 10 t with
    -- what `std::stoi` throws is no `runtime_error`, so nothing here catches it
    | .error e => w.escape c (.logicError e)
    | .ok n =>
      (w.modConn c fun k =>
        { k with expectedBytes := toSize n, transferMode := .length }).readNextBodyChunk c v
  | none =>
    match (w.responses r).headerValue (ascii "Transfer-Encoding") with
    | some t =>
      if find (ascii "chunked") t = none then
        (w.close c).failResponse c (ascii "no content-length or TE") v
      else
        (w.modConn c fun k =>
          { k with expectedBytes := 0, transferMode := .chunked }).readNextBodyChunk c v
    | none =>
      (w.close c).failResponse c (Message.notFound (ascii "Transfer-Encoding")) v

/-- The callback on a header line (connection.h, lines 174-217) -/
def onHeader (w : World) (c : ConnId) (line : Bytes) (v : Verdict) : World :=
  let w := w.extendTimer c
  match (w.conns c).res with
  | none => w.faulted .nullResponse
  | some r =>
    if line = [] then w.headersEnd c r v
    else
      match (w.responses r).parseHeaderLine line with
      | .error e => w.escape c e
      | .ok m => (w.store c r m).readNextHeader c

/-- The callback on a status line (connection.h, lines 153-161) -/
def onStatus (w : World) (c : ConnId) (line : Bytes) : World :=
  match (w.conns c).res with
  -- a line that no request has asked for
  | none => w.close c
  | some r =>
    let w := w.extendTimer c
    let parsed := (w.responses r).parseInitialLine line
    let w := w.storeStatus c r parsed
    match parsed.2 with
    | some e => w.escape c e
    | none => w.readNextHeader c

/-- The callback of a `read_delimited` on its line. -/
def onLine (w : World) (c : ConnId) (p : Point) (line : Bytes) (v : Verdict) : World :=
  match p with
  | .status => w.onStatus c line
  | .header => w.onHeader c line v
  | .chunkSize => w.onChunkSize c line v
  | .last => w.onLast c v
  | .chunkData | .body => w

/-- The callback of a `read(wanted)` on its data. -/
def onData (w : World) (c : ConnId) (p : Point) (data : Bytes) (v : Verdict) : World :=
  match p with
  | .chunkData => w.onChunkData c data v
  | .body => w.onBody c data v
  | .status | .header | .chunkSize | .last => w

/-- The text a failed read passes on: `read` puts `Error reading: ` in front. -/
def readError (wanted : Option Nat) (err : Bytes) : Bytes :=
  match wanted with
  | none => err
  | some _ => ascii "Error reading: " ++ err

/-- The handler of a completed read (tcp.h, lines 120-143 and 163-179). -/
def finishRead (w : World) (c : ConnId) (op : ReadOp) (result : Except Bytes Nat) (v : Verdict) :
    World :=
  match result with
  | .error err =>
    let w := w.close c
    if op.point.hooked then w.failResponse c (readError op.wanted err) v else w
  | .ok pos =>
    match op.wanted with
    | none =>
      -- the separator is consumed with its line
      let line := (w.conns c).input.take pos
      (w.modConn c fun k => { k with input := k.input.drop (pos + 2) }).onLine c op.point line v
    | some n =>
      let data := (w.conns c).input.take n
      (w.modConn c fun k => { k with input := k.input.drop n }).onData c op.point data v

/-! ## Writing, waiting, connecting -/

/-- The handler of a completed write (tcp.h, lines 92-100, with the callbacks of
connection.h, lines 117-125). -/
def finishWrite (w : World) (c : ConnId) (result : Except Bytes Unit) (v : Verdict) : World :=
  match result with
  | .ok _ => w.extendTimer c
  | .error err =>
    match (w.conns c).res with
    -- unlike the other hooks, that of a write does not test `res_`
    | none => w.faulted .nullResponse
    | some r => (w.settleUnlessReady c r (.failed err) v).close c

/-- The text of a stall. -/
def timeoutText (target : Nat) : Bytes :=
  ascii "Timeout expired (" ++ decimal target ++ ascii "ms)"

/-- The handler of a wait (connection.h, lines 332-344); `timer_.reset()` destroys
the timer and so cancels what is pending. -/
def finishWait (w : World) (c : ConnId) (t : Wait) (v : Verdict) : World :=
  match t.status with
  | .expired => ((w.cancelTimer c).close c).failResponse c (timeoutText t.target) v
  -- cancelled, because the timer was extended or the connection closed
  | _ => w

/-- `post_connect()` on a plain connection, and the end of the handshake on a TLS
one: the response handler starts and the future of `connect()` is done. -/
def ready (w : World) (c : ConnId) : World :=
  ((w.extendTimer c).handleResponse c).settleOpened c

/-- The handler of a resolver, connect or handshake operation (connection.h,
lines 62-77; tcp.h, lines 61-71; tls.h, lines 208-226). -/
def finishSetup (w : World) (c : ConnId) (stage : Stage) (result : Except Bytes Unit) : World :=
  match result with
  -- the future of the pool's `connect()` stays pending
  | .error _ => w.close c
  | .ok _ =>
    match stage with
    | .resolve => w.modConn c fun k => { k with setup := some { stage := .connect } }
    | .connect =>
      if w.tls then
        (w.extendTimer c).modConn c fun k => { k with setup := some { stage := .handshake } }
      else w.ready c
    | .handshake => w.ready c

/-- `client::request(req)` (client.h, lines 92-108), with the stall timeout of
the client. -/
def request (w : World) (q : Request) (stall : Nat) : World :=
  let k := w.completions.create
  { w with
    completions := k.1
    responses := Function.update w.responses k.2 { request := q, stallTimeout := stall }
    sources := Function.update w.sources k.2 []
    statusFrom := Function.update w.statusFrom k.2 none }.nextThen (.writeRequest k.2)

end World

end AsioProtocols
