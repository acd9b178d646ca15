import Mathlib
import AsioProtocols.Base.Machine
import AsioProtocols.Base.Bytes

/-!
# The output side of `amqp::connection`

The AMQP library hands its output to `onData`, which posts it to the strand;
on the strand it joins `outgoing_`, and `write_handler` moves what is there
into one `async_write_some` at a time, guarded by `writing_`. The state below
is those fields, the strand's queue and the socket's outstanding writes.

A step is one handler of the event loop or one answer of the socket, so a run
is any interleaving of the library's calls, of `setup`, of the strand's tasks
and of the write completions. Two answers are not the program's to choose: how
much of a buffer `async_write_some` accepts, and whether
`compare_exchange_weak` fails although the flag was as expected, which it may
on some machines. Both are part of the event.

The read side posts to the same strand, but neither reads nor writes a field of
this state; what its `parse` makes the library send arrives by `onData`.
-/

namespace AsioProtocols

/-! ## State -/

/-- A function posted to the strand: the one of `onData`, the one that starts
a write, and the one a completed write posts. -/
inductive StrandTask
  | insert (v : Bytes)
  | writeSome (v : Bytes)
  | written (result : Except Bytes Nat)
  deriving DecidableEq

/-- A write the socket was given, and how it ended: the number of bytes
accepted, or the text of the error. Its completion handler has not run yet. -/
structure SocketWrite where
  data : Bytes
  result : Option (Except Bytes Nat)
  deriving DecidableEq

/-- The connection, with the strand's queue, the outstanding writes and the
texts `connection_error` was signalled with. The last three fields are history:
all bytes given to `onData`, all bytes the socket accepted, and whether a write
has failed. -/
structure AmqpConnection where
  active : Bool
  writing : Bool
  outgoing : Bytes
  strand : List StrandTask
  writes : List SocketWrite
  connectionErrors : List Bytes
  aborted : Bool
  given : Bytes
  accepted : Bytes
  broken : Bool

namespace AmqpConnection

def init : AmqpConnection where
  active := false
  writing := false
  outgoing := []
  strand := []
  writes := []
  connectionErrors := []
  aborted := false
  given := []
  accepted := []
  broken := false

/-! ## Functions of the source -/

def post (t : StrandTask) (s : AmqpConnection) : AmqpConnection :=
  { s with strand := s.strand ++ [t] }

def onData (v : Bytes) (s : AmqpConnection) : AmqpConnection :=
  { s with given := s.given ++ v }.post (.insert v)

/-- `weak` says that `compare_exchange_weak` fails on a flag that is false. A
failed `assert` aborts the program. -/
def writeHandler (weak : Bool) (s : AmqpConnection) : AmqpConnection :=
  if s.active = false then { s with aborted := true }
  -- a write is under way, or the exchange failed for no reason
  else if s.writing = true ∨ weak = true then s
  else if s.outgoing = [] then { s with writing := false }
  else { s with writing := true, outgoing := [] }.post (.writeSome s.outgoing)

/-- The constructor of `AMQP::Connection` already sends: `hello` is what it
hands to `onData`, in order. -/
def setup (hello : List Bytes) (weak : Bool) (s : AmqpConnection) : AmqpConnection :=
  let s := hello.foldl (fun s v => s.onData v) { s with active := true }
  if s.outgoing = [] then s else s.writeHandler weak

/-- A task of the strand. The number of bytes a write accepted reaches the last
of them and is not looked at. -/
def runTask (weak : Bool) (s : AmqpConnection) : StrandTask → AmqpConnection
  | .insert v =>
    let s := { s with outgoing := s.outgoing ++ v }
    if s.active = true then s.writeHandler weak else s
  | .writeSome v => { s with writes := s.writes ++ [⟨v, none⟩] }
  | .written result =>
    let s := { s with writing := false }
    match result with
    -- what is in `outgoing` waits for the next `onData`
    | .error message => { s with connectionErrors := s.connectionErrors ++ [message] }
    | .ok _ => s.writeHandler weak

end AmqpConnection

/-! ## Steps -/

/-- What can happen next: a call of the program or the library, the strand's
first task, the socket accepting some or all of a write or failing it, and the
completion handler of a write that has ended. -/
inductive AmqpEvent
  | setup (hello : List Bytes) (weak : Bool)
  | onData (v : Bytes)
  | runStrand (weak : Bool)
  | socketAccepts (i n : Nat)
  | socketFails (i : Nat) (message : Bytes)
  | writeCompleted (i : Nat)

namespace AmqpConnection

def step (s : AmqpConnection) (e : AmqpEvent) : Option AmqpConnection :=
  if s.aborted = true then none
  else
    match e with
    | .setup hello weak => some (s.setup hello weak)
    | .onData v => some (s.onData v)
    | .runStrand weak =>
      match s.strand with
      | [] => none
      | t :: rest => some ({ s with strand := rest }.runTask weak t)
    | .socketAccepts i n =>
      match s.writes[i]? with
      | some ⟨data, none⟩ =>
        if 1 ≤ n ∧ n ≤ data.length then
          some { s with writes := s.writes.set i ⟨data, some (.ok n)⟩
                        accepted := s.accepted ++ data.take n }
        else none
      | _ => none
    | .socketFails i message =>
      match s.writes[i]? with
      | some ⟨data, none⟩ =>
        some { s with writes := s.writes.set i ⟨data, some (.error message)⟩, broken := true }
      | _ => none
    | .writeCompleted i =>
      match s.writes[i]? with
      | some ⟨_, some result⟩ => some ({ s with writes := s.writes.eraseIdx i }.post (.written result))
      | _ => none

end AmqpConnection

end AsioProtocols
