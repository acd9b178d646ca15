import AsioProtocols.Amqp.Conversation
import AsioProtocols.Base.Dialling

/-!
# `amqp::client`

`connect` looks the host up, connects a socket to one of its addresses and sets a connection up
on it; then it settles its future with the connection (`Base/Dialling.lean`).

`established_of_run` is about a client with all its connections: a future that is done is done
with a connection of its own, with the details of its call and to an address that the resolver
gave for their host and port, which was set up before the future settled and is its library on
the wire ever since. A client does not look at the scheme, so `amqps` is not encrypted.
-/

namespace AsioProtocols

variable {E χ σ : Type}

/-- A client with all its connections. -/
abbrev AmqpClient (E χ σ : Type) := Dialler ConnectionDetails E (AmqpDuplex χ σ)

abbrev AmqpClientEvent (E χ : Type) := DialEvent ConnectionDetails E Bool (DuplexEvent χ)

namespace AmqpClient

/-- What the handler of the socket does: the connection is made, and `setup` called. -/
def mc (lib : AmqpLibrary χ σ) (cd : ConnectionDetails) (weak : Bool) : AmqpDuplex χ σ :=
  ({ details := cd } : AmqpDuplex χ σ).setup lib weak

/-- What is the client's own in `connect`: the query and the connection. -/
def dialling (lib : AmqpLibrary χ σ) :
    Dialling ConnectionDetails Bool (AmqpDuplex χ σ) (DuplexEvent χ) where
  query cd := (cd.host, decimal cd.port)
  make := mc lib
  step := AmqpDuplex.step lib

/-- `connect(cd)` (client.h, lines 33-84) -/
def connect (lib : AmqpLibrary χ σ) (s : AmqpClient E χ σ) (cd : ConnectionDetails)
    (thrown : Option Bytes) : AmqpClient E χ σ := s.call (dialling lib) cd thrown

def step (lib : AmqpLibrary χ σ) (s : AmqpClient E χ σ) :
    AmqpClientEvent E χ → Option (AmqpClient E χ σ)
  | .call cd thrown => some (connect lib s cd thrown)
  | .resolved i answer => s.resolved i answer
  | .connected i result => s.connected (dialling lib) i result
  | .onLink k e => s.onLink (dialling lib) k e

abbrev History (E : Type) := Dialler.History ConnectionDetails E

variable {lib : AmqpLibrary χ σ} {s : AmqpClient E χ σ} {h : History E}

/-- A connection that a client made. -/
structure Made (lib : AmqpLibrary χ σ) (cd : ConnectionDetails) (d : AmqpDuplex χ σ) : Prop where
  details : d.details = cd
  setUp : d.conn.isSome
  sound : d.Sound lib

theorem step_eq (s : AmqpClient E χ σ) (e : AmqpClientEvent E χ) :
    step lib s e = Dialler.step (dialling lib) s e := by
  cases e <;> rfl

theorem made_mc (cd : ConnectionDetails) (weak : Bool) : Made lib cd (mc lib cd weak) where
  details := rfl
  setUp := rfl
  sound := (AmqpDuplex.Sound.initial cd).step (e := .setup weak) rfl

theorem Made.step {cd : ConnectionDetails} {d d' : AmqpDuplex χ σ} {e : DuplexEvent χ}
    (h : Made lib cd d) (hstep : d.step lib e = some d') : Made lib cd d' where
  details := (AmqpDuplex.details_step hstep).trans h.details
  setUp := AmqpDuplex.conn_step hstep h.setUp
  sound := h.sound.step hstep

/-- What a program relies on of a connection that was handed over. -/
def Serves (lib : AmqpLibrary χ σ) (cd : ConnectionDetails) (d : AmqpDuplex χ σ) : Prop :=
  d.details = cd ∧ d.conn.isSome ∧ d.Faithful lib

/-- **Every run of a client**, with all its connections. -/
theorem established_of_run
    (run : Run (recorded (step lib) Dialler.record) anyEvent ({}, {}) (s, h)) :
    Dialler.Established (dialling lib) (Serves lib) s h := by
  have hstep : step (E := E) lib = Dialler.step (dialling lib) :=
    funext fun s => funext fun e => step_eq s e
  rw [hstep] at run
  refine (Dialler.keeps_of_run (P := Made lib) run made_mc ?_).established ?_
  · exact fun hmade hmoves => hmade.step hmoves
  · exact fun hmade => ⟨hmade.details, hmade.setUp, hmade.sound.faithful⟩

/-- Four calls: one throws, the host of one is not known, an exception leaves the handler of
one, and one is connected to its second address, where the greeting goes out. -/
def fourCalls : List (AmqpClientEvent Nat Bytes) :=
  [.call { host := ascii "a" } none, .call { host := ascii "b" } none,
    .call {} (some (ascii "no memory")), .resolved 0 (.ok [7, 8]), .call {} none,
    .resolved 2 (.ok [9]), .resolved 1 (.error (ascii "not found")), .connected 0 (.up 1 false),
    .onLink 0 (.runStrand false), .connected 0 .throws, .onLink 0 (.runStrand false),
    .onLink 0 (.runStrand false), .onLink 0 (.socketAccepts 0 5)]

theorem established_fourCalls :
    ∃ s h, exec (recorded (step AmqpDuplex.echo) Dialler.record) ({}, {}) fourCalls = some (s, h) ∧
      (List.range 4).map s.promises.outcome = [some (.done 0), some (.failed (ascii "not found")),
        some (.failed (ascii "no memory")), none] ∧
      s.links.map (fun link => (link.peer, link.machine.out.accepted)) = [(8, ascii "guest")] ∧
      Dialler.Established (dialling AmqpDuplex.echo) (Serves AmqpDuplex.echo) s h := by
  have hvals : (exec (recorded (step AmqpDuplex.echo) Dialler.record) ({}, {}) fourCalls).map
      (fun x => ((List.range 4).map x.1.promises.outcome,
        x.1.links.map fun link => (link.peer, link.machine.out.accepted))) =
      some ([some (.done 0), some (.failed (ascii "not found")),
        some (.failed (ascii "no memory")), none], [(8, ascii "guest")]) := by decide
  obtain ⟨⟨s, h⟩, hexec, hvals⟩ := Option.map_eq_some_iff.mp hvals
  obtain ⟨houtcomes, hlinks⟩ := Prod.mk.inj hvals
  exact ⟨s, h, hexec, houtcomes, hlinks, established_of_run (.of_exec (fun _ _ => trivial) _ hexec)⟩

end AmqpClient

end AsioProtocols
