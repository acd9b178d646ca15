import AsioProtocols.Base.Dialling
import AsioProtocols.Base.Stoi
import AsioProtocols.TcpStream

/-!
# The client and the server of `tcp.h`

The client dials (`Base/Dialling.lean`), and its links are streams: each keeps its output queue
in order (`TcpStream.Sound`), whatever the others do (`TcpClient.streams_of_run`).

The server opens its acceptor in the handler of the lookup and never closes it. So one `listen`
succeeds at most: where another one has its host looked up, `open` throws, the exception leaves
the handler, and its future is never settled. From the first success on one accept is outstanding
at any time. The handler of an accept keeps a stream where an error is reported, and where a
client has come it keeps nothing (`TcpServer.serves_of_run`).

The header does not compile as it stands: the future of `connect` is made as one of a `bool` and
settled with a stream, and `stream` has no constructor for what the server gives it.
-/

namespace AsioProtocols

variable {E : Type}

/-! ## The client -/

/-- A client with its streams. A call is a hostname and a port. -/
abbrev TcpClient (E : Type) := Dialler (Bytes × UInt16) E TcpStream

abbrev TcpClientEvent (E : Type) := DialEvent (Bytes × UInt16) E Unit TcpStream.Event

namespace TcpClient

/-- What is the client's own in `connect`: the query, and a stream on the socket. -/
def dialling : Dialling (Bytes × UInt16) Unit TcpStream TcpStream.Event where
  query call := (call.1, decimal call.2.toNat)
  make _ _ := {}
  step := TcpStream.step

/-- `connect(hostname, port)` (tcp.h, lines 151-197) -/
def connect (s : TcpClient E) (hostname : Bytes) (port : UInt16) (thrown : Option Bytes) :
    TcpClient E := s.call dialling (hostname, port) thrown

def step (s : TcpClient E) : TcpClientEvent E → Option (TcpClient E)
  | .call (hostname, port) thrown => some (connect s hostname port thrown)
  | .resolved i answer => s.resolved i answer
  | .connected i result => s.connected dialling i result
  | .onLink k e => s.onLink dialling k e

theorem step_eq (s : TcpClient E) (e : TcpClientEvent E) :
    step s e = Dialler.step dialling s e := by
  cases e <;> rfl

/-- **Every run of a client**, with all its streams. -/
theorem streams_of_run {s : TcpClient E} {h : Dialler.History (Bytes × UInt16) E}
    (run : Run (recorded step Dialler.record) anyEvent ({}, {}) (s, h)) :
    Dialler.Established dialling (fun _ stream => stream.Sound) s h := by
  have hstep : step (E := E) = Dialler.step dialling :=
    funext fun s => funext fun e => step_eq s e
  rw [hstep] at run
  refine (Dialler.keeps_of_run (P := fun _ stream => stream.Sound) run ?_ ?_).established id
  · exact fun _ _ => ⟨rfl, rfl, fun _ hne => absurd rfl hne⟩
  · exact fun hsound hmoves => hsound.step hmoves

/-- Two streams to one host, written to in turn. -/
def twoStreams : List (TcpClientEvent Nat) :=
  [.call (ascii "a", 80) none, .call (ascii "a", 80) none, .resolved 0 (.ok [7]),
    .resolved 1 (.ok [7]), .connected 1 (.up 0 ()), .onLink 0 (.write (ascii "x")),
    .connected 0 (.up 0 ()), .onLink 1 (.write (ascii "y")), .onLink 0 (.run 0),
    .onLink 1 (.run 0), .onLink 1 (.run 0), .onLink 0 (.run 0), .onLink 0 (.run 0)]

theorem streams_twoStreams :
    ∃ s h, exec (recorded step Dialler.record) ({}, {}) twoStreams = some (s, h) ∧
      (List.range 2).map s.promises.outcome = [some (.done 1), some (.done 0)] ∧
      s.links.map (fun link => link.machine.handed) = [[ascii "x"], []] ∧
      Dialler.Established dialling (fun _ stream => stream.Sound) s h := by
  have hvals : (exec (recorded step Dialler.record) ({}, {}) twoStreams).map
      (fun x => ((List.range 2).map x.1.promises.outcome,
        x.1.links.map fun link => link.machine.handed)) =
      some ([some (.done 1), some (.done 0)], [[ascii "x"], []]) := by decide
  obtain ⟨⟨s, h⟩, hexec, hvals⟩ := Option.map_eq_some_iff.mp hvals
  obtain ⟨houtcomes, hhanded⟩ := Prod.mk.inj hvals
  exact ⟨s, h, hexec, houtcomes, hhanded,
    streams_of_run (.of_exec (fun _ _ => trivial) _ hexec)⟩

end TcpClient

/-! ## The server -/

/-- What is outstanding for a `listen`. An exception leaves its handler for good. -/
inductive ListenOp
  | resolving (host port : Bytes)
  | abandoned

/-- `isOpen` is the acceptor's, `accepts` counts its accepts outstanding. -/
structure TcpServer where
  promises : Promises Bool ListenOp := {}
  isOpen : Bool := false
  listeningPort : UInt16 := 0
  accepts : Nat := 0
  connections : List TcpStream := []

/-- What the calls on the acceptor do: `open` throws, one behind it throws, or none does. -/
inductive Opening
  | openThrows
  | throws
  | listens (port : UInt16)

/-- A `listen` comes with what it throws, if it does; an accept with whether it fails. -/
inductive TcpServerEvent (E : Type)
  | listen (hostname : Bytes) (port : UInt16) (thrown : Option Bytes)
  | resolved (i : Nat) (answer : Except Bytes E) (opening : Opening)
  | accepted (ec : Bool)
  | onConnection (k : Nat) (e : TcpStream.Event)

namespace TcpServer

/-- `listen(hostname, port)` (tcp.h, lines 225-269) -/
def listen (s : TcpServer) (hostname : Bytes) (port : UInt16) : Option Bytes → TcpServer
  | some what => { s with promises := s.promises.refuse (.failed what) }
  | none => { s with promises := s.promises.start (.resolving hostname (decimal port.toNat)) }

/-- `accept()` (tcp.h, lines 275-293) -/
def accept (s : TcpServer) : TcpServer := { s with accepts := s.accepts + 1 }

/-- The handler of the lookup; an acceptor that is open is not opened again. -/
def resolved (s : TcpServer) (i : Nat) (answer : Except Bytes E) (opening : Opening) :
    Option TcpServer :=
  match s.promises.outstanding[i]? with
  | some (_, .resolving _ _) =>
    match answer with
    | .error ec => (s.promises.finish i (.failed ec)).map fun promises => { s with promises }
    | .ok _ =>
      if s.isOpen then (s.promises.next i .abandoned).map fun promises => { s with promises }
      else
        match opening with
        | .openThrows => (s.promises.next i .abandoned).map fun promises => { s with promises }
        | .throws =>
          (s.promises.next i .abandoned).map fun promises => { s with promises, isOpen := true }
        | .listens port =>
          (s.promises.finish i (.done true)).map fun promises =>
            { s with promises, isOpen := true, listeningPort := port }.accept
  | _ => none

/-- The handler of an accept. -/
def accepted (s : TcpServer) (ec : Bool) : Option TcpServer :=
  if s.accepts = 0 then none
  else
    let s := { s with accepts := s.accepts - 1 }
    if !s.isOpen then some s
    -- a stream is kept when there is an error
    else if ec then some { s with connections := s.connections ++ [({} : TcpStream)] }.accept
    else some s.accept

/-- Something happens to a stream. -/
def onConnection (s : TcpServer) (k : Nat) (e : TcpStream.Event) : Option TcpServer := do
  let stream ← s.connections[k]?
  let stream ← stream.step e
  some { s with connections := s.connections.set k stream }

def step (s : TcpServer) : TcpServerEvent E → Option TcpServer
  | .listen hostname port thrown => some (s.listen hostname port thrown)
  | .resolved i answer opening => s.resolved i answer opening
  | .accepted ec => s.accepted ec
  | .onConnection k e => s.onConnection k e

/-! What a run is to be compared with. -/

/-- What ends a `listen`. -/
inductive Report
  | thrown (what : Bytes)
  | error (ec : Bytes)
  | listens

def verdict (_ : Bytes × UInt16) : Report → Outcome Bool
  | .thrown what => .failed what
  | .error ec => .failed ec
  | .listens => .done true

/-- The calls, what their handlers were told, and what each accept reported. -/
structure History extends Diary (Bytes × UInt16) Report where
  accepts : List Bool := []

def futureAt (s : TcpServer) (i : Nat) : Nat := (s.promises.outstanding[i]?).elim 0 Prod.fst

def record (s : TcpServer) (e : TcpServerEvent E) (_ : TcpServer) (h : History) : History :=
  match e with
  | .listen hostname port none => { h with toDiary := h.call (hostname, port) }
  | .listen hostname port (some what) =>
    { h with toDiary := (h.call (hostname, port)).tell s.promises.futures.length (.thrown what) }
  | .resolved i (.error ec) _ => { h with toDiary := h.tell (s.futureAt i) (.error ec) }
  | .resolved i (.ok _) (.listens _) =>
    if s.isOpen then h else { h with toDiary := h.tell (s.futureAt i) .listens }
  | .resolved _ (.ok _) _ => h
  | .accepted ec => { h with accepts := h.accepts ++ [ec] }
  | .onConnection _ _ => h

/-- The `listen` numbered `n` has succeeded. -/
def Listens (s : TcpServer) (n : Nat) : Prop := s.promises.outcome n = some (.done true)

/-- An exception has left the handler of the `listen` numbered `n`. -/
def Abandoned (s : TcpServer) (n : Nat) : Prop := (n, .abandoned) ∈ s.promises.outstanding

/-- **The server**, at any moment. -/
structure Serves (s : TcpServer) (h : History) : Prop where
  honest : s.promises.Honest verdict h.toDiary
  isOpen : ∀ n, s.Listens n → s.isOpen
  once : ∀ n m, s.Listens n → s.Listens m → n = m
  accepting : s.accepts ≤ 1 ∧ (s.accepts = 1 ↔ ∃ n, s.Listens n)
  connections : s.connections.length = h.accepts.count true
  streams : ∀ stream ∈ s.connections, stream.Sound

/-- **The server from now on**: a handler can go on, what is settled stays, one accept is
outstanding once a `listen` has succeeded, and a `listen` that finds its host when the acceptor
is open is never heard of again. -/
structure ServesOn (E : Type) (s : TcpServer) : Prop where
  goesOn : ∀ i n host port, s.promises.outstanding[i]? = some (n, .resolving host port) →
    ∀ (answer : Except Bytes E) opening, (s.resolved i answer opening).isSome
  settled : ∀ n o t, s.promises.outcome n = some o → Run (step (E := E)) anyEvent s t →
    t.promises.outcome n = some o
  accepting : ∀ n t, s.Listens n → Run (step (E := E)) anyEvent s t → t.accepts = 1
  again : ∀ i n host port (endpoint : E) opening s' t, s.isOpen = true →
    s.promises.outstanding[i]? = some (n, .resolving host port) →
    s.step (.resolved i (.ok endpoint) opening) = some s' → Run (step (E := E)) anyEvent s' t →
    t.promises.outcome n = none

variable {s s' : TcpServer} {h h' : History} {i n : Nat} {op : ListenOp}
  {l : Promises Bool ListenOp}

/-- **The inversion of `resolved`**: the future is settled, or an exception leaves the handler. -/
theorem resolved_cases {answer : Except Bytes E} {opening : Opening}
    (hstep : s.resolved i answer opening = some s') :
    ∃ n host port, s.promises.outstanding[i]? = some (n, .resolving host port) ∧
      ((∃ o, s.promises.finish i o = some s'.promises) ∨
        s.promises.next i .abandoned = some s'.promises) := by
  unfold TcpServer.resolved at hstep
  split at hstep
  · rename_i n host port hop
    refine ⟨n, host, port, hop, ?_⟩
    cases answer with
    | error ec =>
      obtain ⟨l, hl, rfl⟩ := Option.map_eq_some_iff.mp hstep
      exact .inl ⟨_, hl⟩
    | ok endpoint =>
      dsimp only at hstep
      split at hstep
      · obtain ⟨l, hl, rfl⟩ := Option.map_eq_some_iff.mp hstep
        exact .inr hl
      · cases opening with
        | openThrows | throws =>
          obtain ⟨l, hl, rfl⟩ := Option.map_eq_some_iff.mp hstep
          exact .inr hl
        | listens port =>
          obtain ⟨l, hl, rfl⟩ := Option.map_eq_some_iff.mp hstep
          exact .inl ⟨_, hl⟩
  · cases hstep

/-- An acceptor that is open throws when it is opened again. -/
theorem abandoned_of_isOpen {host port : Bytes} {endpoint : E} {opening : Opening}
    (hopen : s.isOpen = true)
    (hop : s.promises.outstanding[i]? = some (n, .resolving host port))
    (hstep : s.step (.resolved i (.ok endpoint) opening) = some s') : s'.Abandoned n := by
  simp only [step, TcpServer.resolved, hop, hopen, if_true] at hstep
  obtain ⟨l, hl, rfl⟩ := Option.map_eq_some_iff.mp hstep
  obtain ⟨m, x, hop', rfl⟩ := Promises.next_eq_some hl
  obtain ⟨rfl, -⟩ := Prod.mk.inj (Option.some.inj (hop.symm.trans hop'))
  exact List.mem_of_getElem? (List.getElem?_set_self (List.getElem?_eq_some_iff.mp hop).1)

namespace Serves

theorem initial : Serves {} {} where
  honest := .empty
  isOpen := by simp [Listens, Promises.outcome]
  once := by simp [Listens, Promises.outcome]
  accepting := by simp [Listens, Promises.outcome]
  connections := rfl
  streams := by simp

/-- **No `listen` succeeds**: the rest of the server stays as it is. -/
theorem quiet (hs : Serves s h) {isOpen : Bool} (honest : l.Honest verdict h'.toDiary)
    (hlistens : ∀ n, l.outcome n = some (.done true) ↔ s.Listens n)
    (hopen : s.isOpen → isOpen) (haccepts : h'.accepts = h.accepts) :
    Serves { s with promises := l, isOpen } h' where
  honest := honest
  isOpen n hn := hopen (hs.isOpen n ((hlistens n).mp hn))
  once n m hn hm := hs.once n m ((hlistens n).mp hn) ((hlistens m).mp hm)
  accepting := ⟨hs.accepting.1, hs.accepting.2.trans (exists_congr fun n => (hlistens n).symm)⟩
  connections := by
    rw [haccepts]
    exact hs.connections
  streams := hs.streams

theorem listen (hs : Serves s h) (hostname : Bytes) (port : UInt16) (thrown : Option Bytes) :
    Serves (s.listen hostname port thrown)
      (record s (.listen hostname port thrown : TcpServerEvent E) s' h) := by
  cases thrown with
  | none =>
    refine hs.quiet (hs.honest.start (hostname, port) _) (fun n => ?_) id rfl
    rw [Promises.outcome_start, Listens]
  | some what =>
    refine hs.quiet (hs.honest.refuse (hostname, port) (.thrown what)) (fun n => ?_) id rfl
    rw [Promises.outcome_refuse, Listens]
    split
    · rename_i hn
      rw [hn, Promises.outcome_of_length_le (Nat.le_refl _)]
      simp
    · rfl

/-- The lookup fails. -/
theorem fail {ec : Bytes} (hs : Serves s h) (hop : s.promises.outstanding[i]? = some (n, op))
    (hfinish : s.promises.finish i (.failed ec) = some l) :
    Serves { s with promises := l } { h with toDiary := h.tell n (.error ec) } := by
  obtain ⟨call, hcall⟩ := hs.honest.call_of_outstanding hop
  refine hs.quiet (hs.honest.finish (y := Report.error ec) hop hcall hfinish) (fun m => ?_) id rfl
  obtain ⟨hpending, -, houtcome⟩ := Promises.finish_spec (k := m) hop hfinish
  rw [houtcome, Listens]
  split
  · rename_i hm
    rw [hm, hpending]
    simp
  · rfl

/-- An exception leaves the handler, with the acceptor open perhaps. -/
theorem abandon {isOpen : Bool} (hs : Serves s h)
    (hnext : s.promises.next i .abandoned = some l) (hopen : s.isOpen → isOpen) :
    Serves { s with promises := l, isOpen } h := by
  refine hs.quiet (hs.honest.next hnext) (fun m => ?_) hopen rfl
  obtain ⟨k, x, -, rfl⟩ := Promises.next_eq_some hnext
  exact Iff.rfl

/-- **The server listens**, for the first time. -/
theorem listens {port : UInt16} (hs : Serves s h)
    (hop : s.promises.outstanding[i]? = some (n, op)) (hclosed : s.isOpen = false)
    (hfinish : s.promises.finish i (.done true) = some l) :
    Serves { s with promises := l, isOpen := true, listeningPort := port }.accept
      { h with toDiary := h.tell n .listens } := by
  obtain ⟨call, hcall⟩ := hs.honest.call_of_outstanding hop
  have hnone : ∀ m, ¬ s.Listens m := by
    intro m hm
    have hopen := hs.isOpen m hm
    rw [hclosed] at hopen
    cases hopen
  have hlistens : ∀ m, l.outcome m = some (.done true) ↔ m = n := by
    intro m
    rw [(Promises.finish_spec (k := m) hop hfinish).2.2]
    split
    · rename_i hm
      simp [hm]
    · rename_i hm
      exact iff_of_false (hnone m) hm
  have hidle : s.accepts = 0 := by
    have hle := hs.accepting.1
    have hone : s.accepts ≠ 1 := fun hone => by
      obtain ⟨m, hm⟩ := hs.accepting.2.mp hone
      exact hnone m hm
    omega
  constructor
  · exact hs.honest.finish (y := Report.listens) hop hcall hfinish
  · exact fun _ _ => rfl
  · exact fun m k hm hk => ((hlistens m).mp hm).trans ((hlistens k).mp hk).symm
  · refine ⟨?_, fun _ => ⟨n, (hlistens n).mpr rfl⟩, fun _ => ?_⟩
    · show s.accepts + 1 ≤ 1
      omega
    · show s.accepts + 1 = 1
      omega
  · exact hs.connections
  · exact hs.streams

theorem resolved {answer : Except Bytes E} {opening : Opening} (hs : Serves s h)
    (hstep : s.resolved i answer opening = some s') :
    Serves s' (record s (.resolved i answer opening) s' h) := by
  unfold TcpServer.resolved at hstep
  split at hstep
  · rename_i n host port hop
    have hfuture : s.futureAt i = n := by rw [futureAt, hop]; rfl
    cases answer with
    | error ec =>
      obtain ⟨l, hl, rfl⟩ := Option.map_eq_some_iff.mp hstep
      simp only [record, hfuture]
      exact hs.fail hop hl
    | ok endpoint =>
      by_cases hopen : s.isOpen = true
      · rw [if_pos hopen] at hstep
        obtain ⟨l, hl, rfl⟩ := Option.map_eq_some_iff.mp hstep
        have hsame : ∀ s', record s (.resolved i (.ok endpoint) opening) s' h = h := by
          cases opening <;> simp [record, hopen]
        rw [hsame]
        exact hs.abandon hl id
      · rw [if_neg hopen] at hstep
        cases opening with
        | openThrows =>
          obtain ⟨l, hl, rfl⟩ := Option.map_eq_some_iff.mp hstep
          exact hs.abandon hl id
        | throws =>
          obtain ⟨l, hl, rfl⟩ := Option.map_eq_some_iff.mp hstep
          exact hs.abandon hl fun _ => rfl
        | listens port =>
          obtain ⟨l, hl, rfl⟩ := Option.map_eq_some_iff.mp hstep
          simp only [record, hfuture, if_neg hopen]
          exact hs.listens hop (Bool.eq_false_iff.mpr hopen) hl
  · cases hstep

/-- **One accept after the other.** -/
theorem accepted {ec : Bool} (hs : Serves s h) (hstep : s.accepted ec = some s') :
    Serves s' (record s (.accepted ec : TcpServerEvent E) s' h) := by
  rw [TcpServer.accepted] at hstep
  split at hstep
  · cases hstep
  · rename_i hne
    have hone : s.accepts = 1 := by
      have := hs.accepting.1
      omega
    obtain ⟨n, hn⟩ := hs.accepting.2.mp hone
    have hopen := hs.isOpen n hn
    have hagain : s.accepts - 1 + 1 = s.accepts := by omega
    simp only [hopen, Bool.not_true, Bool.false_eq_true, if_false] at hstep
    cases ec with
    | false =>
      obtain rfl := Option.some.inj hstep
      refine ⟨hs.honest, fun _ _ => rfl, hs.once, ?_, ?_, hs.streams⟩
      · show s.accepts - 1 + 1 ≤ 1 ∧ (s.accepts - 1 + 1 = 1 ↔ ∃ n, s.Listens n)
        rw [hagain]
        exact hs.accepting
      · show s.connections.length = (h.accepts ++ [false]).count true
        rw [hs.connections, List.count_append]
        rfl
    | true =>
      obtain rfl := Option.some.inj hstep
      refine ⟨hs.honest, fun _ _ => rfl, hs.once, ?_, ?_, ?_⟩
      · show s.accepts - 1 + 1 ≤ 1 ∧ (s.accepts - 1 + 1 = 1 ↔ ∃ n, s.Listens n)
        rw [hagain]
        exact hs.accepting
      · show (s.connections ++ [({} : TcpStream)]).length = (h.accepts ++ [true]).count true
        rw [List.length_append, hs.connections, List.count_append]
        rfl
      · intro stream hstream
        rcases List.mem_append.mp hstream with hstream | hstream
        · exact hs.streams stream hstream
        · rw [List.mem_singleton.mp hstream]
          exact ⟨rfl, rfl, fun _ hne => absurd rfl hne⟩

theorem onConnection {k : Nat} {e : TcpStream.Event} (hs : Serves s h)
    (hstep : s.onConnection k e = some s') : Serves s' h := by
  obtain ⟨stream, hstream, hstep⟩ := Option.bind_eq_some_iff.mp hstep
  obtain ⟨stream', hmoves, hstep⟩ := Option.bind_eq_some_iff.mp hstep
  obtain rfl := Option.some.inj hstep
  refine ⟨hs.honest, hs.isOpen, hs.once, hs.accepting, ?_, ?_⟩
  · exact List.length_set.trans hs.connections
  · intro x hx
    rcases List.mem_or_eq_of_mem_set hx with hx | rfl
    · exact hs.streams x hx
    · exact (hs.streams stream (List.mem_of_getElem? hstream)).step hmoves

theorem step {e : TcpServerEvent E} (hs : Serves s h) (hstep : s.step e = some s') :
    Serves s' (record s e s' h) := by
  cases e with
  | listen hostname port thrown =>
    obtain rfl := Option.some.inj hstep
    exact hs.listen hostname port thrown
  | resolved i answer opening => exact hs.resolved hstep
  | accepted ec => exact hs.accepted hstep
  | onConnection k e => exact hs.onConnection hstep

/-- Whatever a handler is told, it can go on. -/
theorem resolved_isSome {host port : Bytes} (hs : Serves s h)
    (hop : s.promises.outstanding[i]? = some (n, .resolving host port))
    (answer : Except Bytes E) (opening : Opening) : (s.resolved i answer opening).isSome := by
  have hi := (List.getElem?_eq_some_iff.mp hop).1
  have hnext : (s.promises.next i .abandoned).isSome := by simp [Promises.next, hop]
  unfold TcpServer.resolved
  rw [hop]
  cases answer with
  | error ec =>
    rw [Option.isSome_map]
    exact hs.honest.finish_isSome hi _
  | ok endpoint =>
    dsimp only
    split
    · rw [Option.isSome_map]
      exact hnext
    · cases opening with
      | openThrows | throws =>
        rw [Option.isSome_map]
        exact hnext
      | listens port =>
        rw [Option.isSome_map]
        exact hs.honest.finish_isSome hi _

/-- An abandoned future is pending. -/
theorem pending_of_abandoned (hs : Serves s h) (hn : s.Abandoned n) :
    s.promises.outcome n = none :=
  ((hs.honest.owed_iff n).mp (List.mem_map_of_mem (f := Prod.fst) hn)).2

end Serves

/-! ## What stays -/

/-- What is settled or abandoned stays so. -/
structure Lasts (s s' : TcpServer) : Prop where
  settled : ∀ n o, s.promises.outcome n = some o → s'.promises.outcome n = some o
  abandoned : ∀ n, s.Abandoned n → s'.Abandoned n

namespace Lasts

theorem refl (s : TcpServer) : Lasts s s := ⟨fun _ _ => id, fun _ => id⟩

theorem trans {t : TcpServer} (first : Lasts s s') (second : Lasts s' t) : Lasts s t :=
  ⟨fun n o h => second.settled n o (first.settled n o h),
    fun n h => second.abandoned n (first.abandoned n h)⟩

theorem of_promises_eq (h : s'.promises = s.promises) : Lasts s s' :=
  ⟨fun _ _ hn => h ▸ hn, fun _ hn => by rw [Abandoned, h]; exact hn⟩

theorem listen (s : TcpServer) (hostname : Bytes) (port : UInt16) (thrown : Option Bytes) :
    Lasts s (s.listen hostname port thrown) := by
  cases thrown with
  | none =>
    refine ⟨fun n o hn => ?_, fun n hn => List.mem_append_left _ hn⟩
    exact (Promises.outcome_start _).trans hn
  | some what => exact ⟨fun n o hn => Promises.settled_refuse hn, fun n hn => hn⟩

/-- The lookup of another `listen` ends, or its handler is left by an exception. -/
theorem resolved {answer : Except Bytes E} {opening : Opening}
    (hstep : s.resolved i answer opening = some s') : Lasts s s' := by
  obtain ⟨m, host, port, hop, hmoves⟩ := resolved_cases hstep
  have hother : ∀ n, s.promises.outstanding[i]? ≠ some (n, .abandoned) := by
    intro n hn
    rw [hop] at hn
    cases hn
  rcases hmoves with ⟨o, hfinish⟩ | hnext
  · exact ⟨fun n o' hn => Promises.settled_finish hn hfinish,
      fun n hn => Promises.mem_outstanding_finish hn (hother n) hfinish⟩
  · exact ⟨fun n o' hn => Promises.settled_next hn hnext,
      fun n hn => Promises.mem_outstanding_next hn (hother n) hnext⟩

theorem step {e : TcpServerEvent E} (hstep : s.step e = some s') : Lasts s s' := by
  cases e with
  | listen hostname port thrown =>
    obtain rfl := Option.some.inj hstep
    exact .listen s hostname port thrown
  | resolved i answer opening => exact .resolved hstep
  | accepted ec =>
    simp only [TcpServer.step, TcpServer.accepted] at hstep
    split at hstep
    · cases hstep
    · split at hstep
      · cases hstep
        exact .of_promises_eq rfl
      · split at hstep <;> cases hstep <;> exact .of_promises_eq rfl
  | onConnection k e =>
    obtain ⟨stream, -, hstep⟩ := Option.bind_eq_some_iff.mp hstep
    obtain ⟨stream', -, hstep⟩ := Option.bind_eq_some_iff.mp hstep
    obtain rfl := Option.some.inj hstep
    exact .of_promises_eq rfl

end Lasts

/-- The server goes on as one, and what was settled or abandoned stays so. -/
theorem Serves.later {t : TcpServer} (hs : Serves s h)
    (run : Run (TcpServer.step (E := E)) anyEvent s t) :
    (∃ h', Serves t h') ∧ Lasts s t := by
  refine run.invariant (P := fun t => (∃ h', Serves t h') ∧ Lasts s t) ⟨⟨h, hs⟩, .refl s⟩ ?_
  rintro t u e ⟨⟨h', ht⟩, hlasts⟩ - hstep
  exact ⟨⟨_, ht.step hstep⟩, hlasts.trans (.step hstep)⟩

theorem Serves.servesOn (hs : Serves s h) : ServesOn E s where
  goesOn i n host port hop answer opening := hs.resolved_isSome hop answer opening
  settled n o t hn run := (hs.later run).2.settled n o hn
  accepting n t hn run := by
    obtain ⟨⟨h', ht⟩, hlasts⟩ := hs.later run
    exact ht.accepting.2.mpr ⟨n, hlasts.settled n _ hn⟩
  again i n host port endpoint opening s' t hopen hop hstep run := by
    have hs' := hs.step (E := E) hstep
    obtain ⟨⟨h', ht⟩, hlasts⟩ := hs'.later run
    exact ht.pending_of_abandoned (hlasts.abandoned n (abandoned_of_isOpen hopen hop hstep))

/-- **Every run of a server.** -/
theorem serves_of_run
    (run : Run (recorded (step (E := E)) record) anyEvent ({}, {}) (s, h)) :
    Serves s h ∧ ServesOn E s := by
  have hs : Serves s h := by
    refine run.invariant (P := fun x => Serves x.1 x.2) .initial ?_
    rintro ⟨s, h⟩ t e hs - hstep
    obtain ⟨u, hu, rfl⟩ := Option.map_eq_some_iff.mp hstep
    exact hs.step hu
  exact ⟨hs, hs.servesOn⟩

/-- A server that is told to listen twice. Three clients come, and an accept fails. -/
def threeClients : List (TcpServerEvent Nat) :=
  [.listen (ascii "a") 80 none, .listen (ascii "a") 81 none, .resolved 0 (.ok 7) (.listens 80),
    .accepted false, .resolved 0 (.ok 7) (.listens 81), .accepted false, .accepted true,
    .accepted false]

theorem serves_threeClients :
    ∃ s h, exec (recorded step record) ({}, {}) threeClients = some (s, h) ∧
      (List.range 2).map s.promises.outcome = [some (.done true), none] ∧
      s.connections.length = 1 ∧ Serves s h := by
  have hvals : (exec (recorded step record) ({}, {}) threeClients).map
      (fun x => ((List.range 2).map x.1.promises.outcome, x.1.connections.length)) =
      some ([some (.done true), none], 1) := by decide
  obtain ⟨⟨s, h⟩, hexec, hvals⟩ := Option.map_eq_some_iff.mp hvals
  obtain ⟨houtcomes, hconnections⟩ := Prod.mk.inj hvals
  exact ⟨s, h, hexec, houtcomes, hconnections,
    (serves_of_run (.of_exec (fun _ _ => trivial) _ hexec)).1⟩

end TcpServer

end AsioProtocols
