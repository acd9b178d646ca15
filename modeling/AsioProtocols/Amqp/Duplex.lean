import AsioProtocols.Amqp.ConnectionDetails
import AsioProtocols.Amqp.Incoming
import AsioProtocols.Amqp.LossFree

/-!
# Both sides of `amqp::connection`

The write side and the read side share a strand, and the AMQP library stands between them: it
is asked by the program, on a channel, and by each frame that `parse` consumes, and while it is
asked it calls its handler, with output (`onData`), with an error or when it is connected.
What it says is a function of what it was asked, in order (`AmqpLibrary.conversation`).

The strand's queue is `order`, whose task comes next; the tasks are in the queues of the two
sides (`Queued`). `setup` is called once, by `client::connect`. `step_does` says once what an
event does to the two sides and to the library.
-/

namespace AsioProtocols

variable {χ σ : Type}

/-! ## The library -/

/-- What the library calls its handler with. -/
inductive Says
  | onData (v : Bytes)
  | onError (message : Bytes)
  | onConnected

/-- What the library is asked: a call on a channel, or a frame that `parse` consumes. -/
inductive Asked (χ : Type)
  | call (c : χ)
  | frame (f : Bytes)

/-- `create` is the constructor of `AMQP::Connection`, with username, password and vhost. -/
structure AmqpLibrary (χ σ : Type) where
  parser : FrameParser
  create : Bytes → Bytes → Bytes → σ × List Says
  ask : σ → Asked χ → σ × List Says

/-- The output in what was said. -/
def Says.data : List Says → List Bytes :=
  List.filterMap fun | .onData v => some v | _ => none

def Says.errors : List Says → List Bytes :=
  List.filterMap fun | .onError message => some message | _ => none

def Says.connected : List Says → Nat :=
  List.countP fun | .onConnected => true | _ => false

/-- The frames in what was asked. -/
def Asked.frames : List (Asked χ) → List Bytes :=
  List.filterMap fun | .frame f => some f | .call _ => none

namespace AmqpLibrary

/-- One question after the other. -/
def askAll (lib : AmqpLibrary χ σ) (s : σ) : List (Asked χ) → σ × List Says
  | [] => (s, [])
  | a :: as =>
    ((lib.askAll (lib.ask s a).1 as).1, (lib.ask s a).2 ++ (lib.askAll (lib.ask s a).1 as).2)

def made (lib : AmqpLibrary χ σ) (cd : ConnectionDetails) : σ × List Says :=
  lib.create cd.user cd.pass cd.vhost

/-- All of it, from the constructor on. -/
def conversation (lib : AmqpLibrary χ σ) (cd : ConnectionDetails) (asked : List (Asked χ)) :
    σ × List Says :=
  ((lib.askAll (lib.made cd).1 asked).1, (lib.made cd).2 ++ (lib.askAll (lib.made cd).1 asked).2)

theorem askAll_concat (lib : AmqpLibrary χ σ) (a : Asked χ) : ∀ (as : List (Asked χ)) (s : σ),
    lib.askAll s (as ++ [a]) = ((lib.ask (lib.askAll s as).1 a).1,
      (lib.askAll s as).2 ++ (lib.ask (lib.askAll s as).1 a).2)
  | [], s => by simp [askAll]
  | b :: bs, s => by simp [askAll, lib.askAll_concat a bs]

/-- One question more. -/
theorem conversation_concat (lib : AmqpLibrary χ σ) (cd : ConnectionDetails)
    (asked : List (Asked χ)) (a : Asked χ) : lib.conversation cd (asked ++ [a]) =
      ((lib.ask (lib.conversation cd asked).1 a).1,
        (lib.conversation cd asked).2 ++ (lib.ask (lib.conversation cd asked).1 a).2) := by
  simp [conversation, askAll_concat]

end AmqpLibrary

/-! ## The connection -/

inductive Side
  | write | read
  deriving DecidableEq

/-- The connection: `conn_`, the texts of `amqp_error` and how often `amqp_connected` was
signalled. `asked` is history. -/
structure AmqpDuplex (χ σ : Type) where
  details : ConnectionDetails
  out : AmqpConnection := .init
  inp : AmqpReader := .init
  order : List Side := []
  conn : Option σ := none
  amqpErrors : List Bytes := []
  amqpConnected : Nat := 0
  asked : List (Asked χ) := []

/-- What may happen. -/
inductive DuplexEvent (χ : Type)
  | setup (weak : Bool)
  | call (c : χ)
  | runStrand (weak : Bool)
  | socketAccepts (i n : Nat)
  | socketFails (i : Nat) (message : Bytes)
  | writeCompleted (i : Nat)
  | delivers (storage : Bytes)
  | fails (message : Bytes)

namespace AmqpDuplex

/-- The library calls its handler. -/
def hear (d : AmqpDuplex χ σ) (said : List Says) : AmqpDuplex χ σ :=
  { d with
    out := (Says.data said).foldl (fun s v => s.onData v) d.out
    order := d.order ++ List.replicate (Says.data said).length .write
    amqpErrors := d.amqpErrors ++ Says.errors said
    amqpConnected := d.amqpConnected + Says.connected said }

/-- The library is asked; there is none before `setup`. -/
def ask (lib : AmqpLibrary χ σ) (d : AmqpDuplex χ σ) (a : Asked χ) : Option (AmqpDuplex χ σ) :=
  d.conn.map fun s =>
    { d with conn := some (lib.ask s a).1, asked := d.asked ++ [a] }.hear (lib.ask s a).2

/-- The calls of `parse` in the loop of `read_handler`. -/
def askFrames (lib : AmqpLibrary χ σ) (d : AmqpDuplex χ σ) : List Bytes → Option (AmqpDuplex χ σ)
  | [] => some d
  | f :: fs => (d.ask lib (.frame f)).bind fun d => d.askFrames lib fs

/-- `n` tasks of a side are posted to the strand. -/
def post (side : Side) (n : Nat) (d : AmqpDuplex χ σ) : AmqpDuplex χ σ :=
  { d with order := d.order ++ List.replicate n side }

/-- `active_` is set, then the library made, then `write_handler` and `read_handler` called. -/
def setup (lib : AmqpLibrary χ σ) (d : AmqpDuplex χ σ) (weak : Bool) : AmqpDuplex χ σ :=
  let made := lib.made d.details
  let out := d.out.setup (Says.data made.2) weak
  { d with
    out
    inp := d.inp.readHandler
    conn := some made.1
    order := d.order ++ List.replicate (out.strand.length - d.out.strand.length) .write ++ [.read]
    amqpErrors := d.amqpErrors ++ Says.errors made.2
    amqpConnected := d.amqpConnected + Says.connected made.2 }

/-- A step of the write side alone. -/
def write (d : AmqpDuplex χ σ) (e : AmqpEvent) : Option (AmqpDuplex χ σ) :=
  (d.out.step e).map fun out =>
    { d with out }.post .write (out.strand.length - d.out.strand.length)

/-- The end of a read. -/
def read (lib : AmqpLibrary χ σ) (d : AmqpDuplex χ σ) (e : ReadEvent) : Option (AmqpDuplex χ σ) :=
  (d.inp.step lib.parser e).map fun inp =>
    { d with inp }.post .read (inp.strand.length - d.inp.strand.length)

/-- The strand's first task. What it posts comes behind the others. -/
def runStrand (lib : AmqpLibrary χ σ) (d : AmqpDuplex χ σ) (weak : Bool) :
    Option (AmqpDuplex χ σ) :=
  match d.order with
  | [] => none
  | .write :: rest =>
    (d.out.step (.runStrand weak)).map fun out =>
      { d with out, order := rest }.post .write (out.strand.length + 1 - d.out.strand.length)
  | .read :: rest =>
    (d.inp.step lib.parser .runStrand).bind fun inp =>
      ({ d with inp, order := rest }.askFrames lib
        (inp.consumed.drop d.inp.consumed.length)).map
          (post .read (inp.strand.length + 1 - d.inp.strand.length))

def step (lib : AmqpLibrary χ σ) (d : AmqpDuplex χ σ) : DuplexEvent χ → Option (AmqpDuplex χ σ)
  | .setup weak => if d.conn.isSome then none else some (d.setup lib weak)
  | .call c => d.ask lib (.call c)
  | .runStrand weak => d.runStrand lib weak
  | .socketAccepts i n => d.write (.socketAccepts i n)
  | .socketFails i message => d.write (.socketFails i message)
  | .writeCompleted i => d.write (.writeCompleted i)
  | .delivers storage => d.read lib (.delivers storage)
  | .fails message => d.read lib (.fails message)

end AmqpDuplex

/-! ## What a step of a side posts and gives -/

namespace AmqpConnection

variable {s t : AmqpConnection}

theorem given_foldl (vs : List Bytes) (s : AmqpConnection) :
    (vs.foldl (fun s v => s.onData v) s).given = s.given ++ vs.flatten := by
  induction vs generalizing s with
  | nil => simp
  | cons v vs ih =>
    rw [List.foldl_cons, ih, onData, post, List.flatten_cons]
    exact List.append_assoc _ _ _

theorem length_strand_foldl (vs : List Bytes) (s : AmqpConnection) :
    (vs.foldl (fun s v => s.onData v) s).strand.length = s.strand.length + vs.length := by
  induction vs generalizing s with
  | nil => rfl
  | cons v vs ih =>
    rw [List.foldl_cons, ih, List.length_cons, onData, post, List.length_append,
      List.length_singleton]
    dsimp only
    omega

/-- `write_handler` posts at most, and gives nothing. -/
theorem writeHandler_frame (s : AmqpConnection) (weak : Bool) :
    s.strand.length ≤ (s.writeHandler weak).strand.length ∧
      (s.writeHandler weak).given = s.given ∧ (s.writeHandler weak).active = s.active := by
  unfold writeHandler
  split_ifs <;> simp [post]

theorem setup_frame (s : AmqpConnection) (hello : List Bytes) (weak : Bool) :
    s.strand.length ≤ (s.setup hello weak).strand.length ∧
      (s.setup hello weak).given = s.given ++ hello.flatten ∧
      (s.setup hello weak).active = true := by
  have hlen := length_strand_foldl hello { s with active := true }
  have hgiven := given_foldl hello { s with active := true }
  have hactive := onData_foldl (fun s => s.active = true) (fun _ h => h) hello
    (s := { s with active := true }) rfl
  rw [setup]
  split
  · exact ⟨by dsimp only at hlen ⊢; omega, hgiven, hactive⟩
  · obtain ⟨hle, hsame, hsame'⟩ :=
      writeHandler_frame (hello.foldl (fun s v => s.onData v) { s with active := true }) weak
    exact ⟨by dsimp only at hlen ⊢; omega, hsame.trans hgiven, hsame'.trans hactive⟩

theorem runTask_frame (s : AmqpConnection) (weak : Bool) (task : StrandTask) :
    s.strand.length ≤ (s.runTask weak task).strand.length ∧
      (s.runTask weak task).given = s.given ∧ (s.runTask weak task).active = s.active := by
  unfold runTask
  cases task with
  | insert v =>
    dsimp only
    split
    · exact writeHandler_frame { s with outgoing := s.outgoing ++ v } weak
    · exact ⟨Nat.le_refl _, rfl, rfl⟩
  | writeSome v => exact ⟨Nat.le_refl _, rfl, rfl⟩
  | written result =>
    cases result with
    | error message => exact ⟨Nat.le_refl _, rfl, rfl⟩
    | ok n => exact writeHandler_frame { s with writing := false } weak

/-- The steps that the library and the program do not take. -/
def Inner : AmqpEvent → Prop
  | .setup _ _ | .onData _ => False
  | _ => True

/-- An inner step takes at most its own task off the strand, and gives nothing. -/
theorem step_frame {e : AmqpEvent} (he : Inner e) (h : s.step e = some t) :
    s.strand.length ≤ t.strand.length + (match e with | .runStrand _ => 1 | _ => 0) ∧
      t.given = s.given ∧ t.active = s.active := by
  cases e with
  | setup hello weak => exact he.elim
  | onData v => exact he.elim
  | runStrand weak =>
    obtain ⟨task, rest, hs, rfl⟩ := step_runStrand h
    obtain ⟨hle, hgiven, hactive⟩ := runTask_frame { s with strand := rest } weak task
    exact ⟨by rw [hs]; simpa using hle, hgiven, hactive⟩
  | socketAccepts i n =>
    obtain ⟨data, -, -, -, rfl⟩ := step_socketAccepts h
    exact ⟨Nat.le_refl _, rfl, rfl⟩
  | socketFails i message =>
    obtain ⟨data, -, rfl⟩ := step_socketFails h
    exact ⟨Nat.le_refl _, rfl, rfl⟩
  | writeCompleted i =>
    obtain ⟨data, result, -, rfl⟩ := step_writeCompleted h
    exact ⟨by simp [post], rfl, rfl⟩

end AmqpConnection

namespace AmqpReader

variable {parser : FrameParser} {s t : AmqpReader}

/-- What the read side has: a read, a task, or the error that ended it. -/
def tokens (s : AmqpReader) : Nat := s.reads + s.strand.length + s.connectionErrors.length

/-- **A step behind `setup`** keeps the token; only the strand's task parses. -/
theorem step_frame {e : ReadEvent} (he : e ≠ .setup) (h : s.step parser e = some t) :
    t.tokens = s.tokens ∧ (∃ frames, t.consumed = s.consumed ++ frames) ∧
      (e ≠ .runStrand → t.consumed = s.consumed ∧ t.strand.length = s.strand.length + 1) ∧
      (e = .runStrand → s.strand.length ≤ t.strand.length + 1) := by
  cases e with
  | setup => exact absurd rfl he
  | runStrand =>
    rw [step] at h
    rcases hstrand : s.strand with _ | ⟨⟨⟩ | ⟨message | storage⟩, rest⟩
    · simp only [hstrand] at h
      cases h
    · simp only [hstrand] at h
      cases h
      exact ⟨by simp [tokens, hstrand]; omega, ⟨[], by simp⟩, fun hne => absurd rfl hne,
        fun _ => by simp⟩
    · simp only [hstrand, onReceived] at h
      cases h
      exact ⟨by simp [tokens, hstrand]; omega, ⟨[], by simp⟩, fun hne => absurd rfl hne,
        fun _ => by simp⟩
    · simp only [hstrand, onReceived] at h
      obtain ⟨l, -, rfl⟩ := Option.map_eq_some_iff.mp h
      exact ⟨by simp [tokens, hstrand, readHandler], ⟨l.consumed, rfl⟩, fun hne => absurd rfl hne,
        fun _ => by simp [readHandler]⟩
  | delivers storage =>
    obtain ⟨hread, hs⟩ := Option.ite_none_right_eq_some.mp h
    cases hs
    exact ⟨by simp [tokens]; omega, ⟨[], by simp⟩, fun _ => ⟨rfl, by simp⟩, fun he => by cases he⟩
  | fails message =>
    obtain ⟨hread, hs⟩ := Option.ite_none_right_eq_some.mp h
    cases hs
    exact ⟨by simp [tokens]; omega, ⟨[], by simp⟩, fun _ => ⟨rfl, by simp⟩, fun he => by cases he⟩

end AmqpReader

namespace AmqpDuplex

variable {lib : AmqpLibrary χ σ} {d d' : AmqpDuplex χ σ} {e : DuplexEvent χ} {fs : List Bytes}

/-! ## One event -/

/-- Each write is accepted as a whole, none after one that failed, and where a write should
start the exchange has no spurious failure: what `AmqpConnection.WritesWhole` says of the
write side. -/
def WritesWhole (d : AmqpDuplex χ σ) : DuplexEvent χ → Prop
  | .setup weak => d.out.WritesWhole (.setup [] weak)
  | .runStrand weak => d.order.head? = some .write → d.out.WritesWhole (.runStrand weak)
  | .socketAccepts i n => d.out.WritesWhole (.socketAccepts i n)
  | _ => True

/-- **What an event does**: it sets the connection up, asks the library, moves the write side,
or moves the read side, with frames for the library. -/
inductive Does (lib : AmqpLibrary χ σ) (d : AmqpDuplex χ σ) (e : DuplexEvent χ) :
    AmqpDuplex χ σ → Prop
  | setup {weak : Bool} (is : e = .setup weak) (new : d.conn = none) :
      Does lib d e (d.setup lib weak)
  | call {c : χ} {d' : AmqpDuplex χ σ} (asks : d.ask lib (.call c) = some d') : Does lib d e d'
  | wrote {w : AmqpEvent} {out : AmqpConnection} {order : List Side}
      (inner : AmqpConnection.Inner w) (moves : d.out.step w = some out)
      (whole : d.WritesWhole e → d.out.WritesWhole w) : Does lib d e { d with out, order }
  | got {r : ReadEvent} {inp : AmqpReader} {order : List Side} {fs : List Bytes}
      {d' : AmqpDuplex χ σ} {n : Nat} (inner : r ≠ .setup)
      (moves : d.inp.step lib.parser r = some inp) (frames : inp.consumed = d.inp.consumed ++ fs)
      (asks : { d with inp, order }.askFrames lib fs = some d') : Does lib d e (d'.post .read n)

theorem does_of_write (w : AmqpEvent) (inner : AmqpConnection.Inner w) (h : d.write w = some d')
    (whole : d.WritesWhole e → d.out.WritesWhole w) : Does lib d e d' := by
  obtain ⟨out, hout, rfl⟩ := Option.map_eq_some_iff.mp h
  exact .wrote inner hout whole

theorem does_of_read {r : ReadEvent} (inner : r ≠ .setup) (hrun : r ≠ .runStrand)
    (h : d.read lib r = some d') : Does lib d e d' := by
  obtain ⟨inp, hinp, rfl⟩ := Option.map_eq_some_iff.mp h
  have hsame := ((AmqpReader.step_frame inner hinp).2.2.1 hrun).1
  exact .got inner hinp (hsame.trans (List.append_nil _).symm) rfl

theorem step_does (h : d.step lib e = some d') : Does lib d e d' := by
  cases e with
  | setup weak =>
    cases hconn : d.conn with
    | some s => simp [step, hconn] at h
    | none =>
      simp only [step, hconn] at h
      exact Option.some.inj h ▸ .setup rfl hconn
  | call c => exact .call h
  | runStrand weak =>
    change d.runStrand lib weak = some d' at h
    unfold runStrand at h
    split at h
    · cases h
    · rename_i rest horder
      obtain ⟨out, hout, rfl⟩ := Option.map_eq_some_iff.mp h
      have hinner : AmqpConnection.Inner (.runStrand weak) := trivial
      exact .wrote hinner hout fun hwhole => hwhole (by rw [horder]; rfl)
    · obtain ⟨inp, hinp, h⟩ := Option.bind_eq_some_iff.mp h
      obtain ⟨mid, hmid, rfl⟩ := Option.map_eq_some_iff.mp h
      obtain ⟨frames, hframes⟩ := (AmqpReader.step_frame (by simp) hinp).2.1
      rw [hframes, List.drop_left] at hmid
      exact .got (by simp) hinp hframes hmid
  | socketAccepts i n => exact does_of_write (.socketAccepts i n) trivial h id
  | socketFails i message => exact does_of_write (.socketFails i message) trivial h fun _ => trivial
  | writeCompleted i => exact does_of_write (.writeCompleted i) trivial h fun _ => trivial
  | delivers storage => exact does_of_read (by simp) (by simp) h
  | fails message => exact does_of_read (by simp) (by simp) h

/-- **The loop of `parse`**: what each question keeps holds behind all of them. -/
theorem askFrames_induction {P : List Bytes → AmqpDuplex χ σ → Prop}
    (hask : ∀ {f fs d d'}, P (f :: fs) d → d.ask lib (.frame f) = some d' → P fs d') :
    ∀ {fs d}, P fs d → d.askFrames lib fs = some d' → P [] d' := by
  intro fs
  induction fs with
  | nil =>
    intro d hd h
    exact Option.some.inj h ▸ hd
  | cons f fs ih =>
    intro d hd h
    obtain ⟨mid, hmid, h⟩ := Option.bind_eq_some_iff.mp h
    exact ih (hask hd hmid) h

/-- **The inversion of a question.** -/
theorem ask_eq_some {a : Asked χ} (h : d.ask lib a = some d') : ∃ s, d.conn = some s ∧
    d' = { d with conn := some (lib.ask s a).1, asked := d.asked ++ [a] }.hear (lib.ask s a).2 := by
  obtain ⟨s, hs, rfl⟩ := Option.map_eq_some_iff.mp h
  exact ⟨s, hs, rfl⟩

/-! ## A question -/

/-- **What a question leaves alone.** On the write side it is `onData`, so many times. -/
structure AskFrame (d d' : AmqpDuplex χ σ) : Prop where
  details : d'.details = d.details
  inp : d'.inp = d.inp
  conn : d'.conn.isSome = d.conn.isSome
  out : ∃ vs : List Bytes, d'.out = vs.foldl (fun s v => s.onData v) d.out ∧
    d'.order = d.order ++ List.replicate vs.length .write

theorem AskFrame.ask {a : Asked χ} (h : d.ask lib a = some d') : AskFrame d d' := by
  obtain ⟨s, hs, rfl⟩ := ask_eq_some h
  exact ⟨rfl, rfl, by simp [hear, hs], _, rfl, rfl⟩

theorem AskFrame.askFrames (h : d.askFrames lib fs = some d') : AskFrame d d' := by
  refine askFrames_induction (P := fun _ mid => AskFrame d mid) ?_
    ⟨rfl, rfl, rfl, [], rfl, by simp⟩ h
  intro f fs mid mid' hmid hask
  obtain ⟨hdetails, hinp, hconn, vs, hout, horder⟩ := AskFrame.ask hask
  obtain ⟨hdetails', hinp', hconn', us, hout', horder'⟩ := hmid
  refine ⟨hdetails.trans hdetails', hinp.trans hinp', hconn.trans hconn', us ++ vs, ?_, ?_⟩
  · rw [hout, hout', List.foldl_append]
  · rw [horder, horder', List.length_append, List.replicate_add, List.append_assoc]

/-! ## The strand -/

/-- `order` is the strand's queue: it holds each task of the two sides. -/
structure Queued (d : AmqpDuplex χ σ) : Prop where
  write : d.order.count .write = d.out.strand.length
  read : d.order.count .read = d.inp.strand.length

theorem count_post (side other : Side) (n : Nat) (d : AmqpDuplex χ σ) :
    (d.post side n).order.count other = d.order.count other + if side = other then n else 0 := by
  rw [post, List.count_append, List.count_replicate]
  cases side <;> cases other <;> rfl

/-- The questions of a task, or of the program, are posted as output. -/
theorem count_of_askFrame (h : AskFrame d d') :
    d'.order.count .write + d.out.strand.length =
        d.order.count .write + d'.out.strand.length ∧
      d'.order.count .read = d.order.count .read := by
  obtain ⟨-, -, -, vs, hout, horder⟩ := h
  rw [hout, horder, AmqpConnection.length_strand_foldl, List.count_append, List.count_append,
    List.count_replicate, List.count_replicate]
  exact ⟨by simp; omega, rfl⟩

theorem Queued.write_step {w : AmqpEvent} (h : Queued d) (inner : AmqpConnection.Inner w)
    (hrun : ∀ weak, w ≠ .runStrand weak) (hstep : d.write w = some d') : Queued d' := by
  obtain ⟨out, hout, rfl⟩ := Option.map_eq_some_iff.mp hstep
  have hle : d.out.strand.length ≤ out.strand.length := by
    have := (AmqpConnection.step_frame inner hout).1
    cases w with
    | runStrand weak => exact absurd rfl (hrun weak)
    | _ => exact this
  have hwrite := h.write
  constructor
  · rw [count_post]
    show d.order.count _ + _ = out.strand.length
    simp only [if_true]
    omega
  · rw [count_post]
    exact h.read

theorem Queued.read_step {r : ReadEvent} (h : Queued d) (inner : r ≠ .setup)
    (hrun : r ≠ .runStrand) (hstep : d.read lib r = some d') : Queued d' := by
  obtain ⟨inp, hinp, rfl⟩ := Option.map_eq_some_iff.mp hstep
  have hlen := ((AmqpReader.step_frame inner hinp).2.2.1 hrun).2
  have hread := h.read
  constructor
  · rw [count_post]
    exact h.write
  · rw [count_post]
    show d.order.count _ + _ = inp.strand.length
    simp only [if_true]
    omega

/-- **The strand runs its first task.** -/
theorem Queued.runStrand (h : Queued d) {weak : Bool} (hstep : d.runStrand lib weak = some d') :
    Queued d' := by
  have hwrite := h.write
  have hread := h.read
  unfold AmqpDuplex.runStrand at hstep
  split at hstep
  · cases hstep
  · rename_i rest horder
    obtain ⟨out, hout, rfl⟩ := Option.map_eq_some_iff.mp hstep
    have hinner : AmqpConnection.Inner (.runStrand weak) := trivial
    have hle : d.out.strand.length ≤ out.strand.length + 1 :=
      (AmqpConnection.step_frame hinner hout).1
    rw [horder] at hwrite hread
    simp only [List.count_cons, beq_self_eq_true, if_true] at hwrite
    constructor
    · rw [count_post]
      show rest.count _ + _ = out.strand.length
      simp only [if_true]
      omega
    · rw [count_post]
      exact hread
  · rename_i rest horder
    obtain ⟨inp, hinp, hstep⟩ := Option.bind_eq_some_iff.mp hstep
    obtain ⟨mid, hmid, rfl⟩ := Option.map_eq_some_iff.mp hstep
    have hle : d.inp.strand.length ≤ inp.strand.length + 1 :=
      (AmqpReader.step_frame (by simp) hinp).2.2.2 rfl
    have hframe := AskFrame.askFrames hmid
    obtain ⟨hcountw, hcountr⟩ := count_of_askFrame hframe
    have hsame := hframe.inp
    rw [horder] at hwrite hread
    simp only [List.count_cons, beq_self_eq_true, if_true] at hread
    have hwrite' : rest.count .write = d.out.strand.length := hwrite
    dsimp only at hcountw hcountr hsame
    constructor
    · rw [count_post]
      show mid.order.count _ + _ = mid.out.strand.length
      simp only [if_neg (show Side.read ≠ Side.write by decide)]
      omega
    · rw [count_post]
      show mid.order.count _ + _ = mid.inp.strand.length
      rw [hsame]
      simp only [if_true]
      omega

theorem Queued.step (h : Queued d) (hstep : d.step lib e = some d') : Queued d' := by
  have hwrite := h.write
  have hread := h.read
  cases e with
  | setup weak =>
    simp only [AmqpDuplex.step] at hstep
    split at hstep
    · cases hstep
    · obtain rfl := Option.some.inj hstep
      have hle := (AmqpConnection.setup_frame d.out (Says.data (lib.made d.details).2) weak).1
      constructor
      · show (d.order ++ List.replicate _ _ ++ [Side.read]).count _ = _
        rw [List.count_append, List.count_append, List.count_replicate]
        simp [AmqpDuplex.setup]
        omega
      · show (d.order ++ List.replicate _ _ ++ [Side.read]).count _ = _
        rw [List.count_append, List.count_append, List.count_replicate]
        simp [AmqpDuplex.setup, AmqpReader.readHandler]
        omega
  | call c =>
    have hframe := AskFrame.ask hstep
    obtain ⟨hcountw, hcountr⟩ := count_of_askFrame hframe
    exact ⟨by omega, by rw [hcountr, hframe.inp, hread]⟩
  | runStrand weak => exact h.runStrand hstep
  | socketAccepts i n => exact h.write_step (w := .socketAccepts i n) trivial (by simp) hstep
  | socketFails i message =>
    exact h.write_step (w := .socketFails i message) trivial (by simp) hstep
  | writeCompleted i => exact h.write_step (w := .writeCompleted i) trivial (by simp) hstep
  | delivers storage => exact h.read_step (by simp) (by simp) hstep
  | fails message => exact h.read_step (by simp) (by simp) hstep

theorem askFrames_isSome (hconn : d.conn.isSome) : (d.askFrames lib fs).isSome := by
  induction fs generalizing d with
  | nil => rfl
  | cons f fs ih =>
    obtain ⟨s, hs⟩ := Option.isSome_iff_exists.mp hconn
    have hask : ∃ mid, d.ask lib (.frame f) = some mid := ⟨_, by rw [ask, hs]; rfl⟩
    obtain ⟨mid, hmid⟩ := hask
    rw [askFrames, hmid]
    exact ih ((AskFrame.ask hmid).conn.trans hconn)

end AmqpDuplex

end AsioProtocols
