import AsioProtocols.Amqp.Duplex

/-!
# The conversation that a connection carries

A connection is to be its library on the wire: the library is asked the program's calls and the
frames of the incoming stream, these in the order of the stream, whatever the segmentation, and
what it says goes out in the order in which it is said.

`faithful_of_run`: in every run the library is where this conversation has led it (`Driven`),
what it said has been given to the write side, and either side has at most one operation
outstanding (`Sides`); the read side goes on until a read fails, and the strand is never stuck.
`conversation_of_run`: as long as each write starts and is accepted as a whole (`WritesWhole`),
the bytes on the wire are a prefix of what the library said, and all of it when the connection is
idle. `given_eq_of_runs`: two connections that are set up and have handled the same bytes say the
same.
-/

namespace AsioProtocols

namespace AmqpDuplex

variable {χ σ : Type} {lib : AmqpLibrary χ σ} {d d' : AmqpDuplex χ σ} {e : DuplexEvent χ}
  {fs : List Bytes}

/-! ## The library is driven by the calls and the frames -/

/-- What the library has said. -/
def said (lib : AmqpLibrary χ σ) (d : AmqpDuplex χ σ) : List Says :=
  if d.conn.isSome then (lib.conversation d.details d.asked).2 else []

/-- **The refinement**, with `fs` the frames that are still to be asked: the library is where
its conversation has led it, and what it said has reached the handler. -/
structure Driven (lib : AmqpLibrary χ σ) (fs : List Bytes) (d : AmqpDuplex χ σ) : Prop where
  state : d.conn = none ∧ d.asked = [] ∨
    d.conn = some (lib.conversation d.details d.asked).1
  given : d.out.given = (Says.data (d.said lib)).flatten
  errors : d.amqpErrors = Says.errors (d.said lib)
  connected : d.amqpConnected = Says.connected (d.said lib)
  frames : d.inp.consumed = Asked.frames d.asked ++ fs

theorem Driven.initial (cd : ConnectionDetails) :
    Driven lib [] ({ details := cd } : AmqpDuplex χ σ) where
  state := .inl ⟨rfl, rfl⟩
  given := rfl
  errors := rfl
  connected := rfl
  frames := rfl

/-- One question more. -/
theorem Driven.ask {a : Asked χ} {fs' : List Bytes} (h : Driven lib fs d)
    (hfs : fs = Asked.frames [a] ++ fs') (hask : d.ask lib a = some d') : Driven lib fs' d' := by
  obtain ⟨s, hs, rfl⟩ := ask_eq_some hask
  have hstate : s = (lib.conversation d.details d.asked).1 := by
    rcases h.state with ⟨hnone, -⟩ | hsome
    · rw [hs] at hnone
      cases hnone
    · exact Option.some.inj (hs.symm.trans hsome)
  have hbefore : d.said lib = (lib.conversation d.details d.asked).2 := by simp [said, hs]
  have hconv := lib.conversation_concat d.details d.asked a
  rw [← hstate] at hconv
  have hafter : ({ d with conn := some (lib.ask s a).1, asked := d.asked ++ [a] }.hear
      (lib.ask s a).2).said lib = d.said lib ++ (lib.ask s a).2 := by
    rw [hbefore]
    exact congrArg Prod.snd hconv
  constructor
  · exact .inr (congrArg some (congrArg Prod.fst hconv).symm)
  · rw [hafter]
    simp [hear, AmqpConnection.given_foldl, h.given, Says.data]
  · rw [hafter]
    simp [hear, h.errors, Says.errors]
  · rw [hafter]
    simp [hear, h.connected, Says.connected]
  · show d.inp.consumed = Asked.frames (d.asked ++ [a]) ++ fs'
    have happend : Asked.frames (d.asked ++ [a]) = Asked.frames d.asked ++ Asked.frames [a] :=
      List.filterMap_append
    rw [h.frames, hfs, happend, List.append_assoc]

theorem Driven.askFrames (h : Driven lib fs d) (hask : d.askFrames lib fs = some d') :
    Driven lib [] d' :=
  askFrames_induction (fun hd hstep => hd.ask rfl hstep) h hask

/-- `setup`: the library is made, and nothing was asked before. -/
theorem Driven.setup (h : Driven lib [] d) (weak : Bool) (hnew : d.conn = none) :
    Driven lib [] (d.setup lib weak) := by
  have hasked : d.asked = [] := by
    rcases h.state with ⟨-, hasked⟩ | hsome
    · exact hasked
    · rw [hnew] at hsome
      cases hsome
  have hbefore : d.said lib = [] := by simp [said, hnew]
  have hafter : (d.setup lib weak).said lib = (lib.made d.details).2 := by
    simp [said, AmqpDuplex.setup, hasked, AmqpLibrary.conversation, AmqpLibrary.askAll]
  have hgiven := h.given
  rw [hbefore] at hgiven
  constructor
  · refine .inr ?_
    simp [AmqpDuplex.setup, hasked, AmqpLibrary.conversation, AmqpLibrary.askAll]
  · rw [hafter]
    show (d.out.setup _ weak).given = _
    rw [(AmqpConnection.setup_frame _ _ _).2.1, hgiven]
    rfl
  · rw [hafter]
    show d.amqpErrors ++ _ = _
    rw [h.errors, hbefore]
    rfl
  · rw [hafter]
    show d.amqpConnected + _ = _
    rw [h.connected, hbefore]
    exact Nat.zero_add _
  · exact h.frames

theorem Driven.step (h : Driven lib [] d) (hstep : d.step lib e = some d') : Driven lib [] d' := by
  cases step_does hstep with
  | setup is new => exact h.setup _ new
  | call asks => exact h.ask rfl asks
  | wrote inner moves whole =>
    have hgiven := (AmqpConnection.step_frame inner moves).2.1
    exact ⟨h.state, hgiven.trans h.given, h.errors, h.connected, h.frames⟩
  | @got r inp order fs mid n inner moves frames asks =>
    have hbegin : Driven lib fs { d with inp, order } :=
      ⟨h.state, h.given, h.errors, h.connected, by rw [frames, h.frames, List.append_nil]⟩
    have hend := hbegin.askFrames asks
    exact ⟨hend.state, hend.given, hend.errors, hend.connected, hend.frames⟩

/-! ## The two sides keep what they keep alone -/

/-- What holds of the write side, if `onData` and `setup` keep it and the inner steps do. -/
theorem step_out {P : AmqpConnection → Prop} (hd : P d.out) (hstep : d.step lib e = some d')
    (hdata : ∀ {s : AmqpConnection} v, P s → P (s.onData v))
    (hsetup : ∀ hello weak, e = .setup weak → P (d.out.setup hello weak))
    (hinner : ∀ {w out}, AmqpConnection.Inner w → (d.WritesWhole e → d.out.WritesWhole w) →
      d.out.step w = some out → P out) : P d'.out := by
  cases step_does hstep with
  | setup is new => exact hsetup _ _ is
  | call asks =>
    obtain ⟨-, -, -, vs, hout, -⟩ := AskFrame.ask asks
    rw [hout]
    exact AmqpConnection.onData_foldl P hdata vs hd
  | wrote inner moves whole => exact hinner inner whole moves
  | got inner moves frames asks =>
    obtain ⟨-, -, -, vs, hout, -⟩ := AskFrame.askFrames asks
    show P _
    rw [post, hout]
    exact AmqpConnection.onData_foldl P hdata vs hd

/-- The connection is up from `setup` on, and then both sides go. -/
structure Sides (lib : AmqpLibrary χ σ) (d : AmqpDuplex χ σ) : Prop where
  token : d.out.OneToken
  active : d.out.active = d.conn.isSome
  segmented : d.inp.Segmented lib.parser
  reading : d.inp.tokens = d.conn.isSome.toNat

theorem Sides.step (h : Sides lib d) (hstep : d.step lib e = some d') : Sides lib d' := by
  have htoken : d'.out.OneToken := step_out h.token hstep (fun v hs => hs.onData v)
    (fun hello weak _ => h.token.setup hello weak)
    (fun inner _ moves => AmqpConnection.OneToken.step h.token moves)
  suffices hrest : d'.out.active = d'.conn.isSome ∧ d'.inp.Segmented lib.parser ∧
      d'.inp.tokens = d'.conn.isSome.toNat from ⟨htoken, hrest.1, hrest.2.1, hrest.2.2⟩
  cases step_does hstep with
  | @setup weak is new =>
    refine ⟨(AmqpConnection.setup_frame _ _ _).2.2, h.segmented.readHandler, ?_⟩
    have hreading : d.inp.tokens = 0 := h.reading.trans (by rw [new]; rfl)
    show d.inp.readHandler.tokens = 1
    simp only [AmqpReader.tokens, AmqpReader.readHandler, List.length_append,
      List.length_singleton] at hreading ⊢
    omega
  | call asks =>
    obtain ⟨-, hinp, hconn, vs, hout, -⟩ := AskFrame.ask asks
    rw [hinp, hconn]
    refine ⟨?_, h.segmented, h.reading⟩
    rw [hout]
    exact AmqpConnection.onData_foldl (fun s => s.active = d.conn.isSome) (fun _ hs => hs) vs
      h.active
  | wrote inner moves whole =>
    exact ⟨(AmqpConnection.step_frame inner moves).2.2.trans h.active, h.segmented, h.reading⟩
  | @got r inp order fs mid n inner moves frames asks =>
    obtain ⟨-, hinp, hconn, vs, hout, -⟩ := AskFrame.askFrames asks
    have hactive : mid.out.active = d.conn.isSome := by
      rw [hout]
      exact AmqpConnection.onData_foldl (fun s => s.active = d.conn.isSome) (fun _ hs => hs) vs
        h.active
    refine ⟨hactive.trans hconn.symm, ?_, ?_⟩
    · show mid.inp.Segmented lib.parser
      rw [hinp]
      exact h.segmented.step moves
    · show mid.inp.tokens = mid.conn.isSome.toNat
      rw [hinp, hconn]
      exact (AmqpReader.step_frame inner moves).1.trans h.reading

/-- **The strand never gets stuck.** -/
theorem runStrand_isSome (h : Sides lib d) (hq : Queued d) (hne : d.order ≠ []) (weak : Bool) :
    (d.step lib (.runStrand weak)).isSome := by
  have hwrite := hq.write
  have hread := hq.read
  show (d.runStrand lib weak).isSome
  unfold runStrand
  split
  · rename_i hnil
    exact absurd hnil hne
  · rename_i rest horder
    rw [horder, List.count_cons_self] at hwrite
    cases hs : d.out.strand with
    | nil => simp [hs] at hwrite
    | cons task tasks => simp [AmqpConnection.step, h.token.alive, hs]
  · rename_i rest horder
    rw [horder, List.count_cons_self] at hread
    have hstrand : d.inp.strand ≠ [] := by
      rintro hnil
      rw [hnil] at hread
      cases hread
    have hconn : d.conn.isSome := by
      have hpos := List.length_pos_iff.mpr hstrand
      have hreading := h.reading
      rw [AmqpReader.tokens] at hreading
      by_contra hno
      rw [Bool.not_eq_true] at hno
      rw [hno, Bool.toNat_false] at hreading
      omega
    obtain ⟨inp, hinp⟩ := AmqpReader.runStrand_ends lib.parser d.inp hstrand
    rw [hinp, Option.bind_some, Option.isSome_map]
    exact askFrames_isSome (d := { d with inp, order := rest }) hconn

/-! ## Every run -/

/-- **The connection is what its library says**, driven by the program's calls and by the
frames of the incoming stream; both sides have one operation at a time, and the strand goes on. -/
structure Faithful (lib : AmqpLibrary χ σ) (d : AmqpDuplex χ σ) : Prop where
  given : d.out.given = (Says.data (d.said lib)).flatten
  errors : d.amqpErrors = Says.errors (d.said lib)
  connected : d.amqpConnected = Says.connected (d.said lib)
  ordered : d.inp.delivered.flatten = d.inp.handled ++ d.inp.inFlight
  framed : CutIntoFrames lib.parser d.inp.handled (Asked.frames d.asked) d.inp.incoming
  oneWrite : d.out.writes.length ≤ 1
  oneRead : d.conn.isSome →
    d.inp.reads + d.inp.strand.length + d.inp.connectionErrors.length = 1
  goesOn : d.order ≠ [] → ∀ weak, (d.step lib (.runStrand weak)).isSome

/-- **The invariant.** -/
structure Sound (lib : AmqpLibrary χ σ) (d : AmqpDuplex χ σ) : Prop where
  driven : Driven lib [] d
  sides : Sides lib d
  queued : Queued d

theorem Sound.initial (cd : ConnectionDetails) : Sound lib { details := cd } :=
  ⟨.initial cd, ⟨.init, rfl, .init _, rfl⟩, rfl, rfl⟩

theorem Sound.step (h : Sound lib d) (hstep : d.step lib e = some d') : Sound lib d' :=
  ⟨h.driven.step hstep, h.sides.step hstep, h.queued.step hstep⟩

theorem Sound.faithful (h : Sound lib d) : Faithful lib d := by
  have hframes : d.inp.consumed = Asked.frames d.asked := by
    rw [h.driven.frames, List.append_nil]
  constructor
  · exact h.driven.given
  · exact h.driven.errors
  · exact h.driven.connected
  · exact h.sides.segmented.ordered
  · exact hframes ▸ h.sides.segmented.framed
  · exact h.sides.token.writes_length
  · intro hconn
    have hreading := h.sides.reading
    rw [hconn] at hreading
    exact hreading
  · exact runStrand_isSome h.sides h.queued

theorem sound_of_run {ok : AmqpDuplex χ σ → DuplexEvent χ → Prop} {cd : ConnectionDetails}
    (run : Run (step lib) ok { details := cd } d) : Sound lib d :=
  run.invariant (.initial cd) fun h _ hstep => h.step hstep

/-- **Every run refines a conversation** with the library. -/
theorem faithful_of_run {cd : ConnectionDetails}
    (run : Run (step lib) anyEvent { details := cd } d) : Faithful lib d :=
  (sound_of_run run).faithful

/-- **On the wire**: as long as each write is accepted as a whole, none follows one that failed
and no exchange fails spuriously where a write should start, the bytes that the socket accepted
are a prefix of what the library said, and all of it when nothing is left to do. -/
theorem conversation_of_run {cd : ConnectionDetails}
    (run : Run (step lib) WritesWhole { details := cd } d) :
    d.out.accepted <+: (Says.data (d.said lib)).flatten ∧
      (d.conn.isSome → d.out.connectionErrors = [] → d.order = [] → d.out.writes = [] →
        d.out.accepted = (Says.data (d.said lib)).flatten) := by
  obtain ⟨hdriven, hsides, hqueued⟩ := sound_of_run run
  have hkept : d.out.Kept := by
    refine run.invariant (P := fun d => d.out.Kept) .init ?_
    intro d d' e hkept hwhole hstep
    refine step_out hkept hstep ?_ ?_ ?_
    · exact fun v hs => ⟨hs.token.onData v, hs.accounted.onData v, hs.drained⟩
    · rintro hello weak rfl
      obtain ⟨haccounted, hdrained⟩ := hkept.setup hello hwhole
      exact ⟨hkept.token.setup hello weak, haccounted, hdrained⟩
    · exact fun _ whole moves => hkept.step (whole hwhole) moves
  have hloss := AmqpConnection.LossFree.of_accounted hkept.token hkept.accounted hkept.drained
  rw [← hdriven.given]
  refine ⟨hloss.ordered, fun hconn herrors horder hwrites => ?_⟩
  have hstrand : d.out.strand = [] := by
    have hwrite := hqueued.write
    rw [horder] at hwrite
    exact List.length_eq_zero_iff.mp hwrite.symm
  exact hloss.drained (hsides.active.trans hconn) herrors hstrand hwrites

/-- A connection keeps its details. -/
theorem details_step (hstep : d.step lib e = some d') : d'.details = d.details := by
  cases step_does hstep with
  | setup is new => rfl
  | call asks => exact (AskFrame.ask asks).details
  | wrote inner moves whole => rfl
  | got inner moves frames asks => exact (AskFrame.askFrames asks).details

/-- A connection stays up. -/
theorem conn_step (hstep : d.step lib e = some d') (hconn : d.conn.isSome) : d'.conn.isSome := by
  cases step_does hstep with
  | setup is new => rfl
  | call asks =>
    rw [(AskFrame.ask asks).conn]
    exact hconn
  | wrote inner moves whole => exact hconn
  | got inner moves frames asks =>
    exact (AskFrame.askFrames asks).conn.trans hconn

/-- Where the program calls nothing, the library was asked the frames. -/
theorem asked_eq_frames : ∀ {asked : List (Asked χ)}, (∀ c, .call c ∉ asked) →
    asked = (Asked.frames asked).map .frame
  | [], _ => rfl
  | .call c :: _, h => absurd List.mem_cons_self (h c)
  | .frame f :: as, h => by
    have ih := asked_eq_frames fun c hc => h c (List.mem_cons_of_mem _ hc)
    exact congrArg (Asked.frame f :: ·) ih

/-- **The output is a function of the input**: two connections that are set up and have handled
the same bytes, with nothing sent by the program, have been given the same output, whatever the
reads, the writes and the order of events were. -/
theorem given_eq_of_runs {cd : ConnectionDetails}
    (run : Run (step lib) anyEvent { details := cd } d)
    (run' : Run (step lib) anyEvent { details := cd } d')
    (quiet : ∀ c, .call c ∉ d.asked) (quiet' : ∀ c, .call c ∉ d'.asked)
    (up : d.conn.isSome) (up' : d'.conn.isSome) (same : d.inp.handled = d'.inp.handled) :
    d.out.given = d'.out.given := by
  obtain ⟨hdriven, hsides, -⟩ := sound_of_run run
  obtain ⟨hdriven', hsides', -⟩ := sound_of_run run'
  have hdetails : d.details = d'.details :=
    (run.invariant (P := fun d => d.details = cd) rfl
      fun h _ hstep => (details_step hstep).trans h).trans
    (run'.invariant (P := fun d => d.details = cd) rfl
      fun h _ hstep => (details_step hstep).trans h).symm
  have hframes : Asked.frames d.asked = Asked.frames d'.asked := by
    have hcut := hsides.segmented.framed
    have hcut' := hsides'.segmented.framed
    rw [hdriven.frames, List.append_nil, same] at hcut
    rw [hdriven'.frames, List.append_nil] at hcut'
    exact (hcut.unique hcut').1
  have hasked : d.asked = d'.asked := by
    rw [asked_eq_frames quiet, asked_eq_frames quiet', hframes]
  rw [hdriven.given, hdriven'.given, said, said, if_pos up, if_pos up', hdetails, hasked]

/-! A library that greets, and answers each frame with the frame. -/

def echo : AmqpLibrary Bytes Nat where
  parser := protocolFrames
  create user _ _ := (0, [.onData user])
  ask
    | 0, .frame f => (1, [.onConnected, .onData f])
    | n, .frame f => (n + 1, [.onData f])
    | n, .call c => (n, [.onData c])

def heartbeat : Bytes := [8, 0, 0, 0, 0, 0, 0, 206]

/-- The greeting is written while a heartbeat arrives in two parts, the program sends something
between them, and all of it goes out. -/
def exchange : List (DuplexEvent Bytes) :=
  [.setup false, .runStrand false, .runStrand false, .delivers (heartbeat.take 3), .runStrand false,
    .socketAccepts 0 5, .runStrand false, .writeCompleted 0, .runStrand false, .call (ascii "go"),
    .runStrand false, .delivers (heartbeat.drop 3), .runStrand false, .runStrand false,
    .runStrand false, .runStrand false, .runStrand false, .socketAccepts 0 2, .writeCompleted 0,
    .runStrand false, .runStrand false, .socketAccepts 0 8, .writeCompleted 0, .runStrand false]

instance (d : AmqpDuplex χ σ) (e : DuplexEvent χ) : Decidable (d.WritesWhole e) :=
  match e with
  | .setup weak => inferInstanceAs (Decidable (d.out.WritesWhole (.setup [] weak)))
  | .runStrand weak =>
    inferInstanceAs (Decidable (d.order.head? = some .write → d.out.WritesWhole (.runStrand weak)))
  | .socketAccepts i n => inferInstanceAs (Decidable (d.out.WritesWhole (.socketAccepts i n)))
  | .call _ | .socketFails _ _ | .writeCompleted _ | .delivers _ | .fails _ =>
    inferInstanceAs (Decidable True)

theorem faithful_exchange : ∃ d, exec (step echo) { details := {} } exchange = some d ∧
    Asked.frames d.asked = [heartbeat] ∧ d.inp.reads = 1 ∧ Faithful echo d := by
  have hvals : (exec (step echo) { details := {} } exchange).map
      (fun d => (Asked.frames d.asked, d.inp.reads)) = some ([heartbeat], 1) := by decide
  obtain ⟨d, hexec, hvals⟩ := Option.map_eq_some_iff.mp hvals
  obtain ⟨hframes, hreads⟩ := Prod.mk.inj hvals
  exact ⟨d, hexec, hframes, hreads, faithful_of_run (.of_exec (fun _ _ => trivial) _ hexec)⟩

theorem conversation_exchange :
    ∃ d, exec (guarded (step echo) WritesWhole) { details := {} } exchange = some d ∧
      d.out.accepted = ascii "guestgo" ++ heartbeat ∧
      d.out.accepted <+: (Says.data (d.said echo)).flatten := by
  have hvals : (exec (guarded (step echo) WritesWhole) { details := {} } exchange).map
      (fun d => d.out.accepted) = some (ascii "guestgo" ++ heartbeat) := by decide
  obtain ⟨d, hexec, hvals⟩ := Option.map_eq_some_iff.mp hvals
  exact ⟨d, hexec, hvals, (conversation_of_run (.of_guarded _ hexec)).1⟩

/-- A heartbeat in a single read, then in two with the greeting written in between. -/
def inOneRead : List (DuplexEvent Bytes) :=
  [.setup false, .runStrand false, .runStrand false, .delivers heartbeat, .runStrand false,
    .runStrand false, .runStrand false]

def inTwoReads : List (DuplexEvent Bytes) :=
  [.setup false, .runStrand false, .runStrand false, .delivers (heartbeat.take 3), .runStrand false,
    .socketAccepts 0 2, .runStrand false, .writeCompleted 0, .runStrand false, .runStrand false,
    .delivers (heartbeat.drop 3), .runStrand false, .runStrand false]

theorem given_eq_heartbeat :
    ∃ d d', exec (step echo) { details := {} } inOneRead = some d ∧
      exec (step echo) { details := {} } inTwoReads = some d' ∧
      d.out.accepted ≠ d'.out.accepted ∧ d.out.given = d'.out.given := by
  let seen (d : AmqpDuplex Bytes Nat) :=
    (d.inp.handled, d.conn.isSome, Asked.frames d.asked, d.asked.length, d.out.accepted)
  have hone : (exec (step echo) { details := {} } inOneRead).map seen =
      some (heartbeat, true, [heartbeat], 1, []) := by decide
  have htwo : (exec (step echo) { details := {} } inTwoReads).map seen =
      some (heartbeat, true, [heartbeat], 1, ascii "gu") := by decide
  obtain ⟨d, hexec, hd⟩ := Option.map_eq_some_iff.mp hone
  obtain ⟨d', hexec', hd'⟩ := Option.map_eq_some_iff.mp htwo
  simp only [seen, Prod.mk.injEq] at hd hd'
  obtain ⟨hhandled, hup, hframes, hlen, haccepted⟩ := hd
  obtain ⟨hhandled', hup', hframes', hlen', haccepted'⟩ := hd'
  -- as many questions as frames
  have quiet : ∀ asked : List (Asked Bytes), Asked.frames asked = [heartbeat] →
      asked.length = 1 → ∀ c, .call c ∉ asked := by
    rintro asked hasked hone c hc
    obtain ⟨a, rfl⟩ := List.length_eq_one_iff.mp hone
    rw [← List.mem_singleton.mp hc] at hasked
    cases hasked
  refine ⟨d, d', hexec, hexec', by rw [haccepted, haccepted']; decide, ?_⟩
  exact given_eq_of_runs (.of_exec (fun _ _ => trivial) _ hexec)
    (.of_exec (fun _ _ => trivial) _ hexec') (quiet _ hframes hlen) (quiet _ hframes' hlen')
    hup hup' (hhandled.trans hhandled'.symm)

end AmqpDuplex

end AsioProtocols
