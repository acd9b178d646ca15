import AsioProtocols.Base.Bytes
import AsioProtocols.Base.Machine

/-!
# The input side of `amqp::connection`

What the socket delivers joins `incoming_`; a loop hands it to the `parse` of
the AMQP library, which takes a frame at a time; and what it has taken is
erased. The library is a parameter, `FrameParser`: a function of the bytes that
consumes the first frame, or nothing if that is not complete.

- `ParseLoop.run` is the loop of `read_handler`, with its three counters.
  `ParseLoop.run_framed`: it ends, and cuts its input into frames and a rest
  that does not begin with one. There is one way to do that
  (`CutIntoFrames.unique`).
- `AmqpReader` is the read side with the strand's queue, and a step is one
  handler of the event loop or one answer of the socket. **`segmented_of_run`**:
  however the reads cut the stream, the frames are those of the whole stream
  parsed at once, and `incoming_` is what is left of it.
-/

namespace AsioProtocols

/-- The `parse` of the library, and the byte strings that are one frame. -/
structure FrameParser where
  parse : Bytes → Nat
  Frame : Bytes → Prop
  frame_ne_nil : ∀ f, Frame f → f ≠ []
  /-- A frame in front is consumed, whatever is behind it. -/
  parse_frame : ∀ f rest, Frame f → parse (f ++ rest) = f.length
  /-- What is consumed is a frame. -/
  frame_of_parse : ∀ s, parse s ≠ 0 → parse s ≤ s.length ∧ Frame (s.take (parse s))

variable {parser : FrameParser}

/-! ## Frames of a stream -/

/-- `stream` is `frames`, one behind the other, and a `rest` that no frame begins. -/
structure CutIntoFrames (parser : FrameParser) (stream : Bytes) (frames : List Bytes)
    (rest : Bytes) : Prop where
  cut : stream = frames.flatten ++ rest
  frame : ∀ f ∈ frames, parser.Frame f
  incomplete : ∀ f, parser.Frame f → ¬ f <+: rest

namespace CutIntoFrames

variable {stream more rest rest' : Bytes} {frames frames' : List Bytes}

theorem nil (parser : FrameParser) : CutIntoFrames parser [] [] [] where
  cut := rfl
  frame := by simp
  incomplete := by
    intro f hf hprefix
    exact parser.frame_ne_nil f hf (List.prefix_nil.mp hprefix)

/-- More input goes on where the rest begins. -/
theorem append (h : CutIntoFrames parser stream frames rest)
    (h' : CutIntoFrames parser (rest ++ more) frames' rest') :
    CutIntoFrames parser (stream ++ more) (frames ++ frames') rest' where
  cut := by
    rw [h.cut, List.append_assoc, h'.cut, List.flatten_append, List.append_assoc]
  frame := by
    intro f hf
    rcases List.mem_append.mp hf with hf | hf
    · exact h.frame f hf
    · exact h'.frame f hf
  incomplete := h'.incomplete

/-- Two frames in front of one stream are the same. -/
theorem frame_eq {f g : Bytes} (hf : parser.Frame f) (hg : parser.Frame g)
    (h : f ++ more = g ++ rest) : f = g ∧ more = rest := by
  have hlen : f.length = g.length := by
    rw [← parser.parse_frame f more hf, h, parser.parse_frame g rest hg]
  exact List.append_inj h hlen

/-- **A stream has one sequence of frames.** -/
theorem unique (h : CutIntoFrames parser stream frames rest)
    (h' : CutIntoFrames parser stream frames' rest') : frames = frames' ∧ rest = rest' := by
  induction frames generalizing stream frames' with
  | nil =>
    cases frames' with
    | nil => exact ⟨rfl, by simpa using h.cut.symm.trans h'.cut⟩
    | cons g frames' =>
      -- the frame would begin what is left of the stream
      have heq : rest = g ++ (frames'.flatten ++ rest') := by
        simpa using h.cut.symm.trans h'.cut
      exact absurd ⟨_, heq.symm⟩ (h.incomplete g (h'.frame g List.mem_cons_self))
  | cons f frames ih =>
    cases frames' with
    | nil =>
      have heq : rest' = f ++ (frames.flatten ++ rest) := by
        simpa using h'.cut.symm.trans h.cut
      exact absurd ⟨_, heq.symm⟩ (h'.incomplete f (h.frame f List.mem_cons_self))
    | cons g frames' =>
      have heq : f ++ (frames.flatten ++ rest) = g ++ (frames'.flatten ++ rest') := by
        simpa using h.cut.symm.trans h'.cut
      obtain ⟨rfl, htail⟩ := frame_eq (h.frame f List.mem_cons_self)
        (h'.frame g List.mem_cons_self) heq
      have hrest : CutIntoFrames parser (frames.flatten ++ rest) frames rest :=
        ⟨rfl, fun x hx => h.frame x (List.mem_cons_of_mem f hx), h.incomplete⟩
      have hrest' : CutIntoFrames parser (frames.flatten ++ rest) frames' rest' :=
        ⟨htail, fun x hx => h'.frame x (List.mem_cons_of_mem f hx), h'.incomplete⟩
      obtain ⟨rfl, rfl⟩ := ih hrest hrest'
      exact ⟨rfl, rfl⟩

end CutIntoFrames

/-! ## The loop -/

/-- The variables of the loop, `ptr` as an index into `incoming_`, and what the
parser has consumed. -/
structure ParseLoop where
  ptr : Nat
  available : Nat
  processed : Nat
  consumed : List Bytes
  deriving DecidableEq

namespace ParseLoop

def start (incoming : Bytes) : ParseLoop := ⟨0, incoming.length, 0, []⟩

/-- One turn; `none` where the loop ends. -/
def turn (parser : FrameParser) (incoming : Bytes) (l : ParseLoop) : Option ParseLoop :=
  if l.available > 0 then
    let input := (incoming.drop l.ptr).take l.available
    let parsed := parser.parse input
    if parsed = 0 then none
    else
      some { ptr := l.ptr + parsed
             available := l.available - parsed
             processed := l.processed + parsed
             consumed := l.consumed ++ [input.take parsed] }
  else none

/-- The loop from `l` on, in at most `fuel` turns. -/
def run (parser : FrameParser) (incoming : Bytes) : Nat → ParseLoop → Option ParseLoop
  | 0, _ => none
  | fuel + 1, l =>
    match turn parser incoming l with
    | none => some l
    | some l => run parser incoming fuel l

/-- The counters agree, and what has been processed was frames. -/
structure Sound (parser : FrameParser) (incoming : Bytes) (l : ParseLoop) : Prop where
  ptr : l.ptr = l.processed
  available : l.available + l.processed = incoming.length
  consumed : l.consumed.flatten = incoming.take l.processed
  frame : ∀ f ∈ l.consumed, parser.Frame f

variable {incoming : Bytes} {l l' : ParseLoop}

theorem sound_start (incoming : Bytes) : Sound parser incoming (start incoming) where
  ptr := rfl
  available := rfl
  consumed := rfl
  frame := by simp [start]

/-- What the parser is shown is all that is left. -/
theorem Sound.input (h : Sound parser incoming l) :
    (incoming.drop l.ptr).take l.available = incoming.drop l.processed := by
  have := h.available
  rw [h.ptr]
  exact List.take_of_length_le (by rw [List.length_drop]; omega)

/-- A turn takes a frame off the front of what is left. -/
theorem Sound.turn (h : Sound parser incoming l) (hturn : turn parser incoming l = some l') :
    Sound parser incoming l' ∧ l'.available < l.available := by
  unfold ParseLoop.turn at hturn
  rw [h.input] at hturn
  dsimp only at hturn
  split at hturn
  case isFalse => cases hturn
  split at hturn
  case isTrue => cases hturn
  rename_i hpos hparsed
  cases hturn
  obtain ⟨hle, hframe⟩ := parser.frame_of_parse _ hparsed
  have havailable := h.available
  rw [List.length_drop] at hle
  refine ⟨⟨?_, ?_, ?_, ?_⟩, ?_⟩
  · exact congrArg (· + _) h.ptr
  · dsimp only
    omega
  · dsimp only
    rw [List.flatten_append, h.consumed, List.take_add]
    simp
  · intro f hf
    rcases List.mem_append.mp hf with hf | hf
    · exact h.frame f hf
    · rw [List.mem_singleton.mp hf]
      exact hframe
  · dsimp only
    omega

/-- Where the loop ends, no frame begins what is left. -/
theorem Sound.framed (h : Sound parser incoming l)
    (hturn : ParseLoop.turn parser incoming l = none) :
    CutIntoFrames parser incoming l.consumed (incoming.drop l.processed) where
  cut := by rw [h.consumed, List.take_append_drop]
  frame := h.frame
  incomplete := by
    rintro f hf ⟨rest, hrest⟩
    have hpos := List.length_pos_iff.mpr (parser.frame_ne_nil f hf)
    have hlen := congrArg List.length hrest
    have havailable := h.available
    rw [List.length_append, List.length_drop] at hlen
    unfold ParseLoop.turn at hturn
    rw [if_pos (by omega), h.input, ← hrest] at hturn
    dsimp only at hturn
    rw [parser.parse_frame f rest hf, if_neg (by omega)] at hturn
    cases hturn

/-- **The loop ends** for every input, with its frames and the rest. -/
theorem run_framed (h : Sound parser incoming l) :
    ∀ {fuel : Nat}, l.available < fuel → ∃ l', run parser incoming fuel l = some l' ∧
      CutIntoFrames parser incoming l'.consumed (incoming.drop l'.processed) := by
  intro fuel hfuel
  induction fuel generalizing l with
  | zero => exact absurd hfuel (Nat.not_lt_zero _)
  | succ fuel ih =>
    rw [run]
    cases hturn : turn parser incoming l with
    | none => exact ⟨l, rfl, h.framed hturn⟩
    | some l' =>
      obtain ⟨hsound, hless⟩ := h.turn hturn
      exact ih hsound (by omega)

end ParseLoop

/-- What the loop takes off some input. -/
def parseAll (parser : FrameParser) (incoming : Bytes) : Option ParseLoop :=
  ParseLoop.run parser incoming (incoming.length + 1) (.start incoming)

theorem parseAll_framed (parser : FrameParser) (incoming : Bytes) :
    ∃ l, parseAll parser incoming = some l ∧
      CutIntoFrames parser incoming l.consumed (incoming.drop l.processed) :=
  ParseLoop.run_framed (ParseLoop.sound_start incoming) (Nat.lt_succ_self _)

/-! ## The read side -/

/-- A function posted to the strand: the one that starts a read, and the one a
completed read posts. -/
inductive ReadTask
  | readSome
  | received (result : Except Bytes Bytes)

/-- The bytes a task is about to put into `incoming_`. -/
def ReadTask.bytes : ReadTask → Bytes
  | readSome => []
  | received (.error _) => []
  | received (.ok storage) => storage

/-- The read side of a connection: `incoming_`, the strand's queue, the number
of outstanding reads, and the texts `connection_error` was signalled with. The
last three fields are history: what the parser has consumed, the bytes of the
reads handled, and what the reads have delivered. -/
structure AmqpReader where
  incoming : Bytes
  strand : List ReadTask
  reads : Nat
  connectionErrors : List Bytes
  consumed : List Bytes
  handled : Bytes
  delivered : List Bytes

/-- What can happen next: `setup`, the strand's first task, and the end of a
read with bytes or with an error. -/
inductive ReadEvent
  | setup
  | runStrand
  | delivers (storage : Bytes)
  | fails (message : Bytes)

namespace AmqpReader

def init : AmqpReader where
  incoming := []
  strand := []
  reads := 0
  connectionErrors := []
  consumed := []
  handled := []
  delivered := []

def readHandler (s : AmqpReader) : AmqpReader := { s with strand := s.strand ++ [.readSome] }

/-- The function a completed read posts. -/
def onReceived (parser : FrameParser) (s : AmqpReader) :
    Except Bytes Bytes → Option AmqpReader
  | .error message => some { s with connectionErrors := s.connectionErrors ++ [message] }
  | .ok storage =>
    let incoming := s.incoming ++ storage
    (parseAll parser incoming).map fun l =>
      { s with
        incoming := incoming.drop l.processed
        consumed := s.consumed ++ l.consumed
        handled := s.handled ++ storage }.readHandler

/-- A read delivers at least one byte, and no more than it has storage for. -/
def step (parser : FrameParser) (s : AmqpReader) : ReadEvent → Option AmqpReader
  | .setup => some s.readHandler
  | .runStrand =>
    match s.strand with
    | [] => none
    | .readSome :: rest => some { s with strand := rest, reads := s.reads + 1 }
    | .received result :: rest => { s with strand := rest }.onReceived parser result
  | .delivers storage =>
    if 0 < s.reads ∧ 0 < storage.length ∧ storage.length ≤ 4096 then
      some { s with
        reads := s.reads - 1
        strand := s.strand ++ [.received (.ok storage)]
        delivered := s.delivered ++ [storage] }
    else none
  | .fails message =>
    if 0 < s.reads then
      some { s with
        reads := s.reads - 1
        strand := s.strand ++ [.received (.error message)] }
    else none

/-- The bytes of the reads that have completed and are not handled yet. -/
def inFlight (s : AmqpReader) : Bytes := s.strand.flatMap ReadTask.bytes

/-- What has been handled is framed, and the rest of what was delivered is on
its way. -/
structure Segmented (parser : FrameParser) (s : AmqpReader) : Prop where
  ordered : s.delivered.flatten = s.handled ++ s.inFlight
  framed : CutIntoFrames parser s.handled s.consumed s.incoming

variable {s s' : AmqpReader}

theorem Segmented.init (parser : FrameParser) : Segmented parser init :=
  ⟨rfl, .nil parser⟩

theorem inFlight_readHandler (s : AmqpReader) : s.readHandler.inFlight = s.inFlight := by
  simp [inFlight, readHandler, ReadTask.bytes]

theorem Segmented.readHandler (h : Segmented parser s) : Segmented parser s.readHandler where
  ordered := by
    rw [inFlight_readHandler]
    exact h.ordered
  framed := h.framed

theorem Segmented.step {e : ReadEvent} (h : Segmented parser s)
    (hstep : step parser s e = some s') : Segmented parser s' := by
  cases e with
  | setup =>
    cases hstep
    exact h.readHandler
  | runStrand =>
    have hordered := h.ordered
    rw [inFlight] at hordered
    rw [AmqpReader.step] at hstep
    rcases hstrand : s.strand with _ | ⟨⟨⟩ | ⟨message | storage⟩, rest⟩
    · simp only [hstrand] at hstep
      cases hstep
    · simp only [hstrand] at hstep
      cases hstep
      exact ⟨by simpa [inFlight, hstrand, ReadTask.bytes] using hordered, h.framed⟩
    · simp only [hstrand, onReceived] at hstep
      cases hstep
      exact ⟨by simpa [inFlight, hstrand, ReadTask.bytes] using hordered, h.framed⟩
    · -- the loop goes on where the rest of the frames before begins
      simp only [hstrand, onReceived] at hstep
      obtain ⟨l, hl, rfl⟩ := Option.map_eq_some_iff.mp hstep
      obtain ⟨l', hl', hframed⟩ := parseAll_framed parser (s.incoming ++ storage)
      obtain rfl : l = l' := Option.some.inj (hl.symm.trans hl')
      refine Segmented.readHandler ⟨?_, h.framed.append hframed⟩
      simpa [inFlight, hstrand, ReadTask.bytes] using hordered
  | delivers storage =>
    obtain ⟨_, hs⟩ := Option.ite_none_right_eq_some.mp hstep
    cases hs
    have hordered := h.ordered
    refine ⟨?_, h.framed⟩
    simp only [inFlight, List.flatMap_append, List.flatten_append] at hordered ⊢
    rw [hordered, List.append_assoc]
    simp [ReadTask.bytes]
  | fails message =>
    obtain ⟨_, hs⟩ := Option.ite_none_right_eq_some.mp hstep
    cases hs
    have hordered := h.ordered
    refine ⟨?_, h.framed⟩
    simp only [inFlight, List.flatMap_append] at hordered ⊢
    rw [hordered]
    simp [ReadTask.bytes]

/-- A task of the strand can always run to its end. -/
theorem runStrand_ends (parser : FrameParser) (s : AmqpReader) (h : s.strand ≠ []) :
    ∃ s', step parser s .runStrand = some s' := by
  rw [step]
  rcases hstrand : s.strand with _ | ⟨⟨⟩ | ⟨message | storage⟩, rest⟩
  · exact absurd hstrand h
  · exact ⟨_, rfl⟩
  · exact ⟨_, rfl⟩
  · obtain ⟨l, hl, _⟩ := parseAll_framed parser (s.incoming ++ storage)
    exact ⟨_, by simp only [onReceived, hl]; rfl⟩

/-- The frames do not depend on the cuts: of the bytes handled, each is in one of
the frames or still in `incoming_`, where no frame begins, and there is one way only
to cut a stream like that. They are the frames the loop takes off all of these bytes at
once, and the loop ends. -/
structure AsAtOnce (parser : FrameParser) (s : AmqpReader) : Prop where
  ordered : s.delivered.flatten = s.handled ++ s.inFlight
  framed : CutIntoFrames parser s.handled s.consumed s.incoming
  unique : ∀ frames rest, CutIntoFrames parser s.handled frames rest →
    frames = s.consumed ∧ rest = s.incoming
  atOnce : ∃ l, parseAll parser s.handled = some l ∧ l.consumed = s.consumed ∧
    s.handled.drop l.processed = s.incoming
  ends : ∀ incoming, ∃ l, parseAll parser incoming = some l
  goesOn : s.strand ≠ [] → ∃ s', step parser s .runStrand = some s'

theorem Segmented.asAtOnce (h : Segmented parser s) : AsAtOnce parser s where
  ordered := h.ordered
  framed := h.framed
  unique _ _ hcut := hcut.unique h.framed
  atOnce := by
    obtain ⟨l, hl, hframed⟩ := parseAll_framed parser s.handled
    obtain ⟨hconsumed, hrest⟩ := hframed.unique h.framed
    exact ⟨l, hl, hconsumed, hrest⟩
  ends := by
    intro incoming
    obtain ⟨l, hl, _⟩ := parseAll_framed parser incoming
    exact ⟨l, hl⟩
  goesOn := runStrand_ends parser s

/-- **Segmentation does not matter**, in any run of the read side. -/
theorem segmented_of_run (run : Run (step parser) anyEvent init s) : AsAtOnce parser s :=
  (run.invariant (Segmented.init parser) fun h _ hstep => h.step hstep).asAtOnce

end AmqpReader

/-! ## Frames of the protocol -/

/-- The size of the payload, from the four bytes behind the type and the channel. -/
def payloadSize (a b c d : Byte) : Nat :=
  ((a.toNat * 256 + b.toNat) * 256 + c.toNat) * 256 + d.toNat

/-- A frame of the protocol: type, channel, size, the payload, and one more byte. -/
def parseFrame : Bytes → Nat
  | _ :: _ :: _ :: a :: b :: c :: d :: rest =>
    if payloadSize a b c d + 1 ≤ rest.length then payloadSize a b c d + 8 else 0
  | _ => 0

/-- What is consumed is there, and alone it is consumed as a whole. -/
theorem parseFrame_take {s : Bytes} (h : parseFrame s ≠ 0) :
    parseFrame s ≤ s.length ∧ parseFrame (s.take (parseFrame s)) = parseFrame s := by
  unfold parseFrame at h
  split at h
  case h_2 => exact absurd rfl h
  rename_i t c₁ c₂ a b c d rest
  have hle : payloadSize a b c d + 1 ≤ rest.length := by
    by_contra hgt
    exact h (if_neg hgt)
  have heq : parseFrame (t :: c₁ :: c₂ :: a :: b :: c :: d :: rest) = payloadSize a b c d + 8 :=
    if_pos hle
  rw [heq]
  refine ⟨by simp only [List.length_cons]; omega, ?_⟩
  show parseFrame (t :: c₁ :: c₂ :: a :: b :: c :: d :: rest.take (payloadSize a b c d + 1)) = _
  exact if_pos (by rw [List.length_take]; omega)

theorem parseFrame_append {s : Bytes} (rest : Bytes) (h : parseFrame s ≠ 0) :
    parseFrame (s ++ rest) = parseFrame s := by
  unfold parseFrame at h
  split at h
  case h_2 => exact absurd rfl h
  rename_i t c₁ c₂ a b c d payload
  have hle : payloadSize a b c d + 1 ≤ payload.length := by
    by_contra hgt
    exact h (if_neg hgt)
  have heq : parseFrame (t :: c₁ :: c₂ :: a :: b :: c :: d :: payload) = payloadSize a b c d + 8 :=
    if_pos hle
  rw [heq]
  show parseFrame (t :: c₁ :: c₂ :: a :: b :: c :: d :: (payload ++ rest)) = _
  exact if_pos (by rw [List.length_append]; omega)

/-- The parser of the protocol's frames. -/
def protocolFrames : FrameParser where
  parse := parseFrame
  Frame f := f ≠ [] ∧ parseFrame f = f.length
  frame_ne_nil := fun _ hf => hf.1
  parse_frame := by
    rintro f rest ⟨hne, hall⟩
    have hpos := List.length_pos_iff.mpr hne
    rw [parseFrame_append rest (by omega), hall]
  frame_of_parse := by
    intro s hparsed
    obtain ⟨hle, htake⟩ := parseFrame_take hparsed
    refine ⟨hle, ?_, ?_⟩
    · intro hnil
      rw [hnil] at htake
      exact hparsed htake.symm
    · rw [htake, List.length_take]
      omega

namespace AmqpReader

/-- A heartbeat and the front of another one, cut in the middle of both. -/
theorem segmented_heartbeat : ∃ s : AmqpReader,
    (s.consumed = [[8, 0, 0, 0, 0, 0, 0, 206]] ∧ s.incoming = [8, 0, 0]) ∧
      AsAtOnce protocolFrames s := by
  obtain ⟨s, hexec, hs⟩ := Option.map_eq_some_iff.mp
    (show (exec (step protocolFrames) init
      [.setup, .runStrand, .delivers [8, 0, 0, 0, 0], .runStrand, .runStrand,
        .delivers [0, 0, 206, 8, 0, 0], .runStrand]).map (fun s => (s.consumed, s.incoming)) =
        some ([[8, 0, 0, 0, 0, 0, 0, 206]], [8, 0, 0]) by decide)
  simp only [Prod.mk.injEq] at hs
  exact ⟨s, hs, segmented_of_run (.of_exec (fun _ _ => trivial) _ hexec)⟩

end AmqpReader

end AsioProtocols
