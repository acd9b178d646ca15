import AsioProtocols.Http.Delimiter

/-!
# The reads of a body

In a body a connection waits for a read (`AtRead`): for a line, or for a number of
bytes. A socket read leaves that as it is (`AtRead.deliver`); the handler runs as soon
as what it waits for is there (`AtRead.handleLine`, `AtRead.handleData`), and finds the
connection between two reads (`BetweenReads`). The handlers of the chunks start the next
read from there.

Which reads follow each other, and what they make of the response, is said in the
modules behind this one.
-/

namespace AsioProtocols

open Function

/-- No read of `c` is outstanding, and the response has that status. -/
structure AtBody (c : ConnId) (r : RespId) (a : AttemptId) (status : Nat) (wire rest : Bytes)
    (w : World) : Prop extends AtRest c r a wire rest w where
  status : (w.responses r).statusCode = status

/-- Between two reads of a body that is read in mode `mode`. -/
structure BetweenReads (c : ConnId) (r : RespId) (a : AttemptId) (status : Nat) (mode : Transfer)
    (wire rest : Bytes) (w : World) : Prop extends AtBody c r a status wire rest w where
  mode : (w.conns c).transferMode = mode

/-- **The connection waits for a read** of a body, and `rest` is unread. -/
structure AtRead (c : ConnId) (r : RespId) (a : AttemptId) (status : Nat) (mode : Transfer)
    (point : Point) (wanted : Option Nat) (rest : Bytes) (f : Feed) : Prop where
  receiving : Receiving c r a f.world
  status : (f.world.responses r).statusCode = status
  mode : (f.world.conns c).transferMode = mode
  reads : (f.world.conns c).reads = [{
    point := point
    wanted := wanted
    result := ReadOp.completion { point := point, wanted := wanted } (f.world.conns c).input }]
  rest : f.unread c = rest

variable {c : ConnId} {r : RespId} {a : AttemptId} {status : Nat} {mode : Transfer}
  {wire rest behind : Bytes} {w : World} {v : Verdict}

/-! ## What a read does -/

namespace AtRead

variable {point : Point} {wanted : Option Nat} {line text : Bytes} {f f' : Feed}

theorem unsettled (h : AtRead c r a status mode point wanted rest f) : ¬ f.settled a :=
  not_not_intro h.receiving.pending

/-- A read with less behind it has less left to do. -/
theorem left_lt {mode' : Transfer} {point' : Point} {wanted' : Option Nat} {rest' : Bytes}
    (h : AtRead c r a status mode point wanted rest f)
    (h' : AtRead c r a status mode' point' wanted' rest' f')
    (hwire : f'.wire = f.wire) (hlt : rest'.length < rest.length) : f'.left c < f.left c := by
  rw [Feed.left, Feed.left, h.rest, h'.rest, hwire]
  omega

/-- A socket read moves bytes from the socket to the buffer. -/
theorem deliver {k : Nat} (h : AtRead c r a status mode point wanted rest f)
    (hstep : f.step c (.deliver k) = some f') :
    AtRead c r a status mode point wanted rest f' ∧ f'.left c < f.left c := by
  obtain ⟨-, hleft, input, wire, hunread, rfl⟩ := Feed.deliver_inv h.reads hstep
  refine ⟨⟨?_, h.status, ?_, ?_, ?_⟩, hleft⟩
  · exact h.receiving.of_same rfl (by simp [World.modConn]) (by simp [World.modConn]) rfl
  · simpa [World.modConn] using h.mode
  · simp [World.modConn, ReadOp.completion]
  · rw [← h.rest, ← hunread]
    simp [Feed.unread, World.modConn]

/-- What the callback finds, with `n` bytes taken off. -/
theorem taken (h : AtRead c r a status mode point wanted rest f) {n : Nat}
    (hdrop : (f.world.conns c).input.drop n ++ f.wire = behind) :
    BetweenReads c r a status mode f.wire behind (Reading.taken f.world c n) := by
  refine ⟨⟨AtRest.taken h.receiving h.reads hdrop, h.status⟩, ?_⟩
  simpa [Reading.taken, World.modConn] using h.mode

/-- The handler of a line read runs on the line. -/
theorem handleLine (h : AtRead c r a status mode point none rest f)
    (hrest : rest = line ++ crlf ++ behind) (hline : find crlf line = none)
    (hstep : f.step c (.handle v) = some f') :
    ∃ u, BetweenReads c r a status mode f.wire behind u ∧
      f' = ⟨u.onLine c point line v, f.wire⟩ := by
  obtain ⟨result, hresult, rfl⟩ := Feed.handle_inv h.reads hstep
  obtain ⟨pos, hfind, rfl⟩ := Option.map_eq_some_iff.mp hresult
  obtain ⟨htake, hdrop, -⟩ := line_of_find (h.rest.trans hrest) hline hfind
  refine ⟨_, h.taken hdrop, ?_⟩
  rw [World.finishRead_line rfl, htake]

/-- The handler of a counted read runs on the bytes. -/
theorem handleData (h : AtRead c r a status mode point (some text.length) rest f)
    (hrest : rest = text ++ behind) (hstep : f.step c (.handle v) = some f') :
    ∃ u, BetweenReads c r a status mode f.wire behind u ∧
      f' = ⟨u.onData c point text v, f.wire⟩ := by
  obtain ⟨result, hresult, rfl⟩ := Feed.handle_inv h.reads hstep
  obtain ⟨hlen, hok⟩ := Option.ite_none_right_eq_some.mp hresult
  obtain rfl := Option.some.inj hok
  obtain ⟨htake, hdrop⟩ := take_of_append (h.rest.trans hrest) hlen
  refine ⟨_, h.taken hdrop, ?_⟩
  rw [World.finishRead_data rfl, htake]

/-- The handler can run if its read has completed; else what it waits for is still in
the socket. -/
theorem possible (h : AtRead c r a status mode point wanted rest f)
    (hthere : ReadOp.completion { point := point, wanted := wanted } rest ≠ none) :
    ∃ move f', f.step c move = some f' := by
  cases hresult : ReadOp.completion { point := point, wanted := wanted }
    (f.world.conns c).input with
  | some result =>
    exact ⟨.handle .accept, Feed.can_handle h.receiving.running h.reads hresult⟩
  | none =>
    have hwire : f.wire ≠ [] := by
      intro hnil
      have hrest := h.rest
      rw [Feed.unread, hnil, List.append_nil] at hrest
      exact hthere (hrest ▸ hresult)
    obtain ⟨n, hn⟩ := Feed.can_deliver h.receiving.running h.receiving.isOpen h.reads hresult
      hresult hwire
    exact ⟨.deliver n, hn⟩

end AtRead

/-- A line that is there completes the read of a line. -/
theorem ReadOp.completion_line {point : Point} {line : Bytes} (hline : find crlf line = none)
    (behind : Bytes) : ReadOp.completion { point := point } (line ++ crlf ++ behind) ≠ none := by
  have hfound : find crlf (line ++ crlf ++ behind) = some line.length :=
    find_crlf_line behind hline
  simp only [ReadOp.completion, hfound]
  exact Option.some_ne_none _

/-- Bytes that are there complete a counted read. -/
theorem ReadOp.completion_data {point : Point} (text behind : Bytes) :
    ReadOp.completion { point := point, wanted := some text.length } (text ++ behind) ≠ none := by
  simp only [ReadOp.completion]
  rw [if_pos (List.prefix_append text behind).length_le]
  exact Option.some_ne_none _

/-! ## How a read starts -/

namespace AtBody

theorem extendTimer (h : AtBody c r a status wire rest w) :
    AtBody c r a status wire rest (w.extendTimer c) :=
  ⟨h.toAtRest.extendTimer, h.status⟩

/-- The response is finished. -/
theorem finished (h : AtBody c r a status wire rest w) (data : Bytes) :
    Feed.Delimited c a status rest ⟨w.extractNextBodyChunk c data v, wire⟩ := by
  rw [← h.status]
  exact h.toAtRest.extractNextBodyChunk data v

end AtBody

namespace BetweenReads

theorem extendTimer (h : BetweenReads c r a status mode wire rest w) :
    BetweenReads c r a status mode wire rest (w.extendTimer c) :=
  ⟨h.toAtBody.extendTimer, by simpa [World.extendTimer, World.modConn] using h.mode⟩

theorem store (h : BetweenReads c r a status mode wire rest w) (m : Message) :
    BetweenReads c r a status mode wire rest (w.store c r m) :=
  ⟨⟨h.toAtRest.store m, by simpa [World.store] using h.status⟩, h.mode⟩

/-- The size of a chunk is noted. -/
theorem expect (h : BetweenReads c r a status mode wire rest w) (n : Nat) :
    BetweenReads c r a status mode wire rest
      (w.modConn c fun k => { k with expectedBytes := n }) := by
  refine ⟨⟨h.toAtRest.parser (w.conns c).transferMode n, h.status⟩, ?_⟩
  simpa [World.modConn] using h.mode

/-- A line read starts. -/
theorem readDelimited (h : BetweenReads c r a status mode wire rest w) (point : Point) :
    AtRead c r a status mode point none rest ⟨w.readDelimited c point, wire⟩ := by
  refine ⟨?_, h.status, ?_, ?_, ?_⟩
  · exact h.receiving.of_same rfl (by simp [World.readDelimited, World.modConn])
      (by simp [World.readDelimited, World.modConn]) rfl
  · simpa [World.readDelimited, World.modConn] using h.mode
  · simp [World.readDelimited, World.modConn, h.reads, ReadOp.completion]
  · simpa [Feed.unread, World.readDelimited, World.modConn] using h.rest

/-- A counted read starts: it waits, or its callback runs at once. -/
theorem read {text : Bytes} (h : BetweenReads c r a status mode wire (text ++ behind) w)
    (point : Point) (code : World → Bytes → World) :
    AtRead c r a status mode point (some text.length) (text ++ behind)
      ⟨w.read c text.length point code, wire⟩ ∧ text ≠ [] ∨
    ∃ u, BetweenReads c r a status mode wire behind u ∧
      w.read c text.length point code = code u text := by
  rw [World.read]
  by_cases hshort : (w.conns c).input.length < text.length
  · rw [if_pos hshort]
    refine .inl ⟨⟨?_, h.status, ?_, ?_, ?_⟩, List.length_pos_iff.mp (Nat.zero_lt_of_lt hshort)⟩
    · exact h.receiving.of_same rfl (by simp [World.modConn]) (by simp [World.modConn]) rfl
    · simpa [World.modConn] using h.mode
    · simp only [World.modConn, update_self, h.reads, List.nil_append, ReadOp.completion]
      rw [if_neg (Nat.not_le.mpr hshort)]
    · simpa [Feed.unread, World.modConn] using h.rest
  · rw [if_neg hshort]
    obtain ⟨htake, hdrop⟩ := take_of_append h.rest (Nat.not_lt.mp hshort)
    rw [htake]
    refine .inr ⟨w.modConn c fun k => { k with input := k.input.drop text.length },
      ⟨⟨⟨?_, ?_, ?_⟩, h.status⟩, ?_⟩, rfl⟩
    · exact h.receiving.of_same rfl (by simp [World.modConn]) (by simp [World.modConn]) rfl
    · simpa [World.modConn] using h.reads
    · simpa [World.modConn] using hdrop
    · simpa [World.modConn] using h.mode

end BetweenReads

/-! ## The handlers of the chunks -/

namespace World

/-- What a chunk of size `n` leads to: a read of its data and the separator, or
of the line behind the last chunk. -/
def chunkOfSize (w : World) (c : ConnId) (n : Nat) (v : Verdict) : World :=
  if n = 0 then (w.extendTimer c).readDelimited c .last
  else
    ((w.extendTimer c).modConn c fun k => { k with expectedBytes := n }).read c (n + 2) .chunkData
      fun w data => w.onChunkData c data v

/-- A number that `stoi` reads is the size of the chunk. -/
theorem onChunkSize_of_stoi {text : Bytes} {n : Nat} (h : stoi 16 text = .ok (n : Nat))
    (hsmall : n < 2147483648) : w.onChunkSize c text v = w.chunkOfSize c n v := by
  have hto : toSize (n : Nat) = n := toSize_of_nat (by omega)
  have hmod : (n + 2) % 18446744073709551616 = n + 2 := Nat.mod_eq_of_lt (by omega)
  unfold onChunkSize chunkOfSize
  simp only [h, hto, hmod]
  by_cases hzero : n = 0
  · rw [if_pos hzero, if_neg (by omega)]
  · rw [if_neg hzero, if_pos (by omega)]

/-- The data of a chunk goes into the response, and the next size is read. -/
theorem onChunkData_eq (hres : (w.conns c).res = some r)
    (hmode : (w.conns c).transferMode = .chunked) (data : Bytes) :
    w.onChunkData c data v =
      ((w.store c r ((w.responses r).appendBody (dropCrlf data))).extendTimer c).readDelimited c
        .chunkSize := by
  have hmode' : (((w.store c r ((w.responses r).appendBody (dropCrlf data))).extendTimer c).conns
      c).transferMode = .chunked := by
    simpa [extendTimer, modConn] using hmode
  simp only [onChunkData, hres]
  rw [readNextBodyChunk, hmode']

end World

namespace BetweenReads

/-- Behind the data of a chunk the next size is read. -/
theorem onChunkData (h : BetweenReads c r a status .chunked wire rest w) (data : Bytes) :
    AtRead c r a status .chunked .chunkSize none rest ⟨w.onChunkData c data v, wire⟩ := by
  rw [World.onChunkData_eq h.receiving.res h.mode]
  exact (h.store _).extendTimer.readDelimited .chunkSize

/-- Behind the size of a chunk its data is read, at once if it is there. -/
theorem onChunkSize {line text : Bytes}
    (h : BetweenReads c r a status .chunked wire (text ++ crlf ++ rest) w)
    (hsize : stoi 16 line = .ok (text.length : Nat)) (hsmall : text.length < 2147483648)
    (hne : text ≠ []) :
    AtRead c r a status .chunked .chunkData (some (text ++ crlf).length) (text ++ crlf ++ rest)
      ⟨w.onChunkSize c line v, wire⟩ ∨
    AtRead c r a status .chunked .chunkSize none rest ⟨w.onChunkSize c line v, wire⟩ := by
  have hlen : (text ++ crlf).length = text.length + 2 := List.length_append
  rw [World.onChunkSize_of_stoi hsize hsmall, World.chunkOfSize,
    if_neg (mt List.length_eq_zero_iff.mp hne), ← hlen]
  rcases (h.extendTimer.expect text.length).read .chunkData
    fun w data => w.onChunkData c data v with ⟨hwaits, -⟩ | ⟨u, hu, he⟩
  · exact .inl hwaits
  · rw [he]
    exact .inr (hu.onChunkData _)

/-- Behind the size of the last chunk one line is read. -/
theorem onChunkSize_zero {line : Bytes} (h : BetweenReads c r a status .chunked wire rest w)
    (hzero : stoi 16 line = .ok (0 : Nat)) :
    AtRead c r a status .chunked .last none rest ⟨w.onChunkSize c line v, wire⟩ := by
  rw [World.onChunkSize_of_stoi hzero (by decide)]
  exact h.extendTimer.readDelimited .last

end BetweenReads

/-- From the end of the headers the size of the first chunk is read. -/
theorem AtRead.ofHeadersEnd {t : Bytes} (h : AtRest c r a wire rest w)
    (hlength : (w.responses r).headerValue (ascii "Content-Length") = none)
    (hcoding : (w.responses r).headerValue (ascii "Transfer-Encoding") = some t)
    (hchunked : find (ascii "chunked") t ≠ none) :
    AtRead c r a (w.responses r).statusCode .chunked .chunkSize none rest
      ⟨w.headersEnd c r v, wire⟩ := by
  have hbetween : BetweenReads c r a (w.responses r).statusCode .chunked wire rest
      (w.modConn c fun k => { k with expectedBytes := 0, transferMode := .chunked }) :=
    ⟨⟨h.parser .chunked 0, rfl⟩, by simp [World.modConn]⟩
  simp only [World.headersEnd, hlength, hcoding, if_neg hchunked]
  rw [World.readNextBodyChunk, hbetween.mode]
  exact hbetween.readDelimited .chunkSize

theorem Feed.Delimited.settled {f : Feed} (h : Feed.Delimited c a status rest f) :
    f.settled a := by
  rw [Feed.settled, h.outcome]
  exact Option.some_ne_none _

end AsioProtocols
