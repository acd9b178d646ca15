import AsioProtocols.Http.Delimited

/-!
# Behind the last chunk

A chunk of size nought ends the chunks; behind its line come the trailer lines
and an empty line. The connection reads one line there, whatever it is, and
takes the response for complete (`AtRest.lastLine_concludes`). So the input left
for the next response starts behind the empty line only if there are no trailer
lines; else the second trailer line, or the empty line, is what the next response
begins with. A chunk of `2^31` bytes or more is never passed: the exception of
`stoi` leaves the handler, and nothing is read any more
(`AtRest.large_chunk_stalls`). **`AtRest.trailers_iff`** says that there is no
third reason.

`Ending` has the reads of a chunked body as its cases: of the size of a chunk, of its
data, and of the line behind the last one. `Ending.step` is what one move does.
-/

namespace AsioProtocols

open Function

/-- A line that says the size `n` of a chunk: digits in front that denote it,
and no `0x`. An extension of the chunk may follow. -/
structure SizeLine (line : Bytes) (n : Nat) : Prop where
  nonempty : leadingDigits 16 line ≠ []
  value : ofDigits 16 (leadingDigits 16 line) = n
  plain : dropHexPrefix 16 line = line
  oneLine : find crlf line = none

/-- Chunks with their size lines. -/
def SizedChunks (chunks : List (Bytes × Bytes)) : Prop :=
  ∀ chunk ∈ chunks, SizeLine chunk.1 chunk.2.length ∧ chunk.2 ≠ []

/-- One of the chunks is too large for an `int`. -/
def LargeChunk (chunks : List (Bytes × Bytes)) : Prop :=
  ∃ chunk ∈ chunks, 2147483648 ≤ chunk.2.length

/-- The lines of a trailer section. -/
def TrailerLines (trailers : List Bytes) : Prop :=
  ∀ line ∈ trailers, line ≠ [] ∧ find crlf line = none

theorem SizeLine.stoi {line : Bytes} {n : Nat} (h : SizeLine line n) :
    stoi 16 line = if n < 2147483648 then .ok (n : Nat) else .error .outOfRange := by
  have hstoi := stoi_of_leadingDigits h.nonempty
  rwa [h.plain, h.value] at hstoi

theorem SizeLine.stoi_small {line : Bytes} {n : Nat} (h : SizeLine line n)
    (hsmall : n < 2147483648) : AsioProtocols.stoi 16 line = .ok (n : Nat) := by
  rw [h.stoi, if_pos hsmall]

@[simp]
theorem largeChunk_nil : ¬ LargeChunk [] := by simp [LargeChunk]

@[simp]
theorem largeChunk_cons (chunk : Bytes × Bytes) (chunks : List (Bytes × Bytes)) :
    LargeChunk (chunk :: chunks) ↔ 2147483648 ≤ chunk.2.length ∨ LargeChunk chunks := by
  simp [LargeChunk]

/-! ## To the end of the response -/

/-- Where the connection is in a chunked body, with `line` the first line behind
the size of the last chunk; `large` says whether one of the chunks to come is too
large, and `stalled` is where the connection ends up then. -/
inductive Ending (c : ConnId) (r : RespId) (a : AttemptId) (status : Nat) (zero line behind : Bytes)
    (large : Prop) (f : Feed) : Prop
  | size (chunks : List (Bytes × Bytes)) (hchunks : SizedChunks chunks)
      (hlarge : LargeChunk chunks ↔ large)
      (h : AtRead c r a status .chunked .chunkSize none
        (chunkBytes chunks ++ (zero ++ crlf ++ (line ++ crlf ++ behind))) f)
  | data (text : Bytes) (chunks : List (Bytes × Bytes)) (hchunks : SizedChunks chunks)
      (hlarge : LargeChunk chunks ↔ large)
      (h : AtRead c r a status .chunked .chunkData (some (text ++ crlf).length)
        (text ++ crlf ++ (chunkBytes chunks ++ (zero ++ crlf ++ (line ++ crlf ++ behind)))) f)
  | last (hlarge : ¬ large) (h : AtRead c r a status .chunked .last none (line ++ crlf ++ behind) f)
  | done (hlarge : ¬ large) (h : Feed.Delimited c a status behind f)
  | stalled (hlarge : large) (reads : (f.world.conns c).reads = []) (unsettled : ¬ f.settled a)

variable {c : ConnId} {r : RespId} {a : AttemptId} {status : Nat}
  {zero line behind next wire : Bytes} {large : Prop} {trailers : List Bytes}
  {chunks : List (Bytes × Bytes)} {w : World} {f f' : Feed}

theorem chunkBytes_cons (chunk : Bytes × Bytes) (chunks : List (Bytes × Bytes)) (rest : Bytes) :
    chunkBytes (chunk :: chunks) ++ rest =
      chunk.1 ++ crlf ++ (chunk.2 ++ crlf ++ (chunkBytes chunks ++ rest)) := by
  simp [chunkBytes]

/-- A size that `stoi` refuses: the exception leaves the handler. -/
theorem Ending.ofLargeChunk {v : Verdict} {text rest : Bytes} {n : Nat}
    (h : AtRest c r a wire rest w) (hsize : SizeLine text n) (hn : 2147483648 ≤ n)
    (hlarge : large) : Ending c r a status zero line behind large ⟨w.onChunkSize c text v, wire⟩ := by
  have hescape : w.onChunkSize c text v = (w.extendTimer c).escape c (.logicError .outOfRange) := by
    have hstoi := hsize.stoi
    rw [if_neg (Nat.not_lt.mpr hn)] at hstoi
    simp only [World.onChunkSize, hstoi]
  refine .stalled hlarge ?_ ?_
  · rw [hescape]
    simpa [World.escape, World.note, World.extendTimer, World.modConn] using h.reads
  · rw [hescape]
    exact not_not_intro h.receiving.pending

namespace Ending

/-- What the handler of a read does. -/
theorem handle {v : Verdict} (h : Ending c r a status zero line behind large f)
    (hzero : SizeLine zero 0) (hline : find crlf line = none) (hunsettled : ¬ f.settled a)
    (hstep : f.step c (.handle v) = some f') :
    Ending c r a status zero line behind large f' ∧
      (large ∨ f'.settled a ∨ f'.left c < f.left c) := by
  cases h with
  | done hlarge h => exact absurd h.settled hunsettled
  | stalled hlarge reads unsettled =>
    rw [Feed.step_of_no_read reads] at hstep
    cases hstep
  | size chunks hchunks hlarge h =>
    cases chunks with
    | nil =>
      obtain ⟨u, hu, rfl⟩ := h.handleLine rfl hzero.oneLine hstep
      have h' := hu.onChunkSize_zero (v := v) (hzero.stoi_small (by decide))
      refine ⟨.last (mt hlarge.mpr largeChunk_nil) h', .inr (.inr (h.left_lt h' rfl ?_))⟩
      simp only [chunkBytes, List.flatMap_nil, List.nil_append, List.length_append, length_crlf]
      omega
    | cons chunk chunks =>
      obtain ⟨hsize, hne⟩ := hchunks chunk List.mem_cons_self
      have hbehind : SizedChunks chunks := fun e he => hchunks e (List.mem_cons_of_mem chunk he)
      rw [chunkBytes_cons] at h
      obtain ⟨u, hu, rfl⟩ := h.handleLine rfl hsize.oneLine hstep
      rw [largeChunk_cons] at hlarge
      by_cases hn : 2147483648 ≤ chunk.2.length
      · -- the connection does not get past this chunk
        have hyes : large := hlarge.mp (.inl hn)
        exact ⟨.ofLargeChunk hu.toAtRest hsize hn hyes, .inl hyes⟩
      · rw [or_iff_right hn] at hlarge
        have hsmall := Nat.not_le.mp hn
        rcases hu.onChunkSize (v := v) (hsize.stoi_small hsmall) hsmall hne with h' | h'
        · refine ⟨.data chunk.2 chunks hbehind hlarge h', .inr (.inr (h.left_lt h' rfl ?_))⟩
          simp only [List.length_append, length_crlf]
          omega
        · refine ⟨.size chunks hbehind hlarge h', .inr (.inr (h.left_lt h' rfl ?_))⟩
          simp only [List.length_append, length_crlf]
          omega
  | data text chunks hchunks hlarge h =>
    obtain ⟨u, hu, rfl⟩ := h.handleData rfl hstep
    have h' := hu.onChunkData (v := v) (text ++ crlf)
    refine ⟨.size chunks hchunks hlarge h', .inr (.inr (h.left_lt h' rfl ?_))⟩
    simp only [List.length_append, length_crlf]
    omega
  | last hlarge h =>
    -- the line is not looked at
    obtain ⟨u, hu, rfl⟩ := h.handleLine rfl hline hstep
    have hdone : Feed.Delimited c a status behind ⟨u.onLast c v, f.wire⟩ :=
      hu.extendTimer.toAtBody.finished []
    exact ⟨.done hlarge hdone, .inr (.inl hdone.settled)⟩

/-- What one move does. -/
theorem step {move : Feed.Move} (h : Ending c r a status zero line behind large f)
    (hzero : SizeLine zero 0) (hline : find crlf line = none) (hunsettled : ¬ f.settled a)
    (hstep : f.step c move = some f') :
    Ending c r a status zero line behind large f' ∧
      (large ∨ f'.settled a ∨ f'.left c < f.left c) := by
  cases move with
  | handle v => exact h.handle hzero hline hunsettled hstep
  | deliver n =>
    cases h with
    | done hlarge h => exact absurd h.settled hunsettled
    | stalled hlarge reads unsettled =>
      rw [Feed.step_of_no_read reads] at hstep
      cases hstep
    | size chunks hchunks hlarge h =>
      obtain ⟨h', hlt⟩ := h.deliver hstep
      exact ⟨.size chunks hchunks hlarge h', .inr (.inr hlt)⟩
    | data text chunks hchunks hlarge h =>
      obtain ⟨h', hlt⟩ := h.deliver hstep
      exact ⟨.data text chunks hchunks hlarge h', .inr (.inr hlt)⟩
    | last hlarge h =>
      obtain ⟨h', hlt⟩ := h.deliver hstep
      exact ⟨.last hlarge h', .inr (.inr hlt)⟩

/-- There is a move as long as the response is not complete. -/
theorem possible (h : Ending c r a status zero line behind large f) (hzero : SizeLine zero 0)
    (hline : find crlf line = none) (hsmall : ¬ large) (hunsettled : ¬ f.settled a) :
    ∃ move f', f.step c move = some f' := by
  cases h with
  | done hlarge h => exact absurd h.settled hunsettled
  | stalled hlarge reads unsettled => exact absurd hlarge hsmall
  | last hlarge h => exact h.possible (ReadOp.completion_line hline behind)
  | data text chunks hchunks hlarge h => exact h.possible (ReadOp.completion_data (text ++ crlf) _)
  | size chunks hchunks hlarge h =>
    cases chunks with
    | nil => exact h.possible (ReadOp.completion_line hzero.oneLine _)
    | cons chunk chunks =>
      rw [chunkBytes_cons] at h
      exact h.possible (ReadOp.completion_line (hchunks chunk List.mem_cons_self).1.oneLine _)

/-- In front of a chunk that is too large nothing is settled. -/
theorem unsettled (h : Ending c r a status zero line behind large f) (hlarge : large) :
    ¬ f.settled a := by
  cases h with
  | size chunks hchunks hiff h => exact h.unsettled
  | data text chunks hchunks hiff h => exact h.unsettled
  | last hsmall h => exact absurd hlarge hsmall
  | done hsmall h => exact absurd hlarge hsmall
  | stalled hlarge reads unsettled => exact unsettled

/-- The chunks are read from the end of the headers on. -/
theorem ofHeadersEnd {v : Verdict} (hchunks : SizedChunks chunks)
    (h : AtRest c r a wire (chunkBytes chunks ++ (zero ++ crlf ++ (line ++ crlf ++ behind))) w)
    (hunderstood : (w.responses r).Understood .chunks) :
    Ending c r a (w.responses r).statusCode zero line behind (LargeChunk chunks)
      ⟨w.headersEnd c r v, wire⟩ := by
  obtain ⟨hlength, t, hcoding, hchunked⟩ := hunderstood
  exact .size chunks hchunks Iff.rfl (.ofHeadersEnd h hlength hcoding hchunked)

end Ending

namespace AtRest

variable {v : Verdict}

/-- **One line is read behind the last chunk**, and the response is complete. -/
theorem lastLine_concludes (hchunks : SizedChunks chunks) (hsmall : ¬ LargeChunk chunks)
    (hzero : SizeLine zero 0) (hline : find crlf line = none)
    (h : AtRest c r a wire (chunkBytes chunks ++ (zero ++ crlf ++ (line ++ crlf ++ behind))) w)
    (hunderstood : (w.responses r).Understood .chunks) :
    Concludes (Feed.step c) (Feed.settled a)
      (Feed.Delimited c a (w.responses r).statusCode behind) ⟨w.headersEnd c r v, wire⟩ := by
  refine Concludes.of_measure
    (Ending c r a (w.responses r).statusCode zero line behind (LargeChunk chunks))
    (Feed.left c) ?_ ?_ ?_ (.ofHeadersEnd hchunks h hunderstood)
  · intro f h hsettled
    cases h with
    | size chunks hchunks hlarge h => exact absurd hsettled h.unsettled
    | data text chunks hchunks hlarge h => exact absurd hsettled h.unsettled
    | last hlarge h => exact absurd hsettled h.unsettled
    | done hlarge h => exact h
    | stalled hlarge reads unsettled => exact absurd hsettled unsettled
  · intro f h hunsettled
    exact h.possible hzero hline hsmall hunsettled
  · intro f move f' h hunsettled hstep
    obtain ⟨h', hmoved⟩ := h.step hzero hline hunsettled hstep
    exact ⟨h', hmoved.resolve_left hsmall⟩

/-- **A chunk of `2^31` bytes or more** is never passed. -/
theorem large_chunk_stalls (hchunks : SizedChunks chunks) (hlarge : LargeChunk chunks)
    (hzero : SizeLine zero 0) (hline : find crlf line = none)
    (h : AtRest c r a wire (chunkBytes chunks ++ (zero ++ crlf ++ (line ++ crlf ++ behind))) w)
    (hunderstood : (w.responses r).Understood .chunks) (P : Feed → Prop) :
    ¬ Concludes (Feed.step c) (Feed.settled a) P ⟨w.headersEnd c r v, wire⟩ := by
  refine Concludes.never
    (Ending c r a (w.responses r).statusCode zero line behind (LargeChunk chunks)) ?_ ?_
    (.ofHeadersEnd hchunks h hunderstood)
  · intro f h
    exact h.unsettled hlarge
  · intro f move f' h hstep
    exact (h.step hzero hline (h.unsettled hlarge) hstep).1

/-- What follows the size of the last chunk, cut behind its first line. -/
theorem trailers_cut (trailers : List Bytes) (next : Bytes) :
    Reply.lineBytes trailers ++ crlf ++ next =
      trailers.headD [] ++ crlf ++ (if trailers = [] then next
        else Reply.lineBytes trailers.tail ++ crlf ++ next) := by
  cases trailers with
  | nil => rfl
  | cons line trailers => simp [Reply.lineBytes]

/-- **The response ends behind its trailer section** exactly if that is empty and
no chunk is too large: however the socket reads cut the bytes, the connection
completes the response when just the empty line is gone. -/
theorem trailers_iff (hchunks : SizedChunks chunks) (hzero : SizeLine zero 0)
    (htrailers : TrailerLines trailers)
    (h : AtRest c r a wire
      (chunkBytes chunks ++ (zero ++ crlf ++ (Reply.lineBytes trailers ++ crlf ++ next))) w)
    (hunderstood : (w.responses r).Understood .chunks) (v : Verdict) :
    Concludes (Feed.step c) (Feed.settled a)
        (Feed.Delimited c a (w.responses r).statusCode next) ⟨w.headersEnd c r v, wire⟩ ↔
      trailers = [] ∧ ¬ LargeChunk chunks := by
  have hfirst : find crlf (trailers.headD []) = none := by
    cases trailers with
    | nil => rfl
    | cons line trailers => exact (htrailers line List.mem_cons_self).2
  rw [trailers_cut] at h
  constructor
  · intro hnext
    have hsmall : ¬ LargeChunk chunks := fun hlarge =>
      large_chunk_stalls hchunks hlarge hzero hfirst h hunderstood _ hnext
    refine ⟨?_, hsmall⟩
    by_contra hsome
    rw [if_neg hsome] at h
    have hconcludes := lastLine_concludes hchunks hsmall hzero hfirst h hunderstood (v := v)
    -- the same end would leave two different inputs
    obtain ⟨g, -, hg, hg'⟩ := hnext.meet hconcludes fun _ _ _ hstep => hstep
    have hlen := congrArg List.length (hg.unread.symm.trans hg'.unread)
    simp only [List.length_append, length_crlf] at hlen
    omega
  · rintro ⟨hnone, hsmall⟩
    rw [if_pos hnone] at h
    exact lastLine_concludes hchunks hsmall hzero hfirst h hunderstood

/-- A response in chunks. -/
def chunkedResponse : Response :=
  { request := {}, headers := [Header.make (ascii "Transfer-Encoding") (ascii "chunked")] }

theorem understood_chunkedResponse : chunkedResponse.Understood .chunks :=
  ⟨by decide, ascii "chunked", by decide, by decide⟩

theorem sizeLine_three : SizeLine (ascii "3;a=b") 3 :=
  ⟨by decide, by decide, by decide, by decide⟩

theorem sizeLine_zero : SizeLine (ascii "0") 0 :=
  ⟨by decide, by decide, by decide, by decide⟩

theorem sizedChunks_three : SizedChunks [(ascii "3;a=b", ascii "abc")] := by
  intro chunk hchunk
  obtain rfl := List.mem_singleton.mp hchunk
  exact ⟨sizeLine_three, by decide⟩

/-- What a server sends behind the headers: a chunk, the last chunk, the trailer
section, and the start of the next response. -/
def chunkedInput (trailers : List Bytes) : Bytes :=
  chunkBytes [(ascii "3;a=b", ascii "abc")] ++ (ascii "0" ++ crlf ++
    (Reply.lineBytes trailers ++ crlf ++ ascii "HTTP"))

theorem atRest_chunkedInput (trailers : List Bytes) :
    AtRest 0 0 0 [] (chunkedInput trailers)
      (headersRead chunkedResponse (chunkedInput trailers)) :=
  ⟨receiving_headersRead _ _, rfl, List.append_nil _⟩

/-- Without trailer lines the next response begins where it should. -/
theorem trailers_none : Concludes (Feed.step 0) (Feed.settled 0)
    (Feed.Delimited 0 0 chunkedResponse.statusCode (ascii "HTTP"))
    ⟨(headersRead chunkedResponse (chunkedInput [])).headersEnd 0 0 .accept, []⟩ :=
  (trailers_iff sizedChunks_three sizeLine_zero (by simp [TrailerLines]) (atRest_chunkedInput [])
    understood_chunkedResponse .accept).mpr ⟨rfl, by simp [LargeChunk, ascii]⟩

/-- With one trailer line, the empty line behind it is left for the next response. -/
theorem trailers_one : ¬ Concludes (Feed.step 0) (Feed.settled 0)
    (Feed.Delimited 0 0 chunkedResponse.statusCode (ascii "HTTP"))
    ⟨(headersRead chunkedResponse (chunkedInput [ascii "A: b"])).headersEnd 0 0 .accept, []⟩ := by
  intro hnext
  have hat := atRest_chunkedInput [ascii "A: b"]
  rw [chunkedInput, trailers_cut] at hat
  have hconcludes := lastLine_concludes sizedChunks_three (by simp [LargeChunk, ascii])
    sizeLine_zero (by decide) hat understood_chunkedResponse (v := .accept)
  rw [← trailers_cut] at hconcludes
  obtain ⟨g, -, hg, hg'⟩ := hnext.meet hconcludes fun _ _ _ hstep => hstep
  have hlen := congrArg List.length (hg.unread.symm.trans hg'.unread)
  exact absurd hlen (by decide)

end AtRest

end AsioProtocols
