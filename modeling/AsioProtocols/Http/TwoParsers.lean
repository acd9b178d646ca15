import AsioProtocols.Http.ExclusiveRuns
import AsioProtocols.Http.Feed
import AsioProtocols.Http.Request

/-!
# The two parsers of a response

`parse_data` takes a whole string apart, the connection takes its lines out of a
buffer that the socket fills in any portions. On what `parse_data` accepts they
agree (**`headersEnd_agrees`**): the connection comes to the end of the headers
with the same response, and what is still unread there, in the buffer and in the
socket, is what `parse_data` hands to `parse_body`.

The invariant is `Heading`: whatever the connection has taken off so far,
`parse_data`, resumed at the same place with the response as it is, still comes to
the same result. A socket read does not touch it, since the buffer and the socket
together stay as they are; the handler of a completed read takes one turn of the
loop.
-/

namespace AsioProtocols

open Function

namespace Feed

/-- The empty line has come: the handler that sees the end of the headers is next. -/
def atHeadersEnd (c : ConnId) (f : Feed) : Bool :=
  match (f.world.conns c).reads with
  | [⟨.header, none, some (.ok 0)⟩] => true
  | _ => false

/-- Where `parse_data` is, with what result to come. -/
inductive Resumes (final : Response) (body : Bytes) (m : Response) (rest : Bytes) : Point → Prop
  | status (h : m.parseData rest = (final, .ok body)) : Resumes final body m rest .status
  | header (m' : Message) (h : m.toMessage.parseHeaders rest = (m', .ok body))
      (hfinal : { m with toMessage := m' } = final) : Resumes final body m rest .header

/-- **The invariant**: `parse_data` would come to the same result from here. -/
structure Heading (c : ConnId) (r : RespId) (final : Response) (body : Bytes) (f : Feed) :
    Prop where
  running : f.world.fault = none
  isOpen : (f.world.conns c).closed = false
  res : (f.world.conns c).res = some r
  reads : ∃ op, (f.world.conns c).reads = [op] ∧ op.wanted = none ∧
    op.result = (find crlf (f.world.conns c).input).map .ok ∧
    Resumes final body (f.world.responses r) (f.unread c) op.point

variable {c : ConnId} {r : RespId} {final m : Response} {body rest : Bytes} {f f' : Feed} {p : Point}

theorem Opened.heading (h : Opened c r f)
    (hparse : (f.world.responses r).parseData (f.unread c) = (final, .ok body)) :
    Heading c r final body f :=
  ⟨h.running, h.isOpen, h.res, _, h.reads, rfl, rfl, .status hparse⟩

theorem atHeadersEnd_iff :
    f.atHeadersEnd c ↔ (f.world.conns c).reads = [⟨.header, none, some (.ok 0)⟩] := by
  constructor
  · intro h
    rw [atHeadersEnd] at h
    split at h
    · assumption
    · cases h
  · intro h
    rw [atHeadersEnd, h]
    rfl

/-! ## One turn of the loop -/

/-- `parse_data` on its first line. -/
theorem parseData_eq_ok (h : m.parseData rest = (final, .ok body)) :
    ∃ line behind m₁ m', rest = line ++ crlf ++ behind ∧ find crlf line = none ∧
      m.parseInitialLine line = (m₁, none) ∧
      m₁.toMessage.parseHeaders behind = (m', .ok body) ∧ { m₁ with toMessage := m' } = final := by
  rw [Response.parseData, AsioProtocols.parseData] at h
  split at h
  · cases h
  · rename_i stop hfind
    obtain ⟨hrest, hline, -⟩ := exists_line hfind
    split at h
    · cases h
    · rename_i m₁ hinit
      rw [Prod.mk.injEq] at h
      exact ⟨_, _, m₁, _, hrest, hline, hinit, Prod.ext rfl h.2, h.1⟩

/-- Whatever is accepted holds another line. -/
theorem Resumes.line (h : Resumes final body m rest p) :
    ∃ line behind, rest = line ++ crlf ++ behind ∧ find crlf line = none := by
  cases h with
  | status h =>
    obtain ⟨line, behind, -, -, hrest, hline, -⟩ := parseData_eq_ok h
    exact ⟨line, behind, hrest, hline⟩
  | header m' h hfinal =>
    rcases Message.parseHeaders_eq_ok h with ⟨hrest, -⟩ | ⟨line, behind, -, hrest, -, hline, -⟩
    · exact ⟨[], body, hrest, rfl⟩
    · exact ⟨line, behind, hrest, hline⟩

/-- What a handler comes back to: the next header line is read. -/
theorem Heading.of_readNextHeader {w : World} {wire : Bytes} {m' : Message}
    (h : Between c r wire rest m w) (hrunning : w.fault = none)
    (hopen : (w.conns c).closed = false)
    (hparse : m.toMessage.parseHeaders rest = (m', .ok body))
    (hfinal : { m with toMessage := m' } = final) :
    Heading c r final body ⟨w.readNextHeader c, wire⟩ ∧
      unread c ⟨w.readNextHeader c, wire⟩ = rest := by
  have hunread : unread c ⟨w.readNextHeader c, wire⟩ = rest := by
    simpa [unread, World.readNextHeader, World.readDelimited, World.modConn] using h.rest
  refine ⟨⟨hrunning, ?_, ?_, { point := .header, result := (find crlf (w.conns c).input).map .ok },
    ?_, rfl, ?_, ?_⟩, hunread⟩
  · simpa [World.readNextHeader, World.readDelimited, World.modConn] using hopen
  · simpa [World.readNextHeader, World.readDelimited, World.modConn] using h.res
  · simp [World.readNextHeader, World.readDelimited, World.modConn, h.reads]
  · simp [World.readNextHeader, World.readDelimited, World.modConn]
  · rw [hunread]
    exact .header m' (h.held.symm ▸ hparse) (h.held.symm ▸ hfinal)

/-- The handler of the status line. -/
theorem Heading.of_onStatus {w : World} {wire line : Bytes} {m₁ : Response} {m' : Message}
    (h : Between c r wire rest m w) (hrunning : w.fault = none)
    (hopen : (w.conns c).closed = false) (hinit : m.parseInitialLine line = (m₁, none))
    (hparse : m₁.toMessage.parseHeaders rest = (m', .ok body))
    (hfinal : { m₁ with toMessage := m' } = final) :
    Heading c r final body ⟨w.onStatus c line, wire⟩ ∧
      unread c ⟨w.onStatus c line, wire⟩ = rest := by
  have hinit' : ((w.extendTimer c).responses r).parseInitialLine line = (m₁, none) :=
    h.extendTimer.held.symm ▸ hinit
  simp only [World.onStatus, h.res, hinit']
  refine Heading.of_readNextHeader (m := m₁) ?_ hrunning ?_ hparse hfinal
  · exact ⟨h.extendTimer.res, h.extendTimer.reads, h.extendTimer.rest, update_self _ _ _⟩
  · simpa [World.storeStatus, World.extendTimer, World.modConn] using hopen

/-- The handler of a header line. -/
theorem Heading.of_onHeader {w : World} {wire line : Bytes} {m₁ m' : Message}
    (h : Between c r wire rest m w) (hrunning : w.fault = none)
    (hopen : (w.conns c).closed = false) (hne : line ≠ [])
    (hline : m.toMessage.parseHeaderLine line = .ok m₁)
    (hparse : m₁.parseHeaders rest = (m', .ok body))
    (hfinal : { m with toMessage := m' } = final) (v : Verdict) :
    Heading c r final body ⟨w.onHeader c line v, wire⟩ ∧
      unread c ⟨w.onHeader c line v, wire⟩ = rest := by
  have hline' : ((w.extendTimer c).responses r).toMessage.parseHeaderLine line = .ok m₁ :=
    h.extendTimer.held.symm ▸ hline
  simp only [World.onHeader, h.extendTimer.res, if_neg hne, hline']
  refine Heading.of_readNextHeader (h.extendTimer.store m₁) hrunning ?_ hparse hfinal
  simpa [World.extendTimer, World.modConn] using hopen

/-- A socket read leaves the invariant alone. -/
theorem Heading.deliver (h : Heading c r final body f) {n : Nat}
    (hstep : f.step c (.deliver n) = some f') :
    Heading c r final body f' ∧ f'.left c < f.left c := by
  obtain ⟨op, hreads, hwanted, -, hresumes⟩ := h.reads
  obtain ⟨-, hleft, input, wire, hunread, rfl⟩ := deliver_inv hreads hstep
  refine ⟨⟨h.running, ?_, ?_, { op with result := op.completion input }, ?_, hwanted, ?_, ?_⟩, hleft⟩
  · simpa [World.modConn] using h.isOpen
  · simpa [World.modConn] using h.res
  · simp [World.modConn]
  · simp [World.modConn, ReadOp.completion, hwanted]
  · rw [← hunread] at hresumes
    simpa [unread, World.modConn] using hresumes

/-- The handler of the outstanding read takes one turn of the loop. -/
theorem Heading.handle (h : Heading c r final body f) (hend : ¬ f.atHeadersEnd c) {v : Verdict}
    (hstep : f.step c (.handle v) = some f') :
    Heading c r final body f' ∧ f'.left c < f.left c := by
  obtain ⟨op', hreads, hwanted, hfound, hresumes⟩ := h.reads
  obtain ⟨result, hresult, rfl⟩ := handle_inv hreads hstep
  rw [hresult] at hfound
  obtain ⟨pos, hfind, rfl⟩ := Option.map_eq_some_iff.mp hfound.symm
  rw [World.finishRead_line hwanted]
  have hrunning : (Reading.taken f.world c (pos + 2)).fault = none := h.running
  have hopen : ((Reading.taken f.world c (pos + 2)).conns c).closed = false := by
    simpa [Reading.taken, World.modConn] using h.isOpen
  have between : ∀ behind, (f.world.conns c).input.drop (pos + 2) ++ f.wire = behind →
      Between c r f.wire behind (f.world.responses r) (Reading.taken f.world c (pos + 2)) :=
    fun behind hdrop => ⟨by simpa [Reading.taken, World.modConn] using h.res,
      by simp [Reading.taken, World.modConn, hreads],
      by simpa [Reading.taken, World.modConn] using hdrop, rfl⟩
  -- the line taken off is the one `parse_data` cuts off
  generalize hpoint : op'.point = p at hresumes ⊢
  cases hresumes with
  | status hparse =>
    obtain ⟨line, behind, m₁, m', hrest, hline, hinit, hheaders, hfinal⟩ := parseData_eq_ok hparse
    obtain ⟨htake, hdrop, hlen⟩ := line_of_find hrest hline hfind
    rw [htake]
    obtain ⟨hheading, hunread⟩ :=
      Heading.of_onStatus (between behind hdrop) hrunning hopen hinit hheaders hfinal
    refine ⟨hheading, ?_⟩
    show (unread c ⟨_, f.wire⟩).length + f.wire.length < (f.unread c).length + f.wire.length
    rw [show f.unread c = line ++ crlf ++ behind from hrest]
    simp only [World.onLine, hunread, List.length_append, length_crlf]
    omega
  | header m' hparse hfinal =>
    rcases Message.parseHeaders_eq_ok hparse with ⟨hrest, -⟩ | ⟨line, behind, m₁, hrest, hne, hline,
      hheader, hheaders⟩
    · have hpos := find_append_of_some f.wire hfind
      rw [show (f.world.conns c).input ++ f.wire = crlf ++ body from hrest,
        find_of_prefix (List.prefix_append _ _)] at hpos
      obtain rfl := Option.some.inj hpos
      have heq : op' = ⟨.header, none, some (.ok 0)⟩ := by
        cases op'
        simp_all
      exact absurd (atHeadersEnd_iff.mpr (heq ▸ hreads)) hend
    · obtain ⟨htake, hdrop, hlen⟩ := line_of_find hrest hline hfind
      rw [htake]
      obtain ⟨hheading, hunread⟩ :=
        Heading.of_onHeader (between behind hdrop) hrunning hopen hne hheader hheaders hfinal v
      refine ⟨hheading, ?_⟩
      show (unread c ⟨_, f.wire⟩).length + f.wire.length < (f.unread c).length + f.wire.length
      rw [show f.unread c = line ++ crlf ++ behind from hrest]
      simp only [World.onLine, hunread, List.length_append, length_crlf]
      omega

theorem Heading.step (h : Heading c r final body f) (hend : ¬ f.atHeadersEnd c) {move : Move}
    (hstep : f.step c move = some f') : Heading c r final body f' ∧ f'.left c < f.left c := by
  cases move with
  | deliver n => exact h.deliver hstep
  | handle v => exact h.handle hend hstep

/-- The handler runs if its read has completed; otherwise the rest of the line is
still in the socket. -/
theorem Heading.progress (h : Heading c r final body f) : ∃ move f', f.step c move = some f' := by
  obtain ⟨op, hreads, hwanted, hresult, hresumes⟩ := h.reads
  cases hfind : find crlf (f.world.conns c).input with
  | some pos =>
    rw [hfind] at hresult
    exact ⟨.handle .accept, can_handle h.running hreads hresult⟩
  | none =>
    have hwire : f.wire ≠ [] := by
      intro hnil
      obtain ⟨line, behind, hrest, hline⟩ := hresumes.line
      rw [unread, hnil, List.append_nil] at hrest
      rw [hrest, find_crlf_line behind hline] at hfind
      cases hfind
    obtain ⟨n, hn⟩ := can_deliver h.running h.isOpen hreads (by rw [hresult, hfind]; rfl)
      (by simp [ReadOp.completion, hwanted, hfind]) hwire
    exact ⟨.deliver n, hn⟩

/-- At the end of the headers `parse_data` would stop as well: the handler takes the
empty line off and finds the response finished, and the body unread. -/
theorem Heading.atEnd (h : Heading c r final body f) (hend : f.atHeadersEnd c) (v : Verdict) :
    ∃ w : World, f.world.step (.runRead c 0 v) = some (w.headersEnd c r v) ∧
      w.responses r = final ∧ (w.conns c).input ++ f.wire = body := by
  have hreads := atHeadersEnd_iff.mp hend
  obtain ⟨op, hreads', -, hfound, hresumes⟩ := h.reads
  obtain rfl : op = ⟨.header, none, some (.ok 0)⟩ := by simpa [hreads] using hreads'.symm
  obtain ⟨pos, hfind, hzero⟩ := Option.map_eq_some_iff.mp hfound.symm
  cases hzero
  cases hresumes with
  | header m' hparse hfinal =>
    have hfront := find_append_of_some f.wire hfind
    rcases Message.parseHeaders_eq_ok hparse with ⟨hrest, rfl⟩ | ⟨line, behind, m₁, hrest, hne,
      hline, -⟩
    · obtain ⟨-, hdrop, -⟩ := line_of_find (show _ = [] ++ crlf ++ body from hrest) rfl hfind
      refine ⟨(Reading.taken f.world c 2).extendTimer c, ?_, hfinal, ?_⟩
      · simp only [World.step, h.running, World.apply, hreads, List.getElem?_cons_zero]
        rw [World.finishRead_line rfl, List.take_zero, Nat.zero_add]
        have hres : (((Reading.taken f.world c 2).extendTimer c).conns c).res = some r := by
          simpa [Reading.taken, World.modConn] using h.res
        simp only [World.onLine, World.onHeader, hres, if_true]
      · simpa [Reading.taken, World.extendTimer, World.modConn] using hdrop
    · rw [show (f.world.conns c).input ++ f.wire = line ++ crlf ++ behind from hrest,
        find_crlf_line behind hline] at hfront
      exact absurd (List.length_eq_zero_iff.mp (Option.some.inj hfront)) hne

end Feed

open Feed in
/-- **The two parsers agree.** Whatever the socket reads are, a connection that reads
what `parse_data` accepts comes to the end of the headers. There, the response is the
one `parse_data` makes, and exactly what `parse_body` is given is still unread, in the
buffer or the socket. -/
theorem headersEnd_agrees {c : ConnId} {r : RespId} {f : Feed} {final : Response} {body : Bytes}
    (hopened : Opened c r f)
    (hparse : (f.world.responses r).parseData (f.unread c) = (final, .ok body)) :
    Concludes (Feed.step c) (fun f => f.atHeadersEnd c)
      (fun f => ∀ v, ∃ w : World, f.world.step (.runRead c 0 v) = some (w.headersEnd c r v) ∧
        w.responses r = final ∧ (w.conns c).input ++ f.wire = body) f :=
  Concludes.of_measure (Heading c r final body) (left c) (fun _ h hend => h.atEnd hend)
    (fun _ h _ => h.progress) (fun _ _ _ h hend hstep => (h.step hend hstep).imp_right .inr) (hopened.heading hparse)

/-- A response with a lone CR in a header value and a body that looks like a header. -/
def oddResponse : Bytes :=
  ascii "HTTP/1.1 200 OK" ++ crlf ++ ascii "x-odd: a" ++ [13] ++ ascii "b" ++ crlf ++ crlf ++
    ascii "c: d" ++ crlf

/-- The connection of a first request, to which that response is sent. -/
def oddFeed : Feed :=
  { world := (exec World.step (World.init id false true 1)
      ([.request getRequest 30000] ++ connects 0)).getD {}
    wire := oddResponse }

/-- What `parse_data` makes of it. -/
theorem parseData_oddResponse : (oddFeed.world.responses 0).parseData oddResponse =
    ({ request := getRequest, version := ascii "HTTP/1.1", statusCode := 200,
       statusMessage := ascii "OK",
       headers := [Header.make (ascii "X-Odd") (ascii "a" ++ [13] ++ ascii "b")] },
      .ok (ascii "c: d" ++ crlf)) := by
  have hfind : find crlf oddResponse = some 15 := by decide
  have hrest : oddResponse.drop 17 =
      ascii "x-odd: a" ++ [13] ++ ascii "b" ++ crlf ++ (crlf ++ (ascii "c: d" ++ crlf)) := by decide
  have hinit : (oddFeed.world.responses 0).parseInitialLine (oddResponse.take 15) =
      ({ request := getRequest, version := ascii "HTTP/1.1", statusCode := 200,
         statusMessage := ascii "OK" }, none) := by decide
  have hheader : ({ version := ascii "HTTP/1.1" } : Message).parseHeaderLine
      (ascii "x-odd: a" ++ [13] ++ ascii "b") = .ok
        { version := ascii "HTTP/1.1",
          headers := [Header.make (ascii "X-Odd") (ascii "a" ++ [13] ++ ascii "b")] } := rfl
  rw [Response.parseData, parseData, hfind]
  simp only [hrest, hinit]
  rw [Message.parseHeaders_line (by decide) (by decide) hheader, Message.parseHeaders_end]

/-- The connection has connected, its buffer is empty. -/
theorem opened_oddFeed : Feed.Opened 0 0 oddFeed where
  running := rfl
  isOpen := rfl
  res := rfl
  reads := by
    have hreads : (oddFeed.world.conns 0).reads.map
        (fun op => (op.point, op.wanted, op.result.isNone)) = [(.status, none, true)] := by decide
    have hinput : (oddFeed.world.conns 0).input = [] := by decide
    obtain ⟨op, hop, hop'⟩ := List.map_eq_singleton_iff.mp hreads
    rw [hop, hinput, show find crlf [] = none by decide]
    cases op
    simp_all

/-- That connection comes to the end of the headers, with the header and the body
that the string has. -/
theorem headersEnd_oddResponse : Concludes (Feed.step 0) (fun f => f.atHeadersEnd 0)
    (fun f => ∀ v, ∃ w : World, f.world.step (.runRead 0 0 v) = some (w.headersEnd 0 0 v) ∧
      w.responses 0 =
        { request := getRequest, version := ascii "HTTP/1.1", statusCode := 200,
          statusMessage := ascii "OK",
          headers := [Header.make (ascii "X-Odd") (ascii "a" ++ [13] ++ ascii "b")] } ∧
      (w.conns 0).input ++ f.wire = ascii "c: d" ++ crlf) oddFeed :=
  headersEnd_agrees opened_oddFeed parseData_oddResponse

end AsioProtocols
