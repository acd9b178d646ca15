import AsioProtocols.Http.Feed

/-!
# Where the body of a response ends

What HTTP/1.1 prescribes for a final response (`Response.prescribed`): no body for a
`HEAD` request and for the statuses 204 and 304, the chunked encoding if it is the last
transfer coding, and else `Content-Length`. `Delimits m` says that the connection
finds the end of the body accordingly, whatever the body, what follows it and the
socket reads are: the response completes, and just the body is gone.

The rest of the module is about the end of a response, as far as the stream and the
attempt are concerned; the bodies themselves are in `Http/Delimited.lean`.
-/

namespace AsioProtocols

open Function

/-! ## What is prescribed -/

/-- How the body of a response is delimited. -/
inductive Delimiter
  | nothing
  | chunks
  | length (n : Nat)
  deriving DecidableEq, Repr

namespace Response

/-- A response that has no body, whatever its headers say. -/
def bodyless (m : Response) : Bool :=
  m.request.method == ascii "HEAD" || m.statusCode == 204 || m.statusCode == 304

/-- The last transfer coding, in lower case: the text behind the last comma of the
last `Transfer-Encoding`. -/
def lastCoding (m : Response) : Option Bytes :=
  (m.headers.filter (·.isNamed (ascii "Transfer-Encoding"))).getLast?.map fun h =>
    (trim (h.value.rtakeWhile (· != ch ','))).map toLower

/-- The number that `Content-Length` denotes. -/
def declaredLength (m : Response) : Option Nat :=
  match m.headerValue (ascii "Content-Length") with
  | some t => if t ≠ [] ∧ AllDigits 10 t then some (ofDigits 10 (t.filterMap (digitVal 10))) else none
  | none => none

/-- **The prescribed delimiter**; none for a response without any, which only the end
of the connection ends. -/
def prescribed (m : Response) : Option Delimiter :=
  if m.bodyless then some .nothing
  else if m.lastCoding = some (ascii "chunked") then some .chunks
  else m.declaredLength.map .length

end Response

/-- The sizes of chunks and of the last chunk, in hexadecimal. -/
structure Sized (chunks : List (Bytes × Bytes)) (zero : Bytes) : Prop where
  chunks : ∀ chunk ∈ chunks, HexSize chunk.1 chunk.2.length ∧ chunk.2 ≠ []
  zero : HexSize zero 0

/-- `body` is a body so delimited. -/
def Delimiter.Admits : Delimiter → Bytes → Prop
  | .nothing, body => body = []
  | .chunks, body => ∃ chunks zero, Sized chunks zero ∧ body = (Framing.chunked chunks zero).bytes
  | .length n, body => body.length = n

/-- Attempt `a` is settled. -/
def Feed.settled (a : AttemptId) (f : Feed) : Prop :=
  (f.world.completions.attempts a).outcome ≠ none

/-- The response has completed, and `next` is unread; if the connection is kept, the next
response is read from there. -/
structure Feed.Delimited (c : ConnId) (a : AttemptId) (status : Nat) (next : Bytes) (f : Feed) :
    Prop where
  outcome : (f.world.completions.attempts a).outcome = some (.done status)
  unread : f.unread c = next
  reads : (f.world.conns c).closed = false → (f.world.conns c).reads =
    [{ point := .status, result := (find crlf (f.world.conns c).input).map .ok }]

/-- **The connection delimits the body of `m` as prescribed**, from the end of the
headers on: with any body so delimited and anything behind it, any part of it in the
buffer, and any socket reads. -/
def Delimits (m : Response) : Prop :=
  ∀ (d : Delimiter) (body next wire : Bytes) (c : ConnId) (r : RespId) (a : AttemptId) (w : World)
    (v : Verdict), m.prescribed = some d → d.Admits body → Receiving c r a w →
    (w.conns c).reads = [] → w.responses r = m → (w.conns c).input ++ wire = body ++ next →
    Concludes (Feed.step c) (Feed.settled a) (Feed.Delimited c a m.statusCode next)
      ⟨w.headersEnd c r v, wire⟩

/-- When it does, for each delimiter. -/
def Response.Understood (m : Response) : Delimiter → Prop
  | .nothing => ∃ t, m.headerValue (ascii "Content-Length") = some t ∧ stoi 10 t = .ok 0
  | .chunks => m.headerValue (ascii "Content-Length") = none ∧
      ∃ t, m.headerValue (ascii "Transfer-Encoding") = some t ∧ find (ascii "chunked") t ≠ none
  | .length n => n < 2147483648

/-! ## The stream of a connection -/

/-- What the bytes and the reads of a connection are, and whether it is closed. -/
def Conn.stream (k : Conn) : Bool × Bytes × List ReadOp := (k.closed, k.input, k.reads)

namespace World

variable (w : World) (c d : ConnId)

theorem stream_hand (tasks : List ClientTask) :
    ((w.hand c tasks).conns d).stream = (w.conns d).stream := by
  refine List.foldlRecOn (motive := fun u : World => (u.conns d).stream = (w.conns d).stream) tasks
    _ rfl ?_
  rintro u hu (r | _) -
  · rw [← hu]
    by_cases h : d = c
    · subst h
      simp [runTask, writeRequest, extendTimer, modConn, note, Conn.stream]
    · simp [runTask, writeRequest, extendTimer, modConn, note, h]
  · exact hu

theorem stream_nextThen (t : ClientTask) : ((w.nextThen t).conns d).stream = (w.conns d).stream := by
  rcases w.nextThen_cases t with ⟨e, rest, -, -, h⟩ | ⟨-, -, h⟩ | ⟨-, -, h⟩
  · rw [h, stream_hand]
  · rw [h]
  · rw [h]

theorem responses_hand (tasks : List ClientTask) : (w.hand c tasks).responses = w.responses := by
  refine List.foldlRecOn (motive := fun u : World => u.responses = w.responses) tasks _ rfl ?_
  rintro u hu (r | _) -
  · exact hu
  · exact hu

/-- Releasing touches neither the stream of a connection nor a response. -/
theorem stream_release : ((w.release c).conns d).stream = (w.conns d).stream ∧
    (w.release c).completions = w.completions ∧ (w.release c).responses = w.responses := by
  rw [release]
  split
  · exact ⟨rfl, rfl, rfl⟩
  · rw [settleQueued]
    split
    · exact ⟨rfl, rfl, rfl⟩
    · rw [stream_hand, responses_hand]
      exact ⟨rfl, congrArg Prod.fst (futures_hand _ _ _), rfl⟩

/-- Closing a connection leaves its input alone. -/
theorem stream_close : ((w.close c).conns c).closed = true ∧
    ((w.close c).conns c).input = (w.conns c).input := by
  rcases h : (w.conns c).closed with _ | _
  · obtain ⟨valid, he⟩ := w.close_of_open c h
    rw [he]
    simp [Conn.shut]
  · rw [w.close_of_closed c h]
    simp [h]

/-- **Settling an unsettled attempt** settles it for good: a retry makes another. -/
theorem settleUnlessReady_settles {r : RespId} {a : AttemptId} (hcurrent : w.completions.current r = a)
    (hknown : a < w.completions.nattempts) (hpending : (w.completions.attempts a).outcome = none)
    (o : Outcome Nat) (v : Verdict) :
    ((w.settleUnlessReady c r o v).completions.attempts a).outcome = some o ∧
      ((w.settleUnlessReady c r o v).conns d).stream = (w.conns d).stream := by
  subst hcurrent
  generalize ha : w.completions.current r = a at *
  let P : World → Prop := fun u => (u.completions.attempts a).outcome = some o ∧
    a < u.completions.nattempts ∧ (u.conns d).stream = (w.conns d).stream
  suffices h : P (w.settleUnlessReady c r o v) from ⟨h.1, h.2.2⟩
  rcases w.settleUnlessReady_cases c r o v with ⟨hready, -⟩ | ⟨-, he⟩
  · rw [ha] at hready
    exact absurd hpending hready
  · rw [he, ha]
    refine List.foldlRecOn (motive := P) _ _ ⟨by simp, hknown, rfl⟩ ?_
    rintro u ⟨houtcome, hlt, hstream⟩ ⟨s, n⟩ -
    refine u.completionHandler_cases (P := P) a o v s n (fun _ _ _ _ => ⟨houtcome, hlt, hstream⟩)
      (fun _ => ⟨houtcome, hlt, hstream⟩) fun _ => ?_
    refine ⟨?_, ?_, ?_⟩
    · rw [completions_nextThen]
      simpa [Completions.reset, Completions.ask, Nat.ne_of_lt hlt] using houtcome
    · rw [completions_nextThen]
      exact Nat.lt_succ_of_lt hlt
    · rw [stream_nextThen]
      exact hstream

end World

namespace Feed

variable {c : ConnId} {r : RespId} {a : AttemptId} {w : World} {wire next : Bytes}

/-- The response completes, and the connection closes behind it. -/
theorem Delimited.closing (hcurrent : w.completions.current r = a)
    (hknown : a < w.completions.nattempts) (hpending : (w.completions.attempts a).outcome = none)
    (hnext : (w.conns c).input ++ wire = next) (status : Nat) (v : Verdict) :
    Delimited c a status next ⟨(w.settleUnlessReady c r (.done status) v).close c, wire⟩ := by
  obtain ⟨houtcome, hstream⟩ :=
    w.settleUnlessReady_settles c c hcurrent hknown hpending (.done status) v
  obtain ⟨hclosed, hinput⟩ := (w.settleUnlessReady c r (.done status) v).stream_close c
  refine ⟨?_, ?_, fun hopen => ?_⟩
  · rw [World.completions_close, houtcome]
  · rw [← hnext, Feed.unread, hinput, (Prod.mk.inj (Prod.mk.inj hstream).2).1]
  · exact Bool.noConfusion (hclosed.symm.trans hopen)

/-- The next status line is read, the connection is released, and the response
completes. -/
theorem Delimited.keeping (hcurrent : w.completions.current r = a)
    (hknown : a < w.completions.nattempts) (hpending : (w.completions.attempts a).outcome = none)
    (hreads : (w.conns c).reads = []) (hnext : (w.conns c).input ++ wire = next)
    (v : Verdict) :
    Delimited c a (w.responses r).statusCode next ⟨((w.handleResponse c).release c).settleUnlessReady
      c r (.done (((w.handleResponse c).release c).responses r).statusCode) v, wire⟩ := by
  obtain ⟨hreleased, hkept, hresponses⟩ := (w.handleResponse c).stream_release c c
  obtain ⟨houtcome, hstream⟩ := ((w.handleResponse c).release c).settleUnlessReady_settles c c
    (r := r) (a := a) (by rw [hkept]; exact hcurrent) (by rw [hkept]; exact hknown)
    (by rw [hkept]; exact hpending)
    (.done (((w.handleResponse c).release c).responses r).statusCode) v
  rw [hreleased] at hstream
  have hhandled : ((w.handleResponse c).conns c).stream = ((w.conns c).closed, (w.conns c).input,
      [{ point := .status, result := (find crlf (w.conns c).input).map .ok }]) := by
    simp [World.handleResponse, World.readDelimited, World.modConn, Conn.stream, hreads]
  rw [hhandled, Conn.stream, Prod.mk.injEq, Prod.mk.injEq] at hstream
  obtain ⟨-, hinput, hread⟩ := hstream
  refine ⟨?_, ?_, fun _ => ?_⟩
  · rw [houtcome, hresponses]
    rfl
  · rw [← hnext, Feed.unread, hinput]
  · rw [hinput]
    exact hread

end Feed

/-- **The end of a response**: the attempt is settled with the status, and nothing is
read any more, or the next status line. -/
theorem AtRest.extractNextBodyChunk {c : ConnId} {r : RespId} {a : AttemptId} {w : World}
    {wire next : Bytes} (h : AtRest c r a wire next w) (data : Bytes) (v : Verdict) :
    Feed.Delimited c a (w.responses r).statusCode next ⟨w.extractNextBodyChunk c data v, wire⟩ := by
  simp only [World.extractNextBodyChunk, h.receiving.res]
  generalize hu : (if (w.conns c).transferMode = .length then
      w.store c r ((w.responses r).setBody data) else w) = u
  have hsame : u.conns = w.conns ∧ u.completions = w.completions ∧
      (u.responses r).statusCode = (w.responses r).statusCode := by
    rw [← hu]
    split
    · exact ⟨rfl, rfl, by simp [World.store]⟩
    · exact ⟨rfl, rfl, rfl⟩
  obtain ⟨hconns, hcompletions, hstatus⟩ := hsame
  have hcurrent : u.completions.current r = a := hcompletions ▸ h.receiving.current
  have hknown : a < u.completions.nattempts := hcompletions ▸ h.receiving.known
  have hpending : (u.completions.attempts a).outcome = none := hcompletions ▸ h.receiving.pending
  let cleared := (u.modConn c fun k => { k with res := none }).note (.finished c r)
  have hinput : (cleared.conns c).input ++ wire = next := by
    simpa [cleared, World.note, World.modConn, hconns] using h.rest
  have hnone : (cleared.conns c).reads = [] := by
    simpa [cleared, World.note, World.modConn, hconns] using h.reads
  rw [← hstatus]
  split
  · exact .closing (w := cleared) hcurrent hknown hpending hinput _ v
  · exact .keeping (w := cleared) hcurrent hknown hpending hnone hinput v

end AsioProtocols
