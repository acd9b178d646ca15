import AsioProtocols.Http.Delimited

/-!
# The sizes of bodies

A chunk-size line and the value of `Content-Length` go through `std::stoi`, and
the `int` becomes a `size_t`. What it should come to is a read of as many bytes
as the digits in front denote (`World.chunkOfSize`, `World.bodyOfLength`), and a
text that denotes no size should fail the response.

- A text that `stoi` refuses throws out of the handler, and nothing fails the
  attempt; so every number from `2^31` on is refused in the wrong way.
- A text that does not begin with a digit may be read all the same, with white
  space or a sign in front. A negative number becomes a huge size.
- `0x` in front of hexadecimal digits is skipped, although the digits in front
  denote nought.

**`bodySizes_iff`** has the exact conditions. The proofs compare what is
outstanding after the handler: each of the ways on leaves its own mark there, or
settles the attempt.
-/

namespace AsioProtocols

open Function

/-- The text begins with digits, and these denote `n`. -/
def Denotes (base : Nat) (text : Bytes) (n : Nat) : Prop :=
  leadingDigits base text ≠ [] ∧ ofDigits base (leadingDigits base text) = n

/-- The range of `size_t`. -/
def sizeLimit : Nat := 18446744073709551616

namespace World

/-- What a body of `n` bytes leads to. -/
def bodyOfLength (w : World) (c : ConnId) (n : Nat) (v : Verdict) : World :=
  (w.modConn c fun k => { k with expectedBytes := n, transferMode := .length }).read c n .body
    fun w data => w.onBody c data v

/-- Attempt `a` has failed. -/
def Failed (w : World) (a : AttemptId) : Prop :=
  ∃ err, (w.completions.attempts a).outcome = some (.failed err)

/-- The chunk-size line `text` is read as it should be: a number in the range of
`size_t` is the size of the chunk, of whose bytes all but the separator are
appended; any other text fails the attempt. -/
structure ChunkSizeRight (w : World) (c : ConnId) (r : RespId) (a : AttemptId) (text : Bytes)
    (v : Verdict) : Prop where
  exact : ∀ n, Denotes 16 text n → n < sizeLimit → w.onChunkSize c text v = w.chunkOfSize c n v
  appended : ∀ n (u : World) (data : Bytes), Denotes 16 text n → data.length = n + 2 →
    (u.conns c).res = some r → (u.conns c).transferMode = .chunked →
    ((u.onChunkData c data v).responses r).body = (u.responses r).body ++ data.take n
  refused : (∀ n, Denotes 16 text n → ¬ n < sizeLimit) → (w.onChunkSize c text v).Failed a

/-- `Content-Length: text` is read as it should be: a number in the range of
`size_t` is the number of bytes that become the body (and stay it if the
response is accepted); any other text fails the attempt. -/
structure LengthRight (w : World) (c : ConnId) (r : RespId) (a : AttemptId) (text : Bytes)
    (v : Verdict) : Prop where
  exact : ∀ n, Denotes 10 text n → n < sizeLimit → w.headersEnd c r v = w.bodyOfLength c n v
  delivered : ∀ (u : World) (data : Bytes), (u.conns c).res = some r →
    (u.conns c).transferMode = .length → ((u.onBody c data .accept).responses r).body = data
  refused : (∀ n, Denotes 10 text n → ¬ n < sizeLimit) → (w.headersEnd c r v).Failed a

/-! ## What the handlers leave -/

section handlers

variable {w : World} {c : ConnId} {r : RespId} {a : AttemptId} {wire rest : Bytes} {v : Verdict}

theorem reads_readDelimited (hreads : (w.conns c).reads = []) (p : Point) :
    ((w.readDelimited c p).conns c).reads =
      [{ point := p, result := (find crlf (w.conns c).input).map .ok }] := by
  simp [readDelimited, modConn, hreads]

/-- All but the separator is appended. -/
theorem body_onChunkData (hres : (w.conns c).res = some r)
    (hmode : (w.conns c).transferMode = .chunked) {n : Nat} {data : Bytes}
    (hlen : data.length = n + 2) :
    ((w.onChunkData c data v).responses r).body = (w.responses r).body ++ data.take n := by
  rw [onChunkData_eq hres hmode, dropCrlf, if_neg (by omega), hlen, Nat.add_sub_cancel]
  show ((w.store c r _).responses r).body = _
  simp [store, Message.appendBody]

/-- A read of the data of a chunk settles nothing, and behind it that read or
the one of the next size is outstanding. -/
theorem readChunk_spec (hres : (w.conns c).res = some r) (hreads : (w.conns c).reads = [])
    (hmode : (w.conns c).transferMode = .chunked) (wanted : Nat) :
    let w' := w.read c wanted .chunkData fun w data => w.onChunkData c data v
    w'.completions = w.completions ∧
      ∃ op, (w'.conns c).reads = [op] ∧ (op.point = .chunkData ∨ op.point = .chunkSize) := by
  intro w'
  by_cases hshort : (w.conns c).input.length < wanted
  · have he : w' = w.modConn c fun k =>
        { k with reads := k.reads ++ [{ point := .chunkData, wanted := some wanted }] } :=
      if_pos hshort
    rw [he]
    exact ⟨rfl, _, by simp [modConn, hreads]; rfl, .inl rfl⟩
  · let u := w.modConn c fun k => { k with input := k.input.drop wanted }
    have he : w' = u.onChunkData c ((w.conns c).input.take wanted) v := if_neg hshort
    have hures : (u.conns c).res = some r := by simpa [u, modConn] using hres
    have humode : (u.conns c).transferMode = .chunked := by simpa [u, modConn] using hmode
    rw [he, onChunkData_eq hures humode]
    exact ⟨rfl, _, reads_readDelimited (by simpa [u, extendTimer, store, modConn] using hreads) _,
      .inr rfl⟩

theorem chunkOfSize_spec (hres : (w.conns c).res = some r) (hreads : (w.conns c).reads = [])
    (hmode : (w.conns c).transferMode = .chunked) (n : Nat) :
    ∃ op, ((w.chunkOfSize c n v).conns c).reads = [op] ∧ (op.point = .last ↔ n = 0) := by
  unfold chunkOfSize
  split
  · rename_i hzero
    refine ⟨_, reads_readDelimited (by simpa [extendTimer, modConn] using hreads) _, ?_⟩
    exact ⟨fun _ => hzero, fun _ => rfl⟩
  · rename_i hpos
    obtain ⟨-, op, hop, hpoint⟩ := readChunk_spec (c := c) (r := r) (v := v)
      (w := (w.extendTimer c).modConn c fun k => { k with expectedBytes := n })
      (by simpa [extendTimer, modConn] using hres) (by simpa [extendTimer, modConn] using hreads)
      (by simpa [extendTimer, modConn] using hmode) (n + 2)
    refine ⟨op, hop, fun hlast => ?_, fun hzero => absurd hzero hpos⟩
    rcases hpoint with hpoint | hpoint
    · rw [hpoint] at hlast
      cases hlast
    · rw [hpoint] at hlast
      cases hlast

/-- No chunk-size line settles anything. -/
theorem completions_onChunkSize (hres : (w.conns c).res = some r) (hreads : (w.conns c).reads = [])
    (hmode : (w.conns c).transferMode = .chunked) (text : Bytes) :
    (w.onChunkSize c text v).completions = w.completions := by
  unfold onChunkSize
  cases hstoi : stoi 16 text with
  | error e => rfl
  | ok n =>
    dsimp only
    split
    · exact (readChunk_spec (c := c) (r := r) (w := (w.extendTimer c).modConn c fun k =>
        { k with expectedBytes := toSize n }) (by simpa [extendTimer, modConn] using hres)
        (by simpa [extendTimer, modConn] using hreads)
        (by simpa [extendTimer, modConn] using hmode) _).1
    · rfl

end handlers

/-! ## Chunk sizes -/

variable {w : World} {c : ConnId} {r : RespId} {a : AttemptId} {wire rest : Bytes}

/-- **A chunk-size line is read as it should be** exactly if it begins with
digits that denote a number below `2^31`, and a `0x` there makes no difference
to it. -/
theorem chunkSizeRight_iff (h : AtRest c r a wire rest w)
    (hmode : (w.conns c).transferMode = .chunked) (text : Bytes) (v : Verdict) :
    ChunkSizeRight w c r a text v ↔
      leadingDigits 16 text ≠ [] ∧ ofDigits 16 (leadingDigits 16 text) < 2147483648 ∧
        ofDigits 16 (leadingDigits 16 (dropHexPrefix 16 text)) =
          ofDigits 16 (leadingDigits 16 text) := by
  have hres := h.receiving.res
  have hunsettled : ¬ (w.onChunkSize c text v).Failed a := by
    rintro ⟨err, herr⟩
    rw [completions_onChunkSize hres h.reads hmode, h.receiving.pending] at herr
    cases herr
  constructor
  · intro hright
    have hne : leadingDigits 16 text ≠ [] := by
      intro hnil
      exact hunsettled (hright.refused fun n hn => absurd hnil hn.1)
    have hlimit : ofDigits 16 (leadingDigits 16 text) < sizeLimit := by
      by_contra hlarge
      exact hunsettled (hright.refused fun n hn => hn.2 ▸ hlarge)
    have hexact := hright.exact _ ⟨hne, rfl⟩ hlimit
    obtain ⟨op, hop, hlast⟩ := chunkOfSize_spec hres h.reads hmode
      (ofDigits 16 (leadingDigits 16 text)) (v := v)
    have hstoi := stoi_of_leadingDigits hne
    by_cases hsmall : ofDigits 16 (leadingDigits 16 (dropHexPrefix 16 text)) < 2147483648
    · rw [if_pos hsmall] at hstoi
      rw [onChunkSize_of_stoi hstoi hsmall] at hexact
      obtain ⟨op', hop', hlast'⟩ := chunkOfSize_spec hres h.reads hmode
        (ofDigits 16 (leadingDigits 16 (dropHexPrefix 16 text))) (v := v)
      rw [hexact, hop] at hop'
      cases hop'
      -- the line is the last one for both numbers or for neither
      rcases dropHexPrefix_eq_or text with hsame | hzero
      · rw [hsame] at hsmall ⊢
        exact ⟨hne, hsmall, rfl⟩
      · have hzero' := hlast'.mp (hlast.mpr hzero)
        exact ⟨hne, by omega, by omega⟩
    · rw [if_neg hsmall] at hstoi
      have hescape : w.onChunkSize c text v = (w.extendTimer c).escape c (.logicError .outOfRange) := by
        simp only [onChunkSize, hstoi]
      have hnone : ((w.onChunkSize c text v).conns c).reads = [] := by
        rw [hescape]
        simpa [escape, note, extendTimer, modConn] using h.reads
      rw [hexact, hop] at hnone
      cases hnone
  · rintro ⟨hne, hsmall, hsame⟩
    have hstoi := stoi_of_leadingDigits hne
    rw [hsame, if_pos hsmall] at hstoi
    refine ⟨?_, ?_, ?_⟩
    · rintro n ⟨-, rfl⟩ -
      exact onChunkSize_of_stoi hstoi hsmall
    · intro n u data _ hlen hures humode
      exact body_onChunkData hures humode hlen
    · intro hnot
      refine absurd ?_ (hnot _ ⟨hne, rfl⟩)
      unfold sizeLimit
      omega

/-! ## Content-Length -/

theorem responses_close (w : World) (c : ConnId) : (w.close c).responses = w.responses := by
  rcases hclosed : (w.conns c).closed with _ | _
  · obtain ⟨valid, he⟩ := w.close_of_open c hclosed
    rw [he]
  · rw [w.close_of_closed c hclosed]

/-- An accepted settling leaves the responses alone. -/
theorem responses_settleUnlessReady (w : World) (c : ConnId) (r : RespId) (o : Outcome Nat) :
    (w.settleUnlessReady c r o .accept).responses = w.responses := by
  rcases w.settleUnlessReady_cases c r o .accept with ⟨-, he⟩ | ⟨-, he⟩
  · rw [he]
  · rw [he]
    refine List.foldlRecOn (motive := fun u : World => u.responses = w.responses) _ _ rfl ?_
    rintro u hu ⟨s, n⟩ -
    refine u.completionHandler_cases (P := fun u => u.responses = w.responses) _ o .accept s n
      (fun _ _ _ _ => hu) (fun _ => hu) fun hretry => ?_
    cases hretry

theorem body_setBody (m : Message) (data : Bytes) : (m.setBody data).body = data := by
  unfold Message.setBody Message.setHeader
  split <;> rfl

/-- The bytes of the body are the body. -/
theorem body_onBody (hres : (w.conns c).res = some r) (hmode : (w.conns c).transferMode = .length)
    (data : Bytes) : ((w.onBody c data .accept).responses r).body = data := by
  have hres' : ((w.extendTimer c).conns c).res = some r := by simpa using hres
  have hmode' : ((w.extendTimer c).conns c).transferMode = .length := by
    simpa [extendTimer, modConn] using hmode
  simp only [onBody, extractNextBodyChunk, hres', hmode', if_true]
  split
  · rw [responses_close, responses_settleUnlessReady]
    simp [note, modConn, store, body_setBody]
  · rw [responses_settleUnlessReady, (stream_release _ c c).2.2]
    simp [handleResponse, readDelimited, note, modConn, store, body_setBody]

/-- A counted body is waited for, or it completes the response. -/
theorem bodyOfLength_spec (h : AtRest c r a wire rest w) (n : Nat) (v : Verdict) :
    (((w.bodyOfLength c n v).conns c).reads ≠ [] ∧
      ((w.bodyOfLength c n v).completions.attempts a).outcome = none) ∨
    ∃ status, ((w.bodyOfLength c n v).completions.attempts a).outcome = some (.done status) := by
  have hcounted := h.parser .length n
  by_cases hshort : (w.conns c).input.length < n
  · left
    have he : w.bodyOfLength c n v = (w.modConn c fun k =>
        { k with expectedBytes := n, transferMode := .length }).modConn c fun k =>
          { k with reads := k.reads ++ [{ point := .body, wanted := some n }] } :=
      if_pos (by simpa [modConn] using hshort)
    rw [he]
    exact ⟨by simp [modConn], h.receiving.pending⟩
  · right
    have he : w.bodyOfLength c n v = ((w.modConn c fun k =>
        { k with expectedBytes := n, transferMode := .length }).modConn c fun k =>
          { k with input := k.input.drop n }).onBody c ((w.conns c).input.take n) v := by
      refine (if_neg (by simpa [modConn] using hshort)).trans ?_
      simp [modConn]
    have htaken : AtRest c r a wire ((w.conns c).input.drop n ++ wire)
        ((w.modConn c fun k => { k with expectedBytes := n, transferMode := .length }).modConn c
          fun k => { k with input := k.input.drop n }) := by
      refine ⟨?_, ?_, ?_⟩
      · exact hcounted.receiving.of_same rfl (by simp [modConn]) (by simp [modConn]) rfl
      · simpa [modConn] using h.reads
      · simp [modConn]
    rw [he]
    exact ⟨_, (htaken.extendTimer.extractNextBodyChunk ((w.conns c).input.take n) v).outcome⟩

theorem headersEnd_of_stoi {text : Bytes} {n : Int} {v : Verdict}
    (hlength : (w.responses r).headerValue (ascii "Content-Length") = some text)
    (hstoi : stoi 10 text = .ok n) : w.headersEnd c r v = w.bodyOfLength c (toSize n) v := by
  have hmode : ((w.modConn c fun k =>
      { k with expectedBytes := toSize n, transferMode := .length }).conns c).transferMode =
      .length := by simp [modConn]
  have hexpected : ((w.modConn c fun k =>
      { k with expectedBytes := toSize n, transferMode := .length }).conns c).expectedBytes =
      toSize n := by simp [modConn]
  simp only [headersEnd, hlength, hstoi]
  rw [readNextBodyChunk, hmode, hexpected]
  rfl

theorem headersEnd_of_error {text : Bytes} {e : StoiError} {v : Verdict}
    (hlength : (w.responses r).headerValue (ascii "Content-Length") = some text)
    (hstoi : stoi 10 text = .error e) : w.headersEnd c r v = w.escape c (.logicError e) := by
  simp only [headersEnd, hlength, hstoi]

/-- No value of `Content-Length` fails the attempt. -/
theorem headersEnd_not_failed (h : AtRest c r a wire rest w) {text : Bytes} (v : Verdict)
    (hlength : (w.responses r).headerValue (ascii "Content-Length") = some text) :
    ¬ (w.headersEnd c r v).Failed a := by
  rintro ⟨err, herr⟩
  cases hstoi : stoi 10 text with
  | error e =>
    rw [headersEnd_of_error hlength hstoi] at herr
    have hpending := h.receiving.pending
    simp [escape, note, hpending] at herr
  | ok n =>
    rw [headersEnd_of_stoi hlength hstoi] at herr
    rcases bodyOfLength_spec h (toSize n) v with ⟨-, hnone⟩ | ⟨status, hdone⟩
    · rw [hnone] at herr
      cases herr
    · rw [hdone] at herr
      cases herr

/-- **`Content-Length` is read as it should be** exactly if it begins with
digits that denote a number below `2^31`. -/
theorem lengthRight_iff (h : AtRest c r a wire rest w) {text : Bytes} (v : Verdict)
    (hlength : (w.responses r).headerValue (ascii "Content-Length") = some text) :
    LengthRight w c r a text v ↔
      leadingDigits 10 text ≠ [] ∧ ofDigits 10 (leadingDigits 10 text) < 2147483648 := by
  have hunsettled := headersEnd_not_failed h v hlength
  constructor
  · intro hright
    have hne : leadingDigits 10 text ≠ [] := by
      intro hnil
      exact hunsettled (hright.refused fun n hn => absurd hnil hn.1)
    refine ⟨hne, ?_⟩
    have hlimit : ofDigits 10 (leadingDigits 10 text) < sizeLimit := by
      by_contra hlarge
      exact hunsettled (hright.refused fun n hn => hn.2 ▸ hlarge)
    by_contra hlarge
    -- the exception leaves nothing outstanding, and the attempt unsettled
    have hstoi := stoi_of_leadingDigits hne
    rw [dropHexPrefix_of_ne (by decide), if_neg hlarge] at hstoi
    have hexact := hright.exact _ ⟨hne, rfl⟩ hlimit
    rw [headersEnd_of_error hlength hstoi] at hexact
    rcases bodyOfLength_spec h (ofDigits 10 (leadingDigits 10 text)) v with
      ⟨hreads, -⟩ | ⟨status, hdone⟩
    · rw [← hexact] at hreads
      exact hreads h.reads
    · rw [← hexact] at hdone
      have hpending := h.receiving.pending
      simp [escape, note, hpending] at hdone
  · rintro ⟨hne, hsmall⟩
    have hstoi := stoi_of_leadingDigits hne
    rw [dropHexPrefix_of_ne (by decide), if_pos hsmall] at hstoi
    refine ⟨?_, ?_, ?_⟩
    · rintro n ⟨-, rfl⟩ -
      rw [headersEnd_of_stoi hlength hstoi, toSize_of_nat (by omega)]
    · intro u data hures humode
      exact body_onBody hures humode data
    · intro hnot
      refine absurd ?_ (hnot _ ⟨hne, rfl⟩)
      unfold sizeLimit
      omega

/-- **The sizes that are read as they should be**, on a chunk-size line and in
`Content-Length`. -/
theorem bodySizes_iff (h : AtRest c r a wire rest w) (text : Bytes) (v : Verdict) :
    ((w.conns c).transferMode = .chunked → (ChunkSizeRight w c r a text v ↔
      leadingDigits 16 text ≠ [] ∧ ofDigits 16 (leadingDigits 16 text) < 2147483648 ∧
        ofDigits 16 (leadingDigits 16 (dropHexPrefix 16 text)) =
          ofDigits 16 (leadingDigits 16 text))) ∧
    ((w.responses r).headerValue (ascii "Content-Length") = some text → (LengthRight w c r a text v ↔
      leadingDigits 10 text ≠ [] ∧ ofDigits 10 (leadingDigits 10 text) < 2147483648)) :=
  ⟨fun hmode => chunkSizeRight_iff h hmode text v, fun hlength => lengthRight_iff h v hlength⟩

/-- A response with the one header `Content-Length: text`. -/
def sizedResponse (text : Bytes) : Response :=
  { request := {}, headers := [Header.make (ascii "Content-Length") text] }

theorem atRest_headersRead (m : Response) :
    AtRest 0 0 0 [] [] (headersRead m []) :=
  ⟨receiving_headersRead m [], rfl, rfl⟩

/-- A chunk of 26 bytes, and a body of 7. -/
theorem bodySizes_small :
    ChunkSizeRight (headersRead (sizedResponse (ascii "7")) []) 0 0 0 (ascii "1A;x") .accept ∧
      LengthRight (headersRead (sizedResponse (ascii "7")) []) 0 0 0 (ascii "7") .accept := by
  constructor
  · exact ((bodySizes_iff (atRest_headersRead _) (ascii "1A;x") .accept).1 rfl).mpr (by decide)
  · exact ((bodySizes_iff (atRest_headersRead _) (ascii "7") .accept).2 (by decide)).mpr
      (by decide)

/-- A chunk of -2 bytes is read, and a body of `2^31` bytes is not. -/
theorem bodySizes_wrong :
    ¬ ChunkSizeRight (headersRead (sizedResponse []) []) 0 0 0 (ascii "-2") .accept ∧
      ¬ LengthRight (headersRead (sizedResponse (ascii "2147483648")) []) 0 0 0
        (ascii "2147483648") .accept := by
  constructor
  · intro h
    exact absurd ((chunkSizeRight_iff (atRest_headersRead _) rfl _ _).mp h) (by decide)
  · intro h
    exact absurd ((lengthRight_iff (atRest_headersRead _) _ (by decide)).mp h) (by decide)

end World

end AsioProtocols
