import AsioProtocols.Http.BodyReads

/-!
# Reading a body to its end

From the end of the headers on, a connection that has chosen a delimiter is at some
part of the body (`InBody`), until the response is `Delimited`. A socket read leaves
the part as it is, and the handler of a completed read goes on to another part or to
the end (`InBody.handle`). **`delimits_iff`** says for which responses the choice is the
prescribed one.
-/

namespace AsioProtocols

open Function

/-- Where a connection is in a body: before counted bytes, before the size of a chunk,
before the data of one, behind the last chunk. -/
inductive BodyPart
  | counted (text : Bytes)
  | size (chunks : List (Bytes × Bytes)) (zero : Bytes)
  | data (text : Bytes) (chunks : List (Bytes × Bytes)) (zero : Bytes)
  | last

namespace BodyPart

def Fits : BodyPart → Prop
  | .counted text => text ≠ []
  | .size chunks zero | .data _ chunks zero => Sized chunks zero
  | .last => True

/-- The callback of the read there. -/
def point : BodyPart → Point
  | .counted _ => .body
  | .size _ _ => .chunkSize
  | .data _ _ _ => .chunkData
  | .last => .last

/-- How much it asks for. -/
def wanted : BodyPart → Option Nat
  | .counted text => some text.length
  | .data text _ _ => some (text.length + 2)
  | .size _ _ | .last => none

def mode : BodyPart → Transfer
  | .counted _ => .length
  | .size _ _ | .data _ _ _ | .last => .chunked

/-- What is left of the body. -/
def bytes : BodyPart → Bytes
  | .counted text => text
  | .size chunks zero => (Framing.chunked chunks zero).bytes
  | .data text chunks zero => text ++ crlf ++ (Framing.chunked chunks zero).bytes
  | .last => crlf

end BodyPart

/-- **The connection is at `part` of a body**, behind which is `next`. -/
structure InBody (c : ConnId) (r : RespId) (a : AttemptId) (status : Nat) (next : Bytes)
    (part : BodyPart) (f : Feed) : Prop where
  receiving : Receiving c r a f.world
  status : (f.world.responses r).statusCode = status
  fits : part.Fits
  reads : ∃ op, (f.world.conns c).reads = [op] ∧ op.point = part.point ∧ op.wanted = part.wanted ∧
    op.result = op.completion (f.world.conns c).input
  mode : (f.world.conns c).transferMode = part.mode
  rest : f.unread c = part.bytes ++ next

/-- At some part of the body, or behind it; at most `n` bytes are unread. -/
inductive Proceeds (c : ConnId) (r : RespId) (a : AttemptId) (status : Nat) (next : Bytes) (n : Nat)
    (f : Feed) : Prop
  | inBody (part : BodyPart) (h : InBody c r a status next part f) (hn : (f.unread c).length ≤ n)
  | done (h : Feed.Delimited c a status next f) (hn : next.length ≤ n)

variable {c : ConnId} {r : RespId} {a : AttemptId} {status n : Nat} {wire rest next : Bytes}
  {w : World} {f f' : Feed} {part : BodyPart} {v : Verdict}

theorem InBody.proceeds (h : InBody c r a status next part f)
    (hn : (part.bytes ++ next).length ≤ n) : Proceeds c r a status next n f :=
  .inBody part h (h.rest ▸ hn)

/-- A part of a body is a read and what it is for. -/
theorem InBody.atRead (h : InBody c r a status next part f) :
    AtRead c r a status part.mode part.point part.wanted (part.bytes ++ next) f := by
  obtain ⟨op, hreads, hpoint, hwanted, hresult⟩ := h.reads
  refine ⟨h.receiving, h.status, h.mode, ?_, h.rest⟩
  rw [hreads, ← hpoint, ← hwanted]
  exact congrArg (fun result => [{ op with result := result }]) hresult

theorem AtRead.inBody
    (h : AtRead c r a status part.mode part.point part.wanted (part.bytes ++ next) f)
    (hfits : part.Fits) : InBody c r a status next part f :=
  ⟨h.receiving, h.status, hfits, ⟨_, h.reads, rfl, rfl, rfl⟩, h.mode, h.rest⟩

theorem AtRead.proceeds (part : BodyPart)
    (h : AtRead c r a status part.mode part.point part.wanted (part.bytes ++ next) f)
    (hfits : part.Fits) (hn : (part.bytes ++ next).length ≤ n) : Proceeds c r a status next n f :=
  (h.inBody hfits).proceeds hn

namespace HexSize

variable {text : Bytes} {k : Nat}

theorem stoi (h : HexSize text k) : AsioProtocols.stoi 16 text = .ok (k : Nat) := by
  have hstoi := stoi_of_digits (Nat.le_refl 16) h.nonempty h.digits (by rw [h.value]; exact h.small)
  rwa [h.value] at hstoi

theorem oneLine (h : HexSize text k) : find crlf text = none := find_crlf_of_allDigits h.digits

end HexSize

theorem Sized.tail {chunk : Bytes × Bytes} {chunks : List (Bytes × Bytes)} {zero : Bytes}
    (h : Sized (chunk :: chunks) zero) : Sized chunks zero :=
  ⟨fun e he => h.chunks e (List.mem_cons_of_mem chunk he), h.zero⟩

theorem BodyPart.bytes_size_nil (zero next : Bytes) :
    (BodyPart.size [] zero).bytes ++ next = zero ++ crlf ++ (crlf ++ next) := by
  simp [bytes, Framing.bytes, chunkBytes]

theorem BodyPart.bytes_size_cons (chunk : Bytes × Bytes) (chunks : List (Bytes × Bytes))
    (zero next : Bytes) : (BodyPart.size (chunk :: chunks) zero).bytes ++ next =
      chunk.1 ++ crlf ++ ((BodyPart.data chunk.2 chunks zero).bytes ++ next) := by
  simp [bytes, Framing.bytes, chunkBytes]

/-! ## One step -/

namespace InBody

/-- A socket read moves bytes from the socket to the buffer. -/
theorem deliver (h : InBody c r a status next part f) {k : Nat}
    (hstep : f.step c (.deliver k) = some f') :
    InBody c r a status next part f' ∧ f'.left c < f.left c := by
  obtain ⟨h', hlt⟩ := h.atRead.deliver hstep
  exact ⟨h'.inBody h.fits, hlt⟩

/-- **The handler of a completed read** goes on to another part, or to the end. -/
theorem handle (h : InBody c r a status next part f) (hstep : f.step c (.handle v) = some f') :
    f'.wire = f.wire ∧ ∃ n < (f.unread c).length, Proceeds c r a status next n f' := by
  rw [h.rest]
  cases part with
  | counted text =>
    obtain ⟨u, hu, rfl⟩ := h.atRead.handleData rfl hstep
    refine ⟨rfl, next.length, ?_, .done (hu.extendTimer.toAtBody.finished text) (Nat.le_refl _)⟩
    have hpos := List.length_pos_iff.mpr (show text ≠ [] from h.fits)
    simp only [BodyPart.bytes, List.length_append]
    omega
  | data text chunks zero =>
    have hread : AtRead c r a status .chunked .chunkData (some (text ++ crlf).length)
        ((BodyPart.data text chunks zero).bytes ++ next) f := by
      rw [List.length_append]
      exact h.atRead
    obtain ⟨u, hu, rfl⟩ := hread.handleData (List.append_assoc _ _ _) hstep
    refine ⟨rfl, _, ?_, AtRead.proceeds (.size chunks zero) (hu.onChunkData _) h.fits
      (Nat.le_refl _)⟩
    simp only [BodyPart.bytes, List.length_append, length_crlf]
    omega
  | last =>
    obtain ⟨u, hu, rfl⟩ := h.atRead.handleLine
      (show BodyPart.last.bytes ++ next = [] ++ crlf ++ next from rfl) rfl hstep
    refine ⟨rfl, next.length, ?_, .done (hu.extendTimer.toAtBody.finished []) (Nat.le_refl _)⟩
    simp only [BodyPart.bytes, List.length_append, length_crlf]
    omega
  | size chunks zero =>
    have hsized : Sized chunks zero := h.fits
    cases chunks with
    | nil =>
      have hbytes := BodyPart.bytes_size_nil zero next
      obtain ⟨u, hu, rfl⟩ := h.atRead.handleLine hbytes hsized.zero.oneLine hstep
      refine ⟨rfl, _, ?_, AtRead.proceeds .last (hu.onChunkSize_zero hsized.zero.stoi) trivial
        (Nat.le_refl _)⟩
      rw [hbytes]
      simp only [BodyPart.bytes, List.length_append, length_crlf]
      omega
    | cons chunk chunks =>
      have hbytes := BodyPart.bytes_size_cons chunk chunks zero next
      obtain ⟨hsize, hne⟩ := hsized.chunks chunk List.mem_cons_self
      obtain ⟨u, hu, rfl⟩ := h.atRead.handleLine hbytes hsize.oneLine hstep
      have hlen : (chunk.2 ++ crlf).length = chunk.2.length + 2 := List.length_append
      rw [BodyPart.bytes, List.append_assoc (chunk.2 ++ crlf)] at hu
      -- the data may be in the buffer with the size
      rcases hu.onChunkSize (v := v) hsize.stoi hsize.small hne with hread | hread
      · rw [hlen, ← List.append_assoc (chunk.2 ++ crlf)] at hread
        refine ⟨rfl, _, ?_, AtRead.proceeds (.data chunk.2 chunks zero) hread hsized.tail
          (Nat.le_refl _)⟩
        rw [hbytes]
        simp only [List.length_append, length_crlf]
        omega
      · refine ⟨rfl, _, ?_, AtRead.proceeds (.size chunks zero) hread hsized.tail
          (Nat.le_refl _)⟩
        rw [hbytes]
        simp only [BodyPart.bytes, List.length_append, length_crlf]
        omega

/-- What a part waits for is in the body. -/
theorem ahead (hfits : part.Fits) (next : Bytes) :
    ReadOp.completion { point := part.point, wanted := part.wanted } (part.bytes ++ next) ≠ none := by
  cases part with
  | counted text => exact ReadOp.completion_data text next
  | last => exact ReadOp.completion_line (show find crlf [] = none from rfl) next
  | data text chunks zero =>
    have hthere : ReadOp.completion { point := .chunkData, wanted := some (text ++ crlf).length }
        (text ++ crlf ++ ((BodyPart.size chunks zero).bytes ++ next)) ≠ none :=
      ReadOp.completion_data (text ++ crlf) _
    rw [List.length_append, ← List.append_assoc (text ++ crlf)] at hthere
    exact hthere
  | size chunks zero =>
    have hsized : Sized chunks zero := hfits
    cases chunks with
    | nil =>
      rw [BodyPart.bytes_size_nil]
      exact ReadOp.completion_line hsized.zero.oneLine _
    | cons chunk chunks =>
      rw [BodyPart.bytes_size_cons]
      exact ReadOp.completion_line (hsized.chunks chunk List.mem_cons_self).1.oneLine _

/-- The handler runs if its read has completed; otherwise what it waits for is still in
the socket. -/
theorem possible (h : InBody c r a status next part f) : ∃ move f', f.step c move = some f' :=
  h.atRead.possible (ahead h.fits next)

end InBody

/-- **A body is read to its end.** -/
theorem Proceeds.concludes (h : Proceeds c r a status next n f) :
    Concludes (Feed.step c) (Feed.settled a) (Feed.Delimited c a status next) f := by
  refine Concludes.of_measure (fun f => ∃ n, Proceeds c r a status next n f) (Feed.left c) ?_ ?_ ?_
    ⟨n, h⟩
  · rintro f ⟨n, h⟩ hsettled
    cases h with
    | inBody part h hn =>
      exact absurd h.receiving.pending hsettled
    | done h hn => exact h
  · rintro f ⟨n, h⟩ hunsettled
    cases h with
    | inBody part h hn => exact h.possible
    | done h hn => exact absurd h.settled hunsettled
  · rintro f move f' ⟨n, h⟩ hunsettled hstep
    cases h with
    | done h hn => exact absurd h.settled hunsettled
    | inBody part h hn =>
      cases move with
      | deliver k =>
        obtain ⟨h', hlt⟩ := h.deliver hstep
        exact ⟨⟨_, .inBody part h' (Nat.le_refl _)⟩, .inr hlt⟩
      | handle v =>
        obtain ⟨hwire, k, hlt, h'⟩ := h.handle hstep
        refine ⟨⟨k, h'⟩, .inr ?_⟩
        have hk : (f'.unread c).length ≤ k := by
          cases h' with
          | inBody part h' hk => exact hk
          | done h' hk => rwa [h'.unread]
        simp only [Feed.left, hwire]
        omega

/-! ## The choice at the end of the headers -/

/-- What a prescribed length means to `stoi`. -/
theorem Response.stoi_of_prescribed {m : Response} {k : Nat}
    (h : m.prescribed = some (.length k)) :
    ∃ t, m.headerValue (ascii "Content-Length") = some t ∧
      stoi 10 t = if k < 2147483648 then .ok (k : Nat) else .error .outOfRange := by
  have hdeclared : m.declaredLength = some k := by
    rw [prescribed] at h
    split at h
    · cases h
    · split at h
      · cases h
      · obtain ⟨k', hk, hlength⟩ := Option.map_eq_some_iff.mp h
        cases hlength
        exact hk
  rw [declaredLength] at hdeclared
  split at hdeclared
  · rename_i t ht
    obtain ⟨⟨hne, hall⟩, hk⟩ := Option.ite_none_right_eq_some.mp hdeclared
    obtain rfl := Option.some.inj hk
    exact ⟨t, ht, stoi_allDigits (by decide) hne hall⟩
  · cases hdeclared

/-- `Content-Length` is read as `body.length`. -/
theorem AtRest.headersEnd_length {body t : Bytes} (h : AtRest c r a wire (body ++ next) w)
    (hlength : (w.responses r).headerValue (ascii "Content-Length") = some t)
    (hstoi : stoi 10 t = .ok (body.length : Nat)) (hsmall : body.length < 2147483648) :
    ∃ n, Proceeds c r a (w.responses r).statusCode next n ⟨w.headersEnd c r v, wire⟩ := by
  have hto : toSize (body.length : Nat) = body.length := toSize_of_nat (by omega)
  have hbetween : BetweenReads c r a (w.responses r).statusCode .length wire (body ++ next)
      (w.modConn c fun k => { k with transferMode := .length, expectedBytes := body.length }) :=
    ⟨⟨h.parser .length body.length, rfl⟩, by simp [World.modConn]⟩
  have hexpected : ((w.modConn c fun k =>
      { k with transferMode := .length, expectedBytes := body.length }).conns c).expectedBytes =
      body.length := by simp [World.modConn]
  simp only [World.headersEnd, hlength, hstoi, hto]
  rw [World.readNextBodyChunk, hbetween.mode, hexpected]
  rcases hbetween.read .body fun w data => w.onBody c data v with ⟨hwaits, hne⟩ | ⟨u, hu, he⟩
  · exact ⟨_, AtRead.proceeds (.counted body) hwaits hne (Nat.le_refl _)⟩
  · refine ⟨next.length, .done ?_ (Nat.le_refl _)⟩
    show Feed.Delimited c a _ next ⟨World.read _ c body.length .body _, wire⟩
    rw [he]
    exact hu.extendTimer.toAtBody.finished body

/-- **What is understood is read as prescribed.** -/
theorem Response.delimits_of_understood {m : Response}
    (h : ∀ d, m.prescribed = some d → m.Understood d) : Delimits m := by
  intro d body next wire c r a w v hd hadmits hreceiving hreads hm hrest
  subst hm
  have hat : AtRest c r a wire (body ++ next) w := ⟨hreceiving, hreads, hrest⟩
  have hunderstood := h d hd
  suffices hproceeds : ∃ n, Proceeds c r a (w.responses r).statusCode next n
      ⟨w.headersEnd c r v, wire⟩ by
    obtain ⟨n, hn⟩ := hproceeds
    exact hn.concludes
  cases d with
  | nothing =>
    obtain rfl : body = [] := hadmits
    obtain ⟨t, ht, hstoi⟩ := hunderstood
    exact hat.headersEnd_length ht hstoi (by decide)
  | chunks =>
    obtain ⟨chunks, zero, hsized, rfl⟩ := hadmits
    obtain ⟨hlength, t, ht, hchunked⟩ := hunderstood
    exact ⟨_, AtRead.proceeds (.size chunks zero) (.ofHeadersEnd hat hlength ht hchunked) hsized
      (Nat.le_refl _)⟩
  | length k =>
    obtain rfl : body.length = k := hadmits
    have hsmall : body.length < 2147483648 := hunderstood
    obtain ⟨t, ht, hstoi⟩ := Response.stoi_of_prescribed hd
    rw [if_pos hsmall] at hstoi
    exact hat.headersEnd_length ht hstoi hsmall

/-! ## Where the choice is wrong -/

/-- A connection at the end of the headers of `m`, with `input` in its buffer. -/
def headersRead (m : Response) (input : Bytes) : World :=
  { conns := fun _ => { setup := none, res := some 0, input := input }
    responses := fun _ => m
    completions := { nattempts := 1, nresponses := 1 } }

theorem receiving_headersRead (m : Response) (input : Bytes) :
    Receiving 0 0 0 (headersRead m input) :=
  ⟨rfl, rfl, rfl, rfl, Nat.one_pos, rfl⟩

/-- What `Delimits` says when the body and what is behind it are in the buffer. -/
theorem Delimits.headersRead {m : Response} (h : Delimits m) {d : Delimiter}
    (hd : m.prescribed = some d) {body : Bytes} (hadmits : d.Admits body) :
    Concludes (Feed.step 0) (Feed.settled 0) (Feed.Delimited 0 0 m.statusCode [])
      ⟨(headersRead m body).headersEnd 0 0 .accept, []⟩ :=
  h d body [] [] 0 0 0 _ .accept hd hadmits (receiving_headersRead m body) rfl rfl rfl

/-- Without a completed read, and with nothing in the socket, nothing happens any more,
so the attempt must be settled. -/
theorem Feed.settled_of_stuck {f : Feed} {P : Feed → Prop}
    (h : Concludes (Feed.step 0) (Feed.settled 0) P f) (hwire : f.wire = [])
    (hreads : ∀ op, (f.world.conns 0).reads[0]? = some op → op.result = none) : f.settled 0 := by
  refine (h.of_stuck fun move => ?_).1
  rcases hstep : f.step 0 move with _ | f'
  · rfl
  · obtain ⟨op, hop, hready⟩ := Feed.step_inv hstep
    exact absurd (hreads op hop) (hready hwire)

namespace Delimits

variable {m : Response} {d : Delimiter} {t : Bytes}

/-- A `Content-Length` that `stoi` refuses: the exception leaves the handler. -/
theorem stoi_ok (h : Delimits m) (hd : m.prescribed = some d) (body : Bytes) (hadmits : d.Admits body)
    (hlength : m.headerValue (ascii "Content-Length") = some t) {e : StoiError} :
    stoi 10 t ≠ .error e := by
  intro hstoi
  have hc := h.headersRead hd hadmits
  have hend : (AsioProtocols.headersRead m body).headersEnd 0 0 .accept =
      (AsioProtocols.headersRead m body).escape 0 (.logicError e) := by
    simp only [World.headersEnd, AsioProtocols.headersRead, hlength, hstoi]
  rw [hend] at hc
  exact Feed.settled_of_stuck hc rfl (by simp [AsioProtocols.headersRead, World.escape, World.note]) rfl

/-- A `Content-Length` that `stoi` reads is the length of the body. -/
theorem length_eq (h : Delimits m) (hd : m.prescribed = some d) (body : Bytes)
    (hadmits : d.Admits body)
    (hlength : m.headerValue (ascii "Content-Length") = some t) {k : Int}
    (hstoi : stoi 10 t = .ok k) : body.length = toSize k := by
  have hc := h.headersRead hd hadmits
  let u := (AsioProtocols.headersRead m body).modConn 0 fun k' =>
    { k' with expectedBytes := toSize k, transferMode := .length }
  have hend : (AsioProtocols.headersRead m body).headersEnd 0 0 .accept =
      u.read 0 (toSize k) .body fun w data => w.onBody 0 data .accept := by
    simp only [World.headersEnd, AsioProtocols.headersRead, hlength, hstoi]
    rfl
  rw [hend, World.read] at hc
  have hinput : (u.conns 0).input = body := by simp [u, World.modConn, AsioProtocols.headersRead]
  rw [hinput] at hc
  split at hc
  · -- the connection waits for more than there is
    refine absurd (Feed.settled_of_stuck hc rfl ?_) ?_
    · intro op hop
      simp only [u, World.modConn, AsioProtocols.headersRead, update_self, List.nil_append,
        List.getElem?_cons_zero, Option.some.injEq] at hop
      rw [← hop]
    · exact fun hsettled => hsettled rfl
  · rename_i hlong
    have hat : AtBody 0 0 0 m.statusCode [] (body.drop (toSize k))
        (u.modConn 0 fun k' => { k' with input := k'.input.drop (toSize k) }) := by
      refine ⟨⟨?_, ?_, ?_⟩, rfl⟩
      · exact (receiving_headersRead m body).of_same rfl (by simp [u, World.modConn])
          (by simp [u, World.modConn]) rfl
      · simp [u, World.modConn, AsioProtocols.headersRead]
      · simp [u, World.modConn, AsioProtocols.headersRead]
    have hdone : Feed.Delimited 0 0 m.statusCode (body.drop (toSize k)) ⟨_, []⟩ :=
      hat.extendTimer.finished (v := .accept) (body.take (toSize k))
    have hnext := (hc.of_stop hdone.settled).unread
    have hdrop := congrArg List.length (hdone.unread.symm.trans hnext)
    rw [List.length_drop, List.length_nil] at hdrop
    omega

/-- Without `Content-Length`, a coding that contains `chunked` has the size of a chunk
read, which an empty body does not have. -/
theorem not_chunked (h : Delimits m) (hd : m.prescribed = some d) (hadmits : d.Admits [])
    (hlength : m.headerValue (ascii "Content-Length") = none)
    (hcoding : m.headerValue (ascii "Transfer-Encoding") = some t) :
    find (ascii "chunked") t = none := by
  by_contra hchunked
  have hc := h.headersRead hd hadmits
  let u := (AsioProtocols.headersRead m []).modConn 0 fun k =>
    { k with expectedBytes := 0, transferMode := .chunked }
  have hend : (AsioProtocols.headersRead m []).headersEnd 0 0 .accept =
      u.readDelimited 0 .chunkSize := by
    simp only [World.headersEnd, AsioProtocols.headersRead, hlength, hcoding, if_neg hchunked]
    rfl
  rw [hend] at hc
  refine absurd (Feed.settled_of_stuck hc rfl ?_) ?_
  · intro op hop
    simp only [u, World.readDelimited, World.modConn, AsioProtocols.headersRead, update_self,
      List.nil_append, List.getElem?_cons_zero, Option.some.injEq] at hop
    rw [← hop]
    decide
  · exact fun hsettled => hsettled rfl

/-- Headers that frame nothing fail the attempt. -/
theorem framed (h : Delimits m) (hd : m.prescribed = some d) (body : Bytes)
    (hadmits : d.Admits body) :
    ¬ m.unframed := by
  intro hunframed
  have hc := h.headersRead hd hadmits
  have hend : ∃ err, (AsioProtocols.headersRead m body).headersEnd 0 0 .accept =
      ((AsioProtocols.headersRead m body).close 0).failResponse 0 err .accept := by
    cases hcoding : m.headerValue (ascii "Transfer-Encoding") with
    | none =>
      refine ⟨Message.notFound (ascii "Transfer-Encoding"), ?_⟩
      simp only [World.headersEnd, AsioProtocols.headersRead, hunframed.1, hcoding]
    | some t =>
      refine ⟨ascii "no content-length or TE", ?_⟩
      simp only [World.headersEnd, AsioProtocols.headersRead, hunframed.1, hcoding,
        hunframed.2 t hcoding, if_true]
  obtain ⟨err, he⟩ := hend
  have hres : (((AsioProtocols.headersRead m body).close 0).conns 0).res = some 0 := by
    rw [World.res_close]
    rfl
  have hcompletions : ((AsioProtocols.headersRead m body).close 0).completions =
      { nattempts := 1, nresponses := 1 } := World.completions_close _ _
  obtain ⟨houtcome, -⟩ := ((AsioProtocols.headersRead m body).close 0).settleUnlessReady_settles 0 0
    (r := 0) (a := 0) (by rw [hcompletions]) (by rw [hcompletions]; exact Nat.one_pos)
    (by rw [hcompletions]) (.failed err) .accept
  rw [he, World.failResponse, hres] at hc
  have hdone := (hc.of_stop (by rw [Feed.settled]; exact houtcome ▸ Option.some_ne_none _)).outcome
  rw [houtcome] at hdone
  cases hdone

end Delimits

theorem ofDigits_zeros (base : Nat) : ∀ k, ofDigits base (List.replicate k 0) = 0
  | 0 => rfl
  | k + 1 => by
    rw [List.replicate_succ, ofDigits, List.foldl_cons, Nat.mul_zero, Nat.add_zero]
    exact ofDigits_zeros base k

/-- The size line of the last chunk may be any number of zeros. -/
theorem hexSize_zeros (k : Nat) : HexSize (List.replicate (k + 1) (ch '0')) 0 where
  nonempty := by simp
  digits := by
    intro b hb
    rw [List.eq_of_mem_replicate hb]
    decide
  value := by
    have hzero : digitVal 16 (ch '0') = some 0 := by decide
    rw [List.filterMap_replicate_of_some hzero, ofDigits_zeros]
  small := by decide

/-- **What is read as prescribed is understood**: a wrong choice shows with some body
that the delimiter admits. -/
theorem Delimits.understood {m : Response} (h : Delimits m) {d : Delimiter}
    (hd : m.prescribed = some d) : m.Understood d := by
  cases d with
  | nothing =>
    cases hlength : m.headerValue (ascii "Content-Length") with
    | none =>
      refine absurd ⟨hlength, fun t ht => ?_⟩ (h.framed hd [] rfl)
      exact h.not_chunked hd rfl hlength ht
    | some t =>
      refine ⟨t, hlength, ?_⟩
      cases hstoi : stoi 10 t with
      | error e => exact absurd hstoi (h.stoi_ok hd [] rfl hlength)
      | ok k =>
        have hzero := h.length_eq hd [] rfl hlength hstoi
        have hbounds := stoi_bounds hstoi
        have hk : k = 0 := by
          simp only [List.length_nil, toSize] at hzero
          omega
        rw [hk]
  | chunks =>
    have admits : ∀ k, Delimiter.chunks.Admits
        (Framing.chunked [] (List.replicate (k + 1) (ch '0'))).bytes :=
      fun k => ⟨[], _, ⟨nofun, hexSize_zeros k⟩, rfl⟩
    have hlength : m.headerValue (ascii "Content-Length") = none := by
      cases hlength : m.headerValue (ascii "Content-Length") with
      | none => rfl
      | some t =>
        cases hstoi : stoi 10 t with
        | error e => exact absurd hstoi (h.stoi_ok hd _ (admits 0) hlength)
        | ok k =>
          -- the body with this many zeros is longer
          have hlong := h.length_eq hd _ (admits (toSize k)) hlength hstoi
          simp only [Framing.bytes, List.length_append, List.length_replicate, length_crlf] at hlong
          omega
    refine ⟨hlength, ?_⟩
    by_contra hno
    refine h.framed hd _ (admits 0) ⟨hlength, fun t ht => ?_⟩
    by_contra hchunked
    exact hno ⟨t, ht, hchunked⟩
  | length k =>
    obtain ⟨t, ht, hstoi⟩ := Response.stoi_of_prescribed hd
    by_contra hlarge
    have hlarge' : ¬ k < 2147483648 := hlarge
    rw [if_neg hlarge'] at hstoi
    exact h.stoi_ok hd (List.replicate k 0) List.length_replicate ht hstoi

/-- **The choice of body framing**: a connection delimits the body of a response as
prescribed exactly if what is prescribed is understood. A response without a body needs
a `Content-Length` of 0, a chunked one must have no `Content-Length` and a first
`Transfer-Encoding` with `chunked` in lower case, and a length must fit in an `int`. -/
theorem delimits_iff (m : Response) :
    Delimits m ↔ ∀ d, m.prescribed = some d → m.Understood d :=
  ⟨fun h _ hd => h.understood hd, fun h => m.delimits_of_understood h⟩

/-- The response to a `HEAD` request, which says how long the body would be. -/
def headResponse : Response :=
  { request := { method := ascii "HEAD", requestPath := ascii "/", version := ascii "HTTP/1.1" }
    statusCode := 200, statusMessage := ascii "OK", version := ascii "HTTP/1.1"
    headers := [Header.make (ascii "Content-Length") (ascii "5")] }

/-- The connection waits for a body of five bytes. -/
theorem headResponse_waits : headResponse.prescribed = some .nothing ∧ ¬ Delimits headResponse := by
  refine ⟨by decide, fun h => ?_⟩
  have hlong := h.length_eq (d := .nothing) (t := ascii "5") (k := 5) (by decide) [] rfl
    (by decide) (by decide)
  exact absurd hlong (by decide)

end AsioProtocols
