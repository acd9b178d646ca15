import AsioProtocols.Http.Handlers

/-!
# How a read handler ends

`ReadOutcome` says what a read handler may do. Whether it comes to the end of its
response is decided by what the connection holds when it starts, and
`World.endsResponse` is that decision. `ReadTurn` is a read handler in two parts: a
`ReadPath`, which works on the timer, the parser state and the body, and a `ReadEnd`.
It reaches the end of the response only where `World.endsResponse` says so, and what
the headers say about the connection is then what they said at the start.
-/

namespace AsioProtocols

open Function

/-- The body that the headers of `m` count is in the buffer. -/
def bodyBuffered (m : Message) (input : Bytes) : Bool :=
  match m.headerValue (ascii "Content-Length") with
  | none => false
  | some t =>
    match stoi 10 t with
    | .error _ => false
    | .ok n => toSize n ≤ input.length

/-- The response that `c` carries lets it be kept. -/
def World.keepsConnection (w : World) (c : ConnId) : Bool :=
  match (w.conns c).res with
  | some r => !World.wantsClose (w.responses r).toMessage
  | none => false

/-- The handler of a completed read at `p` comes to the end of a response. That of a
chunk would in the other transfer mode, which is never that of a chunk. -/
def World.endsResponse (w : World) (c : ConnId) (p : Point) (wanted : Option Nat) (pos : Nat) :
    Bool :=
  match p, wanted with
  | .last, none => true
  | .body, some _ => true
  | .header, none =>
    match (w.conns c).res with
    | some r => (w.conns c).input.take pos = [] &&
        bodyBuffered (w.responses r).toMessage ((w.conns c).input.drop (pos + 2))
    | none => false
  | .chunkSize, none => (w.conns c).transferMode = .length
  | .chunkData, some _ => (w.conns c).transferMode = .length
  | _, _ => false

/-! ## Storing the body keeps the connection or not -/

/-- Setting another header does not change what a name is looked up to. -/
theorem setFirst_other {k k' v : Bytes} (hne : Header.normalizeKey k ≠ Header.normalizeKey k') :
    ∀ {hs hs' : List Header}, Message.setFirst k v hs = some hs' →
      hs'.any (·.isNamed k') = hs.any (·.isNamed k') ∧
      (hs'.find? (·.isNamed k')).map Header.value = (hs.find? (·.isNamed k')).map Header.value
  | [], _, h => by cases h
  | g :: gs, hs', h => by
    rw [Message.setFirst] at h
    by_cases hg : g.isNamed k = true
    · rw [if_pos hg] at h
      cases h
      have hother : g.isNamed k' = false := by
        rw [Header.isNamed, beq_iff_eq] at hg
        rw [Header.isNamed, beq_eq_false_iff_ne, ← hg]
        exact hne.symm
      have hset : ({ g with value := v } : Header).isNamed k' = false := hother
      simp [hother, hset]
    · rw [if_neg hg] at h
      obtain ⟨gs', hgs, rfl⟩ := Option.map_eq_some_iff.mp h
      obtain ⟨hany, hfind⟩ := setFirst_other hne hgs
      refine ⟨by simp [hany], ?_⟩
      cases hk : g.isNamed k' with
      | true => simp [hk]
      | false => simpa [hk] using hfind

theorem wantsClose_setBody (m : Message) (s : Bytes) :
    World.wantsClose (m.setBody s) = World.wantsClose m := by
  have hne : Header.normalizeKey (ascii "Content-Length") ≠
      Header.normalizeKey (ascii "Connection") := by decide
  simp only [World.wantsClose, Message.haveHeader, Message.headerValue, Message.setBody,
    Message.setHeader]
  cases hset : Message.setFirst (ascii "Content-Length") (decimal s.length) m.headers with
  | some hs =>
    obtain ⟨hany, hfind⟩ := setFirst_other hne hset
    simp only [hany, hfind]
  | none =>
    have hother : (Header.make (ascii "Content-Length") (decimal s.length)).isNamed
        (ascii "Connection") = false := by
      rw [Header.isNamed, beq_eq_false_iff_ne]
      exact hne.symm
    simp [Message.addHeader, hother]

/-- **The end of a response**, and what decides between its two branches: storing the
body does not change it. -/
theorem World.extractNextBodyChunk_kept {P : World → Prop} {w : World} {c : ConnId} {r : RespId}
    {v : Verdict} (data : Bytes) (hr : (w.conns c).res = some r)
    (closing : ∀ u s, (u = w ∨ ∃ m, u = w.store c r m) →
      P (((((u.modConn c fun k => { k with res := none }).note (.finished c r)).settleUnlessReady c
        r (.done s) v).close c)))
    (keeping : w.keepsConnection c = true → ∀ u s, (u = w ∨ ∃ m, u = w.store c r m) →
      P ((((((u.modConn c fun k => { k with res := none }).note (.finished c r)).handleResponse
        c).release c).settleUnlessReady c r (.done s) v))) :
    P (w.extractNextBodyChunk c data v) := by
  have hstored : World.wantsClose ((w.store c r ((w.responses r).setBody data)).responses
      r).toMessage = World.wantsClose (w.responses r).toMessage := by
    simpa [store] using wantsClose_setBody (w.responses r).toMessage data
  have hkept : World.wantsClose (w.responses r).toMessage ≠ true → w.keepsConnection c = true := by
    intro h
    simpa [keepsConnection, hr] using h
  simp only [extractNextBodyChunk, hr]
  split <;> split <;> rename_i h
  · exact closing _ _ (.inr ⟨_, rfl⟩)
  · refine keeping (hkept ?_) _ _ (.inr ⟨_, rfl⟩)
    rw [← hstored]
    exact h
  · exact closing _ _ (.inl rfl)
  · exact keeping (hkept h) _ _ (.inl rfl)

/-- A change of a record that leaves `valid_` and `closed_` alone. -/
theorem World.isValid_modConn {w : World} {c : ConnId} {f : Conn → Conn}
    (hvalid : (f (w.conns c)).valid = (w.conns c).valid)
    (hclosed : (f (w.conns c)).closed = (w.conns c).closed) :
    (w.modConn c f).isValid = w.isValid := by
  funext d
  rw [World.isValid, World.isValid, World.conns_modConn]
  rcases eq_or_ne d c with rfl | hne
  · rw [update_self, hvalid, hclosed]
  · rw [update_of_ne hne]

/-! ## The two parts of a read handler -/

/-- What a read handler of `c` does on the way, for response `r`. -/
inductive ReadPath (c : ConnId) (r : RespId) (w : World) : World → Prop
  | refl : ReadPath c r w w
  | timer {u : World} (path : ReadPath c r w u) : ReadPath c r w (u.extendTimer c)
  | parser {u : World} (input : Bytes) (mode : Transfer) (expected : Nat)
      (path : ReadPath c r w u) : ReadPath c r w (u.modConn c fun k =>
        { k with input := input, transferMode := mode, expectedBytes := expected })
  | store {u : World} (m : Message)
      (keeps : World.wantsClose m = World.wantsClose (u.responses r).toMessage)
      (path : ReadPath c r w u) : ReadPath c r w (u.store c r m)

/-- How it ends: with nothing more, with the next read outstanding, perhaps behind a
header line, with an exception, by giving the response up, or at the end of the
response, which takes `ends`. -/
inductive ReadEnd (c : ConnId) (r : RespId) (v : Verdict) (ends : Prop) (u : World) : World → Prop
  | idle : ReadEnd c r v ends u u
  | waits (op : ReadOp) : ReadEnd c r v ends u (u.modConn c fun k => { k with reads := k.reads ++ [op] })
  | line (m : Message) : ReadEnd c r v ends u ((u.store c r m).readDelimited c .header)
  | escaped (e : Exn) : ReadEnd c r v ends u (u.escape c e)
  | givenUp (err : Bytes) : ReadEnd c r v ends u ((u.close c).failResponse c err v)
  | finished (data : Bytes) (h : ends) : ReadEnd c r v ends u (u.extractNextBodyChunk c data v)

/-- A read handler takes `w` to `w'`. -/
def ReadTurn (c : ConnId) (r : RespId) (v : Verdict) (ends : Prop) (w w' : World) : Prop :=
  ∃ u, ReadPath c r w u ∧ ReadEnd c r v ends u w'

namespace ReadPath

variable {c : ConnId} {r : RespId} {w u x : World}

theorem trans (first : ReadPath c r w u) (second : ReadPath c r u x) : ReadPath c r w x := by
  induction second with
  | refl => exact first
  | timer _ ih => exact ih.timer
  | parser input mode expected _ ih => exact ih.parser input mode expected
  | store m keeps _ ih => exact ih.store m keeps

theorem res (path : ReadPath c r w u) : (u.conns c).res = (w.conns c).res := by
  induction path with
  | refl => rfl
  | timer _ ih => simpa using ih
  | parser _ _ _ _ ih => simpa [World.modConn] using ih
  | store _ _ _ ih => exact ih

theorem reads (path : ReadPath c r w u) : (u.conns c).reads = (w.conns c).reads := by
  induction path with
  | refl => rfl
  | timer _ ih => simpa [World.conns_extendTimer] using ih
  | parser _ _ _ _ ih => simpa [World.modConn] using ih
  | store _ _ _ ih => exact ih

/-- Connections stay as valid as they were. -/
theorem isValid (path : ReadPath c r w u) : u.isValid = w.isValid := by
  induction path with
  | refl => rfl
  | @timer u _ ih =>
    exact (World.isValid_modConn (f := fun k =>
      { k with waits := k.waits.map Wait.cancel ++ [{ target := u.stallTarget c }] }) rfl rfl).trans ih
  | @parser u input mode expected _ ih =>
    exact (World.isValid_modConn (f := fun k =>
      { k with input := input, transferMode := mode, expectedBytes := expected }) rfl rfl).trans ih
  | store _ _ _ ih => exact ih

/-- Whether the response asks to close the connection does not change. -/
theorem wantsClose (path : ReadPath c r w u) : World.wantsClose (u.responses r).toMessage =
    World.wantsClose (w.responses r).toMessage := by
  induction path with
  | refl => rfl
  | timer _ ih => exact ih
  | parser _ _ _ _ ih => exact ih
  | store m keeps _ ih => simpa [World.store] using keeps.trans ih

/-- Nothing happens outside the connection and the response. -/
theorem pool (path : ReadPath c r w u) : u.pool = w.pool ∧ u.futures = w.futures := by
  induction path with
  | refl => exact ⟨rfl, rfl⟩
  | timer _ ih => exact ih
  | parser _ _ _ _ ih => exact ih
  | store _ _ _ ih => exact ih

end ReadPath

/-- A turn behind a path. -/
theorem ReadTurn.after {c : ConnId} {r : RespId} {v : Verdict} {ends : Prop} {w u w' : World}
    (path : ReadPath c r w u) (turn : ReadTurn c r v ends u w') : ReadTurn c r v ends w w' := by
  obtain ⟨x, path', hend⟩ := turn
  exact ⟨x, path.trans path', hend⟩

/-! ## The handlers -/

namespace World

variable {w : World} {c : ConnId} {r : RespId} {v : Verdict} {ends : Prop}

theorem readDelimited_turn (p : Point) : ReadTurn c r v ends w (w.readDelimited c p) :=
  ⟨w, .refl, .waits _⟩

theorem onBody_turn (data : Bytes) (hends : ends) : ReadTurn c r v ends w (w.onBody c data v) :=
  ⟨_, .timer .refl, .finished data hends⟩

/-- A read waits for the socket, or its callback runs at once. -/
theorem read_turn {wanted : Nat} {p : Point} {code : World → Bytes → World}
    (hcode : wanted ≤ (w.conns c).input.length →
      ∀ u data, ReadPath c r w u → (u.conns c).transferMode = (w.conns c).transferMode →
        ReadTurn c r v ends u (code u data)) :
    ReadTurn c r v ends w (w.read c wanted p code) := by
  rw [read]
  split
  · exact ⟨w, .refl, .waits _⟩
  · rename_i hlong
    have hpath : ReadPath c r w (w.modConn c fun k => { k with input := k.input.drop wanted }) :=
      .parser ((w.conns c).input.drop wanted) (w.conns c).transferMode (w.conns c).expectedBytes .refl
    exact (hcode (Nat.not_lt.mp hlong) _ _ hpath (by simp [modConn])).after hpath

/-- A counted body that is in the buffer already is the end of its response. -/
theorem readNextBodyChunk_turn (hends : (w.conns c).transferMode = .length →
    (w.conns c).expectedBytes ≤ (w.conns c).input.length → ends) :
    ReadTurn c r v ends w (w.readNextBodyChunk c v) := by
  rw [readNextBodyChunk]
  split
  · exact readDelimited_turn .chunkSize
  · rename_i hmode
    exact read_turn fun hlong u data _ _ => onBody_turn data (hends hmode hlong)

theorem onChunkData_turn (data : Bytes) (hr : (w.conns c).res = some r)
    (hends : (w.conns c).transferMode = .length → ends) :
    ReadTurn c r v ends w (w.onChunkData c data v) := by
  simp only [onChunkData, hr]
  refine .after (.timer (.store ((w.responses r).appendBody (dropCrlf data)) rfl .refl)) ?_
  refine readNextBodyChunk_turn fun hmode _ => hends ?_
  simpa [conns_extendTimer] using hmode

theorem onChunkSize_turn (line : Bytes) (hr : (w.conns c).res = some r)
    (hends : (w.conns c).transferMode = .length → ends) :
    ReadTurn c r v ends w (w.onChunkSize c line v) := by
  have hmode : ((w.extendTimer c).conns c).transferMode = (w.conns c).transferMode := by
    simp [conns_extendTimer]
  refine .after (.timer .refl) ?_
  simp only [onChunkSize]
  split
  · exact ⟨_, .refl, .escaped _⟩
  · rename_i n _
    split
    · have hpath : ReadPath c r (w.extendTimer c)
          ((w.extendTimer c).modConn c fun k => { k with expectedBytes := toSize n }) :=
        .parser ((w.extendTimer c).conns c).input ((w.extendTimer c).conns c).transferMode _ .refl
      refine .after hpath (read_turn fun _ u data hread hsame => ?_)
      refine onChunkData_turn data ((hread.res.trans hpath.res).trans (by simp [hr])) ?_
      rw [hsame]
      simpa [modConn, hmode] using hends
    · exact readDelimited_turn .last

/-- The empty line behind the headers is the end of a response whose counted body is
in the buffer. -/
theorem headersEnd_turn
    (hends : bodyBuffered (w.responses r).toMessage (w.conns c).input = true → ends) :
    ReadTurn c r v ends w (w.headersEnd c r v) := by
  rw [headersEnd]
  split
  · rename_i t ht
    split
    · exact ⟨w, .refl, .escaped _⟩
    · rename_i n hn
      refine .after (.parser (w.conns c).input .length (toSize n) .refl) ?_
      refine readNextBodyChunk_turn fun _ hlong => hends ?_
      simpa [bodyBuffered, ht, hn, modConn] using hlong
  · split
    · split
      · exact ⟨w, .refl, .givenUp _⟩
      · refine .after (.parser (w.conns c).input .chunked 0 .refl) ?_
        refine readNextBodyChunk_turn fun hmode => ?_
        simp [modConn] at hmode
    · exact ⟨w, .refl, .givenUp _⟩

theorem onHeader_turn (line : Bytes) (hr : (w.conns c).res = some r)
    (hends : line = [] → bodyBuffered (w.responses r).toMessage (w.conns c).input = true → ends) :
    ReadTurn c r v ends w (w.onHeader c line v) := by
  have hinput : ((w.extendTimer c).conns c).input = (w.conns c).input := by
    simp [conns_extendTimer]
  refine .after (.timer .refl) ?_
  simp only [onHeader, res_extendTimer, hr]
  split
  · rename_i hline
    exact headersEnd_turn (hinput ▸ hends hline)
  · split
    · exact ⟨_, .refl, .escaped _⟩
    · exact ⟨_, .refl, .line _⟩

/-- **A read handler that is not at a status line** comes to the end of its response
only where `endsResponse` says so. -/
theorem finishRead_turn (op : ReadOp) (pos : Nat) (hp : op.point ≠ .status)
    (hr : (w.conns c).res = some r) :
    ReadTurn c r v (w.endsResponse c op.point op.wanted pos = true) w
      (w.finishRead c op (.ok pos) v) := by
  obtain ⟨p, wanted, result⟩ := op
  cases wanted with
  | none =>
    have hpath : ReadPath c r w (w.modConn c fun k => { k with input := k.input.drop (pos + 2) }) :=
      .parser ((w.conns c).input.drop (pos + 2)) (w.conns c).transferMode
        (w.conns c).expectedBytes .refl
    have hr' := hpath.res.trans hr
    refine .after hpath ?_
    cases p with
    | status => exact absurd rfl hp
    | header =>
      refine onHeader_turn _ hr' fun hline hbuffered => ?_
      simpa [endsResponse, hr, hline, modConn] using hbuffered
    | chunkSize =>
      refine onChunkSize_turn _ hr' fun hmode => ?_
      simpa [endsResponse, modConn] using hmode
    | last => exact ⟨_, .timer .refl, .finished [] rfl⟩
    | chunkData => exact ⟨_, .refl, .idle⟩
    | body => exact ⟨_, .refl, .idle⟩
  | some n =>
    have hpath : ReadPath c r w (w.modConn c fun k => { k with input := k.input.drop n }) :=
      .parser ((w.conns c).input.drop n) (w.conns c).transferMode (w.conns c).expectedBytes .refl
    have hr' := hpath.res.trans hr
    refine .after hpath ?_
    cases p with
    | chunkData =>
      refine onChunkData_turn _ hr' fun hmode => ?_
      simpa [endsResponse, modConn] using hmode
    | body => exact onBody_turn _ rfl
    | status => exact absurd rfl hp
    | header => exact ⟨_, .refl, .idle⟩
    | chunkSize => exact ⟨_, .refl, .idle⟩
    | last => exact ⟨_, .refl, .idle⟩

end World

end AsioProtocols
