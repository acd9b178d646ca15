import AsioProtocols.Http.Events
import AsioProtocols.Http.Handlers
import AsioProtocols.Http.Reply

/-!
# Reading a reply

A connection that reads a well-formed reply is always at one `Position` of it:
`Reading` says which operation is outstanding there, what is still to be read
(the buffer, and behind it what the socket holds), and what the response object
holds so far. `Between` is the same between two reads, while a handler runs.

`Reading.finishRead` is the step: the handler of a completed read takes the
connection to another position, or to the end of the reply. Nothing depends on
where the socket reads cut the bytes, since a position fixes only the buffer and
the socket together.
-/

namespace AsioProtocols

open Function

/-! ## Cutting a buffer -/

/-- What the buffer and the socket hold together begins with `a`, and the buffer
holds at least as much. -/
theorem take_of_append {input wire a b : Bytes} (h : input ++ wire = a ++ b)
    (hlen : a.length ≤ input.length) :
    input.take a.length = a ∧ input.drop a.length ++ wire = b := by
  constructor
  · have := congrArg (List.take a.length) h
    rwa [List.take_append_of_le_length hlen, List.take_left] at this
  · have := congrArg (List.drop a.length) h
    rwa [List.drop_append_of_le_length hlen, List.drop_left] at this

/-- `read_until` finds the end of the first line. -/
theorem line_of_find {input wire line rest : Bytes} {pos : Nat}
    (h : input ++ wire = line ++ crlf ++ rest) (hline : find crlf line = none)
    (hfind : find crlf input = some pos) :
    input.take pos = line ∧ input.drop (pos + 2) ++ wire = rest ∧ pos + 2 ≤ input.length := by
  have hpos : pos = line.length := by
    have h₁ := find_append_of_some wire hfind
    rw [h, find_crlf_line rest hline] at h₁
    exact (Option.some.inj h₁).symm
  obtain ⟨r, hr⟩ := find_eq_some_split hfind
  have hlen : pos + 2 ≤ input.length := by
    have htake := List.length_take_le pos input
    have := congrArg List.length hr
    simp only [List.length_append, length_crlf, List.length_take] at this
    omega
  have hlen' : (line ++ crlf).length ≤ input.length := by simpa [← hpos] using hlen
  obtain ⟨htake, hdrop⟩ := take_of_append h hlen'
  rw [List.length_append, length_crlf, ← hpos] at htake hdrop
  refine ⟨?_, hdrop, hlen⟩
  have := congrArg (List.take pos) htake
  rwa [List.take_take, Nat.min_eq_left (Nat.le_add_right pos 2), hpos, List.take_left, ← hpos]
    at this

theorem dropCrlf_append (data : Bytes) : World.dropCrlf (data ++ crlf) = data := by
  rw [World.dropCrlf, if_neg (by simp)]
  simp

/-! ## Positions -/

/-- Where a connection is in a reply: before its status line, behind some of its
header lines, before a counted body, behind some of its chunks (and perhaps the
size of the next), behind the last chunk. -/
inductive Position
  | status
  | header (done left : List Bytes)
  | counted
  | size (done left : List (Bytes × Bytes))
  | data (done : List (Bytes × Bytes)) (chunk : Bytes × Bytes) (left : List (Bytes × Bytes))
  | last

/-- The line of the last chunk. -/
def Framing.zero : Framing → Bytes
  | .counted _ => []
  | .chunked _ zero => zero

/-- The chunks. -/
def Framing.chunks : Framing → List (Bytes × Bytes)
  | .counted _ => []
  | .chunked chunks _ => chunks

namespace Position

/-- It is a position of `x`. -/
def Fits (x : Reply) : Position → Prop
  | .status => True
  | .header done left => x.lines = done ++ left
  | .counted => ∃ data, x.framing = .counted data ∧ data ≠ []
  | .size done left => ∃ zero, x.framing = .chunked (done ++ left) zero
  | .data done chunk left => ∃ zero, x.framing = .chunked (done ++ chunk :: left) zero
  | .last => ∃ chunks zero, x.framing = .chunked chunks zero

/-- The callback of the read there. -/
def point : Position → Point
  | .status => .status
  | .header _ _ => .header
  | .counted => .body
  | .size _ _ => .chunkSize
  | .data _ _ _ => .chunkData
  | .last => .last

/-- How much it asks for. -/
def wanted (x : Reply) : Position → Option Nat
  | .counted => some x.framing.content.length
  | .data _ chunk _ => some (chunk.2.length + 2)
  | _ => none

/-- The transfer mode the parser has set. -/
def mode : Position → Option Transfer
  | .status | .header _ _ => none
  | .counted => some .length
  | .size _ _ | .data _ _ _ | .last => some .chunked

/-- What is still to be read. -/
def rest (x : Reply) : Position → Bytes
  | .status => x.bytes
  | .header _ left => Reply.lineBytes left ++ crlf ++ x.framing.bytes
  | .counted => x.framing.bytes
  | .size _ left => chunkBytes left ++ x.framing.zero ++ crlf ++ crlf
  | .data _ chunk left => chunk.2 ++ crlf ++ (chunkBytes left ++ x.framing.zero ++ crlf ++ crlf)
  | .last => crlf

/-- What the response holds, from `m` at the start. -/
def held (x : Reply) (m : Response) : Position → Response
  | .status => m
  | .header done _ =>
    { m with
      version := x.version, statusCode := x.status, statusMessage := x.message
      headers := done.map headerOf }
  | .counted =>
    { m with
      version := x.version, statusCode := x.status, statusMessage := x.message
      headers := x.headers }
  | .size done _ | .data done _ _ =>
    { m with
      version := x.version, statusCode := x.status, statusMessage := x.message
      headers := x.headers, body := done.flatMap Prod.snd }
  | .last => x.stored m

end Position

/-- **The connection `c` reads `x` into response `i`** and is at `p`. -/
structure Reading (x : Reply) (m : Response) (c : ConnId) (i : RespId) (wire : Bytes)
    (p : Position) (w : World) : Prop where
  fits : p.Fits x
  res : (w.conns c).res = some i
  reads : ∃ op, (w.conns c).reads = [op] ∧ op.point = p.point ∧ op.wanted = p.wanted x ∧
    op.result = op.completion (w.conns c).input
  mode : ∀ t, p.mode = some t → (w.conns c).transferMode = t
  rest : (w.conns c).input ++ wire = p.rest x
  held : w.responses i = p.held x m

/-- No read is outstanding; `rest` is still to be read. -/
structure Between (c : ConnId) (i : RespId) (wire rest : Bytes) (held : Response) (w : World) :
    Prop where
  res : (w.conns c).res = some i
  reads : (w.conns c).reads = []
  rest : (w.conns c).input ++ wire = rest
  held : w.responses i = held

/-- What the handlers of a response leave alone. They consume input, and arm at
most `n` waits. -/
structure Untouched (c : ConnId) (i : RespId) (n : Nat) (w w' : World) : Prop where
  pool : w'.pool = w.pool
  futures : w'.futures = w.futures
  others : ∀ j, j ≠ i → w'.responses j = w.responses j
  shell : (w'.conns c).closed = (w.conns c).closed ∧ (w'.conns c).valid = (w.conns c).valid ∧
    (w'.conns c).setup = (w.conns c).setup ∧ (w'.conns c).writes = (w.conns c).writes
  input : (w'.conns c).input.length ≤ (w.conns c).input.length
  waits : (w'.conns c).waits.length ≤ (w.conns c).waits.length + n
  calm : (∀ t ∈ (w.conns c).waits, t.status ≠ .expired) →
    ∀ t ∈ (w'.conns c).waits, t.status ≠ .expired

/-- Arming the timer anew lets no wait expire. -/
theorem not_expired_extend {waits : List Wait} (h : ∀ t ∈ waits, t.status ≠ .expired)
    (target : Nat) : ∀ t ∈ waits.map Wait.cancel ++ [{ target := target }], t.status ≠ .expired := by
  intro t ht
  rcases List.mem_append.mp ht with ht | ht
  · obtain ⟨t', ht', rfl⟩ := List.mem_map.mp ht
    have := h t' ht'
    rcases hs : t'.status with _ | _ | _ <;> simp_all [Wait.cancel]
  · obtain rfl := List.mem_singleton.mp ht
    simp

namespace Untouched

variable {c : ConnId} {i : RespId} {n k : Nat} {w w' w'' : World}

theorem trans (h : Untouched c i n w w') (h' : Untouched c i k w' w'') :
    Untouched c i (n + k) w w'' where
  pool := h'.pool.trans h.pool
  futures := h'.futures.trans h.futures
  others j hj := (h'.others j hj).trans (h.others j hj)
  shell := ⟨h'.shell.1.trans h.shell.1, h'.shell.2.1.trans h.shell.2.1,
    h'.shell.2.2.1.trans h.shell.2.2.1, h'.shell.2.2.2.trans h.shell.2.2.2⟩
  input := Nat.le_trans h'.input h.input
  waits := by
    have := h.waits
    have := h'.waits
    omega
  calm hw := h'.calm (h.calm hw)

theorem mono (h : Untouched c i n w w') (hn : n ≤ k) : Untouched c i k w w' :=
  { h with waits := Nat.le_trans h.waits (Nat.add_le_add_left hn _) }

/-- The parser state and the reads of the connection change. -/
theorem parser (w : World) (input : Bytes) (hinput : input.length ≤ (w.conns c).input.length)
    (mode : Transfer) (expected : Nat) (reads : List ReadOp) :
    Untouched c i 0 w (w.modConn c fun k =>
      { k with input := input, transferMode := mode, expectedBytes := expected, reads := reads }) := by
  refine ⟨rfl, rfl, fun _ _ => rfl, ?_, ?_, ?_, ?_⟩ <;> simp [World.modConn, hinput]

theorem extendTimer (w : World) : Untouched c i 1 w (w.extendTimer c) := by
  refine ⟨rfl, rfl, fun _ _ => rfl, ?_, ?_, ?_, ?_⟩
  · simp [World.extendTimer, World.modConn]
  · simp [World.extendTimer, World.modConn]
  · simp [World.extendTimer, World.modConn]
  · intro h
    simpa [World.extendTimer, World.modConn] using not_expired_extend h (w.stallTarget c)

theorem store (w : World) (m : Message) : Untouched c i 0 w (w.store c i m) :=
  ⟨rfl, rfl, fun _ hj => update_of_ne hj _ _, ⟨rfl, rfl, rfl, rfl⟩, Nat.le_refl _, Nat.le_refl _,
    fun h => h⟩

theorem storeStatus (w : World) (parsed : Response × Option Exn) :
    Untouched c i 0 w (w.storeStatus c i parsed) :=
  ⟨rfl, rfl, fun _ hj => update_of_ne hj _ _, ⟨rfl, rfl, rfl, rfl⟩, Nat.le_refl _, Nat.le_refl _,
    fun h => h⟩

end Untouched

/-- The end of a reply: everything is read, and storing `data` if the body was
counted completes the response. -/
structure AtEnd (x : Reply) (m : Response) (c : ConnId) (i : RespId) (wire data : Bytes)
    (w : World) : Prop where
  res : (w.conns c).res = some i
  reads : (w.conns c).reads = []
  input : (w.conns c).input = []
  wire : wire = []
  stored : (if (w.conns c).transferMode = .length then
      { w.responses i with toMessage := (w.responses i).toMessage.setBody data }
    else w.responses i) = x.stored m

/-- What the handler of a read comes to: another position, or the end. -/
inductive After (x : Reply) (m : Response) (c : ConnId) (i : RespId) (wire : Bytes) (n : Nat)
    (w w' : World) : Prop
  | reading (p : Position) (h : Reading x m c i wire p w') (hu : Untouched c i n w w')
  | ended (u : World) (data : Bytes) (h : AtEnd x m c i wire data u) (hu : Untouched c i n w u)
      (he : w' = u.extractNextBodyChunk c data .accept)

theorem After.mono {x : Reply} {m : Response} {c : ConnId} {i : RespId} {wire : Bytes} {n k : Nat}
    {w w' : World} (h : After x m c i wire n w w') (hn : n ≤ k) : After x m c i wire k w w' := by
  cases h with
  | reading p h hu => exact .reading p h (hu.mono hn)
  | ended v data h hu he => exact .ended v data h (hu.mono hn) he

theorem After.trans {x : Reply} {m : Response} {c : ConnId} {i : RespId} {wire : Bytes} {n k : Nat}
    {w u w' : World} (h : After x m c i wire k u w') (hu : Untouched c i n w u) :
    After x m c i wire (n + k) w w' := by
  cases h with
  | reading p h hu' => exact .reading p h (hu.trans hu')
  | ended v data h hu' he => exact .ended v data h (hu.trans hu') he

namespace Between

variable {c : ConnId} {i : RespId} {wire rest : Bytes} {held : Response} {w : World} {x : Reply}
  {m : Response}

theorem extendTimer (h : Between c i wire rest held w) :
    Between c i wire rest held (w.extendTimer c) :=
  ⟨by simp [h.res], by simp [World.extendTimer, World.modConn, h.reads],
    by simp [World.extendTimer, World.modConn, h.rest], h.held⟩

theorem parser (h : Between c i wire rest held w) (mode : Transfer) (expected : Nat) :
    Between c i wire rest held (w.modConn c fun k =>
      { k with transferMode := mode, expectedBytes := expected }) :=
  ⟨by simp [World.modConn, h.res], by simp [World.modConn, h.reads],
    by simp [World.modConn, h.rest], h.held⟩

theorem store (h : Between c i wire rest held w) (msg : Message) :
    Between c i wire rest { held with toMessage := msg } (w.store c i msg) :=
  ⟨h.res, h.reads, h.rest, by simp [World.store, h.held]⟩

/-- A line read starts, at a position that asks for a line. -/
theorem line {p : Position} (h : Between c i wire (p.rest x) (p.held x m) w) (hfits : p.Fits x)
    (hline : p.wanted x = none) (hmode : ∀ t, p.mode = some t → (w.conns c).transferMode = t) :
    After x m c i wire 0 w (w.readDelimited c p.point) := by
  refine .reading p ⟨hfits, ?_, ?_, ?_, ?_, h.held⟩ ?_
  · simp [World.readDelimited, World.modConn, h.res]
  · refine ⟨_, by simp [World.readDelimited, World.modConn, h.reads]; rfl, rfl, hline.symm, ?_⟩
    simp [ReadOp.completion, World.readDelimited, World.modConn]
  · simpa [World.readDelimited, World.modConn] using hmode
  · simp [World.readDelimited, World.modConn, h.rest]
  · exact Untouched.parser w _ (Nat.le_refl _) _ _ _

/-- A counted read starts: it waits, or its callback runs at once on the bytes
asked for. -/
theorem read {p : Position} {n : Nat} (data behind : Bytes) {k : Nat}
    {code : World → Bytes → World}
    (h : Between c i wire (p.rest x) (p.held x m) w) (hfits : 0 < n → p.Fits x)
    (hwanted : p.wanted x = some n) (hmode : ∀ t, p.mode = some t → (w.conns c).transferMode = t)
    (hsplit : p.rest x = data ++ behind) (hlen : data.length = n)
    (hcode : ∀ u, Between c i wire behind (p.held x m) u →
      (u.conns c).transferMode = (w.conns c).transferMode →
      After x m c i wire k u (code u data)) :
    After x m c i wire k w (w.read c n p.point code) := by
  rw [World.read]
  split
  · rename_i hshort
    refine .reading p ⟨hfits (Nat.zero_lt_of_lt hshort), ?_, ?_, ?_, ?_, h.held⟩ ?_
    · simp [World.modConn, h.res]
    · refine ⟨_, by simp [World.modConn, h.reads]; rfl, rfl, hwanted.symm, ?_⟩
      simp only [ReadOp.completion, World.modConn, update_self]
      rw [if_neg (Nat.not_le.mpr hshort)]
    · simpa [World.modConn] using hmode
    · simp [World.modConn, h.rest]
    · exact (Untouched.parser w _ (Nat.le_refl _) _ _ _).mono (Nat.zero_le _)
  · rename_i hlong
    have hle : data.length ≤ (w.conns c).input.length := hlen ▸ Nat.not_lt.mp hlong
    obtain ⟨htake, hdrop⟩ := take_of_append (h.rest.trans hsplit) hle
    rw [hlen] at htake hdrop
    rw [htake]
    have hu : Untouched c i 0 w (w.modConn c fun k => { k with input := k.input.drop n }) :=
      Untouched.parser w ((w.conns c).input.drop n) (by simp) _ _ _
    have hb : Between c i wire behind (p.held x m)
        (w.modConn c fun k => { k with input := k.input.drop n }) :=
      ⟨by simp [World.modConn, h.res], by simp [World.modConn, h.reads],
        by simpa [World.modConn] using hdrop, h.held⟩
    have := (hcode _ hb (by simp [World.modConn])).trans hu
    rwa [Nat.zero_add] at this

/-! ## The handlers, between two reads -/

/-- The end of a counted body. -/
theorem onBody {data : Bytes} (hx : x.WellFormed) (hframing : x.framing = .counted data)
    (h : Between c i wire [] (Position.counted.held x m) w)
    (hmode : (w.conns c).transferMode = .length) :
    After x m c i wire 1 w (w.onBody c data .accept) := by
  obtain ⟨hinput, hwire⟩ := List.append_eq_nil_iff.mp h.extendTimer.rest
  refine .ended (w.extendTimer c) data
    ⟨h.extendTimer.res, h.extendTimer.reads, hinput, hwire, ?_⟩ (Untouched.extendTimer w) rfl
  have hframed := hx.framed
  rw [hframing] at hframed
  obtain ⟨⟨g, hg, hvalue⟩, -, -⟩ := hframed
  have hmode' : ((w.extendTimer c).conns c).transferMode = .length := by
    simpa [World.extendTimer, World.modConn] using hmode
  rw [if_pos hmode', h.extendTimer.held]
  simp only [Position.held]
  rw [Reply.setBody_of_filter hg hvalue]
  simp [Reply.stored, hframing, Framing.content]

/-- The line behind the last chunk. -/
theorem onLast (h : Between c i wire [] (Position.last.held x m) w)
    (hmode : (w.conns c).transferMode = .chunked) :
    After x m c i wire 1 w (w.onLast c .accept) := by
  obtain ⟨hinput, hwire⟩ := List.append_eq_nil_iff.mp h.extendTimer.rest
  refine .ended (w.extendTimer c) []
    ⟨h.extendTimer.res, h.extendTimer.reads, hinput, hwire, ?_⟩ (Untouched.extendTimer w) rfl
  have hmode' : ((w.extendTimer c).conns c).transferMode = .chunked := by
    simpa [World.extendTimer, World.modConn] using hmode
  rw [hmode', if_neg (by simp), h.extendTimer.held]
  rfl

/-- The data of a chunk, with the separator behind it. -/
theorem onChunkData {done left : List (Bytes × Bytes)} {chunk : Bytes × Bytes}
    (hfits : (Position.data done chunk left).Fits x)
    (h : Between c i wire ((Position.size (done ++ [chunk]) left).rest x)
      ((Position.data done chunk left).held x m) w)
    (hmode : (w.conns c).transferMode = .chunked) :
    After x m c i wire 1 w (w.onChunkData c (chunk.2 ++ crlf) .accept) := by
  simp only [World.onChunkData, h.res, dropCrlf_append]
  have hstore := h.store ((w.responses i).appendBody chunk.2)
  have hheld : ({ (Position.data done chunk left).held x m with
      toMessage := (w.responses i).appendBody chunk.2 } : Response) =
      (Position.size (done ++ [chunk]) left).held x m := by
    rw [h.held]
    simp [Position.held, Message.appendBody]
  rw [hheld] at hstore
  have hmode' : (((w.store c i ((w.responses i).appendBody chunk.2)).extendTimer c).conns
      c).transferMode = .chunked := by
    simpa [World.extendTimer, World.modConn] using hmode
  have hfits' : (Position.size (done ++ [chunk]) left).Fits x := by
    obtain ⟨zero, hzero⟩ := hfits
    exact ⟨zero, by simpa using hzero⟩
  rw [World.readNextBodyChunk, hmode']
  have := ((hstore.extendTimer.line hfits' rfl (by simp [Position.mode, hmode'])).trans
    (Untouched.extendTimer _)).trans (Untouched.store w ((w.responses i).appendBody chunk.2))
  simpa [Position.point] using this

/-- The size of a chunk. -/
theorem onChunkSize {done left : List (Bytes × Bytes)} {chunk : Bytes × Bytes} (hx : x.WellFormed)
    (hfits : (Position.size done (chunk :: left)).Fits x)
    (h : Between c i wire ((Position.data done chunk left).rest x)
      ((Position.size done (chunk :: left)).held x m) w)
    (hmode : (w.conns c).transferMode = .chunked) :
    After x m c i wire 2 w (w.onChunkSize c chunk.1 .accept) := by
  have hfits' : (Position.data done chunk left).Fits x := hfits
  obtain ⟨zero, hframing⟩ := hfits
  have hframed := hx.framed
  rw [hframing] at hframed
  obtain ⟨hsize, hne⟩ := hframed.2.2.1 chunk (by simp)
  have hsmall := hsize.small
  have hstoi : stoi 16 chunk.1 = .ok (chunk.2.length : Nat) := by
    have := stoi_of_digits (Nat.le_refl 16) hsize.nonempty hsize.digits
      (by rw [hsize.value]; exact hsmall)
    rwa [hsize.value] at this
  have hto : toSize (chunk.2.length : Nat) = chunk.2.length := toSize_of_nat (by omega)
  have hmod : (chunk.2.length + 2) % 18446744073709551616 = chunk.2.length + 2 :=
    Nat.mod_eq_of_lt (by omega)
  simp only [World.onChunkSize, hstoi, hto, hmod, List.length_pos_iff.mpr hne, if_true]
  have hb := h.extendTimer.parser ((w.extendTimer c).conns c).transferMode chunk.2.length
  have hu : Untouched c i 1 w ((w.extendTimer c).modConn c fun k =>
      { k with expectedBytes := chunk.2.length }) :=
    (Untouched.extendTimer w).trans (Untouched.parser (w.extendTimer c) _ (Nat.le_refl _) _
      chunk.2.length _)
  have hmode' : (((w.extendTimer c).modConn c fun k =>
      { k with expectedBytes := chunk.2.length }).conns c).transferMode = .chunked := by
    simpa [World.extendTimer, World.modConn] using hmode
  refine After.trans (n := 1) (k := 1) ?_ hu
  refine Between.read (chunk.2 ++ crlf) ((Position.size (done ++ [chunk]) left).rest x)
    (p := .data done chunk left) hb (fun _ => hfits') rfl ?_ rfl (by simp) ?_
  · intro t ht
    cases ht
    exact hmode'
  · intro u hb hm
    exact onChunkData hfits' hb (hm.trans hmode')

/-- The size line of the last chunk. -/
theorem onChunkSize_last {done : List (Bytes × Bytes)} (hx : x.WellFormed)
    (hfits : (Position.size done []).Fits x)
    (h : Between c i wire (Position.last.rest x) ((Position.size done []).held x m) w)
    (hmode : (w.conns c).transferMode = .chunked) :
    After x m c i wire 2 w (w.onChunkSize c x.framing.zero .accept) := by
  obtain ⟨zero, hframing⟩ := hfits
  have hframed := hx.framed
  rw [hframing] at hframed
  have hlast := hframed.2.2.2
  have hstoi : stoi 16 zero = .ok (0 : Nat) := by
    have := stoi_of_digits (Nat.le_refl 16) hlast.nonempty hlast.digits
      (by rw [hlast.value]; decide)
    rwa [hlast.value] at this
  have hheld : (Position.size done []).held x m = Position.last.held x m := by
    simp [Position.held, Reply.stored, hframing, Framing.content]
  rw [hheld] at h
  have hto : toSize (0 : Nat) = 0 := toSize_of_nat (by decide)
  simp only [World.onChunkSize, hframing, Framing.zero, hstoi, hto, Nat.lt_irrefl, if_false]
  refine ((h.extendTimer.line (p := .last) ⟨done ++ [], zero, hframing⟩ rfl ?_).trans
    (Untouched.extendTimer w)).mono (by decide)
  intro t ht
  cases ht
  simpa [World.extendTimer, World.modConn] using hmode

/-- The end of the headers, with a `Content-Length`. -/
theorem headersEnd_counted (hx : x.WellFormed) {data : Bytes} (hframing : x.framing = .counted data)
    (h : Between c i wire x.framing.bytes ((Position.header x.lines []).held x m) w) :
    After x m c i wire 1 w (w.headersEnd c i .accept) := by
  have hheaders : (w.responses i).headers = x.headers := by rw [h.held]; rfl
  have hframed := hx.framed
  rw [hframing] at hframed
  obtain ⟨⟨g, hg, hvalue⟩, -, hsmall⟩ := hframed
  have hlength : (w.responses i).headerValue (ascii "Content-Length") =
      some (decimal data.length) := by
    rw [← hvalue]
    exact Reply.headerValue_of_filter (hheaders ▸ hg)
  have hto : toSize (data.length : Nat) = data.length := toSize_of_nat (by omega)
  simp only [World.headersEnd, hlength, stoi_decimal hsmall, hto]
  have hb : Between c i wire (Position.counted.rest x) (Position.counted.held x m)
      (w.modConn c fun k => { k with transferMode := .length, expectedBytes := data.length }) :=
    h.parser .length data.length
  have hmode : ((w.modConn c fun k =>
      { k with transferMode := .length, expectedBytes := data.length }).conns c).transferMode =
      .length := by simp [World.modConn]
  have hexpected : ((w.modConn c fun k =>
      { k with transferMode := .length, expectedBytes := data.length }).conns c).expectedBytes =
      data.length := by simp [World.modConn]
  rw [World.readNextBodyChunk, hmode]
  dsimp only
  rw [hexpected]
  have hu : Untouched c i 0 w
      (w.modConn c fun k => { k with transferMode := .length, expectedBytes := data.length }) :=
    Untouched.parser w _ (Nat.le_refl _) _ _ _
  refine (After.trans (n := 0) (k := 1) ?_ hu).mono (Nat.le_refl _)
  -- an empty body is there at once, and its handler has run when the read returns
  refine hb.read data [] (p := .counted)
    (fun hpos => ⟨data, hframing, List.length_pos_iff.mp hpos⟩)
    (by simp [Position.wanted, hframing, Framing.content]) ?_
    (by simp [Position.rest, hframing, Framing.bytes]) rfl ?_
  · intro t ht
    cases ht
    exact hmode
  · intro u hu hmode'
    exact onBody hx hframing hu (hmode'.trans hmode)

/-- The end of the headers, with `Transfer-Encoding: chunked`. -/
theorem headersEnd_chunked (hx : x.WellFormed) (hm : m.body = []) {chunks : List (Bytes × Bytes)}
    {zero : Bytes} (hframing : x.framing = .chunked chunks zero)
    (h : Between c i wire x.framing.bytes ((Position.header x.lines []).held x m) w) :
    After x m c i wire 1 w (w.headersEnd c i .accept) := by
  have hheaders : (w.responses i).headers = x.headers := by rw [h.held]; rfl
  have hframed := hx.framed
  rw [hframing] at hframed
  obtain ⟨⟨g, hg, hvalue⟩, hnone, -, -⟩ := hframed
  have hlength : (w.responses i).headerValue (ascii "Content-Length") = none :=
    Reply.headerValue_of_none (hheaders ▸ hnone)
  have hchunked : (w.responses i).headerValue (ascii "Transfer-Encoding") =
      some (ascii "chunked") := by
    rw [← hvalue]
    exact Reply.headerValue_of_filter (hheaders ▸ hg)
  have hfind : find (ascii "chunked") (ascii "chunked") = some 0 := by decide
  simp only [World.headersEnd, hlength, hchunked, hfind, reduceCtorEq, if_false]
  have hrest : x.framing.bytes = (Position.size [] chunks).rest x := by
    simp [Position.rest, hframing, Framing.bytes, Framing.zero]
  have hheld : (Position.header x.lines []).held x m = (Position.size [] chunks).held x m := by
    simp [Position.held, Reply.headers, hm]
  rw [hrest, hheld] at h
  have hmode : ((w.modConn c fun k =>
      { k with transferMode := .chunked, expectedBytes := 0 }).conns c).transferMode =
      .chunked := by simp [World.modConn]
  rw [World.readNextBodyChunk, hmode]
  have hu : Untouched c i 0 w
      (w.modConn c fun k => { k with transferMode := .chunked, expectedBytes := 0 }) :=
    Untouched.parser w _ (Nat.le_refl _) _ _ _
  refine (((h.parser .chunked 0).line ⟨zero, by simp [hframing]⟩ rfl ?_).trans hu).mono
    (Nat.zero_le _)
  intro t ht
  cases ht
  exact hmode

/-- The end of the headers. -/
theorem headersEnd (hx : x.WellFormed) (hm : m.body = [])
    (h : Between c i wire x.framing.bytes ((Position.header x.lines []).held x m) w) :
    After x m c i wire 1 w (w.headersEnd c i .accept) := by
  cases hframing : x.framing with
  | counted data => exact headersEnd_counted hx hframing h
  | chunked chunks zero => exact headersEnd_chunked hx hm hframing h

/-- A header line. -/
theorem onHeader {done left : List Bytes} {line : Bytes} (hx : x.WellFormed)
    (hfits : (Position.header done (line :: left)).Fits x)
    (h : Between c i wire ((Position.header (done ++ [line]) left).rest x)
      ((Position.header done (line :: left)).held x m) w) :
    After x m c i wire 2 w (w.onHeader c line .accept) := by
  obtain ⟨hne, -, hcolon⟩ := hx.lines line (by rw [show x.lines = _ from hfits]; simp)
  simp only [World.onHeader, h.extendTimer.res, hne, if_false,
    Reply.parseHeaderLine_of_mem hne hcolon]
  have hstore := h.extendTimer.store ((((w.extendTimer c).responses i).toMessage).addHeader
    (headerOf line))
  have hheld : ({ (Position.header done (line :: left)).held x m with
      toMessage := (((w.extendTimer c).responses i).toMessage).addHeader (headerOf line) } :
      Response) = (Position.header (done ++ [line]) left).held x m := by
    rw [h.extendTimer.held]
    simp [Position.held, Message.addHeader]
  rw [hheld] at hstore
  refine (((hstore.line (p := .header (done ++ [line]) left) ?_ rfl (by simp [Position.mode])).trans
    (Untouched.store _ _)).trans (Untouched.extendTimer w)).mono (by decide)
  show x.lines = done ++ [line] ++ left
  rw [show x.lines = _ from hfits]
  simp

/-- The empty line behind the headers. -/
theorem onHeader_end (hx : x.WellFormed) (hm : m.body = [])
    (h : Between c i wire x.framing.bytes ((Position.header x.lines []).held x m) w) :
    After x m c i wire 2 w (w.onHeader c [] .accept) := by
  simp only [World.onHeader, h.extendTimer.res, if_true]
  exact (h.extendTimer.headersEnd hx hm).trans (Untouched.extendTimer w)

/-- The status line. -/
theorem onStatus (hx : x.WellFormed) (hm : m.headers = [])
    (h : Between c i wire ((Position.header [] x.lines).rest x) m w) :
    After x m c i wire 2 w (w.onStatus c x.statusLine) := by
  have hparsed := hx.parseInitialLine m
  have ht := h.extendTimer
  simp only [World.onStatus, h.res, ht.held, hparsed]
  have hheld : ({ m with version := x.version, statusCode := x.status, statusMessage := x.message } :
      Response) = (Position.header [] x.lines).held x m := by
    simp [Position.held, hm]
  rw [hheld]
  have hb : Between c i wire ((Position.header [] x.lines).rest x)
      ((Position.header [] x.lines).held x m)
      ((w.extendTimer c).storeStatus c i ((Position.header [] x.lines).held x m, none)) :=
    ⟨ht.res, ht.reads, ht.rest, by simp [World.storeStatus]⟩
  exact (((hb.line rfl rfl (by simp [Position.mode])).trans (Untouched.storeStatus _ _)).trans
    (Untouched.extendTimer w)).mono (by decide)

end Between

/-! ## Socket reads -/

namespace Position

/-- Where a line is asked for, one is there. -/
theorem exists_line {x : Reply} {p : Position} (hwanted : p.wanted x = none) :
    ∃ line behind, p.rest x = line ++ crlf ++ behind := by
  cases p with
  | status => exact ⟨x.statusLine, _, by simp only [rest, Reply.bytes, List.append_assoc]; rfl⟩
  | header done left => exact ⟨Reply.lineBytes left, x.framing.bytes, rfl⟩
  | counted => simp [wanted] at hwanted
  | size done left => exact ⟨chunkBytes left ++ x.framing.zero, crlf, rfl⟩
  | data done chunk left => simp [wanted] at hwanted
  | last => exact ⟨[], [], rfl⟩

/-- Where bytes are asked for, they are there. -/
theorem wanted_le {x : Reply} {p : Position} (hfits : p.Fits x) {n : Nat}
    (hwanted : p.wanted x = some n) : n ≤ (p.rest x).length := by
  cases p with
  | counted =>
    obtain ⟨data, hframing, -⟩ := hfits
    cases hwanted
    simp [rest, hframing, Framing.content, Framing.bytes]
  | data done chunk left =>
    cases hwanted
    simp only [rest, List.length_append, length_crlf]
    omega
  | _ => simp [wanted] at hwanted

end Position

namespace Reading

variable {c : ConnId} {i : RespId} {wire : Bytes} {w : World} {x : Reply} {m : Response}
  {p : Position}

/-- The outstanding operation is the only one, and it matches its position. -/
theorem op_eq (h : Reading x m c i wire p w) {op : ReadOp} (hop : (w.conns c).reads = [op]) :
    op.point = p.point ∧ op.wanted = p.wanted x ∧
      op.result = op.completion (w.conns c).input := by
  obtain ⟨op', hreads, hspec⟩ := h.reads
  obtain rfl : op' = op := List.cons.inj (hreads.symm.trans hop) |>.1
  exact hspec

/-- **A socket read** moves bytes from the socket to the buffer. -/
theorem receive {bytes : Bytes} (h : Reading x m c i (bytes ++ wire) p w) {op : ReadOp}
    (hop : (w.conns c).reads = [op]) : Reading x m c i wire p (w.receive c 0 op bytes) := by
  obtain ⟨hpoint, hwanted, -⟩ := h.op_eq hop
  refine ⟨h.fits, by simp [World.receive, World.modConn, h.res], ?_, ?_, ?_, h.held⟩
  · refine ⟨{ op with result := op.completion ((w.conns c).input ++ bytes) }, ?_, hpoint, hwanted, ?_⟩
    · simp [World.receive, World.modConn, hop]
    · simp [World.receive, World.modConn, ReadOp.completion]
  · simpa [World.receive, World.modConn] using h.mode
  · simpa [World.receive, World.modConn] using h.rest

/-- While the read is pending the socket holds more, and it takes the next byte. -/
theorem admits (h : Reading x m c i wire p w) {op : ReadOp} (hop : (w.conns c).reads = [op])
    (hres : op.result = none) :
    wire ≠ [] ∧ op.admits (w.conns c).input (wire.take 1) = true := by
  obtain ⟨-, hwanted, hcompletion⟩ := h.op_eq hop
  rw [hres, ReadOp.completion, hwanted] at hcompletion
  have hrest := h.rest
  rcases hw : p.wanted x with _ | n
  · have hne : wire ≠ [] := by
      rintro rfl
      obtain ⟨line, behind, hline⟩ := Position.exists_line hw
      obtain ⟨pos, hfind, -⟩ := find_append_isSome crlf line behind
      rw [← hline, ← hrest, List.append_nil] at hfind
      simp [hw, hfind] at hcompletion
    simp [ReadOp.admits, hwanted, hw, hne]
  · have hshort : (w.conns c).input.length < n := by
      by_contra hlong
      simp [hw, Nat.not_lt.mp hlong] at hcompletion
    have hle := Position.wanted_le h.fits hw
    rw [← hrest, List.length_append] at hle
    have hne : wire ≠ [] := by
      rintro rfl
      simp at hle
      omega
    have htake : (wire.take 1).length ≤ 1 := List.length_take_le 1 wire
    refine ⟨hne, ?_⟩
    simp only [ReadOp.admits, hwanted, hw, ne_eq, decide_eq_true_eq, List.take_eq_nil_iff, hne,
      or_false, Nat.one_ne_zero, not_false_eq_true, true_and, List.length_append]
    omega

end Reading

/-! ## The handler of a completed read -/

namespace Reading

variable {c : ConnId} {i : RespId} {wire : Bytes} {w : World} {x : Reply} {m : Response}
  {p : Position}

/-- The world in which the callback of a completed read runs. -/
def taken (w : World) (c : ConnId) (n : Nat) : World :=
  (w.modConn c fun k => { k with reads := k.reads.eraseIdx 0 }).modConn c
    fun k => { k with input := k.input.drop n }

theorem untouched_taken (w : World) (n : Nat) : Untouched c i 0 w (taken w c n) := by
  rw [taken, World.modConn_modConn]
  exact Untouched.parser w ((w.conns c).input.drop n) (by simp) _ _ _

theorem between (h : Reading x m c i wire p w) {op : ReadOp} (hop : (w.conns c).reads = [op])
    {n : Nat} {behind : Bytes} (hdrop : (w.conns c).input.drop n ++ wire = behind) :
    Between c i wire behind (p.held x m) (taken w c n) :=
  ⟨by simp [taken, World.modConn, h.res], by simp [taken, World.modConn, hop],
    by simpa [taken, World.modConn] using hdrop, h.held⟩

/-- A completed line read hands its callback the first line. -/
theorem line {op : ReadOp} {pos : Nat} (h : Reading x m c i wire p w) (line behind : Bytes)
    (hop : (w.conns c).reads = [op]) (hres : op.result = some (.ok pos))
    (hwanted : p.wanted x = none) (hrest : p.rest x = line ++ crlf ++ behind)
    (hline : find crlf line = none) (v : Verdict) :
    Between c i wire behind (p.held x m) (taken w c (pos + 2)) ∧
      ((taken w c (pos + 2)).conns c).input.length < (w.conns c).input.length ∧
      (w.modConn c fun k => { k with reads := k.reads.eraseIdx 0 }).finishRead c op (.ok pos) v =
        (taken w c (pos + 2)).onLine c p.point line v := by
  obtain ⟨hpoint, hwant, hcompletion⟩ := h.op_eq hop
  rw [hwanted] at hwant
  have hfind : find crlf (w.conns c).input = some pos := by
    rw [hres, ReadOp.completion, hwant] at hcompletion
    obtain ⟨pos', hfind, hpos⟩ := Option.map_eq_some_iff.mp hcompletion.symm
    cases hpos
    exact hfind
  obtain ⟨htake, hdrop, hlen⟩ := line_of_find (h.rest.trans hrest) hline hfind
  refine ⟨h.between hop hdrop, ?_, ?_⟩
  · simp only [taken, World.modConn, update_self, List.length_drop]
    omega
  · have hin : ((w.modConn c fun k => { k with reads := k.reads.eraseIdx 0 }).conns c).input =
        (w.conns c).input := by simp [World.modConn]
    simp only [World.finishRead, hwant, hin, htake, hpoint]
    rfl

/-- A completed counted read hands its callback the bytes it asked for. -/
theorem data {op : ReadOp} {pos : Nat} (h : Reading x m c i wire p w) (data behind : Bytes)
    (hop : (w.conns c).reads = [op]) (hres : op.result = some (.ok pos))
    (hwanted : p.wanted x = some data.length) (hne : data ≠ []) (hrest : p.rest x = data ++ behind)
    (v : Verdict) :
    Between c i wire behind (p.held x m) (taken w c data.length) ∧
      ((taken w c data.length).conns c).input.length < (w.conns c).input.length ∧
      (w.modConn c fun k => { k with reads := k.reads.eraseIdx 0 }).finishRead c op (.ok pos) v =
        (taken w c data.length).onData c p.point data v := by
  obtain ⟨hpoint, hwant, hcompletion⟩ := h.op_eq hop
  rw [hwanted] at hwant
  have hlen : data.length ≤ (w.conns c).input.length := by
    rw [hres, ReadOp.completion, hwant] at hcompletion
    by_contra hshort
    simp [hshort] at hcompletion
  obtain ⟨htake, hdrop⟩ := take_of_append (h.rest.trans hrest) hlen
  have hpos := List.length_pos_iff.mpr hne
  refine ⟨h.between hop hdrop, ?_, ?_⟩
  · simp only [taken, World.modConn, update_self, List.length_drop]
    omega
  · have hin : ((w.modConn c fun k => { k with reads := k.reads.eraseIdx 0 }).conns c).input =
        (w.conns c).input := by simp [World.modConn]
    simp only [World.finishRead, hwant, hin, htake, hpoint]
    rfl

/-- The mode stays while a read is taken. -/
theorem mode_taken (h : Reading x m c i wire p w) {t : Transfer} (hp : p.mode = some t) (n : Nat) :
    ((taken w c n).conns c).transferMode = t := by
  simpa [taken, World.modConn] using h.mode t hp

/-- **The handler of a completed read** consumes input and takes the connection to
another position, or to the end of the reply. -/
theorem finishRead (h : Reading x m c i wire p w) (hx : x.WellFormed) (hm : m.headers = [])
    (hbody : m.body = []) {op : ReadOp} (hop : (w.conns c).reads = [op]) {pos : Nat}
    (hres : op.result = some (.ok pos)) :
    ∃ u, Untouched c i 0 w u ∧ (u.conns c).input.length < (w.conns c).input.length ∧
      After x m c i wire 2 u ((w.modConn c fun k =>
        { k with reads := k.reads.eraseIdx 0 }).finishRead c op (.ok pos) .accept) := by
  cases p with
  | status =>
    obtain ⟨hb, hlt, he⟩ := h.line x.statusLine
      ((Position.header [] x.lines).rest x) hop hres rfl
      (by simp [Position.rest, Reply.bytes]) hx.statusLine .accept
    exact ⟨_, untouched_taken w _, hlt, he ▸ hb.onStatus hx hm⟩
  | header done left =>
    cases left with
    | nil =>
      obtain ⟨hb, hlt, he⟩ := h.line [] x.framing.bytes hop hres rfl
        (by simp [Position.rest, Reply.lineBytes]) rfl .accept
      obtain rfl : x.lines = done := by simpa [Position.Fits] using h.fits
      exact ⟨_, untouched_taken w _, hlt, he ▸ hb.onHeader_end hx hbody⟩
    | cons line left =>
      have hmem : line ∈ x.lines := by
        rw [show x.lines = _ from h.fits]
        simp
      obtain ⟨hb, hlt, he⟩ := h.line line
        ((Position.header (done ++ [line]) left).rest x) hop hres rfl
        (by simp [Position.rest, Reply.lineBytes]) (hx.lines line hmem).2.1 .accept
      exact ⟨_, untouched_taken w _, hlt, he ▸ hb.onHeader hx h.fits⟩
  | counted =>
    obtain ⟨data, hframing, hne⟩ := h.fits
    obtain ⟨hb, hlt, he⟩ := h.data data [] hop hres
      (by simp [Position.wanted, hframing, Framing.content]) hne
      (by simp [Position.rest, hframing, Framing.bytes]) .accept
    exact ⟨_, untouched_taken w _, hlt,
      he ▸ (hb.onBody hx hframing (h.mode_taken rfl _)).mono (by decide)⟩
  | size done left =>
    cases left with
    | nil =>
      obtain ⟨zero, hframing⟩ := h.fits
      have hframed := hx.framed
      rw [hframing] at hframed
      obtain ⟨hb, hlt, he⟩ := h.line x.framing.zero crlf hop hres rfl
        (by simp [Position.rest, chunkBytes])
        (by simpa [hframing, Framing.zero] using find_crlf_of_allDigits hframed.2.2.2.digits) .accept
      exact ⟨_, untouched_taken w _, hlt,
        he ▸ hb.onChunkSize_last hx h.fits (h.mode_taken rfl _)⟩
    | cons chunk left =>
      obtain ⟨zero, hframing⟩ := h.fits
      have hframed := hx.framed
      rw [hframing] at hframed
      obtain ⟨hb, hlt, he⟩ := h.line chunk.1
        ((Position.data done chunk left).rest x) hop hres rfl
        (by simp [Position.rest, chunkBytes])
        (find_crlf_of_allDigits (hframed.2.2.1 chunk (by simp)).1.digits) .accept
      exact ⟨_, untouched_taken w _, hlt, he ▸ hb.onChunkSize hx h.fits (h.mode_taken rfl _)⟩
  | data done chunk left =>
    obtain ⟨hb, hlt, he⟩ := h.data (chunk.2 ++ crlf)
      ((Position.size (done ++ [chunk]) left).rest x) hop hres (by simp [Position.wanted])
      (by simp [crlf]) (by simp [Position.rest]) .accept
    exact ⟨_, untouched_taken w _, hlt,
      he ▸ (hb.onChunkData h.fits (h.mode_taken rfl _)).mono (by decide)⟩
  | last =>
    obtain ⟨hb, hlt, he⟩ := h.line [] [] hop hres rfl
      (by simp [Position.rest]) rfl .accept
    exact ⟨_, untouched_taken w _, hlt, he ▸ (hb.onLast (h.mode_taken rfl _)).mono (by decide)⟩

end Reading

end AsioProtocols
