import AsioProtocols.Http.World

/-!
# The replies of a server

`Reply` is a response as a server writes it, `Reply.bytes` the bytes it sends and
`Reply.stored` what a response object should hold in the end. A reply is
`WellFormed` if its body is framed by one `Content-Length` or by the chunked
encoding and it does not ask to close.

The lemmas say what the parsers of the client make of each piece of a well-formed
reply: the status line, a header line, the size of a chunk, and the headers that
decide about the body.
-/

namespace AsioProtocols

/-! ## Lines of digits -/

/-- Digits form no line separator. -/
theorem find_crlf_of_allDigits {base : Nat} {s : Bytes} (h : AllDigits base s) :
    find crlf s = none := by
  refine find_of_not_mem fun hcr => ?_
  exact absurd (digitVal_not_space (h 13 hcr)).1 (by decide)

/-! ## Replies -/

/-- The body of a reply: counted, or chunks, each with its size line, and the line
of the last chunk. -/
inductive Framing
  | counted (data : Bytes)
  | chunked (chunks : List (Bytes × Bytes)) (zero : Bytes)

/-- The bytes of the chunks. -/
def chunkBytes (chunks : List (Bytes × Bytes)) : Bytes :=
  chunks.flatMap fun chunk => chunk.1 ++ crlf ++ chunk.2 ++ crlf

namespace Framing

/-- The bytes of the body on the wire. -/
def bytes : Framing → Bytes
  | .counted data => data
  | .chunked chunks zero => chunkBytes chunks ++ zero ++ crlf ++ crlf

/-- The content of the body. -/
def content : Framing → Bytes
  | .counted data => data
  | .chunked chunks _ => chunks.flatMap Prod.snd

end Framing

/-- A response as the server writes it. -/
structure Reply where
  version : Bytes
  code : Bytes
  message : Bytes
  lines : List Bytes
  framing : Framing

/-- `text` is a size in hexadecimal digits, below `2^31`. -/
structure HexSize (text : Bytes) (n : Nat) : Prop where
  nonempty : text ≠ []
  digits : AllDigits 16 text
  value : ofDigits 16 (text.filterMap (digitVal 16)) = n
  small : n < 2147483648

namespace Reply

/-- `version SP code SP message` -/
def statusLine (x : Reply) : Bytes := x.version ++ ascii " " ++ x.code ++ ascii " " ++ x.message

/-- The header lines, each with its separator. -/
def lineBytes (lines : List Bytes) : Bytes := lines.flatMap (· ++ crlf)

/-- What the server sends. -/
def bytes (x : Reply) : Bytes :=
  x.statusLine ++ crlf ++ lineBytes x.lines ++ crlf ++ x.framing.bytes

def headers (x : Reply) : List Header := x.lines.map headerOf

/-- The status code. -/
def status (x : Reply) : Nat := ofDigits 10 (x.code.filterMap (digitVal 10))

/-- The body is framed by exactly one of the two headers, which tells the truth. -/
def Framed (headers : List Header) : Framing → Prop
  | .counted data =>
    (∃ h, headers.filter (·.isNamed (ascii "Content-Length")) = [h] ∧
      h.value = decimal data.length) ∧
    (∀ h ∈ headers, h.isNamed (ascii "Transfer-Encoding") = false) ∧ data.length < 2147483648
  | .chunked chunks zero =>
    (∃ h, headers.filter (·.isNamed (ascii "Transfer-Encoding")) = [h] ∧
      h.value = ascii "chunked") ∧
    (∀ h ∈ headers, h.isNamed (ascii "Content-Length") = false) ∧
    (∀ chunk ∈ chunks, HexSize chunk.1 chunk.2.length ∧ chunk.2 ≠ []) ∧ HexSize zero 0

/-- **A final response** that is framed and keeps the connection open. -/
structure WellFormed (x : Reply) : Prop where
  version : ch ' ' ∉ x.version
  code : x.code.length = 3 ∧ AllDigits 10 x.code
  statusLine : find crlf x.statusLine = none
  lines : ∀ line ∈ x.lines, line ≠ [] ∧ find crlf line = none ∧ ch ':' ∈ line
  keepsOpen : ∀ h ∈ x.headers, h.isNamed (ascii "Connection") = true → h.value ≠ ascii "close"
  framed : Framed x.headers x.framing

/-- A response to `m.request` that has been read to its end. -/
def stored (x : Reply) (m : Response) : Response :=
  { m with
    version := x.version
    headers := x.headers
    body := x.framing.content
    statusCode := x.status
    statusMessage := x.message }

end Reply

/-! ## What the parsers make of it -/

namespace Reply

variable {x : Reply}

/-- Three digits are below 1000. -/
theorem WellFormed.status_lt (h : x.WellFormed) : x.status < 1000 := by
  have hlt := value_lt_pow (show 0 < 10 by decide) x.code
  rw [h.code.1] at hlt
  exact hlt

theorem WellFormed.code_ne_nil (h : x.WellFormed) : x.code ≠ [] := by
  intro hnil
  have := h.code.1
  rw [hnil] at this
  cases this

/-- **The status line** fills in version, code and message. -/
theorem WellFormed.parseInitialLine (h : x.WellFormed) (m : Response) :
    m.parseInitialLine x.statusLine =
      ({ m with version := x.version, statusCode := x.status, statusMessage := x.message },
        none) := by
  have hspace : ch ' ' ∉ x.code := by
    intro hm
    have := (digitVal_not_space (h.code.2 _ hm)).1
    revert this
    decide
  have hline : x.statusLine = x.version ++ ch ' ' :: (x.code ++ ch ' ' :: x.message) := by
    simp [Reply.statusLine, ascii]
  have hfirst : find (ascii " ") x.statusLine = some x.version.length := by
    rw [hline]
    exact find_byte _ h.version
  have hrest : x.statusLine.drop (x.version.length + 1) = x.code ++ ch ' ' :: x.message := by
    rw [hline]
    exact drop_byte _ _ _
  have hsecond : find (ascii " ") (x.code ++ ch ' ' :: x.message) = some x.code.length :=
    find_byte _ hspace
  have hstoi : stoi 10 x.code = .ok (x.status : Nat) :=
    stoi_of_digits (by decide) h.code_ne_nil h.code.2 (Nat.lt_trans h.status_lt (by decide))
  have hstatus : Response.toStatus (x.status : Nat) = x.status := by
    have := h.status_lt
    unfold Response.toStatus toUint16
    omega
  simp only [Response.parseInitialLine, hfirst, hrest, hsecond, List.take_left, hstoi, hstatus]
  refine Prod.ext ?_ rfl
  have hversion : x.statusLine.take x.version.length = x.version := by
    rw [hline, List.take_left]
  have hmessage : (x.code ++ ch ' ' :: x.message).drop (x.code.length + 1) = x.message :=
    drop_byte _ _ _
  rw [hversion, hmessage]

/-- **A header line** adds its header. -/
theorem parseHeaderLine_of_mem {line : Bytes} (hne : line ≠ []) (hcolon : ch ':' ∈ line)
    (m : Message) : m.parseHeaderLine line = .ok (m.addHeader (headerOf line)) := by
  obtain ⟨name, value, rfl, hname⟩ := List.eq_append_cons_of_mem hcolon
  have hfind : find (ascii ":") (name ++ ch ':' :: value) = some name.length := find_byte _ hname
  have hdrop : (name ++ ch ':' :: value).drop (name.length + 1) = value := drop_byte _ _ _
  obtain ⟨hbefore, hbehind⟩ := splitAt_byte value hname
  simp only [Message.parseHeaderLine, hne, if_false, hfind, List.take_left, hdrop, headerOf,
    hbefore, hbehind, List.tail_cons]

/-! ## What the headers decide -/

/-- A name that one header has is looked up there. -/
theorem headerValue_of_filter {m : Message} {k : Bytes} {h : Header}
    (hf : m.headers.filter (·.isNamed k) = [h]) : m.headerValue k = some h.value := by
  rw [Message.headerValue, ← List.head?_filter, hf]
  rfl

theorem headerValue_of_none {m : Message} {k : Bytes}
    (hnone : ∀ h ∈ m.headers, h.isNamed k = false) : m.headerValue k = none := by
  rw [Message.headerValue, List.find?_eq_none.mpr fun h hh => by simp [hnone h hh]]
  rfl

/-- The connection is kept. -/
theorem WellFormed.wantsClose (h : x.WellFormed) {m : Message} (hm : m.headers = x.headers) :
    World.wantsClose m = false := by
  rw [World.wantsClose, Bool.and_eq_false_imp]
  intro _
  rw [beq_eq_false_iff_ne, Message.headerValue, hm]
  intro hvalue
  obtain ⟨g, hg, hclose⟩ := Option.map_eq_some_iff.mp hvalue
  have hnamed : g.isNamed (ascii "Connection") = true := by
    simpa using List.find?_some hg
  exact h.keepsOpen g (List.mem_of_find?_eq_some hg) hnamed hclose

/-- Setting a header to the value it has changes nothing. -/
theorem setFirst_self {k v : Bytes} {h : Header} (hv : h.value = v) :
    ∀ {hs : List Header}, hs.find? (·.isNamed k) = some h → Message.setFirst k v hs = some hs
  | [], hf => by simp at hf
  | g :: gs, hf => by
    rw [List.find?_cons] at hf
    rw [Message.setFirst]
    rcases hg : g.isNamed k with _ | _
    · rw [hg] at hf
      simp [setFirst_self hv hf]
    · rw [hg] at hf
      cases hf
      simp [← hv]

/-- A counted body is as long as its header says, so storing it leaves the headers
alone. -/
theorem setBody_of_filter {m : Message} {data : Bytes} {h : Header}
    (hf : m.headers.filter (·.isNamed (ascii "Content-Length")) = [h])
    (hvalue : h.value = decimal data.length) : m.setBody data = { m with body := data } := by
  have hfind : m.headers.find? (·.isNamed (ascii "Content-Length")) = some h := by
    rw [← List.head?_filter, hf]
    rfl
  simp only [Message.setBody, Message.setHeader, setFirst_self hvalue hfind]

end Reply

end AsioProtocols
