import AsioProtocols.Http.Request

/-!
# Serialising a request

`bytes()` writes the request line, a line for each header, an empty line and the
body, and `parse_data` reads them (**`parseData_bytes`**). The body may hold
anything, line separators included, since the parser stops at the first empty
line; what the other pieces may not hold is in `Serialisable`. The proof follows
the parser: the request line is cut at its first two spaces, and each turn of the
loop takes one header off the list.
-/

namespace AsioProtocols

namespace Request

/-- No CR and no LF. -/
def OneLine (s : Bytes) : Prop := (13 : Byte) ∉ s ∧ (10 : Byte) ∉ s

instance (s : Bytes) : Decidable (OneLine s) := inferInstanceAs (Decidable (_ ∧ _))

/-- A header whose name the constructor has normalised, without a colon, and whose
value is trimmed, on one line. -/
structure HeaderSerialisable (h : Header) : Prop where
  normal : ∃ k, h.key = Header.normalizeKey k
  colon : ch ':' ∉ h.key
  key : OneLine h.key
  value : OneLine h.value
  trimmed : Trimmed h.value

/-- **What a request may consist of**; nothing is asked of the body. -/
structure Serialisable (r : Request) : Prop where
  method : ch ' ' ∉ r.method ∧ OneLine r.method
  path : ch ' ' ∉ r.requestPath ∧ OneLine r.requestPath
  version : OneLine r.version
  headers : ∀ h ∈ r.headers, HeaderSerialisable h

theorem OneLine.append {a b : Bytes} (ha : OneLine a) (hb : OneLine b) : OneLine (a ++ b) := by
  constructor
  · rw [List.mem_append, not_or]
    exact ⟨ha.1, hb.1⟩
  · rw [List.mem_append, not_or]
    exact ⟨ha.2, hb.2⟩

theorem OneLine.find {s : Bytes} (h : OneLine s) : find crlf s = none := find_of_not_mem h.1

/-- A header as it is written, without its line separator. -/
def headerLine (h : Header) : Bytes := h.key ++ ascii ": " ++ h.value

/-- The first line, without its separator. -/
def initialLine (r : Request) : Bytes :=
  r.method ++ ascii " " ++ r.requestPath ++ ascii " " ++ r.version

theorem bytes_eq (r : Request) : r.bytes =
    r.initialLine ++ crlf ++ ((r.headers.flatMap fun h => headerLine h ++ crlf) ++
      (crlf ++ r.body)) := by
  simp [bytes, initialLine, headerLine, List.append_assoc]

/-! ## The first line -/

theorem parseInitialLine_initialLine {r : Request} (h : Serialisable r) (q : Request) :
    q.parseInitialLine r.initialLine =
      ({ q with method := r.method, requestPath := r.requestPath, version := r.version }, none) := by
  have hline : r.initialLine =
      r.method ++ ch ' ' :: (r.requestPath ++ ch ' ' :: r.version) := by
    simp [initialLine, ascii]
  have hrest : (r.method ++ ch ' ' :: (r.requestPath ++ ch ' ' :: r.version)).drop
      (r.method.length + 1) = r.requestPath ++ ch ' ' :: r.version := drop_byte _ _ _
  have hversion : (r.requestPath ++ ch ' ' :: r.version).drop (r.requestPath.length + 1) =
      r.version := drop_byte _ _ _
  have hmethod : find (ascii " ") (r.method ++ ch ' ' :: (r.requestPath ++ ch ' ' :: r.version)) =
      some r.method.length := find_byte _ h.method.1
  have hpath : find (ascii " ") (r.requestPath ++ ch ' ' :: r.version) =
      some r.requestPath.length := find_byte _ h.path.1
  rw [parseInitialLine, hline, hmethod]
  simp only [hrest, hpath, hversion, List.take_left]

/-! ## The headers -/

/-- A written header is parsed as itself. -/
theorem parseHeaderLine_headerLine {h : Header} (hh : HeaderSerialisable h) (m : Message) :
    m.parseHeaderLine (headerLine h) = .ok (m.addHeader h) := by
  have hline : headerLine h = h.key ++ ch ':' :: (ascii " " ++ h.value) := by
    simp [headerLine, ascii]
  have hcolon : find (ascii ":") (h.key ++ ch ':' :: (ascii " " ++ h.value)) =
      some h.key.length := find_byte _ hh.colon
  have hvalue : (h.key ++ ch ':' :: (ascii " " ++ h.value)).drop (h.key.length + 1) =
      ascii " " ++ h.value := drop_byte _ _ _
  have hspace : ∀ c ∈ ascii " ", isSpace c = true := List.all_eq_true.mp (by decide)
  obtain ⟨k, hk⟩ := hh.normal
  have hkey : Header.normalizeKey h.key = h.key := by
    rw [hk, Header.normalizeKey_normalizeKey]
  rw [Message.parseHeaderLine, hline, if_neg (by simp), hcolon]
  simp only [List.take_left, hvalue, trim_append hspace hh.trimmed, Header.make, hkey,
    Header.normalizeValue]

theorem headerLine_ne_nil (h : Header) : headerLine h ≠ [] := by
  simp [headerLine, ascii]

theorem oneLine_headerLine {h : Header} (hh : HeaderSerialisable h) : OneLine (headerLine h) :=
  (hh.key.append (by decide)).append hh.value

/-- **The loop** takes the headers off the text one by one. -/
theorem parseHeaders_headerLines (body : Bytes) : ∀ (headers : List Header) (m : Message),
    (∀ h ∈ headers, HeaderSerialisable h) →
    m.parseHeaders ((headers.flatMap fun h => headerLine h ++ crlf) ++ (crlf ++ body)) =
      ({ m with headers := m.headers ++ headers }, .ok body)
  | [], m, _ => by
    rw [List.flatMap_nil, List.nil_append, Message.parseHeaders_end, List.append_nil]
  | h :: headers, m, hall => by
    have hh := hall h List.mem_cons_self
    rw [List.flatMap_cons, List.append_assoc,
      Message.parseHeaders_line (headerLine_ne_nil h) (oneLine_headerLine hh).find
        (parseHeaderLine_headerLine hh m),
      parseHeaders_headerLines body headers _ fun h' hh' => hall h' (List.mem_cons_of_mem h hh')]
    simp [Message.addHeader]

/-- **Round trip**: method, path, version and headers come back, and `parse_body`
is given the body. -/
theorem parseData_bytes {r : Request} (h : Serialisable r) :
    parseData {} r.bytes = ({ r with body := [] }, .ok r.body) := by
  have hline : OneLine r.initialLine :=
    (((h.method.2.append (by decide)).append h.path.2).append (by decide)).append h.version
  rw [parseData, bytes_eq, parseData_line hline.find]
  simp only [parseInitialLine_initialLine h, parseHeaders_headerLines _ _ _ h.headers,
    List.nil_append]

/-- A request with an empty path, an empty header value and line separators in its
body. -/
def postRequest : Request :=
  { method := ascii "POST", requestPath := [], version := ascii "HTTP/1.1",
    headers := [Header.make (ascii "host") (ascii "localhost"), Header.make (ascii "x-EMPTY") []],
    body := ascii "a" ++ crlf ++ crlf ++ ascii "b" }

theorem parseData_bytes_postRequest :
    parseData {} postRequest.bytes = ({ postRequest with body := [] }, .ok postRequest.body) := by
  refine parseData_bytes ⟨by decide, by decide, by decide, fun h hh => ?_⟩
  rcases List.mem_cons.mp hh with rfl | hh
  · exact ⟨⟨ascii "host", rfl⟩, by decide, by decide, by decide, by decide⟩
  · rw [List.mem_singleton.mp hh]
    exact ⟨⟨ascii "x-EMPTY", rfl⟩, by decide, by decide, by decide, by decide⟩

end Request

end AsioProtocols
