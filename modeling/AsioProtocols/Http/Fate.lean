import AsioProtocols.Http.Delimiter
import AsioProtocols.Http.RequestRoundTrip

/-!
# What becomes of what a server sends

Two descriptions of a byte sequence that a server sends in answer to a request.
`WellFormed` is the grammar of a response. `Response.fate` is how far the parsers of
the client get with it: it takes the sequence apart line by line as a whole, with
nothing of the event loop in it, and says whether a parser throws, the headers frame
nothing, the sequence ends before the response does (and before which read), or
the response completes.

`Harmless` puts them together: a sequence on which no exception escapes, and that is
well-formed or else one of those that the connection turns down.
-/

namespace AsioProtocols

/-! ## The grammar -/

/-- A character of a header name. -/
def isTokenChar (b : Byte) : Bool :=
  b == 33 || (35 ≤ b && b ≤ 39) || b == 42 || b == 43 || b == 45 || b == 46 ||
    (48 ≤ b && b ≤ 57) || (65 ≤ b && b ≤ 90) || (94 ≤ b && b ≤ 122) || b == 124 || b == 126

/-- `HTTP-version SP status-code SP reason-phrase` -/
def IsStatusLine (line : Bytes) (status : Nat) : Prop :=
  ∃ major minor code reason, line =
      ascii "HTTP/" ++ [major] ++ ascii "." ++ [minor] ++ ascii " " ++ code ++ ascii " " ++ reason ∧
    AllDigits 10 [major, minor] ∧ code.length = 3 ∧ AllDigits 10 code ∧
    ofDigits 10 (code.filterMap (digitVal 10)) = status ∧ Request.OneLine reason

/-- `field-name ":" field-value` -/
def IsHeaderLine (line : Bytes) : Prop :=
  ∃ name value, line = name ++ ascii ":" ++ value ∧ name ≠ [] ∧
    (∀ b ∈ name, isTokenChar b = true) ∧ Request.OneLine value

/-- `chunk-size [ chunk-ext ]` -/
def IsSizeLine (line : Bytes) (n : Nat) : Prop :=
  ∃ digits ext, line = digits ++ ext ∧ digits ≠ [] ∧ AllDigits 16 digits ∧
    ofDigits 16 (digits.filterMap (digitVal 16)) = n ∧ Request.OneLine ext ∧
    (ext = [] ∨ (trim ext).head? = some (ch ';'))

/-- Chunks, the last chunk, and a trailer section. -/
inductive IsChunked : Bytes → Prop
  | last {line : Bytes} {trailers : List Bytes} (size : IsSizeLine line 0)
      (headers : ∀ t ∈ trailers, IsHeaderLine t) :
      IsChunked (line ++ crlf ++ Reply.lineBytes trailers ++ crlf)
  | chunk {line data rest : Bytes} (size : IsSizeLine line data.length) (ne : data ≠ [])
      (more : IsChunked rest) : IsChunked (line ++ crlf ++ data ++ crlf ++ rest)

/-- `body` is the body of a response `m`, as its headers say. A response with neither
length nor chunked coding ends with the connection. -/
def IsBody (m : Response) (body : Bytes) : Prop :=
  if m.statusCode < 200 then body = []
  else match m.prescribed with
    | some .nothing => body = []
    | some .chunks => IsChunked body
    | some (.length n) => body.length = n
    | none => m.headerValue (ascii "Content-Length") = none

/-- **A well-formed response to `q`**, and anything behind it. -/
def WellFormed (q : Request) (s : Bytes) : Prop :=
  ∃ line lines body rest status, s = line ++ crlf ++ Reply.lineBytes lines ++ crlf ++ body ++ rest ∧
    IsStatusLine line status ∧ (∀ l ∈ lines, IsHeaderLine l) ∧
    (∀ h ∈ lines.map headerOf, h.isNamed (ascii "Content-Length") = true →
      Message.headerValue { headers := lines.map headerOf } (ascii "Content-Length") =
        some h.value) ∧
    IsBody { request := q, statusCode := status, headers := lines.map headerOf } body

/-! ## How far the parsers get -/

/-- What becomes of a byte sequence behind which the server hangs up. -/
inductive Fate
  | escapes
  | unframed
  | cut (p : Point)
  | completes
  deriving DecidableEq, Repr

namespace Fate

/-- The line behind the last chunk. -/
def ofLast (s : Bytes) : Fate := if find crlf s = none then .cut .last else .completes

/-- A counted body. -/
def ofBody (n : Nat) (s : Bytes) : Fate := if s.length < n then .cut .body else .completes

/-- Chunks, from the size of one on. -/
def ofChunks (s : Bytes) : Fate :=
  match h : find crlf s with
  | none => .cut .chunkSize
  | some stop =>
    match stoi 16 (s.take stop) with
    | .error _ => .escapes
    | .ok n =>
      if 0 < toSize n then
        if (s.drop (stop + 2)).length < (toSize n + 2) % 18446744073709551616 then .cut .chunkData
        else ofChunks ((s.drop (stop + 2)).drop ((toSize n + 2) % 18446744073709551616))
      else ofLast (s.drop (stop + 2))
termination_by s.length
decreasing_by
  have hlen := find_crlf_lt h
  simp only [List.length_drop]
  omega

/-- The body, as the headers of `m` frame it. -/
def ofFraming (m : Message) (s : Bytes) : Fate :=
  match m.headerValue (ascii "Content-Length") with
  | some t =>
    match stoi 10 t with
    | .error _ => .escapes
    | .ok n => ofBody (toSize n) s
  | none =>
    match m.headerValue (ascii "Transfer-Encoding") with
    | some t => if find (ascii "chunked") t = none then .unframed else ofChunks s
    | none => .unframed

/-- Header lines, and what they frame. -/
def ofHeaders (m : Message) (s : Bytes) : Fate :=
  match h : find crlf s with
  | none => .cut .header
  | some stop =>
    if stop = 0 then ofFraming m (s.drop 2)
    else
      match m.parseHeaderLine (s.take stop) with
      | .error _ => .escapes
      | .ok m => ofHeaders m (s.drop (stop + 2))
termination_by s.length
decreasing_by
  have hlen := find_crlf_lt h
  rw [List.length_drop]
  omega

theorem ofHeaders_of_find {m : Message} {s : Bytes} {stop : Nat} (h : find crlf s = some stop) :
    ofHeaders m s = if stop = 0 then ofFraming m (s.drop 2)
      else match m.parseHeaderLine (s.take stop) with
        | .error _ => .escapes
        | .ok m => ofHeaders m (s.drop (stop + 2)) := by
  rw [ofHeaders]
  split
  · rename_i hnone
    rw [h] at hnone
    cases hnone
  · rename_i stop' hsome
    obtain rfl := Option.some.inj (h.symm.trans hsome)
    rfl

theorem ofChunks_of_find {s : Bytes} {stop : Nat} (h : find crlf s = some stop) :
    ofChunks s = match stoi 16 (s.take stop) with
      | .error _ => .escapes
      | .ok n =>
        if 0 < toSize n then
          if (s.drop (stop + 2)).length < (toSize n + 2) % 18446744073709551616 then .cut .chunkData
          else ofChunks ((s.drop (stop + 2)).drop ((toSize n + 2) % 18446744073709551616))
        else ofLast (s.drop (stop + 2)) := by
  rw [ofChunks]
  split
  · rename_i hnone
    rw [h] at hnone
    cases hnone
  · rename_i stop' hsome
    obtain rfl := Option.some.inj (h.symm.trans hsome)
    rfl

theorem of_none {s : Bytes} (h : find crlf s = none) :
    (∀ m, ofHeaders m s = .cut .header) ∧ ofChunks s = .cut .chunkSize ∧ ofLast s = .cut .last := by
  refine ⟨fun m => ?_, ?_, if_pos h⟩
  · rw [ofHeaders]
    split
    · rfl
    · rename_i hsome
      rw [h] at hsome
      cases hsome
  · rw [ofChunks]
    split
    · rfl
    · rename_i hsome
      rw [h] at hsome
      cases hsome

end Fate

/-- **The fate of `s`**, sent in answer to the request of the response `m`. -/
def Response.fate (m : Response) (s : Bytes) : Fate :=
  match find crlf s with
  | none => .cut .status
  | some stop =>
    match m.parseInitialLine (s.take stop) with
    | (_, some _) => .escapes
    | (m, none) => Fate.ofHeaders m.toMessage (s.drop (stop + 2))

theorem Response.fate_of_find {m : Response} {s : Bytes} {stop : Nat}
    (h : find crlf s = some stop) :
    m.fate s = match m.parseInitialLine (s.take stop) with
      | (_, some _) => .escapes
      | (m, none) => Fate.ofHeaders m.toMessage (s.drop (stop + 2)) := by
  rw [fate, h]

/-- A fate that ends with the attempt failed and the connection closed. The read of a
chunk-size line and that of the line behind the last chunk have no `on_fail` hook. -/
def Fate.turnedDown : Fate → Bool
  | .unframed => true
  | .cut p => p.hooked
  | .escapes | .completes => false

/-- **A byte sequence that does no harm**: no parser throws on it, and it is a
well-formed response or is turned down. -/
def Response.Harmless (m : Response) (s : Bytes) : Prop :=
  m.fate s ≠ .escapes ∧ (WellFormed m.request s ∨ (m.fate s).turnedDown = true)

end AsioProtocols
