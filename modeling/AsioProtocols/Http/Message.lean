import AsioProtocols.Base.Stoi
import AsioProtocols.Http.Header

/-!
# `net::http::message`, `request` and `response`

The header list and the body of a message (`http/message.h`), the bytes of a
request (`http/request.h`) and the pieces of a response that the connection
fills in (`http/response.h`). The futures of a response are in
`Http/Completions.lean`.

A parser that throws half way has already stored what it parsed, so
`parseInitialLine` gives back the response as well.
-/

namespace AsioProtocols

/-- `version_`, `headers_` and `body_` of a message. -/
structure Message where
  version : Bytes := []
  headers : List Header := []
  body : Bytes := []
  deriving DecidableEq, Repr

namespace Message

/-- `have_header(k)` (message.h, lines 106-110) -/
def haveHeader (m : Message) (k : Bytes) : Bool := m.headers.any (·.isNamed k)

/-- `header_value(k)` (message.h, lines 112-118): the value of the first header
of that name, `none` where the source throws `header k not found`. -/
def headerValue (m : Message) (k : Bytes) : Option Bytes :=
  (m.headers.find? (·.isNamed k)).map Header.value

/-- The text of the exception of `header_value(k)`. -/
def notFound (k : Bytes) : Bytes := ascii "header " ++ k ++ ascii " not found"

/-- `add_header(h)` (message.h, lines 120-126) -/
def addHeader (m : Message) (h : Header) : Message := { m with headers := m.headers ++ [h] }

/-- The loop of `set_header`: the value of the first header of that name is
replaced; `none` when there is no such header. -/
def setFirst (k v : Bytes) : List Header → Option (List Header)
  | [] => none
  | h :: hs => if h.isNamed k then some ({ h with value := v } :: hs) else (setFirst k v hs).map (h :: ·)

/-- `set_header(k, v)` (message.h, lines 128-139) -/
def setHeader (m : Message) (k v : Bytes) : Message :=
  match setFirst k v m.headers with
  | some hs => { m with headers := hs }
  | none => m.addHeader (Header.make k v)

/-- `body(in)` (message.h, lines 164-167) -/
def setBody (m : Message) (s : Bytes) : Message :=
  setHeader { m with body := s } (ascii "Content-Length") (decimal s.length)

/-- `append_body(in)` (message.h, lines 168-170) -/
def appendBody (m : Message) (s : Bytes) : Message := { m with body := m.body ++ s }

/-- `parse_header_line(in)` (message.h, lines 75-91) -/
def parseHeaderLine (m : Message) (line : Bytes) : Except Exn Message :=
  if line = [] then .ok m
  else
    match find (ascii ":") line with
    | none => .error (.runtimeError (ascii "No header name found"))
    -- the value is trimmed, the name is not
    | some next => .ok (m.addHeader (Header.make (line.take next) (trim (line.drop (next + 1)))))

end Message

/-- The header of a line: the text before the first colon, normalised as every
header is, and the text behind it without white space around it. -/
def headerOf (line : Bytes) : Header :=
  Header.make (line.takeWhile (· != ch ':')) (trim (line.dropWhile (· != ch ':')).tail)

/-- A request: a message with `method_` and `request_path_`. -/
structure Request extends Message where
  method : Bytes := []
  requestPath : Bytes := []
  deriving DecidableEq, Repr

/-- `request::bytes()` (request.h, lines 115-126) -/
def Request.bytes (q : Request) : Bytes :=
  q.method ++ ascii " " ++ q.requestPath ++ ascii " " ++ q.version ++ crlf ++
    (q.headers.flatMap fun h => h.key ++ ascii ": " ++ h.value ++ crlf) ++
    crlf ++ q.body

/-- A response: its request, `status_code_`, `status_message_` and the stall
timeout, here in the milliseconds that `extend_timer` makes of it. -/
structure Response extends Message where
  request : Request
  statusCode : Nat := 0
  statusMessage : Bytes := []
  stallTimeout : Nat := 30000
  deriving DecidableEq, Repr

namespace Response

/-- `static_cast<uint16_t>` of the number read. -/
def toStatus (v : Int) : Nat := toUint16 v

/-- `parse_initial_line(in)` (response.h, lines 62-82) -/
def parseInitialLine (m : Response) (line : Bytes) : Response × Option Exn :=
  match find (ascii " ") line with
  | none => (m, some (.runtimeError (ascii "No response version found")))
  | some next =>
    -- stays when what is behind it turns out malformed
    let m := { m with version := line.take next }
    let rest := line.drop (next + 1)
    match find (ascii " ") rest with
    | none => (m, some (.runtimeError (ascii "No status code found")))
    | some next =>
      match stoi 10 (rest.take next) with
      | .error e => (m, some (.logicError e))
      | .ok v => ({ m with statusCode := toStatus v, statusMessage := rest.drop (next + 1) }, none)

/-- `reset()` (response.h, lines 136-141), the future apart. -/
def reset (m : Response) : Response := { m with headers := [], version := [], body := [] }

end Response

end AsioProtocols
