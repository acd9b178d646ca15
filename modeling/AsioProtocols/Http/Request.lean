import AsioProtocols.Http.Message
import AsioProtocols.Http.Uri

/-!
# Making and parsing messages

The constructor of `net::http::request` from a URI and its `parse_initial_line`
(`http/request.h`), and `message::parse_data` (`http/message.h`), which requests
and responses share. As with `Response.parseInitialLine`, a parser that throws
half way has stored what it parsed by then.
-/

namespace AsioProtocols

namespace Request

/-- `request(u)` (request.h, lines 27-45) -/
def ofUri (u : Uri) : Request :=
  let path := if u.path = [] then ascii "/" else u.path
  let path := if u.haveQuery then path ++ (ascii "?" ++ u.query) else path
  { version := ascii "HTTP/1.1", requestPath := path
    headers := [Header.make (ascii "Host") u.hostname] }

/-- `parse_initial_line(in)` (request.h, lines 61-84) -/
def parseInitialLine (q : Request) (line : Bytes) : Request × Option Exn :=
  match find (ascii " ") line with
  | none => (q, some (.runtimeError (ascii "No request method found")))
  | some next =>
    let q := { q with method := line.take next }
    let rest := line.drop (next + 1)
    match find (ascii " ") rest with
    | none => (q, some (.runtimeError (ascii "No request path found")))
    | some next => ({ q with requestPath := rest.take next, version := rest.drop (next + 1) }, none)

end Request

/-- The end of a line lies within the text. -/
theorem find_crlf_lt {s : Bytes} {i : Nat} (h : find crlf s = some i) : i + 2 ≤ s.length := by
  obtain ⟨hs, -, htake⟩ := exists_line h
  have hlen := congrArg List.length hs
  rw [List.length_append, List.length_append, length_crlf, htake] at hlen
  omega

/-- The loop of `parse_data`: header lines up to an empty one. `rest` is what
follows the last line separator, and the result what `parse_body` is given. -/
def Message.parseHeaders (m : Message) (rest : Bytes) : Message × Except Exn Bytes :=
  match h : find crlf rest with
  | none => (m, .error (.runtimeError (ascii "Invalid data while parsing headers")))
  | some stop =>
    if stop = 0 then (m, .ok (rest.drop 2))
    else
      match m.parseHeaderLine (rest.take stop) with
      | .error e => (m, .error e)
      | .ok m => m.parseHeaders (rest.drop (stop + 2))
termination_by rest.length
decreasing_by
  have hlen := find_crlf_lt h
  rw [List.length_drop]
  omega

/-- `parse_data(in)` (message.h, lines 39-73), for a kind of message with its own
first line: the message, and what `parse_body` is given or what is thrown. -/
def parseData {α : Type} (parseInitialLine : α → Bytes → α × Option Exn) (toMessage : α → Message)
    (setMessage : α → Message → α) (a : α) (input : Bytes) : α × Except Exn Bytes :=
  match find crlf input with
  | none => (a, .error (.runtimeError (ascii "Invalid initial line")))
  | some stop =>
    match parseInitialLine a (input.take stop) with
    | (a, some e) => (a, .error e)
    | (a, none) =>
      let (m, body) := (toMessage a).parseHeaders (input.drop (stop + 2))
      (setMessage a m, body)

/-- What `parse_data` makes of a first line and the rest. -/
theorem parseData_line {α : Type} {parseInitialLine : α → Bytes → α × Option Exn}
    {toMessage : α → Message} {setMessage : α → Message → α} {a : α} {line rest : Bytes}
    (h : find crlf line = none) :
    parseData parseInitialLine toMessage setMessage a (line ++ crlf ++ rest) =
      match parseInitialLine a line with
      | (a, some e) => (a, .error e)
      | (a, none) =>
        (setMessage a ((toMessage a).parseHeaders rest).1, ((toMessage a).parseHeaders rest).2) := by
  obtain ⟨hfind, htake, hdrop⟩ := split_line rest h
  rw [parseData, hfind]
  simp only [htake, hdrop]

/-- `parse_data` on a request. -/
def Request.parseData : Request → Bytes → Request × Except Exn Bytes :=
  AsioProtocols.parseData parseInitialLine toMessage fun q m => { q with toMessage := m }

/-- `parse_data` on a response. -/
def Response.parseData : Response → Bytes → Response × Except Exn Bytes :=
  AsioProtocols.parseData parseInitialLine toMessage fun r m => { r with toMessage := m }

namespace Message

variable {m m' : Message} {line rest : Bytes}

theorem parseHeaders_of_none (h : find crlf rest = none) : m.parseHeaders rest =
    (m, .error (.runtimeError (ascii "Invalid data while parsing headers"))) := by
  rw [parseHeaders]
  split
  · rfl
  · rename_i stop hstop
    rw [h] at hstop
    cases hstop

/-- One turn of the loop. -/
theorem parseHeaders_of_some {stop : Nat} (h : find crlf rest = some stop) : m.parseHeaders rest =
    if stop = 0 then (m, .ok (rest.drop 2))
    else
      match m.parseHeaderLine (rest.take stop) with
      | .error e => (m, .error e)
      | .ok m => m.parseHeaders (rest.drop (stop + 2)) := by
  rw [parseHeaders]
  split
  · rename_i hnone
    rw [h] at hnone
    cases hnone
  · rename_i stop' hstop
    rw [h] at hstop
    cases hstop
    rfl

/-- The empty line ends the headers. -/
theorem parseHeaders_end (m : Message) (rest : Bytes) :
    m.parseHeaders (crlf ++ rest) = (m, .ok rest) := by
  have hfind : find crlf (crlf ++ rest) = some 0 := find_of_prefix (List.prefix_append _ _)
  exact parseHeaders_of_some hfind

/-- One header line is parsed, and the loop goes on behind it. -/
theorem parseHeaders_line (hne : line ≠ []) (hline : find crlf line = none)
    (hparse : m.parseHeaderLine line = .ok m') :
    m.parseHeaders (line ++ crlf ++ rest) = m'.parseHeaders rest := by
  obtain ⟨hfind, htake, hdrop⟩ := split_line rest hline
  rw [parseHeaders_of_some hfind, if_neg (by simpa using hne), htake, hparse, hdrop]

/-- **What the loop accepts** is a list of header lines, each parsed, and an empty
line. -/
theorem parseHeaders_eq_ok {body : Bytes} (h : m.parseHeaders rest = (m', .ok body)) :
    (rest = crlf ++ body ∧ m' = m) ∨
      ∃ line rest' m₁, rest = line ++ crlf ++ rest' ∧ line ≠ [] ∧ find crlf line = none ∧
        m.parseHeaderLine line = .ok m₁ ∧ m₁.parseHeaders rest' = (m', .ok body) := by
  rcases hfind : find crlf rest with _ | stop
  · rw [parseHeaders_of_none hfind] at h
    cases h
  · rw [parseHeaders_of_some hfind] at h
    obtain ⟨hrest, hline, hlen⟩ := exists_line hfind
    split at h
    · rename_i hzero
      subst hzero
      cases h
      exact .inl ⟨hrest, rfl⟩
    · rename_i hpos
      split at h
      · cases h
      · rename_i m₁ hparse
        refine .inr ⟨_, _, m₁, hrest, ?_, hline, hparse, h⟩
        intro hnil
        rw [hnil, List.length_nil] at hlen
        exact hpos hlen.symm

end Message

end AsioProtocols
