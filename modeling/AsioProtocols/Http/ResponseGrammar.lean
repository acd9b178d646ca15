import AsioProtocols.Base.Numeral
import AsioProtocols.Http.Grammar

/-!
# The responses that `parse_data` accepts

`ResponseText` is the grammar of a response: a status line of a version, a code and a message,
header lines with a colon, an empty line, and the body. `parse_data` returns normally on
these texts where the code is a numeral (**`parseData_accepts`**), with the response that the
text says, whatever the response held before. Of its two kinds of exceptions the logic errors
come from the code alone: they are thrown when the status line is whole and its code is
refused, before any header is looked at.

A code is all that `stoi` reads, so `+200`, ` 200` and `200abc` are one, and so is `65736`,
which the status has no room for.
-/

namespace AsioProtocols

/-- A status line. -/
def statusLine (version code message : Bytes) : Bytes :=
  version ++ ch ' ' :: (code ++ ch ' ' :: message)

/-- The first line is a status line with these parts. -/
structure StatusText (line version code message : Bytes) : Prop where
  text : line = statusLine version code message
  oneLine : ¬ crlf <:+: line
  version : ch ' ' ∉ version
  code : ch ' ' ∉ code

/-- **The grammar**: `VERSION SP CODE SP MESSAGE CRLF H1 CRLF ... Hn CRLF CRLF B`. -/
structure ResponseText (input version code message : Bytes) (lines : List Bytes) (body : Bytes) :
    Prop where
  text : input =
    statusLine version code message ++ crlf ++ ((lines.flatMap (· ++ crlf)) ++ (crlf ++ body))
  status : StatusText (statusLine version code message) version code message
  headers : ∀ line ∈ lines, HeaderText line

namespace Response

variable {m m' : Response} {line input version code message : Bytes} {v : Int}

/-- The response with the status line `version v message`. -/
def withStatus (m : Response) (version : Bytes) (v : Int) (message : Bytes) : Response :=
  { m with version := version, statusCode := toStatus v, statusMessage := message }

/-- The response with more header lines. -/
def withHeaders (m : Response) (lines : List Bytes) : Response :=
  { m with headers := m.headers ++ lines.map headerOf }

/-! ## The status line -/

/-- What a status line does depends on its code. -/
theorem parseInitialLine_of_text (h : StatusText line version code message) (m : Response) :
    m.parseInitialLine line =
      match stoi 10 code with
      | .error e => ({ m with version := version }, some (.logicError e))
      | .ok v => (m.withStatus version v message, none) := by
  have hfind : find (ascii " ") (version ++ ch ' ' :: (code ++ ch ' ' :: message)) =
      some version.length := find_byte _ h.version
  have hfind' : find (ascii " ") (code ++ ch ' ' :: message) = some code.length :=
    find_byte _ h.code
  rw [h.text, statusLine, parseInitialLine, hfind]
  simp only [drop_byte, hfind', List.take_left]
  cases stoi 10 code <;> rfl

/-- **A first line is a status line**, or it is refused for the spaces it lacks. -/
theorem exists_statusText (hone : ¬ crlf <:+: line) (m : Response) :
    (∃ version code message, StatusText line version code message) ∨
      ∃ m' what, m.parseInitialLine line = (m', some (.runtimeError what)) := by
  by_cases hmem : ch ' ' ∈ line
  · obtain ⟨hsplit, hversion⟩ := exists_cut hmem
    obtain ⟨hfind, htake, hdrop⟩ := find_byte_of_mem hmem
    by_cases hmem' : ch ' ' ∈ (cut (ch ' ') line).2
    · obtain ⟨hsplit', hcode⟩ := exists_cut hmem'
      refine .inl ⟨_, _, (cut (ch ' ') (cut (ch ' ') line).2).2, ?_, hone, hversion, hcode⟩
      rw [statusLine, ← hsplit', ← hsplit]
    · have hspace : find (ascii " ") line = some (cut (ch ' ') line).1.length := hfind
      have hnone : find (ascii " ") (cut (ch ' ') line).2 = none := find_of_not_mem hmem'
      refine .inr ⟨{ m with version := (cut (ch ' ') line).1 }, ascii "No status code found", ?_⟩
      rw [parseInitialLine, hspace]
      simp only [htake, hdrop, hnone]
  · have hnone : find (ascii " ") line = none := find_of_not_mem hmem
    refine .inr ⟨m, ascii "No response version found", ?_⟩
    rw [parseInitialLine, hnone]

/-! ## The header lines -/

theorem parseHeaders_lines (body : Bytes) {lines : List Bytes}
    (h : ∀ line ∈ lines, HeaderText line) (m : Message) :
    m.parseHeaders ((lines.flatMap (· ++ crlf)) ++ (crlf ++ body)) =
      ({ m with headers := m.headers ++ lines.map headerOf }, .ok body) := by
  rw [← Message.hearHeaders_snd, hearHeaders_lines body lines m h]

/-- **The loop accepts header lines and an empty line**, and throws runtime errors only. -/
theorem parseHeaders_cases (m : Message) (rest : Bytes) :
    (∃ (lines : List Bytes) (body : Bytes), rest = (lines.flatMap (· ++ crlf)) ++ (crlf ++ body) ∧
      ∀ line ∈ lines, HeaderText line) ∨
      ∃ m' what, m.parseHeaders rest = (m', .error (.runtimeError what)) := by
  rcases hparse : m.parseHeaders rest with ⟨m', e | body⟩
  · obtain ⟨what, rfl⟩ := runtimeError_of_parseHeaders rfl (congrArg Prod.snd hparse)
    exact .inr ⟨m', what, rfl⟩
  · obtain ⟨lines, hrest, hlines⟩ := exists_lines rfl hparse
    exact .inl ⟨lines, body, hrest, hlines⟩

/-! ## The whole text -/

/-- What `parse_data` comes to, with the text that makes it. -/
inductive ParseVerdict (m : Response) (input : Bytes) : Response × Except Exn Bytes → Prop
  | accepted {version code message v lines body}
      (text : ResponseText input version code message lines body) (number : Numeral code v) :
      ParseVerdict m input ((m.withStatus version v message).withHeaders lines, .ok body)
  | refused {line version code message rest e} (text : input = line ++ crlf ++ rest)
      (status : StatusText line version code message) (number : Refused code e) :
      ParseVerdict m input ({ m with version := version }, .error (.logicError e))
  | malformed {m' what} : ParseVerdict m input (m', .error (.runtimeError what))

/-- `parse_data` behind a status line. -/
theorem parseData_of_status (h : StatusText line version code message) (m : Response)
    (rest : Bytes) : m.parseData (line ++ crlf ++ rest) =
      match stoi 10 code with
      | .error e => ({ m with version := version }, .error (.logicError e))
      | .ok v =>
        ({ m.withStatus version v message with
          toMessage := ((m.withStatus version v message).toMessage.parseHeaders rest).1 },
          ((m.withStatus version v message).toMessage.parseHeaders rest).2) := by
  rw [parseData, parseData_line (find_eq_none_iff.mpr h.oneLine), parseInitialLine_of_text h]
  cases stoi 10 code <;> rfl

theorem parseData_of_text {lines : List Bytes} {body : Bytes}
    (h : ResponseText input version code message lines body) (hnumber : Numeral code v)
    (m : Response) :
    m.parseData input = ((m.withStatus version v message).withHeaders lines, .ok body) := by
  rw [h.text, parseData_of_status h.status, stoi_eq_ok_iff.mpr hnumber]
  dsimp only
  rw [parseHeaders_lines body h.headers]
  rfl

/-- **Every text has a verdict.** -/
theorem parseVerdict (m : Response) (input : Bytes) : ParseVerdict m input (m.parseData input) := by
  rcases hfind : find crlf input with _ | stop
  · rw [parseData, AsioProtocols.parseData, hfind]
    exact .malformed
  · obtain ⟨hinput, hone, -⟩ := exists_line hfind
    have hone' := find_eq_none_iff.mp hone
    rcases exists_statusText hone' m with ⟨version, code, message, hstatus⟩ | ⟨m', what, herror⟩
    · rw [hinput, parseData_of_status hstatus]
      rcases hnumber : stoi 10 code with e | v
      · exact .refused rfl hstatus (stoi_eq_error_iff.mp hnumber)
      · dsimp only
        rcases parseHeaders_cases (m.withStatus version v message).toMessage
          (input.drop (stop + 2)) with ⟨lines, body, hlines, hheaders⟩ | ⟨m', what, herror⟩
        · rw [hlines, parseHeaders_lines body hheaders]
          refine .accepted ⟨?_, ?_, hheaders⟩ (stoi_eq_ok_iff.mp hnumber)
          · rw [← hstatus.text]
          · rw [← hstatus.text]
            exact hstatus
        · rw [herror]
          exact .malformed
    · rw [hinput, parseData, parseData_line hone, herror]
      exact .malformed

/-- **`parse_data` accepts exactly its grammar**, fills in what the text says, and throws a
logic error exactly for the code of a whole status line. -/
theorem parseData_accepts (m : Response) (input : Bytes) :
    (∀ m' body, m.parseData input = (m', .ok body) ↔
      ∃ version code message v lines, ResponseText input version code message lines body ∧
        Numeral code v ∧ m' = (m.withStatus version v message).withHeaders lines) ∧
    (∀ m' e, m.parseData input = (m', .error (.logicError e)) ↔
      ∃ line version code message rest, input = line ++ crlf ++ rest ∧
        StatusText line version code message ∧ Refused code e ∧
        m' = { m with version := version }) := by
  constructor
  · intro m' body
    constructor
    · intro h
      have hverdict := m.parseVerdict input
      rw [h] at hverdict
      cases hverdict with
      | accepted text number => exact ⟨_, _, _, _, _, text, number, rfl⟩
    · rintro ⟨version, code, message, v, lines, htext, hnumber, rfl⟩
      exact parseData_of_text htext hnumber m
  · intro m' e
    constructor
    · intro h
      have hverdict := m.parseVerdict input
      rw [h] at hverdict
      cases hverdict with
      | refused text status number => exact ⟨_, _, _, _, _, text, status, number, rfl⟩
    · rintro ⟨line, version, code, message, rest, rfl, hstatus, hrefused, rfl⟩
      rw [parseData_of_status hstatus, stoi_eq_error_iff.mpr hrefused]

end Response

end AsioProtocols
