import AsioProtocols.Http.Request

/-!
# The texts that `parse_data` accepts

`RequestText` is the grammar of a request: a first line with two spaces, header lines with a
colon, an empty line, and the body. `parse_data` returns normally on exactly these
texts, and throws a `runtime_error` on the others (**`parseData_grammar`**).

The signals of a message matter here, as the end of the headers is one
(`on_header_end`). `hearData` is `parse_data` with the signals it fires, and
`hearData_snd` says that without them it is `parseData`.
-/

namespace AsioProtocols

/-- A signal that fires while a request is parsed. -/
inductive Signal
  | method (m : Bytes)
  | requestPath (p : Bytes)
  | version (v : Bytes)
  | headerAdded (h : Header)
  | headerEnd
  deriving DecidableEq

/-! ## `parse_data` with its signals -/

/-- `parse_header_line(in)` (message.h, lines 75-91) -/
def Message.hearHeaderLine (m : Message) (line : Bytes) : List Signal × Except Exn Message :=
  if line = [] then ([.headerEnd], .ok m)
  else
    match find (ascii ":") line with
    | none => ([], .error (.runtimeError (ascii "No header name found")))
    | some next =>
      let h := Header.make (line.take next) (trim (line.drop (next + 1)))
      ([.headerAdded h], .ok (m.addHeader h))

/-- The loop of `parse_data` (message.h, lines 53-64) -/
def Message.hearHeaders (m : Message) (rest : Bytes) : List Signal × Message × Except Exn Bytes :=
  match _h : find crlf rest with
  | none => ([], m, .error (.runtimeError (ascii "Invalid data while parsing headers")))
  | some stop =>
    if stop = 0 then ([.headerEnd], m, .ok (rest.drop 2))
    else
      match m.hearHeaderLine (rest.take stop) with
      | (heard, .error e) => (heard, m, .error e)
      | (heard, .ok m) =>
        let later := m.hearHeaders (rest.drop (stop + 2))
        (heard ++ later.1, later.2)
termination_by rest.length
decreasing_by
  have hlen := find_crlf_lt _h
  rw [List.length_drop]
  omega

namespace Request

/-- `parse_initial_line(in)` (request.h, lines 61-84) -/
def hearInitialLine (q : Request) (line : Bytes) : List Signal × Request × Option Exn :=
  match find (ascii " ") line with
  | none => ([], q, some (.runtimeError (ascii "No request method found")))
  | some next =>
    let q := { q with method := line.take next }
    let rest := line.drop (next + 1)
    match find (ascii " ") rest with
    | none => ([.method (line.take next)], q, some (.runtimeError (ascii "No request path found")))
    | some stop =>
      ([.method (line.take next), .requestPath (rest.take stop), .version (rest.drop (stop + 1))],
        { q with requestPath := rest.take stop, version := rest.drop (stop + 1) }, none)

/-- `parse_data(in)` (message.h, lines 39-71) -/
def hearData (q : Request) (input : Bytes) : List Signal × Request × Except Exn Bytes :=
  match find crlf input with
  | none => ([], q, .error (.runtimeError (ascii "Invalid initial line")))
  | some stop =>
    match q.hearInitialLine (input.take stop) with
    | (heard, q, some e) => (heard, q, .error e)
    | (heard, q, none) =>
      let (later, m, body) := q.toMessage.hearHeaders (input.drop (stop + 2))
      (heard ++ later, { q with toMessage := m }, body)

end Request

theorem Message.hearHeaderLine_snd (m : Message) (line : Bytes) :
    (m.hearHeaderLine line).2 = m.parseHeaderLine line := by
  rw [hearHeaderLine, parseHeaderLine]
  split
  · rfl
  · cases find (ascii ":") line <;> rfl

theorem Message.hearHeaders_snd (m : Message) (rest : Bytes) :
    (m.hearHeaders rest).2 = m.parseHeaders rest := by
  induction hn : rest.length using Nat.strongRecOn generalizing m rest with
  | _ n ih =>
    rw [hearHeaders]
    split
    · rename_i hfind
      rw [parseHeaders_of_none hfind]
    · rename_i stop hfind
      have hlen := find_crlf_lt hfind
      rw [parseHeaders_of_some hfind]
      split
      · rfl
      · have hline := m.hearHeaderLine_snd (rest.take stop)
        rcases hheard : m.hearHeaderLine (rest.take stop) with ⟨heard, e | m'⟩
        · rw [hheard] at hline
          rw [← hline]
        · rw [hheard] at hline
          rw [← hline]
          refine ih _ ?_ m' (rest.drop (stop + 2)) rfl
          rw [List.length_drop]
          omega

namespace Request

theorem hearInitialLine_snd (q : Request) (line : Bytes) :
    (q.hearInitialLine line).2 = q.parseInitialLine line := by
  rw [hearInitialLine, parseInitialLine]
  cases find (ascii " ") line with
  | none => rfl
  | some next =>
    dsimp only
    cases find (ascii " ") (line.drop (next + 1)) <;> rfl

/-- Without its signals it is `parseData`. -/
theorem hearData_snd (q : Request) (input : Bytes) : (q.hearData input).2 = q.parseData input := by
  rw [hearData, parseData, AsioProtocols.parseData]
  cases find crlf input with
  | none => rfl
  | some stop =>
    dsimp only
    have hline := q.hearInitialLine_snd (input.take stop)
    rcases hheard : q.hearInitialLine (input.take stop) with ⟨heard, q', _ | e⟩
    · rw [hheard] at hline
      rw [← hline]
      dsimp only
      rw [← Message.hearHeaders_snd]
    · rw [hheard] at hline
      rw [← hline]

end Request

/-! ## The grammar -/

/-- A line of the headers: not empty, on one line, and with a colon. -/
structure HeaderText (line : Bytes) : Prop where
  nonempty : line ≠ []
  oneLine : ¬ crlf <:+: line
  colon : ch ':' ∈ line

/-- **The grammar**: `L0 CRLF H1 CRLF ... Hn CRLF CRLF B`. -/
structure RequestText (input initial : Bytes) (lines : List Bytes) (body : Bytes) : Prop where
  text : input = initial ++ crlf ++ ((lines.flatMap (· ++ crlf)) ++ (crlf ++ body))
  oneLine : ¬ crlf <:+: initial
  spaces : 2 ≤ initial.count (ch ' ')
  headers : ∀ line ∈ lines, HeaderText line

/-- What a request and its signals should be behind a text of the grammar. -/
structure ParsedAs (initial : Bytes) (lines : List Bytes) (body : Bytes)
    (result : List Signal × Request × Except Exn Bytes) : Prop where
  method : result.2.1.method = (cut (ch ' ') initial).1
  requestPath : result.2.1.requestPath = (cut (ch ' ') (cut (ch ' ') initial).2).1
  version : result.2.1.version = (cut (ch ' ') (cut (ch ' ') initial).2).2
  headers : result.2.1.headers = lines.map headerOf
  headerEnd : result.1.count .headerEnd = 1
  body : result.2.2 = .ok body

/-! ## Texts of the grammar are accepted -/

section

variable {m : Message} {line rest : Bytes}

theorem hearHeaderLine_of_text (h : HeaderText line) (m : Message) :
    m.hearHeaderLine line = ([.headerAdded (headerOf line)], .ok (m.addHeader (headerOf line))) := by
  obtain ⟨hfind, htake, hdrop⟩ := find_byte_of_mem h.colon
  have hcolon : find (ascii ":") line = some (cut (ch ':') line).1.length := hfind
  have hheader : Header.make (cut (ch ':') line).1 (trim (cut (ch ':') line).2) = headerOf line := by
    rw [headerOf, cut, List.drop_one]
  rw [Message.hearHeaderLine, if_neg h.nonempty, hcolon]
  simp only [htake, hdrop, hheader]

theorem hearHeaders_end (m : Message) (body : Bytes) :
    m.hearHeaders (crlf ++ body) = ([.headerEnd], m, .ok body) := by
  have hfind : find crlf (crlf ++ body) = some 0 := find_of_prefix (List.prefix_append _ _)
  rw [Message.hearHeaders]
  split
  · rename_i h
    rw [hfind] at h
    cases h
  · rename_i stop h
    rw [hfind] at h
    cases h
    rfl

theorem hearHeaders_line (h : HeaderText line) (m : Message) (rest : Bytes) :
    m.hearHeaders (line ++ crlf ++ rest) =
      (.headerAdded (headerOf line) :: ((m.addHeader (headerOf line)).hearHeaders rest).1,
        ((m.addHeader (headerOf line)).hearHeaders rest).2) := by
  obtain ⟨hfind, htake, hdrop⟩ := split_line rest (find_eq_none_iff.mpr h.oneLine)
  rw [Message.hearHeaders]
  split
  · rename_i hnone
    rw [hfind] at hnone
    cases hnone
  · rename_i stop hstop
    rw [hfind] at hstop
    cases hstop
    rw [if_neg (by simpa using h.nonempty), htake, hearHeaderLine_of_text h, hdrop]
    rfl

/-- **The loop** takes the lines off the text one by one, and then the empty line. -/
theorem hearHeaders_lines (body : Bytes) : ∀ (lines : List Bytes) (m : Message),
    (∀ line ∈ lines, HeaderText line) →
    m.hearHeaders ((lines.flatMap (· ++ crlf)) ++ (crlf ++ body)) =
      (lines.map (fun line => .headerAdded (headerOf line)) ++ [.headerEnd],
        { m with headers := m.headers ++ lines.map headerOf }, .ok body)
  | [], m, _ => by
    rw [List.flatMap_nil, List.nil_append, hearHeaders_end]
    simp
  | line :: lines, m, h => by
    rw [List.flatMap_cons, List.append_assoc, hearHeaders_line (h line List.mem_cons_self),
      hearHeaders_lines body lines _ fun l hl => h l (List.mem_cons_of_mem line hl)]
    simp [Message.addHeader]

/-- A line with two spaces is cut at them. -/
theorem hearInitialLine_of_spaces {initial : Bytes} (h : 2 ≤ initial.count (ch ' '))
    (q : Request) : q.hearInitialLine initial =
      ([.method (cut (ch ' ') initial).1, .requestPath (cut (ch ' ') (cut (ch ' ') initial).2).1,
        .version (cut (ch ' ') (cut (ch ' ') initial).2).2],
        { q with
          method := (cut (ch ' ') initial).1
          requestPath := (cut (ch ' ') (cut (ch ' ') initial).2).1
          version := (cut (ch ' ') (cut (ch ' ') initial).2).2 }, none) := by
  have hmem : ch ' ' ∈ initial := List.count_pos_iff.mp (by omega)
  obtain ⟨hsplit, hnot⟩ := exists_cut hmem
  have hcount : (cut (ch ' ') initial).2.count (ch ' ') + 1 = initial.count (ch ' ') := by
    conv_rhs => rw [hsplit]
    rw [List.count_append, List.count_eq_zero_of_not_mem hnot, List.count_cons_self, Nat.zero_add]
  have hmem' : ch ' ' ∈ (cut (ch ' ') initial).2 := List.count_pos_iff.mp (by omega)
  obtain ⟨hfind, htake, hdrop⟩ := find_byte_of_mem hmem
  obtain ⟨hfind', htake', hdrop'⟩ := find_byte_of_mem hmem'
  have hspace : ascii " " = [ch ' '] := rfl
  rw [Request.hearInitialLine, hspace, hfind]
  simp only [htake, hdrop, hfind', htake', hdrop']

/-- **What the grammar accepts is parsed as it says.** -/
theorem parsedAs_of_text {input initial : Bytes} {lines : List Bytes} {body : Bytes}
    (h : RequestText input initial lines body) :
    ParsedAs initial lines body (Request.hearData {} input) := by
  obtain ⟨hfind, htake, hdrop⟩ :=
    split_line ((lines.flatMap (· ++ crlf)) ++ (crlf ++ body)) (find_eq_none_iff.mpr h.oneLine)
  have hcount : ∀ lines : List Bytes,
      (lines.map fun line => Signal.headerAdded (headerOf line)).count .headerEnd = 0 := by
    intro lines
    rw [List.count_eq_zero]
    simp
  rw [h.text, Request.hearData, hfind]
  simp only [htake, hdrop, hearInitialLine_of_spaces h.spaces, hearHeaders_lines _ _ _ h.headers]
  exact ⟨rfl, rfl, rfl, rfl, by simp [hcount], rfl⟩

end

/-! ## What is accepted is a text of the grammar -/

section

variable {m m' : Message} {line rest body : Bytes}

theorem colon_of_parseHeaderLine (hne : line ≠ []) (h : m.parseHeaderLine line = .ok m') :
    ch ':' ∈ line := by
  rw [Message.parseHeaderLine, if_neg hne] at h
  by_contra hcolon
  have hfind : find (ascii ":") line = none := find_of_not_mem hcolon
  rw [hfind] at h
  cases h

/-- **The loop** has gone over lines of headers and an empty line. -/
theorem exists_lines : ∀ {n : Nat} {m m' : Message} {rest : Bytes}, rest.length = n →
    m.parseHeaders rest = (m', .ok body) →
    ∃ lines : List Bytes, rest = (lines.flatMap (· ++ crlf)) ++ (crlf ++ body) ∧
      ∀ line ∈ lines, HeaderText line := by
  intro n
  induction n using Nat.strongRecOn with
  | _ n ih =>
    intro m m' rest hn h
    rcases Message.parseHeaders_eq_ok h with
      ⟨hrest, -⟩ | ⟨line, rest', m₁, hrest, hne, hfind, hparse, hlater⟩
    · exact ⟨[], hrest, fun line hl => absurd hl List.not_mem_nil⟩
    · have hlen := congrArg List.length hrest
      rw [List.length_append, List.length_append, length_crlf] at hlen
      obtain ⟨lines, hlines, hall⟩ := ih rest'.length (by omega) rfl hlater
      refine ⟨line :: lines, ?_, fun l hl => ?_⟩
      · rw [hrest, hlines, List.flatMap_cons]
        simp
      · rcases List.mem_cons.mp hl with rfl | hl
        · exact ⟨hne, find_eq_none_iff.mp hfind, colon_of_parseHeaderLine hne hparse⟩
        · exact hall l hl

/-- A first line is accepted only if it has two spaces. -/
theorem spaces_of_parseInitialLine {q q' : Request} (h : q.parseInitialLine line = (q', none)) :
    2 ≤ line.count (ch ' ') := by
  have hfinds : ∀ s : Bytes, ch ' ' ∉ s → find (ascii " ") s = none :=
    fun s hs => find_of_not_mem hs
  by_cases hmem : ch ' ' ∈ line
  · obtain ⟨hsplit, hnot⟩ := exists_cut hmem
    obtain ⟨hfind, htake, hdrop⟩ := find_byte_of_mem hmem
    have hspace : find (ascii " ") line = some (cut (ch ' ') line).1.length := hfind
    by_cases hmem' : ch ' ' ∈ (cut (ch ' ') line).2
    · rw [hsplit, List.count_append, List.count_cons_self]
      have hpos := List.count_pos_iff.mpr hmem'
      omega
    · rw [Request.parseInitialLine, hspace] at h
      simp only [hdrop, hfinds _ hmem'] at h
      cases h
  · rw [Request.parseInitialLine, hfinds line hmem] at h
    cases h

theorem exists_text {q : Request} {input : Bytes}
    (h : Request.parseData {} input = (q, .ok body)) :
    ∃ initial lines, RequestText input initial lines body := by
  rw [Request.parseData, parseData] at h
  rcases hfind : find crlf input with _ | stop
  · rw [hfind] at h
    cases h
  · rw [hfind] at h
    obtain ⟨hinput, hone, -⟩ := exists_line hfind
    dsimp only at h
    rcases hline : Request.parseInitialLine {} (input.take stop) with ⟨q', _ | e⟩
    · rw [hline] at h
      have hbody : (q'.toMessage.parseHeaders (input.drop (stop + 2))).2 = .ok body :=
        congrArg Prod.snd h
      obtain ⟨lines, hlines, hall⟩ := exists_lines rfl (Prod.ext rfl hbody)
      exact ⟨input.take stop, lines, hlines ▸ hinput, find_eq_none_iff.mp hone,
        spaces_of_parseInitialLine hline, hall⟩
    · rw [hline] at h
      cases h

/-! ## What is thrown -/

theorem runtimeError_of_parseHeaderLine {e : Exn} (h : m.parseHeaderLine line = .error e) :
    ∃ what, e = .runtimeError what := by
  rw [Message.parseHeaderLine] at h
  split at h
  · cases h
  · split at h
    · cases h
      exact ⟨_, rfl⟩
    · cases h

theorem runtimeError_of_parseHeaders : ∀ {n : Nat} {m : Message} {rest : Bytes} {e : Exn},
    rest.length = n → (m.parseHeaders rest).2 = .error e → ∃ what, e = .runtimeError what := by
  intro n
  induction n using Nat.strongRecOn with
  | _ n ih =>
    intro m rest e hn h
    rcases hfind : find crlf rest with _ | stop
    · rw [Message.parseHeaders_of_none hfind] at h
      cases h
      exact ⟨_, rfl⟩
    · have hlen := find_crlf_lt hfind
      rw [Message.parseHeaders_of_some hfind] at h
      split at h
      · cases h
      · rcases hparse : m.parseHeaderLine (rest.take stop) with e' | m₁
        · rw [hparse] at h
          cases h
          exact runtimeError_of_parseHeaderLine hparse
        · rw [hparse] at h
          refine ih (rest.drop (stop + 2)).length ?_ rfl h
          rw [List.length_drop]
          omega

theorem runtimeError_of_parseInitialLine {q q' : Request} {e : Exn}
    (h : q.parseInitialLine line = (q', some e)) : ∃ what, e = .runtimeError what := by
  rw [Request.parseInitialLine] at h
  split at h
  · cases h
    exact ⟨_, rfl⟩
  · dsimp only at h
    split at h
    · cases h
      exact ⟨_, rfl⟩
    · cases h

theorem runtimeError_of_parseData {q : Request} {input : Bytes} {e : Exn}
    (h : (q.parseData input).2 = .error e) : ∃ what, e = .runtimeError what := by
  rw [Request.parseData, parseData] at h
  rcases hfind : find crlf input with _ | stop
  · rw [hfind] at h
    cases h
    exact ⟨_, rfl⟩
  · rw [hfind] at h
    dsimp only at h
    rcases hline : q.parseInitialLine (input.take stop) with ⟨q', _ | e'⟩
    · rw [hline] at h
      exact runtimeError_of_parseHeaders rfl h
    · rw [hline] at h
      cases h
      exact runtimeError_of_parseInitialLine hline

end

/-- **`parse_data` accepts exactly its grammar**, parses what it accepts as the grammar
says, and throws a `runtime_error` on the rest. -/
theorem parseData_grammar (input : Bytes) :
    ((∃ body, (Request.hearData {} input).2.2 = .ok body) ↔
      ∃ initial lines body, RequestText input initial lines body) ∧
    (∀ initial lines body, RequestText input initial lines body →
      ParsedAs initial lines body (Request.hearData {} input)) ∧
    ((¬ ∃ initial lines body, RequestText input initial lines body) →
      ∃ what, (Request.hearData {} input).2.2 = .error (.runtimeError what)) := by
  have haccepts : ∀ body, (Request.hearData {} input).2.2 = .ok body →
      ∃ initial lines, RequestText input initial lines body := by
    intro body hbody
    rw [Request.hearData_snd] at hbody
    exact exists_text (q := (Request.parseData {} input).1) (Prod.ext rfl hbody)
  refine ⟨⟨?_, ?_⟩, fun initial lines body h => parsedAs_of_text h, ?_⟩
  · rintro ⟨body, hbody⟩
    obtain ⟨initial, lines, h⟩ := haccepts body hbody
    exact ⟨initial, lines, body, h⟩
  · rintro ⟨initial, lines, body, h⟩
    exact ⟨body, (parsedAs_of_text h).body⟩
  · intro hno
    rcases hresult : (Request.hearData {} input).2.2 with e | body
    · rw [Request.hearData_snd] at hresult
      obtain ⟨what, rfl⟩ := runtimeError_of_parseData hresult
      exact ⟨what, rfl⟩
    · obtain ⟨initial, lines, h⟩ := haccepts body hresult
      exact absurd ⟨initial, lines, body, h⟩ hno

end AsioProtocols
