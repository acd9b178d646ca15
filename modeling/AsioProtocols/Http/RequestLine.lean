import AsioProtocols.Http.Grammar
import AsioProtocols.Http.Query
import AsioProtocols.Http.RequestRoundTrip

/-!
# Two escapers and a request line

`uri::encoded` and `uri::query::escape` are copies of each other, but `escape` does not set the
fill character. So they agree exactly on texts without a byte below 16, where `escape`
writes a blank. In the query of a request that blank cuts the request line short: the request
path comes back from `parse_data` if no key or value has such a byte (`requestLine_iff`).

Nothing is assumed of the host name, which stands in a header of its own. Where it holds line
separators, the parser may throw behind the request line; `HostLines` says when it
does not.
-/

namespace AsioProtocols

namespace Uri

/-- No byte is below 16: all have two hexadecimal digits. -/
def TwoDigits (s : Bytes) : Prop := ∀ b ∈ s, 16 ≤ b.toNat

instance (s : Bytes) : Decidable (TwoDigits s) := List.decidableBAll _ s

/-- **The escapers agree** on `s`, and what they write is made of unreserved bytes and
triplets. -/
structure EscapedAlike (s : Bytes) : Prop where
  same : Query.escape s = encoded s
  text : PercentText (Query.escape s)

/-- `escape` writes the byte itself, which is unreserved, or one triplet. -/
def WellEscaped (b : Byte) : Prop :=
  unreserved b = true ∧ Query.escape [b] = [b] ∨
    ∃ high low, hexByte high = true ∧ hexByte low = true ∧
      Query.escape [b] = [ch '%', high, low]

/-- No space, no CR and no LF. -/
def Unbroken (s : Bytes) : Prop := ch ' ' ∉ s ∧ Request.OneLine s

instance (s : Bytes) : Decidable (Unbroken s) := inferInstanceAs (Decidable (_ ∧ _))

/-- What `parse_data` makes of the bytes of `request(u)`. -/
def reparsed (u : Uri) : Request × Except Exn Bytes :=
  Request.parseData {} (Request.ofUri u).bytes

/-- **The request path comes back**: `parse_data` finds it, and returns. -/
structure ComesBack (u : Uri) : Prop where
  requestPath : u.reparsed.1.requestPath = (Request.ofUri u).requestPath
  returns : ∃ body, u.reparsed.2 = .ok body

/-- The `Host` header and the empty line behind it are header lines, an empty line and
whatever. -/
def HostLines (hostname : Bytes) : Prop :=
  ∃ (lines : List Bytes) (body : Bytes), ascii "Host: " ++ hostname ++ crlf ++ crlf =
      (lines.flatMap (· ++ crlf)) ++ (crlf ++ body) ∧
    ∀ line ∈ lines, HeaderText line

/-! ## The escapers -/

/-- A blank is written for each byte below 16. -/
theorem blank_mem_escape {s : Bytes} : ch ' ' ∈ Query.escape s ↔ ¬ TwoDigits s := by
  constructor
  · intro h hs
    rcases Query.mem_escape h with hplain | hpercent | ⟨-, b, hb, hsmall⟩
    · exact absurd hplain (by decide)
    · exact absurd hpercent (by decide)
    · have hlarge := hs b hb
      omega
  · intro h
    simp only [TwoDigits, not_forall, Nat.not_le, exists_prop] at h
    obtain ⟨b, hb, hsmall⟩ := h
    refine List.mem_flatMap.mpr ⟨b, hb, ?_⟩
    rw [encodedByte_of_lt _ hsmall]
    simp

theorem blank_not_mem_percentText {s : Bytes} (h : PercentText s) : ch ' ' ∉ s := by
  induction h with
  | nil => exact List.not_mem_nil
  | plain hplain _ ih =>
    refine List.not_mem_cons_of_ne_of_not_mem ?_ ih
    rintro rfl
    exact absurd hplain (by decide)
  | triplet hhigh hlow _ ih =>
    refine List.not_mem_cons_of_ne_of_not_mem (by decide) ?_
    refine List.not_mem_cons_of_ne_of_not_mem ?_ (List.not_mem_cons_of_ne_of_not_mem ?_ ih)
    · rintro rfl
      exact absurd hhigh (by decide)
    · rintro rfl
      exact absurd hlow (by decide)

/-- **The escapers agree** where no byte is below 16. -/
theorem escape_eq_encoded {s : Bytes} (h : TwoDigits s) : Query.escape s = encoded s :=
  List.flatMap_congr fun b hb => encodedByte_of_ge (ch ' ') (h b hb)

theorem escapedAlike_iff (s : Bytes) : EscapedAlike s ↔ TwoDigits s := by
  constructor
  · intro h
    by_contra hsmall
    exact blank_not_mem_percentText h.text (blank_mem_escape.mpr hsmall)
  · intro h
    have hsame := escape_eq_encoded h
    exact ⟨hsame, hsame ▸ percentText_encoded s⟩

/-- **The bytes that are written as they should**: those with two digits that are not
negative as a `char`. -/
theorem wellEscaped_iff (b : Byte) : WellEscaped b ↔ 16 ≤ b.toNat ∧ b.toNat < 128 := by
  have hescape : Query.escape [b] = encodedByte (ch ' ') b := by simp [Query.escape]
  have hlt := b.toNat_lt
  rw [WellEscaped, hescape]
  constructor
  · intro h
    by_cases hsmall : b.toNat < 16
    · rw [encodedByte_of_lt _ hsmall] at h
      rcases h with ⟨-, h⟩ | ⟨high, low, hhigh, -, h⟩
      · cases h
      · cases h
        exact absurd hhigh (by decide)
    · refine ⟨by omega, ?_⟩
      by_contra hlarge
      have hreserved : unreserved b ≠ true := fun hplain => hlarge (unreserved_lt hplain)
      rw [encodedByte_of_ge _ (by omega), encodedByte_eq, if_neg hreserved, if_neg hlarge] at h
      rcases h with ⟨hplain, -⟩ | ⟨high, low, -, -, h⟩
      · exact hreserved hplain
      · -- a negative `int` has eight digits
        have hlen := congrArg List.length h
        simp [ascii] at hlen
  · rintro ⟨hlarge, hsmall⟩
    have hdigit : ∀ d < 16, hexByte (hexDigit d) = true := by decide
    rw [encodedByte_of_ge _ hlarge, encodedByte_eq]
    by_cases hplain : unreserved b = true
    · rw [if_pos hplain]
      exact .inl ⟨hplain, rfl⟩
    · rw [if_neg hplain, if_pos hsmall]
      exact .inr ⟨_, _, hdigit _ (by omega), hdigit _ (by omega), rfl⟩

/-! ## The request path -/

/-- Appending pairs changes the query alone. -/
theorem appendQueries_frame (qs : List Query) (u : Uri) :
    (u.appendQueries qs).path = u.path ∧ (u.appendQueries qs).hostname = u.hostname := by
  induction qs generalizing u with
  | nil => exact ⟨rfl, rfl⟩
  | cons q qs ih => exact ih (u.appendQuery q)

/-- What a query is made of, separators apart. -/
theorem mem_query_appendQueries {c : Byte} (hand : c ≠ ch '&') (qs : List Query) (u : Uri) :
    c ∈ (u.appendQueries qs).query ↔ c ∈ u.query ∨ ∃ q ∈ qs, c ∈ q.encodedString := by
  induction qs generalizing u with
  | nil => simp [appendQueries]
  | cons q qs ih =>
    have hstep : c ∈ (u.appendQuery q).query ↔ c ∈ u.query ∨ c ∈ q.encodedString := by
      rw [appendQuery]
      split
      · simp [ascii, hand]
      · simp
    have hlater := ih (u.appendQuery q)
    rw [hstep] at hlater
    show c ∈ ((u.appendQuery q).appendQueries qs).query ↔ _
    rw [hlater, List.exists_mem_cons_iff, or_assoc]

theorem mem_requestPath {c : Byte} (hslash : c ≠ ch '/') (hquestion : c ≠ ch '?') (u : Uri) :
    c ∈ (Request.ofUri u).requestPath ↔ c ∈ u.path ∨ c ∈ u.query := by
  have hpath : c ∈ (if u.path = [] then ascii "/" else u.path) ↔ c ∈ u.path := by
    split
    · rename_i hempty
      simp [hempty, ascii, hslash]
    · rfl
  rw [Request.ofUri]
  dsimp only
  by_cases hhave : u.haveQuery = true
  · rw [if_pos hhave, List.mem_append, hpath]
    simp [ascii, hquestion]
  · have hempty : u.query = [] := by simpa [haveQuery] using hhave
    rw [if_neg hhave, hpath, hempty]
    simp

theorem mem_encodedString {c : Byte} (hequals : c ≠ ch '=') (q : Query) :
    c ∈ q.encodedString ↔ c ∈ Query.escape q.key ∨ c ∈ Query.escape q.value := by
  rw [Query.encodedString, Query.encodedKey, Query.encodedValue]
  simp [ascii, hequals]

/-- The request path has a blank for each byte below 16. -/
theorem blank_mem_requestPath {u : Uri} (hpath : Unbroken u.path) (hquery : Unbroken u.query)
    (qs : List Query) : ch ' ' ∈ (Request.ofUri (u.appendQueries qs)).requestPath ↔
      ¬ ∀ q ∈ qs, TwoDigits q.key ∧ TwoDigits q.value := by
  rw [mem_requestPath (by decide) (by decide), (appendQueries_frame qs u).1,
    mem_query_appendQueries (by decide)]
  simp only [hpath.1, hquery.1, false_or, mem_encodedString (c := ch ' ') (by decide),
    blank_mem_escape, not_forall, not_and_or, exists_prop]

/-- It stays on one line. -/
theorem oneLine_requestPath {u : Uri} (hpath : Unbroken u.path) (hquery : Unbroken u.query)
    (qs : List Query) : Request.OneLine (Request.ofUri (u.appendQueries qs)).requestPath := by
  have hnot : ∀ c, c ≠ ch '/' → c ≠ ch '?' → c ≠ ch '&' → c ≠ ch '=' → c ≠ ch '%' → c ≠ ch ' ' →
      unreserved c = false → c ∉ u.path → c ∉ u.query →
      c ∉ (Request.ofUri (u.appendQueries qs)).requestPath := by
    intro c hslash hquestion hand hequals hpercent hblank hreserved hcpath hcquery
    have hescape := Query.not_mem_escape hreserved hpercent hblank
    rw [mem_requestPath hslash hquestion, (appendQueries_frame qs u).1,
      mem_query_appendQueries hand]
    simp [hcpath, hcquery, mem_encodedString hequals, hescape]
  exact ⟨hnot 13 (by decide) (by decide) (by decide) (by decide) (by decide) (by decide)
      (by decide) hpath.2.1 hquery.2.1,
    hnot 10 (by decide) (by decide) (by decide) (by decide) (by decide) (by decide)
      (by decide) hpath.2.2 hquery.2.2⟩

/-! ## Parsing the request -/

/-- The text of `request(u)`; the method is empty. -/
theorem bytes_ofUri (u : Uri) : (Request.ofUri u).bytes =
    ch ' ' :: ((Request.ofUri u).requestPath ++ ch ' ' :: ascii "HTTP/1.1") ++ crlf ++
      (ascii "Host: " ++ u.hostname ++ crlf ++ crlf) := by
  have hname : Header.normalizeKey (ascii "Host") = ascii "Host" := by decide
  have hheaders : (Request.ofUri u).headers = [⟨ascii "Host", u.hostname⟩] := by
    simp [Request.ofUri, Header.make, Header.normalizeValue, hname]
  rw [Request.bytes_eq, Request.initialLine, hheaders]
  simp [Request.ofUri, Request.headerLine, ascii]

/-- The request path is cut at its first blank, and the headers decide whether the parser
returns. -/
theorem reparsed_eq {u : Uri} (h : Request.OneLine (Request.ofUri u).requestPath) :
    u.reparsed.1.requestPath =
      (cut (ch ' ') ((Request.ofUri u).requestPath ++ ch ' ' :: ascii "HTTP/1.1")).1 ∧
    ∃ m : Message, u.reparsed.2 =
      (m.parseHeaders (ascii "Host: " ++ u.hostname ++ crlf ++ crlf)).2 := by
  generalize hpath : (Request.ofUri u).requestPath = path at h
  let initial := ch ' ' :: (path ++ ch ' ' :: ascii "HTTP/1.1")
  let rest := ascii "Host: " ++ u.hostname ++ crlf ++ crlf
  have hbytes : (Request.ofUri u).bytes = initial ++ crlf ++ rest := by rw [bytes_ofUri, hpath]
  have hone : Request.OneLine initial :=
    Request.OneLine.append (a := ascii " ") (by decide) (h.append (by decide))
  have hspaces : 2 ≤ initial.count (ch ' ') := by
    rw [List.count_cons_self, List.count_append, List.count_cons_self]
    omega
  have hmethod : cut (ch ' ') initial = ([], path ++ ch ' ' :: ascii "HTTP/1.1") :=
    cut_append (s := []) _ List.not_mem_nil
  have hparse := Request.hearInitialLine_snd {} initial
  rw [hearInitialLine_of_spaces hspaces, hmethod] at hparse
  rw [reparsed, hbytes, Request.parseData, parseData_line hone.find, ← hparse]
  exact ⟨rfl, _, rfl⟩

theorem returns_iff (m : Message) (rest : Bytes) : (∃ body, (m.parseHeaders rest).2 = .ok body) ↔
    ∃ (lines : List Bytes) (body : Bytes), rest = (lines.flatMap (· ++ crlf)) ++ (crlf ++ body) ∧
      ∀ line ∈ lines, HeaderText line := by
  constructor
  · rintro ⟨body, hbody⟩
    obtain ⟨lines, hrest, hall⟩ := exists_lines rfl (Prod.ext rfl hbody)
    exact ⟨lines, body, hrest, hall⟩
  · rintro ⟨lines, body, rfl, hall⟩
    rw [← Message.hearHeaders_snd, hearHeaders_lines body lines m hall]
    exact ⟨body, rfl⟩

/-- **The request path is found** where it holds no blank. -/
theorem requestPath_iff {u : Uri} (h : Request.OneLine (Request.ofUri u).requestPath) :
    u.reparsed.1.requestPath = (Request.ofUri u).requestPath ↔
      ch ' ' ∉ (Request.ofUri u).requestPath := by
  rw [(reparsed_eq h).1]
  constructor
  · intro hcut
    rw [← hcut]
    exact (exists_cut (by simp)).2
  · intro hblank
    rw [cut_append _ hblank]

/-- **The escapers and the request line**: what holds of `s`, and of pairs appended to `u`,
depends on the bytes below 16. -/
theorem requestLine_iff (s : Bytes) (u : Uri) (hpath : Unbroken u.path)
    (hquery : Unbroken u.query) (qs : List Query) :
    (EscapedAlike s ↔ TwoDigits s) ∧
    ((∀ b ∈ s, WellEscaped b) ↔ ∀ b ∈ s, 16 ≤ b.toNat ∧ b.toNat < 128) ∧
    ((u.appendQueries qs).reparsed.1.requestPath =
        (Request.ofUri (u.appendQueries qs)).requestPath ↔
      ∀ q ∈ qs, TwoDigits q.key ∧ TwoDigits q.value) ∧
    ((u.appendQueries qs).ComesBack ↔
      (∀ q ∈ qs, TwoDigits q.key ∧ TwoDigits q.value) ∧ HostLines u.hostname) := by
  have hline := oneLine_requestPath hpath hquery qs
  have hfound : (u.appendQueries qs).reparsed.1.requestPath =
      (Request.ofUri (u.appendQueries qs)).requestPath ↔
        ∀ q ∈ qs, TwoDigits q.key ∧ TwoDigits q.value := by
    rw [requestPath_iff hline, blank_mem_requestPath hpath hquery, not_not]
  have hreturns : (∃ body, (u.appendQueries qs).reparsed.2 = .ok body) ↔ HostLines u.hostname := by
    obtain ⟨m, hm⟩ := (reparsed_eq hline).2
    rw [hm, returns_iff, (appendQueries_frame qs u).2]
    rfl
  refine ⟨escapedAlike_iff s, forall₂_congr fun b _ => wellEscaped_iff b, hfound, ?_⟩
  rw [← hfound, ← hreturns]
  exact ⟨fun h => ⟨h.requestPath, h.returns⟩, fun h => ⟨h.1, h.2⟩⟩

/-- A path and a query of its own, and a pair with a blank and a separator. -/
theorem requestLine_iff_blank :
    let u : Uri := { hostname := ascii "h", path := ascii "/p", query := ascii "x=1", port := 80 }
    let qs : List Query := [⟨ascii "a b", ascii "&"⟩]
    (EscapedAlike (ascii "a b") ↔ TwoDigits (ascii "a b")) ∧
    ((∀ b ∈ ascii "a b", WellEscaped b) ↔ ∀ b ∈ ascii "a b", 16 ≤ b.toNat ∧ b.toNat < 128) ∧
    ((u.appendQueries qs).reparsed.1.requestPath =
        (Request.ofUri (u.appendQueries qs)).requestPath ↔
      ∀ q ∈ qs, TwoDigits q.key ∧ TwoDigits q.value) ∧
    ((u.appendQueries qs).ComesBack ↔
      (∀ q ∈ qs, TwoDigits q.key ∧ TwoDigits q.value) ∧ HostLines u.hostname) :=
  requestLine_iff (ascii "a b")
    { hostname := ascii "h", path := ascii "/p", query := ascii "x=1", port := 80 }
    (by decide) (by decide) [⟨ascii "a b", ascii "&"⟩]

/-- A tab is escaped to `% 9`, and the request line ends there. -/
theorem not_escapedAlike : ¬ EscapedAlike [9] ∧
    ¬ (appendQueries { hostname := ascii "h", port := 80 } [⟨[9], []⟩]).ComesBack := by
  constructor
  · rw [escapedAlike_iff]
    decide
  · intro h
    have hpath := h.requestPath
    rw [requestPath_iff (by decide)] at hpath
    revert hpath
    decide

end Uri

end AsioProtocols
