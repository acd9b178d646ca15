import AsioProtocols.Base.Multimap
import AsioProtocols.Http.HeaderNames
import AsioProtocols.Http.Message

/-!
# The headers of a message

The header list is an ordered multimap under the names, which are compared
ignoring letter case. `HeaderCall.onEntries` is what a call does to such a multimap;
`headerMultimap_after` says that behind any calls the list consists of its
entries, each with the normalised name, and that the functions of the message that
look at the list are those of the multimap.

The lookups of the code compare the normalised name with the one that was stored,
so all rests on `normalizeKey_eq_iff`, and on the stored names being normalised.
-/

namespace AsioProtocols

open Header

namespace Message

/-- `each_header(code)` (message.h, lines 155-161); the captures of `code` are `s`. -/
def eachHeader {σ : Type*} (m : Message) (code : σ → Header → σ) (s : σ) : σ :=
  m.headers.foldl code s

end Message

/-- What a caller does to the headers of a message. -/
inductive HeaderCall
  | add (k v : Bytes)
  | set (k v : Bytes)

/-- `add_header(header(k, v))` and `set_header(k, v)` -/
def HeaderCall.onMessage (m : Message) : HeaderCall → Message
  | .add k v => m.addHeader (Header.make k v)
  | .set k v => m.setHeader k v

/-- Two names are one, as a test. -/
def sameKey (a b : Bytes) : Bool := decide (SameName a b)

/-- The call on a multimap of names and values. -/
def HeaderCall.onEntries (entries : Multimap Bytes Bytes) : HeaderCall → Multimap Bytes Bytes
  | .add k v => entries.add k v
  | .set k v => entries.set sameKey k v

/-- The headers that the constructor makes of the entries. -/
def headersOf (entries : Multimap Bytes Bytes) : List Header :=
  entries.map fun e => Header.make e.1 e.2

/-- `m'` is `m` with another value for the first header named `k`, or with one
header more if there is none. -/
def SetsFirst (k v : Bytes) (m m' : Message) : Prop :=
  (∃ before h after, m.headers = before ++ h :: after ∧ (∀ g ∈ before, ¬ SameName g.key k) ∧
    SameName h.key k ∧ m' = { m with headers := before ++ { h with value := v } :: after }) ∨
  ((∀ g ∈ m.headers, ¬ SameName g.key k) ∧
    m' = { m with headers := m.headers ++ [Header.make k v] })

/-- **The headers of `m` are an ordered multimap**, whose entries are `entries`. -/
structure HeaderMultimap (m : Message) (entries : Multimap Bytes Bytes) : Prop where
  order : m.headers = headersOf entries
  value : ∀ k, m.headerValue k = (m.headers.find? fun h => SameName h.key k).map Header.value
  lookup : ∀ k, m.headerValue k = entries.lookup sameKey k
  throws : ∀ k, m.headerValue k = none ↔ m.haveHeader k = false
  valueAdded : ∀ k v k', (m.addHeader (Header.make k v)).headerValue k' =
    (m.headerValue k').or (if SameName k k' then some v else none)
  valueSet : ∀ k v k', (m.setHeader k v).headerValue k' =
    if SameName k k' then some v else m.headerValue k'
  set : ∀ k v, SetsFirst k v m (m.setHeader k v)
  each : m.eachHeader (fun seen h => seen ++ [h]) [] = headersOf entries
  bytes : ∀ q : Request, q.toMessage = m → q.bytes =
    q.method ++ ascii " " ++ q.requestPath ++ ascii " " ++ q.version ++ crlf ++
      (entries.flatMap fun e => normalizeKey e.1 ++ ascii ": " ++ e.2 ++ crlf) ++ crlf ++ q.body

theorem headersOf_cons (e : Bytes × Bytes) (entries : Multimap Bytes Bytes) :
    headersOf (e :: entries) = Header.make e.1 e.2 :: headersOf entries := rfl

theorem headersOf_append (entries entries' : Multimap Bytes Bytes) :
    headersOf (entries ++ entries') = headersOf entries ++ headersOf entries' := List.map_append

/-! ## One header -/

theorem sameKey_iff (a b : Bytes) : sameKey a b = true ↔ SameName a b := decide_eq_true_iff

theorem sameKey_iff_normalizeKey (a b : Bytes) :
    sameKey a b = true ↔ normalizeKey a = normalizeKey b :=
  (sameKey_iff a b).trans (normalizeKey_eq_iff a b).symm

/-- A header that the constructor made is found under the names that differ in case. -/
theorem isNamed_make (k v k' : Bytes) : (Header.make k v).isNamed k' = sameKey k k' := by
  rw [Bool.eq_iff_iff, sameKey_iff_normalizeKey, Header.isNamed, beq_iff_eq]
  exact eq_comm

theorem sameName_make_iff (k v k' : Bytes) : SameName (Header.make k v).key k' ↔ SameName k k' := by
  have hkey : (Header.make k v).key.map toLower = k.map toLower := sameName_normalizeKey k
  rw [SameName, SameName, hkey]

/-! ## The functions of the message -/

section

variable {m : Message} {entries : Multimap Bytes Bytes}

/-- **`set_header` is `set`** of the multimap. -/
theorem setFirst_map (k v : Bytes) : ∀ entries : Multimap Bytes Bytes,
    (Message.setFirst k v (headersOf entries)).getD
        ((headersOf entries) ++ [Header.make k v]) =
      headersOf (entries.set sameKey k v)
  | [] => rfl
  | e :: entries => by
    have ih := setFirst_map k v entries
    rw [headersOf_cons, Message.setFirst, Multimap.set, isNamed_make]
    by_cases he : sameKey e.1 k = true
    · rw [if_pos he, if_pos he]
      rfl
    · rw [if_neg he, if_neg he, headersOf_cons, ← ih]
      cases Message.setFirst k v (headersOf entries) <;> rfl

theorem setHeader_eq (k v : Bytes) (m : Message) : m.setHeader k v =
    { m with headers := (Message.setFirst k v m.headers).getD (m.headers ++ [Header.make k v]) } := by
  rw [Message.setHeader]
  cases Message.setFirst k v m.headers <;> rfl

theorem order_setHeader (h : m.headers = headersOf entries) (k v : Bytes) :
    m.setHeader k v =
      { m with headers := headersOf (entries.set sameKey k v) } := by
  rw [setHeader_eq, h, setFirst_map]

theorem order_addHeader (h : m.headers = headersOf entries) (k v : Bytes) :
    m.addHeader (Header.make k v) =
      { m with headers := headersOf (entries.add k v) } := by
  rw [Message.addHeader, h, Multimap.add, headersOf_append]
  rfl

/-- **`header_value` is `lookup`.** -/
theorem headerValue_of_order (h : m.headers = headersOf entries) (k : Bytes) :
    m.headerValue k = entries.lookup sameKey k := by
  rw [Message.headerValue, h, headersOf, List.find?_map, Option.map_map, Multimap.lookup]
  congr 1
  exact congrArg (List.find? · entries) (funext fun e => isNamed_make e.1 e.2 k)

theorem setsFirst_setHeader (h : m.headers = headersOf entries)
    (k v : Bytes) : SetsFirst k v m (m.setHeader k v) := by
  have hother : ∀ before : Multimap Bytes Bytes, (∀ d ∈ before, sameKey d.1 k = false) →
      ∀ g ∈ headersOf before, ¬ SameName g.key k := by
    intro before hbefore g hg
    obtain ⟨d, hd, rfl⟩ := List.mem_map.mp hg
    rw [sameName_make_iff, ← sameKey_iff, hbefore d hd]
    exact Bool.false_ne_true
  rw [order_setHeader h]
  rcases Multimap.set_cases sameKey k v entries with
    ⟨before, e, after, rfl, hbefore, he, hset⟩ | ⟨hnone, hset⟩
  · refine .inl ⟨headersOf before, Header.make e.1 e.2, headersOf after, ?_, hother before hbefore,
      ?_, ?_⟩
    · rw [h, headersOf_append, headersOf_cons]
    · exact (sameName_make_iff e.1 e.2 k).mpr ((sameKey_iff _ _).mp he)
    · rw [hset, headersOf_append, headersOf_cons]
      rfl
  · refine .inr ⟨?_, ?_⟩
    · rw [h]
      exact hother entries hnone
    · rw [hset, h, headersOf_append]
      rfl

/-- **All of it follows from what the list consists of.** -/
theorem HeaderMultimap.of_order (h : m.headers = headersOf entries) :
    HeaderMultimap m entries where
  order := h
  value k := by
    rw [headerValue_of_order h, h, headersOf, List.find?_map, Option.map_map, Multimap.lookup]
    congr 1
    refine congrArg (List.find? · entries) (funext fun e => ?_)
    exact decide_eq_decide.mpr (sameName_make_iff e.1 e.2 k).symm
  lookup := headerValue_of_order h
  throws k := by
    rw [Message.headerValue, Option.map_eq_none_iff, List.find?_eq_none, Message.haveHeader,
      List.any_eq_false]
  valueAdded k v k' := by
    rw [order_addHeader h, headerValue_of_order rfl, Multimap.lookup_add, headerValue_of_order h]
    simp only [sameKey_iff]
  valueSet k v k' := by
    rw [order_setHeader h, headerValue_of_order rfl, Multimap.lookup_set sameKey_iff_normalizeKey,
      headerValue_of_order h]
    simp only [sameKey_iff]
  set := setsFirst_setHeader h
  each := by
    rw [← h, Message.eachHeader]
    simp [← List.flatMap_def]
  bytes q hq := by
    rw [Request.bytes, hq, h, headersOf, List.flatMap_map]
    rfl

end

/-! ## Over all calls -/

/-- One call keeps the multimap. -/
theorem HeaderMultimap.onMessage {m : Message} {entries : Multimap Bytes Bytes}
    (h : HeaderMultimap m entries) (call : HeaderCall) :
    HeaderMultimap (call.onMessage m) (call.onEntries entries) := by
  refine .of_order ?_
  cases call with
  | add k v =>
    rw [HeaderCall.onMessage, order_addHeader h.order]
    rfl
  | set k v =>
    rw [HeaderCall.onMessage, order_setHeader h.order]
    rfl

/-- A message whose headers were built with the default normalisation is a multimap of
its names and values. -/
theorem HeaderMultimap.start {m : Message} (h : ∀ g ∈ m.headers, ∃ k v, g = Header.make k v) :
    HeaderMultimap m (m.headers.map fun g => (g.key, g.value)) := by
  refine .of_order ?_
  rw [headersOf, List.map_map]
  refine (List.map_congr_left fun g hg => ?_).trans (List.map_id _) |>.symm
  obtain ⟨k, v, rfl⟩ := h g hg
  show Header.make (normalizeKey k) v = Header.make k v
  rw [Header.make, normalizeKey_normalizeKey]
  rfl

/-- **Headers are an ordered, case-insensitive multimap** behind any calls. -/
theorem headerMultimap_after (m : Message) (h : ∀ g ∈ m.headers, ∃ k v, g = Header.make k v)
    (calls : List HeaderCall) :
    HeaderMultimap (calls.foldl HeaderCall.onMessage m)
      (calls.foldl HeaderCall.onEntries (m.headers.map fun g => (g.key, g.value))) := by
  have hall : ∀ (calls : List HeaderCall) (m : Message) (entries : Multimap Bytes Bytes),
      HeaderMultimap m entries →
      HeaderMultimap (calls.foldl HeaderCall.onMessage m) (calls.foldl HeaderCall.onEntries entries) := by
    intro calls
    induction calls with
    | nil => exact fun m entries h => h
    | cons call calls ih => exact fun m entries h => ih _ _ (h.onMessage call)
  exact hall calls m _ (.start h)

/-- Two names in two spellings, and the first of two values replaced. -/
def fourCalls : List HeaderCall :=
  [.add (ascii "x-one") (ascii "1"), .add (ascii "X-ONE") (ascii "2"),
    .set (ascii "X-one") (ascii "3"), .set (ascii "x-Two") []]

theorem headerMultimap_after_four :
    HeaderMultimap
      { headers := [Header.make (ascii "Host") (ascii "a"), Header.make (ascii "X-One") (ascii "3"),
          Header.make (ascii "X-One") (ascii "2"), Header.make (ascii "x-two") []] }
      [(ascii "Host", ascii "a"), (ascii "x-one", ascii "3"), (ascii "X-ONE", ascii "2"),
        (ascii "x-Two", [])] := by
  have hmessage : fourCalls.foldl HeaderCall.onMessage
      { headers := [Header.make (ascii "HOST") (ascii "a")] } =
      { headers := [Header.make (ascii "Host") (ascii "a"), Header.make (ascii "X-One") (ascii "3"),
          Header.make (ascii "X-One") (ascii "2"), Header.make (ascii "x-two") []] } := by
    decide +kernel
  have hentries : fourCalls.foldl HeaderCall.onEntries
      ([Header.make (ascii "HOST") (ascii "a")].map fun g => (g.key, g.value)) =
      [(ascii "Host", ascii "a"), (ascii "x-one", ascii "3"), (ascii "X-ONE", ascii "2"),
        (ascii "x-Two", [])] := by
    decide +kernel
  rw [← hmessage, ← hentries]
  refine headerMultimap_after _ ?_ fourCalls
  intro g hg
  rw [List.mem_singleton.mp hg]
  exact ⟨ascii "HOST", ascii "a", rfl⟩

end AsioProtocols
