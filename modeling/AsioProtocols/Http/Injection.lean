import AsioProtocols.Http.Grammar
import AsioProtocols.Http.HeaderNames
import AsioProtocols.Http.RequestRoundTrip

/-!
# When a request comes back

`bytes()` checks nothing. A line separator in a value, a space in a path or a colon in a name
makes the receiver read another request than the one that was written. `Clean` is exactly what
keeps it from that: `comesBack_iff` says of every request whatsoever that `parse_data` gives
back that request if and only if it is clean.

That clean requests come back goes as for `Serialisable`, which asks for more. For the other
direction the parser is inverted: what comes back is written as the parsed line was
(`eq_of_parseInitialLine`), so the first line was not cut; and a header that comes back from
the front of what is left leaves no room for a separator in its line (`headerLine_of_parsed`).
-/

namespace AsioProtocols

theorem trimmed_of_trim {s : Bytes} (h : trim s = s) : Trimmed s := by
  have hdrop : s.dropWhile isSpace = s := by
    have hlen := congrArg List.length h
    have hle := (List.rdropWhile_prefix isSpace (l := s.dropWhile isSpace)).length_le
    have hle' := (List.dropWhile_suffix isSpace (l := s)).length_le
    rw [trim] at hlen
    exact (List.dropWhile_suffix isSpace).eq_of_length (by omega)
  constructor
  · intro c hc
    cases s with
    | nil => cases hc
    | cons b rest =>
      obtain rfl := Option.some.inj hc
      by_contra hspace
      rw [Bool.not_eq_false] at hspace
      rw [List.dropWhile_cons_of_pos hspace] at hdrop
      have := (List.dropWhile_suffix isSpace (l := rest)).length_le
      rw [hdrop, List.length_cons] at this
      omega
  · rw [trim, hdrop, List.rdropWhile_eq_self_iff] at h
    intro c hc
    have hne : s ≠ [] := by
      rintro rfl
      cases hc
    have := h hne
    rw [List.getLast?_eq_some_getLast hne] at hc
    rw [← Option.some.inj hc]
    simpa using this

/-- White space in front of what is trimmed makes no difference. -/
theorem trim_cons {b : Byte} {s : Bytes} (h : isSpace b = true) : trim (b :: s) = trim s := by
  rw [trim, trim, List.dropWhile_cons_of_pos h]

theorem length_trim_le (s : Bytes) : (trim s).length ≤ s.length :=
  (List.rdropWhile_prefix isSpace _).length_le.trans (List.dropWhile_suffix isSpace).length_le

/-- A byte that is not of a line separator keeps the two sides apart. -/
theorem find_crlf_append_cons {b : Byte} (hcr : b ≠ 13) (hlf : b ≠ 10) {t : Bytes} :
    ∀ {s : Bytes}, find crlf (s ++ b :: t) = none ↔ find crlf s = none ∧ find crlf t = none
  | [] => by
    have hp : ¬ crlf <+: b :: t := fun hp => hcr (List.cons_prefix_cons.mp hp).1.symm
    have hnil : find crlf ([] : Bytes) = none := by decide
    have hcons : find crlf (b :: t) = (find crlf t).map (· + 1) := by rw [find, if_neg hp]
    rw [List.nil_append, hcons, Option.map_eq_none_iff]
    simp [hnil]
  | x :: s => by
    have hp : crlf <+: x :: (s ++ b :: t) ↔ crlf <+: x :: s := by
      cases s with
      | nil =>
        simp only [List.nil_append, crlf, List.cons_prefix_cons, List.prefix_nil]
        constructor
        · rintro ⟨-, hb, -⟩
          exact absurd hb.symm hlf
        · rintro ⟨-, hb⟩
          cases hb
      | cons y s => simp [crlf, List.cons_prefix_cons]
    have ih := find_crlf_append_cons hcr hlf (t := t) (s := s)
    rw [List.cons_append, find, find]
    by_cases hx : crlf <+: x :: s
    · rw [if_pos hx, if_pos (hp.mpr hx)]
      simp
    · rw [if_neg hx, if_neg (mt hp.mp hx), Option.map_eq_none_iff, Option.map_eq_none_iff, ih]

namespace Header

/-- A name is as long as its normal form. -/
theorem length_normalizeKey (k : Bytes) : (normalizeKey k).length = k.length := by
  rw [normalizeKey_eq, length_capitalise]

end Header

namespace Request

/-- **A header that cannot be misread**: a normal name without a colon, a trimmed value, and no
line separator in either. -/
structure CleanHeader (h : Header) : Prop where
  normal : Header.normalizeKey h.key = h.key
  colon : ch ':' ∉ h.key
  key : find crlf h.key = none
  value : find crlf h.value = none
  trimmed : Trimmed h.value

/-- **A request that cannot be misread.** A single CR or LF does no harm. -/
structure Clean (r : Request) : Prop where
  method : ch ' ' ∉ r.method ∧ find crlf r.method = none
  path : ch ' ' ∉ r.requestPath ∧ find crlf r.requestPath = none
  version : find crlf r.version = none
  headers : ∀ h ∈ r.headers, CleanHeader h

/-- The receiver has the request that was written. -/
def ComesBack (r : Request) : Prop :=
  parseData {} r.bytes = ({ r with body := [] }, .ok r.body)

/-! ## The first line -/

variable {r q q' : Request} {line : Bytes}

theorem initialLine_eq (r : Request) :
    r.initialLine = r.method ++ ch ' ' :: (r.requestPath ++ ch ' ' :: r.version) := by
  simp [initialLine, ascii]

/-- The first line holds no line separator where its parts do not. -/
theorem find_crlf_initialLine : find crlf r.initialLine = none ↔
    find crlf r.method = none ∧ find crlf r.requestPath = none ∧ find crlf r.version = none := by
  rw [initialLine_eq, find_crlf_append_cons (by decide) (by decide),
    find_crlf_append_cons (by decide) (by decide)]

/-- **The inversion of the first line**: it is what its parts would be written as. -/
theorem eq_of_parseInitialLine (h : q.parseInitialLine line = (q', none)) :
    line = q'.initialLine ∧ ch ' ' ∉ q'.method ∧ ch ' ' ∉ q'.requestPath := by
  have hcount := spaces_of_parseInitialLine h
  have hmem : ch ' ' ∈ line := List.count_pos_iff.mp (by omega)
  obtain ⟨hsplit, hmethod⟩ := exists_cut hmem
  obtain ⟨hfind, htake, hdrop⟩ := find_byte_of_mem hmem
  have hmem' : ch ' ' ∈ (cut (ch ' ') line).2 := by
    rw [hsplit, List.count_append, List.count_cons_self, List.count_eq_zero_of_not_mem hmethod]
      at hcount
    exact List.count_pos_iff.mp (by omega)
  obtain ⟨hsplit', hpath⟩ := exists_cut hmem'
  obtain ⟨hfind', htake', hdrop'⟩ := find_byte_of_mem hmem'
  have hspace : find (ascii " ") line = some (cut (ch ' ') line).1.length := hfind
  have hspace' : find (ascii " ") (cut (ch ' ') line).2 =
      some (cut (ch ' ') (cut (ch ' ') line).2).1.length := hfind'
  rw [parseInitialLine, hspace] at h
  simp only [htake, hdrop, hspace', htake', hdrop'] at h
  obtain rfl := (Prod.mk.inj h).1
  refine ⟨?_, hmethod, hpath⟩
  rw [initialLine_eq]
  conv_lhs => rw [hsplit, hsplit']

/-- The first line has no headers. -/
theorem headers_of_parseInitialLine (h : q.parseInitialLine line = (q', none)) :
    q'.headers = q.headers := by
  rw [parseInitialLine] at h
  split at h
  · cases h
  · dsimp only at h
    split at h
    · cases h
    · obtain rfl := (Prod.mk.inj h).1
      rfl

theorem parts_of_eq (h : q = q') : q.method = q'.method ∧ q.requestPath = q'.requestPath ∧
    q.version = q'.version ∧ q.headers = q'.headers := by
  subst h
  exact ⟨rfl, rfl, rfl, rfl⟩

/-! ## The headers -/

variable {m m' : Message} {h : Header} {rest rest' body : Bytes}

theorem headerLine_eq (h : Header) : headerLine h = h.key ++ ch ':' :: (ch ' ' :: h.value) := by
  simp [headerLine, ascii]

theorem find_crlf_headerLine :
    find crlf (headerLine h) = none ↔ find crlf h.key = none ∧ find crlf h.value = none := by
  have hblank : find crlf (ch ' ' :: h.value) = none ↔ find crlf h.value = none := by
    have hnil : find crlf ([] : Bytes) = none := by decide
    have := find_crlf_append_cons (b := ch ' ') (by decide) (by decide) (t := h.value) (s := [])
    rw [hnil] at this
    simpa using this
  rw [headerLine_eq, find_crlf_append_cons (by decide) (by decide), hblank]

/-- The header of a line that is accepted. -/
theorem eq_of_parseHeaderLine (hne : line ≠ []) (hparse : m.parseHeaderLine line = .ok m') :
    ∃ k v, line = k ++ ch ':' :: v ∧ ch ':' ∉ k ∧ m' = m.addHeader (Header.make k (trim v)) := by
  have hmem := colon_of_parseHeaderLine hne hparse
  obtain ⟨hsplit, hnot⟩ := exists_cut hmem
  obtain ⟨hfind, htake, hdrop⟩ := find_byte_of_mem hmem
  have hcolon : find (ascii ":") line = some (cut (ch ':') line).1.length := hfind
  rw [Message.parseHeaderLine, if_neg hne, hcolon] at hparse
  simp only [htake, hdrop] at hparse
  exact ⟨_, _, hsplit, hnot, (Except.ok.inj hparse).symm⟩

/-- A line that ends no earlier than another, in the same text, is that one. -/
theorem eq_of_line {a b : Bytes} (heq : a ++ (crlf ++ rest) = b ++ (crlf ++ rest'))
    (hle : a.length ≤ b.length) (hb : find crlf b = none) : b = a := by
  obtain ⟨w, rfl⟩ := List.prefix_of_prefix_length_le ⟨_, heq⟩ (List.prefix_append _ _) hle
  rw [List.append_assoc] at heq
  have htail := List.append_cancel_left heq
  cases w with
  | nil => exact List.append_nil a
  | cons x w =>
    obtain ⟨rfl, hnext⟩ := List.cons.inj htail
    cases w with
    | nil => exact absurd (List.cons.inj hnext).1 (by decide)
    | cons y w =>
      obtain ⟨rfl, -⟩ := List.cons.inj hnext
      exact absurd ⟨a, w, by simp [crlf]⟩ (find_eq_none_iff.mp hb)

/-- **A header that comes back** from the front of the text was written on a line of its own:
its value is as long as what was read of it, which leaves no room for a separator. -/
theorem headerLine_of_parsed (heq : headerLine h ++ crlf ++ rest = line ++ crlf ++ rest')
    (hne : line ≠ []) (hone : find crlf line = none)
    (hparse : m.parseHeaderLine line = .ok (m.addHeader h)) :
    line = headerLine h ∧ CleanHeader h := by
  obtain ⟨k, v, rfl, hk, hadd⟩ := eq_of_parseHeaderLine hne hparse
  have hh : h = Header.make k (trim v) := by
    have := congrArg Message.headers hadd
    exact List.singleton_inj.mp (List.append_cancel_left this)
  have hkey : h.key = Header.normalizeKey k := congrArg Header.key hh
  have hvalue : h.value = trim v := congrArg Header.value hh
  -- the names are equally long, so they end at the same colon
  rw [headerLine_eq] at heq
  simp only [List.append_assoc, List.cons_append] at heq
  obtain ⟨rfl, htail⟩ := List.append_inj heq (by rw [hkey, Header.length_normalizeKey])
  obtain ⟨-, htail⟩ := List.cons.inj htail
  -- behind it there is the blank that was written
  obtain ⟨v, rfl⟩ : ∃ v', v = ch ' ' :: v' := by
    cases v with
    | nil => exact absurd (List.cons.inj htail).1 (by decide)
    | cons b v => exact ⟨v, by rw [(List.cons.inj htail).1]⟩
  obtain ⟨-, htail⟩ := List.cons.inj htail
  rw [trim_cons (by decide)] at hvalue
  have hline : headerLine { key := h.key, value := v } = h.key ++ ch ':' :: ch ' ' :: v :=
    headerLine_eq _
  rw [← hline] at hone ⊢
  obtain ⟨hcrlf, hcrlf'⟩ := find_crlf_headerLine.mp hone
  obtain rfl : v = h.value := eq_of_line htail (hvalue ▸ length_trim_le v) hcrlf'
  exact ⟨rfl, hkey.symm, hk, hcrlf, hcrlf', trimmed_of_trim hvalue.symm⟩

/-- The loop adds headers, and leaves the rest of the message alone. -/
theorem frame_of_parseHeaders : ∀ {n : Nat} {m m' : Message} {rest : Bytes}, rest.length = n →
    m.parseHeaders rest = (m', .ok body) →
    m'.version = m.version ∧ m'.body = m.body ∧ ∃ more, m'.headers = m.headers ++ more := by
  intro n
  induction n using Nat.strongRecOn with
  | _ n ih =>
    intro m m' rest hn hparse
    rcases Message.parseHeaders_eq_ok hparse with
      ⟨-, rfl⟩ | ⟨line, rest', m₁, hrest, hne, -, hline, hlater⟩
    · exact ⟨rfl, rfl, [], (List.append_nil _).symm⟩
    · have hlen := congrArg List.length hrest
      rw [List.length_append, List.length_append, length_crlf] at hlen
      obtain ⟨hversion, hbody, more, hmore⟩ := ih rest'.length (by omega) rfl hlater
      obtain ⟨k, v, -, -, rfl⟩ := eq_of_parseHeaderLine hne hline
      exact ⟨hversion, hbody, Header.make k (trim v) :: more, by
        rw [hmore, Message.addHeader, List.append_assoc, List.singleton_append]⟩

/-- **Headers that come back** are clean, each behind the one before. -/
theorem clean_of_parseHeaders (later : Bytes) : ∀ {headers : List Header} {m m' : Message},
    m.parseHeaders ((headers.flatMap fun h => headerLine h ++ crlf) ++ later) = (m', .ok body) →
    m'.headers = m.headers ++ headers → ∀ h ∈ headers, CleanHeader h
  | [], _, _, _, _ => fun _ hh => absurd hh List.not_mem_nil
  | h :: headers, m, m', hparse, hheaders => by
    rw [List.flatMap_cons, List.append_assoc] at hparse
    rcases Message.parseHeaders_eq_ok hparse with
      ⟨-, rfl⟩ | ⟨line, rest', m₁, hrest, hne, hone, hline, hlater⟩
    · have hlen := congrArg List.length hheaders
      simp at hlen
    · obtain ⟨k, v, -, -, hm₁⟩ := eq_of_parseHeaderLine hne hline
      obtain ⟨-, -, more, hmore⟩ := frame_of_parseHeaders rfl hlater
      -- the first header that was read is the first that was written
      rw [hheaders, hm₁, Message.addHeader, List.append_assoc, List.append_cancel_left_eq,
        List.singleton_append] at hmore
      obtain ⟨rfl, rfl⟩ := List.cons.inj hmore
      rw [hm₁] at hline hlater
      obtain ⟨rfl, hclean⟩ := headerLine_of_parsed hrest hne hone hline
      obtain rfl := List.append_cancel_left hrest
      have hrec := clean_of_parseHeaders later hlater (by
        rw [hheaders, Message.addHeader, List.append_assoc, List.singleton_append])
      intro h' hh'
      rcases List.mem_cons.mp hh' with rfl | hh'
      · exact hclean
      · exact hrec h' hh'

/-- A clean header is read as itself. -/
theorem CleanHeader.parseHeaderLine (hclean : CleanHeader h) (m : Message) :
    m.parseHeaderLine (headerLine h) = .ok (m.addHeader h) := by
  have hcolon : find (ascii ":") (h.key ++ ch ':' :: (ch ' ' :: h.value)) = some h.key.length :=
    find_byte _ hclean.colon
  have hblank : ∀ c ∈ [ch ' '], isSpace c = true := List.all_eq_true.mp (by decide)
  have htrim : trim (ch ' ' :: h.value) = h.value := trim_append hblank hclean.trimmed
  rw [Message.parseHeaderLine, if_neg (headerLine_ne_nil h), headerLine_eq, hcolon]
  simp only [List.take_left, drop_byte, htrim, Header.make, hclean.normal, Header.normalizeValue]

theorem parseHeaders_of_clean (body : Bytes) : ∀ (headers : List Header) (m : Message),
    (∀ h ∈ headers, CleanHeader h) →
    m.parseHeaders ((headers.flatMap fun h => headerLine h ++ crlf) ++ (crlf ++ body)) =
      ({ m with headers := m.headers ++ headers }, .ok body)
  | [], m, _ => by
    rw [List.flatMap_nil, List.nil_append, Message.parseHeaders_end, List.append_nil]
  | h :: headers, m, hall => by
    have hclean := hall h List.mem_cons_self
    have hone := find_crlf_headerLine.mpr ⟨hclean.key, hclean.value⟩
    rw [List.flatMap_cons, List.append_assoc,
      Message.parseHeaders_line (headerLine_ne_nil h) hone (hclean.parseHeaderLine m),
      parseHeaders_of_clean body headers _ fun h' hh' => hall h' (List.mem_cons_of_mem h hh')]
    simp [Message.addHeader]

/-! ## Both directions -/

theorem Clean.comesBack (h : Clean r) : ComesBack r := by
  have hone : find crlf r.initialLine = none :=
    find_crlf_initialLine.mpr ⟨h.method.2, h.path.2, h.version⟩
  have hmethod : find (ascii " ") (r.method ++ ch ' ' :: (r.requestPath ++ ch ' ' :: r.version)) =
      some r.method.length := find_byte _ h.method.1
  have hpath : find (ascii " ") (r.requestPath ++ ch ' ' :: r.version) =
      some r.requestPath.length := find_byte _ h.path.1
  have hline : ({} : Request).parseInitialLine r.initialLine =
      ({ method := r.method, requestPath := r.requestPath, version := r.version }, none) := by
    rw [initialLine_eq, parseInitialLine, hmethod]
    simp only [drop_byte, hpath, List.take_left]
  rw [ComesBack, parseData, bytes_eq, parseData_line hone, hline]
  simp only [parseHeaders_of_clean _ _ _ h.headers, List.nil_append]

/-- **The first line comes back** uncut, and the loop is given what is behind it. -/
theorem initialLine_of_comesBack (h : ComesBack r) :
    find crlf r.initialLine = none ∧ ch ' ' ∉ r.method ∧ ch ' ' ∉ r.requestPath ∧
      ∃ m m' : Message, m.headers = [] ∧ m'.headers = r.headers ∧
        m.parseHeaders ((r.headers.flatMap fun h => headerLine h ++ crlf) ++ (crlf ++ r.body)) =
          (m', .ok r.body) := by
  rw [ComesBack, parseData, AsioProtocols.parseData] at h
  rcases hfind : find crlf r.bytes with _ | stop
  · rw [hfind] at h
    have hbody := congrArg Prod.snd h
    cases hbody
  rw [hfind] at h
  obtain ⟨hsplit, hone, -⟩ := exists_line hfind
  dsimp only at h
  rcases hline : ({} : Request).parseInitialLine (r.bytes.take stop) with ⟨q, _ | e⟩
  · rw [hline] at h
    obtain ⟨hmethod, hpath, hversion, hheaders⟩ := parts_of_eq (congrArg Prod.fst h)
    have hbody := congrArg Prod.snd h
    dsimp only at hmethod hpath hversion hheaders hbody
    obtain ⟨hwritten, hblank, hblank'⟩ := eq_of_parseInitialLine hline
    have hframe := frame_of_parseHeaders rfl (Prod.ext rfl hbody)
    rw [hframe.1] at hversion
    have hinitial : q.initialLine = r.initialLine := by
      rw [initialLine, initialLine, hmethod, hpath, hversion]
    rw [hwritten, hinitial] at hsplit hone
    rw [bytes_eq] at hsplit
    have hrest := List.append_cancel_left hsplit
    rw [← bytes_eq] at hrest
    refine ⟨hone, hmethod ▸ hblank, hpath ▸ hblank', q.toMessage, _, ?_, hheaders, ?_⟩
    · exact (headers_of_parseInitialLine hline).trans rfl
    · rw [hrest]
      exact Prod.ext rfl hbody
  · rw [hline] at h
    have hbody := congrArg Prod.snd h
    cases hbody

end Request

end AsioProtocols
