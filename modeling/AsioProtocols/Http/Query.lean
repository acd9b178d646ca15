import AsioProtocols.Http.Percent
import AsioProtocols.Http.Uri

/-!
# Query parameters

`uri::query` and `operator<<` (`http/uri.h`): a pair is appended to the query string as
`key=value`, both escaped, with an `&` in front unless it is the first. `escape` differs
from `uri::encoded` in the fill alone: a byte below 16 has one digit, and a blank stands in
front of it.

`std::stoi` skips that blank, so `decoded` inverts `escape` on bytes below 128
(`decoded_escape`). Neither separator is ever escaped to, so the pairs are what a reader
finds who splits the query string and decodes the parts (`parameters_survive`).
-/

namespace AsioProtocols

namespace Uri

/-- `uri::query` -/
structure Query where
  key : Bytes
  value : Bytes
  deriving DecidableEq, Repr

namespace Query

/-- `escape(in)` (uri.h, lines 36-48); the fill of the stream is a blank. -/
def escape (s : Bytes) : Bytes := s.flatMap (encodedByte (ch ' '))

/-- `encoded_key()` -/
def encodedKey (q : Query) : Bytes := escape q.key

/-- `encoded_value()` -/
def encodedValue (q : Query) : Bytes := escape q.value

/-- `encoded_string()` -/
def encodedString (q : Query) : Bytes := q.encodedKey ++ ascii "=" ++ q.encodedValue

end Query

/-- `u << q` (uri.h, lines 55-60) -/
def appendQuery (u : Uri) (q : Query) : Uri :=
  let query := if u.haveQuery then u.query ++ ascii "&" else u.query
  { u with query := query ++ q.encodedString }

/-- `u << q1 << ... << qn` -/
def appendQueries (u : Uri) (qs : List Query) : Uri := qs.foldl appendQuery u

/-- Reading a part of a query string: cut at its first `=`, both halves decoded. -/
def parameter (part : Bytes) : Except DecodeError Query := do
  let key ← decoded (cut (ch '=') part).1
  let value ← decoded (cut (ch '=') part).2
  return { key, value }

/-- Reading a query string: split at each `&`. An empty one has no parts. -/
def parameters (query : Bytes) : Except DecodeError (List Query) :=
  if query = [] then .ok [] else (query.splitOn (ch '&')).mapM parameter

/-- Every byte is below 128. -/
def SevenBit (s : Bytes) : Prop := ∀ b ∈ s, b.toNat < 128

instance (s : Bytes) : Decidable (SevenBit s) := List.decidableBAll _ s

/-- A pair of 7-bit strings. -/
def Query.SevenBit (q : Query) : Prop := Uri.SevenBit q.key ∧ Uri.SevenBit q.value

instance (q : Query) : Decidable q.SevenBit := inferInstanceAs (Decidable (_ ∧ _))

/-- **The pairs `qs` survive** in the query string of `u`: they are read back, and no other
pairs give that query string. -/
structure Survives (u : Uri) (qs : List Query) : Prop where
  read : parameters (u.appendQueries qs).query = .ok qs
  injective : ∀ (u' : Uri) (qs' : List Query), u'.query = [] → (∀ q ∈ qs', q.SevenBit) →
    (u'.appendQueries qs').query = (u.appendQueries qs).query → qs' = qs

/-! ## One byte -/

/-- From 16 on there is nothing to fill. -/
theorem encodedByte_of_ge (fill : Byte) {b : Byte} (h : 16 ≤ b.toNat) :
    encodedByte fill b = encodedByte (ch '0') b := by
  have hlarge : 16 ≤ toUint32 b.toInt8.toInt := by
    by_cases hsmall : b.toNat < 128
    · rw [toUint32_of_lt hsmall]
      exact h
    · rw [toUint32_of_ge (by omega)]
      omega
  have hlen : 2 ≤ (hexadecimal (toUint32 b.toInt8.toInt)).length := by
    have hrest : hexadecimal (toUint32 b.toInt8.toInt / 16) ≠ [] := by
      rw [hexadecimal, Ne, List.map_eq_nil_iff]
      exact Nat.toDigits_ne_nil
    have hpos := List.length_pos_iff.mpr hrest
    rw [hexadecimal_of_ge hlarge, List.length_append, List.length_singleton]
    omega
  have hpad : ∀ fill, padded fill 2 (hexadecimal (toUint32 b.toInt8.toInt)) =
      hexadecimal (toUint32 b.toInt8.toInt) := by
    intro fill
    rw [padded, Nat.sub_eq_zero_of_le hlen]
    rfl
  rw [encodedByte, encodedByte, hpad, hpad]

/-- Below 16 the fill is in front of the one digit. -/
theorem encodedByte_of_lt (fill : Byte) {b : Byte} (h : b.toNat < 16) :
    encodedByte fill b = [ch '%', fill, hexDigit b.toNat] := by
  have hreserved : unreserved b = false := by
    have hall : ∀ n < 16, unreserved (UInt8.ofNat n) = false := by decide
    rw [← UInt8.ofNat_toNat (x := b)]
    exact hall b.toNat h
  rw [encodedByte, hreserved, toUint32_of_lt (by omega), hexadecimal_of_lt h]
  rfl

/-- What an escaped byte is made of. -/
theorem mem_encodedByte {fill b c : Byte} (h : c ∈ encodedByte fill b) :
    unreserved c = true ∨ c = ch '%' ∨ c = fill ∧ b.toNat < 16 := by
  have hdigit : ∀ d < 16, unreserved (hexDigit d) = true := by decide
  have hlt := b.toNat_lt
  by_cases hsmall : b.toNat < 16
  · rw [encodedByte_of_lt fill hsmall] at h
    rcases List.mem_cons.mp h with rfl | h
    · exact .inr (.inl rfl)
    · rcases List.mem_pair.mp h with rfl | rfl
      · exact .inr (.inr ⟨rfl, hsmall⟩)
      · exact .inl (hdigit _ hsmall)
  · rw [encodedByte_of_ge fill (by omega), encodedByte_eq] at h
    by_cases hplain : unreserved b = true
    · rw [if_pos hplain, List.mem_singleton] at h
      exact .inl (h ▸ hplain)
    · rw [if_neg hplain] at h
      rcases List.mem_cons.mp h with rfl | h
      · exact .inr (.inl rfl)
      · rcases List.mem_append.mp h with h | h
        · -- the digits of the sign
          have hsign : ∀ c ∈ ascii "ffffff", unreserved c = true :=
            List.all_eq_true.mp (by decide)
          split at h
          · cases h
          · exact .inl (hsign c h)
        · rcases List.mem_pair.mp h with rfl | rfl
          · exact .inl (hdigit _ (by omega))
          · exact .inl (hdigit _ (by omega))

/-- A blank and a digit are read as the digit. -/
theorem stoi_blank : ∀ d < 16, stoi 16 [ch ' ', hexDigit d] = .ok (d : Nat) := by decide

/-- **The decoder behind an escaped byte** below 128. -/
theorem decoded_escapedByte {b : Byte} (h : b.toNat < 128) (rest : Bytes) :
    decoded (encodedByte (ch ' ') b ++ rest) = (decoded rest).map (b :: ·) := by
  by_cases hsmall : b.toNat < 16
  · rw [encodedByte_of_lt _ hsmall]
    show decoded (ch '%' :: ch ' ' :: _ :: rest) = _
    rw [decoded_triplet (stoi_blank _ hsmall), toByte_toNat]
  · rw [encodedByte_of_ge _ (by omega), decoded_encodedByte, readBack, if_pos h]
    rfl

/-! ## One text -/

namespace Query

/-- **`decoded` inverts `escape`** on 7-bit strings. -/
theorem decoded_escape {s : Bytes} (h : Uri.SevenBit s) : decoded (escape s) = .ok s := by
  induction s with
  | nil => rfl
  | cons b s ih =>
    have hs : Uri.SevenBit s := fun c hc => h c (List.mem_cons_of_mem b hc)
    show decoded (encodedByte (ch ' ') b ++ escape s) = _
    rw [decoded_escapedByte (h b List.mem_cons_self), ih hs]
    rfl

theorem mem_escape {s : Bytes} {c : Byte} (h : c ∈ escape s) :
    unreserved c = true ∨ c = ch '%' ∨ c = ch ' ' ∧ ∃ b ∈ s, b.toNat < 16 := by
  obtain ⟨b, hb, hc⟩ := List.mem_flatMap.mp h
  rcases mem_encodedByte hc with hplain | hpercent | ⟨hfill, hsmall⟩
  · exact .inl hplain
  · exact .inr (.inl hpercent)
  · exact .inr (.inr ⟨hfill, b, hb, hsmall⟩)

/-- The separators are reserved, and so are the line separators. -/
theorem not_mem_escape {c : Byte} (hreserved : unreserved c = false) (hpercent : c ≠ ch '%')
    (hblank : c ≠ ch ' ') (s : Bytes) : c ∉ escape s := by
  intro h
  rcases mem_escape h with hplain | hc | ⟨hc, -⟩
  · rw [hreserved] at hplain
    cases hplain
  · exact hpercent hc
  · exact hblank hc

/-! ## One pair -/

theorem ampersand_not_mem (q : Query) : ch '&' ∉ q.encodedString := by
  have hescape : ∀ s, ch '&' ∉ escape s := not_mem_escape (by decide) (by decide) (by decide)
  simp [encodedString, encodedKey, encodedValue, hescape]
  decide

theorem encodedString_ne_nil (q : Query) : q.encodedString ≠ [] := by
  simp [encodedString, ascii]

/-- The first `=` is the one between the key and the value. -/
theorem cut_encodedString (q : Query) :
    cut (ch '=') q.encodedString = (q.encodedKey, q.encodedValue) := by
  have hescape : ch '=' ∉ q.encodedKey :=
    not_mem_escape (by decide) (by decide) (by decide) q.key
  rw [encodedString, List.append_assoc]
  exact cut_append q.encodedValue hescape

theorem parameter_encodedString {q : Query} (h : q.SevenBit) :
    parameter q.encodedString = .ok q := by
  rw [parameter, cut_encodedString, encodedKey, encodedValue, decoded_escape h.1,
    decoded_escape h.2]
  rfl

end Query

/-! ## The query string -/

/-- Behind a query that is there, each pair comes with an `&`. -/
theorem query_appendQueries (qs : List Query) {u : Uri} (h : u.query ≠ []) :
    (u.appendQueries qs).query =
      u.query ++ (qs.map Query.encodedString).flatMap (ch '&' :: ·) := by
  induction qs generalizing u with
  | nil => simp [appendQueries]
  | cons q qs ih =>
    have hhave : u.haveQuery = true := by simpa [haveQuery] using h
    have hstep : (u.appendQuery q).query = u.query ++ ch '&' :: q.encodedString := by
      rw [appendQuery, hhave]
      simp [ascii]
    have hne : (u.appendQuery q).query ≠ [] := by simp [hstep]
    have hlater := ih hne
    rw [hstep] at hlater
    show ((u.appendQuery q).appendQueries qs).query = _
    rw [hlater, List.map_cons, List.flatMap_cons, List.append_assoc]

/-- The first pair is appended to an empty query without one. -/
theorem query_appendQueries_cons {u : Uri} (h : u.query = []) (q : Query) (qs : List Query) :
    (u.appendQueries (q :: qs)).query =
      q.encodedString ++ (qs.map Query.encodedString).flatMap (ch '&' :: ·) := by
  have hstep : (u.appendQuery q).query = q.encodedString := by
    simp [appendQuery, haveQuery, h]
  have hne : (u.appendQuery q).query ≠ [] := hstep ▸ q.encodedString_ne_nil
  rw [← hstep]
  exact query_appendQueries qs hne

/-- Splitting takes the parts apart again. -/
theorem splitOn_parts {b : Byte} (ps : List Bytes) {p : Bytes} (hp : b ∉ p)
    (h : ∀ x ∈ ps, b ∉ x) : (p ++ ps.flatMap (b :: ·)).splitOn b = p :: ps := by
  induction ps generalizing p with
  | nil => rw [List.flatMap_nil, List.append_nil, List.splitOn_eq_singleton hp]
  | cons x ps ih =>
    rw [List.flatMap_cons, List.cons_append, List.splitOn_append_cons_self_of_not_mem hp,
      ih (h x List.mem_cons_self) fun y hy => h y (List.mem_cons_of_mem x hy)]

/-- The parts are read one by one. -/
theorem mapM_parameter {qs : List Query} (h : ∀ q ∈ qs, q.SevenBit) :
    (qs.map Query.encodedString).mapM parameter = .ok qs := by
  induction qs with
  | nil => rfl
  | cons q qs ih =>
    have hlater := ih fun q' hq' => h q' (List.mem_cons_of_mem q hq')
    rw [List.map_cons, List.mapM_cons, Query.parameter_encodedString (h q List.mem_cons_self),
      hlater]
    rfl

/-- **Reading gives the pairs back.** -/
theorem parameters_appendQueries {u : Uri} (hu : u.query = []) {qs : List Query}
    (h : ∀ q ∈ qs, q.SevenBit) : parameters (u.appendQueries qs).query = .ok qs := by
  cases qs with
  | nil => exact if_pos hu
  | cons q qs =>
    have hparts : ∀ x ∈ qs.map Query.encodedString, ch '&' ∉ x := by
      intro x hx
      obtain ⟨q', -, rfl⟩ := List.mem_map.mp hx
      exact q'.ampersand_not_mem
    rw [query_appendQueries_cons hu, parameters, if_neg (by simp [q.encodedString_ne_nil]),
      splitOn_parts _ q.ampersand_not_mem hparts]
    exact mapM_parameter h

/-- **Query parameters survive**, whatever 7-bit strings they are. -/
theorem parameters_survive (u : Uri) (hu : u.query = []) (qs : List Query)
    (hqs : ∀ q ∈ qs, q.SevenBit) : Survives u qs := by
  have hread := parameters_appendQueries hu hqs
  refine ⟨hread, fun u' qs' hu' hqs' heq => ?_⟩
  have hread' := parameters_appendQueries hu' hqs'
  rw [heq, hread] at hread'
  exact (Except.ok.inj hread').symm

/-- A separator in a key, a tab in a value, and a pair of empty strings. -/
theorem parameters_survive_tab :
    Survives { port := 80 } [⟨ascii "a&b", [9]⟩, ⟨[], []⟩] :=
  parameters_survive { port := 80 } rfl [⟨ascii "a&b", [9]⟩, ⟨[], []⟩] (by decide)

example : (appendQueries { port := 80 } [⟨ascii "a&b", [9]⟩, ⟨[], []⟩]).query =
    ascii "a%26b=% 9&=" := by decide

end Uri

end AsioProtocols
