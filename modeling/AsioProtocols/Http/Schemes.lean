import AsioProtocols.Http.Details

/-!
# The letter case of a scheme

The expression of the constructor takes a scheme in any case, and the URI keeps it
as it was typed. The table of ports and the decision for TLS compare it exactly
with texts in lower case. So `HTTP://h` is refused where `http://h` is not, and
`HTTPS://h:443` is an endpoint without TLS.

Two inputs that differ only in the case of their scheme should make no difference
(`SameEndpoint`), nor should `https` in any case go without TLS. `sameEndpoint_iff`
has the exact condition: an explicit port leaves only TLS to be decided by the
scheme, and without one the scheme must be in the table in both spellings or in
neither.
-/

namespace AsioProtocols

namespace Uri

/-- Two spellings of a scheme, which holds no colon. -/
structure SchemeCase (x x' : Bytes) : Prop where
  colon : ch ':' ∉ x
  lower : x.map toLower = x'.map toLower

/-- `https` goes with TLS, however it is spelt. -/
def Encrypted (input : Bytes) : Prop :=
  ∀ u, parse input = .ok u → u.scheme.map toLower = ascii "https" → (Details.ofUri u).tls = true

/-- **Both inputs are refused, or they lead to the same port and endpoint**; and
`https` goes with TLS. -/
structure SameEndpoint (input input' : Bytes) : Prop where
  accepted : (∃ u, parse input = .ok u) ↔ ∃ u, parse input' = .ok u
  port : ∀ u u', parse input = .ok u → parse input' = .ok u' → u.port = u'.port
  details : ∀ u u', parse input = .ok u → parse input' = .ok u' → Details.ofUri u = Details.ofUri u'
  encrypted : Encrypted input
  encrypted' : Encrypted input'

/-- The schemes in the table of ports. -/
def tableSchemes : List Bytes :=
  [ascii "amqp", ascii "amqps", ascii "http", ascii "https", ascii "imap", ascii "pop3",
    ascii "smtp"]

theorem portForScheme_isOk_iff (scheme : Bytes) :
    (∃ p, portForScheme scheme = .ok p) ↔ scheme ∈ tableSchemes := by
  simp only [tableSchemes, List.mem_cons, List.not_mem_nil, or_false]
  constructor
  · rintro ⟨p, hp⟩
    by_contra hno
    simp only [not_or] at hno
    obtain ⟨h1, h2, h3, h4, h5, h6, h7⟩ := hno
    rw [portForScheme, if_neg h1, if_neg h2, if_neg h3, if_neg h4, if_neg h5, if_neg h6,
      if_neg h7] at hp
    cases hp
  · rintro (rfl | rfl | rfl | rfl | rfl | rfl | rfl)
    all_goals exact ⟨_, rfl⟩

/-- The table is in lower case. -/
theorem lower_of_mem_tableSchemes {x : Bytes} (h : x ∈ tableSchemes) : x.map toLower = x := by
  revert x
  decide

/-! ## The constructor on a scheme and a rest -/

variable {x x' rest : Bytes}

/-- Whether a scheme is valid does not depend on its case. -/
theorem validScheme_eq_of_lower (h : x.map toLower = x'.map toLower) :
    validScheme x = validScheme x' := by
  have hvalid : ∀ s : Bytes, validScheme s =
      (!(s.map toLower).isEmpty && (s.map toLower).all fun b => 97 ≤ b && b ≤ 122) := by
    intro s
    have hbyte : schemeByte = (fun b : Byte => 97 ≤ b && b ≤ 122) ∘ toLower := rfl
    rw [validScheme, List.isEmpty_map, List.all_map, hbyte]
  rw [hvalid, hvalid, h]

theorem toLower_eq_colon {b : Byte} (h : toLower b = ch ':') : b = ch ':' := by
  unfold toLower at h
  split at h
  · -- letters are moved to letters
    rename_i hletter
    have hnat : (65 : Nat) ≤ b.toNat ∧ b.toNat ≤ 90 := hletter
    have hsum := congrArg UInt8.toNat h
    rw [UInt8.toNat_add] at hsum
    have hcolon : (ch ':').toNat = 58 := rfl
    have hoffset : (32 : Byte).toNat = 32 := rfl
    omega
  · exact h

theorem SchemeCase.colon' (h : SchemeCase x x') : ch ':' ∉ x' := by
  intro hm
  have hlower := List.mem_map_of_mem (f := toLower) hm
  rw [← h.lower] at hlower
  obtain ⟨b, hb, he⟩ := List.mem_map.mp hlower
  exact h.colon (toLower_eq_colon he ▸ hb)

/-- What `parse` does with a scheme: the port comes from the text behind it, or from
the table. -/
theorem parse_scheme_iff (hcolon : ch ':' ∉ x) {u : Uri} :
    parse (x ++ ascii "://" ++ rest) = .ok u ↔ validScheme x = true ∧
      ∃ a, splitAuthority (tailOk authorityEnd) rest = some a ∧
        build x a ((splitTail a.tail).getD {}) = .ok u := by
  rw [parse_eq_ok_iff]
  constructor
  · rintro ⟨scheme, rest', a, hscheme, ha, hbuild⟩
    obtain ⟨heq, hvalid, hcolon'⟩ := splitScheme_eq_some_iff.mp hscheme
    rw [List.append_assoc, List.append_assoc] at heq
    obtain ⟨rfl, hrest⟩ := append_cons_inj hcolon hcolon' heq
    obtain rfl : rest = rest' := List.append_cancel_left hrest
    exact ⟨hvalid, a, ha, hbuild⟩
  · rintro ⟨hvalid, a, ha, hbuild⟩
    exact ⟨x, rest, a, splitScheme_eq_some_iff.mpr ⟨rfl, hvalid, hcolon⟩, ha, hbuild⟩

theorem build_isOk_iff {scheme : Bytes} {a : Authority} {t : Tail} :
    (∃ u, build scheme a t = .ok u) ↔
      ∃ p, portOr (a.port.getD []) (portForScheme scheme) = .ok p := by
  unfold build
  cases portOr (a.port.getD []) (portForScheme scheme) with
  | error e =>
    constructor
    · rintro ⟨u, hu⟩
      cases hu
    · rintro ⟨p, hp⟩
      cases hp
  | ok p => exact ⟨fun _ => ⟨p, rfl⟩, fun _ => ⟨_, rfl⟩⟩

/-- What is refused depends on the scheme only if it has to supply the port. -/
theorem parse_isOk_iff (hcolon : ch ':' ∉ x) :
    (∃ u, parse (x ++ ascii "://" ++ rest) = .ok u) ↔ validScheme x = true ∧
      ∃ a, splitAuthority (tailOk authorityEnd) rest = some a ∧
        (a.port = none → x ∈ tableSchemes) ∧ (∀ t, a.port = some t → portValue t < 2147483648) := by
  have hport : ∀ a, splitAuthority (tailOk authorityEnd) rest = some a →
      ((∃ u, build x a ((splitTail a.tail).getD {}) = .ok u) ↔
        (a.port = none → x ∈ tableSchemes) ∧
          ∀ t, a.port = some t → portValue t < 2147483648) := by
    intro a ha
    rw [build_isOk_iff]
    cases hp : a.port with
    | none =>
      rw [Option.getD_none, portOr, if_pos rfl, portForScheme_isOk_iff]
      simp
    | some t =>
      obtain ⟨hne, hdigits⟩ := portDigits_of_splitAuthority ha t hp
      rw [Option.getD_some, portOr_digits hne hdigits]
      by_cases hsmall : portValue t < 2147483648
      · simp [hsmall]
      · simp [hsmall]
  constructor
  · rintro ⟨u, hu⟩
    obtain ⟨hvalid, a, ha, hbuild⟩ := (parse_scheme_iff hcolon).mp hu
    exact ⟨hvalid, a, ha, (hport a ha).mp ⟨u, hbuild⟩⟩
  · rintro ⟨hvalid, a, ha, h⟩
    obtain ⟨u, hbuild⟩ := (hport a ha).mpr h
    exact ⟨u, (parse_scheme_iff hcolon).mpr ⟨hvalid, a, ha, hbuild⟩⟩

/-- What is accepted, by its pieces. -/
theorem parse_scheme_spec (hcolon : ch ':' ∉ x) {u : Uri}
    (h : parse (x ++ ascii "://" ++ rest) = .ok u) :
    ∃ a, splitAuthority (tailOk authorityEnd) rest = some a ∧ validScheme x = true ∧
      u.scheme = x ∧ u.hostname = a.host ∧ (a.port = none → x ∈ tableSchemes) ∧
      ∀ t, a.port = some t → portValue t < 2147483648 ∧ u.port = portValue t % 65536 := by
  obtain ⟨hvalid, a, ha, hbuild⟩ := (parse_scheme_iff hcolon).mp h
  obtain ⟨hport, hscheme, hhost, -, -⟩ := build_eq_ok hbuild
  refine ⟨a, ha, hvalid, hscheme, hhost, ?_, ?_⟩
  · intro hnone
    rw [hnone, Option.getD_none, portOr, if_pos rfl] at hport
    exact (portForScheme_isOk_iff x).mp ⟨_, hport⟩
  · intro t ht
    obtain ⟨hne, hdigits⟩ := portDigits_of_splitAuthority ha t ht
    rw [ht, Option.getD_some, portOr_digits hne hdigits] at hport
    by_cases hsmall : portValue t < 2147483648
    · rw [if_pos hsmall] at hport
      exact ⟨hsmall, (Except.ok.inj hport).symm⟩
    · rw [if_neg hsmall] at hport
      cases hport

/-! ## Where case makes no difference -/

/-- Without an explicit port, `https` in another case is refused; with one, the case
decides about TLS. -/
theorem encrypted_iff (hcolon : ch ':' ∉ x) : Encrypted (x ++ ascii "://" ++ rest) ↔
    ∀ a t, validScheme x = true → splitAuthority (tailOk authorityEnd) rest = some a →
      a.port = some t → portValue t < 2147483648 → x.map toLower = ascii "https" →
      x = ascii "https" := by
  constructor
  · intro h a t hvalid ha ht hsmall hlower
    obtain ⟨u, hu⟩ := (parse_isOk_iff hcolon).mpr ⟨hvalid, a, ha, by simp [ht], by simpa [ht]⟩
    obtain ⟨-, -, -, hscheme, -, -, -⟩ := parse_scheme_spec hcolon hu
    have htls := h u hu (by rw [hscheme, hlower])
    rw [Details.ofUri, hscheme] at htls
    exact beq_iff_eq.mp htls
  · intro h u hu hlower
    obtain ⟨a, ha, hvalid, hscheme, -, htable, hdigits⟩ := parse_scheme_spec hcolon hu
    rw [hscheme] at hlower
    have hx : x = ascii "https" := by
      cases ht : a.port with
      | none => rw [← hlower, lower_of_mem_tableSchemes (htable ht)]
      | some t => exact h a t hvalid ha ht (hdigits t ht).1 hlower
    rw [Details.ofUri, hscheme]
    exact beq_iff_eq.mpr hx

/-- With TLS decided alike, what is accepted in both spellings is one endpoint. -/
theorem endpoint_eq (h : SchemeCase x x')
    (htls : Encrypted (x ++ ascii "://" ++ rest)) (htls' : Encrypted (x' ++ ascii "://" ++ rest))
    {u u' : Uri} (hu : parse (x ++ ascii "://" ++ rest) = .ok u)
    (hu' : parse (x' ++ ascii "://" ++ rest) = .ok u') :
    u.port = u'.port ∧ Details.ofUri u = Details.ofUri u' := by
  obtain ⟨a, ha, -, hscheme, hhost, htable, hdigits⟩ := parse_scheme_spec h.colon hu
  obtain ⟨a', ha', -, hscheme', hhost', htable', hdigits'⟩ := parse_scheme_spec h.colon' hu'
  rw [ha] at ha'
  obtain rfl := Option.some.inj ha'
  have hport : u.port = u'.port := by
    cases ht : a.port with
    | none =>
      -- both are in the table, and so the same text
      have hsame : x = x' := by
        rw [← lower_of_mem_tableSchemes (htable ht), h.lower,
          lower_of_mem_tableSchemes (htable' ht)]
      subst hsame
      rw [hu] at hu'
      cases hu'
      rfl
    | some t => rw [(hdigits t ht).2, (hdigits' t ht).2]
  have hsecure : (u.scheme == ascii "https") = (u'.scheme == ascii "https") := by
    by_cases hlower : x.map toLower = ascii "https"
    · have hsec : (u.scheme == ascii "https") = true := htls u hu (by rw [hscheme, hlower])
      have hsec' : (u'.scheme == ascii "https") = true :=
        htls' u' hu' (by rw [hscheme', ← h.lower, hlower])
      rw [hsec, hsec']
    · have hplain : ∀ y : Bytes, y.map toLower = x.map toLower → (y == ascii "https") = false := by
        intro y hy
        rw [beq_eq_false_iff_ne]
        rintro rfl
        exact hlower (hy.symm.trans (by decide))
      rw [hscheme, hscheme', hplain x rfl, hplain x' h.lower.symm]
  refine ⟨hport, ?_⟩
  rw [Details.ofUri, Details.ofUri, hport, hsecure, hhost, hhost']

/-- **Where the case of a scheme makes no difference**: a scheme that has to supply
the port is in the table in both spellings or in neither, and one that is `https`
but for its case, with a port of its own, is spelt in lower case in both. -/
theorem sameEndpoint_iff (h : SchemeCase x x') (rest : Bytes) :
    SameEndpoint (x ++ ascii "://" ++ rest) (x' ++ ascii "://" ++ rest) ↔
      ∀ a, validScheme x = true → splitAuthority (tailOk authorityEnd) rest = some a →
        (a.port = none → (x ∈ tableSchemes ↔ x' ∈ tableSchemes)) ∧
        ∀ t, a.port = some t → portValue t < 2147483648 → x.map toLower = ascii "https" →
          x = ascii "https" ∧ x' = ascii "https" := by
  have hvalid' := validScheme_eq_of_lower h.lower
  constructor
  · intro hsame a hvalid ha
    constructor
    · intro hnone
      have hknown : ∀ y, ch ':' ∉ y → validScheme y = true →
          ((∃ u, parse (y ++ ascii "://" ++ rest) = .ok u) ↔ y ∈ tableSchemes) := by
        intro y hcolon hy
        rw [parse_isOk_iff hcolon]
        simp [hy, ha, hnone]
      rw [← hknown x h.colon hvalid, ← hknown x' h.colon' (hvalid' ▸ hvalid)]
      exact hsame.accepted
    · intro t ht hsmall hlower
      constructor
      · exact (encrypted_iff h.colon).mp hsame.encrypted a t hvalid ha ht hsmall hlower
      · exact (encrypted_iff h.colon').mp hsame.encrypted' a t (hvalid' ▸ hvalid) ha ht hsmall
          (h.lower ▸ hlower)
  · intro hcond
    have htls : Encrypted (x ++ ascii "://" ++ rest) :=
      (encrypted_iff h.colon).mpr fun a t hvalid ha ht hsmall hlower =>
        ((hcond a hvalid ha).2 t ht hsmall hlower).1
    have htls' : Encrypted (x' ++ ascii "://" ++ rest) :=
      (encrypted_iff h.colon').mpr fun a t hvalid ha ht hsmall hlower =>
        ((hcond a (hvalid' ▸ hvalid) ha).2 t ht hsmall (h.lower ▸ hlower)).2
    refine ⟨?_, ?_, ?_, htls, htls'⟩
    · rw [parse_isOk_iff h.colon, parse_isOk_iff h.colon', ← hvalid']
      refine and_congr_right fun hvalid => exists_congr fun a => and_congr_right fun ha => ?_
      refine and_congr_left fun _ => ?_
      exact forall_congr' fun hnone => (hcond a hvalid ha).1 hnone
    · intro u u' hu hu'
      exact (endpoint_eq h htls htls' hu hu').1
    · intro u u' hu hu'
      exact (endpoint_eq h htls htls' hu hu').2

/-- The case of `FTP` makes no difference where the port is given. -/
theorem sameEndpoint_ftp :
    SameEndpoint (ascii "FTP" ++ ascii "://" ++ ascii "h:21/x")
      (ascii "ftp" ++ ascii "://" ++ ascii "h:21/x") := by
  refine (sameEndpoint_iff ⟨by decide, by decide⟩ (ascii "h:21/x")).mpr ?_
  intro a _ ha
  have hport : (splitAuthority (tailOk authorityEnd) (ascii "h:21/x")).map (·.port) =
      some (some (ascii "21")) := by decide
  rw [ha] at hport
  have hsome : a.port = some (ascii "21") := Option.some.inj hport
  constructor
  · intro hnone
    rw [hsome] at hnone
    cases hnone
  · intro t _ _ hlower
    exact absurd hlower (by decide)

/-- `HTTP://h` is refused, and `HTTPS://h:443` goes without TLS. -/
theorem not_sameEndpoint :
    ¬ SameEndpoint (ascii "http" ++ ascii "://" ++ ascii "h")
        (ascii "HTTP" ++ ascii "://" ++ ascii "h") ∧
      ¬ SameEndpoint (ascii "https" ++ ascii "://" ++ ascii "h:443")
        (ascii "HTTPS" ++ ascii "://" ++ ascii "h:443") := by
  constructor
  · intro h
    have hlower : (parse (ascii "http" ++ ascii "://" ++ ascii "h")).toOption.isSome = true := by
      decide
    have hupper : (parse (ascii "HTTP" ++ ascii "://" ++ ascii "h")).toOption.isSome = false := by
      decide
    obtain ⟨u, hu⟩ := Option.isSome_iff_exists.mp hlower
    obtain ⟨u', hu'⟩ := h.accepted.mp ⟨u, eq_ok_of_toOption hu⟩
    rw [hu'] at hupper
    cases hupper
  · intro h
    have hplain : (parse (ascii "HTTPS" ++ ascii "://" ++ ascii "h:443")).toOption.map
        (fun u => (u.scheme.map toLower, (Details.ofUri u).tls)) =
        some (ascii "https", false) := by decide
    obtain ⟨u, hu, he⟩ := Option.map_eq_some_iff.mp hplain
    obtain ⟨hscheme, htls⟩ := Prod.mk.inj he
    have hsecure := h.encrypted' u (eq_ok_of_toOption hu) hscheme
    rw [htls] at hsecure
    cases hsecure

end Uri

end AsioProtocols
