import AsioProtocols.Base.Authority

/-!
# `net::http::uri`

A URI and its constructor from a string (`http/uri.h`). `Uri.parse_eq` puts the
regular expression into closed form: a scheme, an authority (`Base/Authority.lean`)
and a tail that ends the input or starts with `/`, `?` or `#`.
-/

namespace AsioProtocols

structure Uri where
  scheme : Bytes := []
  hostname : Bytes := []
  user : Bytes := []
  pass : Bytes := []
  path : Bytes := []
  query : Bytes := []
  fragment : Bytes := []
  port : Nat
  deriving DecidableEq, Repr

namespace Uri

/-- `[a-z]` under `icase` -/
def schemeByte (b : Byte) : Bool := 97 ≤ toLower b && toLower b ≤ 122

/-- `(?<scheme>[a-z]+)` -/
def schemeRegex : Regex UriGroup := .group .scheme (.plus schemeByte)

/-- `(?:#(?<fragment>.*))?` -/
def fragmentRegex : Regex UriGroup :=
  .opt (.seq (.lit (ascii "#")) (.group .fragment (.many fun _ => true)))

/-- `(?:\?(?<query>[^#]*))?` -/
def queryRegex : Regex UriGroup :=
  .opt (.seq (.lit (ascii "?")) (.group .query (.many (· != ch '#'))))

/-- `[^?#]` -/
def pathByte (b : Byte) : Bool := b != ch '?' && b != ch '#'

/-- `(?<path>/[^?#]*)?` -/
def pathRegex : Regex UriGroup :=
  .opt (.group .path (.seq (.lit (ascii "/")) (.many pathByte)))

/-- What follows the authority. -/
def tailRegex : Regex UriGroup := .seq pathRegex (.seq queryRegex fragmentRegex)

/-- The expression of the constructor (uri.h, line 108). -/
def regex : Regex UriGroup :=
  .seq .bol (.seq (.seq schemeRegex (.seq (.lit (ascii "://")) (.seq userRegex
    (.seq hostRegex tailRegex)))) .eol)

/-- `port_for_scheme(scheme)` (uri.h, lines 150-159) -/
def portForScheme (scheme : Bytes) : Except Exn Nat :=
  if scheme = ascii "amqp" then .ok 5672
  else if scheme = ascii "amqps" then .ok 5671
  else if scheme = ascii "http" then .ok 80
  else if scheme = ascii "https" then .ok 443
  else if scheme = ascii "imap" then .ok 143
  else if scheme = ascii "pop3" then .ok 110
  else if scheme = ascii "smtp" then .ok 25
  else .error (.runtimeError (ascii "Unknown scheme " ++ scheme))

/-- `uri(in)` (uri.h, lines 103-123) -/
def parse (input : Bytes) : Except Exn Uri :=
  match Regex.regexMatch regex input with
  | none => .error (.runtimeError (ascii "Failed to parse " ++ input))
  | some caps =>
    let scheme := Regex.capture caps .scheme
    match portOr (Regex.capture caps .port) (portForScheme scheme) with
    | .error e => .error e
    | .ok port =>
      .ok
        { scheme := scheme
          hostname := Regex.capture caps .host
          port := port
          user := Regex.capture caps .user
          pass := Regex.capture caps .password
          path := Regex.capture caps .path
          query := Regex.capture caps .query
          fragment := Regex.capture caps .fragment }

example : (parse (ascii "http://u:p@localhost:8080/some/path?query=string#f")).toOption =
    some { scheme := ascii "http", hostname := ascii "localhost", port := 8080,
           user := ascii "u", pass := ascii "p", path := ascii "/some/path",
           query := ascii "query=string", fragment := ascii "f" } := by decide

/-- `have_query()` (uri.h, line 137) -/
def haveQuery (u : Uri) : Bool := !u.query.isEmpty

/-- `is_default_port()` (uri.h, lines 141-147): an unknown scheme has none. -/
def isDefaultPort (u : Uri) : Bool :=
  match portForScheme u.scheme with
  | .ok p => p == u.port
  | .error _ => false

/-- `string()` (uri.h, lines 161-168) -/
def string (u : Uri) : Bytes :=
  u.scheme ++ ascii "://" ++ u.hostname ++
    (if u.isDefaultPort then [] else ascii ":" ++ decimal u.port) ++ u.path ++
    (if u.haveQuery then ascii "?" ++ u.query else [])

/-! ## The closed form -/

/-- What a URI has behind its authority. -/
structure Tail where
  path : Option Bytes := none
  query : Option Bytes := none
  fragment : Option Bytes := none
  deriving DecidableEq, Repr

/-- The groups of a tail, the last one first. -/
def Tail.captures (t : Tail) : Captures UriGroup :=
  (t.fragment.toList.map fun x => (.fragment, x)) ++ (t.query.toList.map fun x => (.query, x)) ++
    (t.path.toList.map fun x => (.path, x))

/-- From a `#` to the end. -/
def splitFragment (s : Bytes) : Option Tail :=
  if s.head? = some (ch '#') then some { fragment := some s.tail }
  else if s = [] then some {} else none

/-- From a `?` to the first `#`. -/
def splitQuery (s : Bytes) : Option Tail :=
  if s.head? = some (ch '?') then
    (splitFragment (s.tail.dropWhile (· != ch '#'))).map fun t =>
      { t with query := some (s.tail.takeWhile (· != ch '#')) }
  else splitFragment s

/-- From a `/` to the first `?` or `#`. -/
def splitTail (s : Bytes) : Option Tail :=
  if s.head? = some (ch '/') then
    (splitQuery (s.tail.dropWhile pathByte)).map fun t =>
      { t with path := some (ch '/' :: s.tail.takeWhile pathByte) }
  else splitQuery s

open Regex

theorem meaning_fragmentRegex (s : Bytes) :
    fragmentRegex.meaning ended s = (splitFragment s).map Tail.captures := by
  rw [fragmentRegex, splitFragment]
  show (opt (.seq (lit [ch '#']) (.group UriGroup.fragment (.many fun _ => true)))).meaning ended s = _
  rw [meaning_opt_behind ended s UriGroup.fragment rfl (by simp [ended])]
  split
  · simp [ended, Tail.captures]
  · rw [ended]
    split <;> rfl

theorem splitFragment_blocked {c : Byte} (hc : (c != ch '#') = true) (s : Bytes) :
    splitFragment (c :: s) = none := by
  simp [splitFragment, bne_iff_ne.mp hc]

theorem meaning_queryRegex (s : Bytes) :
    queryRegex.meaning (fragmentRegex.meaning ended) s = (splitQuery s).map Tail.captures := by
  rw [queryRegex, splitQuery]
  show (opt (.seq (lit [ch '?']) (.group UriGroup.query (.many (· != ch '#'))))).meaning _ s = _
  rw [meaning_opt_behind _ s UriGroup.query (by decide)]
  · simp only [meaning_fragmentRegex, splitFragment]
    split
    · split
      · simp [Tail.captures]
      · split <;> simp [Tail.captures]
    · rfl
  · intro c s hc
    rw [meaning_fragmentRegex, splitFragment_blocked hc]
    rfl

theorem splitQuery_blocked {c : Byte} (hc : pathByte c = true) (s : Bytes) :
    splitQuery (c :: s) = none := by
  obtain ⟨hquery, hfragment⟩ := Bool.and_eq_true_iff.mp hc
  rw [splitQuery, if_neg (by simpa using hquery), splitFragment_blocked hfragment]

/-- A query and a fragment leave the path alone. -/
theorem path_of_splitQuery {s : Bytes} {t : Tail} (h : splitQuery s = some t) : t.path = none := by
  have hfragment : ∀ {s t}, splitFragment s = some t → t.path = none := by
    intro s t h
    simp only [splitFragment] at h
    split at h
    · cases h
      rfl
    · obtain ⟨-, h⟩ := Option.ite_none_right_eq_some.mp h
      cases h
      rfl
  simp only [splitQuery] at h
  split at h
  · obtain ⟨t', ht, rfl⟩ := Option.map_eq_some_iff.mp h
    have hpath : t'.path = none := hfragment ht
    exact hpath
  · exact hfragment h

/-- **The tail**, piece by piece. -/
theorem meaning_tailRegex (s : Bytes) :
    tailRegex.meaning ended s = (splitTail s).map Tail.captures := by
  rw [splitTail]
  show (opt (.group UriGroup.path (.seq (lit [ch '/']) (.many pathByte)))).meaning
    (queryRegex.meaning (fragmentRegex.meaning ended)) s = _
  rw [meaning_opt_piece _ s UriGroup.path (by decide)]
  · simp only [meaning_queryRegex]
    split
    · rcases hq : splitQuery (s.tail.dropWhile pathByte) with _ | t
      · rfl
      · simp [Tail.captures, path_of_splitQuery hq]
    · rfl
  · intro c s hc
    rw [meaning_queryRegex, splitQuery_blocked hc]
    rfl

/-- Behind a query a fragment goes through, behind a path a query. -/
theorem isSome_splitFragment (s : Bytes) :
    (splitFragment (s.dropWhile (· != ch '#'))).isSome = true := by
  rcases hd : s.dropWhile (· != ch '#') with _ | ⟨c, rest⟩
  · rfl
  · have hc : (c != ch '#') = false := by
      have := List.head_dropWhile_not (· != ch '#')
        (show s.dropWhile (· != ch '#') ≠ [] by simp [hd])
      simpa [hd] using this
    have : c = ch '#' := by simpa using hc
    simp [splitFragment, this]

theorem isSome_splitQuery (s : Bytes) : (splitQuery (s.dropWhile pathByte)).isSome = true := by
  rcases hd : s.dropWhile pathByte with _ | ⟨c, rest⟩
  · rfl
  · have hc : pathByte c = false := by
      have := List.head_dropWhile_not pathByte
        (show s.dropWhile pathByte ≠ [] by simp [hd])
      simpa [hd] using this
    by_cases hq : c = ch '?'
    · simp [splitQuery, hq, isSome_splitFragment]
    · have hf : c = ch '#' := by simpa [pathByte, hq] using hc
      have hne : ch '#' ≠ ch '?' := by decide
      simp [splitQuery, splitFragment, hf, hne]

/-- **What the tail accepts**: nothing, or a `/`, `?` or `#` and anything behind. -/
theorem isSome_splitTail (s : Bytes) : (splitTail s).isSome = tailOk authorityEnd s := by
  cases s with
  | nil => rfl
  | cons c rest =>
    simp only [splitTail, splitQuery, splitFragment, tailOk, authorityEnd, List.head?_cons,
      Option.some.injEq, List.tail_cons]
    by_cases hslash : c = ch '/'
    · simp only [hslash, if_true, Option.isSome_map]
      exact isSome_splitQuery rest
    · by_cases hquery : c = ch '?'
      · have hne : ch '?' ≠ ch '/' := by decide
        simp only [hquery, hne, if_false, if_true, Option.isSome_map]
        exact isSome_splitFragment rest
      · rw [if_neg hslash, if_neg hquery]
        split <;> simp_all

/-- The text of a tail. -/
def Tail.text (t : Tail) : Bytes :=
  t.path.getD [] ++ ((t.query.map (ch '?' :: ·)).getD [] ++
    (t.fragment.map (ch '#' :: ·)).getD [])

/-- What a path, a query and a fragment are made of. -/
structure Tail.Valid (t : Tail) : Prop where
  path : ∀ p, t.path = some p → ∃ rest, p = ch '/' :: rest ∧ ∀ c ∈ rest, pathByte c = true
  query : ∀ q, t.query = some q → ∀ c ∈ q, (c != ch '#') = true

theorem splitFragment_spec {s : Bytes} {t : Tail} (h : splitFragment s = some t) :
    s = t.text ∧ t.Valid ∧ t.path = none ∧ t.query = none := by
  rw [splitFragment] at h
  split at h
  · rename_i hhead
    cases h
    exact ⟨List.eq_cons_of_mem_head? hhead, ⟨nofun, nofun⟩, rfl, rfl⟩
  · obtain ⟨rfl, h⟩ := Option.ite_none_right_eq_some.mp h
    cases h
    exact ⟨rfl, ⟨nofun, nofun⟩, rfl, rfl⟩

theorem splitQuery_spec {s : Bytes} {t : Tail} (h : splitQuery s = some t) :
    s = t.text ∧ t.Valid ∧ t.path = none := by
  rw [splitQuery] at h
  split at h
  · rename_i hhead
    obtain ⟨t', ht, rfl⟩ := Option.map_eq_some_iff.mp h
    obtain ⟨htext, hvalid, hpath, hquery⟩ := splitFragment_spec ht
    refine ⟨?_, ⟨hvalid.path, ?_⟩, hpath⟩
    · calc s = ch '?' :: (s.tail.takeWhile (· != ch '#') ++ s.tail.dropWhile (· != ch '#')) := by
            rw [List.takeWhile_append_dropWhile]
            exact List.eq_cons_of_mem_head? hhead
        _ = _ := by
            rw [htext]
            simp [Tail.text, hpath, hquery]
    · intro q hq c hc
      cases hq
      exact List.mem_takeWhile_imp (p := (· != ch '#')) hc
  · obtain ⟨htext, hvalid, hpath, -⟩ := splitFragment_spec h
    exact ⟨htext, hvalid, hpath⟩

/-- **The pieces of a tail** make up its text. -/
theorem splitTail_spec {s : Bytes} {t : Tail} (h : splitTail s = some t) :
    s = t.text ∧ t.Valid := by
  rw [splitTail] at h
  split at h
  · rename_i hhead
    obtain ⟨t', ht, rfl⟩ := Option.map_eq_some_iff.mp h
    obtain ⟨htext, hvalid, hpath⟩ := splitQuery_spec ht
    constructor
    · calc s = ch '/' :: (s.tail.takeWhile pathByte ++ s.tail.dropWhile pathByte) := by
            rw [List.takeWhile_append_dropWhile]
            exact List.eq_cons_of_mem_head? hhead
        _ = _ := by
            rw [htext]
            simp [Tail.text, hpath]
    · refine ⟨fun p hp => ?_, hvalid.query⟩
      cases hp
      exact ⟨_, rfl, fun c hc => List.mem_takeWhile_imp hc⟩
  · obtain ⟨htext, hvalid, -⟩ := splitQuery_spec h
    exact ⟨htext, hvalid⟩

/-- Letters, at least one. -/
def validScheme (s : Bytes) : Bool := !s.isEmpty && s.all schemeByte

theorem meaning_schemeRegex (f : Bytes → Option (Captures UriGroup)) (s : Bytes) :
    schemeRegex.meaning ((lit (ascii "://")).meaning f) s =
      (splitScheme validScheme s).bind fun x => (f x.2).map (· ++ [(.scheme, x.1)]) := by
  have hblocked : ∀ c s, schemeByte c = true →
      ((lit (ascii "://")).meaning f (c :: s)).isSome = false := by
    intro c s hc
    have hne : ch ':' ≠ c := by
      rintro rfl
      revert hc
      decide
    simp [meaning_lit, ascii, List.cons_prefix_cons, hne]
  rw [schemeRegex, meaning_group_plus, longestPlus_of_blocked hblocked]
  rcases hs : splitScheme validScheme s with _ | ⟨scheme, rest⟩
  · split
    · -- a split the matcher finds is a scheme
      rename_i h
      obtain ⟨hne, hrest⟩ := h
      rw [meaning_lit] at hrest
      split at hrest
      · rename_i hp
        obtain ⟨rest, hrest⟩ := hp
        have hsplit : splitScheme validScheme s = some (s.takeWhile schemeByte, rest) := by
          refine splitScheme_eq_some_iff.mpr ⟨?_, ?_, ?_⟩
          · rw [List.append_assoc, hrest, List.takeWhile_append_dropWhile]
          · simp [validScheme, hne]
          · intro hm
            have := List.mem_takeWhile_imp hm
            revert this
            decide
        rw [hs] at hsplit
        cases hsplit
      · cases hrest
    · rfl
  · obtain ⟨rfl, hvalid, -⟩ := splitScheme_eq_some_iff.mp hs
    obtain ⟨hne, hall⟩ : scheme ≠ [] ∧ ∀ c ∈ scheme, schemeByte c = true := by
      simpa [validScheme] using hvalid
    obtain ⟨htake, hdrop⟩ := takeWhile_of_inside hall (b := ascii "://" ++ rest)
      fun c hc => by
        cases hc
        decide
    rw [List.append_assoc, htake, hdrop]
    have hf : (lit (ascii "://")).meaning f (ascii "://" ++ rest) = f rest := by
      rw [meaning_lit, if_pos (List.prefix_append _ _), List.drop_left]
    cases hr : f rest <;> simp [hne, hf, hr]

/-- **The expression in closed form.** -/
theorem regexMatch_eq (input : Bytes) : Regex.regexMatch regex input =
    (splitScheme validScheme input).bind fun x =>
      (splitAuthority (tailOk authorityEnd) x.2).bind fun a =>
        (splitTail a.tail).map fun t => t.captures ++ a.captures ++ [(.scheme, x.1)] := by
  rw [regex, regexMatch_anchored _ (by simp [Regex.Plain, schemeRegex, userRegex, hostRegex,
    portRegex, tailRegex, pathRegex, queryRegex, fragmentRegex, opt, plus, lit, ascii])]
  show schemeRegex.meaning ((lit (ascii "://")).meaning
    (userRegex.meaning (hostRegex.meaning (tailRegex.meaning ended)))) input = _
  have htail : (fun r => (tailRegex.meaning ended r).isSome) = tailOk authorityEnd := by
    funext r
    rw [meaning_tailRegex, Option.isSome_map, isSome_splitTail]
  rw [meaning_schemeRegex]
  refine congrArg _ (funext fun x => ?_)
  rw [meaning_authority, htail]
  rcases splitAuthority (tailOk authorityEnd) x.2 with _ | a
  · rfl
  · simp [meaning_tailRegex, Function.comp_def]

/-- What the constructor makes of the pieces. -/
def build (scheme : Bytes) (a : Authority) (t : Tail) : Except Exn Uri :=
  match portOr (a.port.getD []) (portForScheme scheme) with
  | .error e => .error e
  | .ok port =>
    .ok
      { scheme := scheme, hostname := a.host, port := port, user := a.user, pass := a.password
        path := t.path.getD [], query := t.query.getD [], fragment := t.fragment.getD [] }

/-- **The constructor in closed form.** -/
theorem parse_eq (input : Bytes) : parse input =
    match splitScheme validScheme input with
    | none => .error (.runtimeError (ascii "Failed to parse " ++ input))
    | some (scheme, rest) =>
      match splitAuthority (tailOk authorityEnd) rest with
      | none => .error (.runtimeError (ascii "Failed to parse " ++ input))
      | some a => build scheme a ((splitTail a.tail).getD {}) := by
  rw [parse, regexMatch_eq]
  rcases splitScheme validScheme input with _ | ⟨scheme, rest⟩
  · rfl
  · dsimp only [Option.bind_some]
    rcases ha : splitAuthority (tailOk authorityEnd) rest with _ | a
    · rfl
    · obtain ⟨t, ht⟩ := Option.isSome_iff_exists.mp
        ((isSome_splitTail a.tail).trans (ok_of_splitAuthority ha))
      simp only [Option.bind_some, ht, Option.map_some, Option.getD_some, build, Tail.captures,
        List.append_assoc, Regex.capture_option, Authority.capture_captures, capture_cons]
      simp [Authority.user, Authority.password, Regex.capture]

/-! ## What the constructor yields -/

theorem portForScheme_lt {scheme : Bytes} {p : Nat} (h : portForScheme scheme = .ok p) :
    p < 65536 := by
  unfold portForScheme at h
  repeat' split at h
  all_goals cases h <;> decide

/-- What is known of a URI that was parsed. -/
structure Parsed (u : Uri) : Prop where
  scheme : validScheme u.scheme = true
  host_ne_nil : u.hostname ≠ []
  host : ∀ c ∈ u.hostname, hostByte c = true
  port : u.port < 65536
  path : u.path = [] ∨ ∃ rest, u.path = ch '/' :: rest ∧ ∀ c ∈ rest, pathByte c = true
  query : ∀ c ∈ u.query, (c != ch '#') = true

theorem colon_not_mem {scheme : Bytes} (h : validScheme scheme = true) : ch ':' ∉ scheme := by
  intro hm
  have hall : ∀ c ∈ scheme, schemeByte c = true := by
    rw [validScheme, Bool.and_eq_true, List.all_eq_true] at h
    exact h.2
  exact absurd (hall _ hm) (by decide)

theorem build_eq_ok {scheme : Bytes} {a : Authority} {t : Tail} {u : Uri}
    (h : build scheme a t = .ok u) :
    portOr (a.port.getD []) (portForScheme scheme) = .ok u.port ∧ u.scheme = scheme ∧
      u.hostname = a.host ∧ u.path = t.path.getD [] ∧ u.query = t.query.getD [] := by
  rw [build] at h
  split at h
  · cases h
  · cases h
    exact ⟨‹_›, rfl, rfl, rfl, rfl⟩

/-- The constructor goes through exactly when its pieces do. -/
theorem parse_eq_ok_iff {input : Bytes} {u : Uri} : parse input = .ok u ↔
    ∃ scheme rest a, splitScheme validScheme input = some (scheme, rest) ∧
      splitAuthority (tailOk authorityEnd) rest = some a ∧
      build scheme a ((splitTail a.tail).getD {}) = .ok u := by
  rw [parse_eq]
  constructor
  · intro h
    split at h
    · cases h
    · rename_i scheme rest hscheme
      split at h
      · cases h
      · rename_i a ha
        exact ⟨scheme, rest, a, hscheme, ha, h⟩
  · rintro ⟨scheme, rest, a, hscheme, ha, h⟩
    simp only [hscheme, ha, h]

/-- The tail behind an authority. -/
theorem exists_tail {rest : Bytes} {a : Authority}
    (ha : splitAuthority (tailOk authorityEnd) rest = some a) :
    ∃ t, splitTail a.tail = some t ∧ a.tail = t.text ∧ t.Valid := by
  obtain ⟨t, ht⟩ := Option.isSome_iff_exists.mp
    ((isSome_splitTail a.tail).trans (ok_of_splitAuthority ha))
  obtain ⟨htext, hvalid⟩ := splitTail_spec ht
  exact ⟨t, ht, htext, hvalid⟩

theorem Parsed.of_parse {input : Bytes} {u : Uri} (h : parse input = .ok u) : Parsed u := by
  obtain ⟨scheme, rest, a, hscheme, ha, hbuild⟩ := parse_eq_ok_iff.mp h
  obtain ⟨t, ht, -, hvalid⟩ := exists_tail ha
  rw [ht, Option.getD_some] at hbuild
  obtain ⟨hport, hscheme', hhost, hpath, hquery⟩ := build_eq_ok hbuild
  obtain ⟨-, hvalidScheme, -⟩ := splitScheme_eq_some_iff.mp hscheme
  obtain ⟨hne, hbytes⟩ : a.host ≠ [] ∧ ∀ c ∈ a.host, hostByte c = true := by
    obtain ⟨w, x, -, hx, rfl⟩ | ⟨x, -, hx, rfl⟩ := splitAuthority_eq_some_iff.mp ha
    · obtain ⟨-, hne, hbytes, -, -⟩ := splitHost_spec hx
      exact ⟨hne, hbytes⟩
    · obtain ⟨-, hne, hbytes, -, -⟩ := splitHost_spec hx
      exact ⟨hne, hbytes⟩
  refine ⟨hscheme' ▸ hvalidScheme, hhost ▸ hne, hhost ▸ hbytes,
    portOr_lt hport fun p => portForScheme_lt, ?_, ?_⟩
  · rw [hpath]
    cases hp : t.path with
    | none => exact .inl rfl
    | some p => exact .inr (hvalid.path p hp)
  · rw [hquery]
    cases hq : t.query with
    | none => exact fun c hc => absurd hc List.not_mem_nil
    | some q => exact hvalid.query q hq

end Uri

end AsioProtocols
