import AsioProtocols.Http.Details
import AsioProtocols.Http.Request

/-!
# Printing a URI

`string()` leaves out the credentials, the fragment and a default port. What it
prints is read again as the same URI exactly when the text behind `://` has no
other reading that the matcher prefers (`Uri.Printable`,
**`string_roundTrips_iff`**): one with credentials in front, which a path or
query with a colon and an `@` behind it provides, or one with a longer host,
which a query provides that follows the host at once.

Once host, port, path and query survive, so do the endpoint and the request that
are made from the URI.
-/

namespace AsioProtocols

namespace Uri

/-- What a request needs of a URI is the same. -/
structure SameRequest (u u' : Uri) : Prop where
  scheme : u'.scheme = u.scheme
  hostname : u'.hostname = u.hostname
  port : u'.port = u.port
  path : u'.path = u.path
  query : u'.query = u.query
  details : Details.ofUri u' = Details.ofUri u
  request : Request.ofUri u' = Request.ofUri u

/-- `string()` is accepted, and gives scheme, host, port, path and query again. -/
def RoundTrips (u : Uri) : Prop := ∃ u', parse u.string = .ok u' ∧ SameRequest u u'

/-- The port is printed unless it is the default. -/
def portText (u : Uri) : Option Bytes := printedPort u.isDefaultPort u.port

/-- Path and query, as they are printed. -/
def tailText (u : Uri) : Bytes := u.path ++ (if u.query = [] then [] else ch '?' :: u.query)

/-- The printed text behind `://`. -/
def text (u : Uri) : Bytes := u.hostname ++ (AsioProtocols.portText u.portText ++ u.tailText)

/-- **The printed text has one reading**: no credentials in front, no longer host. -/
structure Printable (u : Uri) : Prop where
  user : ¬ UserFollows authorityEnd u.text
  host : ¬ LongerHost authorityEnd u.hostname u.text

theorem SameRequest.of_fields {u u' : Uri} (hscheme : u'.scheme = u.scheme)
    (hhost : u'.hostname = u.hostname) (hport : u'.port = u.port) (hpath : u'.path = u.path)
    (hquery : u'.query = u.query) : SameRequest u u' where
  scheme := hscheme
  hostname := hhost
  port := hport
  path := hpath
  query := hquery
  details := by rw [Details.ofUri, hscheme, hhost, hport, Details.ofUri]
  request := by rw [Request.ofUri, haveQuery, hhost, hpath, hquery, Request.ofUri, haveQuery]

/-! ## What is printed -/

theorem string_eq (u : Uri) : u.string = u.scheme ++ ascii "://" ++ u.text := by
  have hcolon : ascii ":" = [ch ':'] := rfl
  have hmark : ascii "?" = [ch '?'] := rfl
  rw [string, text, tailText, portText, haveQuery]
  by_cases hq : u.query = []
  · cases u.isDefaultPort <;> simp [printedPort, AsioProtocols.portText, hcolon, hq]
  · cases u.isDefaultPort <;> simp [printedPort, AsioProtocols.portText, hcolon, hmark, hq]

/-- A printed tail is read again. -/
theorem splitTail_tailText {u : Uri} (h : Parsed u) :
    ∃ t, splitTail u.tailText = some t ∧ t.path.getD [] = u.path ∧ t.query.getD [] = u.query := by
  have hquery : ∃ t, splitQuery (if u.query = [] then [] else ch '?' :: u.query) = some t ∧
      t.path = none ∧ t.query.getD [] = u.query := by
    by_cases hq : u.query = []
    · rw [if_pos hq, hq]
      exact ⟨_, rfl, rfl, rfl⟩
    · rw [if_neg hq]
      obtain ⟨htake, hdrop⟩ := takeWhile_of_inside h.query (b := []) (by simp)
      rw [List.append_nil] at htake hdrop
      refine ⟨{ query := some u.query }, ?_, rfl, rfl⟩
      simp [splitQuery, htake, hdrop, splitFragment]
  obtain ⟨t, ht, hnone, hq⟩ := hquery
  rw [tailText]
  obtain hpath | ⟨rest, hpath, hbytes⟩ := h.path
  · rw [hpath, List.nil_append]
    refine ⟨t, ?_, by rw [hnone]; rfl, hq⟩
    rw [splitTail, if_neg, ht]
    split
    · intro h
      cases h
    · simp only [List.head?_cons, Option.some.injEq]
      decide
  · obtain ⟨htake, hdrop⟩ := takeWhile_of_inside hbytes
      (b := if u.query = [] then [] else ch '?' :: u.query) fun c hc => by
        split at hc
        · cases hc
        · cases hc
          rfl
    refine ⟨{ t with path := some u.path }, ?_, rfl, hq⟩
    rw [splitTail, hpath, List.cons_append, if_pos (List.head?_cons ..), List.tail_cons, hdrop, ht,
      htake]
    rfl

theorem tailOk_tailText {u : Uri} (h : Parsed u) : tailOk authorityEnd u.tailText = true := by
  obtain ⟨t, ht, -⟩ := splitTail_tailText h
  rw [← isSome_splitTail, ht]
  rfl

theorem portForScheme_of_isDefaultPort {u : Uri} :
    u.isDefaultPort = true ↔ portForScheme u.scheme = .ok u.port := by
  rw [isDefaultPort]
  split
  · rename_i p hp
    rw [hp, beq_iff_eq, Except.ok.injEq]
  · rename_i e he
    rw [he]
    exact ⟨nofun, nofun⟩

theorem splitScheme_printed {scheme rest : Bytes} (h : validScheme scheme = true) :
    splitScheme validScheme (scheme ++ ascii "://" ++ rest) = some (scheme, rest) :=
  splitScheme_eq_some_iff.mpr ⟨rfl, h, colon_not_mem h⟩

/-- A tail is not shorter than the path and query printed from it. -/
theorem length_tailText_le {u : Uri} {t : Tail} (hpath : u.path = t.path.getD [])
    (hquery : u.query = t.query.getD []) : u.tailText.length ≤ t.text.length := by
  rw [tailText, Tail.text, hpath, hquery]
  cases t.query with
  | none => simp
  | some q =>
    simp only [Option.getD_some, Option.map_some, List.length_append, List.length_cons]
    split
    · rw [List.length_nil]
      omega
    · rw [List.length_cons]
      omega

/-- **Credentials read in front change the URI**: what is left behind them is too
short for host, port, path and query. -/
theorem not_user {u : Uri} {w : UserInfo} {x : HostPort} {t : Tail}
    (hw : splitUser u.text = some w) (hx : splitHost (tailOk authorityEnd) w.behind = some x)
    (ht : x.tail = t.text) (hhost : u.hostname = x.host)
    (hport : portOr (x.port.getD []) (portForScheme u.scheme) = .ok u.port)
    (hpath : u.path = t.path.getD []) (hquery : u.query = t.query.getD []) : False := by
  obtain ⟨heq, -, -⟩ := splitUser_eq_some_iff.mp hw
  obtain ⟨hbehind, -, -, hdigits, -⟩ := splitHost_spec hx
  have hprinted : (AsioProtocols.portText u.portText).length ≤
      (AsioProtocols.portText x.port).length := by
    rw [portText, printedPort]
    split
    · exact Nat.zero_le _
    · rename_i hdefault
      rw [portForScheme_of_isDefaultPort] at hdefault
      exact length_decimal_le_of_portOr hdigits hport hdefault
  have htail := length_tailText_le hpath hquery
  have hlen := congrArg List.length heq
  rw [hbehind, text, hhost, ht] at hlen
  simp only [List.length_append, List.length_cons] at hlen
  omega

/-- **Round trip**: for what the constructor accepts, `string()` gives the same URI
again exactly when the printed text has one reading. -/
theorem string_roundTrips_iff {input : Bytes} {u : Uri} (h : parse input = .ok u) :
    RoundTrips u ↔ Printable u := by
  have hparsed := Parsed.of_parse h
  constructor
  · rintro ⟨u', hback, hsame⟩
    rw [string_eq] at hback
    obtain ⟨scheme, rest, a, hscheme, ha, hbuild⟩ := parse_eq_ok_iff.mp hback
    rw [splitScheme_printed hparsed.scheme] at hscheme
    cases hscheme
    obtain ⟨t, ht, htext, -⟩ := exists_tail ha
    rw [ht, Option.getD_some] at hbuild
    obtain ⟨hport, -, hhost, hpath, hquery⟩ := build_eq_ok hbuild
    rw [hsame.port] at hport
    rw [hsame.hostname] at hhost
    rw [hsame.path] at hpath
    rw [hsame.query] at hquery
    obtain ⟨w, x, hw, hx, rfl⟩ | ⟨x, hno, hx, rfl⟩ := splitAuthority_eq_some_iff.mp ha
    · exact (not_user hw hx htext hhost hport hpath hquery).elim
    · constructor
      · rintro ⟨w, hw, hfollows⟩
        rw [← splitHost_iff, hno w hw] at hfollows
        cases hfollows
      · rintro ⟨b, rest, heq, hlt, hbytes, hrest⟩
        obtain ⟨-, -, -, -, hmax⟩ := splitHost_spec hx
        have hle := hmax b rest ⟨heq, hbytes, splitEnd_isSome_iff.mpr hrest⟩
        have hhost' : u.hostname = x.host := hhost
        rw [hhost'] at hlt
        omega
  · rintro ⟨huser, hlonger⟩
    obtain ⟨t, ht, hpath, hquery⟩ := splitTail_tailText hparsed
    have hx : splitHost (tailOk authorityEnd) u.text =
        some { host := u.hostname, port := u.portText, tail := u.tailText } :=
      splitHost_printed authorityEnd_starts hparsed.host_ne_nil hparsed.host
        (portDigits_printedPort _ _) (tailOk_tailText hparsed) hlonger
    have ha : splitAuthority (tailOk authorityEnd) u.text =
        some { host := u.hostname, port := u.portText, tail := u.tailText, userInfo := none } := by
      refine splitAuthority_eq_some_iff.mpr (.inr ⟨_, fun w hw => ?_, hx, rfl⟩)
      exact not_hostFollows fun hfollows => huser ⟨w, hw, hfollows⟩
    have hport : portOr (u.portText.getD []) (portForScheme u.scheme) = .ok u.port :=
      portOr_printedPort hparsed.port portForScheme_of_isDefaultPort.mp
    refine ⟨{ scheme := u.scheme, hostname := u.hostname, port := u.port, path := u.path,
              query := u.query, fragment := t.fragment.getD [] }, ?_,
      .of_fields rfl rfl rfl rfl rfl⟩
    rw [string_eq]
    refine parse_eq_ok_iff.mpr ⟨_, _, _, splitScheme_printed hparsed.scheme, ha, ?_⟩
    simp only [build, ht, Option.getD_some, hport, hpath, hquery]
    rfl

/-- What is read back has another host. -/
theorem not_roundTrips_of_hostname {input : Bytes} {u v : Uri}
    (hparse : (parse input).toOption = some u) (hback : (parse u.string).toOption = some v)
    (hne : v.hostname ≠ u.hostname) : ∃ u, parse input = .ok u ∧ ¬ RoundTrips u := by
  refine ⟨u, eq_ok_of_toOption hparse, ?_⟩
  rintro ⟨v', hv, hsame⟩
  obtain rfl : v = v' := Except.ok.inj ((eq_ok_of_toOption hback).symm.trans hv)
  exact hne hsame.hostname

/-- Without its credentials a path reads as credentials, and without its default
port a query is taken for the host. -/
theorem string_loses :
    (∃ u, parse (ascii "http://u:p@host/a:b@c") = .ok u ∧ ¬ RoundTrips u) ∧
      ∃ u, parse (ascii "http://h:80?q=1") = .ok u ∧ ¬ RoundTrips u := by
  constructor
  · exact not_roundTrips_of_hostname
      (u := ⟨ascii "http", ascii "host", ascii "u", ascii "p", ascii "/a:b@c", [], [], 80⟩)
      (v := ⟨ascii "http", ascii "c", ascii "host/a", ascii "b", [], [], [], 80⟩)
      (by decide) (by decide) (by decide)
  · exact not_roundTrips_of_hostname
      (u := ⟨ascii "http", ascii "h", [], [], [], ascii "q=1", [], 80⟩)
      (v := ⟨ascii "http", ascii "h?q=1", [], [], [], [], [], 80⟩)
      (by decide) (by decide) (by decide)

/-- The URI of the constructor's comment comes back, so it has one reading. -/
theorem string_roundTrips_localhost :
    ∃ u, parse (ascii "http://localhost/some/path?query=string") = .ok u ∧ RoundTrips u ∧
      Printable u := by
  have hback : RoundTrips ⟨ascii "http", ascii "localhost", [], [], ascii "/some/path",
      ascii "query=string", [], 80⟩ := ⟨_, rfl, .of_fields rfl rfl rfl rfl rfl⟩
  exact ⟨_, rfl, hback, (string_roundTrips_iff
    (show parse (ascii "http://localhost/some/path?query=string") = .ok _ from rfl)).mp hback⟩

end Uri

end AsioProtocols
