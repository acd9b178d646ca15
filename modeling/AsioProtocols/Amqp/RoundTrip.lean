import AsioProtocols.Amqp.ConnectionDetails

/-!
# Printing connection details

`toString` prints what `parse` read, and `parse` is to read it again. It does so
for the details that are `Printable`, and for no others
(**`toString_roundTrips_iff`**). What goes wrong is one of three things. The
default port is looked up under the protocol as it was written, so `AMQP` with a
port is accepted and cannot be printed. The credentials are left out when the
user name is empty, and with them a password. And where they are left out, a
virtual host with a colon and an `@` is read as credentials in their place.
-/

namespace AsioProtocols

namespace ConnectionDetails

/-- `to_string` gives a text that `parse` accepts, with the same details. -/
def RoundTrips (d : ConnectionDetails) : Prop :=
  ∃ s, d.toString = .ok s ∧ parse s = .ok d

/-- The port is printed unless it is the default. -/
def portText (d : ConnectionDetails) : Option Bytes :=
  printedPort (d.defaultPort.toOption == some d.port) d.port

/-- The text of host, port and virtual host. -/
def hostText (d : ConnectionDetails) : Bytes :=
  d.host ++ (AsioProtocols.portText d.portText ++ ch '/' :: d.vhost)

/-- **Details that can be printed**: the protocol is in lower case, and either the
credentials are printed, or there is no password and what is printed does not
look like credentials. -/
structure Printable (d : ConnectionDetails) : Prop where
  protocol : d.protocol = ascii "amqp" ∨ d.protocol = ascii "amqps"
  credentials : d.user ≠ [] ∨ d.pass = [] ∧ ¬ UserFollows tailByte d.hostText

/-! ## What is printed -/

/-- The credentials, as they are printed. -/
def authText (d : ConnectionDetails) : Bytes :=
  if d.user = [] then [] else d.user ++ ch ':' :: (d.pass ++ [ch '@'])

theorem toString_eq_ok {d : ConnectionDetails} {p : Nat} (h : d.defaultPort = .ok p) :
    d.toString = .ok (d.protocol ++ ascii "://" ++ (d.authText ++ d.hostText)) := by
  have hauth : d.haveAuth = true ↔ d.user ≠ [] := by
    rw [haveAuth, decide_eq_true_iff, ← List.length_pos_iff]
  have hcolon : ascii ":" = [ch ':'] := rfl
  have hslash : ascii "/" = [ch '/'] := rfl
  have hat : ascii "@" = [ch '@'] := rfl
  rw [toString, havePort, h, hostText, portText, h, authText]
  by_cases huser : d.user = []
  · rw [if_neg (by rw [hauth]; simp [huser]), if_pos huser]
    by_cases hp : d.port = p
    · simp [hp, printedPort, AsioProtocols.portText, hslash, Except.toOption]
    · have hp' : ¬ p = d.port := fun h => hp h.symm
      simp [hp, hp', printedPort, AsioProtocols.portText, hslash, hcolon, Except.toOption]
  · rw [if_pos (hauth.mpr huser), if_neg huser]
    by_cases hp : d.port = p
    · simp [hp, printedPort, AsioProtocols.portText, hslash, hcolon, hat, Except.toOption]
    · have hp' : ¬ p = d.port := fun h => hp h.symm
      simp [hp, hp', printedPort, AsioProtocols.portText, hslash, hcolon, hat, Except.toOption]

/-- Host, port and virtual host are read again. -/
theorem splitHost_hostText {d : ConnectionDetails} (h : Parsed d) :
    splitHost (tailOk tailByte) d.hostText =
      some { host := d.host, port := d.portText, tail := ch '/' :: d.vhost } := by
  refine splitHost_printed tailByte_starts h.host_ne_nil h.host (portDigits_printedPort _ _) rfl
    (not_longerHost (hostByte_portText ?_))
  intro c hc
  obtain rfl : ch '/' = c := Option.some.inj hc
  rfl

/-- What `parse` makes of a printed authority. -/
theorem build_printed {d : ConnectionDetails} (h : Parsed d) {p : Nat} (hp : d.defaultPort = .ok p)
    {a : Authority} (hhost : a.host = d.host) (hport : a.port = d.portText)
    (htail : a.tail = ch '/' :: d.vhost) (huser : a.user = d.user) (hpass : a.password = d.pass) :
    build d.protocol a ((splitVhost a.tail).getD none) = .ok d := by
  have hread : portOr (a.port.getD []) (portForProto d.protocol) = .ok d.port := by
    rw [hport]
    refine portOr_printedPort h.port fun homitted => ?_
    rw [hp] at homitted
    rw [show portForProto d.protocol = .ok p from hp]
    simpa [Except.toOption] using homitted
  have hvhost : (splitVhost a.tail).getD none = some d.vhost := by
    rw [htail]
    rfl
  rw [build, hread, hvhost, hhost, huser, hpass]
  rfl

/-- The credentials, when they are printed, are read again. -/
theorem splitAuthority_credentials {d : ConnectionDetails} (h : Parsed d) (hne : d.user ≠ []) :
    splitAuthority (tailOk tailByte) (d.authText ++ d.hostText) =
      some { host := d.host, port := d.portText, tail := ch '/' :: d.vhost,
             userInfo := some { user := d.user, password := d.pass, behind := d.hostText } } := by
  refine splitAuthority_eq_some_iff.mpr (.inl ⟨_, _, splitUser_eq_some_iff.mpr ⟨?_, h.user, h.pass⟩,
    splitHost_hostText h, rfl⟩)
  rw [authText, if_neg hne]
  simp

/-- A host stands in front, so credentials read in its place have a user. -/
theorem user_ne_nil {d : ConnectionDetails} (h : Parsed d) {u : UserInfo}
    (hu : splitUser d.hostText = some u) : u.user ≠ [] := by
  obtain ⟨heq, -, -⟩ := splitUser_eq_some_iff.mp hu
  obtain ⟨c, rest, hhost⟩ := List.exists_cons_of_ne_nil h.host_ne_nil
  intro hnil
  rw [hostText, hhost, hnil] at heq
  obtain ⟨rfl, -⟩ := List.cons.inj heq
  have hcolon := h.host (ch ':') (by rw [hhost]; exact List.mem_cons_self)
  exact absurd hcolon (by decide)

theorem splitScheme_printed {proto rest : Bytes} (h : validProtocol proto = true) :
    splitScheme validProtocol (proto ++ ascii "://" ++ rest) = some (proto, rest) :=
  splitScheme_eq_some_iff.mpr ⟨rfl, h, colon_not_mem h⟩

/-- **Round trip**: for what `parse` accepts, printing and parsing again gives the
same details exactly when they are printable. -/
theorem toString_roundTrips_iff {uri : Bytes} {d : ConnectionDetails} (h : parse uri = .ok d) :
    RoundTrips d ↔ Printable d := by
  have hparsed := Parsed.of_parse h
  constructor
  · rintro ⟨s, hs, hback⟩
    -- a text was printed, so the default port is known
    obtain ⟨p, hp⟩ : ∃ p, d.defaultPort = .ok p := by
      rcases hd : d.defaultPort with e | p
      · rw [toString, havePort, hd] at hs
        cases hs
      · exact ⟨p, rfl⟩
    refine ⟨(portForProto_eq_ok hp).1, ?_⟩
    rw [or_iff_not_imp_left, not_not]
    intro hnil
    have hvalid := (portForProto_lower (portForProto_eq_ok hp).1).choose_spec.2
    rw [toString_eq_ok hp, authText, if_pos hnil, List.nil_append, Except.ok.injEq] at hs
    subst hs
    obtain ⟨proto, rest, a, hscheme, ha, hbuild⟩ := parse_eq_ok_iff.mp hback
    rw [splitScheme_printed hvalid] at hscheme
    cases hscheme
    obtain ⟨-, -, -, huser, hpass, -⟩ := build_eq_ok hbuild
    obtain ⟨u, x, hu, hx, rfl⟩ | ⟨x, hno, hx, rfl⟩ := splitAuthority_eq_some_iff.mp ha
    · have hsame : u.user = d.user := huser.symm
      exact absurd (hsame.trans hnil) (user_ne_nil hparsed hu)
    · refine ⟨hpass, ?_⟩
      rintro ⟨u, hu, hfollows⟩
      rw [← splitHost_iff, hno u hu] at hfollows
      cases hfollows
  · rintro ⟨hproto, hcred⟩
    obtain ⟨p, hp, hvalid⟩ := portForProto_lower hproto
    refine ⟨_, toString_eq_ok hp, parse_eq_ok_iff.mpr ?_⟩
    by_cases hnil : d.user = []
    · obtain ⟨hpass, hno⟩ := hcred.resolve_left (not_not_intro hnil)
      have hauthority : splitAuthority (tailOk tailByte) (d.authText ++ d.hostText) =
          some { host := d.host, port := d.portText, tail := ch '/' :: d.vhost,
                 userInfo := none } := by
        rw [authText, if_pos hnil, List.nil_append]
        refine splitAuthority_eq_some_iff.mpr (.inr ⟨_, fun u hu => ?_, splitHost_hostText hparsed, rfl⟩)
        exact not_hostFollows fun hfollows => hno ⟨u, hu, hfollows⟩
      exact ⟨_, _, _, splitScheme_printed hvalid, hauthority,
        build_printed hparsed hp rfl rfl rfl hnil.symm hpass.symm⟩
    · exact ⟨_, _, _, splitScheme_printed hvalid, splitAuthority_credentials hparsed hnil,
        build_printed hparsed hp rfl rfl rfl rfl rfl⟩

/-- What is read back, if anything is printed and accepted, is something else. -/
theorem not_roundTrips_of_toOption {uri : Bytes} {d : ConnectionDetails}
    (hparse : (parse uri).toOption = some d)
    (hback : d.toString.toOption.bind (fun s => (parse s).toOption) ≠ some d) :
    ∃ d, parse uri = .ok d ∧ ¬ RoundTrips d := by
  refine ⟨d, eq_ok_of_toOption hparse, ?_⟩
  rintro ⟨s, hs, hd⟩
  rw [hs] at hback
  exact hback (congrArg Except.toOption hd)

/-- An upper-case protocol throws, a password without a user is lost, and a virtual
host turns into credentials. -/
theorem toString_loses :
    (∃ d, parse (ascii "AMQP://h:5672/vh") = .ok d ∧ ¬ RoundTrips d) ∧
      (∃ d, parse (ascii "amqp://:p@h/vh") = .ok d ∧ ¬ RoundTrips d) ∧
      ∃ d, parse (ascii "amqp://:@h/a:b@c") = .ok d ∧ ¬ RoundTrips d := by
  refine ⟨?_, ?_, ?_⟩
  · exact not_roundTrips_of_toOption
      (d := ⟨ascii "AMQP", ascii "h", 5672, [], [], ascii "vh"⟩) (by decide) (by decide)
  · exact not_roundTrips_of_toOption
      (d := ⟨ascii "amqp", ascii "h", 5672, [], ascii "p", ascii "vh"⟩) (by decide) (by decide)
  · exact not_roundTrips_of_toOption
      (d := ⟨ascii "amqp", ascii "h", 5672, [], [], ascii "a:b@c"⟩) (by decide) (by decide)

/-- Details with credentials, as in the tests of the repository. -/
theorem toString_roundTrips_credentials :
    ∃ d, parse (ascii "amqps://u:p@somehost.example.com/vh") = .ok d ∧ Printable d ∧
      RoundTrips d := by
  refine ⟨_, rfl, ?_, ?_⟩
  · exact ⟨.inr rfl, .inl (by decide)⟩
  · exact (toString_roundTrips_iff
      (show parse (ascii "amqps://u:p@somehost.example.com/vh") = .ok _ from rfl)).mpr
      ⟨.inr rfl, .inl (by decide)⟩

end ConnectionDetails

end AsioProtocols
