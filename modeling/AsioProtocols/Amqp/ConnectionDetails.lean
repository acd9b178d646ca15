import AsioProtocols.Base.Authority

/-!
# `net::amqp::connection_details`

The parameters of an AMQP connection, and `parse` from a URI
(`amqp/connection_details.h`). `parse_eq` puts the regular expression into closed
form; it shares the authority with that of `net::http::uri`, and its tail is a `/`
and a virtual host.
-/

namespace AsioProtocols

structure ConnectionDetails where
  protocol : Bytes := ascii "amqp"
  host : Bytes := ascii "localhost"
  port : Nat := 5672
  user : Bytes := ascii "guest"
  pass : Bytes := ascii "guest"
  vhost : Bytes := ascii "/"
  deriving DecidableEq, Repr

namespace ConnectionDetails

/-- `(?<protocol>amqps?)` under `icase` -/
def protocolRegex : Regex UriGroup :=
  .group .protocol (.seq (.litNoCase (ascii "amqp")) (.opt (.litNoCase (ascii "s"))))

/-- `(?:/(?<vhost>.*))?` -/
def vhostRegex : Regex UriGroup :=
  .opt (.seq (.lit (ascii "/")) (.group .vhost (.many fun _ => true)))

/-- The expression of `parse` (connection_details.h, line 36). -/
def regex : Regex UriGroup :=
  .seq .bol (.seq (.seq protocolRegex (.seq (.lit (ascii "://")) (.seq userRegex
    (.seq hostRegex vhostRegex)))) .eol)

/-- `port_for_proto(proto)` (connection_details.h, lines 57-61) -/
def portForProto (proto : Bytes) : Except Exn Nat :=
  if proto = ascii "amqp" then .ok 5672
  else if proto = ascii "amqps" then .ok 5671
  else .error (.runtimeError (ascii "Unknown AMQP scheme " ++ proto))

/-- `parse(uri)` (connection_details.h, lines 31-55) -/
def parse (uri : Bytes) : Except Exn ConnectionDetails :=
  match Regex.regexMatch regex uri with
  | none => .error (.runtimeError (ascii "Failed to parse " ++ uri))
  | some caps =>
    let proto := Regex.capture caps .protocol
    match portOr (Regex.capture caps .port) (portForProto proto) with
    | .error e => .error e
    | .ok port =>
      .ok
        { protocol := proto
          host := Regex.capture caps .host
          port := port
          user := Regex.capture caps .user
          pass := Regex.capture caps .password
          vhost := Regex.capture caps .vhost }

example : (parse (ascii "amqps://u:p@somehost.example.com/vh")).toOption =
    some { protocol := ascii "amqps", host := ascii "somehost.example.com", port := 5671,
           user := ascii "u", pass := ascii "p", vhost := ascii "vh" } := by decide

/-- `default_port()` (connection_details.h, line 63) -/
def defaultPort (d : ConnectionDetails) : Except Exn Nat := portForProto d.protocol

/-- `have_auth()` (connection_details.h, lines 72-74) -/
def haveAuth (d : ConnectionDetails) : Bool := d.user.length > 0

/-- `have_port()` (connection_details.h, lines 76-78): asks for the default first,
and so throws for a protocol that is not in lower case. -/
def havePort (d : ConnectionDetails) : Except Exn Bool :=
  match d.defaultPort with
  | .error e => .error e
  | .ok p => .ok (d.port != p)

/-- `std::to_string(details)` (amqp.cpp, lines 5-17) -/
def toString (d : ConnectionDetails) : Except Exn Bytes :=
  let s := d.protocol ++ ascii "://"
  let s := if d.haveAuth then s ++ (d.user ++ ascii ":" ++ d.pass ++ ascii "@") else s
  let s := s ++ d.host
  match d.havePort with
  | .error e => .error e
  | .ok havePort =>
    let s := if havePort then s ++ (ascii ":" ++ decimal d.port) else s
    .ok (s ++ (ascii "/" ++ d.vhost))

/-! ## The closed form -/

open Regex

/-- A `/` and the virtual host. -/
def splitVhost (s : Bytes) : Option (Option Bytes) :=
  if s.head? = some (ch '/') then some (some s.tail)
  else if s = [] then some none else none

/-- The character a tail starts with. -/
def tailByte (c : Byte) : Bool := c == ch '/'

theorem tailByte_starts : TailStarts tailByte where
  slash := rfl
  ends := by
    intro c hc
    obtain rfl : c = ch '/' := by simpa [tailByte] using hc
    rfl
  both := rfl

theorem meaning_vhostRegex (s : Bytes) : vhostRegex.meaning ended s =
    (splitVhost s).map fun v => v.toList.map fun x => (.vhost, x) := by
  rw [splitVhost]
  show (opt (.seq (lit [ch '/']) (.group UriGroup.vhost (.many fun _ => true)))).meaning ended s = _
  rw [meaning_opt_behind ended s UriGroup.vhost rfl (by simp [ended])]
  split
  · simp [ended]
  · rw [ended]
    split <;> rfl

/-- **What the tail accepts**: nothing, or a `/` and anything behind. -/
theorem isSome_splitVhost (s : Bytes) : (splitVhost s).isSome = tailOk tailByte s := by
  cases s with
  | nil => rfl
  | cons c rest =>
    by_cases hc : c = ch '/' <;> simp [splitVhost, tailOk, tailByte, hc]

/-- `amqp` or `amqps`, in any case. -/
def validProtocol (s : Bytes) : Bool :=
  s.map toLower == ascii "amqp" || s.map toLower == ascii "amqps"

theorem colon_not_mem {s : Bytes} (h : validProtocol s = true) : ch ':' ∉ s := by
  intro hm
  have hm' := List.mem_map_of_mem (f := toLower) hm
  have h' : s.map toLower = ascii "amqp" ∨ s.map toLower = ascii "amqps" := by
    simpa [validProtocol] using h
  rcases h' with h' | h' <;>
    · rw [h'] at hm'
      revert hm'
      decide

/-- What the matcher does behind a protocol, with `r` left of the input `s`. -/
def behindProtocol (f : Bytes → Option (Captures UriGroup)) (s r : Bytes) :
    Option (Captures UriGroup) :=
  ((lit (ascii "://")).meaning f r).map (· ++ [(UriGroup.protocol, s.take (s.length - r.length))])

section protocol

variable (f : Bytes → Option (Captures UriGroup)) {s r proto rest : Bytes}

theorem behindProtocol_of_not_prefix (h : ¬ ascii "://" <+: r) : behindProtocol f s r = none := by
  simp [behindProtocol, meaning_lit, h]

theorem behindProtocol_append :
    behindProtocol f (proto ++ ascii "://" ++ rest) (ascii "://" ++ rest) =
      (f rest).map (· ++ [(.protocol, proto)]) := by
  simp only [behindProtocol, meaning_lit, if_pos (List.prefix_append _ _), List.drop_left]
  rw [take_of_split _ (List.append_assoc _ _ _)]

/-- The matcher tries `amqps` first, and `amqp` if that leads nowhere. -/
theorem meaning_protocolRegex_run (s : Bytes) :
    protocolRegex.meaning ((lit (ascii "://")).meaning f) s =
      if ascii "amqp" <+: s.map toLower then
        (if ascii "s" <+: (s.drop 4).map toLower then behindProtocol f s ((s.drop 4).drop 1)
          else none).or (behindProtocol f s (s.drop 4))
      else none := by
  rw [protocolRegex, meaning_group, meaning_seq, meaning_litNoCase, meaning_opt, meaning_litNoCase]
  rfl

/-- Without a protocol in front of `://` the matcher gets nowhere. -/
theorem meaning_protocolRegex_none (h : splitScheme validProtocol s = none) :
    protocolRegex.meaning ((lit (ascii "://")).meaning f) s = none := by
  -- a protocol in front of `://` would be a scheme
  have hno : ∀ n, ((s.map toLower).take n = ascii "amqp" ∨ (s.map toLower).take n = ascii "amqps") →
      behindProtocol f s (s.drop n) = none := by
    intro n hn
    refine behindProtocol_of_not_prefix f ?_
    rintro ⟨rest, hrest⟩
    have hvalid : validProtocol (s.take n) = true := by
      simpa [validProtocol, List.map_take] using hn
    have hsplit := splitScheme_eq_some_iff.mpr
      ⟨by rw [List.append_assoc, hrest, List.take_append_drop], hvalid, colon_not_mem hvalid⟩
    rw [h] at hsplit
    cases hsplit
  rw [meaning_protocolRegex_run]
  split
  · rename_i hamqp
    obtain ⟨t, ht⟩ := hamqp
    rw [hno 4 (by rw [← ht]; simp [ascii])]
    split
    · rename_i hsuffix
      obtain ⟨t', ht'⟩ := hsuffix
      have hlower : s.map toLower = ascii "amqp" ++ (ascii "s" ++ t') := by
        rw [ht', List.map_drop, ← ht]
        simp [ascii]
      rw [List.drop_drop, hno 5 (by rw [hlower]; simp [ascii])]
      rfl
    · rfl
  · rfl

/-- Behind `amqp` there is no `s`. -/
theorem meaning_protocolRegex_amqp (h : proto.map toLower = ascii "amqp") :
    protocolRegex.meaning ((lit (ascii "://")).meaning f) (proto ++ ascii "://" ++ rest) =
      (f rest).map (· ++ [(.protocol, proto)]) := by
  have hlen : proto.length = 4 := by
    rw [← List.length_map toLower, h]
    rfl
  have hdrop : (proto ++ ascii "://" ++ rest).drop 4 = ascii "://" ++ rest := by
    rw [List.append_assoc, ← hlen, List.drop_left]
  rw [meaning_protocolRegex_run, List.map_append, List.map_append,
    if_pos (by rw [h, List.append_assoc]; exact List.prefix_append _ _), hdrop,
    behindProtocol_append, if_neg (by simp [ascii, List.cons_prefix_cons]; decide), Option.none_or]

/-- With `amqps`, the shorter `amqp` is not followed by `://`. -/
theorem meaning_protocolRegex_amqps (h : proto.map toLower = ascii "amqps") :
    protocolRegex.meaning ((lit (ascii "://")).meaning f) (proto ++ ascii "://" ++ rest) =
      (f rest).map (· ++ [(.protocol, proto)]) := by
  have hlen : proto.length = 5 := by
    rw [← List.length_map toLower, h]
    rfl
  have hdrop : (proto ++ ascii "://" ++ rest).drop 5 = ascii "://" ++ rest := by
    rw [List.append_assoc, ← hlen, List.drop_left]
  obtain ⟨c, hc⟩ : ∃ c, proto.drop 4 = [c] := List.length_eq_one_iff.mp (by simp [hlen])
  have hlower : toLower c = ch 's' := by
    have := congrArg (List.map toLower) hc
    rw [List.map_drop, h] at this
    exact (List.cons.inj this).1.symm
  have hfour : (proto ++ ascii "://" ++ rest).drop 4 = c :: (ascii "://" ++ rest) := by
    rw [List.append_assoc, List.drop_append_of_le_length (by omega), hc]
    rfl
  have hne : ch ':' ≠ c := by
    rintro rfl
    revert hlower
    decide
  have hshort : behindProtocol f (proto ++ ascii "://" ++ rest) (c :: (ascii "://" ++ rest)) = none :=
    behindProtocol_of_not_prefix f (by simp [ascii, List.cons_prefix_cons, hne])
  rw [meaning_protocolRegex_run, List.map_append, List.map_append,
    if_pos (by rw [h, List.append_assoc]; exact ⟨ascii "s" ++ _, rfl⟩), List.drop_drop, hdrop,
    hfour, hshort, Option.or_none, behindProtocol_append, if_pos (by simp [hlower, ascii])]

end protocol

theorem meaning_protocolRegex (f : Bytes → Option (Captures UriGroup)) (s : Bytes) :
    protocolRegex.meaning ((lit (ascii "://")).meaning f) s =
      (splitScheme validProtocol s).bind fun x => (f x.2).map (· ++ [(.protocol, x.1)]) := by
  rcases hs : splitScheme validProtocol s with _ | ⟨proto, rest⟩
  · exact meaning_protocolRegex_none f hs
  · obtain ⟨rfl, hvalid, -⟩ := splitScheme_eq_some_iff.mp hs
    have hvalid' : proto.map toLower = ascii "amqp" ∨ proto.map toLower = ascii "amqps" := by
      simpa [validProtocol] using hvalid
    rcases hvalid' with h | h
    · exact meaning_protocolRegex_amqp f h
    · exact meaning_protocolRegex_amqps f h

/-- **The expression in closed form.** -/
theorem regexMatch_eq (input : Bytes) : Regex.regexMatch regex input =
    (splitScheme validProtocol input).bind fun x =>
      (splitAuthority (tailOk tailByte) x.2).bind fun a =>
        (splitVhost a.tail).map fun v =>
          (v.toList.map fun x => (.vhost, x)) ++ a.captures ++ [(.protocol, x.1)] := by
  rw [regex, regexMatch_anchored _ (by simp [Regex.Plain, protocolRegex, userRegex, hostRegex,
    portRegex, vhostRegex, opt, plus, lit, litNoCase, ascii])]
  show protocolRegex.meaning ((lit (ascii "://")).meaning
    (userRegex.meaning (hostRegex.meaning (vhostRegex.meaning ended)))) input = _
  have htail : (fun r => (vhostRegex.meaning ended r).isSome) = tailOk tailByte := by
    funext r
    rw [meaning_vhostRegex, Option.isSome_map, isSome_splitVhost]
  rw [meaning_protocolRegex]
  refine congrArg _ (funext fun x => ?_)
  rw [meaning_authority, htail]
  rcases splitAuthority (tailOk tailByte) x.2 with _ | a
  · rfl
  · simp [meaning_vhostRegex, Function.comp_def]

/-- What `parse` makes of the pieces. -/
def build (proto : Bytes) (a : Authority) (vhost : Option Bytes) : Except Exn ConnectionDetails :=
  match portOr (a.port.getD []) (portForProto proto) with
  | .error e => .error e
  | .ok port =>
    .ok
      { protocol := proto, host := a.host, port := port, user := a.user, pass := a.password
        vhost := vhost.getD [] }

/-- **`parse` in closed form.** -/
theorem parse_eq (uri : Bytes) : parse uri =
    match splitScheme validProtocol uri with
    | none => .error (.runtimeError (ascii "Failed to parse " ++ uri))
    | some (proto, rest) =>
      match splitAuthority (tailOk tailByte) rest with
      | none => .error (.runtimeError (ascii "Failed to parse " ++ uri))
      | some a => build proto a ((splitVhost a.tail).getD none) := by
  rw [parse, regexMatch_eq]
  rcases splitScheme validProtocol uri with _ | ⟨proto, rest⟩
  · rfl
  · dsimp only [Option.bind_some]
    rcases ha : splitAuthority (tailOk tailByte) rest with _ | a
    · rfl
    · obtain ⟨v, hv⟩ := Option.isSome_iff_exists.mp
        ((isSome_splitVhost a.tail).trans (ok_of_splitAuthority ha))
      simp only [Option.bind_some, hv, Option.map_some, Option.getD_some, build,
        List.append_assoc, Regex.capture_option, Authority.capture_captures, capture_cons]
      simp [Authority.user, Authority.password, Regex.capture]

/-! ## What `parse` yields -/

theorem portForProto_eq_ok {proto : Bytes} {p : Nat} (h : portForProto proto = .ok p) :
    (proto = ascii "amqp" ∨ proto = ascii "amqps") ∧ p < 65536 := by
  rw [portForProto] at h
  split at h
  · cases h
    exact ⟨.inl ‹_›, by decide⟩
  · split at h
    · cases h
      exact ⟨.inr ‹_›, by decide⟩
    · cases h

theorem portForProto_lower {proto : Bytes} (h : proto = ascii "amqp" ∨ proto = ascii "amqps") :
    ∃ p, portForProto proto = .ok p ∧ validProtocol proto = true := by
  rcases h with rfl | rfl
  · exact ⟨5672, rfl, by decide⟩
  · exact ⟨5671, rfl, by decide⟩

/-- What is known of details that were parsed. -/
structure Parsed (d : ConnectionDetails) : Prop where
  host_ne_nil : d.host ≠ []
  host : ∀ c ∈ d.host, hostByte c = true
  user : ch ':' ∉ d.user
  pass : ch '@' ∉ d.pass
  port : d.port < 65536

theorem build_eq_ok {proto : Bytes} {a : Authority} {vhost : Option Bytes} {d : ConnectionDetails}
    (h : build proto a vhost = .ok d) :
    portOr (a.port.getD []) (portForProto proto) = .ok d.port ∧ d.protocol = proto ∧
      d.host = a.host ∧ d.user = a.user ∧ d.pass = a.password ∧ d.vhost = vhost.getD [] := by
  rw [build] at h
  split at h
  · cases h
  · cases h
    exact ⟨‹_›, rfl, rfl, rfl, rfl, rfl⟩

/-- `parse` goes through exactly when its pieces do. -/
theorem parse_eq_ok_iff {uri : Bytes} {d : ConnectionDetails} : parse uri = .ok d ↔
    ∃ proto rest a, splitScheme validProtocol uri = some (proto, rest) ∧
      splitAuthority (tailOk tailByte) rest = some a ∧
      build proto a ((splitVhost a.tail).getD none) = .ok d := by
  rw [parse_eq]
  constructor
  · intro h
    split at h
    · cases h
    · rename_i proto rest hscheme
      split at h
      · cases h
      · rename_i a ha
        exact ⟨proto, rest, a, hscheme, ha, h⟩
  · rintro ⟨proto, rest, a, hscheme, ha, h⟩
    simp only [hscheme, ha, h]

theorem Parsed.of_parse {uri : Bytes} {d : ConnectionDetails} (h : parse uri = .ok d) : Parsed d := by
  obtain ⟨proto, rest, a, -, ha, hbuild⟩ := parse_eq_ok_iff.mp h
  obtain ⟨hport, -, hhost, huser, hpass, -⟩ := build_eq_ok hbuild
  have hlt := portOr_lt hport fun p hp => (portForProto_eq_ok hp).2
  obtain ⟨u, x, hu, hx, rfl⟩ | ⟨x, -, hx, rfl⟩ := splitAuthority_eq_some_iff.mp ha
  · obtain ⟨-, hne, hbytes, -, -⟩ := splitHost_spec hx
    obtain ⟨-, hcolon, hat⟩ := splitUser_eq_some_iff.mp hu
    exact ⟨hhost ▸ hne, hhost ▸ hbytes, huser ▸ hcolon, hpass ▸ hat, hlt⟩
  · obtain ⟨-, hne, hbytes, -, -⟩ := splitHost_spec hx
    exact ⟨hhost ▸ hne, hhost ▸ hbytes, huser ▸ List.not_mem_nil, hpass ▸ List.not_mem_nil, hlt⟩

end ConnectionDetails

end AsioProtocols
