import AsioProtocols.Amqp.ConnectionDetails
import AsioProtocols.Http.Uri

/-!
# Explicit ports

Both parsers of URIs read the digits of a port with `std::stoi` and convert the
`int` to `uint16_t`. What it should come to is the number the digits denote, or
an exception for a number above 65535 (`ExactPort`).

`stoi` throws from `2^31` on, and below `2^16` the conversion changes nothing.
Between these a port is accepted and reduced modulo `2^16`, in the one parser as
in the other (`ports_exact_iff`).
-/

namespace AsioProtocols

/-- The port of what was parsed is the number that `text` denotes, and a number
above 65535 is refused. -/
structure ExactPort {α : Type} (parsed : Except Exn α) (port : α → Nat) (text : Bytes) : Prop where
  exact : ∀ x, parsed = .ok x → port x = portValue text
  refused : 65535 < portValue text → ∃ e, parsed = .error e

/-- **A parser that goes by `portOr`** is exact but where the number is below
`2^31` and not below `2^16`. -/
theorem exactPort_iff {α : Type} {parsed : Except Exn α} {port : α → Nat} {text : Bytes}
    {default : Except Exn Nat} (hparsed : parsed.map port = portOr text default) (hne : text ≠ [])
    (hdigits : ∀ c ∈ text, portByte c = true) :
    ExactPort parsed port text ↔ portValue text < 65536 ∨ 2147483648 ≤ portValue text := by
  rw [portOr_digits hne hdigits] at hparsed
  constructor
  · intro h
    by_contra hbetween
    obtain ⟨e, he⟩ := h.refused (by omega)
    rw [he, if_pos (by omega)] at hparsed
    cases hparsed
  · intro h
    by_cases hsmall : portValue text < 2147483648
    · rw [if_pos hsmall] at hparsed
      refine ⟨fun x hx => ?_, fun hlarge => by omega⟩
      rw [hx] at hparsed
      have hport : port x = portValue text % 65536 := Except.ok.inj hparsed
      omega
    · rw [if_neg hsmall] at hparsed
      have hrefused : ∃ e, parsed = .error e := by
        cases parsed with
        | error e => exact ⟨e, rfl⟩
        | ok x => cases hparsed
      refine ⟨fun x hx => ?_, fun _ => hrefused⟩
      obtain ⟨e, he⟩ := hrefused
      rw [hx] at he
      cases he

open Regex

namespace Uri

variable {input : Bytes} {caps : Captures UriGroup}

/-- The group of the port holds digits. -/
theorem capture_port (h : regexMatch regex input = some caps) :
    ∀ c ∈ capture caps .port, portByte c = true := by
  rw [regexMatch_eq] at h
  obtain ⟨x, -, h⟩ := Option.bind_eq_some_iff.mp h
  obtain ⟨a, ha, h⟩ := Option.bind_eq_some_iff.mp h
  obtain ⟨t, -, rfl⟩ := Option.map_eq_some_iff.mp h
  have hport : capture (t.captures ++ a.captures ++ [(.scheme, x.1)]) .port = a.port.getD [] := by
    simp only [Tail.captures, List.append_assoc, capture_option, Authority.capture_captures,
      capture_cons]
    simp [capture]
  rw [hport]
  cases hp : a.port with
  | none => exact fun c hc => absurd hc List.not_mem_nil
  | some d => exact (portDigits_of_splitAuthority ha d hp).2

/-- The port of a URI is what becomes of that group. -/
theorem map_port_parse (h : regexMatch regex input = some caps) : (parse input).map Uri.port =
    portOr (capture caps .port) (portForScheme (capture caps .scheme)) := by
  simp only [parse, h]
  cases portOr (capture caps .port) (portForScheme (capture caps .scheme)) <;> rfl

end Uri

namespace ConnectionDetails

variable {uri : Bytes} {caps : Captures UriGroup}

theorem capture_port (h : regexMatch regex uri = some caps) :
    ∀ c ∈ capture caps .port, portByte c = true := by
  rw [regexMatch_eq] at h
  obtain ⟨x, -, h⟩ := Option.bind_eq_some_iff.mp h
  obtain ⟨a, ha, h⟩ := Option.bind_eq_some_iff.mp h
  obtain ⟨v, -, rfl⟩ := Option.map_eq_some_iff.mp h
  have hport : capture ((v.toList.map fun x => (.vhost, x)) ++ a.captures ++ [(.protocol, x.1)])
      .port = a.port.getD [] := by
    simp only [List.append_assoc, capture_option, Authority.capture_captures, capture_cons]
    simp [capture]
  rw [hport]
  cases hp : a.port with
  | none => exact fun c hc => absurd hc List.not_mem_nil
  | some d => exact (portDigits_of_splitAuthority ha d hp).2

theorem map_port_parse (h : regexMatch regex uri = some caps) :
    (parse uri).map ConnectionDetails.port =
      portOr (capture caps .port) (portForProto (capture caps .protocol)) := by
  simp only [parse, h]
  cases portOr (capture caps .port) (portForProto (capture caps .protocol)) <;> rfl

end ConnectionDetails

/-- **Where explicit ports are exact**, in either parser. -/
theorem ports_exact_iff (input : Bytes) (caps : Captures UriGroup)
    (hexplicit : capture caps .port ≠ []) :
    (regexMatch Uri.regex input = some caps →
      (ExactPort (Uri.parse input) Uri.port (capture caps .port) ↔
        portValue (capture caps .port) < 65536 ∨ 2147483648 ≤ portValue (capture caps .port))) ∧
    (regexMatch ConnectionDetails.regex input = some caps →
      (ExactPort (ConnectionDetails.parse input) ConnectionDetails.port (capture caps .port) ↔
        portValue (capture caps .port) < 65536 ∨ 2147483648 ≤ portValue (capture caps .port))) := by
  constructor
  · intro h
    exact exactPort_iff (Uri.map_port_parse h) hexplicit (Uri.capture_port h)
  · intro h
    exact exactPort_iff (ConnectionDetails.map_port_parse h) hexplicit
      (ConnectionDetails.capture_port h)

/-- A port with zeros in front, and the largest port. -/
theorem ports_exact_some :
    ExactPort (Uri.parse (ascii "http://h:00080")) Uri.port (ascii "00080") ∧
      ExactPort (ConnectionDetails.parse (ascii "amqp://h:65535")) ConnectionDetails.port
        (ascii "65535") := by
  constructor
  · exact ((ports_exact_iff (ascii "http://h:00080")
      [(.port, ascii "00080"), (.host, ascii "h"), (.scheme, ascii "http")] (by decide)).1
      (by decide)).mpr (by decide)
  · exact ((ports_exact_iff (ascii "amqp://h:65535")
      [(.port, ascii "65535"), (.host, ascii "h"), (.protocol, ascii "amqp")] (by decide)).2
      (by decide)).mpr (by decide)

/-- Port 65616 is taken for port 80, and 65536 for port 0. -/
theorem ports_reduced :
    ¬ ExactPort (Uri.parse (ascii "http://h:65616")) Uri.port (ascii "65616") ∧
      ¬ ExactPort (ConnectionDetails.parse (ascii "amqp://h:65536")) ConnectionDetails.port
        (ascii "65536") := by
  constructor
  · intro h
    obtain ⟨e, he⟩ := h.refused (by decide)
    have hparsed : (Uri.parse (ascii "http://h:65616")).toOption.isSome = true := by decide
    rw [he] at hparsed
    cases hparsed
  · intro h
    obtain ⟨e, he⟩ := h.refused (by decide)
    have hparsed : (ConnectionDetails.parse (ascii "amqp://h:65536")).toOption.isSome = true := by
      decide
    rw [he] at hparsed
    cases hparsed

end AsioProtocols
