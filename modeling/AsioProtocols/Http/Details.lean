import AsioProtocols.Http.Uri

/-!
# `net::http::details`

What tells one endpoint from another (`http/details.h`): host, port and whether
the connection is to be encrypted. Hash and equality go by the printed form, and
`Details.string_inj` is what makes that an equality of the three.
-/

namespace AsioProtocols

structure Details where
  host : Bytes
  port : Nat
  tls : Bool
  deriving DecidableEq, Repr

namespace Details

/-- `details(u)` (details.h, lines 20-27) -/
def ofUri (u : Uri) : Details where
  host := u.hostname
  port := u.port
  tls := u.scheme == ascii "https"

/-- `string()` (details.h, line 53) -/
def string (d : Details) : Bytes :=
  (if d.tls then ascii "https://" else ascii "http://") ++ d.host ++ ascii ":" ++ decimal d.port

/-- `equal` (details.h, lines 41-46) -/
def equal (d d' : Details) : Bool := d.string == d'.string

theorem decimal_inj {m n : Nat} (h : decimal m = decimal n) : m = n := by
  rw [← (decimal_digits m).2, h, (decimal_digits n).2]

/-- **The printed form tells endpoints apart** whose hosts have no colon. -/
theorem string_inj {d d' : Details} (hd : ch ':' ∉ d.host) (hd' : ch ':' ∉ d'.host)
    (h : d.string = d'.string) : d = d' := by
  obtain ⟨host, port, tls⟩ := d
  obtain ⟨host', port', tls'⟩ := d'
  simp only [string, List.append_assoc] at h
  have hsame : ∀ scheme : Bytes, scheme ++ (host ++ (ascii ":" ++ decimal port)) =
      scheme ++ (host' ++ (ascii ":" ++ decimal port')) → host = host' ∧ port = port' := by
    intro scheme heq
    have hrest : host ++ ch ':' :: decimal port = host' ++ ch ':' :: decimal port' :=
      List.append_cancel_left heq
    obtain ⟨hhost, hport⟩ := append_cons_inj hd hd' hrest
    exact ⟨hhost, decimal_inj hport⟩
  cases tls <;> cases tls'
  · obtain ⟨rfl, rfl⟩ := hsame _ h
    rfl
  · -- the fifth character is `:` in one and `s` in the other
    have hfive := congrArg (fun s => s[4]?) h
    exact absurd hfive (by simp [ascii, ch])
  · have hfive := congrArg (fun s => s[4]?) h
    exact absurd hfive (by simp [ascii, ch])
  · obtain ⟨rfl, rfl⟩ := hsame _ h
    rfl

end Details

end AsioProtocols
