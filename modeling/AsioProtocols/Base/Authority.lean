import AsioProtocols.Base.Regex
import AsioProtocols.Base.Stoi

/-!
# The authority of a URI

The regular expressions of `http/uri.h` and `amqp/connection_details.h` share their
middle, `(?:(?<user>[^:]*):(?<password>[^@]*)@)?(?<host>[^:/]+)(?::(?<port>\d+))?`;
they differ in the scheme in front and in the tail behind.

`splitAuthority ok` is that middle in closed form, where `ok` says which texts the
tail accepts: the user information is tried first, up to the first colon and the
first `@` behind it; a host is the longest text without `:` and `/` behind which a
port and the tail, or the tail, go through. `meaning_authority` says that this is
what the backtracking matcher does.
-/

namespace AsioProtocols

theorem eq_ok_of_toOption {ε α : Type} {x : Except ε α} {a : α} (h : x.toOption = some a) :
    x = .ok a := by
  cases x with
  | error e => cases h
  | ok b => exact congrArg Except.ok (Option.some.inj h)

/-- The named groups of the expressions. -/
inductive UriGroup
  | scheme
  | protocol
  | user
  | password
  | host
  | port
  | path
  | query
  | fragment
  | vhost
  deriving DecidableEq, Repr

/-- `[^:/]` -/
def hostByte (b : Byte) : Bool := b != ch ':' && b != ch '/'

/-- `\d` -/
def portByte (b : Byte) : Bool := (digitVal 10 b).isSome

/-- `(?:(?<user>[^:]*):(?<password>[^@]*)@)?` -/
def userRegex : Regex UriGroup :=
  .opt (.seq (.group .user (.many (· != ch ':'))) (.seq (.lit (ascii ":"))
    (.seq (.group .password (.many (· != ch '@'))) (.lit (ascii "@")))))

/-- `(?::(?<port>\d+))?` -/
def portRegex : Regex UriGroup :=
  .opt (.seq (.lit (ascii ":")) (.group .port (.plus portByte)))

/-- `(?<host>[^:/]+)(?::(?<port>\d+))?` -/
def hostRegex : Regex UriGroup := .seq (.group .host (.plus hostByte)) portRegex

/-- The port: its text if there is one, which `stoi` may refuse, or the default. -/
def portOr (text : Bytes) (default : Except Exn Nat) : Except Exn Nat :=
  if text = [] then default
  else
    match stoi 10 text with
    | .error e => .error (.logicError e)
    | .ok v => .ok (toUint16 v)

/-! ## The closed form -/

/-- User information and what is behind it. -/
structure UserInfo where
  user : Bytes
  password : Bytes
  behind : Bytes
  deriving DecidableEq, Repr

/-- A host with or without a port, and what is behind. -/
structure HostPort where
  host : Bytes
  port : Option Bytes
  tail : Bytes
  deriving DecidableEq, Repr

/-- An authority and the tail. -/
structure Authority extends HostPort where
  userInfo : Option UserInfo
  deriving DecidableEq, Repr

/-- Up to the first colon, and from there to the first `@`. -/
def splitUser (s : Bytes) : Option UserInfo :=
  match s.dropWhile (· != ch ':') with
  | [] => none
  | _ :: rest =>
    match rest.dropWhile (· != ch '@') with
    | [] => none
    | _ :: behind =>
      some { user := s.takeWhile (· != ch ':'), password := rest.takeWhile (· != ch '@'),
             behind := behind }

/-- A colon and digits, then the tail. -/
def splitPort (ok : Bytes → Bool) : Bytes → Option (Bytes × Bytes)
  | [] => none
  | c :: rest => if c = ch ':' then longestPlus portByte ok rest else none

/-- A port, if there is one, and the tail. -/
def splitEnd (ok : Bytes → Bool) (s : Bytes) : Option (Option Bytes × Bytes) :=
  ((splitPort ok s).map fun dz => (some dz.1, dz.2)).or (if ok s then some (none, s) else none)

/-- The longest host behind which the rest goes through. -/
def splitHost (ok : Bytes → Bool) (s : Bytes) : Option HostPort :=
  (longestPlus hostByte (fun r => (splitEnd ok r).isSome) s).bind fun hr =>
    (splitEnd ok hr.2).map fun dz => { host := hr.1, port := dz.1, tail := dz.2 }

/-- With user information if that goes through, otherwise without. -/
def splitAuthority (ok : Bytes → Bool) (s : Bytes) : Option Authority :=
  ((splitUser s).bind fun u =>
    (splitHost ok u.behind).map fun h => { h with userInfo := some u }).or
    ((splitHost ok s).map fun h => { h with userInfo := none })

/-- The characters that end an authority. -/
def authorityEnd (c : Byte) : Bool := c == ch '/' || c == ch '?' || c == ch '#'

/-- A tail that is empty or starts with one of some characters. -/
def tailOk (starts : Byte → Bool) : Bytes → Bool
  | [] => true
  | c :: _ => starts c

/-- The groups of user information, the last one first. -/
def UserInfo.captures (u : UserInfo) : Captures UriGroup :=
  [(.password, u.password), (.user, u.user)]

/-- The group of a port, if there is one. -/
def portCaptures (port : Option Bytes) : Captures UriGroup := port.toList.map fun d => (.port, d)

/-- The groups of a host and its port. -/
def HostPort.captures (h : HostPort) : Captures UriGroup :=
  portCaptures h.port ++ [(.host, h.host)]

/-- The groups of an authority. -/
def Authority.captures (a : Authority) : Captures UriGroup :=
  a.toHostPort.captures ++ a.userInfo.toList.flatMap UserInfo.captures

namespace Authority

/-- The user name, empty when there is none. -/
def user (a : Authority) : Bytes := (a.userInfo.map UserInfo.user).getD []

def password (a : Authority) : Bytes := (a.userInfo.map UserInfo.password).getD []

/-- The groups by name. -/
theorem capture_captures (a : Authority) (caps : Captures UriGroup) (g : UriGroup) :
    Regex.capture (a.captures ++ caps) g =
      match g with
      | .port => a.port.getD (Regex.capture caps .port)
      | .host => a.host
      | .password => (a.userInfo.map UserInfo.password).getD (Regex.capture caps .password)
      | .user => (a.userInfo.map UserInfo.user).getD (Regex.capture caps .user)
      | g => Regex.capture caps g := by
  simp only [captures, HostPort.captures, portCaptures, List.append_assoc, Regex.capture_option,
    List.cons_append, List.nil_append, Regex.capture_cons]
  cases a.userInfo <;> cases g <;> simp [UserInfo.captures, Regex.capture_cons]

end Authority

section accepted

variable {ok : Bytes → Bool} {s : Bytes}

/-- What is left behind is accepted. -/
theorem ok_of_splitPort {dz : Bytes × Bytes} (h : splitPort ok s = some dz) : ok dz.2 = true := by
  cases s with
  | nil => cases h
  | cons c rest =>
    obtain ⟨-, h⟩ := Option.ite_none_right_eq_some.mp h
    exact (longest_spec (longestPlus_eq_some_iff.mp h).1).1.accepted

theorem ok_of_splitEnd {dz : Option Bytes × Bytes} (h : splitEnd ok s = some dz) :
    ok dz.2 = true := by
  rcases Option.or_eq_some_iff.mp h with h | ⟨-, h⟩
  · obtain ⟨dz', hp, rfl⟩ := Option.map_eq_some_iff.mp h
    exact ok_of_splitPort hp
  · obtain ⟨hok, h⟩ := Option.ite_none_right_eq_some.mp h
    cases h
    exact hok

theorem ok_of_splitHost {h : HostPort} (hs : splitHost ok s = some h) : ok h.tail = true := by
  obtain ⟨hr, -, hs⟩ := Option.bind_eq_some_iff.mp hs
  obtain ⟨dz, hend, rfl⟩ := Option.map_eq_some_iff.mp hs
  exact ok_of_splitEnd hend

theorem ok_of_splitAuthority {a : Authority} (h : splitAuthority ok s = some a) :
    ok a.tail = true := by
  rcases Option.or_eq_some_iff.mp h with h | ⟨-, h⟩
  · obtain ⟨u, -, h⟩ := Option.bind_eq_some_iff.mp h
    obtain ⟨x, hx, rfl⟩ := Option.map_eq_some_iff.mp h
    exact ok_of_splitHost hx
  · obtain ⟨x, hx, rfl⟩ := Option.map_eq_some_iff.mp h
    exact ok_of_splitHost hx

end accepted

/-! ## What the pieces are -/

section spec

variable {ok : Bytes → Bool} {s : Bytes}

/-- A port with its colon. -/
def portText : Option Bytes → Bytes
  | none => []
  | some d => ch ':' :: d

theorem splitUser_eq_some_iff {u : UserInfo} : splitUser s = some u ↔
    s = u.user ++ ch ':' :: (u.password ++ ch '@' :: u.behind) ∧
      ch ':' ∉ u.user ∧ ch '@' ∉ u.password := by
  have hsplit : ∀ (b : Byte) (s : Bytes), b ∉ s.takeWhile (· != b) ∧
      (s.dropWhile (· != b) = [] ∨ ∃ rest, s.dropWhile (· != b) = b :: rest ∧
        s = s.takeWhile (· != b) ++ b :: rest) := by
    intro b s
    refine ⟨fun hm => by simpa using List.mem_takeWhile_imp hm, ?_⟩
    rcases hd : s.dropWhile (· != b) with _ | ⟨c, rest⟩
    · exact .inl rfl
    · have hc : c = b := by
        have := List.head_dropWhile_not (· != b) (show s.dropWhile (· != b) ≠ [] by simp [hd])
        simpa [hd] using this
      subst hc
      exact .inr ⟨rest, rfl, by rw [← hd, List.takeWhile_append_dropWhile]⟩
  constructor
  · intro h
    obtain ⟨hnot, hcolon⟩ := hsplit (ch ':') s
    rcases hcolon with hnil | ⟨rest, hd, hs⟩
    · simp [splitUser, hnil] at h
    · obtain ⟨hnot', hat⟩ := hsplit (ch '@') rest
      rcases hat with hnil | ⟨behind, hd', hrest⟩
      · simp [splitUser, hd, hnil] at h
      · simp only [splitUser, hd, hd', Option.some.injEq] at h
        subst h
        exact ⟨by rw [← hrest]; exact hs, hnot, hnot'⟩
  · rintro ⟨rfl, hcolon, hat⟩
    obtain ⟨htake, hdrop⟩ := splitAt_byte (u.password ++ ch '@' :: u.behind) hcolon
    obtain ⟨htake', hdrop'⟩ := splitAt_byte u.behind hat
    simp only [splitUser, htake, hdrop, htake', hdrop']

/-- User information in front is not changed by what comes behind. -/
theorem splitUser_append {u : UserInfo} (h : splitUser s = some u) (t : Bytes) :
    splitUser (s ++ t) = some { u with behind := u.behind ++ t } := by
  obtain ⟨rfl, hcolon, hat⟩ := splitUser_eq_some_iff.mp h
  exact splitUser_eq_some_iff.mpr ⟨by simp, hcolon, hat⟩

theorem splitEnd_spec {dz : Option Bytes × Bytes} (h : splitEnd ok s = some dz) :
    s = portText dz.1 ++ dz.2 ∧ ∀ d, dz.1 = some d → d ≠ [] ∧ ∀ c ∈ d, portByte c = true := by
  rcases Option.or_eq_some_iff.mp h with h | ⟨-, h⟩
  · obtain ⟨⟨d, z⟩, hp, rfl⟩ := Option.map_eq_some_iff.mp h
    cases s with
    | nil => cases hp
    | cons c rest =>
      obtain ⟨rfl, hp⟩ := Option.ite_none_right_eq_some.mp hp
      obtain ⟨hl, hne⟩ := longestPlus_eq_some_iff.mp hp
      have hsplit := (longest_spec hl).1
      refine ⟨by rw [hsplit.eq]; rfl, fun d' hd' => ?_⟩
      cases hd'
      exact ⟨hne, hsplit.inside⟩
  · obtain ⟨-, h⟩ := Option.ite_none_right_eq_some.mp h
    cases h
    exact ⟨rfl, fun d hd => by cases hd⟩

/-- **A host** is the longest text of its class behind which the rest goes through. -/
theorem splitHost_spec {h : HostPort} (hs : splitHost ok s = some h) :
    s = h.host ++ (portText h.port ++ h.tail) ∧ h.host ≠ [] ∧ (∀ c ∈ h.host, hostByte c = true) ∧
      (∀ d, h.port = some d → d ≠ [] ∧ ∀ c ∈ d, portByte c = true) ∧
      ∀ a b, Splits hostByte (fun r => (splitEnd ok r).isSome) s a b →
        a.length ≤ h.host.length := by
  obtain ⟨⟨host, rest⟩, hl, hs⟩ := Option.bind_eq_some_iff.mp hs
  obtain ⟨dz, hend, rfl⟩ := Option.map_eq_some_iff.mp hs
  obtain ⟨hl, hne⟩ := longestPlus_eq_some_iff.mp hl
  obtain ⟨hsplit, hmax⟩ := longest_spec hl
  obtain ⟨hrest, hport⟩ := splitEnd_spec hend
  exact ⟨by rw [← hrest]; exact hsplit.eq, hne, hsplit.inside, hport, hmax⟩

theorem splitHost_isSome_iff : (splitHost ok s).isSome = true ↔
    ∃ a b, Splits hostByte (fun r => (splitEnd ok r).isSome) s a b ∧ a ≠ [] := by
  constructor
  · intro h
    obtain ⟨x, hx⟩ := Option.isSome_iff_exists.mp h
    obtain ⟨⟨host, rest⟩, hl, -⟩ := Option.bind_eq_some_iff.mp hx
    obtain ⟨hl, hne⟩ := longestPlus_eq_some_iff.mp hl
    exact ⟨host, rest, (longest_spec hl).1, hne⟩
  · rintro ⟨a, b, hsplit, hne⟩
    rcases hl : longestPlus hostByte (fun r => (splitEnd ok r).isSome) s with _ | ⟨host, rest⟩
    · exact absurd (longestPlus_eq_none_iff.mp hl a b hsplit) hne
    · obtain ⟨hl', -⟩ := longestPlus_eq_some_iff.mp hl
      simp [splitHost, hl, (longest_spec hl').1.accepted]

/-- **With user information or without.** -/
theorem splitAuthority_eq_some_iff {y : Authority} : splitAuthority ok s = some y ↔
    (∃ u x, splitUser s = some u ∧ splitHost ok u.behind = some x ∧
      y = { x with userInfo := some u }) ∨
    (∃ x, (∀ u, splitUser s = some u → splitHost ok u.behind = none) ∧ splitHost ok s = some x ∧
      y = { x with userInfo := none }) := by
  have hwithout : ((splitHost ok s).map fun h => ({ h with userInfo := none } : Authority)) = some y ↔
      ∃ x, splitHost ok s = some x ∧ y = { x with userInfo := none } := by
    rw [Option.map_eq_some_iff]
    exact exists_congr fun x => and_congr_right fun _ => eq_comm
  rw [splitAuthority]
  rcases hu : splitUser s with _ | u
  · simp [hwithout]
  · rcases hx : splitHost ok u.behind with _ | x
    · simp [hx, hwithout]
    · simp [hx, eq_comm]

end spec

/-! ## What goes through -/

/-- A colon, digits, and a tail. -/
def PortFollows (starts : Byte → Bool) (s : Bytes) : Prop :=
  ∃ port rest, s = ch ':' :: (port ++ rest) ∧ port ≠ [] ∧ (∀ c ∈ port, portByte c = true) ∧
    tailOk starts rest = true

/-- A host, perhaps a port, and a tail. -/
def HostFollows (starts : Byte → Bool) (s : Bytes) : Prop :=
  ∃ host rest, s = host ++ rest ∧ host ≠ [] ∧ (∀ c ∈ host, hostByte c = true) ∧
    (tailOk starts rest = true ∨ PortFollows starts rest)

/-- What the proofs need of the characters a tail may start with. -/
structure TailStarts (starts : Byte → Bool) : Prop where
  slash : starts (ch '/') = true
  ends : ∀ c, starts c = true → authorityEnd c = true
  both : starts (ch '?') = starts (ch '#')

theorem authorityEnd_starts : TailStarts authorityEnd := ⟨rfl, fun _ h => h, rfl⟩

/-- A port is no end. -/
theorem not_end_of_portByte {c : Byte} (h : portByte c = true) :
    authorityEnd c = false ∧ hostByte c = true ∧ c ≠ ch '@' := by
  refine ⟨?_, ?_, ?_⟩
  · rw [Bool.eq_false_iff]
    intro he
    simp only [authorityEnd, Bool.or_eq_true, beq_iff_eq] at he
    rcases he with (rfl | rfl) | rfl <;> exact absurd h (by decide)
  · rw [hostByte, Bool.and_eq_true, bne_iff_ne, bne_iff_ne]
    constructor <;> rintro rfl <;> exact absurd h (by decide)
  · rintro rfl
    exact absurd h (by decide)

section grammar

variable {starts : Byte → Bool} {s : Bytes}

theorem TailStarts.colon (h : TailStarts starts) : starts (ch ':') = false := by
  rw [Bool.eq_false_iff]
  intro hc
  exact absurd (h.ends _ hc) (by decide)

/-- What is behind a host. -/
theorem splitEnd_isSome_iff : (splitEnd (tailOk starts) s).isSome = true ↔
    tailOk starts s = true ∨ PortFollows starts s := by
  constructor
  · intro h
    obtain ⟨⟨port, z⟩, hdz⟩ := Option.isSome_iff_exists.mp h
    have hok := ok_of_splitEnd hdz
    obtain ⟨rfl, hport⟩ := splitEnd_spec hdz
    cases port with
    | none => exact .inl hok
    | some d => exact .inr ⟨d, z, rfl, (hport d rfl).1, (hport d rfl).2, hok⟩
  · rintro (h | ⟨port, rest, rfl, hne, hdigits, hok⟩)
    · simp [splitEnd, h]
    · rcases hl : longestPlus portByte (tailOk starts) (port ++ rest) with _ | dz
      · exact absurd (longestPlus_eq_none_iff.mp hl port rest ⟨rfl, hdigits, hok⟩) hne
      · simp [splitEnd, splitPort, hl]

theorem splitHost_iff : (splitHost (tailOk starts) s).isSome = true ↔ HostFollows starts s := by
  rw [splitHost_isSome_iff]
  constructor
  · rintro ⟨host, rest, hsplit, hne⟩
    exact ⟨host, rest, hsplit.eq, hne, hsplit.inside, splitEnd_isSome_iff.mp hsplit.accepted⟩
  · rintro ⟨host, rest, heq, hne, hinside, hrest⟩
    exact ⟨host, rest, ⟨heq, hinside, splitEnd_isSome_iff.mpr hrest⟩, hne⟩

theorem not_hostFollows (h : ¬ HostFollows starts s) : splitHost (tailOk starts) s = none := by
  rw [← splitHost_iff, Bool.not_eq_true, Option.isSome_eq_false_iff, Option.isNone_iff_eq_none] at h
  exact h

end grammar

/-! ## Reading back -/

/-- User information is completed: a colon, an `@` behind it, and there a host. -/
def UserFollows (starts : Byte → Bool) (s : Bytes) : Prop :=
  ∃ u, splitUser s = some u ∧ HostFollows starts u.behind

/-- The text can be read with a host longer than `host`. -/
def LongerHost (starts : Byte → Bool) (host s : Bytes) : Prop :=
  ∃ a rest, s = a ++ rest ∧ host.length < a.length ∧ (∀ c ∈ a, hostByte c = true) ∧
    (tailOk starts rest = true ∨ PortFollows starts rest)

/-- A port is a text of digits. -/
def PortDigits (port : Option Bytes) : Prop :=
  ∀ d, port = some d → d ≠ [] ∧ ∀ c ∈ d, portByte c = true

section printed

variable {starts : Byte → Bool} {host tail : Bytes} {port : Option Bytes}

/-- A tail starts neither with a colon nor with a digit. -/
theorem TailStarts.head (h : TailStarts starts) (htail : tailOk starts tail = true) {c : Byte}
    (hc : tail.head? = some c) : c ≠ ch ':' ∧ portByte c = false := by
  obtain ⟨rest, rfl⟩ : ∃ rest, tail = c :: rest := ⟨tail.tail, List.eq_cons_of_mem_head? hc⟩
  have hend := h.ends c htail
  constructor
  · rintro rfl
    exact absurd hend (by decide)
  · rw [Bool.eq_false_iff]
    intro hdigit
    rw [(not_end_of_portByte hdigit).1] at hend
    cases hend

theorem splitEnd_printed (hstarts : TailStarts starts) (hport : PortDigits port)
    (htail : tailOk starts tail = true) :
    splitEnd (tailOk starts) (portText port ++ tail) = some (port, tail) := by
  cases port with
  | none =>
    have hno : splitPort (tailOk starts) tail = none := by
      cases tail with
      | nil => rfl
      | cons c rest => exact if_neg (hstarts.head htail rfl).1
    simp [splitEnd, portText, hno, htail]
  | some d =>
    obtain ⟨hne, hdigits⟩ := hport d rfl
    obtain ⟨htake, hdrop⟩ := takeWhile_of_inside hdigits (b := tail)
      fun c hc => (hstarts.head htail hc).2
    have hl : longest portByte (tailOk starts) (d ++ tail) = some (d, tail) := by
      have := longest_of_accepted (p := portByte) (q := tailOk starts) (s := d ++ tail)
        (by rw [hdrop]; exact htail)
      rwa [htake, hdrop] at this
    simp [splitEnd, splitPort, portText, longestPlus_eq_some_iff.mpr ⟨hl, hne⟩]

/-- **A printed host** is read again, unless a longer one is read in its place. -/
theorem splitHost_printed (hstarts : TailStarts starts) (hne : host ≠ [])
    (hhost : ∀ c ∈ host, hostByte c = true) (hport : PortDigits port)
    (htail : tailOk starts tail = true)
    (hlonger : ¬ LongerHost starts host (host ++ (portText port ++ tail))) :
    splitHost (tailOk starts) (host ++ (portText port ++ tail)) =
      some { host := host, port := port, tail := tail } := by
  have hend := splitEnd_printed hstarts hport htail
  have hsplit : Splits hostByte (fun r => (splitEnd (tailOk starts) r).isSome)
      (host ++ (portText port ++ tail)) host (portText port ++ tail) :=
    ⟨rfl, hhost, by rw [hend]; rfl⟩
  obtain ⟨⟨a, rest⟩, hl⟩ : ∃ x, longestPlus hostByte
      (fun r => (splitEnd (tailOk starts) r).isSome) (host ++ (portText port ++ tail)) = some x := by
    rw [← Option.isSome_iff_exists, ← Option.ne_none_iff_isSome]
    exact fun hnone => hne (longestPlus_eq_none_iff.mp hnone _ _ hsplit)
  obtain ⟨hlongest, -⟩ := longestPlus_eq_some_iff.mp hl
  obtain ⟨hbest, hmax⟩ := longest_spec hlongest
  have hlen : a.length = host.length := by
    refine Nat.le_antisymm ?_ (hmax _ _ hsplit)
    by_contra hlt
    exact hlonger ⟨a, rest, hbest.eq, by omega, hbest.inside, splitEnd_isSome_iff.mp hbest.accepted⟩
  obtain ⟨rfl, rfl⟩ := List.append_inj hbest.eq hlen.symm
  simp [splitHost, hl, hend]

/-- A host in front of a colon, a `/` or the end is not read longer. -/
theorem not_longerHost {rest : Bytes} (hstop : ∀ c, rest.head? = some c → hostByte c = false) :
    ¬ LongerHost starts host (host ++ rest) := by
  rintro ⟨a, rest', heq, hlt, hinside, -⟩
  obtain ⟨m, rfl, hm⟩ | ⟨m, rfl, -⟩ := List.append_eq_append_iff.mp heq
  · cases m with
    | nil => simp at hlt
    | cons c m =>
      have hc : hostByte c = false := hstop c (by rw [hm]; rfl)
      rw [hinside c (by simp)] at hc
      cases hc
  · rw [List.length_append] at hlt
    omega

theorem hostByte_portText {rest : Bytes} (hrest : ∀ c, rest.head? = some c → hostByte c = false) :
    ∀ c, (portText port ++ rest).head? = some c → hostByte c = false := by
  intro c hc
  cases port with
  | none => exact hrest c hc
  | some d =>
    obtain rfl : ch ':' = c := Option.some.inj hc
    rfl

end printed

/-- The printed port, `none` where it is left out. -/
def printedPort (omitted : Bool) (port : Nat) : Option Bytes :=
  if omitted then none else some (decimal port)

theorem portDigits_printedPort (omitted : Bool) (port : Nat) :
    PortDigits (printedPort omitted port) := by
  intro d hd
  obtain ⟨-, hd⟩ := Option.ite_none_left_eq_some.mp hd
  cases hd
  exact ⟨decimal_ne_nil port, (decimal_digits port).1⟩

/-- What was split off as a port is one. -/
theorem portDigits_of_splitAuthority {ok : Bytes → Bool} {s : Bytes} {a : Authority}
    (h : splitAuthority ok s = some a) : PortDigits a.port := by
  obtain ⟨u, x, -, hx, rfl⟩ | ⟨x, -, hx, rfl⟩ := splitAuthority_eq_some_iff.mp h
  · exact (splitHost_spec hx).2.2.2.1
  · exact (splitHost_spec hx).2.2.2.1

/-- The number that a text of digits denotes. -/
def portValue (text : Bytes) : Nat := ofDigits 10 (text.filterMap (digitVal 10))

/-- **What becomes of a port text**: `stoi` refuses it from `2^31` on, and below
that it is reduced to 16 bits. -/
theorem portOr_digits {text : Bytes} (hne : text ≠ []) (hdigits : ∀ c ∈ text, portByte c = true)
    (default : Except Exn Nat) : portOr text default =
      if portValue text < 2147483648 then .ok (portValue text % 65536)
      else .error (.logicError .outOfRange) := by
  rw [portOr, if_neg hne, stoi_allDigits (by decide) hne hdigits]
  by_cases hsmall : portValue text < 2147483648
  · have hmod : toUint16 (portValue text : Nat) = portValue text % 65536 := by
      unfold toUint16
      omega
    rw [portValue] at hsmall hmod ⊢
    simp only [if_pos hsmall, hmod]
  · rw [portValue] at hsmall ⊢
    simp only [if_neg hsmall]

/-- A printed port is read back. -/
theorem portOr_printedPort {omitted : Bool} {port : Nat} {default : Except Exn Nat}
    (hport : port < 65536) (hdefault : omitted = true → default = .ok port) :
    portOr ((printedPort omitted port).getD []) default = .ok port := by
  cases omitted with
  | true => exact hdefault rfl
  | false =>
    show portOr (decimal port) default = .ok port
    rw [portOr, if_neg (decimal_ne_nil port), stoi_decimal (by omega)]
    show Except.ok (toUint16 port) = .ok port
    rw [toUint16]
    congr 1
    omega

/-- No port is written shorter than it is printed. -/
theorem length_decimal_le_of_portOr {port : Option Bytes} (hport : PortDigits port) {p : Nat}
    {default : Except Exn Nat} (h : portOr (port.getD []) default = .ok p)
    (hne : default ≠ .ok p) : (decimal p).length + 1 ≤ (portText port).length := by
  cases port with
  | none => exact absurd h hne
  | some d =>
    obtain ⟨hd, hdigits⟩ := hport d rfl
    have hlt := value_lt_pow (show 0 < 10 by decide) d
    have hlen : 0 < d.length := List.length_pos_iff.mpr hd
    rw [Option.getD_some, portOr_digits hd hdigits] at h
    by_cases hsmall : portValue d < 2147483648
    · rw [if_pos hsmall] at h
      obtain rfl := Except.ok.inj h
      have hle := (Nat.mod_le (portValue d) 65536).trans_lt hlt
      have hshort := length_decimal_le hle hlen
      rw [portText, List.length_cons]
      omega
    · rw [if_neg hsmall] at h
      cases h

/-- Every port is a 16-bit number. -/
theorem portOr_lt {text : Bytes} {default : Except Exn Nat} {port : Nat}
    (h : portOr text default = .ok port) (hdefault : ∀ p, default = .ok p → p < 65536) :
    port < 65536 := by
  rw [portOr] at h
  split at h
  · exact hdefault port h
  · split at h
    · cases h
    · cases h
      rw [toUint16]
      omega

/-! ## The matcher computes it -/

section meaning

open Regex

variable (f : Bytes → Option (Captures UriGroup)) (s : Bytes)

theorem meaning_userRegex : userRegex.meaning f s =
    ((splitUser s).bind fun u => (f u.behind).map (· ++ u.captures)).or (f s) := by
  rw [userRegex, meaning_opt]
  congr 1
  show (Regex.group .user (.many (· != ch ':'))).meaning ((lit [ch ':']).meaning
    ((Regex.group .password (.many (· != ch '@'))).meaning ((lit [ch '@']).meaning f))) s = _
  rw [meaning_upTo]
  rcases hcolon : s.dropWhile (· != ch ':') with _ | ⟨c, rest⟩
  · simp [splitUser, hcolon]
  · dsimp only
    rw [meaning_upTo]
    rcases hat : rest.dropWhile (· != ch '@') with _ | ⟨d, behind⟩
    · simp [splitUser, hcolon, hat]
    · simp [splitUser, hcolon, hat, UserInfo.captures, Function.comp_def]

theorem meaning_portRegex : portRegex.meaning f s =
    (splitEnd (fun r => (f r).isSome) s).bind fun dz =>
      (f dz.2).map (· ++ portCaptures dz.1) := by
  rw [portRegex, meaning_opt]
  show ((lit [ch ':']).meaning ((Regex.group .port (.plus portByte)).meaning f) s).or (f s) = _
  have hport : (lit [ch ':']).meaning ((Regex.group .port (.plus portByte)).meaning f) s =
      (splitPort (fun r => (f r).isSome) s).bind fun dz => (f dz.2).map (· ++ [(.port, dz.1)]) := by
    cases s with
    | nil => simp [meaning_byte, splitPort]
    | cons c rest =>
      by_cases hc : c = ch ':' <;> simp [meaning_byte, splitPort, hc, meaning_group_plus]
  rw [hport, splitEnd]
  rcases hp : splitPort (fun r => (f r).isSome) s with _ | ⟨d, z⟩
  · cases hf : f s <;> simp [hf, portCaptures]
  · obtain ⟨x, hx⟩ := Option.isSome_iff_exists.mp (ok_of_splitPort hp)
    simp [hx, portCaptures]

theorem meaning_hostRegex : hostRegex.meaning f s =
    (splitHost (fun r => (f r).isSome) s).bind fun h => (f h.tail).map (· ++ h.captures) := by
  have hend : ∀ r, (portRegex.meaning f r).isSome = (splitEnd (fun r => (f r).isSome) r).isSome := by
    intro r
    rw [meaning_portRegex]
    rcases he : splitEnd (fun r => (f r).isSome) r with _ | dz
    · rfl
    · obtain ⟨x, hx⟩ := Option.isSome_iff_exists.mp (ok_of_splitEnd he)
      simp [hx]
  show (Regex.group .host (plus hostByte)).meaning (portRegex.meaning f) s = _
  rw [meaning_group_plus, splitHost, funext hend]
  rcases hl : longestPlus hostByte (fun r => (splitEnd (fun r => (f r).isSome) r).isSome) s with
    _ | ⟨a, b⟩
  · rfl
  · simp only [Option.bind_some, meaning_portRegex]
    rcases he : splitEnd (fun r => (f r).isSome) b with _ | dz
    · rfl
    · simp [HostPort.captures, Function.comp_def]

/-- **The middle of a URI**, with the rest of the match behind it. -/
theorem meaning_authority : userRegex.meaning (hostRegex.meaning f) s =
    (splitAuthority (fun r => (f r).isSome) s).bind fun a => (f a.tail).map (· ++ a.captures) := by
  have hhost : ∀ {s h}, splitHost (fun r => (f r).isSome) s = some h → ∃ x, f h.tail = some x :=
    fun hs => Option.isSome_iff_exists.mp (ok_of_splitHost hs)
  have hwithout : hostRegex.meaning f s =
      ((splitHost (fun r => (f r).isSome) s).map fun h => ({ h with userInfo := none } :
        Authority)).bind fun a => (f a.tail).map (· ++ a.captures) := by
    rw [meaning_hostRegex, Option.bind_map]
    simp [Function.comp_def, Authority.captures]
  rw [meaning_userRegex, splitAuthority, hwithout]
  rcases hu : splitUser s with _ | u
  · simp
  · rcases hh : splitHost (fun r => (f r).isSome) u.behind with _ | h
    · simp [meaning_hostRegex, hh]
    · obtain ⟨x, hx⟩ := hhost hh
      simp [meaning_hostRegex, hh, hx, Authority.captures]

end meaning

/-! ## The scheme in front -/

/-- A valid scheme, `://`, and what is behind it. -/
def splitScheme (valid : Bytes → Bool) (s : Bytes) : Option (Bytes × Bytes) :=
  if valid (s.takeWhile (· != ch ':')) ∧ ascii "://" <+: s.dropWhile (· != ch ':') then
    some (s.takeWhile (· != ch ':'), (s.dropWhile (· != ch ':')).drop 3)
  else none

theorem splitScheme_eq_some_iff {valid : Bytes → Bool} {s scheme rest : Bytes} :
    splitScheme valid s = some (scheme, rest) ↔
      s = scheme ++ ascii "://" ++ rest ∧ valid scheme = true ∧ ch ':' ∉ scheme := by
  constructor
  · intro h
    obtain ⟨⟨hvalid, t, ht⟩, h⟩ := Option.ite_none_right_eq_some.mp h
    cases h
    refine ⟨?_, hvalid, fun hm => ?_⟩
    · conv_lhs => rw [← List.takeWhile_append_dropWhile (p := (· != ch ':')) (l := s), ← ht]
      rw [← ht, List.append_assoc]
      rfl
    · have := List.mem_takeWhile_imp hm
      simp at this
  · rintro ⟨rfl, hvalid, hcolon⟩
    have hsplit : ascii "://" = ch ':' :: ascii "//" := rfl
    have hinside : ∀ c ∈ scheme, (c != ch ':') = true := by
      intro c hc
      rw [bne_iff_ne]
      rintro rfl
      exact hcolon hc
    have htake : (scheme ++ ascii "://" ++ rest).takeWhile (· != ch ':') = scheme := by
      rw [List.append_assoc, List.takeWhile_append_of_pos hinside]
      simp [hsplit]
    have hdrop : (scheme ++ ascii "://" ++ rest).dropWhile (· != ch ':') = ascii "://" ++ rest := by
      rw [List.append_assoc, List.dropWhile_append_of_pos hinside]
      simp [hsplit]
    rw [splitScheme, htake, hdrop, if_pos ⟨hvalid, List.prefix_append _ _⟩]
    simp [ascii]

end AsioProtocols
