import AsioProtocols.Amqp.ConnectionDetails
import AsioProtocols.Http.Uri

/-!
# The authority decides the host, or does not

The classes `[^:]*`, `[^@]*` and `[^:/]+` of the two expressions for URIs run past
the end of the authority. So `http://a/b:c@d/` contacts `d`, with the user `a/b`, and
`http://a?b` the host `a?b`.

`authority_decides_iff` says for which inputs what `parse` obtains is what it obtains
from the authority alone: those where the authority is `Contained`.
-/

namespace AsioProtocols

/-! ## The property -/

/-- What a connection is made to and with. -/
structure Endpoint where
  user : Bytes
  pass : Bytes
  host : Bytes
  port : Nat
  deriving DecidableEq, Repr

/-- What `uri(in)` obtains; `none` where it throws. -/
def httpEndpoint (input : Bytes) : Option Endpoint :=
  (Uri.parse input).toOption.map fun u =>
    { user := u.user, pass := u.pass, host := u.hostname, port := u.port }

/-- What `connection_details::parse` obtains; `none` where it throws. -/
def amqpEndpoint (input : Bytes) : Option Endpoint :=
  (ConnectionDetails.parse input).toOption.map fun d =>
    { user := d.user, pass := d.pass, host := d.host, port := d.port }

/-- The text behind `://`. -/
def behindScheme (input : Bytes) : Bytes :=
  match find (ascii "://") input with
  | some i => input.drop (i + 3)
  | none => []

/-- The text between `://` and the first `/`, `?` or `#`. -/
def authorityOf (input : Bytes) : Bytes := (behindScheme input).takeWhile (!authorityEnd ·)

/-- Path, query, virtual host and fragment. -/
def tailOf (input : Bytes) : Bytes := (behindScheme input).dropWhile (!authorityEnd ·)

/-- The input up to the end of its authority. -/
def withoutTail (input : Bytes) : Bytes := input.take (input.length - (tailOf input).length)

/-- **The authority decides**: the host is a piece of it and holds no `/`, `?`, `#` or
`@`, and user, password, host and port are those of the input without its tail. -/
def AuthorityDecides (endpoint : Bytes → Option Endpoint) (input : Bytes) : Prop :=
  ∃ e, endpoint input = some e ∧ e.host <:+: authorityOf input ∧
    (∀ c ∈ e.host, c ∉ ascii "/?#@") ∧ endpoint (withoutTail input) = some e

/-- Two inputs that differ in their tails only contact the same host. -/
theorem AuthorityDecides.eq {endpoint : Bytes → Option Endpoint} {input input' : Bytes}
    (h : AuthorityDecides endpoint input) (h' : AuthorityDecides endpoint input')
    (hsame : withoutTail input = withoutTail input') : endpoint input = endpoint input' := by
  obtain ⟨e, he, -, -, halone⟩ := h
  obtain ⟨e', he', -, -, halone'⟩ := h'
  rw [he, he', ← halone, ← halone', hsame]

/-! ## The condition -/

/-- The authority behind its user information. -/
def hostPart (authority : Bytes) : Bytes :=
  ((splitUser authority).map UserInfo.behind).getD authority

/-- A tail that starts with `?` or `#`, behind which the next of `/`, `:`, `?` and `#`
is a colon, but not that of a port: there the matcher gives back what it took of the
tail for the host. -/
def GivenBack (starts : Byte → Bool) (tail : Bytes) : Prop :=
  ∃ c inside rest, tail = c :: (inside ++ ch ':' :: rest) ∧ starts c = true ∧ c ≠ ch '/' ∧
    (∀ b ∈ inside, hostByte b = true ∧ authorityEnd b = false) ∧
    ¬ PortFollows starts (ch ':' :: rest)

/-- **The authority is contained**: no user information is completed behind it, its
host holds no `@`, and nothing behind it is taken for the host. -/
structure Contained (starts : Byte → Bool) (authority tail : Bytes) : Prop where
  user : splitUser authority = none → ∀ u, splitUser (authority ++ tail) = some u →
    ¬ HostFollows starts u.behind
  noAt : ch '@' ∉ (hostPart authority).takeWhile (· != ch ':')
  ends : ch ':' ∈ hostPart authority ∨ tail = [] ∨ tail.head? = some (ch '/') ∨
    GivenBack starts tail

/-! ## Cutting at the end of the authority -/

/-- Text that does not reach the end of an authority. -/
def Inside (s : Bytes) : Prop := ∀ c ∈ s, authorityEnd c = false

/-- What may follow an authority. -/
def Outside (s : Bytes) : Prop := ∀ c, s.head? = some c → authorityEnd c = true

/-- An authority ends in one place. -/
theorem Inside.cut {a b t u : Bytes} (h : a ++ t = b ++ u) (ha : Inside a) (hb : Inside b)
    (ht : Outside t) (hu : Outside u) : a = b ∧ t = u := by
  have hcut : ∀ {a t : Bytes}, Inside a → Outside t →
      (a ++ t).takeWhile (!authorityEnd ·) = a ∧ (a ++ t).dropWhile (!authorityEnd ·) = t :=
    fun ha ht => takeWhile_of_inside (fun c hc => by simp [ha c hc]) fun c hc => by simp [ht c hc]
  obtain ⟨htake, hdrop⟩ := hcut ha ht
  obtain ⟨htake', hdrop'⟩ := hcut hb hu
  rw [h] at htake hdrop
  exact ⟨htake.symm.trans htake', hdrop.symm.trans hdrop'⟩

theorem Inside.append {a b : Bytes} (ha : Inside a) (hb : Inside b) : Inside (a ++ b) := by
  intro c hc
  rcases List.mem_append.mp hc with hc | hc
  · exact ha c hc
  · exact hb c hc

/-! ## Hosts in front of a tail -/

section split

variable {starts : Byte → Bool} {s a t : Bytes} {x : HostPort}

/-- What follows the host goes through. -/
theorem ends_of_splitHost (hx : splitHost (tailOk starts) s = some x) :
    tailOk starts (portText x.port ++ x.tail) = true ∨
      PortFollows starts (portText x.port ++ x.tail) := by
  have hok := ok_of_splitHost hx
  obtain ⟨-, -, -, hport, -⟩ := splitHost_spec hx
  cases hp : x.port with
  | none => exact .inl hok
  | some d => exact .inr ⟨d, x.tail, rfl, (hport d hp).1, (hport d hp).2, hok⟩

theorem inside_portText {port : Option Bytes}
    (h : ∀ d, port = some d → d ≠ [] ∧ ∀ c ∈ d, portByte c = true) : Inside (portText port) := by
  cases port with
  | none =>
    intro c hc
    cases hc
  | some d =>
    intro c hc
    rcases List.mem_cons.mp hc with rfl | hc
    · decide
    · exact (not_end_of_portByte ((h d rfl).2 c hc)).1

/-- **A host that stays inside** the authority leaves the tail to the tail. -/
theorem splitHost_cut (hstarts : TailStarts starts)
    (hx : splitHost (tailOk starts) (a ++ t) = some x) (ha : Inside a) (ht : Outside t)
    (hhost : Inside x.host) : a = x.host ++ portText x.port ∧ t = x.tail := by
  have hok := ok_of_splitHost hx
  obtain ⟨heq, -, -, hport, -⟩ := splitHost_spec hx
  rw [← List.append_assoc] at heq
  refine Inside.cut heq ha (hhost.append (inside_portText hport)) ht fun c hc => ?_
  obtain ⟨rest, hrest⟩ : ∃ rest, x.tail = c :: rest := ⟨x.tail.tail, List.eq_cons_of_mem_head? hc⟩
  rw [hrest] at hok
  exact hstarts.ends c hok

/-- The same host without a tail. -/
theorem splitHost_alone (hstarts : TailStarts starts) (hx : splitHost (tailOk starts) s = some x) :
    splitHost (tailOk starts) (x.host ++ portText x.port) = some { x with tail := [] } := by
  obtain ⟨-, hne, hinside, hport, -⟩ := splitHost_spec hx
  -- nothing but a port is behind the host, so it is not read longer
  have hstop : ∀ c, (portText x.port ++ []).head? = some c → hostByte c = false :=
    hostByte_portText fun c hc => by cases hc
  have halone := splitHost_printed hstarts hne hinside hport (show tailOk starts [] = true from rfl)
    (not_longerHost hstop)
  rwa [List.append_nil] at halone

/-- What lets a host end where its authority ends. -/
def Ends (starts : Byte → Bool) (a t : Bytes) : Prop :=
  ch ':' ∈ a ∨ t = [] ∨ t.head? = some (ch '/') ∨ GivenBack starts t

/-- **Then it stays inside.** -/
theorem inside_host (hstarts : TailStarts starts)
    (hx : splitHost (tailOk starts) (a ++ t) = some x) (ha : Inside a) (hends : Ends starts a t) :
    Inside x.host := by
  obtain ⟨heq, -, hbytes, -, -⟩ := splitHost_spec hx
  rcases List.append_eq_append_iff.mp heq with ⟨m, hhost, ht⟩ | ⟨m, rfl, -⟩
  · -- the host is the authority and `m`, a piece of the tail
    have hm : ∀ c ∈ m, hostByte c = true := fun c hc =>
      hbytes c (hhost ▸ List.mem_append_right a hc)
    cases m with
    | nil =>
      rw [hhost, List.append_nil]
      exact ha
    | cons c m =>
      have hc : hostByte c = true := hm c List.mem_cons_self
      rcases hends with hcolon | rfl | hslash | ⟨d, inside, rest, rfl, -, -, hinside, hport⟩
      · exact absurd (hbytes _ (hhost ▸ List.mem_append_left _ hcolon)) (by decide)
      · cases ht
      · rw [ht] at hslash
        cases hslash
        exact absurd hc (by decide)
      · obtain ⟨rfl, hafter⟩ := List.cons.inj ht
        -- behind the host is `inside`, or what is left of it, and the colon
        obtain ⟨m', hbehind, hsub⟩ : ∃ m', portText x.port ++ x.tail = m' ++ ch ':' :: rest ∧
            ∀ b ∈ m', b ∈ inside := by
          rcases List.append_eq_append_iff.mp hafter with ⟨n, hmn, hn⟩ | ⟨n, rfl, hn⟩
          · cases n with
            | nil => exact ⟨[], hn.symm, by simp⟩
            | cons b n =>
              obtain ⟨rfl, -⟩ := List.cons.inj hn
              have hcolon : ch ':' ∈ m := by
                rw [hmn]
                simp
              exact absurd (hm _ (List.mem_cons_of_mem _ hcolon)) (by decide)
          · exact ⟨n, hn, fun b hb => List.mem_append_right m hb⟩
        have hfollows := ends_of_splitHost hx
        rw [hbehind] at hfollows
        cases m' with
        | nil =>
          rcases hfollows with htail | hfollows
          · exact absurd htail (by simp [tailOk, hstarts.colon])
          · exact absurd hfollows hport
        | cons b m' =>
          obtain ⟨hhostByte, hnotEnd⟩ := hinside b (hsub b List.mem_cons_self)
          rcases hfollows with htail | ⟨port, z, hz, -⟩
          · rw [hstarts.ends b htail] at hnotEnd
            cases hnotEnd
          · obtain ⟨rfl, -⟩ := List.cons.inj hz
            exact absurd hhostByte (by decide)
  · exact fun c hc => ha c (List.mem_append_left m hc)

/-- **And only then.** -/
theorem ends_of_inside (hstarts : TailStarts starts)
    (hx : splitHost (tailOk starts) (a ++ t) = some x) (ha : Inside a) (ht : Outside t)
    (hhost : Inside x.host) : Ends starts a t := by
  obtain ⟨hcut, htail⟩ := splitHost_cut hstarts hx ha ht hhost
  have hok := ok_of_splitHost hx
  obtain ⟨-, -, hbytes, -, hmax⟩ := splitHost_spec hx
  cases hp : x.port with
  | some d =>
    refine .inl ?_
    rw [hcut, hp]
    exact List.mem_append_right _ List.mem_cons_self
  | none =>
    rw [hp, portText, List.append_nil] at hcut
    subst hcut
    rw [← htail] at hok
    cases t with
    | nil => exact .inr (.inl rfl)
    | cons c rest =>
      by_cases hslash : c = ch '/'
      · exact .inr (.inr (.inl (by rw [hslash]; rfl)))
      · have hend := hstarts.ends c hok
        have hmark : c = ch '?' ∨ c = ch '#' := by
          simpa [authorityEnd, hslash] using hend
        have hboth : starts (ch '?') = true ∧ starts (ch '#') = true := by
          have hc : starts c = true := hok
          rcases hmark with rfl | rfl
          · exact ⟨hc, hstarts.both ▸ hc⟩
          · exact ⟨hstarts.both ▸ hc, hc⟩
        let inHost := fun b : Byte => hostByte b && !authorityEnd b
        have hinside : ∀ b ∈ rest.takeWhile inHost, hostByte b = true ∧ authorityEnd b = false := by
          intro b hb
          simpa [inHost] using List.mem_takeWhile_imp hb
        -- a longer host would have gone through if anything but a colon followed it
        have hnone : ¬ (splitEnd (tailOk starts) (rest.dropWhile inHost)).isSome = true := by
          intro hsome
          have hlong : Splits hostByte (fun r => (splitEnd (tailOk starts) r).isSome)
              (x.host ++ c :: rest) (x.host ++ c :: rest.takeWhile inHost)
              (rest.dropWhile inHost) := by
            refine ⟨?_, ?_, hsome⟩
            · rw [List.append_assoc, List.cons_append, List.takeWhile_append_dropWhile]
            · intro b hb
              rcases List.mem_append.mp hb with hb | hb
              · exact hbytes b hb
              · rcases List.mem_cons.mp hb with rfl | hb
                · rcases hmark with rfl | rfl <;> decide
                · exact (hinside b hb).1
          have := hmax _ _ hlong
          simp only [List.length_append, List.length_cons] at this
          omega
        rw [splitEnd_isSome_iff, not_or] at hnone
        obtain ⟨hnoTail, hnoPort⟩ := hnone
        rcases hd : rest.dropWhile inHost with _ | ⟨d, z⟩
        · rw [hd] at hnoTail
          exact absurd rfl hnoTail
        · have hd' : inHost d = false := by
            have := List.head_dropWhile_not inHost
              (show rest.dropWhile inHost ≠ [] by simp [hd])
            simpa [hd] using this
          rw [hd] at hnoTail hnoPort
          have hcolon : d = ch ':' := by
            by_contra hne
            refine hnoTail ?_
            show starts d = true
            by_cases hs : d = ch '/'
            · exact hs ▸ hstarts.slash
            · by_cases hq : d = ch '?'
              · exact hq ▸ hboth.1
              · have hf : d = ch '#' := by
                  simpa [inHost, hostByte, hne, hs, hq, authorityEnd] using hd'
                exact hf ▸ hboth.2
          subst hcolon
          refine .inr (.inr (.inr ⟨c, rest.takeWhile inHost, z, ?_, hok, hslash, hinside, hnoPort⟩))
          rw [← hd, List.takeWhile_append_dropWhile]

end split

/-! ## The whole authority -/

section whole

variable {starts : Byte → Bool} {a b t : Bytes} {x : HostPort} {u : UserInfo} {y : Authority}

/-- The host is the authority up to its colon. -/
theorem takeWhile_of_splitHost {s : Bytes} (hx : splitHost (tailOk starts) s = some x) :
    (x.host ++ portText x.port).takeWhile (· != ch ':') = x.host := by
  obtain ⟨-, -, hbytes, -, -⟩ := splitHost_spec hx
  refine (takeWhile_of_inside (fun c hc => ?_) fun c hc => ?_).1
  · have := hbytes c hc
    rw [hostByte, Bool.and_eq_true] at this
    exact this.1
  · cases hp : x.port with
    | none =>
      rw [hp] at hc
      cases hc
    | some d =>
      rw [hp] at hc
      cases hc
      decide

/-- **What a contained host is**: the same as without the tail. -/
theorem host_of_ends (hstarts : TailStarts starts)
    (hx : splitHost (tailOk starts) (b ++ t) = some x) (hb : Inside b) (ht : Outside t)
    (hends : Ends starts b t) (hat : ch '@' ∉ b.takeWhile (· != ch ':')) :
    Inside x.host ∧ ch '@' ∉ x.host ∧ x.host <+: b ∧
      splitHost (tailOk starts) b = some { x with tail := [] } := by
  have hhost := inside_host hstarts hx hb hends
  obtain ⟨rfl, -⟩ := splitHost_cut hstarts hx hb ht hhost
  rw [takeWhile_of_splitHost hx] at hat
  exact ⟨hhost, hat, List.prefix_append _ _, splitHost_alone hstarts hx⟩

/-- And a host like that is contained. -/
theorem ends_of_host (hstarts : TailStarts starts)
    (hx : splitHost (tailOk starts) (b ++ t) = some x) (hb : Inside b) (ht : Outside t)
    (hhost : Inside x.host) (hat : ch '@' ∉ x.host) :
    Ends starts b t ∧ ch '@' ∉ b.takeWhile (· != ch ':') := by
  refine ⟨ends_of_inside hstarts hx hb ht hhost, ?_⟩
  obtain ⟨rfl, -⟩ := splitHost_cut hstarts hx hb ht hhost
  rwa [takeWhile_of_splitHost hx]

/-- Text with user information in it is no host. -/
theorem no_host_of_user (hstarts : TailStarts starts) (hu : splitUser a = some u) (ha : Inside a)
    (ht : Outside t) : splitHost (tailOk starts) (a ++ t) = none := by
  obtain ⟨hau, -, hat⟩ := splitUser_eq_some_iff.mp hu
  rcases hx : splitHost (tailOk starts) (a ++ t) with _ | x
  · rfl
  · have hcolon : ch ':' ∈ a := by
      rw [hau]
      simp
    have hhost := inside_host hstarts hx ha (.inl hcolon)
    obtain ⟨hcut, -⟩ := splitHost_cut hstarts hx ha ht hhost
    obtain ⟨-, -, hbytes, hport, -⟩ := splitHost_spec hx
    have hnotColon : ch ':' ∉ x.host := fun hm => absurd (hbytes _ hm) (by decide)
    cases hp : x.port with
    | none =>
      rw [hp, portText, List.append_nil] at hcut
      exact absurd (hcut ▸ hcolon) hnotColon
    | some d =>
      -- the first colon is that of the port, so the `@` would be a digit
      rw [hp, portText] at hcut
      have hdigit : ch '@' ∈ d := by
        rw [hau] at hcut
        rcases List.append_eq_append_iff.mp hcut with ⟨m, hm, hrest⟩ | ⟨m, hm, hrest⟩
        · cases m with
          | nil =>
            obtain ⟨-, rfl⟩ := List.cons.inj hrest
            simp
          | cons b m =>
            obtain ⟨rfl, -⟩ := List.cons.inj hrest
            exact absurd (by rw [hm]; simp) hnotColon
        · cases m with
          | nil =>
            obtain ⟨-, rfl⟩ := List.cons.inj hrest
            simp
          | cons b m =>
            obtain ⟨rfl, -⟩ := List.cons.inj hrest
            exact absurd (by rw [hm]; simp) (splitUser_eq_some_iff.mp hu).2.1
      exact absurd rfl (not_end_of_portByte ((hport d hp).2 _ hdigit)).2.2

theorem Inside.behind (ha : Inside a) (hu : splitUser a = some u) : Inside u.behind := by
  obtain ⟨rfl, -, -⟩ := splitUser_eq_some_iff.mp hu
  exact fun c hc => ha c (by simp [hc])

/-- **A contained authority** is split as it is without its tail. -/
theorem Contained.splitAuthority (hstarts : TailStarts starts) (hc : Contained starts a t)
    (hy : splitAuthority (tailOk starts) (a ++ t) = some y) (ha : Inside a) (ht : Outside t) :
    Inside y.host ∧ ch '@' ∉ y.host ∧ y.host <:+: a ∧
      ∃ z, AsioProtocols.splitAuthority (tailOk starts) a = some z ∧ z.host = y.host ∧
        z.port = y.port ∧ z.user = y.user ∧ z.password = y.password := by
  have hnoAt := hc.noAt
  have hends := hc.ends
  rcases hu : splitUser a with _ | u
  · simp only [hostPart, hu, Option.map_none, Option.getD_none] at hnoAt hends
    rcases splitAuthority_eq_some_iff.mp hy with ⟨u, x, hu', hx, -⟩ | ⟨x, -, hx, rfl⟩
    · rw [not_hostFollows (hc.user hu u hu')] at hx
      cases hx
    · obtain ⟨hhost, hat, hpre, halone⟩ := host_of_ends hstarts hx ha ht hends hnoAt
      exact ⟨hhost, hat, hpre.isInfix, _, splitAuthority_eq_some_iff.mpr
        (.inr ⟨_, by simp [hu], halone, rfl⟩), rfl, rfl, rfl, rfl⟩
  · simp only [hostPart, hu, Option.map_some, Option.getD_some] at hnoAt hends
    have hu' := splitUser_append hu t
    rcases splitAuthority_eq_some_iff.mp hy with ⟨u', x, hu'', hx, rfl⟩ | ⟨x, -, hx, -⟩
    · obtain rfl := Option.some.inj (hu'.symm.trans hu'')
      obtain ⟨hhost, hat, hpre, halone⟩ :=
        host_of_ends hstarts hx (ha.behind hu) ht hends hnoAt
      obtain ⟨hsplit, -, -⟩ := splitUser_eq_some_iff.mp hu
      refine ⟨hhost, hat, hpre.isInfix.trans ?_, _, splitAuthority_eq_some_iff.mpr
        (.inl ⟨_, _, hu, halone, rfl⟩), rfl, rfl, rfl, rfl⟩
      refine ⟨u.user ++ ch ':' :: (u.password ++ [ch '@']), [], ?_⟩
      conv_rhs => rw [hsplit]
      simp
    · rw [no_host_of_user hstarts hu ha ht] at hx
      cases hx

/-- **And one that is split so** is contained. -/
theorem contained_of_splitAuthority (hstarts : TailStarts starts)
    (hy : splitAuthority (tailOk starts) (a ++ t) = some y) (ha : Inside a) (ht : Outside t)
    (hhost : Inside y.host) (hat : ch '@' ∉ y.host) {z : Authority}
    (hz : splitAuthority (tailOk starts) a = some z) (huser : z.user = y.user)
    (hpassword : z.password = y.password) : Contained starts a t := by
  rcases hu : splitUser a with _ | u
  · have hzNone : z.userInfo = none := by
      rcases splitAuthority_eq_some_iff.mp hz with ⟨u, x, hu', -, -⟩ | ⟨x, -, -, rfl⟩
      · rw [hu] at hu'
        cases hu'
      · rfl
    rcases splitAuthority_eq_some_iff.mp hy with ⟨u, x, hu', hx, rfl⟩ | ⟨x, hnone, hx, rfl⟩
    · -- user information without a user and a password is in the authority itself
      have huserNil : u.user = [] := by simpa [Authority.user, hzNone, eq_comm] using huser
      have hpasswordNil : u.password = [] := by
        simpa [Authority.password, hzNone, eq_comm] using hpassword
      obtain ⟨hsplit, -, -⟩ := splitUser_eq_some_iff.mp hu'
      rw [huserNil, hpasswordNil] at hsplit
      rcases a with _ | ⟨c, _ | ⟨d, a⟩⟩
      · exact absurd (ht (ch ':') (by rw [show t = _ from hsplit]; rfl)) (by decide)
      · obtain ⟨-, hrest⟩ := List.cons.inj hsplit
        exact absurd (ht (ch '@') (by rw [show t = _ from hrest]; rfl)) (by decide)
      · obtain ⟨rfl, hrest⟩ := List.cons.inj hsplit
        obtain ⟨rfl, -⟩ := List.cons.inj hrest
        have : splitUser (ch ':' :: ch '@' :: a) = some { user := [], password := [], behind := a } :=
          splitUser_eq_some_iff.mpr ⟨rfl, by simp, by simp⟩
        rw [this] at hu
        cases hu
    · obtain ⟨hends, hnoAt⟩ := ends_of_host hstarts hx ha ht hhost hat
      refine ⟨fun _ u hu' hfollows => ?_, by simpa [hostPart, hu] using hnoAt,
        by simpa [hostPart, hu, Ends] using hends⟩
      rw [← splitHost_iff, hnone u hu'] at hfollows
      cases hfollows
  · have hu' := splitUser_append hu t
    rcases splitAuthority_eq_some_iff.mp hy with ⟨u', x, hu'', hx, rfl⟩ | ⟨x, -, hx, -⟩
    · obtain rfl := Option.some.inj (hu'.symm.trans hu'')
      obtain ⟨hends, hnoAt⟩ := ends_of_host hstarts hx (ha.behind hu) ht hhost hat
      exact ⟨by simp [hu], by simpa [hostPart, hu] using hnoAt,
        by simpa [hostPart, hu, Ends] using hends⟩
    · rw [no_host_of_user hstarts hu ha ht] at hx
      cases hx

end whole

/-! ## The two parsers -/

section endpoint

/-- What both parsers do with a URI: the scheme, the authority, and the port. -/
def endpointOf (valid : Bytes → Bool) (starts : Byte → Bool)
    (port : Bytes → Option Bytes → Option Nat) (input : Bytes) : Option Endpoint :=
  (splitScheme valid input).bind fun x =>
    (splitAuthority (tailOk starts) x.2).bind fun y =>
      (port x.1 y.port).map fun p =>
        { user := y.user, pass := y.password, host := y.host, port := p }

theorem httpEndpoint_eq : httpEndpoint = endpointOf Uri.validScheme authorityEnd
    fun scheme port => (portOr (port.getD []) (Uri.portForScheme scheme)).toOption := by
  funext input
  rw [httpEndpoint, Uri.parse_eq, endpointOf]
  rcases splitScheme Uri.validScheme input with _ | ⟨scheme, rest⟩
  · rfl
  · dsimp only [Option.bind_some]
    rcases splitAuthority (tailOk authorityEnd) rest with _ | y
    · rfl
    · dsimp only [Option.bind_some, Uri.build]
      cases portOr (y.port.getD []) (Uri.portForScheme scheme) <;> rfl

theorem amqpEndpoint_eq : amqpEndpoint =
    endpointOf ConnectionDetails.validProtocol ConnectionDetails.tailByte
      fun proto port =>
        (portOr (port.getD []) (ConnectionDetails.portForProto proto)).toOption := by
  funext input
  rw [amqpEndpoint, ConnectionDetails.parse_eq, endpointOf]
  rcases splitScheme ConnectionDetails.validProtocol input with _ | ⟨proto, rest⟩
  · rfl
  · dsimp only [Option.bind_some]
    rcases splitAuthority (tailOk ConnectionDetails.tailByte) rest with _ | y
    · rfl
    · dsimp only [Option.bind_some, ConnectionDetails.build]
      cases portOr (y.port.getD []) (ConnectionDetails.portForProto proto) <;> rfl

variable {valid : Bytes → Bool} {starts : Byte → Bool} {port : Bytes → Option Bytes → Option Nat}
  {input scheme rest : Bytes}

theorem behindScheme_eq (h : splitScheme valid input = some (scheme, rest)) :
    behindScheme input = rest := by
  obtain ⟨rfl, -, hcolon⟩ := splitScheme_eq_some_iff.mp h
  have hfind : find (ascii "://") (scheme ++ ascii "://" ++ rest) = some scheme.length :=
    find_fresh rest hcolon
  rw [behindScheme, hfind]
  dsimp only
  rw [List.append_assoc, ← List.drop_drop, List.drop_left]
  rfl

/-- Without the tail the scheme and the authority are left. -/
theorem splitScheme_withoutTail (h : splitScheme valid input = some (scheme, rest)) :
    splitScheme valid (withoutTail input) = some (scheme, authorityOf input) := by
  have hbehind := behindScheme_eq h
  obtain ⟨rfl, hvalid, hcolon⟩ := splitScheme_eq_some_iff.mp h
  refine splitScheme_eq_some_iff.mpr ⟨?_, hvalid, hcolon⟩
  rw [withoutTail, tailOf, authorityOf, hbehind]
  refine Regex.take_of_split _ ?_
  conv_lhs => rw [← List.takeWhile_append_dropWhile (p := (!authorityEnd ·)) (l := rest)]
  simp

theorem mem_marks {c : Byte} : c ∈ ascii "/?#@" ↔ authorityEnd c = true ∨ c = ch '@' := by
  have hmarks : ascii "/?#@" = [ch '/', ch '?', ch '#', ch '@'] := rfl
  simp [hmarks, authorityEnd, or_assoc]

/-- **What a parser obtains is decided by the authority** just where it is contained. -/
theorem authorityDecides_iff (hstarts : TailStarts starts)
    (haccepted : (endpointOf valid starts port input).isSome = true) :
    AuthorityDecides (endpointOf valid starts port) input ↔
      Contained starts (authorityOf input) (tailOf input) := by
  obtain ⟨e, he⟩ := Option.isSome_iff_exists.mp haccepted
  obtain ⟨⟨scheme, rest⟩, hscheme, hrest⟩ := Option.bind_eq_some_iff.mp he
  obtain ⟨y, hy, hport⟩ := Option.bind_eq_some_iff.mp hrest
  obtain ⟨p, hp, rfl⟩ := Option.map_eq_some_iff.mp hport
  have hinside : Inside (authorityOf input) := fun c hc => by
    simpa using List.mem_takeWhile_imp hc
  have houtside : Outside (tailOf input) := fun c hc => by
    have hne : (behindScheme input).dropWhile (!authorityEnd ·) ≠ [] := by
      intro hnil
      rw [tailOf, hnil] at hc
      cases hc
    have := List.head_dropWhile_not (!authorityEnd ·) hne
    rw [tailOf, List.head?_eq_some_head hne, Option.some.injEq] at hc
    simpa [hc] using this
  have hwhole : authorityOf input ++ tailOf input = rest := by
    rw [authorityOf, tailOf, List.takeWhile_append_dropWhile, behindScheme_eq hscheme]
  rw [← hwhole] at hy
  have halone := splitScheme_withoutTail hscheme
  constructor
  · rintro ⟨e', he', -, hchars, he''⟩
    obtain rfl := Option.some.inj (he.symm.trans he')
    rw [endpointOf, halone, Option.bind_some] at he''
    obtain ⟨z, hz, hport'⟩ := Option.bind_eq_some_iff.mp he''
    obtain ⟨p', -, heq⟩ := Option.map_eq_some_iff.mp hport'
    rw [Endpoint.mk.injEq] at heq
    refine contained_of_splitAuthority hstarts hy hinside houtside (fun c hc => ?_)
      (fun hat => hchars _ hat (mem_marks.mpr (.inr rfl))) hz heq.1 heq.2.1
    rw [Bool.eq_false_iff]
    exact fun hend => hchars c hc (mem_marks.mpr (.inl hend))
  · intro hc
    obtain ⟨hhost, hat, hinfix, z, hz, hzhost, hzport, hzuser, hzpassword⟩ :=
      hc.splitAuthority hstarts hy hinside houtside
    refine ⟨_, he, hinfix, fun c hc hmark => ?_, ?_⟩
    · rcases mem_marks.mp hmark with hend | rfl
      · rw [hhost c hc] at hend
        cases hend
      · exact hat hc
    · rw [endpointOf, halone]
      simp [hz, hzport, hp, hzuser, hzpassword, hzhost]

end endpoint

/-- **Where the authority decides.** For every input that the constructor of `uri` or
`connection_details::parse` accepts, host, port, user and password are those of the
authority if and only if it is contained. -/
theorem authority_decides_iff (input : Bytes) :
    ((httpEndpoint input).isSome = true →
      (AuthorityDecides httpEndpoint input ↔
        Contained authorityEnd (authorityOf input) (tailOf input))) ∧
    ((amqpEndpoint input).isSome = true →
      (AuthorityDecides amqpEndpoint input ↔
        Contained ConnectionDetails.tailByte (authorityOf input) (tailOf input))) := by
  rw [httpEndpoint_eq, amqpEndpoint_eq]
  exact ⟨fun h => authorityDecides_iff authorityEnd_starts h,
    fun h => authorityDecides_iff ConnectionDetails.tailByte_starts h⟩

/-- Colons and an `@` behind a whole authority: it decides, for both parsers. -/
theorem authority_decides_port :
    AuthorityDecides httpEndpoint (ascii "http://u:p@h:81/a:b@c") ∧
      AuthorityDecides amqpEndpoint (ascii "amqp://u:p@h:81/a:b@c") := by
  constructor
  · refine ((authority_decides_iff _).1 (by decide)).mpr ⟨fun h => ?_, by decide, .inl (by decide)⟩
    exact absurd h (by decide)
  · refine ((authority_decides_iff _).2 (by decide)).mpr ⟨fun h => ?_, by decide, .inl (by decide)⟩
    exact absurd h (by decide)

/-- A colon and an `@` in the path: the authority is `a`, the host contacted `d`. -/
theorem authority_decides_not :
    withoutTail (ascii "http://a/b:c@d/") = withoutTail (ascii "http://a/") ∧
      (httpEndpoint (ascii "http://a/")).map Endpoint.host = some (ascii "a") ∧
      (httpEndpoint (ascii "http://a/b:c@d/")).map Endpoint.host = some (ascii "d") ∧
      ¬ AuthorityDecides httpEndpoint (ascii "http://a/b:c@d/") ∧
      ¬ AuthorityDecides amqpEndpoint (ascii "amqp://a/b:c@d/") := by
  have hhttp : (httpEndpoint (ascii "http://a/b:c@d/")).map Endpoint.host = some (ascii "d") := by
    decide
  have hamqp : (amqpEndpoint (ascii "amqp://a/b:c@d/")).map Endpoint.host = some (ascii "d") := by
    decide
  refine ⟨by decide, by decide, hhttp, ?_, ?_⟩
  · rintro ⟨e, he, hinfix, -⟩
    rw [he, Option.map_some, Option.some.injEq] at hhttp
    rw [hhttp] at hinfix
    exact absurd hinfix (by decide)
  · rintro ⟨e, he, hinfix, -⟩
    rw [he, Option.map_some, Option.some.injEq] at hamqp
    rw [hamqp] at hinfix
    exact absurd hinfix (by decide)

end AsioProtocols
