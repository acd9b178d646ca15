import AsioProtocols.Http.HeaderNames
import AsioProtocols.Http.RequestRoundTrip

/-!
# The length that is announced

`body(s)` sets the `Content-Length` header, but `append_body(s)` changes the body
only. So the header is right behind `body(s)` and stays right until something is
appended (`tracksThroughout_iff`); and as `set_header` changes the first header of its name
only, a message must not start with two of them, nor with one whose name is not
normalised, which `set_header` does not see.

The headers counted here are those of that name ignoring letter case
(`lengthHeaders`), whatever the lookups of the code make of them.
-/

namespace AsioProtocols

open Header

/-- The name of the header. -/
def lengthName : Bytes := ascii "Content-Length"

/-- A header of that name, ignoring letter case. -/
def Header.isLength (h : Header) : Bool := decide (SameName h.key lengthName)

namespace Message

/-- The `Content-Length` headers. -/
def lengthHeaders (m : Message) : List Header := m.headers.filter Header.isLength

end Message

/-- `bytes()` writes one `Content-Length` header in front of the blank line, and it is the
number of bytes behind it. -/
def Request.Announces (q : Request) : Prop :=
  ∃ h sent, q.lengthHeaders = [h] ∧ h.value = decimal sent.length ∧
    q.bytes = q.initialLine ++ crlf ++ ((q.headers.flatMap fun h => headerLine h ++ crlf) ++
      (crlf ++ sent))

/-- **The header tracks the body.** -/
structure Tracks (m : Message) : Prop where
  one : ∃ h, m.lengthHeaders = [h] ∧ h.value = decimal m.body.length
  announced : ∀ q : Request, q.toMessage = m → q.Announces

/-- A call that changes the body or the headers. -/
inductive BodyCall
  | body (s : Bytes)
  | append (s : Bytes)
  | add (h : Header)
  | set (k v : Bytes)

namespace BodyCall

/-- `body(s)`, `append_body(s)`, `add_header(h)` and `set_header(k, v)` -/
def onMessage (m : Message) : BodyCall → Message
  | .body s => m.setBody s
  | .append s => m.appendBody s
  | .add h => m.addHeader h
  | .set k v => m.setHeader k v

/-- The caller adds or sets no `Content-Length` header itself. -/
def Other : BodyCall → Prop
  | .add h => ¬ SameName h.key lengthName
  | .set k _ => ¬ SameName k lengthName
  | .body _ | .append _ => True

def isBody : BodyCall → Bool
  | .body _ => true
  | .append _ | .add _ | .set _ _ => false

end BodyCall

/-- The header tracks the body after each call from the first `body(s)` on. -/
def TracksThroughout (m : Message) (calls : List BodyCall) : Prop :=
  ∀ made, made <+: calls → (∃ s, .body s ∈ made) → Tracks (made.foldl BodyCall.onMessage m)

/-- No `Content-Length` header, or one that `set_header` sees. -/
def LengthOnce (m : Message) : Prop :=
  m.lengthHeaders = [] ∨ ∃ v, m.lengthHeaders = [⟨lengthName, v⟩]

/-- Nothing is appended behind a `body(s)`. -/
def NothingAppended (calls : List BodyCall) : Prop :=
  ∀ made s rest, calls = made ++ .append s :: rest → (∃ b, .body b ∈ made) → s = []

/-! ## One call -/

section

variable {m : Message}

/-- What is printed denotes one number. -/
theorem decimal_injective {n n' : Nat} (h : decimal n = decimal n') : n = n' := by
  rw [← (decimal_digits n).2, ← (decimal_digits n').2, h]

/-- One header tracks the body, and so does what is written. -/
theorem Tracks.of_one {h : Header} (hone : m.lengthHeaders = [h])
    (hvalue : h.value = decimal m.body.length) : Tracks m where
  one := ⟨h, hone, hvalue⟩
  announced q hq := by
    subst hq
    exact ⟨h, q.body, hone, hvalue, q.bytes_eq⟩

/-- `set_header` changes the value of one header that it sees, or adds one. -/
theorem setHeader_cases (k v : Bytes) (m : Message) :
    (∃ before h after, m.headers = before ++ h :: after ∧ h.isNamed k = true ∧
      m.setHeader k v = { m with headers := before ++ { h with value := v } :: after }) ∨
    ((∀ g ∈ m.headers, g.isNamed k = false) ∧ m.setHeader k v = m.addHeader (Header.make k v)) := by
  have hlist : ∀ hs : List Header,
      (∃ before h after, hs = before ++ h :: after ∧ h.isNamed k = true ∧
        Message.setFirst k v hs = some (before ++ { h with value := v } :: after)) ∨
      ((∀ g ∈ hs, g.isNamed k = false) ∧ Message.setFirst k v hs = none) := by
    intro hs
    induction hs with
    | nil => exact .inr ⟨fun g hg => absurd hg List.not_mem_nil, rfl⟩
    | cons g gs ih =>
      rw [Message.setFirst]
      by_cases hg : g.isNamed k = true
      · rw [if_pos hg]
        exact .inl ⟨[], g, gs, rfl, hg, rfl⟩
      · rw [if_neg hg]
        rcases ih with ⟨before, h, after, rfl, hh, hset⟩ | ⟨hnone, hset⟩
        · exact .inl ⟨g :: before, h, after, rfl, hh, by rw [hset]; rfl⟩
        · refine .inr ⟨fun f hf => ?_, by rw [hset]; rfl⟩
          rcases List.mem_cons.mp hf with rfl | hf
          · exact Bool.eq_false_iff.mpr hg
          · exact hnone f hf
  rw [Message.setHeader]
  rcases hlist m.headers with ⟨before, h, after, hs, hh, hset⟩ | ⟨hnone, hset⟩
  · rw [hset]
    exact .inl ⟨before, h, after, hs, hh, rfl⟩
  · rw [hset]
    exact .inr ⟨hnone, rfl⟩

theorem lengthHeaders_addHeader (m : Message) (h : Header) :
    (m.addHeader h).lengthHeaders =
      m.lengthHeaders ++ if h.isLength then [h] else [] := by
  rw [Message.lengthHeaders, Message.addHeader, List.filter_append, List.filter_singleton]
  cases h.isLength <;> rfl

theorem isLength_of_other {h : Header} (hother : ¬ SameName h.key lengthName) :
    h.isLength = false := decide_eq_false hother

theorem isLength_lengthName (v : Bytes) : (⟨lengthName, v⟩ : Header).isLength = true :=
  decide_eq_true rfl

/-- Another header is set. -/
theorem lengthHeaders_setHeader {k : Bytes} (hk : ¬ SameName k lengthName) (v : Bytes)
    (m : Message) : (m.setHeader k v).lengthHeaders = m.lengthHeaders ∧
      (m.setHeader k v).body = m.body := by
  rcases setHeader_cases k v m with ⟨before, h, after, hs, hh, hset⟩ | ⟨-, hset⟩
  · have hname : ¬ SameName h.key lengthName := by
      intro hname
      rw [Header.isNamed, beq_iff_eq] at hh
      rw [← hh] at hname
      exact hk ((sameName_normalizeKey k).symm.trans hname)
    have hother : h.isLength = false := isLength_of_other hname
    have hother' : ({ h with value := v } : Header).isLength = false := isLength_of_other hname
    rw [hset, Message.lengthHeaders, Message.lengthHeaders, hs]
    simp [hother, hother']
  · have hother : ¬ SameName (Header.make k v).key lengthName := fun hname =>
      hk ((sameName_normalizeKey k).symm.trans hname)
    rw [hset, lengthHeaders_addHeader, isLength_of_other hother, if_neg Bool.false_ne_true,
      List.append_nil]
    exact ⟨rfl, rfl⟩

/-- A header that `set_header` sees has the name as it is normalised. -/
theorem isNamed_lengthName {h : Header} : h.isNamed lengthName = true ↔ h.key = lengthName := by
  have hnormal : normalizeKey lengthName = lengthName := by decide
  rw [Header.isNamed, hnormal, beq_iff_eq, eq_comm]

/-- What `body(s)` does to the `Content-Length` headers: the first that it sees gets the
new value, or there is one more. -/
theorem lengthHeaders_setBody (m : Message) (s : Bytes) :
    (∃ before v after, m.lengthHeaders = before ++ ⟨lengthName, v⟩ :: after ∧
      (m.setBody s).lengthHeaders = before ++ ⟨lengthName, decimal s.length⟩ :: after) ∨
    ((∀ v, ⟨lengthName, v⟩ ∉ m.lengthHeaders) ∧
      (m.setBody s).lengthHeaders = m.lengthHeaders ++ [⟨lengthName, decimal s.length⟩]) := by
  have hbody : m.setBody s =
      ({ m with body := s } : Message).setHeader lengthName (decimal s.length) := rfl
  rw [hbody]
  rcases setHeader_cases lengthName (decimal s.length) { m with body := s } with
    ⟨before, ⟨key, v⟩, after, hs, hh, hset⟩ | ⟨hnone, hset⟩
  · obtain rfl : key = lengthName := isNamed_lengthName.mp hh
    have hs' : m.headers = before ++ ⟨lengthName, v⟩ :: after := hs
    refine .inl ⟨before.filter Header.isLength, v, after.filter Header.isLength, ?_, ?_⟩
    · rw [Message.lengthHeaders, hs', List.filter_append,
        List.filter_cons_of_pos (isLength_lengthName v)]
    · rw [hset, Message.lengthHeaders, List.filter_append,
        List.filter_cons_of_pos (isLength_lengthName _)]
  · refine .inr ⟨fun v hv => ?_, ?_⟩
    · have hsees : (⟨lengthName, v⟩ : Header).isNamed lengthName = false :=
        hnone _ (List.mem_of_mem_filter hv)
      rw [isNamed_lengthName.mpr rfl] at hsees
      cases hsees
    · have hmake : Header.make lengthName (decimal s.length) =
          ⟨lengthName, decimal s.length⟩ := by
        have hnormal : normalizeKey lengthName = lengthName := by decide
        rw [Header.make, hnormal]
        rfl
      rw [hset, lengthHeaders_addHeader, hmake, if_pos (isLength_lengthName _)]
      rfl

/-- **`body(s)`** leaves the right header alone, if there was none or one that it sees. -/
theorem lengthHeaders_setBody_of_once (h : LengthOnce m) (s : Bytes) :
    (m.setBody s).lengthHeaders = [⟨lengthName, decimal s.length⟩] := by
  rcases lengthHeaders_setBody m s with ⟨before, v, after, hm, hset⟩ | ⟨hnone, hset⟩
  · rw [LengthOnce, hm] at h
    rcases h with h | ⟨v', h⟩
    · exact absurd h (List.append_ne_nil_of_right_ne_nil _ (List.cons_ne_nil _ _))
    · obtain ⟨rfl, htail⟩ := List.append_eq_singleton_iff.mp h |>.resolve_right (by simp)
      obtain ⟨-, rfl⟩ := List.cons.inj htail
      exact hset
  · rcases h with h | ⟨v, h⟩
    · rw [hset, h, List.nil_append]
    · exact absurd (h ▸ List.mem_singleton_self _) (hnone v)

/-- Otherwise there are two of them behind it. -/
theorem lengthOnce_of_setBody {s : Bytes} {h : Header} (hone : (m.setBody s).lengthHeaders = [h]) :
    LengthOnce m := by
  rcases lengthHeaders_setBody m s with ⟨before, v, after, hm, hset⟩ | ⟨hnone, hset⟩
  · rw [hset] at hone
    obtain ⟨rfl, htail⟩ := List.append_eq_singleton_iff.mp hone |>.resolve_right (by simp)
    obtain ⟨-, rfl⟩ := List.cons.inj htail
    exact .inr ⟨v, hm⟩
  · rw [hset] at hone
    have hlen := congrArg List.length hone
    rw [List.length_append, List.length_singleton, List.length_singleton] at hlen
    exact .inl (List.eq_nil_of_length_eq_zero (by omega))

/-! ## All calls -/

/-- **Up to the first `body(s)`** the headers of the name stay as they are. -/
theorem lengthHeaders_before : ∀ (calls : List BodyCall) (m : Message),
    (∀ call ∈ calls, call.Other) → (∀ s, .body s ∉ calls) →
    (calls.foldl BodyCall.onMessage m).lengthHeaders = m.lengthHeaders
  | [], _, _, _ => rfl
  | call :: calls, m, hother, hbody => by
    have ih := lengthHeaders_before calls (call.onMessage m)
      (fun c hc => hother c (List.mem_cons_of_mem call hc))
      fun s hs => hbody s (List.mem_cons_of_mem call hs)
    have hcall := hother call List.mem_cons_self
    rw [List.foldl_cons, ih]
    cases call with
    | body s => exact absurd List.mem_cons_self (hbody s)
    | append s => rfl
    | add h =>
      rw [BodyCall.onMessage, lengthHeaders_addHeader, isLength_of_other hcall,
        if_neg Bool.false_ne_true, List.append_nil]
    | set k v => exact (lengthHeaders_setHeader hcall v m).1

/-- No call makes a second header. -/
theorem LengthOnce.onMessage (h : LengthOnce m) {call : BodyCall} (hother : call.Other) :
    LengthOnce (call.onMessage m) := by
  cases call with
  | body s => exact .inr ⟨_, lengthHeaders_setBody_of_once h s⟩
  | append s => exact h
  | add g =>
    rw [LengthOnce, BodyCall.onMessage, lengthHeaders_addHeader, isLength_of_other hother,
      if_neg Bool.false_ne_true, List.append_nil]
    exact h
  | set k v =>
    rw [LengthOnce, BodyCall.onMessage, (lengthHeaders_setHeader hother v m).1]
    exact h

theorem tracks_setBody (h : LengthOnce m) (s : Bytes) : Tracks (m.setBody s) := by
  refine .of_one (lengthHeaders_setBody_of_once h s) ?_
  have hbody : (m.setBody s).body = s := by
    rcases setHeader_cases lengthName (decimal s.length) { m with body := s } with
      ⟨before, g, after, -, -, hset⟩ | ⟨-, hset⟩
    · exact congrArg Message.body hset
    · exact congrArg Message.body hset
  rw [hbody]

/-- **One call** keeps the header right, if nothing is appended. -/
theorem Tracks.onMessage (h : Tracks m) (honce : LengthOnce m) {call : BodyCall}
    (hother : call.Other) (happend : ∀ s, call = .append s → s = []) :
    Tracks (call.onMessage m) := by
  obtain ⟨g, hone, hvalue⟩ := h.one
  cases call with
  | body s => exact tracks_setBody honce s
  | append s =>
    obtain rfl := happend s rfl
    refine .of_one (h := g) hone ?_
    show g.value = decimal (m.body ++ []).length
    rw [List.append_nil]
    exact hvalue
  | add k =>
    refine .of_one (h := g) ?_ hvalue
    rw [BodyCall.onMessage, lengthHeaders_addHeader, isLength_of_other hother,
      if_neg Bool.false_ne_true, List.append_nil, hone]
  | set k v =>
    obtain ⟨hsame, hbody⟩ := lengthHeaders_setHeader hother v m
    refine .of_one (h := g) (hsame.trans hone) ?_
    rw [hvalue, BodyCall.onMessage, hbody]

end

/-- The calls up to the first `body(s)`. -/
theorem exists_first_body {calls : List BodyCall} (h : ∃ s, .body s ∈ calls) :
    ∃ made s rest, calls = made ++ .body s :: rest ∧ ∀ t, .body t ∉ made := by
  obtain ⟨s, hs⟩ := h
  obtain ⟨call, hfind⟩ : ∃ call, calls.find? BodyCall.isBody = some call :=
    Option.isSome_iff_exists.mp (List.find?_isSome.mpr ⟨_, hs, rfl⟩)
  obtain ⟨hcall, made, rest, rfl, hnone⟩ := List.find?_eq_some_iff_append.mp hfind
  cases call with
  | body t => exact ⟨made, t, rest, rfl, fun u hu => Bool.false_ne_true (hnone _ hu)⟩
  | append t => cases hcall
  | add g => cases hcall
  | set k v => cases hcall

/-- What is appended to a body that is announced must be empty. -/
theorem append_eq_nil {m : Message} {s : Bytes} (h : Tracks m) (h' : Tracks (m.appendBody s)) :
    s = [] := by
  obtain ⟨g, hone, hvalue⟩ := h.one
  obtain ⟨g', hone', hvalue'⟩ := h'.one
  have hsame : [g'] = [g] := hone'.symm.trans hone
  obtain rfl := List.singleton_inj.mp hsame
  have hlen : (m.body ++ s).length = m.body.length := decimal_injective (hvalue'.symm.trans hvalue)
  rw [List.length_append] at hlen
  exact List.eq_nil_of_length_eq_zero (by omega)

/-- **When the header tracks the body**: the message starts with no second header of the
name, and nothing is appended behind a `body(s)`. -/
theorem tracksThroughout_iff (m : Message) (calls : List BodyCall)
    (hother : ∀ call ∈ calls, call.Other) (hbody : ∃ s, .body s ∈ calls) :
    TracksThroughout m calls ↔ LengthOnce m ∧ NothingAppended calls := by
  constructor
  · intro h
    refine ⟨?_, ?_⟩
    · obtain ⟨made, s, rest, rfl, hnone⟩ := exists_first_body hbody
      have htracks := h (made ++ [.body s]) (by simp) ⟨s, by simp⟩
      rw [List.foldl_append] at htracks
      obtain ⟨g, hone, -⟩ := htracks.one
      have honce := lengthOnce_of_setBody hone
      rwa [LengthOnce, lengthHeaders_before made m
        (fun call hcall => hother call (List.mem_append_left _ hcall)) hnone] at honce
    · rintro made s rest rfl ⟨b, hb⟩
      have hbefore := h made (List.prefix_append _ _) ⟨b, hb⟩
      have hbehind := h (made ++ [.append s]) (by simp) ⟨b, List.mem_append_left _ hb⟩
      rw [List.foldl_append] at hbehind
      exact append_eq_nil hbefore hbehind
  · rintro ⟨honce, happend⟩
    have hall : ∀ made, made <+: calls → LengthOnce (made.foldl BodyCall.onMessage m) ∧
        ((∃ s, .body s ∈ made) → Tracks (made.foldl BodyCall.onMessage m)) := by
      intro made
      induction made using List.reverseRecOn with
      | nil => exact fun _ => ⟨honce, fun ⟨s, hs⟩ => absurd hs List.not_mem_nil⟩
      | append_singleton made call ih =>
        intro hpre
        obtain ⟨rest, rfl⟩ := hpre
        obtain ⟨hlength, htracks⟩ := ih ⟨call :: rest, by simp⟩
        have hcall : call.Other := hother call (by simp)
        rw [List.foldl_append]
        refine ⟨hlength.onMessage hcall, fun ⟨s, hs⟩ => ?_⟩
        by_cases hdone : ∃ b, .body b ∈ made
        · refine (htracks hdone).onMessage hlength hcall ?_
          rintro t rfl
          exact happend made t rest (by simp) hdone
        · -- the first `body(s)`
          have hfirst : BodyCall.body s = call := by
            rcases List.mem_append.mp hs with hs | hs
            · exact absurd ⟨s, hs⟩ hdone
            · exact List.mem_singleton.mp hs
          rw [← hfirst]
          exact tracks_setBody hlength s
    exact fun made hpre hdone => (hall made hpre).2 hdone

/-- A header before the body, and an empty piece behind it. -/
theorem tracksThroughout_empty :
    TracksThroughout {} [.add (Header.make (ascii "Host") (ascii "a")), .body (ascii "abc"),
      .append [], .set (ascii "host") (ascii "b")] :=
  (tracksThroughout_iff {} _
    (by
      intro call hcall
      simp only [List.mem_cons, List.not_mem_nil, or_false] at hcall
      rcases hcall with rfl | rfl | rfl | rfl
      · exact (by decide : ¬ SameName (Header.make (ascii "Host") (ascii "a")).key lengthName)
      · trivial
      · trivial
      · exact (by decide : ¬ SameName (ascii "host") lengthName))
    ⟨ascii "abc", by simp⟩).mpr
    ⟨.inl rfl, by
      intro made s rest hcalls _
      have hs : BodyCall.append s ∈ made ++ .append s :: rest := by simp
      rw [← hcalls] at hs
      simpa using hs⟩

/-- `body("a")` announces one byte, and `append_body("b")` sends two. -/
theorem appended_not_tracked :
    ¬ ∀ (m : Message) (calls : List BodyCall), (∀ call ∈ calls, call.Other) →
      (∃ s, .body s ∈ calls) → TracksThroughout m calls := by
  intro h
  have hboth := h {} [.body (ascii "a"), .append (ascii "b")]
    (by
      intro call hcall
      simp only [List.mem_cons, List.not_mem_nil, or_false] at hcall
      rcases hcall with rfl | rfl <;> trivial)
    ⟨ascii "a", by simp⟩
  obtain ⟨g, hone, hvalue⟩ := (hboth _ (List.prefix_refl _) ⟨ascii "a", by simp⟩).one
  have hheader : (⟨lengthName, ascii "1"⟩ : Header) = g := by
    have hlist : [(⟨lengthName, ascii "1"⟩ : Header)] = [g] := hone
    exact List.singleton_inj.mp hlist
  subst hheader
  exact absurd hvalue (by decide)

end AsioProtocols
