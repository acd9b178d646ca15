import AsioProtocols.Base.Promises
import AsioProtocols.Base.Machine
import AsioProtocols.Base.Stoi
import Mathlib.Data.List.DropRight

/-!
# statsd

The client hands its socket one datagram a call, `key:value|type`, and each call returns a
future. The server of the tests reads one packet at a time into a buffer of 1024 bytes, and
reports the whole buffer. Between the two, datagrams are lost, repeated and reordered.

`settles_of_run` is about the client's futures: in every order of calls, resolver answers and
send completions, each is settled once, with what its own handler was told, and no handler
throws. `reports_of_run` is about the two ends: the datagrams are those of the calls, in
order, and a packet that the server reports reads as the sample of one of the calls, if that
fitted. A key may hold any bytes, so a reader has to look for the last colon (`readSample`).

The client sends through a socket that `connect` makes. A send before the first `connect`
has no meaning in the model as it has none in the source.
-/

namespace AsioProtocols.Statsd

variable {E Seconds : Type}

/-! ## The format -/

/-- `std::to_string` of an `int64_t`. -/
def signed : Int → Bytes
  | .ofNat n => decimal n
  | .negSucc n => ch '-' :: decimal (n + 1)

inductive Kind
  | gauge | counter | timer
  deriving DecidableEq, Repr

namespace Kind

def mark : Kind → Bytes
  | gauge => ascii "g"
  | counter => ascii "c"
  | timer => ascii "ms"

def ofMark (text : Bytes) : Option Kind :=
  [gauge, counter, timer].find? fun kind => kind.mark = text

end Kind

/-- What a call records. -/
structure Sample where
  key : Bytes
  kind : Kind
  value : Int
  deriving DecidableEq, Repr

/-- The protocol's `key:value|type`. -/
def Sample.bytes (x : Sample) : Bytes :=
  x.key ++ ch ':' :: (signed x.value ++ ch '|' :: x.kind.mark)

/-- The value that a text denotes. -/
def readSigned (text : Bytes) : Option Int :=
  let (negative, digits) := takeSign text
  let n : Int := ofDigits 10 (digits.filterMap (digitVal 10))
  if digits ≠ [] ∧ AllDigits 10 digits then some (if negative then -n else n) else none

/-- **The reader**: without the zeros at the end, the key is what precedes the last colon. -/
def readSample (packet : Bytes) : Option Sample := do
  let text := packet.rdropWhile (· == 0)
  if ch ':' ∉ text then none
  let (entry, key) := cut (ch ':') text.reverse
  if ch '|' ∉ entry then none
  let (value, type) := cut (ch '|') entry.reverse
  some { key := key.reverse, kind := ← Kind.ofMark type, value := ← readSigned value }

/-! A sample is read back, whatever its key. -/

theorem mem_signed {v : Int} {b : Byte} (hb : b ∈ signed v) :
    b = ch '-' ∨ (digitVal 10 b).isSome := by
  cases v with
  | ofNat n => exact .inr ((decimal_digits n).1 b hb)
  | negSucc n =>
    rcases List.mem_cons.mp hb with rfl | hb
    · exact .inl rfl
    · exact .inr ((decimal_digits (n + 1)).1 b hb)

theorem not_mem_signed {v : Int} {b : Byte} (hsign : b ≠ ch '-') (hdigit : digitVal 10 b = none) :
    b ∉ signed v := by
  intro hb
  rcases mem_signed hb with rfl | hb
  · exact hsign rfl
  · rw [hdigit] at hb
    cases hb

/-- Digits have no sign in front. -/
theorem takeSign_decimal (n : Nat) : takeSign (decimal n) = (false, decimal n) := by
  cases hd : decimal n with
  | nil => exact absurd hd (decimal_ne_nil n)
  | cons b bs =>
    have hb : (digitVal 10 b).isSome := (decimal_digits n).1 b (hd ▸ List.mem_cons_self)
    obtain ⟨-, hminus, hplus⟩ := digitVal_not_space hb
    exact takeSign_of_ne hminus hplus bs

theorem readSigned_signed (v : Int) : readSigned (signed v) = some v := by
  cases v with
  | ofNat n =>
    obtain ⟨hall, hval⟩ := decimal_digits n
    simp [readSigned, signed, takeSign_decimal, decimal_ne_nil, hall, hval]
  | negSucc n =>
    obtain ⟨hall, hval⟩ := decimal_digits (n + 1)
    have hsign : takeSign (ch '-' :: decimal (n + 1)) = (true, decimal (n + 1)) := rfl
    simp [readSigned, signed, hsign, decimal_ne_nil, hall, hval, Int.negSucc_eq]

theorem Kind.ofMark_mark (kind : Kind) : ofMark kind.mark = some kind := by
  cases kind <;> decide

/-- The zeros behind a datagram are not part of it. -/
theorem rdropWhile_bytes (x : Sample) (n : Nat) :
    (x.bytes ++ List.replicate n 0).rdropWhile (· == 0) = x.bytes := by
  induction n with
  | zero =>
    have hmark : ∃ front last, x.kind.mark = front ++ [last] ∧ last ≠ 0 := by
      cases x.kind with
      | gauge => exact ⟨[], ch 'g', rfl, by decide⟩
      | counter => exact ⟨[], ch 'c', rfl, by decide⟩
      | timer => exact ⟨[ch 'm'], ch 's', rfl, by decide⟩
    obtain ⟨front, last, hmark, hlast⟩ := hmark
    have hbytes : x.bytes = (x.key ++ ch ':' :: (signed x.value ++ ch '|' :: front)) ++ [last] := by
      simp [Sample.bytes, hmark]
    rw [List.replicate_zero, List.append_nil, hbytes]
    exact List.rdropWhile_concat_neg _ _ _ (by simpa using hlast)
  | succ n ih =>
    rw [List.replicate_succ', ← List.append_assoc, List.rdropWhile_concat_pos _ _ _ (by decide)]
    exact ih

/-- **The round trip.** No colon follows the one behind the key. -/
theorem readSample_bytes (x : Sample) (n : Nat) :
    readSample (x.bytes ++ List.replicate n 0) = some x := by
  have hcolon : ch ':' ∉ (signed x.value ++ ch '|' :: x.kind.mark).reverse := by
    rw [List.mem_reverse, List.mem_append, List.mem_cons, not_or, not_or]
    refine ⟨not_mem_signed (by decide) (by decide), by decide, ?_⟩
    cases x.kind <;> decide
  have hbar : ch '|' ∉ signed x.value := not_mem_signed (by decide) (by decide)
  have hreverse : x.bytes.reverse =
      (signed x.value ++ ch '|' :: x.kind.mark).reverse ++ ch ':' :: x.key.reverse := by
    simp [Sample.bytes]
  have hmem : ch ':' ∈ x.bytes := by simp [Sample.bytes]
  simp only [readSample, rdropWhile_bytes, hreverse, cut_append _ hcolon, List.reverse_reverse]
  simp [hmem, cut_append _ hbar, Kind.ofMark_mark, readSigned_signed]

/-! ## The client -/

/-- Where the statistics go. -/
structure ConnectionDetails where
  host : Bytes := ascii "localhost"
  port : UInt16 := 8125

/-- What is outstanding: a lookup, or a datagram on its way into the socket. -/
inductive Op (E : Type)
  | resolving (host port : Bytes)
  | sending (len : Nat) (data : Bytes) (target : E)

/-- `socket` is whether `socket_` has been made; `handed` is all that the sockets were given. -/
structure Client (E : Type) where
  promises : Promises Nat (Op E) := {}
  socket : Bool := false
  target : E
  handed : List (E × Bytes) := []

/-- What becomes of the `try` block of `connect`: it throws, with the socket made or not, or
leaves a lookup outstanding. -/
inductive Attempt
  | thrown (what : Bytes) (socketMade : Bool)
  | resolving

/-- The calls of the client. -/
inductive Call (Seconds : Type)
  | connect (cd : ConnectionDetails) (attempt : Attempt)
  | timing (k : Bytes) (v : Seconds)
  | gauge (k : Bytes) (v : Int64)
  | delta (k : Bytes) (v : Int64)
  | inc (k : Bytes)
  | dec (k : Bytes)

namespace Client

def connect (s : Client E) (cd : ConnectionDetails) : Attempt → Client E
  | .thrown what socketMade =>
    { s with socket := s.socket || socketMade, promises := s.promises.refuse (.failed what) }
  | .resolving =>
    { s with
      socket := true
      promises := s.promises.start (.resolving cd.host (decimal cd.port.toNat)) }

/-- The handler of the lookup. -/
def resolved (s : Client E) (i : Nat) (answer : Except Bytes E) : Option (Client E) :=
  match s.promises.outstanding[i]? with
  | some (_, .resolving _ _) =>
    match answer with
    | .error ec => (s.promises.finish i (.failed ec)).map fun l => { s with promises := l }
    | .ok ei => (s.promises.finish i (.done 0)).map fun l => { s with promises := l, target := ei }
  | _ => none

/-- `send`, with its assertion. -/
def send (s : Client E) (k v : Bytes) : Option (Client E) :=
  let len := k.length + v.length + 1
  let data := k ++ [ch ':'] ++ v
  if s.socket ∧ data.length = len then
    some { s with
      promises := s.promises.start (.sending len data s.target)
      handed := s.handed ++ [(s.target, data.take len)] }
  else none

/-- The handler of a send. -/
def sent (s : Client E) (i : Nat) (ec : Option Bytes) (bytesSent : Nat) : Option (Client E) :=
  match s.promises.outstanding[i]? with
  | some (_, .sending len _ _) =>
    let verdict := match ec with
      | some ec => .failed ec
      | none => if bytesSent ≠ len then .failed (ascii "invalid length") else .done 1
    (s.promises.finish i verdict).map fun l => { s with promises := l }
  | _ => none

/-- `milliseconds` is `static_cast<uint64_t>(1000.0f * v)`. -/
def timing (milliseconds : Seconds → UInt64) (s : Client E) (k : Bytes) (v : Seconds) :
    Option (Client E) :=
  s.send k (decimal (milliseconds v).toNat ++ ascii "|ms")

def gauge (s : Client E) (k : Bytes) (v : Int64) : Option (Client E) :=
  s.send k (signed v.toInt ++ ascii "|g")

def delta (s : Client E) (k : Bytes) (v : Int64) : Option (Client E) :=
  s.send k (signed v.toInt ++ ascii "|c")

def inc (s : Client E) (k : Bytes) : Option (Client E) := s.delta k 1

def dec (s : Client E) (k : Bytes) : Option (Client E) := s.delta k (-1)

def call (milliseconds : Seconds → UInt64) (s : Client E) : Call Seconds → Option (Client E)
  | .connect cd attempt => some (s.connect cd attempt)
  | .timing k v => s.timing milliseconds k v
  | .gauge k v => s.gauge k v
  | .delta k v => s.delta k v
  | .inc k => s.inc k
  | .dec k => s.dec k

end Client

/-! ## The server -/

/-- `receiving` counts the reads outstanding; `packets` is what `on_packet` was given. -/
structure Server (E : Type) where
  endpoint : E
  receiving : Nat := 0
  packets : List Bytes := []

namespace Server

def maxLength : Nat := 1024

/-- The buffer behind a read: zeros, and the datagram as far as it fits. -/
def storage (datagram : Bytes) : Bytes :=
  datagram.take maxLength ++ List.replicate (maxLength - datagram.length) 0

def acceptNext (s : Server E) : Server E := { s with receiving := s.receiving + 1 }

/-- The handler of a read; `none` is an error. -/
def received (s : Server E) (datagram : Option Bytes) : Option (Server E) :=
  if s.receiving = 0 then none
  else
    let s := { s with receiving := s.receiving - 1 }
    match datagram with
    | none => some s.acceptNext
    | some d =>
      if 0 < (d.take maxLength).length then
        some { s with packets := s.packets ++ [storage d] }.acceptNext
      else some s.acceptNext

end Server

/-! ## The two of them -/

structure System (E : Type) where
  client : Client E
  server : Server E

/-- `arrives j`: the `j`-th datagram reaches the server, for the first time or again. -/
inductive Event (E Seconds : Type)
  | call (c : Call Seconds)
  | resolved (i : Nat) (answer : Except Bytes E)
  | sent (i : Nat) (ec : Option Bytes) (bytesSent : Nat)
  | arrives (j : Nat)
  | receiveFails

def step [DecidableEq E] (milliseconds : Seconds → UInt64) (s : System E) :
    Event E Seconds → Option (System E)
  | .call c => (s.client.call milliseconds c).map fun client => { s with client }
  | .resolved i answer => (s.client.resolved i answer).map fun client => { s with client }
  | .sent i ec bytesSent => (s.client.sent i ec bytesSent).map fun client => { s with client }
  | .arrives j => do
    let (target, d) ← s.client.handed[j]?
    if target = s.server.endpoint then
      (s.server.received (some d)).map fun server => { s with server }
    else none
  | .receiveFails => (s.server.received none).map fun server => { s with server }

/-- Nothing has been called, and the server waits for its first packet. -/
def initial (target endpoint : E) : System E where
  client := { target }
  server := ({ endpoint } : Server E).acceptNext

/-! ## What a run is to be compared with -/

/-- What a call records. -/
def Call.sample (milliseconds : Seconds → UInt64) : Call Seconds → Option Sample
  | .connect _ _ => none
  | .timing k v => some ⟨k, .timer, (milliseconds v).toNat⟩
  | .gauge k v => some ⟨k, .gauge, v.toInt⟩
  | .delta k v => some ⟨k, .counter, v.toInt⟩
  | .inc k => some ⟨k, .counter, 1⟩
  | .dec k => some ⟨k, .counter, -1⟩

/-- What ends a call: an exception in it, or what its handler is told. -/
inductive Report (E : Type)
  | thrown (what : Bytes)
  | resolved (answer : Except Bytes E)
  | sent (ec : Option Bytes) (bytesSent : Nat)

/-- How the future of a call is to settle: a sample counts when all of it was sent. -/
def verdict (milliseconds : Seconds → UInt64) (c : Call Seconds) : Report E → Outcome Nat
  | .thrown what => .failed what
  | .resolved (.error ec) => .failed ec
  | .resolved (.ok _) => .done 0
  | .sent (some ec) _ => .failed ec
  | .sent none bytesSent =>
    if (c.sample milliseconds).map (·.bytes.length) = some bytesSent then .done 1
    else .failed (ascii "invalid length")

abbrev History (E Seconds : Type) := Diary (Call Seconds) (Report E)

/-- The number of the future that the operation at `i` is to settle. -/
def Client.futureAt (s : Client E) (i : Nat) : Nat :=
  (s.promises.outstanding[i]?).elim 0 Prod.fst

def record (s : System E) (e : Event E Seconds) (_ : System E) (d : History E Seconds) :
    History E Seconds :=
  match e with
  | .call (.connect cd (.thrown what made)) =>
    (d.call (.connect cd (.thrown what made))).tell s.client.promises.futures.length (.thrown what)
  | .call c => d.call c
  | .resolved i answer => d.tell (s.client.futureAt i) (.resolved answer)
  | .sent i ec bytesSent => d.tell (s.client.futureAt i) (.sent ec bytesSent)
  | .arrives _ | .receiveFails => d

variable {milliseconds : Seconds → UInt64} {s s' : System E} {d : History E Seconds}
  {first endpoint : E}

/-- **The client**, as its calls and the handlers left it. -/
structure Sending (milliseconds : Seconds → UInt64) (first : E) (s : Client E)
    (d : History E Seconds) : Prop where
  honest : s.promises.Honest (verdict milliseconds) d
  lengths : ∀ n len data target, (n, Op.sending len data target) ∈ s.promises.outstanding →
    ∃ c x, d.calls[n]? = some c ∧ c.sample milliseconds = some x ∧ len = x.bytes.length
  handed : s.handed.map Prod.snd =
    (d.calls.filterMap (Call.sample milliseconds)).map Sample.bytes
  targets : ∀ target, target = s.target ∨ target ∈ s.handed.map Prod.fst →
    target = first ∨ ∃ n, (n, Report.resolved (.ok target)) ∈ d.told

/-- **The server**: a read is outstanding, and what it reported was sent to it. -/
structure Reporting (milliseconds : Seconds → UInt64) (s : Server E) (d : History E Seconds) :
    Prop where
  receiving : s.receiving = 1
  packets : ∀ p ∈ s.packets, ∃ c ∈ d.calls, ∃ x, c.sample milliseconds = some x ∧
    p = Server.storage x.bytes

/-! ## One event -/

theorem length_bytes (k v : Bytes) : (k ++ [ch ':'] ++ v).length = k.length + v.length + 1 := by
  simp only [List.length_append, List.length_singleton]
  omega

/-- The client after a sample was handed to the socket. -/
def Client.sending (s : Client E) (x : Sample) : Client E :=
  { s with
    promises := s.promises.start (.sending x.bytes.length x.bytes s.target)
    handed := s.handed ++ [(s.target, x.bytes)] }

/-- **The inversion of `send`**: the assertion holds, and all of the datagram is handed over. -/
theorem Client.send_eq_some {s s' : Client E} {k v : Bytes} {x : Sample}
    (hx : x.bytes = k ++ [ch ':'] ++ v) (h : s.send k v = some s') : s' = s.sending x := by
  have hlen : x.bytes.length = k.length + v.length + 1 := by rw [hx, length_bytes]
  simp only [Client.send, ← hx, ← hlen] at h
  split at h
  · rw [← Option.some.inj h, Client.sending, List.take_length]
  · cases h

/-- **What a call does**: it hands over the sample, or it is `connect`. -/
theorem Client.call_cases {s s' : Client E} {c : Call Seconds}
    (h : s.call milliseconds c = some s') :
    (∃ cd attempt, c = .connect cd attempt ∧ s' = s.connect cd attempt) ∨
      ∃ x, c.sample milliseconds = some x ∧ s' = s.sending x := by
  cases c with
  | connect cd attempt => exact .inl ⟨cd, attempt, rfl, (Option.some.inj h).symm⟩
  | timing k v =>
    exact .inr ⟨_, rfl, send_eq_some (by simp [Sample.bytes, Kind.mark, signed, ascii]) h⟩
  | gauge k v => exact .inr ⟨_, rfl, send_eq_some (by simp [Sample.bytes, Kind.mark, ascii]) h⟩
  | delta k v => exact .inr ⟨_, rfl, send_eq_some (by simp [Sample.bytes, Kind.mark, ascii]) h⟩
  | inc k => exact .inr ⟨_, rfl, send_eq_some (by simp [Sample.bytes, Kind.mark, ascii]) h⟩
  | dec k => exact .inr ⟨_, rfl, send_eq_some (by simp [Sample.bytes, Kind.mark, ascii]) h⟩

namespace Sending

variable {s s' : Client E}

theorem initial : Sending milliseconds first { target := first } ({} : History E Seconds) where
  honest := Promises.Honest.empty
  lengths := by simp
  handed := rfl
  targets := by simp

/-- `connect` sends nothing. -/
theorem handed_connect (h : Sending milliseconds first s d) (cd : ConnectionDetails)
    (attempt : Attempt) : s.handed.map Prod.snd = ((d.call (.connect cd attempt)).calls.filterMap
      (Call.sample milliseconds)).map Sample.bytes := by
  have hsample : Call.sample milliseconds (.connect cd attempt) = none := rfl
  rw [h.handed, Diary.call, List.filterMap_append, List.filterMap_cons_none hsample,
    List.filterMap_nil, List.append_nil]

/-- `connect` throws, and settles its future. -/
theorem thrown (h : Sending milliseconds first s d) (cd : ConnectionDetails) (what : Bytes)
    (made : Bool) : Sending milliseconds first (s.connect cd (.thrown what made))
      ((d.call (.connect cd (.thrown what made))).tell s.promises.futures.length
        (.thrown what)) where
  honest := h.honest.refuse (.connect cd (.thrown what made)) (.thrown what)
  lengths n len data target hop := by
    obtain ⟨c, x, hcall, hx, hlen⟩ := h.lengths n len data target hop
    exact ⟨c, x, Diary.getElem?_call hcall _, hx, hlen⟩
  handed := h.handed_connect cd (.thrown what made)
  targets target htarget := by
    rcases h.targets target htarget with hfirst | ⟨n, hn⟩
    · exact .inl hfirst
    · exact .inr ⟨n, List.mem_append_left _ hn⟩

/-- `connect` looks the host up. -/
theorem resolving (h : Sending milliseconds first s d) (cd : ConnectionDetails) :
    Sending milliseconds first (s.connect cd .resolving) (d.call (.connect cd .resolving)) where
  honest := h.honest.start (.connect cd .resolving) _
  lengths n len data target hop := by
    rcases List.mem_append.mp hop with hop | hop
    · obtain ⟨c, x, hcall, hx, hlen⟩ := h.lengths n len data target hop
      exact ⟨c, x, Diary.getElem?_call hcall _, hx, hlen⟩
    · cases List.mem_singleton.mp hop
  handed := h.handed_connect cd .resolving
  targets := h.targets

/-- A sample is sent. -/
theorem sample {c : Call Seconds} {x : Sample} (h : Sending milliseconds first s d)
    (hx : c.sample milliseconds = some x) :
    Sending milliseconds first (s.sending x) (d.call c) where
  honest := h.honest.start c _
  lengths n len data target hop := by
    rcases List.mem_append.mp hop with hop | hop
    · obtain ⟨c', x', hcall, hx', hlen⟩ := h.lengths n len data target hop
      exact ⟨c', x', Diary.getElem?_call hcall _, hx', hlen⟩
    · cases List.mem_singleton.mp hop
      refine ⟨c, x, ?_, hx, rfl⟩
      rw [h.honest.getElem?_call, if_pos rfl]
  handed := by simp [Client.sending, Diary.call, h.handed, hx]
  targets target htarget := by
    apply h.targets
    simpa [Client.sending, or_comm] using htarget

/-- A handler settles the future of its operation. -/
theorem finish {i n : Nat} {op : Op E} {c : Call Seconds} {r : Report E} {l : Promises Nat (Op E)}
    (h : Sending milliseconds first s d) (hop : s.promises.outstanding[i]? = some (n, op))
    (hcall : d.calls[n]? = some c)
    (hfinish : s.promises.finish i (verdict milliseconds c r) = some l) :
    Sending milliseconds first { s with promises := l } (d.tell n r) where
  honest := h.honest.finish hop hcall hfinish
  lengths m len data target hm := by
    obtain ⟨_, _, _, _, _, rfl⟩ := Promises.finish_eq_some hfinish
    exact h.lengths m len data target (List.mem_of_mem_eraseIdx hm)
  handed := h.handed
  targets target htarget := by
    rcases h.targets target htarget with hfirst | ⟨n, hn⟩
    · exact .inl hfirst
    · exact .inr ⟨n, List.mem_append_left _ hn⟩

/-- **The answer of the resolver.** -/
theorem resolved {i : Nat} {answer : Except Bytes E} (h : Sending milliseconds first s d)
    (hstep : s.resolved i answer = some s') :
    Sending milliseconds first s' (d.tell (s.futureAt i) (.resolved answer)) := by
  unfold Client.resolved at hstep
  split at hstep
  case h_2 => cases hstep
  case h_1 n host port hop =>
    have hfuture : s.futureAt i = n := by simp [Client.futureAt, hop]
    obtain ⟨c, hcall⟩ := h.honest.call_of_outstanding hop
    rw [hfuture]
    cases answer with
    | error ec =>
      obtain ⟨l, hl, rfl⟩ := Option.map_eq_some_iff.mp hstep
      exact h.finish hop hcall hl
    | ok ei =>
      obtain ⟨l, hl, rfl⟩ := Option.map_eq_some_iff.mp hstep
      have hsettled := h.finish (r := .resolved (.ok ei)) hop hcall hl
      exact { hsettled with
        targets := by
          rintro target (rfl | hhanded)
          · exact .inr ⟨n, List.mem_append_right _ (List.mem_singleton_self _)⟩
          · exact hsettled.targets target (.inr hhanded) }

/-- **The end of a send.** -/
theorem sent {i bytesSent : Nat} {ec : Option Bytes} (h : Sending milliseconds first s d)
    (hstep : s.sent i ec bytesSent = some s') :
    Sending milliseconds first s' (d.tell (s.futureAt i) (.sent ec bytesSent)) := by
  unfold Client.sent at hstep
  split at hstep
  case h_2 => cases hstep
  case h_1 n len data target hop =>
    have hfuture : s.futureAt i = n := by simp [Client.futureAt, hop]
    obtain ⟨c, x, hcall, hx, rfl⟩ := h.lengths n len data target (List.mem_of_getElem? hop)
    obtain ⟨l, hl, rfl⟩ := Option.map_eq_some_iff.mp hstep
    rw [hfuture]
    refine h.finish hop hcall ?_
    rw [← hl]
    cases ec with
    | some ec => rfl
    | none =>
      simp only [verdict, hx, Option.map_some, Option.some.injEq]
      split_ifs <;> first | rfl | omega

end Sending

namespace Reporting

variable {s s' : Server E}

/-- More calls, or more told to the client, leave the server as it is. -/
theorem of_calls {d' : History E Seconds} (h : Reporting milliseconds s d)
    (hcalls : d.calls ⊆ d'.calls) : Reporting milliseconds s d' where
  receiving := h.receiving
  packets p hp := by
    obtain ⟨c, hc, hx⟩ := h.packets p hp
    exact ⟨c, hcalls hc, hx⟩

/-- **A read ends**, with an error or with the datagram of a call. -/
theorem received {datagram : Option Bytes} (h : Reporting milliseconds s d)
    (hfrom : ∀ data, datagram = some data → ∃ c ∈ d.calls, ∃ x, c.sample milliseconds = some x ∧
      data = x.bytes) (hstep : s.received datagram = some s') : Reporting milliseconds s' d := by
  rw [Server.received, h.receiving, if_neg (by decide)] at hstep
  cases datagram with
  | none =>
    obtain rfl := Option.some.inj hstep
    exact ⟨rfl, h.packets⟩
  | some data =>
    dsimp only at hstep
    split at hstep
    · obtain rfl := Option.some.inj hstep
      refine ⟨rfl, fun p hp => ?_⟩
      rcases List.mem_append.mp hp with hp | hp
      · exact h.packets p hp
      · obtain ⟨c, hc, x, hx, rfl⟩ := hfrom data rfl
        exact ⟨c, hc, x, hx, List.mem_singleton.mp hp⟩
    · obtain rfl := Option.some.inj hstep
      exact ⟨rfl, h.packets⟩

end Reporting

/-! ## Every run -/

/-- A datagram that was handed to a socket is that of a call. -/
theorem Sending.mem_handed {s : Client E} (h : Sending milliseconds first s d) {j : Nat}
    {target : E} {data : Bytes} (hj : s.handed[j]? = some (target, data)) :
    ∃ c ∈ d.calls, ∃ x, c.sample milliseconds = some x ∧ data = x.bytes := by
  have hmem : data ∈ s.handed.map Prod.snd := List.mem_map_of_mem (List.mem_of_getElem? hj)
  rw [h.handed] at hmem
  obtain ⟨x, hx, rfl⟩ := List.mem_map.mp hmem
  obtain ⟨c, hc, hsample⟩ := List.mem_filterMap.mp hx
  exact ⟨c, hc, x, hsample, rfl⟩

variable [DecidableEq E]

omit [DecidableEq E] in
theorem calls_subset_record (s s' : System E) (e : Event E Seconds) :
    d.calls ⊆ (record s e s' d).calls := by
  cases e with
  | call c =>
    cases c with
    | connect cd attempt => cases attempt <;> exact List.subset_append_left _ _
    | _ => exact List.subset_append_left _ _
  | _ => exact List.Subset.refl _

/-- **One event at the client.** -/
theorem Sending.step {e : Event E Seconds} (h : Sending milliseconds first s.client d)
    (hstep : step milliseconds s e = some s') :
    Sending milliseconds first s'.client (record s e s' d) := by
  cases e with
  | call c =>
    obtain ⟨t, ht, rfl⟩ := Option.map_eq_some_iff.mp hstep
    rcases Client.call_cases ht with ⟨cd, attempt, rfl, rfl⟩ | ⟨x, hx, rfl⟩
    · cases attempt with
      | thrown what made => exact h.thrown cd what made
      | resolving => exact h.resolving cd
    · cases c with
      | connect cd attempt => cases hx
      | _ => exact h.sample hx
  | resolved i answer =>
    obtain ⟨t, ht, rfl⟩ := Option.map_eq_some_iff.mp hstep
    exact h.resolved ht
  | sent i ec bytesSent =>
    obtain ⟨t, ht, rfl⟩ := Option.map_eq_some_iff.mp hstep
    exact h.sent ht
  | arrives j =>
    obtain ⟨⟨target, data⟩, -, hstep⟩ := Option.bind_eq_some_iff.mp hstep
    dsimp only at hstep
    split at hstep
    · obtain ⟨t, -, rfl⟩ := Option.map_eq_some_iff.mp hstep
      exact h
    · cases hstep
  | receiveFails =>
    obtain ⟨t, -, rfl⟩ := Option.map_eq_some_iff.mp hstep
    exact h

/-- **One event at the server.** -/
theorem Reporting.step {e : Event E Seconds} (h : Reporting milliseconds s.server d)
    (hclient : Sending milliseconds first s.client d) (hstep : step milliseconds s e = some s') :
    Reporting milliseconds s'.server (record s e s' d) := by
  refine of_calls ?_ (calls_subset_record s s' e)
  cases e with
  | arrives j =>
    obtain ⟨⟨target, data⟩, hj, hstep⟩ := Option.bind_eq_some_iff.mp hstep
    dsimp only at hstep
    split at hstep
    · obtain ⟨t, ht, rfl⟩ := Option.map_eq_some_iff.mp hstep
      refine h.received (fun data' hdata => ?_) ht
      obtain rfl := Option.some.inj hdata
      exact hclient.mem_handed hj
    · cases hstep
  | receiveFails =>
    obtain ⟨t, ht, rfl⟩ := Option.map_eq_some_iff.mp hstep
    exact h.received (fun data hdata => by cases hdata) ht
  | _ =>
    obtain ⟨t, -, rfl⟩ := Option.map_eq_some_iff.mp hstep
    exact h

/-! ## Every run -/

/-- A run from the start, with its history. -/
abbrev Reached (milliseconds : Seconds → UInt64) (first endpoint : E) (s : System E)
    (d : History E Seconds) : Prop :=
  Run (recorded (step milliseconds) record) anyEvent (initial first endpoint, {}) (s, d)

theorem sound_of_run (run : Reached milliseconds first endpoint s d) :
    Sending milliseconds first s.client d ∧ Reporting milliseconds s.server d := by
  refine run.invariant (P := fun x => Sending milliseconds first x.1.client x.2 ∧
    Reporting milliseconds x.1.server x.2)
    ⟨Sending.initial, rfl, by simp [initial, Server.acceptNext]⟩ ?_
  rintro ⟨s, d⟩ t e ⟨hclient, hserver⟩ - hstep
  obtain ⟨u, hu, rfl⟩ := Option.map_eq_some_iff.mp hstep
  exact ⟨hclient.step hu, hserver.step hclient hu⟩

/-- **The futures of the client.** Each is settled once, by its own operation, and with the
verdict on what that was told; whatever it is told, a handler can settle its future. -/
theorem settles_of_run (run : Reached milliseconds first endpoint s d) :
    s.client.promises.Honest (verdict milliseconds) d ∧
      (∀ i n len data target ec bytesSent,
        s.client.promises.outstanding[i]? = some (n, .sending len data target) →
          (s.client.sent i ec bytesSent).isSome) ∧
      ∀ i n host port answer, s.client.promises.outstanding[i]? = some (n, .resolving host port) →
        (s.client.resolved i answer).isSome := by
  have hhonest := (sound_of_run run).1.honest
  constructor
  · exact hhonest
  constructor
  · intro i n len data target ec bytesSent hop
    have hi := (List.getElem?_eq_some_iff.mp hop).1
    simp [Client.sent, hop, hhonest.finish_isSome hi]
  · intro i n host port answer hop
    have hi := (List.getElem?_eq_some_iff.mp hop).1
    cases answer <;> simp [Client.resolved, hop, hhonest.finish_isSome hi]

/-- **From end to end.** The datagrams are those of the calls, each once and in order, to
addresses that the resolver gave or to the one that the client starts with; and what the
server reports is read as one of the samples, unless that did not fit. -/
theorem reports_of_run (run : Reached milliseconds first endpoint s d) :
    s.client.handed.map Prod.snd =
        (d.calls.filterMap (Call.sample milliseconds)).map Sample.bytes ∧
      (∀ p ∈ s.client.handed, p.1 = first ∨ ∃ n, (n, Report.resolved (.ok p.1)) ∈ d.told) ∧
      ∀ packet ∈ s.server.packets, packet.length = Server.maxLength ∧
        ∃ c ∈ d.calls, ∃ x, c.sample milliseconds = some x ∧
          (x.bytes.length ≤ Server.maxLength → readSample packet = some x) := by
  obtain ⟨hclient, hserver⟩ := sound_of_run run
  refine ⟨hclient.handed, fun p hp => hclient.targets p.1 (.inr (List.mem_map_of_mem hp)), ?_⟩
  intro packet hpacket
  obtain ⟨c, hc, x, hx, rfl⟩ := hserver.packets packet hpacket
  refine ⟨by simp [Server.storage]; omega, c, hc, x, hx, fun hfits => ?_⟩
  rw [Server.storage, List.take_of_length_le hfits]
  exact readSample_bytes x _

/-- A lookup, three samples that fare differently, and packets that come twice, in another
order, or never. -/
def threeSamples : List (Event Nat UInt64) :=
  [.call (.connect {} .resolving), .resolved 0 (.ok 7), .call (.gauge (ascii "a:b") (-12)),
    .call (.inc (ascii "hits")), .call (.timing (ascii "t") 250), .sent 1 none 8, .arrives 1,
    .receiveFails, .arrives 0, .arrives 1, .sent 0 none 4, .sent 0 (some (ascii "unreachable")) 0]

theorem settles_threeSamples :
    ∃ s d, exec (recorded (step id) record) (initial 0 7, {}) threeSamples = some (s, d) ∧
      (List.range 4).map s.client.promises.outcome = [some (.done 0),
        some (.failed (ascii "invalid length")), some (.done 1),
        some (.failed (ascii "unreachable"))] ∧
      s.client.promises.Honest (verdict id) d := by
  have hvals : (exec (recorded (step id) record) (initial 0 7, {}) threeSamples).map
      (fun s => (List.range 4).map s.1.client.promises.outcome) = some [some (.done 0),
        some (.failed (ascii "invalid length")), some (.done 1),
        some (.failed (ascii "unreachable"))] := by decide
  obtain ⟨⟨s, d⟩, hexec, hvals⟩ := Option.map_eq_some_iff.mp hvals
  exact ⟨s, d, hexec, hvals, (settles_of_run (.of_exec (fun _ _ => trivial) _ hexec)).1⟩

theorem reports_threeSamples :
    ∃ s d, exec (recorded (step id) record) (initial 0 7, {}) threeSamples = some (s, d) ∧
      s.server.packets.length = 3 ∧
      ∀ packet ∈ s.server.packets, packet.length = Server.maxLength ∧
        ∃ c ∈ d.calls, ∃ x, c.sample id = some x ∧
          (x.bytes.length ≤ Server.maxLength → readSample packet = some x) := by
  have hvals : (exec (recorded (step id) record) (initial 0 7, {}) threeSamples).map
      (fun s => s.1.server.packets.length) = some 3 := by decide
  obtain ⟨⟨s, d⟩, hexec, hvals⟩ := Option.map_eq_some_iff.mp hvals
  exact ⟨s, d, hexec, hvals, (reports_of_run (.of_exec (fun _ _ => trivial) _ hexec)).2.2⟩

end AsioProtocols.Statsd
