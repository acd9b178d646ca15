import AsioProtocols.Http.ExclusiveRuns
import AsioProtocols.Http.Fate

/-!
# Hostile servers

A server sends some byte sequence on a connection that waits for a response, and hangs
up behind it; the socket is read in any portions, and a stall timer may expire at
any time. **`survives_iff`** says for which sequences this goes as it should: no exception
leaves a handler, and what is not a well-formed response ends with the attempt failed
and the connection closed.

The invariant is `Fated`: whatever has been taken off so far, the fate of what is left,
from the read that is outstanding on, is the fate of the whole sequence. A handler
takes one step of `Response.fate`.
-/

namespace AsioProtocols

open Function

/-! ## The machine -/

/-- What happens to a connection that is sent something: a socket read or the handler
of a read, the end of the connection behind all that was sent, or the expiry of a
stall timer. -/
inductive Happening
  | feed (move : Feed.Move)
  | hangUp (err : Bytes)
  | timeout (i : Nat) (verdict : Verdict)

namespace Feed

/-- One step; `timers` says whether stall timers expire. -/
def happen (timers : Bool) (c : ConnId) (f : Feed) : Happening → Option Feed
  | .feed move => f.step c move
  | .hangUp err =>
    if f.wire = [] then (f.world.step (.readFails c 0 err)).map fun w => ⟨w, f.wire⟩ else none
  | .timeout i v =>
    if timers then
      (f.world.step (.expire c i)).bind fun w => (w.step (.runWait c i v)).map fun w => ⟨w, f.wire⟩
    else none

end Feed

/-- How many exceptions have left the handlers of `c`. -/
def World.escapes (w : World) (c : ConnId) : Nat :=
  w.log.countP fun
    | .escaped d _ => d == c
    | _ => false

/-- Attempt `a` has failed, and connection `c` is closed. -/
def World.TurnedDown (w : World) (c : ConnId) (a : AttemptId) : Prop :=
  (w.conns c).closed = true ∧ ∃ err, (w.completions.attempts a).outcome = some (.failed err)

/-- An exception has left a handler, the connection is closed, or the attempt is settled. -/
def Feed.over (c : ConnId) (a : AttemptId) (n : Nat) (f : Feed) : Prop :=
  n < f.world.escapes c ∨ (f.world.conns c).closed = true ∨ Feed.settled a f

/-- **The property**: a connection that waits for a response `m` and is sent `s` comes
to an end without an exception, and turned down unless `s` is well-formed. -/
def Survives (m : Response) (s : Bytes) : Prop :=
  ∀ (c : ConnId) (r : RespId) (a : AttemptId) (f : Feed), Feed.Opened c r f →
    Receiving c r a f.world → f.world.responses r = m → f.unread c = s →
    Concludes (Feed.happen true c) (Feed.over c a (f.world.escapes c))
      (fun g => g.world.escapes c = f.world.escapes c ∧
        (WellFormed m.request s ∨ g.world.TurnedDown c a)) f

/-! ## The invariant -/

/-- The fate of `s` when the read `op` of the response `m` is outstanding. -/
def ReadOp.fate (op : ReadOp) (m : Response) (s : Bytes) : Fate :=
  match op.point, op.wanted with
  | .status, none => m.fate s
  | .header, none => .ofHeaders m.toMessage s
  | .chunkSize, none => .ofChunks s
  | .last, none => .ofLast s
  | .chunkData, some n => if s.length < n then .cut .chunkData else .ofChunks (s.drop n)
  | .body, some n => .ofBody n s
  | p, _ => .cut p

/-- A line is read at every point but at the data of a chunk and of a counted body,
where something is asked for. -/
def ReadOp.Fits (op : ReadOp) : Prop :=
  (op.wanted.isSome = true ↔ op.point = .chunkData ∨ op.point = .body) ∧ op.wanted ≠ some 0

/-- **The connection is bound for `x`**: it has one read outstanding, from which what is
unread comes to `x`. The read is pending, or has completed, or has failed at the end of
what was sent. -/
structure Fated (c : ConnId) (r : RespId) (a : AttemptId) (n : Nat) (x : Fate) (f : Feed) :
    Prop where
  receiving : Receiving c r a f.world
  escapes : f.world.escapes c = n
  read : ∃ op, (f.world.conns c).reads = [op] ∧ op.Fits ∧
    (op.result = op.completion (f.world.conns c).input ∨
      (f.wire = [] ∧ op.completion (f.world.conns c).input = none ∧ ∃ err, op.result = some (.error err))) ∧
    ((op.point = .chunkSize ∨ op.point = .chunkData) → (f.world.conns c).transferMode = .chunked) ∧
    op.fate (f.world.responses r) (f.unread c) = x

/-- What it comes to. -/
inductive Ended (c : ConnId) (a : AttemptId) (n : Nat) : Fate → World → Prop
  | escapes {w : World} (h : w.escapes c = n + 1) : Ended c a n .escapes w
  | completes {w : World} {status : Nat} (h : w.escapes c = n)
      (outcome : (w.completions.attempts a).outcome = some (.done status)) : Ended c a n .completes w
  | unframed {w : World} (h : w.escapes c = n) (down : w.TurnedDown c a) : Ended c a n .unframed w
  | cut {w : World} {p : Point} (h : w.escapes c = n) (hooked : p.hooked = true)
      (down : w.TurnedDown c a) : Ended c a n (.cut p) w
  | silent {w : World} {p : Point} (h : w.escapes c = n) (unhooked : p.hooked = false)
      (closed : (w.conns c).closed = true)
      (pending : (w.completions.attempts a).outcome = none) : Ended c a n (.cut p) w

/-- Bound for `x`, or there. -/
inductive Bound (c : ConnId) (r : RespId) (a : AttemptId) (n : Nat) (x : Fate) (k : Nat) (f : Feed) :
    Prop
  | fated (h : Fated c r a n x f) (hk : (f.unread c).length ≤ k)
  | ended (h : Ended c a n x f.world)

/-! ## Exceptions in the history -/

namespace World

variable (w : World) (c d : ConnId)

theorem escapes_note (note : Note) (h : ∀ e, note ≠ .escaped c e) :
    (w.note note).escapes c = w.escapes c := by
  rw [escapes, World.note, List.countP_append, List.countP_singleton]
  cases note with
  | escaped d e =>
    have hne : d ≠ c := fun hd => h e (hd ▸ rfl)
    simp [escapes, hne]
  | _ => simp [escapes]

theorem escapes_escape (e : Exn) : (w.escape c e).escapes c = w.escapes c + 1 := by
  simp [escapes, World.escape, World.note, List.countP_append]

theorem escapes_hand (tasks : List ClientTask) : (w.hand d tasks).escapes c = w.escapes c := by
  refine List.foldlRecOn (motive := fun u : World => u.escapes c = w.escapes c) tasks _ ?_ ?_
  · exact w.escapes_note c _ (by simp)
  · rintro u hu (r | _) -
    · rw [← hu]
      exact u.escapes_note c (.assigned d r _ _) (by simp)
    · exact hu

theorem escapes_nextThen (t : ClientTask) : (w.nextThen t).escapes c = w.escapes c := by
  rcases w.nextThen_cases t with ⟨e, rest, -, -, h⟩ | ⟨-, -, h⟩ | ⟨-, -, h⟩
  · rw [h, escapes_hand]
    rfl
  · rw [h]
    rfl
  · rw [h]
    rfl

theorem escapes_release : (w.release d).escapes c = w.escapes c := by
  rw [release]
  split
  · rfl
  · rw [settleQueued]
    split
    · rfl
    · rw [escapes_hand]
      rfl

theorem escapes_close : (w.close d).escapes c = w.escapes c := by
  rw [escapes, log_close]
  rfl

theorem escapes_settleUnlessReady (r : RespId) (o : Outcome Nat) (v : Verdict) :
    (w.settleUnlessReady d r o v).escapes c = w.escapes c := by
  refine w.settleUnlessReady_preserves d (P := fun u => u.escapes c = w.escapes c) r o v rfl rfl ?_
  rintro u ⟨s, k⟩ - hu
  refine u.completionHandler_cases (P := fun u => u.escapes c = w.escapes c) _ o v s k
    (fun _ _ _ _ => hu) (fun _ => hu) fun _ => ?_
  rw [escapes_nextThen]
  exact hu

end World

variable {c : ConnId} {r : RespId} {a : AttemptId} {n k : Nat} {x : Fate} {wire rest : Bytes}
  {w : World} {f f' : Feed} {v : Verdict} {m : Response}

/-! ## The fate of a sequence, one read at a time -/

/-- A read that what there is does not complete is cut. -/
theorem ReadOp.fate_of_short {op : ReadOp} (hfits : op.Fits) {s : Bytes}
    (hshort : op.completion s = none) : op.fate m s = .cut op.point := by
  obtain ⟨p, wanted, result⟩ := op
  cases wanted with
  | none =>
    have hfind : find crlf s = none := by simpa [completion] using hshort
    obtain ⟨hheaders, hchunks, hlast⟩ := Fate.of_none hfind
    cases p with
    | status => simp [fate, Response.fate, hfind]
    | header => exact hheaders m.toMessage
    | chunkSize => exact hchunks
    | last => exact hlast
    | chunkData => rfl
    | body => rfl
  | some wanted =>
    have hlt : s.length < wanted := by
      by_contra hlong
      simp [completion, Nat.not_lt.mp hlong] at hshort
    cases p with
    | chunkData => simp [fate, hlt]
    | body => simp [fate, Fate.ofBody, hlt]
    | _ => rfl

/-! ## The handlers -/

/-- A line read starts. -/
theorem Bound.line {p : Point} (h : AtRest c r a wire rest w) (hn : w.escapes c = n)
    (hp : p ≠ .chunkData ∧ p ≠ .body) (hmode : p = .chunkSize → (w.conns c).transferMode = .chunked)
    (hfate : ReadOp.fate { point := p } (w.responses r) rest = x) (hk : rest.length ≤ k) :
    Bound c r a n x k ⟨w.readDelimited c p, wire⟩ := by
  have hrest : Feed.unread c ⟨w.readDelimited c p, wire⟩ = rest := by
    simpa [Feed.unread, World.readDelimited, World.modConn] using h.rest
  refine .fated ⟨?_, hn, { point := p, result := (find crlf (w.conns c).input).map .ok }, ?_, ?_, ?_,
    ?_, ?_⟩ (by rw [hrest]; exact hk)
  · exact h.receiving.of_same rfl (by simp [World.readDelimited, World.modConn])
      (by simp [World.readDelimited, World.modConn]) rfl
  · simp [World.readDelimited, World.modConn, h.reads]
  · simp [ReadOp.Fits, hp]
  · left
    simp [ReadOp.completion, World.readDelimited, World.modConn]
  · rintro (hp' | hp')
    · simpa [World.readDelimited, World.modConn] using hmode hp'
    · exact absurd hp' hp.1
  · rw [hrest]
    exact hfate

/-- A counted read starts: it waits, or its callback runs at once. -/
theorem Bound.read {p : Point} {wanted : Nat} {code : World → Bytes → World}
    (h : AtRest c r a wire rest w) (hn : w.escapes c = n) (hp : p = .chunkData ∨ p = .body)
    (hmode : p = .chunkData → (w.conns c).transferMode = .chunked)
    (hfate : ReadOp.fate { point := p, wanted := some wanted } (w.responses r) rest = x)
    (hk : rest.length ≤ k)
    (hcode : wanted ≤ rest.length → ∀ u data, AtRest c r a wire (rest.drop wanted) u →
      u.escapes c = n → (u.conns c).transferMode = (w.conns c).transferMode →
      Bound c r a n x k ⟨code u data, wire⟩) :
    Bound c r a n x k ⟨w.read c wanted p code, wire⟩ := by
  rw [World.read]
  split
  · rename_i hshort
    have hrest : Feed.unread c ⟨w.modConn c fun k =>
        { k with reads := k.reads ++ [{ point := p, wanted := some wanted }] }, wire⟩ = rest := by
      simpa [Feed.unread, World.modConn] using h.rest
    refine .fated ⟨?_, hn, { point := p, wanted := some wanted }, ?_, ?_, ?_, ?_, ?_⟩
      (by rw [hrest]; exact hk)
    · exact h.receiving.of_same rfl (by simp [World.modConn]) (by simp [World.modConn]) rfl
    · simp [World.modConn, h.reads]
    · have hpos : wanted ≠ 0 := Nat.ne_of_gt (Nat.zero_lt_of_lt hshort)
      simp [ReadOp.Fits, hp, hpos]
    · left
      simp only [ReadOp.completion, World.modConn, update_self]
      rw [if_neg (Nat.not_le.mpr hshort)]
    · rintro (hp' | hp')
      · rcases hp with rfl | rfl <;> cases hp'
      · simpa [World.modConn] using hmode hp'
    · rw [hrest]
      exact hfate
  · rename_i hlong
    have hle := Nat.not_lt.mp hlong
    have hdrop : (w.conns c).input.drop wanted ++ wire = rest.drop wanted := by
      rw [← h.rest, List.drop_append_of_le_length hle]
    refine hcode ?_ _ _ ⟨?_, ?_, ?_⟩ hn (by simp [World.modConn])
    · rw [← h.rest, List.length_append]
      omega
    · exact h.receiving.of_same rfl (by simp [World.modConn]) (by simp [World.modConn]) rfl
    · simpa [World.modConn] using h.reads
    · simpa [World.modConn] using hdrop

/-- The response completes. -/
theorem Bound.finished (h : AtRest c r a wire rest w) (hn : w.escapes c = n) (data : Bytes) :
    Bound c r a n .completes k ⟨w.extractNextBodyChunk c data v, wire⟩ := by
  refine .ended (.completes ?_ (h.extractNextBodyChunk data v).outcome)
  rw [← hn]
  have stored : ∀ u : World, (u = w ∨ ∃ m, u = w.store c r m) → u.escapes c = w.escapes c := by
    rintro u (rfl | ⟨m, rfl⟩)
    · rfl
    · exact w.escapes_note c (.content c r _) (by simp)
  have cleared : ∀ u : World, ((u.modConn c fun k => { k with res := none }).note
      (.finished c r)).escapes c = u.escapes c :=
    fun u => (u.modConn c fun k => { k with res := none }).escapes_note c _ (by simp)
  refine World.extractNextBodyChunk_cases (P := fun u => u.escapes c = w.escapes c) data
    h.receiving.res (fun u s hu => ?_) (fun u s hu => ?_)
  · rw [World.escapes_close, World.escapes_settleUnlessReady, cleared, stored u hu]
  · rw [World.escapes_settleUnlessReady, World.escapes_release]
    exact (cleared u).trans (stored u hu)

/-- A parser throws. -/
theorem Bound.escaped (e : Exn) (hn : w.escapes c = n) :
    Bound c r a n .escapes k ⟨w.escape c e, wire⟩ :=
  .ended (.escapes ((w.escapes_escape c e).trans (congrArg (· + 1) hn)))

/-- The data of a chunk. -/
theorem Bound.onChunkData (h : AtRest c r a wire rest w) (hn : w.escapes c = n) (data : Bytes)
    (hmode : (w.conns c).transferMode = .chunked) (hk : rest.length ≤ k) :
    Bound c r a n (.ofChunks rest) k ⟨w.onChunkData c data v, wire⟩ := by
  simp only [World.onChunkData, h.receiving.res]
  have hstored := (h.store ((w.responses r).appendBody (World.dropCrlf data))).extendTimer
  have hmode' : (((w.store c r ((w.responses r).appendBody (World.dropCrlf data))).extendTimer c).conns
      c).transferMode = .chunked := by
    simpa [World.extendTimer, World.modConn] using hmode
  rw [World.readNextBodyChunk, hmode']
  refine .line hstored ?_ (by decide) (fun _ => hmode') rfl hk
  rw [← hn]
  exact w.escapes_note c (.content c r _) (by simp)

/-- The size of a chunk. -/
theorem Bound.onChunkSize (h : AtRest c r a wire rest w) (hn : w.escapes c = n) (line : Bytes)
    (hmode : (w.conns c).transferMode = .chunked) (hk : rest.length ≤ k)
    (hx : (match stoi 16 line with
      | .error _ => .escapes
      | .ok n =>
        if 0 < toSize n then
          if rest.length < (toSize n + 2) % 18446744073709551616 then .cut .chunkData
          else .ofChunks (rest.drop ((toSize n + 2) % 18446744073709551616))
        else .ofLast rest) = x) :
    Bound c r a n x k ⟨w.onChunkSize c line v, wire⟩ := by
  have hmode' : ((w.extendTimer c).conns c).transferMode = .chunked := by
    simpa [World.extendTimer, World.modConn] using hmode
  cases hsize : stoi 16 line with
  | error e =>
    simp only [hsize] at hx
    subst hx
    simp only [World.onChunkSize, hsize]
    exact .escaped _ hn
  | ok size =>
    simp only [hsize] at hx
    simp only [World.onChunkSize, hsize]
    by_cases hpos : 0 < toSize size
    · simp only [hpos, if_true] at hx ⊢
      refine .read (h.extendTimer.parser ((w.extendTimer c).conns c).transferMode (toSize size)) hn
        (.inl rfl) (fun _ => by simpa [World.modConn] using hmode') hx hk ?_
      intro hlong u data hu hn' humode
      rw [← hx, if_neg (Nat.not_lt.mpr hlong)]
      refine .onChunkData hu hn' data (humode.trans (by simpa [World.modConn] using hmode')) ?_
      rw [List.length_drop]
      omega
    · simp only [hpos, if_false] at hx ⊢
      exact .line (p := .last) h.extendTimer hn (by decide) (by simp) hx hk

theorem Bound.onLast (h : AtRest c r a wire rest w) (hn : w.escapes c = n) :
    Bound c r a n .completes k ⟨w.onLast c v, wire⟩ :=
  .finished h.extendTimer hn []

theorem Bound.onBody (h : AtRest c r a wire rest w) (hn : w.escapes c = n) (data : Bytes) :
    Bound c r a n .completes k ⟨w.onBody c data v, wire⟩ :=
  .finished h.extendTimer hn data

/-- Closing and then failing the attempt. -/
theorem turnedDown_of_failResponse (h : Receiving c r a w) (err : Bytes) :
    ((w.close c).failResponse c err v).TurnedDown c a := by
  obtain ⟨hclosed, -⟩ := w.stream_close c
  have hres : ((w.close c).conns c).res = some r := by rw [World.res_close, h.res]
  obtain ⟨houtcome, hstream⟩ := (w.close c).settleUnlessReady_settles c c (r := r) (a := a)
    (by rw [World.completions_close, h.current])
    (by rw [World.completions_close]; exact h.known)
    (by rw [World.completions_close, h.pending]) (.failed err) v
  simp only [World.failResponse, hres]
  exact ⟨(Prod.mk.inj hstream).1.trans hclosed, err, houtcome⟩

theorem escapes_failResponse (w : World) (err : Bytes) :
    ((w.close c).failResponse c err v).escapes c = w.escapes c := by
  rw [World.failResponse]
  split
  · rw [World.escapes_settleUnlessReady, World.escapes_close]
  · rw [World.escapes_close]

/-- Headers that frame nothing. -/
theorem Bound.unframed (h : AtRest c r a wire rest w) (hn : w.escapes c = n) (err : Bytes) :
    Bound c r a n .unframed k ⟨(w.close c).failResponse c err v, wire⟩ :=
  .ended (.unframed ((escapes_failResponse w err).trans hn) (turnedDown_of_failResponse h.receiving err))

/-- The end of the headers. -/
theorem Bound.headersEnd (h : AtRest c r a wire rest w) (hn : w.escapes c = n)
    (hk : rest.length ≤ k) :
    Bound c r a n (.ofFraming (w.responses r).toMessage rest) k ⟨w.headersEnd c r v, wire⟩ := by
  rw [Fate.ofFraming]
  cases hlength : (w.responses r).headerValue (ascii "Content-Length") with
  | some t =>
    cases hstoi : stoi 10 t with
    | error e =>
      simp only [World.headersEnd, hlength, hstoi]
      exact .escaped _ hn
    | ok size =>
      simp only [World.headersEnd, hlength, hstoi]
      have hmode : ((w.modConn c fun k => { k with
          expectedBytes := toSize size, transferMode := .length }).conns c).transferMode = .length ∧
          ((w.modConn c fun k => { k with
          expectedBytes := toSize size, transferMode := .length }).conns c).expectedBytes =
          toSize size := by simp [World.modConn]
      rw [World.readNextBodyChunk, hmode.1, hmode.2]
      refine .read (h.parser .length (toSize size)) hn (.inr rfl) (by simp) rfl hk ?_
      rintro hlong u data hu hn' -
      rw [Fate.ofBody, if_neg (Nat.not_lt.mpr hlong)]
      exact .onBody hu hn' data
  | none =>
    cases hcoding : (w.responses r).headerValue (ascii "Transfer-Encoding") with
    | none =>
      simp only [World.headersEnd, hlength, hcoding]
      exact .unframed h hn _
    | some t =>
      simp only [World.headersEnd, hlength, hcoding]
      split
      · exact .unframed h hn _
      · have hmode : ((w.modConn c fun k =>
            { k with expectedBytes := 0, transferMode := .chunked }).conns c).transferMode =
            .chunked := by simp [World.modConn]
        rw [World.readNextBodyChunk, hmode]
        exact .line (p := .chunkSize) (h.parser .chunked 0) hn (by decide) (fun _ => hmode) rfl hk

/-- A header line, or the empty one. -/
theorem Bound.onHeader (h : AtRest c r a wire rest w) (hn : w.escapes c = n) (line : Bytes)
    (hk : rest.length ≤ k)
    (hx : (if line = [] then .ofFraming (w.responses r).toMessage rest
      else match (w.responses r).parseHeaderLine line with
        | .error _ => .escapes
        | .ok m => .ofHeaders m rest) = x) :
    Bound c r a n x k ⟨w.onHeader c line v, wire⟩ := by
  simp only [World.onHeader, h.extendTimer.receiving.res]
  by_cases hline : line = []
  · rw [if_pos hline] at hx ⊢
    subst hx
    exact .headersEnd h.extendTimer hn hk
  · rw [if_neg hline] at hx ⊢
    have hresponses : (w.extendTimer c).responses = w.responses := rfl
    rw [hresponses]
    cases hparse : (w.responses r).parseHeaderLine line with
    | error e =>
      simp only [hparse] at hx
      subst hx
      exact .escaped _ hn
    | ok m =>
      simp only [hparse] at hx
      refine .line (p := .header) (h.extendTimer.store m) ?_ (by decide) (by simp) ?_ hk
      · rw [← hn]
        exact w.escapes_note c (.content c r _) (by simp)
      · rw [← hx]
        simp [ReadOp.fate, World.store]

/-- The status line. -/
theorem Bound.onStatus (h : AtRest c r a wire rest w) (hn : w.escapes c = n) (line : Bytes)
    (hk : rest.length ≤ k)
    (hx : (match (w.responses r).parseInitialLine line with
      | (_, some _) => .escapes
      | (m, none) => .ofHeaders m.toMessage rest) = x) :
    Bound c r a n x k ⟨w.onStatus c line, wire⟩ := by
  have hresponses : (w.extendTimer c).responses = w.responses := rfl
  have hstored : AtRest c r a wire rest ((w.extendTimer c).storeStatus c r
      ((w.responses r).parseInitialLine line)) :=
    ⟨h.extendTimer.receiving.of_same rfl rfl rfl rfl, h.extendTimer.reads, h.extendTimer.rest⟩
  have hn' : ((w.extendTimer c).storeStatus c r
      ((w.responses r).parseInitialLine line)).escapes c = n :=
    (w.escapes_note c (.content c r _) (by simp)).trans hn
  simp only [World.onStatus, h.receiving.res, hresponses]
  cases hparse : (w.responses r).parseInitialLine line with
  | mk m e =>
    rw [hparse] at hx hstored hn'
    cases e with
    | some e =>
      subst hx
      exact .escaped e hn'
    | none =>
      refine .line (p := .header) hstored hn' (by decide) (by simp) ?_ hk
      rw [← hx]
      simp [ReadOp.fate, World.storeStatus]

/-! ## Runs -/

theorem Ended.over {w : World} (h : Ended c a n x w) : Feed.over c a n ⟨w, wire⟩ := by
  cases h with
  | escapes h => exact .inl (h ▸ Nat.lt_succ_self n)
  | completes _ outcome => exact .inr (.inr (by rw [Feed.settled, outcome]; simp))
  | unframed _ down => exact .inr (.inl down.1)
  | cut _ _ down => exact .inr (.inl down.1)
  | silent _ _ closed _ => exact .inr (.inl closed)

namespace Fated

theorem not_over (h : Fated c r a n x f) : ¬ Feed.over c a n f := by
  rintro (hescapes | hclosed | hsettled)
  · exact absurd (h.escapes ▸ hescapes) (Nat.lt_irrefl n)
  · exact Bool.noConfusion (hclosed.symm.trans h.receiving.isOpen)
  · exact hsettled h.receiving.pending

/-- A socket read leaves the fate of what is unread alone. -/
theorem deliver (h : Fated c r a n x f) {i : Nat} (hstep : f.step c (.deliver i) = some f') :
    Fated c r a n x f' ∧ f'.left c < f.left c := by
  obtain ⟨op, hreads, hfits, -, hmode, hfate⟩ := h.read
  obtain ⟨-, hleft, input, wire, hunread, rfl⟩ := Feed.deliver_inv hreads hstep
  refine ⟨⟨?_, h.escapes, { op with result := op.completion input }, ?_, hfits, ?_, ?_, ?_⟩, hleft⟩
  · exact h.receiving.of_same rfl (by simp [World.modConn]) (by simp [World.modConn]) rfl
  · simp [World.modConn]
  · left
    simp [World.modConn, ReadOp.completion]
  · simpa [World.modConn] using hmode
  · rw [← hunread] at hfate
    simpa [Feed.unread, World.modConn, ReadOp.fate] using hfate

/-- The handler of a read that has failed, at the end of what was sent. -/
theorem handle_failed (h : Fated c r a n x f) {op : ReadOp} (hreads : (f.world.conns c).reads = [op])
    (hfate : x = .cut op.point) (err : Bytes) :
    Ended c a n x ((f.world.modConn c fun k => { k with reads := k.reads.eraseIdx 0 }).finishRead c
      op (.error err) v) := by
  subst hfate
  have hat : AtRest c r a f.wire (f.unread c)
      (f.world.modConn c fun k => { k with reads := k.reads.eraseIdx 0 }) := by
    refine ⟨h.receiving.of_same rfl (by simp [World.modConn]) (by simp [World.modConn]) rfl, ?_, ?_⟩
    · simp [World.modConn, hreads]
    · simp [World.modConn, Feed.unread]
  simp only [World.finishRead]
  cases hhooked : op.point.hooked with
  | true =>
    exact .cut ((escapes_failResponse _ _).trans h.escapes) hhooked
      (turnedDown_of_failResponse hat.receiving _)
  | false =>
    refine .silent ?_ hhooked (World.stream_close _ c).1 ?_
    · exact (World.escapes_close _ _ _).trans h.escapes
    · simp only [Bool.false_eq_true, if_false, World.completions_close]
      exact h.receiving.pending

/-- The handler of a completed line read takes one step of the fate. -/
theorem handle_line (h : Fated c r a n x f) {p : Point} {done : Option (Except Bytes Nat)}
    (hreads : (f.world.conns c).reads = [⟨p, none, done⟩]) (hfits : ReadOp.Fits ⟨p, none, done⟩)
    (hmode : p = .chunkSize → (f.world.conns c).transferMode = .chunked)
    (hfate : ReadOp.fate ⟨p, none, done⟩ (f.world.responses r) (f.unread c) = x) {pos : Nat}
    (hfind : find crlf (f.world.conns c).input = some pos) :
    ∃ k < (f.unread c).length, Bound c r a n x k ⟨(f.world.modConn c fun k =>
      { k with reads := k.reads.eraseIdx 0 }).finishRead c ⟨p, none, done⟩ (.ok pos) v, f.wire⟩ := by
  have hunread : find crlf (f.unread c) = some pos := find_append_of_some f.wire hfind
  obtain ⟨hsplit, hline, hpos⟩ := exists_line hunread
  obtain ⟨htake, hdrop, hlen⟩ := line_of_find hsplit hline hfind
  have htaken : AtRest c r a f.wire ((f.unread c).drop (pos + 2))
      (Reading.taken f.world c (pos + 2)) := AtRest.taken h.receiving hreads hdrop
  have hshorter : ((f.unread c).drop (pos + 2)).length < (f.unread c).length := by
    have := find_crlf_lt hunread
    rw [List.length_drop]
    omega
  refine ⟨_, hshorter, ?_⟩
  rw [World.finishRead_line rfl, htake]
  cases p with
  | status =>
    exact .onStatus htaken h.escapes _ (Nat.le_refl _)
      ((Response.fate_of_find hunread).symm.trans hfate)
  | header =>
    refine .onHeader htaken h.escapes _ (Nat.le_refl _) ?_
    rw [← hfate]
    refine Eq.trans ?_ (Fate.ofHeaders_of_find hunread).symm
    -- the callback asks for an empty line, the fate for its position
    by_cases hzero : pos = 0
    · subst hzero
      rfl
    · have hne : (f.unread c).take pos ≠ [] := by
        intro hnil
        rw [hnil] at hpos
        exact hzero hpos.symm
      rw [if_neg hne, if_neg hzero]
      rfl
  | chunkSize =>
    have hchunked : ((Reading.taken f.world c (pos + 2)).conns c).transferMode = .chunked := by
      simpa [Reading.taken, World.modConn] using hmode rfl
    exact .onChunkSize htaken h.escapes _ hchunked (Nat.le_refl _)
      ((Fate.ofChunks_of_find hunread).symm.trans hfate)
  | last =>
    have hx : Fate.ofLast (f.unread c) = .completes := if_neg (by simp [hunread])
    obtain rfl : .completes = x := hx.symm.trans hfate
    exact .onLast htaken h.escapes
  | chunkData => exact absurd (hfits.1.mpr (.inl rfl)) (by simp)
  | body => exact absurd (hfits.1.mpr (.inr rfl)) (by simp)

/-- And that of a completed read of some bytes. -/
theorem handle_data (h : Fated c r a n x f) {p : Point} {wanted : Nat}
    {done : Option (Except Bytes Nat)}
    (hreads : (f.world.conns c).reads = [⟨p, some wanted, done⟩])
    (hfits : ReadOp.Fits ⟨p, some wanted, done⟩)
    (hmode : p = .chunkData → (f.world.conns c).transferMode = .chunked)
    (hfate : ReadOp.fate ⟨p, some wanted, done⟩ (f.world.responses r) (f.unread c) = x)
    (hle : wanted ≤ (f.world.conns c).input.length) {pos : Nat} :
    ∃ k < (f.unread c).length, Bound c r a n x k ⟨(f.world.modConn c fun k =>
      { k with reads := k.reads.eraseIdx 0 }).finishRead c ⟨p, some wanted, done⟩ (.ok pos) v,
        f.wire⟩ := by
  have hlong : wanted ≤ (f.unread c).length := by
    rw [Feed.unread, List.length_append]
    omega
  have hdrop : (f.world.conns c).input.drop wanted ++ f.wire = (f.unread c).drop wanted := by
    rw [Feed.unread, List.drop_append_of_le_length hle]
  have htaken : AtRest c r a f.wire ((f.unread c).drop wanted) (Reading.taken f.world c wanted) :=
    AtRest.taken h.receiving hreads hdrop
  have hshorter : ((f.unread c).drop wanted).length < (f.unread c).length := by
    have hpos : wanted ≠ 0 := fun hzero => hfits.2 (congrArg some hzero)
    rw [List.length_drop]
    omega
  refine ⟨_, hshorter, ?_⟩
  rw [World.finishRead_data rfl]
  have hp : p = .chunkData ∨ p = .body := hfits.1.mp rfl
  rcases hp with rfl | rfl
  · obtain rfl : .ofChunks ((f.unread c).drop wanted) = x := by
      rw [← hfate]
      exact (if_neg (Nat.not_lt.mpr hlong)).symm
    have hchunked : ((Reading.taken f.world c wanted).conns c).transferMode = .chunked := by
      simpa [Reading.taken, World.modConn] using hmode rfl
    exact .onChunkData htaken h.escapes _ hchunked (Nat.le_refl _)
  · obtain rfl : .completes = x := by
      rw [← hfate]
      exact (if_neg (Nat.not_lt.mpr hlong)).symm
    exact .onBody htaken h.escapes _

theorem handle_completed (h : Fated c r a n x f) {op : ReadOp}
    (hreads : (f.world.conns c).reads = [op]) (hfits : op.Fits)
    (hmode : (op.point = .chunkSize ∨ op.point = .chunkData) →
      (f.world.conns c).transferMode = .chunked)
    (hfate : op.fate (f.world.responses r) (f.unread c) = x) {result : Except Bytes Nat}
    (hcompletion : op.completion (f.world.conns c).input = some result) :
    ∃ k < (f.unread c).length, Bound c r a n x k ⟨(f.world.modConn c fun k =>
      { k with reads := k.reads.eraseIdx 0 }).finishRead c op result v, f.wire⟩ := by
  obtain ⟨p, wanted, done⟩ := op
  cases wanted with
  | none =>
    obtain ⟨pos, hfind, rfl⟩ := Option.map_eq_some_iff.mp hcompletion
    exact h.handle_line hreads hfits (fun hp => hmode (.inl hp)) hfate hfind
  | some wanted =>
    obtain ⟨hle, hok⟩ := Option.ite_none_right_eq_some.mp hcompletion
    obtain rfl := Option.some.inj hok
    exact h.handle_data hreads hfits (fun hp => hmode (.inr hp)) hfate hle

/-- **The handler of the outstanding read** goes on towards the fate. -/
theorem handle (h : Fated c r a n x f) (hstep : f.step c (.handle v) = some f') :
    (Fated c r a n x f' ∧ f'.left c < f.left c) ∨ Ended c a n x f'.world := by
  obtain ⟨op, hreads, hfits, hresult, hmode, hfate⟩ := h.read
  obtain ⟨result, hdone, rfl⟩ := Feed.handle_inv hreads hstep
  rcases hresult with hcompletion | ⟨hwire, hshort, err, herr⟩
  · obtain ⟨k, hlt, hbound⟩ := h.handle_completed hreads hfits hmode hfate (v := v)
      (hcompletion.symm.trans hdone)
    cases hbound with
    | fated hfated hk =>
      refine .inl ⟨hfated, ?_⟩
      simp only [Feed.left]
      omega
    | ended hended => exact .inr hended
  · obtain rfl : .error err = result := Option.some.inj (herr.symm.trans hdone)
    have hunread : f.unread c = (f.world.conns c).input := by
      rw [Feed.unread, hwire, List.append_nil]
    rw [hunread, ReadOp.fate_of_short hfits hshort] at hfate
    exact .inr (h.handle_failed hreads hfate.symm err)

/-- The end of the connection fails the read that nothing is left for. -/
theorem hangUp (h : Fated c r a n x f) {timers : Bool} {err : Bytes}
    (hstep : f.happen timers c (.hangUp err) = some f') :
    Fated c r a n x f' ∧ f'.left c = f.left c ∧
      ∃ op op', (f.world.conns c).reads = [op] ∧ op.result = none ∧
        (f'.world.conns c).reads = [op'] ∧ op'.result ≠ none := by
  obtain ⟨hwire, hstep⟩ := Option.ite_none_right_eq_some.mp hstep
  obtain ⟨w', hw, rfl⟩ := Option.map_eq_some_iff.mp hstep
  obtain ⟨op, hop, hnone, rfl⟩ := World.readFails_inv (World.step_eq_some hw).2
  obtain ⟨op', hreads, hfits, hresult, hmode, hfate⟩ := h.read
  obtain rfl : op' = op := by simpa [hreads] using hop
  let failed : ReadOp := { op' with result := some (.error err) }
  have hfailed : ((f.world.modConn c fun k =>
      { k with reads := k.reads.set 0 failed }).conns c).reads = [failed] := by
    simp [World.modConn, hreads]
  refine ⟨⟨?_, h.escapes, failed, hfailed, hfits, .inr ⟨hwire, ?_, err, rfl⟩, ?_, ?_⟩, ?_,
    op', failed, hreads, hnone, hfailed, by simp [failed]⟩
  · exact h.receiving.of_same rfl (by simp [World.modConn]) (by simp [World.modConn]) rfl
  · rcases hresult with hcompletion | ⟨-, -, err', herr⟩
    · rw [hnone] at hcompletion
      simpa [World.modConn, ReadOp.completion, failed] using hcompletion.symm
    · rw [hnone] at herr
      cases herr
  · simpa [World.modConn] using hmode
  · simpa [Feed.unread, World.modConn, ReadOp.fate, failed] using hfate
  · simp [Feed.left, Feed.unread, World.modConn]

/-- An expired stall timer turns the connection down. -/
theorem timeout (h : Fated c r a n x f) {i : Nat}
    (hstep : f.happen true c (.timeout i v) = some f') :
    f'.world.escapes c = n ∧ f'.world.TurnedDown c a := by
  obtain ⟨w₁, hexpire, hstep⟩ := Option.bind_eq_some_iff.mp hstep
  obtain ⟨w₂, hrun, rfl⟩ := Option.map_eq_some_iff.mp hstep
  obtain ⟨t, ht, -, rfl⟩ := World.expire_inv (World.step_eq_some hexpire).2
  obtain ⟨t', ht', -, rfl⟩ := World.runWait_inv (World.step_eq_some hrun).2
  have hlt : i < (f.world.conns c).waits.length := (List.getElem?_eq_some_iff.mp ht).1
  obtain rfl : t' = { t with status := .expired } := by
    simpa [World.modConn, hlt] using ht'.symm
  simp only [World.finishWait]
  refine ⟨(escapes_failResponse _ _).trans h.escapes, turnedDown_of_failResponse (r := r) ?_ _⟩
  exact h.receiving.of_same rfl (by simp [World.cancelTimer, World.modConn])
    (by simp [World.cancelTimer, World.modConn]) rfl

/-- The handler of a read that is done can run; for one that is not, there is more in
the socket, or the server hangs up. -/
theorem possible (h : Fated c r a n x f) (timers : Bool) :
    ∃ e f', f.happen timers c e = some f' := by
  obtain ⟨op, hreads, -, hresult, -, -⟩ := h.read
  cases hdone : op.result with
  | some result =>
    obtain ⟨f', hstep⟩ := Feed.can_handle (v := .accept) h.receiving.running hreads hdone
    exact ⟨.feed (.handle .accept), f', hstep⟩
  | none =>
    have hshort : op.completion (f.world.conns c).input = none := by
      rcases hresult with hcompletion | ⟨-, hshort, -⟩
      · rw [← hcompletion, hdone]
      · exact hshort
    by_cases hwire : f.wire = []
    · refine ⟨.hangUp [], Option.isSome_iff_exists.mp ?_⟩
      simp [Feed.happen, hwire, World.step, h.receiving.running, World.apply, hreads, hdone]
    · obtain ⟨i, f', hstep⟩ := Feed.can_deliver h.receiving.running h.receiving.isOpen hreads hdone
        hshort hwire
      exact ⟨.feed (.deliver i), f', hstep⟩

end Fated

/-- What is left to do: to read, and to fail the last read. -/
def Feed.toDo (c : ConnId) (f : Feed) : Nat :=
  2 * f.left c + (f.world.conns c).reads.countP (·.result.isNone)

/-- **Every run comes to the fate**, unless a stall timer expires before. -/
theorem Fated.concludes (h : Fated c r a n x f) (timers : Bool) :
    Concludes (Feed.happen timers c) (Feed.over c a n)
      (fun g => Ended c a n x g.world ∨
        (timers = true ∧ g.world.escapes c = n ∧ g.world.TurnedDown c a)) f := by
  refine Concludes.of_measure (fun g => Fated c r a n x g ∨ Ended c a n x g.world ∨
    (timers = true ∧ g.world.escapes c = n ∧ g.world.TurnedDown c a)) (Feed.toDo c) ?_ ?_ ?_ (.inl h)
  · rintro g (hg | hg) hover
    · exact absurd hover hg.not_over
    · exact hg
  · rintro g (hg | hg | ⟨-, -, hdown⟩) hover
    · exact hg.possible timers
    · exact absurd hg.over hover
    · exact absurd (.inr (.inl hdown.1)) hover
  · rintro g e g' (hg | hg | ⟨-, -, hdown⟩) hover hstep
    · -- an uncompleted read weighs less than a byte that is moved or consumed
      have atMost : ∀ u : Feed, Fated c r a n x u → (u.world.conns c).reads.countP
          (·.result.isNone) ≤ 1 := by
        intro u hu
        obtain ⟨op, hreads, -⟩ := hu.read
        rw [hreads]
        exact List.countP_le_length
      cases e with
      | feed move =>
        cases move with
        | deliver i =>
          obtain ⟨hg', hlt⟩ := hg.deliver hstep
          have := atMost g' hg'
          refine ⟨.inl hg', .inr ?_⟩
          simp only [Feed.toDo]
          omega
        | handle v =>
          rcases hg.handle hstep with ⟨hg', hlt⟩ | hg'
          · have := atMost g' hg'
            refine ⟨.inl hg', .inr ?_⟩
            simp only [Feed.toDo]
            omega
          · exact ⟨.inr (.inl hg'), .inl hg'.over⟩
      | hangUp err =>
        obtain ⟨hg', hleft, op, op', hreads, hnone, hreads', hsome⟩ := hg.hangUp hstep
        refine ⟨.inl hg', .inr ?_⟩
        have hcount : [op'].countP (·.result.isNone) = 0 := by
          simpa [Option.isNone_iff_eq_none] using hsome
        simp only [Feed.toDo, hleft, hreads, hreads', hcount]
        simp [hnone]
      | timeout i v =>
        cases timers with
        | false => cases hstep
        | true =>
          obtain ⟨hescapes, hdown⟩ := hg.timeout hstep
          exact ⟨.inr (.inr ⟨rfl, hescapes, hdown⟩), .inl (.inr (.inl hdown.1))⟩
    · exact absurd hg.over hover
    · exact absurd (.inr (.inl hdown.1)) hover

/-! ## Which sequences do no harm -/

/-- A connection that waits for a response is bound for the fate of what it is sent. -/
theorem Feed.Opened.fated (hopened : Feed.Opened c r f) (h : Receiving c r a f.world) :
    Fated c r a (f.world.escapes c) ((f.world.responses r).fate (f.unread c)) f := by
  refine ⟨h, rfl, _, hopened.reads, ?_, .inl ?_, ?_, rfl⟩
  · simp [ReadOp.Fits]
  · simp [ReadOp.completion]
  · rintro (hp | hp) <;> cases hp

theorem Response.Harmless.survives {s : Bytes} (h : m.Harmless s) : Survives m s := by
  intro c r a f hopened hreceiving hm hs
  subst hm hs
  refine ((hopened.fated hreceiving).concludes true).mono ?_
  obtain ⟨hescapes, hgood⟩ := h
  rintro g (hend | ⟨-, hn, hdown⟩)
  · generalize (f.world.responses r).fate (f.unread c) = x at hend hescapes hgood
    cases hend with
    | escapes _ => exact absurd rfl hescapes
    | completes hn _ => exact ⟨hn, .inl (hgood.resolve_right Bool.false_ne_true)⟩
    | unframed hn hdown => exact ⟨hn, .inr hdown⟩
    | cut hn _ hdown => exact ⟨hn, .inr hdown⟩
    | silent hn hunhooked _ _ =>
      refine ⟨hn, .inl (hgood.resolve_right ?_)⟩
      rw [Fate.turnedDown, hunhooked]
      exact Bool.false_ne_true
  · exact ⟨hn, .inr hdown⟩

/-- A connection that waits for the response `m`, and is sent `s`. -/
def waiting (m : Response) (s : Bytes) : Feed :=
  { world :=
      { conns := fun _ => { setup := none, res := some 0, reads := [{ point := .status }] }
        responses := fun _ => m
        completions := { nattempts := 1, nresponses := 1 } }
    wire := s }

/-- Without timers, the connection comes to the fate of what it is sent, and that must
then be as it should. -/
theorem Survives.harmless {s : Bytes} (h : Survives m s) : m.Harmless s := by
  have hopened : Feed.Opened 0 0 (waiting m s) := ⟨rfl, rfl, rfl, rfl⟩
  have hreceiving : Receiving 0 0 0 (waiting m s).world := ⟨rfl, rfl, rfl, rfl, Nat.one_pos, rfl⟩
  obtain ⟨g, -, ⟨hn, hgood⟩, hend⟩ := (h 0 0 0 (waiting m s) hopened hreceiving rfl rfl).meet
    ((hopened.fated hreceiving).concludes false) fun f e f' hstep => by
      cases e with
      | feed move => exact hstep
      | hangUp err => exact hstep
      | timeout i v => cases hstep
  have hend := hend.resolve_right fun htimer => Bool.false_ne_true htimer.1
  have hfate : ((waiting m s).world.responses 0).fate ((waiting m s).unread 0) = m.fate s := rfl
  rw [hfate] at hend
  rw [Response.Harmless]
  generalize m.fate s = x at hend ⊢
  cases hend with
  | escapes hn' => exact absurd (hn'.symm.trans hn) (Nat.succ_ne_self _)
  | completes _ houtcome =>
    refine ⟨nofun, .inl (hgood.resolve_right ?_)⟩
    rintro ⟨-, err, hfailed⟩
    rw [houtcome] at hfailed
    cases hfailed
  | unframed _ _ => exact ⟨nofun, .inr rfl⟩
  | cut _ hhooked _ => exact ⟨nofun, .inr hhooked⟩
  | silent _ _ _ hpending =>
    refine ⟨nofun, .inl (hgood.resolve_right ?_)⟩
    rintro ⟨-, err, hfailed⟩
    rw [hpending] at hfailed
    cases hfailed

/-- **Hostile input**: a connection with a request assigned stands a byte sequence, in any
segmentation, exactly if no parser throws on it, and it is a well-formed response or is
turned down. -/
theorem survives_iff (m : Response) (s : Bytes) : Survives m s ↔ m.Harmless s :=
  ⟨Survives.harmless, Response.Harmless.survives⟩

/-- A status line whose code is not a number. -/
def wordyStatus : Bytes := ascii "HTTP/1.1 OK fine" ++ crlf

/-- The `invalid_argument` of `stoi` leaves the handler. -/
theorem wordyStatus_escapes : ¬ Survives { request := getRequest } wordyStatus := by
  intro h
  exact h.harmless.1 (by decide)

end AsioProtocols
