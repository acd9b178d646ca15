import AsioProtocols.Http.Effects

/-!
# A connection is a sequence of exchanges

A request is written on a connection, its response is read to the end, and then comes the
next one: `Exchanges` says that nothing else happens on any connection in any run, whatever
the servers send and however often requests are retried. The responses that were read to
their end are those of the requests that were written, in that order, all but the one at
work; what a connection stores goes into the response of the request at work; and no
response is settled by, or holds bytes of, a connection that its request was not written
on. A request succeeds only when some connection has read a response to it to the end.

Each note of the history is `Allowed` by those in front of it: `unread c` is the request at
work on `c`, and `write_request` needs there to be none, storing and finishing that it is
this one. That is a fact about every moment of a handler, and `Exclusive` provides it where
handlers start; `Paired` is what they keep.
-/

namespace AsioProtocols

open Function

/-! ## The property -/

/-- The responses that were read to their end on `c`, in order. -/
def finishedOn (c : ConnId) (log : List Note) : List RespId :=
  log.filterMap fun n => match n with
    | .finished d r => if d = c then some r else none
    | _ => none

/-- **Exchanges.** On each connection requests and responses take turns, at every moment of
the history; what is stored belongs to the request at work; and nobody else settles it. -/
structure Exchanges (w : World) : Prop where
  inTurn : ∀ log c, log <+: w.log → writtenOn c log = finishedOn c log ++ (unread c log).toList
  stored : ∀ log c r a, log ++ [.content c r a] <+: w.log → unread c log = some r
  settled : ∀ c r a, .settled c r a ∈ w.completions.history → r ∈ writtenOn c w.log
  sources : ∀ r, ∀ c ∈ w.sources r, r ∈ writtenOn c w.log
  statusFrom : ∀ r c, w.statusFrom r = some c → r ∈ writtenOn c w.log
  succeeded : ∀ r code, w.completions.completion r = some (.done code) →
    ∃ c, r ∈ finishedOn c w.log

/-! ## The notes of one connection -/

/-- What may be noted behind `log`. -/
def Allowed (log : List Note) : Note → Prop
  | .assigned c _ _ _ => unread c log = none
  | .content c r _ => unread c log = some r
  | .finished c r => unread c log = some r
  | .handed _ _ _ | .escaped _ _ => True

section notes

variable {c : ConnId} {r : RespId} {log : List Note}

theorem finishedOn_append (c : ConnId) (log : List Note) (n : Note) :
    finishedOn c (log ++ [n]) = finishedOn c log ++ finishedOn c [n] := by
  simp [finishedOn]

/-- The request at work was written. -/
theorem mem_writtenOn_of_unread (h : unread c log = some r) : r ∈ writtenOn c log := by
  induction log using List.reverseRecOn with
  | nil => cases h
  | append_singleton log n ih =>
    rw [writtenOn_append, List.mem_append]
    rw [unread_append] at h
    cases n with
    | assigned d s a res =>
      simp only [unreadAfter] at h
      split at h
      · rename_i hd
        obtain rfl := Option.some.inj h
        exact .inr (by simp [writtenOn, hd])
      · exact .inl (ih h)
    | finished d s =>
      simp only [unreadAfter] at h
      split at h
      · cases h
      · exact .inl (ih h)
    | handed d res closed => exact .inl (ih h)
    | content d s a => exact .inl (ih h)
    | escaped d e => exact .inl (ih h)

theorem writtenOn_mono {log' : List Note} (h : log <+: log') (hr : r ∈ writtenOn c log) :
    r ∈ writtenOn c log' := by
  obtain ⟨rest, rfl⟩ := h
  rw [writtenOn, List.filterMap_append]
  exact List.mem_append_left _ hr

theorem finishedOn_mono {log' : List Note} (h : log <+: log') (hr : r ∈ finishedOn c log) :
    r ∈ finishedOn c log' := by
  obtain ⟨rest, rfl⟩ := h
  rw [finishedOn, List.filterMap_append]
  exact List.mem_append_left _ hr

/-- **Requests and responses take turns** where every note is allowed. -/
theorem writtenOn_eq_of_allowed (h : ∀ earlier n, earlier ++ [n] <+: log → Allowed earlier n)
    (c : ConnId) : writtenOn c log = finishedOn c log ++ (unread c log).toList := by
  induction log using List.reverseRecOn with
  | nil => rfl
  | append_singleton log n ih =>
    have hbefore := ih fun earlier m hm => h earlier m (hm.trans (List.prefix_append _ _))
    have hn := h log n List.prefix_rfl
    rw [writtenOn_append, finishedOn_append, unread_append, hbefore]
    cases n with
    | assigned d r a res =>
      rcases eq_or_ne d c with rfl | hne
      · rw [show unread d log = none from hn]
        simp [writtenOn, finishedOn, unreadAfter]
      · simp [writtenOn, finishedOn, unreadAfter, hne]
    | finished d r =>
      rcases eq_or_ne d c with rfl | hne
      · rw [show unread d log = some r from hn]
        simp [writtenOn, finishedOn, unreadAfter]
      · simp [writtenOn, finishedOn, unreadAfter, hne]
    | handed d res closed => simp [writtenOn, finishedOn, unreadAfter]
    | content d r a => simp [writtenOn, finishedOn, unreadAfter]
    | escaped d e => simp [writtenOn, finishedOn, unreadAfter]

end notes

/-! ## The invariant -/

/-- Every note is allowed, and what the responses hold and how they were settled is noted. -/
structure Paired (w : World) : Prop where
  allowed : ∀ log n, log ++ [n] <+: w.log → Allowed log n
  settled : ∀ c r a, .settled c r a ∈ w.completions.history → r ∈ writtenOn c w.log
  sources : ∀ r, ∀ c ∈ w.sources r, ∃ a, .content c r a ∈ w.log
  statusFrom : ∀ r c, w.statusFrom r = some c → ∃ a, .content c r a ∈ w.log
  succeeded : ∀ r code, w.completions.completion r = some (.done code) →
    ∃ c, r ∈ finishedOn c w.log

namespace Exclusive

variable {w : World} {c : ConnId}

/-- Nothing is at work on a connection that carries no response. -/
theorem unread_eq (h : Exclusive w) (c : ConnId) : unread c w.log = (w.conns c).res :=
  (h.conn c).unread

theorem unread_of_available (h : Exclusive w) (hc : c ∈ w.pool.available) :
    unread c w.log = none :=
  (h.unread_eq c).trans ((h.conn c).idle (.inl hc)).1

/-- The response that a connection carries is that of a request written on it. -/
theorem mem_writtenOn (h : Exclusive w) {r : RespId} (hr : (w.conns c).res = some r) :
    r ∈ writtenOn c w.log :=
  mem_writtenOn_of_unread ((h.unread_eq c).trans hr)

end Exclusive

namespace Paired

variable {w w' : World} {c : ConnId} {r : RespId}

/-- What the history says stays. -/
theorem congr (h : Paired w) (log : w'.log = w.log) (completions : w'.completions = w.completions)
    (sources : w'.sources = w.sources) (statusFrom : w'.statusFrom = w.statusFrom) : Paired w' := by
  obtain ⟨hallowed, hsettled, hsources, hstatus, hsucceeded⟩ := h
  constructor <;> simp only [log, completions, sources, statusFrom] <;> assumption

/-- **A note more.** -/
theorem note (h : Paired w) {n : Note} (hn : Allowed w.log n) : Paired (w.note n) where
  allowed log m hm := by
    rcases List.prefix_concat_iff.mp hm with he | hpre
    · obtain ⟨rfl, hlast⟩ := List.append_inj' he rfl
      obtain rfl := (List.cons.inj hlast).1
      exact hn
    · exact h.allowed log m hpre
  settled c r a hm := writtenOn_mono (List.prefix_append _ _) (h.settled c r a hm)
  sources r c hc := by
    obtain ⟨a, ha⟩ := h.sources r c hc
    exact ⟨a, List.mem_append_left _ ha⟩
  statusFrom r c hc := by
    obtain ⟨a, ha⟩ := h.statusFrom r c hc
    exact ⟨a, List.mem_append_left _ ha⟩
  succeeded r code hr := by
    obtain ⟨c, hc⟩ := h.succeeded r code hr
    exact ⟨c, finishedOn_mono (List.prefix_append _ _) hc⟩

theorem update (h : Paired w) (conns : ConnId → Conn) : Paired { w with conns := conns } :=
  h.congr rfl rfl rfl rfl

theorem setPool (h : Paired w) (p : Pool) : Paired { w with pool := p } := h.congr rfl rfl rfl rfl

/-- Bytes go into the response at work. -/
theorem store (h : Paired w) (hr : unread c w.log = some r) (m : Message) :
    Paired (w.store c r m) := by
  have hnoted := h.note (n := .content c r (w.completions.current r)) hr
  refine ⟨hnoted.allowed, hnoted.settled, fun s d hd => ?_, hnoted.statusFrom, hnoted.succeeded⟩
  change d ∈ Function.update w.sources r (w.sources r ++ [c]) s at hd
  rcases eq_or_ne s r with rfl | hne
  · rw [update_self] at hd
    rcases List.mem_append.mp hd with hold | hnew
    · exact hnoted.sources s d hold
    · obtain rfl := List.mem_singleton.mp hnew
      exact ⟨_, List.mem_append_right _ (List.mem_singleton_self _)⟩
  · rw [update_of_ne hne] at hd
    exact hnoted.sources s d hd

theorem storeStatus (h : Paired w) (hr : unread c w.log = some r)
    (parsed : Response × Option Exn) : Paired (w.storeStatus c r parsed) := by
  have hstored := h.store hr parsed.1.toMessage
  refine ⟨hstored.allowed, hstored.settled, hstored.sources, fun s d hd => ?_, hstored.succeeded⟩
  change (if parsed.2 = none then Function.update w.statusFrom r (some c) else w.statusFrom) s =
    some d at hd
  split at hd
  · rcases eq_or_ne s r with rfl | hne
    · rw [update_self] at hd
      obtain rfl := Option.some.inj hd
      exact ⟨_, List.mem_append_right _ (List.mem_singleton_self _)⟩
    · rw [update_of_ne hne] at hd
      exact hstored.statusFrom s d hd
  · exact hstored.statusFrom s d hd

theorem extendTimer (h : Paired w) (c : ConnId) : Paired (w.extendTimer c) := h.update _

theorem readDelimited (h : Paired w) (c : ConnId) (p : Point) : Paired (w.readDelimited c p) :=
  h.update _

theorem close (h : Paired w) (c : ConnId) : Paired (w.close c) := by
  rcases hcl : (w.conns c).closed with _ | _
  · obtain ⟨valid, he⟩ := w.close_of_open c hcl
    rw [he]
    exact h.congr rfl rfl rfl rfl
  · rw [w.close_of_closed c hcl]
    exact h.update _

/-! ## Handing on -/

/-- **A request is written** where none is at work. -/
theorem hand (h : Paired w) (hc : unread c w.log = none) {tasks : List ClientTask}
    (hone : tasks.length ≤ 1) : Paired (w.hand c tasks) := by
  have hhanded : Paired (w.note (.handed c (w.conns c).res (w.conns c).closed)) := h.note trivial
  refine w.hand_cases c hone hhanded (hhanded.congr rfl rfl rfl rfl) fun r _ => ?_
  have hnone : Allowed (w.note (.handed c (w.conns c).res (w.conns c).closed)).log
      (.assigned c r (w.completions.current r) (w.conns c).res) := by
    show unread c (w.log ++ [_]) = none
    rw [unread_append]
    exact hc
  rw [World.hand_writeRequest]
  refine (hhanded.note hnone).congr ?_ rfl rfl rfl
  simp [World.note]

theorem release (h : Paired w) (hq : Queues w.pool w.completions.nresponses)
    (hc : unread c w.log = none) : Paired (w.release c) := by
  rcases hn : w.pool.next_ with _ | ⟨q, rest⟩
  · rw [World.release_of_nil w c hn]
    exact h.setPool _
  · rw [World.release_of_cons w c hn (hq.pending q (by simp [hn])).2]
    have hpopped : Paired { w with pool := { w.pool with
        next_ := rest
        queued := Function.update w.pool.queued q { outcome := some (.done c), tasks := [] } } } :=
      h.setPool _
    exact hpopped.hand hc (hq.queuedOne q)

theorem nextThen (h : Paired w) (hidle : ∀ d ∈ w.pool.available, unread d w.log = none)
    (t : ClientTask) : Paired (w.nextThen t) := by
  rcases w.nextThen_cases t with ⟨d, rest, hd, -, hn⟩ | ⟨-, -, hn⟩ | ⟨-, -, hn⟩ <;> rw [hn]
  · have hmem : d ∈ w.pool.available :=
      (List.dropWhile_sublist _).mem (hd ▸ List.mem_cons_self)
    have htaken : Paired { w with pool := { w.pool with available := rest } } := h.setPool _
    exact htaken.hand (hidle d hmem) (by simp)
  · exact h.setPool _
  · exact h.setPool _

/-- The future of `c` is done, and who waits for it gets the connection. -/
theorem settleOpened (h : Paired w) (hq : Queues w.pool w.completions.nresponses)
    (ho : (w.pool.opened c).outcome = none) (hc : unread c w.log = none) :
    Paired (w.settleOpened c) := by
  have hdone : Paired { w with pool := { w.pool with
      opened := Function.update w.pool.opened c { outcome := some (.done c), tasks := [] } } } :=
    h.setPool _
  rcases w.settleOpened_cases c ho (hq.openedOne c) with ⟨-, he⟩ | ⟨t, -, he⟩ | ⟨-, he⟩ <;> rw [he]
  · exact hdone
  · exact hdone.hand hc (by simp)
  · exact hdone.release (hq.setOpened c { outcome := some (.done c), tasks := [] } (by simp)
      (by simp) rfl rfl rfl rfl) hc

/-! ## Settling -/

/-- **An attempt settles**, by a connection its request was written on. -/
theorem settleUnlessReady (h : Paired w) (hw : Steady w) (hr : r < w.completions.nresponses)
    (hwritten : r ∈ writtenOn c w.log) {o : Outcome Nat}
    (hdone : ∀ code, o = .done code → ∃ d, r ∈ finishedOn d w.log) (v : Verdict) :
    Paired (w.settleUnlessReady c r o v) := by
  have settled : ∀ k : Completions, ∀ new, k.history = w.completions.history ++
      .settled c r (w.completions.current r) :: new → (∀ d s a, Deed.settled d s a ∉ new) →
      ∀ d s a, .settled d s a ∈ k.history → s ∈ writtenOn d w.log := by
    intro k new hk hnew d s a hm
    rw [hk, List.mem_append, List.mem_cons] at hm
    rcases hm with hold | heq | hm
    · exact h.settled d s a hold
    · cases heq
      exact hwritten
    · exact absurd hm (hnew d s a)
  rcases hw.settling.settleUnlessReady_cases (c := c) hr o v with
    ⟨-, he⟩ | ⟨-, -, n, ⟨-, o', ho', he⟩ | ⟨-, he⟩⟩ <;> rw [he]
  · exact h
  · refine ⟨h.allowed, ?_, h.sources, h.statusFrom, ?_⟩
    · exact settled _ [.asked r (w.completions.current r) n v,
        .completed r (w.completions.current r)] (by simp) (by simp)
    intro s code hs
    change Function.update w.completions.completion r (some o') s = _ at hs
    rcases eq_or_ne s r with rfl | hne
    · rw [update_self] at hs
      obtain rfl := Option.some.inj hs
      rcases ho' with rfl | ⟨-, e, he'⟩
      · exact hdone code rfl
      · cases he'
    · rw [update_of_ne hne] at hs
      exact h.succeeded s code hs
  · refine nextThen ?_ ?_ _
    · refine ⟨h.allowed, ?_, ?_, h.statusFrom, h.succeeded⟩
      · exact settled _ [.asked r (w.completions.current r) n v] (by simp) (by simp)
      · intro s d hd
        change d ∈ Function.update w.sources r [] s at hd
        rcases eq_or_ne s r with rfl | hne
        · simp at hd
        · rw [update_of_ne hne] at hd
          exact h.sources s d hd
    · exact fun d hd => hw.exclusive.unread_of_available hd

theorem failResponse (h : Paired w) (hw : Steady w) (c : ConnId) (err : Bytes) (v : Verdict) :
    Paired (w.failResponse c err v) := by
  rw [World.failResponse]
  split
  · rename_i r hr
    exact h.settleUnlessReady hw ((hw.exclusive.conn c).known r hr) (hw.exclusive.mem_writtenOn hr)
      (by simp) v
  · exact h

theorem closeAndFail (h : Paired w) (hw : Steady w) (hc : c < w.pool.created) (err : Bytes)
    (v : Verdict) : Paired ((w.close c).failResponse c err v) :=
  (h.close c).failResponse (hw.close hc) c err v

/-! ## Reading -/

/-- **The end of a response**: it is noted, and then the attempt settles. -/
theorem extractNextBodyChunk (h : Paired w) (hw : Steady w) (hr : (w.conns c).res = some r)
    (hreads : (w.conns c).reads = []) (data : Bytes) (v : Verdict) :
    Paired (w.extractNextBodyChunk c data v) := by
  have finished : ∀ u, (u = w ∨ ∃ m, u = w.store c r m) → Steady u ∧ (u.conns c).res = some r ∧
      (u.conns c).reads = [] ∧
      Paired ((u.modConn c fun k => { k with res := none }).note (.finished c r)) ∧
      r ∈ writtenOn c (u.log ++ [.finished c r]) ∧ r ∈ finishedOn c (u.log ++ [.finished c r]) := by
    have noted : ∀ u, Paired u → unread c u.log = some r →
        Paired ((u.modConn c fun k => { k with res := none }).note (.finished c r)) ∧
        r ∈ writtenOn c (u.log ++ [.finished c r]) ∧
        r ∈ finishedOn c (u.log ++ [.finished c r]) := by
      intro u hu hunread
      refine ⟨note (hu.update _) hunread,
        writtenOn_mono (List.prefix_append _ _) (mem_writtenOn_of_unread hunread), ?_⟩
      rw [finishedOn_append]
      exact List.mem_append_right _ (by simp [finishedOn])
    have hunread := (hw.exclusive.unread_eq c).trans hr
    rintro u (rfl | ⟨m, rfl⟩)
    · exact ⟨hw, hr, hreads, noted _ h hunread⟩
    · have hstored := hw.store c r m
      exact ⟨hstored, hr, hreads, noted _ (h.store hunread m)
        ((hstored.exclusive.unread_eq c).trans hr)⟩
  refine World.extractNextBodyChunk_cases (P := Paired) data hr ?_ ?_
  · intro u s hu
    obtain ⟨hsteady, hres, hnone, hpaired, hwritten, hfinished⟩ := finished u hu
    have hclear := hsteady.exclusive.clear hres hnone
    exact (hpaired.settleUnlessReady ⟨hclear, hsteady.settling⟩
      ((hsteady.exclusive.conn c).known r hres) hwritten (fun _ _ => ⟨c, hfinished⟩) v).close c
  · intro u s hu
    obtain ⟨hsteady, hres, hnone, hpaired, hwritten, hfinished⟩ := finished u hu
    obtain ⟨hawaits, hfree⟩ := hsteady.exclusive.clearRead hres hnone
    have hreleased := hsteady.exclusive.releaseRead hres hnone
    have hread : Paired (((u.modConn c fun k => { k with res := none }).note
        (.finished c r)).handleResponse c) := hpaired.readDelimited c .status
    have hsettling : Settling (((u.modConn c fun k => { k with res := none }).note
        (.finished c r)).handleResponse c).futures := hsteady.settling
    have hknown : r < (((u.modConn c fun k => { k with res := none }).note
        (.finished c r)).handleResponse c).completions.nresponses :=
      (hsteady.exclusive.conn c).known r hres
    have hlog : (((u.modConn c fun k => { k with res := none }).note
        (.finished c r)).handleResponse c).log = u.log ++ [.finished c r] := rfl
    generalize ((u.modConn c fun k => { k with res := none }).note (.finished c r)).handleResponse
      c = z at *
    have hpending : ∀ q ∈ z.pool.next_, (z.pool.queued q).outcome = none :=
      fun q hq => (hawaits.queues.pending q hq).2
    have hfutures : (z.release c).futures = z.futures := World.futures_release z c hpending
    have hmore : u.log ++ [.finished c r] <+: (z.release c).log :=
      hlog ▸ (World.contents_release z c hpending).1
    refine (hread.release hawaits.queues ((hawaits.unread_eq c).trans hfree.res)).settleUnlessReady
      ⟨hreleased, hfutures ▸ hsettling⟩ ?_ (writtenOn_mono hmore hwritten)
      (fun _ _ => ⟨c, finishedOn_mono hmore hfinished⟩) v
    rwa [show (z.release c).completions = z.completions from congrArg Prod.fst hfutures]

/-- What a read handler does on the way. -/
theorem readPath {u : World} (h : Paired w) (hw : Steady w) (hr : (w.conns c).res = some r)
    (path : ReadPath c r w u) : Paired u := by
  induction path with
  | refl => exact h
  | timer _ ih => exact ih.extendTimer c
  | parser _ _ _ _ ih => exact ih.update _
  | store m _ path ih =>
    exact ih.store (((hw.readPath hr path).exclusive.unread_eq c).trans (path.res.trans hr)) m

/-- How it ends. -/
theorem readTurn {v : Verdict} {ends : Prop} (h : Paired w) (hw : Steady w)
    (hr : (w.conns c).res = some r) (hreads : (w.conns c).reads = [])
    (turn : ReadTurn c r v ends w w') : Paired w' := by
  obtain ⟨u, path, hend⟩ := turn
  have hu := hw.readPath hr path
  have hres := path.res.trans hr
  have hpaired := h.readPath hw hr path
  cases hend with
  | idle => exact hpaired
  | waits op => exact hpaired.update _
  | line m =>
    exact (hpaired.store ((hu.exclusive.unread_eq c).trans hres) m).readDelimited c .header
  | escaped e => exact hpaired.note trivial
  | givenUp err => exact hpaired.closeAndFail hu (hu.exclusive.created_of_res hres) err v
  | finished data _ =>
    exact hpaired.extractNextBodyChunk hu hres (path.reads.trans hreads) data v

/-! ## The handlers -/

/-- **The handler of a completed read.** -/
theorem finishRead (h : Paired w) (hw : Steady w) (hc : c < w.pool.created) (op : ReadOp)
    (hreads : (w.conns c).reads = []) (hpoint : op.point ≠ .status → (w.conns c).res ≠ none)
    (result : Except Bytes Nat) (v : Verdict) : Paired (w.finishRead c op result v) := by
  cases result with
  | error err =>
    simp only [World.finishRead]
    split
    · exact h.closeAndFail hw hc _ v
    · exact h.close c
  | ok pos =>
    by_cases hp : op.point = .status
    · obtain ⟨input, hcases⟩ := World.finishRead_status (w := w) (c := c) (v := v) op pos hp
      have hu : Paired (w.modConn c fun k => { k with input := input }) := h.update _
      rcases hcases with he | ⟨-, he⟩ | ⟨r, parsed, hr, hend⟩
      · rw [he]
        exact hu
      · rw [he]
        exact hu.close c
      · have hstored := (hu.extendTimer c).storeStatus ((hw.exclusive.unread_eq c).trans hr) parsed
        rcases hend with ⟨e, -, he⟩ | ⟨-, he⟩ <;> rw [he]
        · exact hstored.note trivial
        · exact hstored.readDelimited c .header
    · obtain ⟨r, hr⟩ := Option.ne_none_iff_exists'.mp (hpoint hp)
      exact h.readTurn hw hr hreads (World.finishRead_turn op pos hp hr)

/-- The handler of a completed write. -/
theorem finishWrite (h : Paired w) (hw : Steady w) (result : Except Bytes Unit) (v : Verdict) :
    Paired (w.finishWrite c result v) := by
  cases result with
  | ok => exact h.extendTimer c
  | error err =>
    simp only [World.finishWrite]
    split
    · exact h.congr rfl rfl rfl rfl
    · rename_i r hr
      exact (h.settleUnlessReady hw ((hw.exclusive.conn c).known r hr)
        (hw.exclusive.mem_writtenOn hr) (by simp) v).close c

/-- The handler of a wait. -/
theorem finishWait (h : Paired w) (hw : Steady w) (hc : c < w.pool.created) (t : Wait)
    (v : Verdict) : Paired (w.finishWait c t v) := by
  simp only [World.finishWait]
  split
  · have hcancelled : Paired (w.cancelTimer c) := h.update _
    exact hcancelled.closeAndFail ⟨hw.exclusive.inner hc rfl rfl (fun hs => hs) rfl (fun hk => hk),
      hw.settling⟩ hc _ v
  · exact h

/-- **A connection is established**, and given to whoever waits for it. -/
theorem ready (h : Paired w) (hw : Exclusive w) (ho : (w.pool.opened c).outcome = none) :
    Paired (w.ready c) :=
  ((h.extendTimer c).readDelimited c .status).settleOpened hw.queues ho
    ((hw.unread_eq c).trans ((hw.conn c).opening ho).1)

theorem finishSetup (h : Paired w) (hw : Exclusive w) (ho : (w.pool.opened c).outcome = none)
    (stage : Stage) (result : Except Bytes Unit) : Paired (w.finishSetup c stage result) := by
  cases result with
  | error err => exact h.close c
  | ok =>
    cases stage with
    | resolve => exact h.update _
    | connect =>
      simp only [World.finishSetup]
      split
      · exact (h.extendTimer c).update _
      · exact h.ready hw ho
    | handshake => exact h.ready hw ho

/-- A new response has nothing yet. -/
theorem request (h : Paired w) (hw : Exclusive w) (q : Request) (stall : Nat) :
    Paired (w.request q stall) := by
  have hnew : Paired { w with
      completions := w.completions.create.1
      responses := Function.update w.responses w.completions.create.2
        { request := q, stallTimeout := stall }
      sources := Function.update w.sources w.completions.create.2 []
      statusFrom := Function.update w.statusFrom w.completions.create.2 none } := by
    refine ⟨h.allowed, h.settled, fun s d hd => ?_, fun s d hd => ?_, fun s code hs => ?_⟩
    · change d ∈ Function.update w.sources w.completions.nresponses [] s at hd
      rcases eq_or_ne s w.completions.nresponses with rfl | hne
      · simp at hd
      · rw [update_of_ne hne] at hd
        exact h.sources s d hd
    · change Function.update w.statusFrom w.completions.nresponses none s = some d at hd
      rcases eq_or_ne s w.completions.nresponses with rfl | hne
      · simp at hd
      · rw [update_of_ne hne] at hd
        exact h.statusFrom s d hd
    · change Function.update w.completions.completion w.completions.nresponses none s = _ at hs
      rcases eq_or_ne s w.completions.nresponses with rfl | hne
      · simp at hs
      · rw [update_of_ne hne] at hs
        exact h.succeeded s code hs
  exact hnew.nextThen (fun d hd => hw.unread_of_available hd) _

/-- **Every event keeps the exchanges.** -/
theorem step (h : Paired w) (hw : Steady w) {e : Event} (hstep : w.step e = some w') :
    Paired w' := by
  obtain ⟨-, hstep⟩ := World.step_eq_some hstep
  have hx := hw.exclusive
  cases e with
  | request q stall =>
    cases hstep
    exact h.request hx q stall
  | next =>
    cases hstep
    exact h.nextThen (fun d hd => hx.unread_of_available hd) _
  | release c =>
    obtain ⟨hc, rfl⟩ := World.release_inv hstep
    have hheld : Paired { w with held := w.held.erase c } := h.congr rfl rfl rfl rfl
    exact hheld.release hx.queues ((hx.unread_eq c).trans ((hx.conn c).idle (.inr hc)).1)
  | close c =>
    obtain ⟨-, -, rfl⟩ := World.close_inv hstep
    exact h.close c
  | remove c =>
    obtain ⟨-, rfl⟩ := World.remove_inv hstep
    exact h.setPool _
  | maxConnections n =>
    cases hstep
    exact h.setPool _
  | limitConnections b =>
    cases hstep
    exact h.setPool _
  | setupDone c result =>
    obtain ⟨stage, -, -, -, rfl⟩ := World.setupDone_inv hstep
    exact h.update _
  | runSetup c =>
    obtain ⟨stage, result, hset, rfl⟩ := World.runSetup_inv hstep
    obtain ⟨hbefore, ho, -⟩ := hx.beforeSetup hset (hx.created_of_setup hset)
    have hpaired : Paired (w.modConn c fun k => { k with setup := none }) := h.update _
    exact hpaired.finishSetup hbefore ho stage result
  | receive c i bytes =>
    obtain ⟨op, -, -, -, -, rfl⟩ := World.receive_inv hstep
    exact h.update _
  | readFails c i err =>
    obtain ⟨op, -, -, rfl⟩ := World.readFails_inv hstep
    exact h.update _
  | runRead c i v =>
    obtain ⟨op, result, hop, -, rfl⟩ := World.runRead_inv hstep
    obtain ⟨hbefore, hreads, hpoint⟩ := hx.beforeRead hop
    have hpaired : Paired (w.modConn c fun k => { k with reads := k.reads.eraseIdx i }) :=
      h.update _
    exact hpaired.finishRead ⟨hbefore, hw.settling⟩ (hx.created_of_reads hop) op hreads hpoint
      result v
  | writeDone c i result =>
    obtain ⟨op, -, -, -, rfl⟩ := World.writeDone_inv hstep
    exact h.update _
  | runWrite c i v =>
    obtain ⟨op, result, hop, -, rfl⟩ := World.runWrite_inv hstep
    have hpaired : Paired (w.modConn c fun k => { k with writes := k.writes.eraseIdx i }) :=
      h.update _
    exact hpaired.finishWrite ⟨hx.beforeWrite hop, hw.settling⟩ result v
  | expire c i =>
    obtain ⟨t, -, -, rfl⟩ := World.expire_inv hstep
    exact h.update _
  | runWait c i v =>
    obtain ⟨t, ht, -, rfl⟩ := World.runWait_inv hstep
    have hpaired : Paired (w.modConn c fun k => { k with waits := k.waits.eraseIdx i }) :=
      h.update _
    exact hpaired.finishWait ⟨hx.beforeWait ht, hw.settling⟩ (hx.created_of_waits ht) t v

theorem init (eraseEnd : List (Option FutId) → List (Option FutId)) (tls limit : Bool) (max : Nat) :
    Paired (World.init eraseEnd tls limit max) where
  allowed log n hn := by
    have hnil := List.prefix_nil.mp hn
    simp at hnil
  settled := by simp [World.init]
  sources := by simp [World.init]
  statusFrom := by simp [World.init]
  succeeded := by simp [World.init]

/-- What the invariant says. -/
theorem exchanges (h : Paired w) : Exchanges w := by
  -- what is stored is stored while its request is at work
  have written : ∀ {c r a}, .content c r a ∈ w.log → r ∈ writtenOn c w.log := by
    intro c r a hm
    obtain ⟨log, rest, hlog⟩ := List.append_of_mem hm
    have hpre : log ++ [.content c r a] <+: w.log := ⟨rest, by rw [hlog]; simp⟩
    exact writtenOn_mono ((List.prefix_append _ _).trans hpre)
      (mem_writtenOn_of_unread (h.allowed log _ hpre))
  refine ⟨fun log c hlog => writtenOn_eq_of_allowed (fun earlier n hn => h.allowed earlier n
    (hn.trans hlog)) c, fun log c r a hn => h.allowed log _ hn, h.settled, fun r c hc => ?_,
    fun r c hc => ?_, h.succeeded⟩
  · obtain ⟨a, ha⟩ := h.sources r c hc
    exact written ha
  · obtain ⟨a, ha⟩ := h.statusFrom r c hc
    exact written ha

end Paired

/-- **A connection is a sequence of exchanges**, in any run. -/
theorem exchanges_of_run {eraseEnd : List (Option FutId) → List (Option FutId)} {tls limit : Bool}
    {max : Nat} {w : World}
    (run : Run World.step anyEvent (World.init eraseEnd tls limit max) w) : Exchanges w := by
  have hinv : Steady w ∧ Paired w := by
    refine run.invariant (P := fun u => Steady u ∧ Paired u)
      ⟨Steady.init eraseEnd tls limit max, Paired.init eraseEnd tls limit max⟩ ?_
    rintro t u e ⟨hw, hpaired⟩ - hstep
    exact ⟨hw.step hstep, hpaired.step hw hstep⟩
  exact hinv.2.exchanges

theorem exchanges_sharedConnection :
    ∃ w, exec World.step (World.init id false true 1) sharedConnection = some w ∧
      writtenOn 0 w.log = [0, 1] ∧ finishedOn 0 w.log = [0] ∧ Exchanges w := by
  have hvals : (exec World.step (World.init id false true 1) sharedConnection).map
      (fun w => (writtenOn 0 w.log, finishedOn 0 w.log)) = some ([0, 1], [0]) := by decide
  obtain ⟨w, hw, hvals⟩ := Option.map_eq_some_iff.mp hvals
  exact ⟨w, hw, (Prod.mk.inj hvals).1, (Prod.mk.inj hvals).2,
    exchanges_of_run (Run.of_exec (fun _ _ => trivial) sharedConnection hw)⟩

end AsioProtocols
