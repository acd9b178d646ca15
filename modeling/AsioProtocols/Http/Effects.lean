import Mathlib.Data.List.Find
import AsioProtocols.Http.CompletesOnce
import AsioProtocols.Http.Endings

/-!
# What a step does to one connection

A step of the client may arm the stall timer of a connection, end its response, give
it to a request or close it; everything else leaves its waits, its writes and its
`res_` alone. `Effect` lists these actions for one connection and `step_effects` is the
inversion of a step: the actions happen only to the connections that `World.arms`,
`World.ends` and `World.handsTo` name, which are computed from the state before it.

A request reaches a connection in three ways: `next()` takes the first valid one of
`available_` (`World.nextAvailable`), for a new request or for a retry; `release()`
passes one on to the request that waits first (`World.passesToRequest`); or the
connection has just been established. The verdict of a handler counts only when it
settles an attempt, so `World.retried` looks at the verdict alone.
-/

namespace AsioProtocols

open Function

/-! ## Which connections a step may use -/

namespace World

/-- The connection that `next()` hands out. -/
def nextAvailable (w : World) : Option ConnId := w.pool.available.find? w.isValid

/-- `release()` passes its connection on to a request. -/
def passesToRequest (w : World) : Bool :=
  match w.pool.next_ with
  | [] => false
  | q :: _ => (w.pool.queued q).tasks.any (· ≠ .hold)

/-- The connection that a retry is written on. -/
def retried (w : World) : Verdict → List ConnId
  | .retry => w.nextAvailable.toList
  | _ => []

/-- The end of the response of `c` gives the connection to a request: to one that
waits, or to a retry that finds no other. -/
def regives (w : World) (c : ConnId) (v : Verdict) : Bool :=
  w.keepsConnection c && (w.passesToRequest ||
    (v = .retry && w.pool.next_.isEmpty && w.nextAvailable.isNone && w.isValid c))

/-- The connection whose response a step reads to its end. -/
def ends (w : World) : Event → List ConnId
  | .runRead c i _ =>
    match (w.conns c).reads[i]? with
    | some ⟨p, wanted, some (.ok pos)⟩ => if w.endsResponse c p wanted pos then [c] else []
    | _ => []
  | _ => []

/-- The connection for which a step calls `extend_timer()`, apart from those it gives
to a request. -/
def arms (w : World) : Event → List ConnId
  | .runSetup c =>
    match (w.conns c).setup with
    | some ⟨.resolve, _⟩ => []
    | some ⟨_, some (.ok _)⟩ => [c]
    | _ => []
  | .runRead c i _ =>
    match (w.conns c).reads[i]? with
    | some ⟨p, _, some (.ok _)⟩ => if p ≠ .status ∨ (w.conns c).res.isSome then [c] else []
    | _ => []
  | .runWrite c i _ =>
    match (w.conns c).writes[i]? with
    | some ⟨_, some (.ok _)⟩ => [c]
    | _ => []
  | _ => []

/-- The connections that a step gives to a request. -/
def handsTo (w : World) : Event → List ConnId
  | .request _ _ => w.nextAvailable.toList
  | .release c => if w.passesToRequest then [c] else []
  | .runSetup c =>
    match (w.conns c).setup with
    | some ⟨.resolve, _⟩ => []
    | some ⟨_, some (.ok _)⟩ => [c]
    | _ => []
  | .runRead c i v =>
    w.retried v ++ (if c ∈ w.ends (.runRead c i v) ∧ w.regives c v then [c] else [])
  | .runWrite _ _ v => w.retried v
  | .runWait _ _ v => w.retried v
  | _ => []

/-- The state once the operation has completed, or has been taken off for its handler to
run. -/
def before (w : World) : Event → World
  | .runSetup c => w.modConn c fun k => { k with setup := none }
  | .runRead c i _ => w.modConn c fun k => { k with reads := k.reads.eraseIdx i }
  | .writeDone c i result => w.modConn c fun k =>
    { k with writes := k.writes.modify i fun op => { op with result := some result } }
  | .runWrite c i _ => w.modConn c fun k => { k with writes := k.writes.eraseIdx i }
  | .expire c i => w.modConn c fun k =>
    { k with waits := k.waits.modify i fun t => { t with status := .expired } }
  | .runWait c i _ => w.modConn c fun k => { k with waits := k.waits.eraseIdx i }
  | _ => w

end World

/-! ## The actions -/

/-- The responses whose requests were written on `c`, in order. -/
def writtenOn (c : ConnId) (log : List Note) : List RespId :=
  log.filterMap fun n => match n with
    | .assigned d r _ _ => if d = c then some r else none
    | _ => none

/-- The record of a connection, and the responses whose requests were written on it. -/
def World.side (w : World) (c : ConnId) : Conn × List RespId := (w.conns c, writtenOn c w.log)

/-- What may happen to one connection from `x` on: its timer is armed only if `arms`, it
gets a request only if `gives`, and, before it gets one, its response ends only if
`ends`. -/
inductive Effect (arms gives ends : Prop) (x : Conn × List RespId) : Conn × List RespId → Prop
  | refl : Effect arms gives ends x x
  | inner {k k' : Conn} {l : List RespId} (before : Effect arms gives ends x (k, l))
      (waits : k'.waits = k.waits) (writes : k'.writes = k.writes) (res : k'.res = k.res)
      (closed : k'.closed = k.closed) (closedThen : k'.closedThen = k.closedThen) :
      Effect arms gives ends x (k', l)
  | cancel {k : Conn} {l : List RespId} (before : Effect arms gives ends x (k, l)) :
      Effect arms gives ends x ({ k with waits := k.waits.map Wait.cancel }, l)
  | shut {k : Conn} {l : List RespId} (before : Effect arms gives ends x (k, l)) :
      Effect arms gives ends x (k.shut, l)
  | arm {k : Conn} {l : List RespId} (before : Effect arms gives ends x (k, l)) (h : arms)
      (target : Nat) : Effect arms gives ends x
        ({ k with waits := k.waits.map Wait.cancel ++ [{ target := target }] }, l)
  | clear {k : Conn} {l : List RespId} (before : Effect arms gives ends x (k, l)) (h : ends)
      (first : l = x.2) : Effect arms gives ends x ({ k with res := none }, l)
  | give {k : Conn} {l : List RespId} (before : Effect arms gives ends x (k, l)) (h : gives)
      (res : k.res = none) (r : RespId) (a : AttemptId) (stall : Nat) (data : Bytes) :
      Effect arms gives ends x (k.carrying r a stall data, l ++ [r])

/-- What may happen to every connection. -/
def Effects (arms gives ends : ConnId → Prop) (w u : World) : Prop :=
  ∀ d, Effect (arms d) (gives d) (ends d) (w.side d) (u.side d)

theorem writtenOn_append (c : ConnId) (log : List Note) (n : Note) :
    writtenOn c (log ++ [n]) = writtenOn c log ++ writtenOn c [n] := by
  simp [writtenOn]

namespace Effects

variable {A G E : ConnId → Prop} {w u u' : World} {c : ConnId} {r : RespId} {v : Verdict}

theorem refl (w : World) : Effects A G E w w := fun _ => .refl

/-- Nothing happens to any connection. -/
theorem of_side (h : Effects A G E w u) (hside : ∀ d, u'.side d = u.side d) :
    Effects A G E w u' :=
  fun d => hside d ▸ h d

/-- Something happens to one. -/
theorem update (h : Effects A G E w u) {k : Conn}
    (hk : Effect (A c) (G c) (E c) (w.side c) (k, (u.side c).2)) :
    Effects A G E w { u with conns := update u.conns c k } := by
  intro d
  show Effect _ _ _ _ (Function.update u.conns c k d, _)
  rcases eq_or_ne d c with rfl | hne
  · rw [update_self]
    exact hk
  · rw [update_of_ne hne]
    exact h d

theorem inner (h : Effects A G E w u) {f : Conn → Conn}
    (waits : (f (u.conns c)).waits = (u.conns c).waits)
    (writes : (f (u.conns c)).writes = (u.conns c).writes)
    (res : (f (u.conns c)).res = (u.conns c).res)
    (closed : (f (u.conns c)).closed = (u.conns c).closed)
    (closedThen : (f (u.conns c)).closedThen = (u.conns c).closedThen) :
    Effects A G E w (u.modConn c f) :=
  h.update ((h c).inner waits writes res closed closedThen)

theorem note (h : Effects A G E w u) {n : Note} (hn : ∀ d, writtenOn d [n] = []) :
    Effects A G E w (u.note n) := by
  refine h.of_side fun d => ?_
  show (_, writtenOn d (u.log ++ [n])) = _
  rw [writtenOn_append, hn d, List.append_nil]
  rfl

theorem extendTimer (h : Effects A G E w u) (hc : A c) : Effects A G E w (u.extendTimer c) :=
  h.update ((h c).arm hc (u.stallTarget c))

theorem cancelTimer (h : Effects A G E w u) (c : ConnId) : Effects A G E w (u.cancelTimer c) :=
  h.update (h c).cancel

theorem readDelimited (h : Effects A G E w u) (c : ConnId) (p : Point) :
    Effects A G E w (u.readDelimited c p) :=
  h.inner rfl rfl rfl rfl rfl

theorem store (h : Effects A G E w u) (c : ConnId) (r : RespId) (m : Message) :
    Effects A G E w (u.store c r m) :=
  (h.note (n := .content c r (u.completions.current r)) fun _ => rfl).of_side fun _ => rfl

theorem storeStatus (h : Effects A G E w u) (c : ConnId) (r : RespId)
    (parsed : Response × Option Exn) : Effects A G E w (u.storeStatus c r parsed) :=
  (h.note (n := .content c r (u.completions.current r)) fun _ => rfl).of_side fun _ => rfl

theorem escape (h : Effects A G E w u) (c : ConnId) (e : Exn) : Effects A G E w (u.escape c e) :=
  h.note fun _ => rfl

theorem close (h : Effects A G E w u) (c : ConnId) : Effects A G E w (u.close c) := by
  rcases hcl : (u.conns c).closed with _ | _
  · obtain ⟨valid, he⟩ := u.close_of_open c hcl
    rw [he]
    exact h.update (h c).shut
  · rw [u.close_of_closed c hcl]
    exact h.update ((h c).inner rfl rfl rfl rfl rfl)

/-! ## Handing on -/

/-- **A connection is handed on**, to a request only if that is allowed. -/
theorem hand (h : Effects A G E w u) {tasks : List ClientTask} (hone : tasks.length ≤ 1)
    (hres : (u.conns c).res = none) (hc : ∀ r, tasks = [.writeRequest r] → G c) :
    Effects A G E w (u.hand c tasks) := by
  have handed : Effects A G E w (u.note (.handed c (u.conns c).res (u.conns c).closed)) :=
    h.note fun _ => rfl
  refine u.hand_cases c hone handed (handed.of_side fun _ => rfl) fun r ht => ?_
  rw [World.hand_writeRequest]
  intro d
  have hlog : writtenOn d (u.log ++ [.handed c (u.conns c).res (u.conns c).closed,
      .assigned c r (u.completions.current r) (u.conns c).res]) =
      writtenOn d u.log ++ if c = d then [r] else [] := by
    by_cases hd : c = d <;> simp [writtenOn, hd]
  show Effect _ _ _ _ (Function.update u.conns c _ d, writtenOn d (u.log ++ _))
  rw [hlog]
  rcases eq_or_ne d c with rfl | hne
  · rw [update_self, if_pos rfl]
    exact (h d).give (hc r ht) hres r _ _ _
  · rw [update_of_ne hne, if_neg hne.symm, List.append_nil]
    exact h d

theorem release (h : Effects A G E w u) (hq : Queues u.pool u.completions.nresponses)
    (hres : (u.conns c).res = none) (hc : u.passesToRequest = true → G c) :
    Effects A G E w (u.release c) := by
  rcases hn : u.pool.next_ with _ | ⟨q, rest⟩
  · rw [World.release_of_nil u c hn]
    exact h.of_side fun _ => rfl
  · rw [World.release_of_cons u c hn (hq.pending q (by simp [hn])).2]
    have hpopped : Effects A G E w { u with pool := { u.pool with
        next_ := rest
        queued := Function.update u.pool.queued q { outcome := some (.done c), tasks := [] } } } :=
      h.of_side fun _ => rfl
    refine hpopped.hand (hq.queuedOne q) hres fun r ht => hc ?_
    simp [World.passesToRequest, hn, ht]

theorem nextThen (h : Effects A G E w u) (hidle : ∀ d ∈ u.pool.available, (u.conns d).res = none)
    {t : ClientTask} (ht : t ≠ .hold → ∀ d, u.nextAvailable = some d → G d) :
    Effects A G E w (u.nextThen t) := by
  rcases u.nextThen_cases t with ⟨d, rest, hd, -, hn⟩ | ⟨-, -, hn⟩ | ⟨-, -, hn⟩ <;> rw [hn]
  · have hmem : d ∈ u.pool.available :=
      (List.dropWhile_sublist _).mem (hd ▸ List.mem_cons_self)
    have hnext : u.nextAvailable = some d := by
      rw [World.nextAvailable, List.find?_eq_head?_dropWhile_not, hd]
      rfl
    have htaken : Effects A G E w { u with pool := { u.pool with available := rest } } :=
      h.of_side fun _ => rfl
    refine htaken.hand (by simp) (hidle d hmem) fun r hr => ht ?_ d hnext
    rw [(List.cons.inj hr).1]
    simp
  · exact h.of_side fun _ => rfl
  · exact h.of_side fun _ => rfl

/-- **Settling an attempt** gives a connection to a retry. -/
theorem settleUnlessReady (h : Effects A G E w u) (hu : Steady u) (hr : r < u.completions.nresponses)
    (hG : v = .retry → ∀ d, u.nextAvailable = some d → G d) (o : Outcome Nat) :
    Effects A G E w (u.settleUnlessReady c r o v) := by
  have retried : ∀ x : World, x.conns = u.conns → x.log = u.log → x.pool = u.pool →
      v = .retry → Effects A G E w (x.nextThen (.writeRequest r)) := by
    intro x hconns hlog hpool hv
    have hx : Effects A G E w x := h.of_side fun d => by rw [World.side, hconns, hlog]; rfl
    refine hx.nextThen ?_ fun _ d hd => hG hv d ?_
    · rw [hpool, hconns]
      exact fun d hd => ((hu.exclusive.conn d).idle (.inl hd)).1
    · have hvalid : x.isValid = u.isValid := by
        funext d
        rw [World.isValid, hconns]
        rfl
      rwa [World.nextAvailable, hpool, hvalid] at hd
  rcases hu.settling.settleUnlessReady_cases (c := c) hr o v with
    ⟨-, he⟩ | ⟨-, -, n, ⟨-, o', -, he⟩ | ⟨hv, he⟩⟩ <;> rw [he]
  · exact h
  · exact h.of_side fun _ => rfl
  · exact retried _ rfl rfl rfl hv

theorem failResponse (h : Effects A G E w u) (hu : Steady u)
    (hG : v = .retry → (u.conns c).res ≠ none → ∀ d, u.nextAvailable = some d → G d) (err : Bytes) :
    Effects A G E w (u.failResponse c err v) := by
  rw [World.failResponse]
  split
  · rename_i r hr
    exact h.settleUnlessReady hu ((hu.exclusive.conn c).known r hr)
      (fun hv => hG hv (by simp [hr])) _
  · exact h

end Effects

/-! ## Which connection is available -/

namespace World

variable {w : World} {c d : ConnId}

/-- Closing a connection that is not available leaves the first valid one where it is,
though it drops what is not valid in front of it. -/
theorem nextAvailable_close (hc : c ∉ w.pool.available) :
    (w.close c).nextAvailable = w.nextAvailable := by
  have same : ∀ (x : World), (∀ e, e ≠ c → x.conns e = w.conns e) →
      w.pool.available.find? x.isValid = w.nextAvailable := by
    intro x hx
    refine List.find?_congr fun e he => ?_
    rw [isValid, isValid, hx e (ne_of_mem_of_not_mem he hc)]
  rcases hcl : (w.conns c).closed with _ | _
  · let x : World := { w with conns := update w.conns c (w.conns c).shut }
    have he : w.close c = { x with pool := w.pool.remove w.eraseEnd x.isValid c } := by
      simp [x, close, hcl, modConn, cancelTimer, remove, Conn.shut]
    have hvalid : (w.close c).isValid = x.isValid := by
      rw [he]
      rfl
    have havailable : (w.close c).pool.available =
        w.pool.available.dropWhile (fun e => !x.isValid e) := by
      rw [he]
      exact Pool.remove_available ..
    rw [nextAvailable, hvalid, havailable, List.find?_eq_head?_dropWhile_not,
      List.dropWhile_idempotent, ← List.find?_eq_head?_dropWhile_not]
    exact same x fun e he => update_of_ne he _ _
  · rw [w.close_of_closed c hcl]
    exact same _ fun e he => update_of_ne he _ _

/-- Handing on does not change what is valid. -/
theorem isValid_hand (tasks : List ClientTask) : (w.hand c tasks).isValid = w.isValid := by
  refine List.foldlRecOn (motive := fun u : World => u.isValid = w.isValid) tasks _ rfl ?_
  rintro u hu (r | _) -
  · funext d
    rw [← hu]
    by_cases hd : d = c <;>
      simp [isValid, runTask, writeRequest, extendTimer, modConn, note, hd]
  · exact hu

/-- What `next()` hands out behind a release is what it handed out before, or the
connection released. -/
theorem nextAvailable_release (hx : Exclusive w) (h : (w.release c).nextAvailable = some d) :
    w.nextAvailable = some d ∨
      d = c ∧ w.pool.next_ = [] ∧ w.nextAvailable = none ∧ w.isValid c = true := by
  rcases hn : w.pool.next_ with _ | ⟨q, rest⟩
  · rw [release_of_nil w c hn] at h
    change (w.pool.available ++ [c]).find? w.isValid = some d at h
    rw [List.find?_append] at h
    cases hnext : w.nextAvailable with
    | some e =>
      rw [nextAvailable] at hnext
      rw [hnext] at h
      exact .inl h
    | none =>
      rw [nextAvailable] at hnext
      rw [hnext, Option.none_or, List.find?_singleton] at h
      obtain ⟨hvalid, hd⟩ := Option.ite_none_right_eq_some.mp h
      exact .inr ⟨(Option.some.inj hd).symm, rfl, rfl, hvalid⟩
  · rw [release_of_cons w c hn (hx.queues.pending q (by simp [hn])).2, nextAvailable, pool_hand,
      isValid_hand] at h
    exact .inl h

theorem isValid_readDelimited (c : ConnId) (p : Point) : (w.readDelimited c p).isValid = w.isValid :=
  isValid_modConn (w := w) (c := c) (f := fun k => { k with reads := k.reads ++ [_] }) rfl rfl

/-- What `next()` hands out depends on the pool and on what is valid. -/
theorem nextAvailable_congr {w' : World} (hpool : w'.pool = w.pool) (hvalid : w'.isValid = w.isValid) :
    w'.nextAvailable = w.nextAvailable := by
  rw [nextAvailable, nextAvailable, hpool, hvalid]

end World

namespace Steady

variable {w u : World} {c : ConnId} {r : RespId}

theorem close (h : Steady w) (hc : c < w.pool.created) : Steady (w.close c) :=
  ⟨h.exclusive.close hc, by rw [World.futures_close]; exact h.settling⟩

theorem store (h : Steady w) (c : ConnId) (r : RespId) (m : Message) : Steady (w.store c r m) :=
  ⟨h.exclusive.store c r m, h.settling⟩

/-- On its way, a read handler keeps what runs start from. -/
theorem readPath (h : Steady w) (hr : (w.conns c).res = some r) (path : ReadPath c r w u) :
    Steady u := by
  induction path with
  | refl => exact h
  | timer path ih =>
    exact ⟨ih.exclusive.extendTimer (ih.exclusive.created_of_res (path.res.trans hr)), ih.settling⟩
  | parser _ _ _ path ih =>
    exact ⟨ih.exclusive.inner (ih.exclusive.created_of_res (path.res.trans hr)) rfl rfl
      (fun hs => hs) rfl (fun hw => hw), ih.settling⟩
  | store m _ _ ih => exact ih.store c r m

end Steady

namespace Effects

variable {A G E : ConnId → Prop} {w u u' : World} {c : ConnId} {r : RespId} {v : Verdict}

/-! ## Reading -/

/-- A connection is closed and its response fails. -/
theorem closeAndFail (h : Effects A G E w u) (hu : Steady u) (hc : c < u.pool.created)
    (hG : v = .retry → ∀ d, u.nextAvailable = some d → G d) (err : Bytes) :
    Effects A G E w ((u.close c).failResponse c err v) := by
  refine (h.close c).failResponse (hu.close hc) (fun hv hres d hd => hG hv d ?_) err
  rw [World.res_close] at hres
  obtain ⟨r, hr⟩ := Option.ne_none_iff_exists'.mp hres
  rwa [World.nextAvailable_close (hu.exclusive.not_idle_of_res hr).1] at hd

/-- **The end of a response**: it is cleared, and the connection may go to the request
that waits first, or to the retry of this one. -/
theorem extractNextBodyChunk (h : Effects A G E w u) (hu : Steady u)
    (hr : (u.conns c).res = some r) (hreads : (u.conns c).reads = [])
    (first : (u.side c).2 = (w.side c).2) (hE : E c)
    (hG : v = .retry → ∀ d, u.nextAvailable = some d → G d) (hR : u.regives c v = true → G c)
    (data : Bytes) : Effects A G E w (u.extractNextBodyChunk c data v) := by
  -- the response may be stored once more before it is cleared
  have cleared : ∀ x, (x = u ∨ ∃ m, x = u.store c r m) →
      Steady x ∧ x.pool = u.pool ∧ x.isValid = u.isValid ∧ (x.conns c) = (u.conns c) ∧
      Effects A G E w ((x.modConn c fun k => { k with res := none }).note (.finished c r)) := by
    have clear : ∀ {x : World}, Effects A G E w x → (x.side c).2 = (w.side c).2 →
        Effects A G E w ((x.modConn c fun k => { k with res := none }).note (.finished c r)) := by
      intro x hx hside
      refine note ?_ fun _ => rfl
      exact hx.update ((hx c).clear hE hside)
    rintro x (rfl | ⟨m, rfl⟩)
    · exact ⟨hu, rfl, rfl, rfl, clear h first⟩
    · refine ⟨hu.store c r m, rfl, rfl, rfl, clear (h.store c r m) ?_⟩
      show writtenOn c (u.log ++ [.content c r (u.completions.current r)]) = _
      rw [writtenOn_append, ← first]
      exact List.append_nil _
  have hvalid : ∀ x : World, ((x.modConn c fun k => { k with res := none }).note
      (.finished c r)).isValid = x.isValid := fun x =>
    World.isValid_modConn (w := x) (c := c) (f := fun k => { k with res := none }) rfl rfl
  refine World.extractNextBodyChunk_kept data hr ?_ ?_
  · intro x s hx
    obtain ⟨hsteady, hpool, hsame, hconn, heffects⟩ := cleared x hx
    have hclear := hsteady.exclusive.clear (hconn ▸ hr) (hconn ▸ hreads)
    have hnext : ((x.modConn c fun k => { k with res := none }).note
        (.finished c r)).nextAvailable = u.nextAvailable :=
      World.nextAvailable_congr hpool ((hvalid x).trans hsame)
    refine (heffects.settleUnlessReady ⟨hclear, hsteady.settling⟩
      ((hsteady.exclusive.conn c).known r (hconn ▸ hr)) (fun hv d hd => hG hv d ?_) _).close c
    rwa [hnext] at hd
  · intro hkept x s hx
    obtain ⟨hsteady, hpool, hsame, hconn, heffects⟩ := cleared x hx
    obtain ⟨hawaits, hfree⟩ := hsteady.exclusive.clearRead (hconn ▸ hr) (hconn ▸ hreads)
    have hreleased := hsteady.exclusive.releaseRead (hconn ▸ hr) (hconn ▸ hreads)
    have hawait : Effects A G E w (((x.modConn c fun k => { k with res := none }).note
        (.finished c r)).handleResponse c) := heffects.readDelimited c .status
    have hvalid' : (((x.modConn c fun k => { k with res := none }).note
        (.finished c r)).handleResponse c).isValid = u.isValid :=
      (World.isValid_readDelimited c .status).trans ((hvalid x).trans hsame)
    have hpool' : (((x.modConn c fun k => { k with res := none }).note
        (.finished c r)).handleResponse c).pool = u.pool := hpool
    have hsettling : Settling (((x.modConn c fun k => { k with res := none }).note
        (.finished c r)).handleResponse c).futures := hsteady.settling
    have hknown : r < (((x.modConn c fun k => { k with res := none }).note
        (.finished c r)).handleResponse c).completions.nresponses :=
      (hsteady.exclusive.conn c).known r (hconn ▸ hr)
    generalize ((x.modConn c fun k => { k with res := none }).note (.finished c r)).handleResponse
      c = z at *
    have hfutures : (z.release c).futures = z.futures :=
      World.futures_release z c fun q hq => (hawaits.queues.pending q hq).2
    refine (hawait.release hawaits.queues hfree.res fun hpass => hR ?_).settleUnlessReady
      ⟨hreleased, hfutures ▸ hsettling⟩ ?_ (fun hv d hd => ?_) _
    · have hpasses : u.passesToRequest = true := by
        rwa [World.passesToRequest, hpool'] at hpass
      rw [World.regives, hkept, hpasses]
      rfl
    · rwa [show (z.release c).completions = z.completions from congrArg Prod.fst hfutures]
    · obtain hd | ⟨rfl, hn, hnone, hv'⟩ := World.nextAvailable_release hawaits hd
      · exact hG hv d (by rwa [World.nextAvailable_congr (w := u) hpool' hvalid'] at hd)
      · rw [World.nextAvailable_congr (w := u) hpool' hvalid'] at hnone
        rw [hpool'] at hn
        rw [hvalid'] at hv'
        exact hR (by simp [World.regives, hkept, hv, hn, hnone, hv'])

/-- On its way, a read handler arms the timer of its connection. -/
theorem readPath (hA : A c) (path : ReadPath c r w u) :
    Effects A G E w u ∧ writtenOn c u.log = writtenOn c w.log := by
  induction path with
  | refl => exact ⟨.refl w, rfl⟩
  | timer _ ih => exact ⟨ih.1.extendTimer hA, ih.2⟩
  | parser _ _ _ _ ih => exact ⟨ih.1.inner rfl rfl rfl rfl rfl, ih.2⟩
  | store m _ _ ih =>
    refine ⟨ih.1.store c r m, ?_⟩
    show writtenOn c (_ ++ [_]) = _
    rw [writtenOn_append, ih.2]
    exact List.append_nil _

theorem readTurn {ends : Prop} (hw : Steady w) (hr : (w.conns c).res = some r)
    (hreads : (w.conns c).reads = []) (hA : A c) (hE : ends → E c)
    (hG : v = .retry → ∀ d, w.nextAvailable = some d → G d)
    (hR : ends → w.regives c v = true → G c) (turn : ReadTurn c r v ends w u') :
    Effects A G E w u' := by
  obtain ⟨u, path, hend⟩ := turn
  have hu := hw.readPath hr path
  obtain ⟨h, hwritten⟩ := readPath (A := A) (G := G) (E := E) hA path
  have hnext : u.nextAvailable = w.nextAvailable :=
    World.nextAvailable_congr path.pool.1 path.isValid
  have hG' : v = .retry → ∀ d, u.nextAvailable = some d → G d := hnext ▸ hG
  cases hend with
  | idle => exact h
  | waits op => exact h.inner rfl rfl rfl rfl rfl
  | line m => exact (h.store c r m).readDelimited c .header
  | escaped e => exact h.escape c e
  | givenUp err =>
    exact h.closeAndFail hu (hu.exclusive.created_of_res (path.res.trans hr)) hG' err
  | finished data hends =>
    refine h.extractNextBodyChunk hu (path.res.trans hr) (path.reads.trans hreads) hwritten
      (hE hends) hG' (fun hgives => hR hends ?_) data
    have hkeeps : u.keepsConnection c = w.keepsConnection c := by
      simp only [World.keepsConnection, path.res, hr, path.wantsClose]
    rwa [World.regives, hkeeps, World.passesToRequest, path.pool.1, hnext, path.isValid] at hgives

/-! ## The handlers -/

/-- **The handler of a completed read.** -/
theorem finishRead (hw : Steady w) (hc : c < w.pool.created) (op : ReadOp)
    (hreads : (w.conns c).reads = []) (hpoint : op.point ≠ .status → (w.conns c).res ≠ none)
    (result : Except Bytes Nat)
    (hA : ∀ pos, result = .ok pos → op.point ≠ .status ∨ (w.conns c).res.isSome → A c)
    (hE : ∀ pos, result = .ok pos → w.endsResponse c op.point op.wanted pos = true → E c)
    (hG : v = .retry → ∀ d, w.nextAvailable = some d → G d)
    (hR : ∀ pos, result = .ok pos → w.endsResponse c op.point op.wanted pos = true →
      w.regives c v = true → G c) : Effects A G E w (w.finishRead c op result v) := by
  cases result with
  | error err =>
    simp only [World.finishRead]
    split
    · exact (refl w).closeAndFail hw hc hG _
    · exact (refl w).close c
  | ok pos =>
    by_cases hp : op.point = .status
    · obtain ⟨input, hcases⟩ := World.finishRead_status (w := w) (c := c) (v := v) op pos hp
      have hu : Effects A G E w (w.modConn c fun k => { k with input := input }) :=
        (refl w).inner rfl rfl rfl rfl rfl
      rcases hcases with he | ⟨-, he⟩ | ⟨r, parsed, hr, ⟨e, -, he⟩ | ⟨-, he⟩⟩ <;> rw [he]
      · exact hu
      · exact hu.close c
      · have hA := hA pos rfl (.inr (by simp [hr]))
        exact ((hu.extendTimer hA).storeStatus c r parsed).escape c e
      · have hA := hA pos rfl (.inr (by simp [hr]))
        exact ((hu.extendTimer hA).storeStatus c r parsed).readDelimited c .header
    · obtain ⟨r, hr⟩ := Option.ne_none_iff_exists'.mp (hpoint hp)
      exact readTurn hw hr hreads (hA pos rfl (.inl hp)) (hE pos rfl) hG (hR pos rfl)
        (World.finishRead_turn op pos hp hr)

/-- The handler of a completed write. -/
theorem finishWrite (hw : Steady w) (result : Except Bytes Unit)
    (hA : result = .ok () → A c) (hG : v = .retry → ∀ d, w.nextAvailable = some d → G d) :
    Effects A G E w (w.finishWrite c result v) := by
  cases result with
  | ok => exact (refl w).extendTimer (hA rfl)
  | error err =>
    simp only [World.finishWrite]
    split
    · exact (refl w).of_side fun _ => rfl
    · rename_i r hr
      exact ((refl w).settleUnlessReady hw ((hw.exclusive.conn c).known r hr) hG _).close c

/-- The handler of a wait. -/
theorem finishWait (hw : Steady w) (hc : c < w.pool.created) (t : Wait)
    (hG : v = .retry → ∀ d, w.nextAvailable = some d → G d) :
    Effects A G E w (w.finishWait c t v) := by
  simp only [World.finishWait]
  split
  · have hcancelled : Steady (w.cancelTimer c) :=
      ⟨hw.exclusive.inner hc rfl rfl (fun hs => hs) rfl (fun hk => hk), hw.settling⟩
    have hnext : (w.cancelTimer c).nextAvailable = w.nextAvailable :=
      World.nextAvailable_congr rfl (World.isValid_modConn (w := w) (c := c)
        (f := fun k => { k with waits := k.waits.map Wait.cancel }) rfl rfl)
    exact ((refl w).cancelTimer c).closeAndFail hcancelled hc (hnext ▸ hG) _
  · exact refl w

/-- **A connection is established**, and given to whoever waits for it. -/
theorem ready (hw : Steady w) (ho : (w.pool.opened c).outcome = none) (hA : A c) (hG : G c) :
    Effects A G E w (w.ready c) := by
  have h : Effects A G E w ((w.extendTimer c).handleResponse c) :=
    ((refl w).extendTimer hA).readDelimited c .status
  have hres : (((w.extendTimer c).handleResponse c).conns c).res = none := by
    simp [World.handleResponse, World.readDelimited, World.modConn, World.conns_extendTimer,
      ((hw.exclusive.conn c).opening ho).1]
  have hq : Queues ((w.extendTimer c).handleResponse c).pool
      ((w.extendTimer c).handleResponse c).completions.nresponses := hw.exclusive.queues
  have ho' : ((((w.extendTimer c).handleResponse c).pool.opened c).outcome = none) := ho
  rw [World.ready]
  generalize (w.extendTimer c).handleResponse c = u at *
  have hdone : Effects A G E w { u with pool := { u.pool with
      opened := Function.update u.pool.opened c { outcome := some (.done c), tasks := [] } } } :=
    h.of_side fun _ => rfl
  rcases u.settleOpened_cases c ho' (hq.openedOne c) with ⟨-, he⟩ | ⟨t, -, he⟩ | ⟨-, he⟩ <;> rw [he]
  · exact hdone
  · exact hdone.hand (by simp) hres fun _ _ => hG
  · exact hdone.release (hq.setOpened c { outcome := some (.done c), tasks := [] } (by simp)
      (by simp) rfl rfl rfl rfl) hres fun _ => hG

theorem finishSetup (hw : Steady w) (ho : (w.pool.opened c).outcome = none) (stage : Stage)
    (result : Except Bytes Unit)
    (hA : stage ≠ .resolve → result = .ok () → A c)
    (hG : stage ≠ .resolve → result = .ok () → G c) :
    Effects A G E w (w.finishSetup c stage result) := by
  cases result with
  | error err => exact (refl w).close c
  | ok =>
    cases stage with
    | resolve =>
      exact (refl w).inner (f := fun k => { k with setup := some { stage := .connect } })
        rfl rfl rfl rfl rfl
    | connect =>
      have hA := hA (by simp) rfl
      simp only [World.finishSetup]
      split
      · exact ((refl w).extendTimer hA).inner rfl rfl rfl rfl rfl
      · exact ready hw ho hA (hG (by simp) rfl)
    | handshake => exact ready hw ho (hA (by simp) rfl) (hG (by simp) rfl)

theorem request (hw : Steady w) (hG : ∀ d, w.nextAvailable = some d → G d) (q : Request)
    (stall : Nat) : Effects A G E w (w.request q stall) := by
  have hnew : Effects A G E w { w with
      completions := w.completions.create.1
      responses := Function.update w.responses w.completions.create.2
        { request := q, stallTimeout := stall }
      sources := Function.update w.sources w.completions.create.2 []
      statusFrom := Function.update w.statusFrom w.completions.create.2 none } :=
    (refl w).of_side fun _ => rfl
  refine hnew.nextThen ?_ fun _ d hd => hG d hd
  exact fun d hd => ((hw.exclusive.conn d).idle (.inl hd)).1

end Effects

/-! ## The step -/

theorem modify_of_getElem? {α : Type*} {l : List α} {i : Nat} {a : α} (h : l[i]? = some a)
    (f : α → α) : l.modify i f = l.set i (f a) := by
  refine List.ext_getElem? fun j => ?_
  rw [List.getElem?_modify, List.getElem?_set]
  obtain ⟨hi, ha⟩ := List.getElem?_eq_some_iff.mp h
  by_cases hj : i = j
  · subst hj
    simp [hi, ha]
  · simp [hj]

namespace World

variable {w w' : World} {c : ConnId} {i : Nat} {v : Verdict}

theorem conns_modConn_apply (w : World) (c d : ConnId) (f : Conn → Conn) :
    (w.modConn c f).conns d = if d = c then f (w.conns d) else w.conns d := by
  rw [conns_modConn]
  by_cases hd : d = c
  · subst hd
    simp
  · simp [hd]

/-- Taking an operation off leaves the pool alone, and what is valid. -/
theorem before_pool (e : Event) : (w.before e).pool = w.pool ∧ (w.before e).isValid = w.isValid := by
  cases e with
  | runSetup c => exact ⟨rfl, isValid_modConn (f := fun k => { k with setup := none }) rfl rfl⟩
  | runRead c i v =>
    exact ⟨rfl, isValid_modConn (f := fun k => { k with reads := k.reads.eraseIdx i }) rfl rfl⟩
  | writeDone c i result =>
    exact ⟨rfl, isValid_modConn (f := fun k => { k with
      writes := k.writes.modify i fun op => { op with result := some result } }) rfl rfl⟩
  | runWrite c i v =>
    exact ⟨rfl, isValid_modConn (f := fun k => { k with writes := k.writes.eraseIdx i }) rfl rfl⟩
  | expire c i =>
    exact ⟨rfl, isValid_modConn (f := fun k => { k with
      waits := k.waits.modify i fun t => { t with status := .expired } }) rfl rfl⟩
  | runWait c i v =>
    exact ⟨rfl, isValid_modConn (f := fun k => { k with waits := k.waits.eraseIdx i }) rfl rfl⟩
  | _ => exact ⟨rfl, rfl⟩

/-- Taking an operation off closes no connection, and leaves its response alone. -/
theorem res_before (w : World) (e : Event) (c : ConnId) :
    ((w.before e).conns c).res = (w.conns c).res ∧
      ((w.before e).conns c).closed = (w.conns c).closed := by
  cases e with
  | runSetup | runRead | writeDone | runWrite | expire | runWait =>
    simp only [before, conns_modConn_apply]
    split <;> exact ⟨rfl, rfl⟩
  | _ => exact ⟨rfl, rfl⟩

/-- Only the events of its waits change the waits of a connection. -/
theorem waits_before {e : Event} (hexpire : ∀ i, e ≠ .expire c i)
    (hrun : ∀ i v, e ≠ .runWait c i v) :
    ((w.before e).conns c).waits = (w.conns c).waits := by
  cases e with
  | expire d i =>
    have hne : c ≠ d := fun h => hexpire i (h ▸ rfl)
    rw [before, conns_modConn_apply, if_neg hne]
  | runWait d i v =>
    have hne : c ≠ d := fun h => hrun i v (h ▸ rfl)
    rw [before, conns_modConn_apply, if_neg hne]
  | runSetup | runRead | writeDone | runWrite =>
    simp only [before, conns_modConn_apply]
    split <;> rfl
  | _ => rfl

/-- Only the events of its writes change the writes of a connection. -/
theorem writes_before {e : Event} (hdone : ∀ i result, e ≠ .writeDone c i result)
    (hrun : ∀ i v, e ≠ .runWrite c i v) :
    ((w.before e).conns c).writes = (w.conns c).writes := by
  cases e with
  | writeDone d i result =>
    have hne : c ≠ d := fun h => hdone i result (h ▸ rfl)
    rw [before, conns_modConn_apply, if_neg hne]
  | runWrite d i v =>
    have hne : c ≠ d := fun h => hrun i v (h ▸ rfl)
    rw [before, conns_modConn_apply, if_neg hne]
  | runSetup | runRead | expire | runWait =>
    simp only [before, conns_modConn_apply]
    split <;> rfl
  | _ => rfl

theorem mem_retried {d : ConnId} (hv : v = .retry) (hd : w.nextAvailable = some d) :
    d ∈ w.retried v := by
  rw [hv, retried, hd]
  exact List.mem_singleton_self d

/-- The next connection to be handed out does not depend on the operations. -/
theorem nextAvailable_before (w : World) (e : Event) :
    (w.before e).nextAvailable = w.nextAvailable :=
  nextAvailable_congr (before_pool e).1 (before_pool e).2

/-- Nor does the end of a response, or whether the connection is given on. -/
theorem endsResponse_before (p : Point) (wanted : Option Nat) (pos : Nat) :
    (w.before (.runRead c i v)).endsResponse c p wanted pos = w.endsResponse c p wanted pos := by
  simp only [before, endsResponse, modConn, update_self]

theorem regives_before : (w.before (.runRead c i v)).regives c v = w.regives c v := by
  have hkeeps : (w.before (.runRead c i v)).keepsConnection c = w.keepsConnection c := by
    simp only [keepsConnection, before, modConn, update_self]
  obtain ⟨hpool, hvalid⟩ := before_pool (w := w) (.runRead c i v)
  rw [regives, regives, passesToRequest, passesToRequest, hkeeps, nextAvailable_before, hpool,
    hvalid]

/-- The handler of a read arms, hands out and ends what the sets say. -/
theorem runRead_effects (hw : Steady w) {op : ReadOp} {result : Except Bytes Nat}
    (hop : (w.conns c).reads[i]? = some op) (hresult : op.result = some result) :
    Effects (· ∈ w.arms (.runRead c i v)) (· ∈ w.handsTo (.runRead c i v))
      (· ∈ w.ends (.runRead c i v)) (w.before (.runRead c i v))
      ((w.before (.runRead c i v)).finishRead c op result v) := by
  have hx := hw.exclusive
  obtain ⟨hx', hreads, hpoint⟩ := hx.beforeRead hop
  obtain ⟨p, wanted, done⟩ := op
  obtain rfl : done = some result := hresult
  have hends : ∀ pos, result = .ok pos →
      (w.before (.runRead c i v)).endsResponse c p wanted pos = true →
      c ∈ w.ends (.runRead c i v) := by
    rintro pos rfl hends
    rw [endsResponse_before] at hends
    simp [ends, hop, hends]
  refine Effects.finishRead ⟨hx', hw.settling⟩ (hx.created_of_reads hop) _ hreads hpoint result
    ?_ hends ?_ ?_
  · rintro pos rfl harms
    simp only [modConn, update_self] at harms
    simp [arms, hop, harms]
  · intro hv d hd
    have hnext := nextAvailable_before w (.runRead c i v)
    exact List.mem_append_left _ (mem_retried hv (hnext ▸ hd))
  · intro pos hpos hend hgives
    refine List.mem_append_right _ ?_
    rw [if_pos ⟨hends pos hpos hend, regives_before ▸ hgives⟩]
    exact List.mem_singleton_self c

/-- **What a step does to a connection** is what `arms`, `handsTo` and `ends` allow. -/
theorem step_effects {e : Event} (hw : Steady w) (hstep : w.step e = some w') :
    Effects (· ∈ w.arms e) (· ∈ w.handsTo e) (· ∈ w.ends e) (w.before e) w' := by
  obtain ⟨-, hstep⟩ := World.step_eq_some hstep
  have hx := hw.exclusive
  have hnext := nextAvailable_before w e
  cases e with
  | request q stall =>
    cases hstep
    exact Effects.request hw (fun d hd => by simp [handsTo, hd]) q stall
  | next =>
    cases hstep
    refine (Effects.refl w).nextThen ?_ (by simp)
    exact fun d hd => ((hx.conn d).idle (.inl hd)).1
  | release c =>
    obtain ⟨hc, rfl⟩ := World.release_inv hstep
    have hheld : Effects (· ∈ w.arms (.release c)) (· ∈ w.handsTo (.release c))
        (· ∈ w.ends (.release c)) w { w with held := w.held.erase c } :=
      (Effects.refl w).of_side fun _ => rfl
    refine hheld.release hx.queues ((hx.conn c).idle (.inr hc)).1 fun hpass => ?_
    have hpass : w.passesToRequest = true := hpass
    simp [handsTo, hpass]
  | close c =>
    obtain ⟨-, -, rfl⟩ := World.close_inv hstep
    exact (Effects.refl w).close c
  | remove c =>
    obtain ⟨-, rfl⟩ := World.remove_inv hstep
    exact (Effects.refl w).of_side fun _ => rfl
  | maxConnections n =>
    cases hstep
    exact (Effects.refl w).of_side fun _ => rfl
  | limitConnections b =>
    cases hstep
    exact (Effects.refl w).of_side fun _ => rfl
  | setupDone c result =>
    obtain ⟨stage, -, -, -, rfl⟩ := World.setupDone_inv hstep
    exact (Effects.refl w).inner (f := fun k => { k with setup := some ⟨stage, some result⟩ })
      rfl rfl rfl rfl rfl
  | runSetup c =>
    obtain ⟨stage, result, hs, rfl⟩ := World.runSetup_inv hstep
    obtain ⟨hx', ho, -⟩ := hx.beforeSetup hs (hx.created_of_setup hs)
    have hallowed : stage ≠ .resolve → result = .ok () → c ∈ w.arms (.runSetup c) ∧
        c ∈ w.handsTo (.runSetup c) := by
      rintro hstage rfl
      cases stage with
      | resolve => exact absurd rfl hstage
      | connect => simp [arms, handsTo, hs]
      | handshake => simp [arms, handsTo, hs]
    exact Effects.finishSetup ⟨hx', hw.settling⟩ ho stage result (fun h h' => (hallowed h h').1)
      fun h h' => (hallowed h h').2
  | receive c i bytes =>
    obtain ⟨op, -, -, -, -, rfl⟩ := World.receive_inv hstep
    exact (Effects.refl w).inner rfl rfl rfl rfl rfl
  | readFails c i err =>
    obtain ⟨op, -, -, rfl⟩ := World.readFails_inv hstep
    exact (Effects.refl w).inner rfl rfl rfl rfl rfl
  | runRead c i v =>
    obtain ⟨op, result, hop, hresult, rfl⟩ := World.runRead_inv hstep
    exact runRead_effects hw hop hresult
  | writeDone c i result =>
    obtain ⟨op, hop, -, -, rfl⟩ := World.writeDone_inv hstep
    simp only [before, modConn, modify_of_getElem? hop]
    exact Effects.refl _
  | runWrite c i v =>
    obtain ⟨op, result, hop, hresult, rfl⟩ := World.runWrite_inv hstep
    refine Effects.finishWrite ⟨hx.beforeWrite hop, hw.settling⟩ result ?_ ?_
    · rintro rfl
      obtain ⟨data, done⟩ := op
      obtain rfl : done = some (.ok ()) := hresult
      simp [arms, hop]
    · exact fun hv d hd => mem_retried hv (hnext ▸ hd)
  | expire c i =>
    obtain ⟨t, ht, -, rfl⟩ := World.expire_inv hstep
    simp only [before, modConn, modify_of_getElem? ht]
    exact Effects.refl _
  | runWait c i v =>
    obtain ⟨t, ht, -, rfl⟩ := World.runWait_inv hstep
    exact Effects.finishWait ⟨hx.beforeWait ht, hw.settling⟩ (hx.created_of_waits ht) t
      fun hv d hd => mem_retried hv (hnext ▸ hd)

end World

end AsioProtocols
