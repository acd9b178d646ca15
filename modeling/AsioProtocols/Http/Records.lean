import AsioProtocols.Http.Handlers

/-!
# What handing on and settling do to the records

Handing a connection on, releasing it, settling an attempt and retrying it touch the
records of connections in one way only: `write_request` gives a record a response to
carry. So a property of records that `Conn.carrying` keeps is kept by all of them
(`Everywhere.hand` to `Everywhere.failResponse`), and one that `Conn.shut` keeps too is
kept by closing.

A property may also ask whether an exception has left a read handler of the connection
(`World.broken`), which none of these functions changes.
-/

namespace AsioProtocols

open Function

/-- An exception has left a read handler of `c`. -/
def World.broken (w : World) (c : ConnId) : Bool :=
  w.log.any fun n => match n with
    | .escaped d _ => d == c
    | _ => false

/-- A property of the record of every connection. -/
def Everywhere (P : ConnId → Bool → Conn → Prop) (w : World) : Prop :=
  ∀ d, P d (w.broken d) (w.conns d)

/-- A response to carry does not spoil the property. -/
def KeptCarrying (P : ConnId → Bool → Conn → Prop) : Prop :=
  ∀ d b k, P d b k → ∀ r a stall data, P d b (k.carrying r a stall data)

/-- Closing does not spoil it. -/
structure KeptShut (P : ConnId → Bool → Conn → Prop) : Prop where
  shut : ∀ {d b k}, P d b k → P d b k.shut
  invalid : ∀ {d b k}, P d b k → P d b { k with valid := false }

namespace World

variable (w : World) (c : ConnId)

theorem writeRequest_eq (r : RespId) : w.writeRequest c r =
    { w with
        conns := update w.conns c ((w.conns c).carrying r (w.completions.current r)
          (w.responses r).stallTimeout (w.responses r).request.bytes)
        log := w.log ++ [.assigned c r (w.completions.current r) (w.conns c).res] } := by
  simp [writeRequest, extendTimer, stallTarget, modConn, note, Conn.carrying]

theorem broken_note {n : Note} (hn : ∀ d e, n ≠ .escaped d e) : (w.note n).broken = w.broken := by
  funext d
  cases n with
  | escaped d' e => exact absurd rfl (hn d' e)
  | _ => simp [broken, note]

theorem broken_escape (e : Exn) (d : ConnId) :
    (w.escape c e).broken d = (w.broken d || c == d) := by
  simp [broken, escape, note]

end World

namespace Everywhere

variable {P : ConnId → Bool → Conn → Prop} {w : World} {c : ConnId}

theorem update (h : Everywhere P w) {k : Conn} (hk : P c (w.broken c) k) :
    Everywhere P { w with conns := Function.update w.conns c k } := by
  intro d
  show P d (w.broken d) (Function.update w.conns c k d)
  rcases eq_or_ne d c with rfl | hne
  · rw [update_self]
    exact hk
  · rw [update_of_ne hne]
    exact h d

theorem note (h : Everywhere P w) {n : Note} (hn : ∀ d e, n ≠ .escaped d e) :
    Everywhere P (w.note n) := by
  intro d
  rw [World.broken_note w hn]
  exact h d

theorem store (h : Everywhere P w) (c : ConnId) (r : RespId) (m : Message) :
    Everywhere P (w.store c r m) :=
  h.note (n := .content c r (w.completions.current r)) (by simp)

theorem storeStatus (h : Everywhere P w) (c : ConnId) (r : RespId)
    (parsed : Response × Option Exn) : Everywhere P (w.storeStatus c r parsed) :=
  h.note (n := .content c r (w.completions.current r)) (by simp)

theorem hand (hP : KeptCarrying P) (h : Everywhere P w) (c : ConnId) (tasks : List ClientTask) :
    Everywhere P (w.hand c tasks) := by
  refine List.foldlRecOn (motive := Everywhere P) tasks _ (h.note (by simp)) ?_
  rintro u hu (r | _) -
  · have hgiven := hu.update (hP c _ _ (hu c) r (u.completions.current r) (u.responses r).stallTimeout
      (u.responses r).request.bytes)
    show Everywhere P (u.writeRequest c r)
    rw [World.writeRequest_eq]
    exact hgiven.note (n := .assigned c r (u.completions.current r) (u.conns c).res) (by simp)
  · exact hu

theorem release (hP : KeptCarrying P) (h : Everywhere P w) (c : ConnId) :
    Everywhere P (w.release c) := by
  unfold World.release
  split
  · exact h
  · unfold World.settleQueued
    split
    · exact h
    · refine hand hP ?_ c _
      exact h

theorem nextThen (hP : KeptCarrying P) (h : Everywhere P w) (t : ClientTask) :
    Everywhere P (w.nextThen t) := by
  rcases w.nextThen_cases t with ⟨d, rest, -, -, hn⟩ | ⟨-, -, hn⟩ | ⟨-, -, hn⟩ <;> rw [hn]
  · exact hand (w := { w with pool := { w.pool with available := rest } }) hP h d _
  · exact h
  · exact h

theorem settleOpened (hP : KeptCarrying P) (h : Everywhere P w) (c : ConnId) :
    Everywhere P (w.settleOpened c) := by
  unfold World.settleOpened
  split
  · exact h
  · refine List.foldlRecOn (motive := Everywhere P) _ _ h ?_
    rintro u hu (t | _) -
    · exact hand hP hu c _
    · exact release hP hu c

theorem settleUnlessReady (hP : KeptCarrying P) (h : Everywhere P w) (c : ConnId) (r : RespId)
    (o : Outcome Nat) (v : Verdict) : Everywhere P (w.settleUnlessReady c r o v) := by
  refine w.settleUnlessReady_preserves c r o v h h ?_
  rintro u ⟨s, n⟩ - hu
  refine u.completionHandler_cases (P := Everywhere P) _ o v s n (fun _ _ _ _ => hu)
    (fun _ => hu) fun _ => ?_
  refine nextThen hP ?_ _
  exact hu

theorem failResponse (hP : KeptCarrying P) (h : Everywhere P w) (c : ConnId) (err : Bytes)
    (v : Verdict) : Everywhere P (w.failResponse c err v) := by
  rw [World.failResponse]
  split
  · exact settleUnlessReady hP h c _ _ v
  · exact h

theorem request (hP : KeptCarrying P) (h : Everywhere P w) (q : Request) (stall : Nat) :
    Everywhere P (w.request q stall) :=
  nextThen (w := { w with
    completions := w.completions.create.1
    responses := Function.update w.responses w.completions.create.2
      { request := q, stallTimeout := stall }
    sources := Function.update w.sources w.completions.create.2 []
    statusFrom := Function.update w.statusFrom w.completions.create.2 none }) hP h _

theorem close (hP : KeptShut P) (h : Everywhere P w) (c : ConnId) : Everywhere P (w.close c) := by
  rcases hcl : (w.conns c).closed with _ | _
  · obtain ⟨valid, he⟩ := w.close_of_open c hcl
    rw [he]
    exact h.update (hP.shut (h c))
  · rw [w.close_of_closed c hcl]
    exact h.update (hP.invalid (h c))

end Everywhere

end AsioProtocols
