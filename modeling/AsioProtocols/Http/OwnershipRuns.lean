import AsioProtocols.Http.Ownership

/-!
# Attempts belong to connections in every run

The handlers keep the invariant of `Http/Ownership.lean`, so every run does in
which retries are quiet. Settling an attempt replaces the current attempt of its
response on a retry; the connection it was assigned to, which is the only one
that carried the attempt, is quiet by then, or has no `res_`, or is the exempted
one.
-/

namespace AsioProtocols

open Function

/-- `close()` on a connection with nothing else to run makes it quiet. -/
theorem World.quiet_close {w : World} {c : ConnId} (hspent : (w.conns c).spent = true)
    (hcancelled : (w.conns c).cancelled = true) : ((w.close c).conns c).Quiet := by
  simp only [Conn.spent, Bool.and_eq_true, List.isEmpty_iff, List.all_eq_true, bne_iff_ne,
    ne_eq] at hspent
  obtain ⟨⟨hwrites, hreads⟩, hwaits⟩ := hspent
  rcases hcl : (w.conns c).closed with _ | _
  · obtain ⟨valid, he⟩ := w.close_of_open c hcl
    rw [he]
    show Conn.Quiet (update w.conns c _ c)
    rw [update_self]
    refine ⟨rfl, hwrites, hreads, ?_⟩
    intro t ht
    obtain ⟨t', ht', rfl⟩ := List.mem_map.mp ht
    have := hwaits t' ht'
    rcases hs : t'.status with _ | _ | _ <;> simp_all [Wait.cancel]
  · rw [w.close_of_closed c hcl]
    show Conn.Quiet (update w.conns c _ c)
    rw [update_self]
    refine ⟨hcl, hwrites, hreads, ?_⟩
    intro t ht
    simp only [Conn.cancelled, hcl, Bool.not_true, Bool.false_or, List.all_eq_true,
      beq_iff_eq] at hcancelled
    exact hcancelled t ht

/-- Settling without a retry keeps the current attempts. -/
theorem Settling.current_settleUnlessReady {w : World} {c : ConnId} (h : Settling w.futures)
    {r : RespId} (hr : r < w.completions.nresponses) {o : Outcome Nat} {v : Verdict}
    (hv : v = .retry → (w.completions.attempts (w.completions.current r)).outcome ≠ none) :
    (w.settleUnlessReady c r o v).completions.current = w.completions.current := by
  rcases h.settleUnlessReady_cases (c := c) hr o v with
    ⟨-, he⟩ | ⟨hp, -, n, ⟨-, o', -, he⟩ | ⟨hretry, -⟩⟩
  · rw [he]
  · rw [he]
  · exact absurd hp (hv hretry)

/-- The attempt of `r` is settled with `o`, and the next one waits for a connection. -/
def World.reattempted (w : World) (c : ConnId) (r : RespId) (o : Outcome Nat) (n : Nat)
    (v : Verdict) : World :=
  { w with
    completions := { w.completions with
      attempts := update (update w.completions.attempts (w.completions.current r)
        { outcome := some o, tasks := [] }) w.completions.nattempts { tasks := [(r, n + 1)] }
      nattempts := w.completions.nattempts + 1
      current := update w.completions.current r w.completions.nattempts
      history := w.completions.history ++ [.settled c r (w.completions.current r)] ++
        [.asked r (w.completions.current r) n v] }
    responses := update w.responses r (w.responses r).reset
    sources := update w.sources r [] }

theorem World.current_reattempted {w : World} {c : ConnId} {r : RespId} {o : Outcome Nat} {n : Nat}
    {v : Verdict} (s : RespId) : (w.reattempted c r o n v).completions.current s =
      if s = r then w.completions.nattempts else w.completions.current s :=
  update_apply _ _ _ _

namespace Ledger

variable {w : World} {c : ConnId} {r : RespId}

/-- No connection has an attempt that has not been made. -/
theorem fresh (h : Ledger w) (d : ConnId) (s : RespId) :
    ¬ w.Assigned d s w.completions.nattempts :=
  fun ha => Nat.lt_irrefl _ (h.made d s _ ha).1

/-- A response whose attempt was assigned is not on its way to a connection. -/
theorem not_holds (h : Ledger w) (hass : w.Assigned c r (w.completions.current r)) (place : QueueId ⊕ FutId) :
    ¬ w.pool.holds r place :=
  fun hp => h.first r place hp c r hass

/-- **The ledger behind a retry.** -/
theorem reattempted (h : Ledger w) (hass : w.Assigned c r (w.completions.current r))
    (hpending : w.completions.completion r = none) (o : Outcome Nat) (n : Nat) (v : Verdict) :
    Ledger (w.reattempted c r o n v) := by
  refine ⟨?_, h.content, ?_, ?_, h.unique, ?_, h.once, ?_, ?_⟩
  · intro d s a hd
    simp only [World.reattempted, List.mem_append, List.mem_singleton, reduceCtorEq, or_false,
      Deed.settled.injEq] at hd
    rcases hd with hd | ⟨rfl, rfl, rfl⟩
    · exact h.settled d s a hd
    · exact hass
  · intro d s a ha
    exact ⟨Nat.lt_succ_of_lt (h.made d s a ha).1, (h.made d s a ha).2⟩
  · intro d s a ha t ht hcurrent
    rw [World.current_reattempted] at hcurrent
    split at hcurrent
    · exact absurd (hcurrent ▸ ha) (h.fresh d s)
    · exact h.own d s a ha t ht hcurrent
  · intro s place hp d t ha
    rw [World.current_reattempted] at ha
    split at ha
    · rename_i heq
      exact h.not_holds hass place (heq ▸ hp)
    · exact h.first s place hp d t ha
  · intro s d hd
    change d ∈ update w.sources r [] s at hd
    rw [World.current_reattempted]
    split
    · rename_i heq
      rw [heq, update_self] at hd
      cases hd
    · rename_i hne
      rw [update_of_ne hne] at hd
      exact h.sources s d hd
  · intro s code hcode
    have hne : s ≠ r := by
      rintro rfl
      exact Option.some_ne_none _ (hcode.symm.trans hpending)
    rw [World.current_reattempted, if_neg hne]
    exact h.done s code hcode

end Ledger

namespace Own

variable {w : World} {c : ConnId} {x : Option ConnId}

/-- The exempted connection satisfies the invariant again. -/
theorem unexempt (h : Own (some c) w) (hc : ∀ r, (w.conns c).res = some r →
    (w.conns c).attempt = some (w.completions.current r) ∨ (w.conns c).Quiet) : Own none w := by
  refine ⟨h.ledger, fun d => ⟨(h.conn d).assigned, ?_, (h.conn d).status⟩⟩
  intro r hr _
  by_cases hd : d = c
  · subst hd
    exact hc r hr
  · exact (h.conn d).current r hr fun he => hd (Option.some.inj he)

/-- **`close()`** -/
theorem close (h : Own x w) (d : ConnId) : Own x (w.close d) := by
  rcases hcl : (w.conns d).closed with _ | _
  · obtain ⟨valid, he⟩ := w.close_of_open d hcl
    rw [he]
    refine (h.inner (k := (w.conns d).shut) rfl rfl (fun op hop => ⟨op, hop, rfl⟩) ?_).remove
      w.eraseEnd valid d
    intro hq
    rw [hq.closed] at hcl
    cases hcl
  · rw [w.close_of_closed d hcl]
    exact h.inner rfl rfl (fun op hop => ⟨op, hop, rfl⟩) fun hq =>
      ⟨hq.closed, hq.writes, hq.reads, hq.waits⟩

/-! ## Settling -/

/-- Settling an attempt and `completion()` with it. -/
theorem completed (h : Own x w) {r : RespId} (hass : w.Assigned c r (w.completions.current r))
    {o o' : Outcome Nat} {n : Nat} {v : Verdict}
    (hdone : ∀ code, o' = .done code → w.statusFrom r = some c) :
    Own x { w with completions := { w.completions with
      attempts := Function.update w.completions.attempts (w.completions.current r)
        { outcome := some o, tasks := [] }
      completion := Function.update w.completions.completion r (some o')
      history := w.completions.history ++ [.settled c r (w.completions.current r)] ++
        [.asked r (w.completions.current r) n v] ++
        [.completed r (w.completions.current r)] } } := by
  refine ⟨⟨?_, h.ledger.content, h.ledger.made, h.ledger.own, h.ledger.unique, h.ledger.first,
    h.ledger.once, h.ledger.sources, ?_⟩,
    fun d => ⟨(h.conn d).assigned, (h.conn d).current, (h.conn d).status⟩⟩
  · intro d s a hd
    simp only [List.mem_append, List.mem_singleton, reduceCtorEq, or_false,
      Deed.settled.injEq] at hd
    rcases hd with hd | ⟨rfl, rfl, rfl⟩
    · exact h.ledger.settled d s a hd
    · exact hass
  · intro s code hcode
    change Function.update w.completions.completion r (some o') s = some (.done code) at hcode
    rcases eq_or_ne s r with rfl | hne
    · rw [update_self] at hcode
      obtain rfl : o' = .done code := Option.some.inj hcode
      exact ⟨c, hass, hdone code rfl⟩
    · rw [update_of_ne hne] at hcode
      exact h.ledger.done s code hcode

/-- Settling an attempt for a retry: the connections keep what they have, but the
attempt just settled, which was assigned to `c` alone, is no longer current. -/
theorem reattempted (h : Own x w) {r : RespId} (hass : w.Assigned c r (w.completions.current r))
    (hpending : w.completions.completion r = none)
    (hc : some c = x ∨ ((w.conns c).res = some r → (w.conns c).Quiet)) (o : Outcome Nat) (n : Nat)
    (v : Verdict) : Own x (w.reattempted c r o n v) := by
  refine ⟨h.ledger.reattempted hass hpending o n v, fun d => ⟨(h.conn d).assigned, ?_, ?_⟩⟩
  · intro s hsd hd
    rw [World.current_reattempted]
    split
    · rename_i heq
      subst heq
      rcases (h.conn d).current s hsd hd with hattempt | hquiet
      · obtain ⟨a, ha, has⟩ := (h.conn d).assigned s hsd
        rw [hattempt] at ha
        cases ha
        obtain rfl := h.ledger.unique d c s s _ has hass
        exact .inr ((hc.resolve_left hd) hsd)
      · exact .inr hquiet
    · exact (h.conn d).current s hsd hd
  · intro s hsd hattempt op hop hpoint
    rw [World.current_reattempted] at hattempt
    split at hattempt
    · -- nothing carries the attempt that was just made
      obtain ⟨a, ha, has⟩ := (h.conn d).assigned s hsd
      obtain rfl := Option.some.inj (hattempt.symm.trans ha)
      exact absurd has (h.ledger.fresh d s)
    · exact (h.conn d).status s hsd hattempt op hop hpoint

/-- The callback of the next attempt is about a response that was made. -/
theorem exclusive_reattempted (hw : Exclusive w) {r : RespId} (hr : r < w.completions.nresponses)
    (o : Outcome Nat) (n : Nat) (v : Verdict) : Exclusive (w.reattempted c r o n v) := by
  refine hw.setCompletions (k := (w.reattempted c r o n v).completions) (Nat.le_refl _) ?_ _ _ _ _
  intro a t ht
  change t ∈ (Function.update (Function.update w.completions.attempts (w.completions.current r)
    { outcome := some o, tasks := [] }) w.completions.nattempts { tasks := [(r, n + 1)] } a).tasks
    at ht
  rcases eq_or_ne a w.completions.nattempts with rfl | hne
  · rw [update_self] at ht
    obtain rfl := List.mem_singleton.mp ht
    exact hr
  · rw [update_of_ne hne] at ht
    exact hw.callbacks_update _ (by simp) a t ht

/-- **Settling the attempt of `r`**, which was assigned to `c`: behind a retry `c`
is exempted, or does not carry `r`, or is quiet. -/
theorem settleUnlessReady (h : Own x w) (hw : Exclusive w) (hs : Settling w.futures) {r : RespId}
    (hass : w.Assigned c r (w.completions.current r)) (o : Outcome Nat) (v : Verdict)
    (hdone : ∀ code, o = .done code → w.statusFrom r = some c)
    (hc : some c = x ∨ (v = .retry → (w.completions.attempts (w.completions.current r)).outcome =
      none → (w.conns c).res = some r → (w.conns c).Quiet)) :
    Own x (w.settleUnlessReady c r o v) := by
  have hr : r < w.completions.nresponses := (h.ledger.made c r _ hass).2
  rcases hs.settleUnlessReady_cases (c := c) hr o v with
    ⟨-, he⟩ | ⟨hp, hpending, n, ⟨-, o', ho', he⟩ | ⟨hv, he⟩⟩ <;> rw [he]
  · exact h
  · refine h.completed hass fun code hcode => ?_
    rcases ho' with rfl | ⟨-, e, rfl⟩
    · exact hdone code hcode
    · cases hcode
  · have hreattempted : Own x (w.reattempted c r o n v) :=
      h.reattempted hass hpending (hc.imp_right fun hquiet => hquiet hv hp) o n v
    have hsettled := hs.settleUnlessReady (c := c) hr o v
    rw [he, World.futures_nextThen] at hsettled
    refine hreattempted.nextThen (exclusive_reattempted hw hr o n v) hsettled.1 ?_
    intro s hs'
    cases hs'
    refine ⟨hr, h.ledger.not_holds hass, fun d t ha => ?_⟩
    rw [World.current_reattempted, if_pos rfl] at ha
    exact h.ledger.fresh d t ha

/-! ## Reading -/

/-- Bytes of `c` go into a response whose current attempt was assigned to `c`. -/
theorem contents (h : Own x w) {r : RespId} (hass : w.Assigned c r (w.completions.current r))
    (responses : RespId → Response) {statusFrom : RespId → Option ConnId}
    (hstatus : statusFrom = w.statusFrom ∨
      statusFrom = Function.update w.statusFrom r (some c)) :
    Own x { w with
      responses := responses
      sources := Function.update w.sources r (w.sources r ++ [c])
      statusFrom := statusFrom
      log := w.log ++ [.content c r (w.completions.current r)] } := by
  -- the status of a response with an assigned current attempt stays that of its connection
  have kept : ∀ d s, w.Assigned d s (w.completions.current s) → w.statusFrom s = some d →
      statusFrom s = some d := by
    intro d s hd hs
    rcases hstatus with rfl | rfl
    · exact hs
    · rcases eq_or_ne s r with rfl | hne
      · rw [update_self, h.ledger.unique d c s s _ hd hass]
      · rw [update_of_ne hne, hs]
  have h₁ : Own x { w with
      responses := responses
      sources := Function.update w.sources r (w.sources r ++ [c])
      statusFrom := statusFrom } := by
    refine ⟨⟨h.ledger.settled, h.ledger.content, h.ledger.made, h.ledger.own, h.ledger.unique,
      h.ledger.first, h.ledger.once, ?_, ?_⟩,
      fun d => ⟨(h.conn d).assigned, (h.conn d).current, ?_⟩⟩
    · intro s d hd
      change d ∈ Function.update w.sources r (w.sources r ++ [c]) s at hd
      rcases eq_or_ne s r with rfl | hne
      · rw [update_self, List.mem_append, List.mem_singleton] at hd
        rcases hd with hd | rfl
        · exact h.ledger.sources s d hd
        · exact hass
      · rw [update_of_ne hne] at hd
        exact h.ledger.sources s d hd
    · intro s code hs
      obtain ⟨d, hd, hst⟩ := h.ledger.done s code hs
      exact ⟨d, hd, kept d s hd hst⟩
    · intro s hs hatt op hop hp
      obtain ⟨a, ha, has⟩ := (h.conn d).assigned s hs
      rw [hatt] at ha
      cases ha
      exact kept d s has ((h.conn d).status s hs hatt op hop hp)
  refine h₁.noted (by simp) ?_
  intro d s b hn
  cases hn
  exact hass

/-- The attempt of a response that `c` carries is assigned to `c`. -/
theorem assigned_current (h : Own x w) {r : RespId} (hr : (w.conns c).res = some r)
    (hatt : (w.conns c).attempt = some (w.completions.current r)) :
    w.Assigned c r (w.completions.current r) := by
  obtain ⟨a, ha, has⟩ := (h.conn c).assigned r hr
  rw [hatt] at ha
  cases ha
  exact has

/-- **Closing and failing the response**, on a connection whose attempt is the
current one; behind a retry it must be quiet. -/
theorem closeAndFail (h : Own none w) (hw : Exclusive w) (hs : Settling w.futures)
    (hatt : ∀ r, (w.conns c).res = some r →
      (w.conns c).attempt = some (w.completions.current r)) (err : Bytes) (v : Verdict)
    (hquiet : ∀ r, (w.conns c).res = some r → v = .retry →
      (w.completions.attempts (w.completions.current r)).outcome = none →
      (w.conns c).spent = true ∧ (w.conns c).cancelled = true) :
    Own none ((w.close c).failResponse c err v) := by
  have hk := w.completions_close c
  rw [World.failResponse, World.res_close]
  split
  · rename_i r hr
    refine (h.close c).settleUnlessReady (hw.close (hw.created_of_res hr)) ?_ ?_ _ v (by simp)
      (.inr ?_)
    · rw [World.futures_close]
      exact hs
    · obtain ⟨res, hm⟩ := h.assigned_current hr (hatt r hr)
      rw [hk]
      exact ⟨res, by rwa [World.log_close]⟩
    · intro hv hp _
      rw [hk] at hp
      obtain ⟨hspent, hcancelled⟩ := hquiet r hr hv hp
      exact World.quiet_close hspent hcancelled
  · exact h.close c

/-- **Failing the response and closing**, in the order of a failed write. -/
theorem failAndClose (h : Own none w) (hw : Exclusive w) (hs : Settling w.futures) {r : RespId}
    (hr : (w.conns c).res = some r) (hatt : (w.conns c).attempt = some (w.completions.current r))
    (err : Bytes) (v : Verdict)
    (hquiet : v = .retry → (w.completions.attempts (w.completions.current r)).outcome = none →
      (w.conns c).spent = true ∧ (w.conns c).cancelled = true) :
    Own none ((w.settleUnlessReady c r (.failed err) v).close c) := by
  have hass := h.assigned_current hr hatt
  have hknown := (h.ledger.made c r _ hass).2
  -- settling leaves the record of `c` alone, which is not available
  have hconn : (w.settleUnlessReady c r (.failed err) v).conns c = w.conns c :=
    hs.conns_settleUnlessReady hknown (hw.not_idle_of_res hr).1 c _ v
  have hset := (h.weaken (some c)).settleUnlessReady hw hs hass (.failed err) v (by simp) (.inl rfl)
  refine (hset.close c).unexempt fun s hsres => ?_
  rw [World.res_close, hconn] at hsres
  obtain rfl : s = r := Option.some.inj (hsres.symm.trans hr)
  by_cases hret : v = .retry ∧ (w.completions.attempts (w.completions.current s)).outcome = none
  · obtain ⟨hspent, hcancelled⟩ := hquiet hret.1 hret.2
    right
    refine World.quiet_close ?_ ?_ <;> rw [hconn]
    · exact hspent
    · exact hcancelled
  · left
    rw [World.attempt_close, hconn, World.completions_close,
      hs.current_settleUnlessReady hknown fun hv hp => hret ⟨hv, hp⟩]
    exact hatt

/-- What the handlers of a response know of a world in which `c` works on `r`:
no read is outstanding, the attempt is the current one, and the status is in. -/
structure Acting (c : ConnId) (r : RespId) (w : World) : Prop where
  own : Own none w
  exclusive : Exclusive w
  settling : Settling w.futures
  res : (w.conns c).res = some r
  reads : (w.conns c).reads = []
  attempt : (w.conns c).attempt = some (w.completions.current r)
  status : w.statusFrom r = some c

namespace Acting

variable {r : RespId}

theorem assigned (h : Acting c r w) : w.Assigned c r (w.completions.current r) :=
  h.own.assigned_current h.res h.attempt

theorem current (h : Acting c r w) (s : RespId) (hs : (w.conns c).res = some s) :
    (w.conns c).attempt = some (w.completions.current s) := by
  rw [h.res] at hs
  cases hs
  exact h.attempt

theorem extendTimer (h : Acting c r w) : Acting c r (w.extendTimer c) :=
  ⟨h.own.loud rfl rfl (fun op hop => ⟨op, hop, rfl⟩) h.current,
    h.exclusive.extendTimer (h.exclusive.created_of_res h.res), h.settling, by simp [h.res],
    by simp [World.conns_extendTimer, h.reads], by simp [World.conns_extendTimer, h.attempt]; rfl,
    h.status⟩

theorem parser (h : Acting c r w) (input : Bytes) (mode : Transfer) (expected : Nat) :
    Acting c r (w.modConn c fun k =>
      { k with input := input, transferMode := mode, expectedBytes := expected }) :=
  ⟨h.own.loud rfl rfl (fun op hop => ⟨op, hop, rfl⟩) h.current,
    h.exclusive.inner (h.exclusive.created_of_res h.res) rfl rfl (fun hs => hs) rfl (fun hw => hw),
    h.settling, by simp [World.modConn, h.res], by simp [World.modConn, h.reads],
    by simp [World.modConn, h.attempt], h.status⟩

theorem store (h : Acting c r w) (m : Message) : Acting c r (w.store c r m) :=
  ⟨h.own.contents h.assigned _ (.inl rfl), h.exclusive.store c r m, h.settling, h.res, h.reads,
    h.attempt, h.status⟩

/-- **The end of a response.** Behind it `c` carries no response, or another one. -/
theorem extractNextBodyChunk (h : Acting c r w) (data : Bytes) (v : Verdict) :
    Own none (w.extractNextBodyChunk c data v) := by
  have stored : ∀ u, (u = w ∨ ∃ m, u = w.store c r m) → Acting c r u := by
    rintro u (rfl | ⟨m, rfl⟩)
    · exact h
    · exact h.store m
  -- `res_` is cleared
  have cleared : ∀ {u}, Acting c r u →
      Own none ((u.modConn c fun k => { k with res := none }).note (.finished c r)) := by
    intro u hu
    refine noted ?_ (by simp) (by simp)
    exact hu.own.update ⟨by simp, by simp, by simp⟩
  refine World.extractNextBodyChunk_cases (P := Own none) data h.res ?_ ?_
  · intro u s hu
    have hu := stored u hu
    refine (settleUnlessReady (cleared hu) (hu.exclusive.clear hu.res hu.reads) hu.settling ?_ _ v
      ?_ (.inr ?_)).close c
    · exact assigned_append hu.assigned
    · intro _ _
      exact hu.status
    · intro _ _ hres
      simp [World.note, World.modConn] at hres
  · intro u s hu
    have hu := stored u hu
    have hread : Own none
        (((u.modConn c fun k => { k with res := none }).note (.finished c r)).handleResponse c) :=
      (cleared hu).update ⟨by simp [World.note, World.modConn], by simp [World.note, World.modConn],
        by simp [World.note, World.modConn]⟩
    have hf : ((((u.modConn c fun k => { k with res := none }).note (.finished c r)).handleResponse
        c).release c).futures = u.futures := by
      rw [World.futures_release]
      · rfl
      · exact fun q hq => (hu.exclusive.queues.pending q hq).2
    have hk : ((((u.modConn c fun k => { k with res := none }).note (.finished c r)).handleResponse
        c).release c).completions = u.completions := congrArg Prod.fst hf
    have hrel : Own none ((((u.modConn c fun k => { k with res := none }).note
        (.finished c r)).handleResponse c).release c) := by
      refine hread.release hu.exclusive.queues hu.settling.1 ?_
      intro op hop
      simp only [World.handleResponse, World.readDelimited, World.note, World.modConn, update_self,
        hu.reads, List.nil_append, List.mem_singleton] at hop
      rw [hop]
    obtain ⟨hlog, hstatus⟩ := World.contents_release (w := ((u.modConn c fun k =>
      { k with res := none }).note (.finished c r)).handleResponse c) (c := c)
      (fun q hq => (hu.exclusive.queues.pending q hq).2)
    refine settleUnlessReady hrel (hu.exclusive.releaseRead hu.res hu.reads) (hf ▸ hu.settling) ?_ _ v
      ?_ (.inr ?_)
    · rw [hk]
      obtain ⟨res, hm⟩ := hu.assigned
      exact ⟨res, hlog.mem (List.mem_append_left _ hm)⟩
    · intro _ _
      rw [hstatus]
      exact hu.status
    · intro _ _ hres
      -- the request of `r` waits nowhere, since its attempt is assigned
      rcases World.res_release (((u.modConn c fun k => { k with res := none }).note
        (.finished c r)).handleResponse c) c (fun q hq => (hu.exclusive.queues.pending q hq).2)
        hu.exclusive.queues.queuedOne hres with hres | ⟨q, hq⟩
      · simp [World.handleResponse, World.readDelimited, World.note, World.modConn] at hres
      · exact absurd hu.assigned (hu.own.ledger.first r (.inl q) hq c r)

/-- **What a read handler does**; it gives up only where that leaves the
connection with nothing else to run. -/
theorem readOutcome {w' : World} {v : Verdict} {gaveUp : Prop}
    (out : ReadOutcome c r v gaveUp w w') (h : Acting c r w)
    (hquiet : gaveUp → v = .retry →
      (w.completions.attempts (w.completions.current r)).outcome = none →
      (w.conns c).spent = true ∧ (w.conns c).closed = false) : Own none w' := by
  induction out with
  | timer _ ih =>
    refine ih h.extendTimer fun hg hv hp => ?_
    obtain ⟨hspent, hclosed⟩ := hquiet hg hv hp
    simp only [World.conns_extendTimer, update_self]
    refine ⟨?_, hclosed⟩
    simp only [Conn.spent, Bool.and_eq_true, List.all_eq_true, bne_iff_ne, ne_eq] at hspent ⊢
    refine ⟨hspent.1, fun t ht => ?_⟩
    rcases List.mem_append.mp ht with ht | ht
    · obtain ⟨t', ht', rfl⟩ := List.mem_map.mp ht
      have := hspent.2 t' ht'
      rcases hs : t'.status with _ | _ | _ <;> simp_all [Wait.cancel]
    · obtain rfl := List.mem_singleton.mp ht
      simp
  | parser input mode expected _ ih =>
    refine ih (h.parser input mode expected) fun hg hv hp => ?_
    simpa [World.modConn, Conn.spent] using hquiet hg hv hp
  | store m _ ih => exact ih (h.store m) hquiet
  | idle => exact h.own
  | waits w op _ _ =>
    refine h.own.update ⟨(h.own.conn c).assigned, fun s hs _ => .inl (h.current s hs), ?_⟩
    intro s hs _ _ _ _
    rw [show s = r from Option.some.inj (hs.symm.trans h.res)]
    exact h.status
  | escaped w e => exact h.own.noted (by simp) (by simp)
  | givenUp w err hg =>
    refine h.own.closeAndFail h.exclusive h.settling h.current err v fun s hs hv hp => ?_
    obtain rfl : s = r := Option.some.inj (hs.symm.trans h.res)
    obtain ⟨hspent, hclosed⟩ := hquiet hg hv hp
    exact ⟨hspent, by simp [Conn.cancelled, hclosed]⟩
  | finished w data => exact h.extractNextBodyChunk data v

end Acting

/-- A handler runs without the read it belongs to. -/
theorem eraseRead (h : Own x w) (i : Nat) :
    Own x (w.modConn c fun k => { k with reads := k.reads.eraseIdx i }) :=
  h.inner rfl rfl (fun op hop => ⟨op, List.mem_of_mem_eraseIdx hop, rfl⟩) fun hq =>
    ⟨hq.closed, hq.writes, fun op hop => hq.reads op (List.mem_of_mem_eraseIdx hop), hq.waits⟩

/-- The callback on a status line: it is the connection the response takes its status
from, unless it has a status. -/
theorem runStatus (h : Own none w) {op : ReadOp} {i pos : Nat} (hp : op.point = .status)
    (h₁ : Own none (w.modConn c fun k => { k with reads := k.reads.eraseIdx i }))
    (hcur : ∀ r, (w.conns c).res = some r →
      (w.conns c).attempt = some (w.completions.current r)) (v : Verdict) :
    Own none ((w.modConn c fun k => { k with reads := k.reads.eraseIdx i }).finishRead c op
      (.ok pos) v) := by
  obtain ⟨input, hcases⟩ := World.finishRead_status (v := v) (c := c)
    (w := w.modConn c fun k => { k with reads := k.reads.eraseIdx i }) op pos hp
  have hu : Own none ((w.modConn c fun k => { k with reads := k.reads.eraseIdx i }).modConn c
      fun k => { k with input := input }) :=
    h₁.loud rfl rfl (fun op hop => ⟨op, hop, rfl⟩) (by simpa [World.modConn] using hcur)
  have hut : Own none (((w.modConn c fun k => { k with reads := k.reads.eraseIdx i }).modConn c
      fun k => { k with input := input }).extendTimer c) :=
    hu.loud rfl rfl (fun op hop => ⟨op, hop, rfl⟩) (by simpa [World.modConn] using hcur)
  rcases hcases with he | ⟨-, he⟩ | ⟨r, parsed, hr, hcases⟩
  · rw [he]
    exact hu
  · rw [he]
    exact hu.close c
  · have hr' : (w.conns c).res = some r := by simpa [World.modConn] using hr
    have hass := h.assigned_current hr' (hcur r hr')
    rcases hcases with ⟨e, hsome, he⟩ | ⟨hnone, he⟩ <;> rw [he]
    · refine (hut.contents (c := c) hass _ (.inl ?_)).noted (by simp) (by simp)
      simp [hsome]
    · have hst : Own none ((((w.modConn c fun k =>
          { k with reads := k.reads.eraseIdx i }).modConn c fun k =>
            { k with input := input }).extendTimer c).storeStatus c r parsed) :=
        hut.contents hass _ (.inr (by simp [hnone]))
      refine hst.update ⟨(hst.conn c).assigned, ?_, ?_⟩
      · intro s hs _
        left
        have := hcur s (by simpa [World.storeStatus, World.modConn] using hs)
        simpa [World.storeStatus, World.modConn, World.extendTimer] using this
      · intro s hs _ _ _ _
        obtain rfl : s = r := by
          simpa [World.storeStatus, World.modConn, hr', eq_comm] using hs
        simp [World.storeStatus, hnone]

/-- **The handler of a read that was not harmless**: the attempt of its
connection is the current one. -/
theorem runRead (h : Own none w) (hw : Steady w) {i : Nat} {op : ReadOp}
    {result : Except Bytes Nat} (hop : (w.conns c).reads[i]? = some op)
    (hres : op.result = some result) (v : Verdict) (hok : retriesQuietly w (.runRead c i v)) :
    Own none ((w.modConn c fun k => { k with reads := k.reads.eraseIdx i }).finishRead c op
      result v) := by
  have hmem := List.mem_of_getElem? hop
  have h₁ := h.eraseRead (c := c) i
  obtain ⟨hw₁, hreads, hpoint⟩ := hw.exclusive.beforeRead hop
  have hc := hw.exclusive.created_of_reads hop
  have loud : op.harmless = false → ∀ r, (w.conns c).res = some r →
      (w.conns c).attempt = some (w.completions.current r) := by
    intro hharm r hr
    refine h.attempt_of_not_quiet hr fun hq => ?_
    rw [hq.reads op hmem] at hharm
    cases hharm
  obtain ⟨point, wanted, result'⟩ := op
  cases hres
  cases result with
  | error err =>
    simp only [World.finishRead]
    split
    · -- a failed line read fails the response, and the retry is quiet
      rename_i hhook
      refine h₁.closeAndFail hw₁ hw.settling ?_ _ v ?_
      · simpa [World.modConn] using loud (by simp [ReadOp.harmless, hhook])
      · intro r hr hv hp
        have hr' : (w.conns c).res = some r := by simpa [World.modConn] using hr
        subst hv
        have := (hok (w.awaits_of_pending hr' hp)).1 (by
          simpa [World.failsHooked, hop] using hhook)
        simpa [World.modConn] using this
    · exact h₁.close c
  | ok pos =>
    have hcur := loud (by simp [ReadOp.harmless])
    by_cases hp : point = .status
    · exact h.runStatus hp h₁ hcur v
    · obtain ⟨r, hr⟩ := Option.ne_none_iff_exists'.mp (hpoint hp)
      have hr' : (w.conns c).res = some r := by simpa [World.modConn] using hr
      have hact : Acting c r (w.modConn c fun k => { k with reads := k.reads.eraseIdx i }) :=
        ⟨h₁, hw₁, hw.settling, hr, hreads, by simpa [World.modConn] using hcur r hr',
          (h.conn c).status r hr' (hcur r hr') _ hmem hp⟩
      refine hact.readOutcome (World.finishRead_outcome _ pos hp hr) ?_
      rintro ⟨hhead, hline, hunframed⟩ hv hp
      subst hv
      have hends : w.endsUnframed c i = true := by
        obtain rfl : point = .header := hhead
        simpa [World.endsUnframed, hop, hr', World.modConn] using And.intro hline hunframed
      obtain ⟨hspent, hclosed⟩ := (hok (w.awaits_of_pending hr' hp)).2 hends
      exact ⟨by simpa [World.modConn] using hspent, by simpa [World.modConn] using hclosed⟩

/-! ## Writing, waiting, connecting -/

/-- **The handler of a write.** A connection with a write outstanding is not
quiet. -/
theorem runWrite (h : Own none w) (hw : Steady w) {i : Nat} {op : WriteOp}
    {result : Except Bytes Unit} (hop : (w.conns c).writes[i]? = some op)
    (hres : op.result = some result) (v : Verdict)
    (hok : retriesQuietly w (.runWrite c i v)) :
    Own none ((w.modConn c fun k => { k with writes := k.writes.eraseIdx i }).finishWrite c
      result v) := by
  have hcur : ∀ r, (w.conns c).res = some r →
      (w.conns c).attempt = some (w.completions.current r) := by
    intro r hr
    refine h.attempt_of_not_quiet hr fun hq => ?_
    rw [hq.writes] at hop
    simp at hop
  have h₁ : Own none (w.modConn c fun k => { k with writes := k.writes.eraseIdx i }) :=
    h.loud rfl rfl (fun op hop => ⟨op, hop, rfl⟩) hcur
  have hw₁ := hw.exclusive.beforeWrite hop
  obtain ⟨data, result'⟩ := op
  cases hres
  cases result with
  | ok => exact h₁.loud rfl rfl (fun op hop => ⟨op, hop, rfl⟩) (by simpa [World.modConn] using hcur)
  | error err =>
    simp only [World.finishWrite]
    split
    · exact h₁.aside _ _
    · rename_i r hr
      have hr' : (w.conns c).res = some r := by simpa [World.modConn] using hr
      refine h₁.failAndClose hw₁ hw.settling hr (by simpa [World.modConn] using hcur r hr') err v ?_
      rintro rfl hp
      have hrest := hok (w.awaits_of_pending hr' hp) (by simp [World.failsWrite, hop])
      simpa [World.modConn] using hrest

/-- **The handler of a wait.** A connection with an expired wait is not quiet. -/
theorem runWait (h : Own none w) (hw : Steady w) {i : Nat} {t : Wait}
    (ht : (w.conns c).waits[i]? = some t) (v : Verdict)
    (hok : retriesQuietly w (.runWait c i v)) :
    Own none ((w.modConn c fun k => { k with waits := k.waits.eraseIdx i }).finishWait c t v) := by
  have h₁ : Own none (w.modConn c fun k => { k with waits := k.waits.eraseIdx i }) :=
    h.inner rfl rfl (fun op hop => ⟨op, hop, rfl⟩) fun hq =>
      ⟨hq.closed, hq.writes, hq.reads, fun t ht => hq.waits t (List.mem_of_mem_eraseIdx ht)⟩
  have hw₁ := hw.exclusive.beforeWait ht
  have hc := hw.exclusive.created_of_waits ht
  simp only [World.finishWait]
  split
  · rename_i hexp
    have hcur : ∀ r, (w.conns c).res = some r →
        (w.conns c).attempt = some (w.completions.current r) := by
      intro r hr
      refine h.attempt_of_not_quiet hr fun hq => ?_
      rw [hq.waits t (List.mem_of_getElem? ht)] at hexp
      cases hexp
    have hcur₁ : ∀ r, ((w.modConn c fun k => { k with waits := k.waits.eraseIdx i }).conns c).res =
        some r → ((w.modConn c fun k => { k with waits := k.waits.eraseIdx i }).conns c).attempt =
          some (w.completions.current r) := by simpa [World.modConn] using hcur
    have h₂ : Own none ((w.modConn c fun k => { k with waits := k.waits.eraseIdx i }).cancelTimer c) :=
      h₁.loud rfl rfl (fun op hop => ⟨op, hop, rfl⟩) hcur₁
    refine h₂.closeAndFail (hw₁.inner hc rfl rfl (fun hs => hs) rfl (fun hw => hw)) hw.settling
      ?_ _ v ?_
    · simpa [World.cancelTimer, World.modConn] using hcur
    · intro r hr hv hp
      have hr' : (w.conns c).res = some r := by
        simpa [World.cancelTimer, World.modConn] using hr
      subst hv
      have hspent := hok (w.awaits_of_pending hr' hp) (by simp [World.expires, ht, hexp])
      simp only [Conn.spent, Bool.and_eq_true, List.all_eq_true, bne_iff_ne, ne_eq] at hspent
      -- the timer is destroyed first, so the waits left are cancelled
      have hwaits : ∀ t' ∈ (w.conns c).waits.eraseIdx i, t'.cancel.status = .cancelled := by
        intro t' ht'
        have := hspent.2 t' ht'
        rcases hs : t'.status with _ | _ | _ <;> simp_all [Wait.cancel]
      constructor
      · simp only [Conn.spent, World.cancelTimer, World.modConn, update_self, Bool.and_eq_true,
          hspent.1, List.all_map, List.all_eq_true, Function.comp, bne_iff_ne, ne_eq, true_and]
        refine ⟨hspent.1.2, fun t' ht' hexp' => ?_⟩
        rw [hwaits t' ht'] at hexp'
        cases hexp'
      · simp only [Conn.cancelled, World.cancelTimer, World.modConn, update_self, Bool.or_eq_true,
          List.all_map, List.all_eq_true, Function.comp, beq_iff_eq]
        exact .inr hwaits
  · exact h₁

/-- The timer of a connection that carries nothing. -/
theorem startTimer (h : Own none w) (hres : (w.conns c).res = none) : Own none (w.extendTimer c) :=
  h.loud rfl rfl (fun op hop => ⟨op, hop, rfl⟩) (by simp [hres])

/-- The response handler starts and the future of the connection is done; it
carries no response yet. -/
theorem ready (h : Own none w) (hw : Exclusive w) (ho : Orderly w.completions)
    (hp : (w.pool.opened c).outcome = none) (hres : (w.conns c).res = none)
    (hreads : (w.conns c).reads = []) : Own none (w.ready c) := by
  have h₁ : Own none ((w.extendTimer c).handleResponse c) := by
    refine (h.startTimer hres).update ⟨?_, ?_, ?_⟩ <;> intro r hr <;> simp [hres] at hr
  refine h₁.settleOpened hw.queues ho hp ?_
  intro op hop
  simp only [World.handleResponse, World.readDelimited, World.extendTimer, World.modConn,
    update_self, hreads, List.nil_append, List.mem_singleton] at hop
  rw [hop]

theorem finishSetup (h : Own none w) (hw : Exclusive w) (ho : Orderly w.completions)
    (hp : (w.pool.opened c).outcome = none) (hres : (w.conns c).res = none)
    (hreads : (w.conns c).reads = []) (stage : Stage) (result : Except Bytes Unit) :
    Own none (w.finishSetup c stage result) := by
  -- a new stage of a connection that carries nothing
  have restage : ∀ {u : World}, Own none u → (u.conns c).res = none → ∀ op,
      Own none (u.modConn c fun k => { k with setup := some op }) :=
    fun hu hr op => hu.loud rfl rfl (fun op hop => ⟨op, hop, rfl⟩) (by simp [hr])
  cases result with
  | error err => exact h.close c
  | ok =>
    cases stage with
    | resolve => exact restage h hres _
    | connect =>
      simp only [World.finishSetup]
      split
      · exact restage (h.startTimer hres) (by simp [hres]) _
      · exact h.ready hw ho hp hres hreads
    | handshake => exact h.ready hw ho hp hres hreads

/-- The attempts of the old responses stay what they are. -/
theorem current_create {r : RespId} (hr : r < w.completions.nresponses) :
    w.completions.create.1.current r = w.completions.current r :=
  update_of_ne (Nat.ne_of_lt hr) _ _

/-- **A response is made**, with an attempt that no connection has. -/
theorem newResponse (h : Own none w) (hw : Exclusive w) (q : Request) (stall : Nat) :
    Own none { w with
      completions := w.completions.create.1
      responses := Function.update w.responses w.completions.create.2
        { request := q, stallTimeout := stall }
      sources := Function.update w.sources w.completions.create.2 []
      statusFrom := Function.update w.statusFrom w.completions.create.2 none } := by
  refine ⟨⟨h.ledger.settled, h.ledger.content, ?_, ?_, h.ledger.unique, ?_, h.ledger.once, ?_, ?_⟩,
    fun d => ⟨(h.conn d).assigned, ?_, ?_⟩⟩
  · intro c r a ha
    exact ⟨Nat.lt_succ_of_lt (h.ledger.made c r a ha).1,
      Nat.lt_succ_of_lt (h.ledger.made c r a ha).2⟩
  · intro c r a ha s hs hcur
    rcases Nat.lt_succ_iff_lt_or_eq.mp hs with hs' | rfl
    · exact h.ledger.own c r a ha s hs' ((current_create hs').symm.trans hcur)
    · have hnew : w.completions.nattempts = a := (update_self _ _ _).symm.trans hcur
      exact absurd (hnew ▸ ha) (h.ledger.fresh c r)
  · intro r place hp c s ha
    exact h.ledger.first r place hp c s (current_create (known_of_holds hw.queues hp) ▸ ha)
  · intro r d hd
    change d ∈ Function.update w.sources w.completions.nresponses [] r at hd
    rcases eq_or_ne r w.completions.nresponses with rfl | hne
    · rw [update_self] at hd
      cases hd
    · rw [update_of_ne hne] at hd
      show w.Assigned d r (Function.update w.completions.current w.completions.nresponses
        w.completions.nattempts r)
      rw [update_of_ne hne]
      exact h.ledger.sources r d hd
  · intro r code hr
    change Function.update w.completions.completion w.completions.nresponses none r = _ at hr
    show ∃ c, w.Assigned c r (Function.update w.completions.current w.completions.nresponses
      w.completions.nattempts r) ∧ Function.update w.statusFrom w.completions.nresponses none r = _
    rcases eq_or_ne r w.completions.nresponses with rfl | hne
    · rw [update_self] at hr
      cases hr
    · rw [update_of_ne hne] at hr ⊢
      rw [update_of_ne hne]
      exact h.ledger.done r code hr
  -- a connection has no response but an old one
  · intro r hr hx
    have hcurrent := current_create ((hw.conn d).known r hr)
    exact ((h.conn d).current r hr hx).imp_left fun hatt => hatt.trans (congrArg some hcurrent.symm)
  · intro r hr hatt op hop hpt
    have hknown := (hw.conn d).known r hr
    show Function.update w.statusFrom w.completions.nresponses none r = _
    rw [update_of_ne (Nat.ne_of_lt hknown)]
    exact (h.conn d).status r hr (hatt.trans (congrArg some (current_create hknown))) op hop hpt

/-- **A request**: a new response, whose attempt is not assigned. -/
theorem request (h : Own none w) (hw : Exclusive w) (ho : Orderly w.completions) (q : Request)
    (stall : Nat) : Own none (w.request q stall) := by
  refine (h.newResponse hw q stall).nextThen (hw.newResponse q stall) ho.create ?_
  intro r hr
  cases hr
  refine ⟨Nat.lt_succ_self _, fun place hp => Nat.lt_irrefl _ (known_of_holds hw.queues hp), ?_⟩
  intro c s ha
  have hnew : w.completions.create.1.current w.completions.nresponses = w.completions.nattempts :=
    update_self _ _ _
  exact h.ledger.fresh c s (hnew ▸ ha)

/-! ## The events -/

/-- More of a read is there, on an open connection or with an error. -/
theorem completeRead (h : Own x w) {i : Nat} {op : ReadOp}
    (hop : (w.conns c).reads[i]? = some op) (input : Bytes) (result : Option (Except Bytes Nat))
    (hok : (w.conns c).closed = true → ∃ err, result = some (.error err)) :
    Own x (w.modConn c fun k =>
      { k with input := input, reads := k.reads.set i { op with result := result } }) := by
  refine h.inner rfl rfl (fun op' hop' => ?_) fun hq => ⟨hq.closed, hq.writes, ?_, hq.waits⟩
  · rcases List.mem_or_eq_of_mem_set hop' with hm | rfl
    · exact ⟨op', hm, rfl⟩
    · exact ⟨op, List.mem_of_getElem? hop, rfl⟩
  · intro op' hop'
    rcases List.mem_or_eq_of_mem_set hop' with hm | rfl
    · exact hq.reads op' hm
    · obtain ⟨err, rfl⟩ := hok hq.closed
      have := hq.reads op (List.mem_of_getElem? hop)
      simp only [ReadOp.harmless, Bool.and_eq_true] at this ⊢
      exact ⟨this.1, trivial⟩

/-- **Every event keeps the invariant** if retries are quiet. -/
theorem step (h : Own none w) (hw : Steady w) {e : Event} {w' : World}
    (hok : retriesQuietly w e) (hstep : w.step e = some w') : Own none w' := by
  obtain ⟨-, hstep⟩ := World.step_eq_some hstep
  have ho : Orderly w.completions := hw.settling.1
  have hx := hw.exclusive
  cases e with
  | request q stall =>
    cases hstep
    exact h.request hx ho q stall
  | next =>
    cases hstep
    exact h.nextThen hx ho (by simp)
  | release c =>
    obtain ⟨hc, rfl⟩ := World.release_inv hstep
    have hidle := (hx.conn c).idle (.inr hc)
    exact (h.aside (w.held.erase c) w.fault).release hx.queues ho ((hx.conn c).between hidle.1)
  | close c =>
    obtain ⟨-, -, rfl⟩ := World.close_inv hstep
    exact h.close c
  | remove c =>
    obtain ⟨-, rfl⟩ := World.remove_inv hstep
    exact h.remove w.eraseEnd w.isValid c
  | maxConnections n =>
    cases hstep
    exact h.setPool fun r place hp => by rcases place with q | f <;> exact hp
  | limitConnections b =>
    cases hstep
    exact h.setPool fun r place hp => by rcases place with q | f <;> exact hp
  | setupDone c result =>
    obtain ⟨stage, -, -, -, rfl⟩ := World.setupDone_inv hstep
    exact h.inner rfl rfl (fun op hop => ⟨op, hop, rfl⟩) fun hq =>
      ⟨hq.closed, hq.writes, hq.reads, hq.waits⟩
  | runSetup c =>
    obtain ⟨stage, result, hs, rfl⟩ := World.runSetup_inv hstep
    obtain ⟨hx₁, hp, hreads⟩ := hx.beforeSetup hs (hx.created_of_setup hs)
    -- a connection that is being established has no response yet
    have hres : (w.conns c).res = none := by
      rcases hr : (w.conns c).res with _ | r
      · rfl
      · rw [hx.setup_of_res hr] at hs
        cases hs
    have h₁ : Own none (w.modConn c fun k => { k with setup := none }) :=
      h.inner rfl rfl (fun op hop => ⟨op, hop, rfl⟩) fun hq =>
        ⟨hq.closed, hq.writes, hq.reads, hq.waits⟩
    exact h₁.finishSetup hx₁ ho hp (by simp [World.modConn, hres]) hreads stage result
  | receive c i bytes =>
    obtain ⟨op, hop, -, hopen, -, rfl⟩ := World.receive_inv hstep
    refine h.completeRead hop ((w.conns c).input ++ bytes) _ fun hclosed => ?_
    rw [hclosed] at hopen
    cases hopen
  | readFails c i err =>
    obtain ⟨op, hop, -, rfl⟩ := World.readFails_inv hstep
    exact h.completeRead hop (w.conns c).input _ fun _ => ⟨err, rfl⟩
  | runRead c i v =>
    obtain ⟨op, result, hop, hres, rfl⟩ := World.runRead_inv hstep
    exact h.runRead hw hop hres v hok
  | writeDone c i result =>
    obtain ⟨op, hop, -, -, rfl⟩ := World.writeDone_inv hstep
    -- a quiet connection has no write that could complete
    refine h.inner rfl rfl (fun op hop => ⟨op, hop, rfl⟩) fun hq => ?_
    rw [hq.writes] at hop
    simp at hop
  | runWrite c i v =>
    obtain ⟨op, result, hop, hres, rfl⟩ := World.runWrite_inv hstep
    exact h.runWrite hw hop hres v hok
  | expire c i =>
    obtain ⟨t, ht, hpending, rfl⟩ := World.expire_inv hstep
    -- and the waits of a quiet connection are cancelled, so none can expire
    refine h.inner rfl rfl (fun op hop => ⟨op, hop, rfl⟩) fun hq => ?_
    rw [hq.waits t (List.mem_of_getElem? ht)] at hpending
    cases hpending
  | runWait c i v =>
    obtain ⟨t, ht, -, rfl⟩ := World.runWait_inv hstep
    exact h.runWait hw ht v hok

theorem init (eraseEnd : List (Option FutId) → List (Option FutId)) (tls limit : Bool) (max : Nat) :
    Own none (World.init eraseEnd tls limit max) where
  ledger :=
    { settled := by simp [World.init]
      content := by simp [World.init]
      made := fun c r a ⟨_, hm⟩ => by simp [World.init] at hm
      own := fun c r a ⟨_, hm⟩ => by simp [World.init] at hm
      unique := fun c d r s a ⟨_, hm⟩ => by simp [World.init] at hm
      first := by
        rintro r (q | f) hp <;> simp [Pool.holds, World.init] at hp
      once := by
        rintro r (q | f) place' hp <;> simp [Pool.holds, World.init] at hp
      sources := by simp [World.init]
      done := by simp [World.init] }
  conn _ := ⟨by simp [World.init], by simp [World.init], by simp [World.init]⟩

end Own

/-- **Attempts belong to connections** in every run in which retries are quiet. -/
theorem ownAttempts_of_run {eraseEnd : List (Option FutId) → List (Option FutId)}
    {tls limit : Bool} {max : Nat} {w : World}
    (run : Run World.step retriesQuietly (World.init eraseEnd tls limit max) w) :
    OwnAttempts w := by
  have hinv : Steady w ∧ Own none w := by
    refine run.invariant (P := fun u => Steady u ∧ Own none u)
      ⟨Steady.init eraseEnd tls limit max, Own.init eraseEnd tls limit max⟩ ?_
    intro t u e h hok hstep
    exact ⟨h.1.step hstep, h.2.step h.1 hok hstep⟩
  exact hinv.2.ledger.ownAttempts

/-- The request is written, the connection breaks, and the retry is answered on
another connection. -/
def quietRetry : List Event :=
  [.request getRequest 30000] ++ connects 0 ++
    [.writeDone 0 0 (.ok ()), .runWrite 0 0 .accept, .readFails 0 0 (ascii "End of file"),
      .runRead 0 0 .retry] ++ connects 1 ++
    [.receive 1 0 shortResponse, .runRead 1 0 .accept, .runRead 1 0 .accept, .runRead 1 0 .accept]

/-- Behind a quiet retry each connection settles its own attempt. -/
theorem ownAttempts_quietRetry :
    ∃ w, exec (guarded World.step retriesQuietly) (World.init id false true 1) quietRetry = some w ∧
      w.completions.history = [.settled 0 0 0, .asked 0 0 0 .retry, .settled 1 0 1,
        .asked 0 1 1 .accept, .completed 0 1] ∧
      OwnAttempts w := by
  have hhist : (exec (guarded World.step retriesQuietly) (World.init id false true 1) quietRetry).map
      (fun w => w.completions.history) = some [.settled 0 0 0, .asked 0 0 0 .retry,
        .settled 1 0 1, .asked 0 1 1 .accept, .completed 0 1] := by decide
  obtain ⟨w, hw, hhist⟩ := Option.map_eq_some_iff.mp hhist
  exact ⟨w, hw, hhist, ownAttempts_of_run (Run.of_guarded quietRetry hw)⟩

/-- The read of the first connection fails while the request is still being
written; the write fails when the retry has been assigned to the second. -/
def lateWrite : List Event :=
  [.request getRequest 30000] ++ connects 0 ++
    [.readFails 0 0 (ascii "End of file"), .runRead 0 0 .retry] ++ connects 1 ++
    [.writeDone 0 0 (.error (ascii "Operation canceled")), .runWrite 0 0 .accept]

/-- **The write of the old connection settles the attempt of the new one**, and
with it the request, while the new connection is at work on it. -/
theorem ownAttempts_lateWrite :
    ∃ w, exec World.step (World.init id false true 8) lateWrite = some w ∧
      w.completions.history = [.settled 0 0 0, .asked 0 0 0 .retry, .settled 0 0 1,
        .asked 0 1 1 .accept, .completed 0 1] ∧
      (w.conns 1).closed = false ∧ (w.conns 1).attempt = some 1 ∧ ¬ OwnAttempts w := by
  have hvals : (exec World.step (World.init id false true 8) lateWrite).map
      (fun w => (w.completions.history, (w.conns 1).closed, (w.conns 1).attempt, w.log)) =
      some ([.settled 0 0 0, .asked 0 0 0 .retry, .settled 0 0 1, .asked 0 1 1 .accept,
        .completed 0 1], false, some 1, [.handed 0 none false, .assigned 0 0 0 none,
        .handed 1 none false, .assigned 1 0 1 none]) := by decide
  obtain ⟨w, hw, hvals⟩ := Option.map_eq_some_iff.mp hvals
  simp only [Prod.mk.injEq] at hvals
  obtain ⟨hhist, hclosed, hattempt, hlog⟩ := hvals
  refine ⟨w, hw, hhist, hclosed, hattempt, fun h => ?_⟩
  obtain ⟨res, hm⟩ := h.settled 0 0 1 (by simp [hhist])
  simp [hlog] at hm

end AsioProtocols
