import AsioProtocols.Http.ExclusiveRuns

/-!
# A request completes at most once

In every run `completion()` of a response is settled at most once, and so is
every `current_completion()`; `completion()` is settled on account of an attempt
for which `on_completion` was asked and did not call for a retry; and the retry
numbers it is asked with are 0, 1, 2, … (`CompletesOnce`).

The invariant is `Orderly`, on the futures of the responses alone. Its heart is
`pending`: a current attempt that is still pending has exactly one callback, the
completion handler with the next retry number, and then `completion()` is
pending too. Whoever settles the attempt first runs that one callback; whoever
comes later finds the attempt ready.
-/

namespace AsioProtocols

open Function

/-- **At most once.** -/
structure CompletesOnce (w : World) : Prop where
  noneTwice : w.fault ≠ some .settledTwice
  attemptOnce : ∀ a, w.completions.history.countP (Deed.settles a) ≤ 1
  completionOnce : ∀ r, w.completions.history.countP (Deed.completes r) ≤ 1
  completedBy : ∀ done r a, done ++ [Deed.completed r a] <+: w.completions.history →
    ∃ n v, v ≠ .retry ∧ Deed.asked r a n v ∈ done
  inOrder : ∀ r, retries r w.completions.history =
    List.range (retries r w.completions.history).length

/-- The invariant of the futures. -/
structure Orderly (k : Completions) : Prop where
  currentMade : ∀ r, r < k.nresponses → k.current r < k.nattempts
  currentOwn : ∀ r s, r < k.nresponses → s < k.nresponses → k.current r = k.current s → r = s
  pending : ∀ r, r < k.nresponses → (k.attempts (k.current r)).outcome = none →
    (k.attempts (k.current r)).tasks = [(r, (retries r k.history).length)] ∧
      k.completion r = none
  unsettled : ∀ a, (k.attempts a).outcome = none → k.history.countP (Deed.settles a) = 0
  attemptOnce : ∀ a, k.history.countP (Deed.settles a) ≤ 1
  freshAttempt : ∀ a, k.nattempts ≤ a → k.attempts a = {}
  uncompleted : ∀ r, k.completion r = none → k.history.countP (Deed.completes r) = 0
  completionOnce : ∀ r, k.history.countP (Deed.completes r) ≤ 1
  freshResponse : ∀ r, k.nresponses ≤ r → k.completion r = none ∧ retries r k.history = []
  completedBy : ∀ done r a, done ++ [Deed.completed r a] <+: k.history →
    ∃ n v, v ≠ .retry ∧ Deed.asked r a n v ∈ done
  inOrder : ∀ r, retries r k.history = List.range (retries r k.history).length

namespace Orderly

variable {k : Completions}

theorem init : Orderly {} where
  currentMade _ h := absurd h (Nat.not_lt_zero _)
  currentOwn _ _ h := absurd h (Nat.not_lt_zero _)
  pending _ h := absurd h (Nat.not_lt_zero _)
  unsettled _ _ := rfl
  attemptOnce _ := Nat.zero_le _
  freshAttempt _ _ := rfl
  uncompleted _ _ := rfl
  completionOnce _ := Nat.zero_le _
  freshResponse _ _ := ⟨rfl, rfl⟩
  completedBy done r a hp := by
    have := List.prefix_nil.mp hp
    simp at this
  inOrder _ := rfl

/-- A new attempt was never settled. -/
theorem unsettled_update (h : Orderly k) (new : Future Nat (RespId × Nat)) (a : AttemptId)
    (ha : (update k.attempts k.nattempts new a).outcome = none) :
    k.history.countP (Deed.settles a) = 0 := by
  rcases eq_or_ne a k.nattempts with rfl | hne
  · exact h.unsettled _ (by rw [h.freshAttempt _ (Nat.le_refl _)])
  · rw [update_of_ne hne] at ha
    exact h.unsettled a ha

/-- Behind a new attempt the others are as they were. -/
theorem freshAttempt_update (h : Orderly k) (new : Future Nat (RespId × Nat)) (a : AttemptId)
    (ha : k.nattempts + 1 ≤ a) : update k.attempts k.nattempts new a = {} := by
  rw [update_of_ne (Nat.ne_of_gt ha)]
  exact h.freshAttempt a (Nat.le_of_succ_le ha)

/-- One more deed: what was completed before it was asked before. -/
theorem completedBy_append (h : Orderly k) {d : Deed}
    (hnew : ∀ r a, d = .completed r a → ∃ n v, v ≠ .retry ∧ Deed.asked r a n v ∈ k.history)
    (done : List Deed) (r : RespId) (a : AttemptId)
    (hpre : done ++ [Deed.completed r a] <+: k.history ++ [d]) :
    ∃ n v, v ≠ .retry ∧ Deed.asked r a n v ∈ done := by
  rcases List.prefix_concat_iff.mp hpre with he | hpre
  · obtain ⟨rfl, hd⟩ := List.append_inj' he rfl
    exact hnew r a (List.cons.inj hd).1.symm
  · exact h.completedBy done r a hpre

/-- A new response, with the handler for retry 0. -/
theorem create (h : Orderly k) : Orderly k.create.1 where
  currentMade r hr := by
    show update k.current k.nresponses k.nattempts r < k.nattempts + 1
    rcases eq_or_ne r k.nresponses with rfl | hne
    · simp
    · rw [update_of_ne hne]
      exact Nat.lt_succ_of_lt (h.currentMade r (Nat.lt_of_le_of_ne (Nat.le_of_lt_succ hr) hne))
  currentOwn r s hr hs he := by
    change update k.current k.nresponses k.nattempts r =
      update k.current k.nresponses k.nattempts s at he
    have old : ∀ t, t < k.nresponses + 1 → t ≠ k.nresponses → t < k.nresponses :=
      fun t ht hne => Nat.lt_of_le_of_ne (Nat.le_of_lt_succ ht) hne
    -- the new response has the new attempt, which no old one has
    rcases eq_or_ne r k.nresponses with rfl | hr' <;> rcases eq_or_ne s k.nresponses with rfl | hs'
    · rfl
    · rw [update_self, update_of_ne hs'] at he
      exact absurd he (Nat.ne_of_gt (h.currentMade s (old s hs hs')))
    · rw [update_self, update_of_ne hr'] at he
      exact absurd he (Nat.ne_of_lt (h.currentMade r (old r hr hr')))
    · rw [update_of_ne hr', update_of_ne hs'] at he
      exact h.currentOwn r s (old r hr hr') (old s hs hs') he
  pending r hr hp := by
    change (update k.attempts k.nattempts _ (update k.current k.nresponses k.nattempts r)).outcome =
      none at hp
    show (update k.attempts k.nattempts _ (update k.current k.nresponses k.nattempts r)).tasks = _ ∧
      update k.completion k.nresponses none r = none
    rcases eq_or_ne r k.nresponses with rfl | hne
    · have hfresh := h.freshResponse k.nresponses (Nat.le_refl _)
      simp only [update_self]
      refine ⟨?_, trivial⟩
      show [(k.nresponses, 0)] = [(k.nresponses, (retries k.nresponses k.history).length)]
      rw [hfresh.2]
      rfl
    · have hr' : r < k.nresponses := Nat.lt_of_le_of_ne (Nat.le_of_lt_succ hr) hne
      have hlt := Nat.ne_of_lt (h.currentMade r hr')
      rw [update_of_ne hne, update_of_ne hlt] at hp ⊢
      rw [update_of_ne hne]
      exact h.pending r hr' hp
  unsettled := h.unsettled_update _
  attemptOnce := h.attemptOnce
  freshAttempt := h.freshAttempt_update _
  uncompleted r hr := by
    change update k.completion k.nresponses none r = none at hr
    rcases eq_or_ne r k.nresponses with rfl | hne
    · exact h.uncompleted _ (h.freshResponse _ (Nat.le_refl _)).1
    · rw [update_of_ne hne] at hr
      exact h.uncompleted r hr
  completionOnce := h.completionOnce
  freshResponse r hr := by
    have hne : r ≠ k.nresponses := Nat.ne_of_gt hr
    show update k.completion k.nresponses none r = none ∧ _
    rw [update_of_ne hne]
    exact h.freshResponse r (Nat.le_of_succ_le hr)
  completedBy := h.completedBy
  inOrder := h.inOrder

/-- The pending current attempt of `r` is settled. -/
theorem settle (h : Orderly k) {r : RespId} (hr : r < k.nresponses)
    (hp : (k.attempts (k.current r)).outcome = none)
    (c : ConnId) (o : Outcome Nat) :
    Orderly { k with
      attempts := update k.attempts (k.current r) { outcome := some o, tasks := [] }
      history := k.history ++ [.settled c r (k.current r)] } where
  currentMade := h.currentMade
  currentOwn := h.currentOwn
  pending s hs hp' := by
    change (update k.attempts (k.current r) _ (k.current s)).outcome = none at hp'
    show (update k.attempts (k.current r) _ (k.current s)).tasks =
      [(s, (retries s (k.history ++ _)).length)] ∧ _
    by_cases he : k.current s = k.current r
    · rw [he, update_self] at hp'
      cases hp'
    · rw [update_of_ne he] at hp' ⊢
      rw [retries_settled]
      exact h.pending s hs hp'
  unsettled a ha := by
    change (update k.attempts (k.current r) _ a).outcome = none at ha
    by_cases he : a = k.current r
    · rw [he, update_self] at ha
      cases ha
    · rw [update_of_ne he] at ha
      simp [List.countP_append, Deed.settles, Ne.symm he, h.unsettled a ha]
  attemptOnce a := by
    rw [List.countP_append, List.countP_singleton]
    by_cases he : k.current r = a
    · subst he
      simp [Deed.settles, h.unsettled _ hp]
    · simp [Deed.settles, he, h.attemptOnce a]
  freshAttempt a ha := by
    show update k.attempts (k.current r) _ a = {}
    rw [update_of_ne (Nat.ne_of_gt (Nat.lt_of_lt_of_le (h.currentMade r hr) ha))]
    exact h.freshAttempt a ha
  uncompleted s hs := by
    simp [List.countP_append, Deed.completes, h.uncompleted s hs]
  completionOnce s := by
    simp [List.countP_append, Deed.completes, h.completionOnce s]
  freshResponse s hs := by
    rw [retries_settled]
    exact h.freshResponse s hs
  completedBy := h.completedBy_append nofun
  inOrder s := by
    rw [retries_settled]
    exact h.inOrder s

/-- `on_completion` is asked with the next retry number. -/
theorem ask (h : Orderly k) {r : RespId} (hr : r < k.nresponses)
    (hready : (k.attempts (k.current r)).outcome ≠ none) (a : AttemptId) (v : Verdict) :
    Orderly (k.ask r a (retries r k.history).length v) where
  currentMade := h.currentMade
  currentOwn := h.currentOwn
  pending s hs hp := by
    have hne : r ≠ s := by
      rintro rfl
      exact hready hp
    show _ = [(s, (retries s (k.history ++ _)).length)] ∧ _
    rw [retries_asked_of_ne _ _ hne]
    exact h.pending s hs hp
  unsettled b hb := by
    simpa [Completions.ask, List.countP_append, Deed.settles] using
      h.unsettled b hb
  attemptOnce b := by
    simpa [Completions.ask, List.countP_append, Deed.settles] using
      h.attemptOnce b
  freshAttempt := h.freshAttempt
  uncompleted s hs := by
    simpa [Completions.ask, List.countP_append, Deed.completes] using
      h.uncompleted s hs
  completionOnce s := by
    simpa [Completions.ask, List.countP_append, Deed.completes] using
      h.completionOnce s
  freshResponse s hs := by
    have hne : r ≠ s := Nat.ne_of_lt (Nat.lt_of_lt_of_le hr hs)
    show _ ∧ retries s (k.history ++ _) = []
    rw [retries_asked_of_ne _ _ hne]
    exact h.freshResponse s hs
  completedBy := h.completedBy_append nofun
  inOrder s := by
    show retries s (k.history ++ _) = List.range (retries s (k.history ++ _)).length
    by_cases he : r = s
    · subst he
      rw [retries_asked, List.length_append, List.length_singleton, List.range_succ, ← h.inOrder r]
    · rw [retries_asked_of_ne _ _ he]
      exact h.inOrder s

/-- `completion()` is settled behind the answer. -/
theorem complete (h : Orderly k) {r : RespId} {a : AttemptId} (hr : r < k.nresponses)
    (hready : (k.attempts (k.current r)).outcome ≠ none) (hc : k.completion r = none)
    (hasked : ∃ n v, v ≠ .retry ∧ Deed.asked r a n v ∈ k.history) (o : Outcome Nat) :
    Orderly { k with
      completion := update k.completion r (some o)
      history := k.history ++ [.completed r a] } where
  currentMade := h.currentMade
  currentOwn := h.currentOwn
  pending s hs hp := by
    have hne : s ≠ r := by
      rintro rfl
      exact hready hp
    show _ = [(s, (retries s (k.history ++ _)).length)] ∧ update k.completion r (some o) s = none
    rw [retries_completed, update_of_ne hne]
    exact h.pending s hs hp
  unsettled b hb := by
    simpa [List.countP_append, Deed.settles] using h.unsettled b hb
  attemptOnce b := by
    simpa [List.countP_append, Deed.settles] using h.attemptOnce b
  freshAttempt := h.freshAttempt
  uncompleted s hs := by
    change update k.completion r (some o) s = none at hs
    rcases eq_or_ne s r with rfl | hne
    · simp at hs
    · rw [update_of_ne hne] at hs
      simp [List.countP_append, Deed.completes, Ne.symm hne,
        h.uncompleted s hs]
  completionOnce s := by
    rw [List.countP_append, List.countP_singleton]
    by_cases he : r = s
    · subst he
      simp [Deed.completes, h.uncompleted r hc]
    · simp [Deed.completes, he, h.completionOnce s]
  freshResponse s hs := by
    show update k.completion r (some o) s = none ∧ retries s (k.history ++ _) = []
    rw [retries_completed, update_of_ne (Nat.ne_of_gt (Nat.lt_of_lt_of_le hr hs))]
    exact h.freshResponse s hs
  completedBy := h.completedBy_append fun s b he => by
    cases he
    exact hasked
  inOrder s := by
    rw [retries_completed]
    exact h.inOrder s

/-- The next attempt is made, with the handler for the next retry. -/
theorem reset (h : Orderly k) {r : RespId} (hc : k.completion r = none) :
    Orderly (k.reset r (retries r k.history).length) where
  currentMade s hs := by
    show update k.current r k.nattempts s < k.nattempts + 1
    rcases eq_or_ne s r with rfl | hne
    · simp
    · rw [update_of_ne hne]
      exact Nat.lt_succ_of_lt (h.currentMade s hs)
  currentOwn s t hs ht he := by
    change update k.current r k.nattempts s = update k.current r k.nattempts t at he
    by_cases hs' : s = r <;> by_cases ht' : t = r
    · exact hs'.trans ht'.symm
    · rw [hs', update_self, update_of_ne ht'] at he
      exact absurd he (Nat.ne_of_gt (h.currentMade t ht))
    · rw [ht', update_self, update_of_ne hs'] at he
      exact absurd he (Nat.ne_of_lt (h.currentMade s hs))
    · rw [update_of_ne hs', update_of_ne ht'] at he
      exact h.currentOwn s t hs ht he
  pending s hs hp := by
    change (update k.attempts k.nattempts _ (update k.current r k.nattempts s)).outcome = none at hp
    show (update k.attempts k.nattempts _ (update k.current r k.nattempts s)).tasks = _ ∧ _
    rcases eq_or_ne s r with rfl | hne
    · rw [update_self, update_self]
      exact ⟨rfl, hc⟩
    · rw [update_of_ne hne, update_of_ne (Nat.ne_of_lt (h.currentMade s hs))] at hp ⊢
      exact h.pending s hs hp
  unsettled := h.unsettled_update _
  attemptOnce := h.attemptOnce
  freshAttempt := h.freshAttempt_update _
  uncompleted := h.uncompleted
  completionOnce := h.completionOnce
  freshResponse := h.freshResponse
  completedBy := h.completedBy
  inOrder := h.inOrder

end Orderly

/-! ## The handlers -/

/-- The futures are orderly, and none was settled twice. -/
def Settling (x : Completions × Option Fault) : Prop := Orderly x.1 ∧ x.2 ≠ some .settledTwice

namespace Settling

variable {w : World} {c : ConnId}

/-- **Settling an attempt unless it is ready**: the one callback of a pending
attempt runs, and finds `completion()` pending. -/
theorem settleUnlessReady (h : Settling w.futures) {r : RespId} (hr : r < w.completions.nresponses)
    (o : Outcome Nat) (v : Verdict) : Settling (w.settleUnlessReady c r o v).futures := by
  rcases w.settleUnlessReady_cases c r o v with ⟨-, he⟩ | ⟨hp, he⟩
  · rw [he]
    exact h
  · have ho : Orderly w.completions := h.1
    obtain ⟨htasks, hc⟩ := ho.pending r hr hp
    rw [he, htasks, List.foldl_cons, List.foldl_nil]
    have hsettled := ho.settle hr hp c o
    have hready : (update w.completions.attempts (w.completions.current r)
        { outcome := some o, tasks := [] } (w.completions.current r)).outcome ≠ none := by
      simp
    have hasked := hsettled.ask hr hready (w.completions.current r) v
    simp only [retries_settled] at hasked
    refine World.completionHandler_cases (P := fun u => Settling u.futures) _ _ o v r _ ?_ ?_ ?_
    · intro o' hv _ _
      refine ⟨hasked.complete hr hready hc
        ⟨(retries r w.completions.history).length, v, hv, ?_⟩ o', h.2⟩
      exact List.mem_append_right _ (List.mem_singleton_self _)
    · intro hc'
      exact absurd hc hc'
    · intro _
      rw [World.futures_nextThen]
      refine ⟨?_, h.2⟩
      have hreset := hasked.reset hc
      simp only [Completions.ask, retries_asked, retries_settled, List.length_append,
        List.length_singleton] at hreset
      exact hreset

/-- What settling an attempt comes to, in full: the attempt was ready; or it was
pending and `completion()` is settled; or it was pending and the next attempt is
made and waits for a connection. -/
theorem settleUnlessReady_cases (h : Settling w.futures) {r : RespId}
    (hr : r < w.completions.nresponses) (o : Outcome Nat) (v : Verdict) :
    ((w.completions.attempts (w.completions.current r)).outcome ≠ none ∧
      w.settleUnlessReady c r o v = w) ∨
    ((w.completions.attempts (w.completions.current r)).outcome = none ∧
      w.completions.completion r = none ∧ ∃ n,
      ((v ≠ .retry ∧ ∃ o', (o' = o ∨ (v ≠ .accept ∧ ∃ e, o' = .failed e)) ∧
        w.settleUnlessReady c r o v = { w with completions := { w.completions with
          attempts := update w.completions.attempts (w.completions.current r)
            { outcome := some o, tasks := [] }
          completion := update w.completions.completion r (some o')
          history := w.completions.history ++ [.settled c r (w.completions.current r)] ++
            [.asked r (w.completions.current r) n v] ++
            [.completed r (w.completions.current r)] } }) ∨
       (v = .retry ∧
        w.settleUnlessReady c r o v = ({ w with
          completions := { w.completions with
            attempts := update (update w.completions.attempts (w.completions.current r)
              { outcome := some o, tasks := [] }) w.completions.nattempts { tasks := [(r, n + 1)] }
            nattempts := w.completions.nattempts + 1
            current := update w.completions.current r w.completions.nattempts
            history := w.completions.history ++ [.settled c r (w.completions.current r)] ++
              [.asked r (w.completions.current r) n v] }
          responses := update w.responses r (w.responses r).reset
          sources := update w.sources r [] } : World).nextThen (.writeRequest r)))) := by
  rcases w.settleUnlessReady_cases c r o v with ⟨hready, he⟩ | ⟨hp, he⟩
  · exact .inl ⟨hready, he⟩
  · have ho : Orderly w.completions := h.1
    obtain ⟨htasks, hc⟩ := ho.pending r hr hp
    refine .inr ⟨hp, hc, (retries r w.completions.history).length, ?_⟩
    rw [he, htasks, List.foldl_cons, List.foldl_nil]
    cases v with
    | accept =>
      refine .inl ⟨by simp, o, .inl rfl, ?_⟩
      simp [World.completionHandler, World.complete, Completions.complete, Completions.ask, hc]
    | throw e =>
      refine .inl ⟨by simp, .failed e, .inr ⟨by simp, e, rfl⟩, ?_⟩
      simp [World.completionHandler, World.complete, Completions.complete, Completions.ask, hc]
    | retry => exact .inr ⟨rfl, rfl⟩

/-- Settling leaves a connection alone that is not available. -/
theorem conns_settleUnlessReady (h : Settling w.futures) {r : RespId}
    (hr : r < w.completions.nresponses) (hc : c ∉ w.pool.available) (d : ConnId) (o : Outcome Nat)
    (v : Verdict) : (w.settleUnlessReady d r o v).conns c = w.conns c := by
  rcases h.settleUnlessReady_cases (c := d) hr o v with
    ⟨-, he⟩ | ⟨-, -, n, ⟨-, o', -, he⟩ | ⟨-, he⟩⟩ <;> rw [he]
  exact World.conns_nextThen _ c _ hc

/-- The attempt is ready afterwards, and so is what was ready before. -/
theorem ready_settleUnlessReady (h : Settling w.futures) {r : RespId}
    (hr : r < w.completions.nresponses) {a : AttemptId} (ha : a < w.completions.nattempts)
    (hready : (w.completions.attempts a).outcome ≠ none ∨ a = w.completions.current r)
    (d : ConnId) (o : Outcome Nat) (v : Verdict) :
    ((w.settleUnlessReady d r o v).completions.attempts a).outcome ≠ none := by
  have hnew : (update w.completions.attempts (w.completions.current r)
      { outcome := some o, tasks := [] } a).outcome ≠ none := by
    rcases eq_or_ne a (w.completions.current r) with rfl | hne
    · simp
    · rw [update_of_ne hne]
      exact hready.resolve_right hne
  rcases h.settleUnlessReady_cases (c := d) hr o v with
    ⟨hp, he⟩ | ⟨-, -, n, ⟨-, o', -, he⟩ | ⟨-, he⟩⟩ <;> rw [he]
  · rcases hready with hready | rfl
    · exact hready
    · exact hp
  · exact hnew
  · rw [World.completions_nextThen]
    show (update (update w.completions.attempts (w.completions.current r)
      { outcome := some o, tasks := [] }) w.completions.nattempts
      { tasks := [(r, n + 1)] } a).outcome ≠ none
    rw [update_of_ne (Nat.ne_of_lt ha)]
    exact hnew

theorem failResponse (h : Settling w.futures)
    (hres : ∀ r, (w.conns c).res = some r → r < w.completions.nresponses) (err : Bytes)
    (v : Verdict) : Settling (w.failResponse c err v).futures := by
  rw [World.failResponse]
  split
  · rename_i r hr
    exact h.settleUnlessReady (hres r hr) _ v
  · exact h

/-- `close()` and then failing the response. -/
theorem closeAndFail (h : Settling w.futures)
    (hres : ∀ r, (w.conns c).res = some r → r < w.completions.nresponses) (err : Bytes)
    (v : Verdict) : Settling ((w.close c).failResponse c err v).futures := by
  have hk := w.completions_close c
  refine failResponse (by rwa [World.futures_close]) ?_ err v
  intro r hr
  rw [World.res_close] at hr
  rw [hk]
  exact hres r hr

/-- The end of a response; the queued requests are pending. -/
theorem extractNextBodyChunk (h : Settling w.futures) {r : RespId}
    (hr : (w.conns c).res = some r) (hknown : r < w.completions.nresponses)
    (hq : ∀ q ∈ w.pool.next_, (w.pool.queued q).outcome = none) (data : Bytes) (v : Verdict) :
    Settling (w.extractNextBodyChunk c data v).futures := by
  have stored : ∀ u, (u = w ∨ ∃ m, u = w.store c r m) → u.futures = w.futures ∧
      u.pool = w.pool := by
    rintro u (rfl | ⟨m, rfl⟩) <;> exact ⟨rfl, rfl⟩
  refine World.extractNextBodyChunk_cases (P := fun u => Settling u.futures) data hr ?_ ?_
  · intro u s hu
    obtain ⟨hf, -⟩ := stored u hu
    rw [World.futures_close]
    refine settleUnlessReady (w := (u.modConn c _).note _) ?_ ?_ _ v
    · exact hf ▸ h
    · show r < u.futures.1.nresponses
      rw [hf]
      exact hknown
  · intro u s hu
    obtain ⟨hf, hpool⟩ := stored u hu
    have hrel : ((((u.modConn c fun k => { k with res := none }).note (.finished c r)).handleResponse
        c).release c).futures = w.futures := by
      rw [World.futures_release]
      · exact hf
      · show ∀ q ∈ u.pool.next_, (u.pool.queued q).outcome = none
        rw [hpool]
        exact hq
    refine settleUnlessReady ?_ ?_ _ v
    · rw [hrel]
      exact h
    · show r < (World.futures _).1.nresponses
      rw [hrel]
      exact hknown

/-- What a read handler does on a connection that carries a response. -/
theorem readOutcome {w' : World} {r : RespId} {v : Verdict} {gaveUp : Prop}
    (out : ReadOutcome c r v gaveUp w w') (h : Settling w.futures)
    (hr : (w.conns c).res = some r) (hknown : r < w.completions.nresponses)
    (hq : ∀ q ∈ w.pool.next_, (w.pool.queued q).outcome = none) : Settling w'.futures := by
  induction out with
  | timer _ ih => exact ih h (by simp [hr]) hknown hq
  | parser _ _ _ _ ih => exact ih h (by simp [World.modConn, hr]) hknown hq
  | store _ _ ih => exact ih h hr hknown hq
  | idle => exact h
  | waits => exact h
  | escaped => exact h
  | givenUp w err _ =>
    refine h.closeAndFail ?_ err v
    intro s hs
    rw [hr] at hs
    cases hs
    exact hknown
  | finished w data => exact h.extractNextBodyChunk hr hknown hq data v

theorem finishRead (hw : Exclusive w) (h : Settling w.futures) (op : ReadOp)
    (hpoint : op.point ≠ .status → (w.conns c).res ≠ none) (result : Except Bytes Nat)
    (v : Verdict) : Settling (w.finishRead c op result v).futures := by
  cases result with
  | error err =>
    simp only [World.finishRead]
    split
    · exact h.closeAndFail (hw.conn c).known _ v
    · rwa [World.futures_close]
  | ok pos =>
    by_cases hp : op.point = .status
    · obtain ⟨input, hcases⟩ := World.finishRead_status (w := w) (c := c) (v := v) op pos hp
      rcases hcases with he | ⟨-, he⟩ | ⟨r, parsed, -, ⟨e, -, he⟩ | ⟨-, he⟩⟩ <;> rw [he]
      · exact h
      · rwa [World.futures_close]
      · exact h
      · exact h
    · obtain ⟨r, hr⟩ := Option.ne_none_iff_exists'.mp (hpoint hp)
      exact readOutcome (World.finishRead_outcome op pos hp hr) h hr ((hw.conn c).known r hr)
        (fun q hq => (hw.queues.pending q hq).2)

theorem finishWrite (hw : Exclusive w) (h : Settling w.futures) (result : Except Bytes Unit)
    (v : Verdict) : Settling (w.finishWrite c result v).futures := by
  cases result with
  | ok => exact h
  | error err =>
    simp only [World.finishWrite]
    split
    · exact ⟨h.1, by simp [World.futures, World.faulted]⟩
    · rename_i r hr
      rw [World.futures_close]
      exact h.settleUnlessReady ((hw.conn c).known r hr) _ v

theorem finishWait (hw : Exclusive w) (h : Settling w.futures) (t : Wait) (v : Verdict) :
    Settling (w.finishWait c t v).futures := by
  simp only [World.finishWait]
  split
  · refine closeAndFail (w := w.cancelTimer c) h ?_ _ v
    intro r hr
    refine (hw.conn c).known r ?_
    simpa [World.cancelTimer, World.modConn] using hr
  · exact h

/-- The future of a pending connection is done. -/
theorem settleOpened (hw : Exclusive w) (h : Settling w.futures)
    (ho : (w.pool.opened c).outcome = none) : Settling (w.settleOpened c).futures := by
  rcases w.settleOpened_cases c ho (hw.queues.openedOne c) with ⟨-, he⟩ | ⟨t, -, he⟩ | ⟨-, he⟩
  · rw [he]
    exact h
  · rw [he, World.futures_hand]
    exact h
  · rw [he, World.futures_release]
    · exact h
    · exact fun q hq => (hw.queues.pending q hq).2

theorem finishSetup (hw : Exclusive w) (h : Settling w.futures) (hc : c < w.pool.created)
    (ho : (w.pool.opened c).outcome = none) (hs : (w.conns c).setup = none)
    (hreads : (w.conns c).reads = []) (stage : Stage) (result : Except Bytes Unit) :
    Settling (w.finishSetup c stage result).futures := by
  have hready : Settling (w.ready c).futures := by
    have hw₁ := (hw.extendTimer hc).addRead (c := c) hc
      (by simp [World.conns_extendTimer, hreads]) (by simp [World.conns_extendTimer, hs])
      { point := .status, result := (find crlf ((w.extendTimer c).conns c).input).map .ok }
      (fun _ => rfl)
    exact settleOpened hw₁ h ho
  cases result with
  | error err => rwa [World.finishSetup, World.futures_close]
  | ok =>
    cases stage with
    | resolve => exact h
    | connect =>
      simp only [World.finishSetup]
      split
      · exact h
      · exact hready
    | handshake => exact hready

/-! ## The events -/

/-- **Every event keeps the futures in order.** -/
theorem step (h : Settling w.futures) (hw : Exclusive w) {e : Event} {w' : World}
    (hstep : w.step e = some w') : Settling w'.futures := by
  obtain ⟨-, hstep⟩ := World.step_eq_some hstep
  cases e with
  | request q stall =>
    cases hstep
    rw [World.request, World.futures_nextThen]
    exact ⟨h.1.create, h.2⟩
  | next =>
    cases hstep
    rwa [World.futures_nextThen]
  | release c =>
    obtain ⟨-, rfl⟩ := World.release_inv hstep
    rw [World.futures_release]
    · exact h
    · exact fun q hq => (hw.queues.pending q hq).2
  | close c =>
    obtain ⟨-, -, rfl⟩ := World.close_inv hstep
    rwa [World.futures_close]
  | remove c =>
    obtain ⟨-, rfl⟩ := World.remove_inv hstep
    exact h
  | maxConnections n =>
    cases hstep
    exact h
  | limitConnections b =>
    cases hstep
    exact h
  | setupDone c result =>
    obtain ⟨stage, -, -, -, rfl⟩ := World.setupDone_inv hstep
    exact h
  | runSetup c =>
    obtain ⟨stage, result, hs, rfl⟩ := World.runSetup_inv hstep
    have hc := hw.created_of_setup hs
    obtain ⟨hw₁, ho, hreads⟩ := hw.beforeSetup hs hc
    exact finishSetup hw₁ h hc ho (by simp [World.modConn]) hreads stage result
  | receive c i bytes =>
    obtain ⟨op, -, -, -, -, rfl⟩ := World.receive_inv hstep
    exact h
  | readFails c i err =>
    obtain ⟨op, -, -, rfl⟩ := World.readFails_inv hstep
    exact h
  | runRead c i v =>
    obtain ⟨op, result, hop, -, rfl⟩ := World.runRead_inv hstep
    obtain ⟨hw₁, -, hpoint⟩ := hw.beforeRead hop
    exact finishRead hw₁ h op hpoint result v
  | writeDone c i result =>
    obtain ⟨op, -, -, -, rfl⟩ := World.writeDone_inv hstep
    exact h
  | runWrite c i v =>
    obtain ⟨op, result, hop, -, rfl⟩ := World.runWrite_inv hstep
    exact finishWrite (hw.beforeWrite hop) h result v
  | expire c i =>
    obtain ⟨t, -, -, rfl⟩ := World.expire_inv hstep
    exact h
  | runWait c i v =>
    obtain ⟨t, ht, -, rfl⟩ := World.runWait_inv hstep
    exact finishWait (hw.beforeWait ht) h t v

end Settling

theorem Settling.completesOnce {w : World} (h : Settling w.futures) : CompletesOnce w where
  noneTwice := h.2
  attemptOnce := h.1.attemptOnce
  completionOnce := h.1.completionOnce
  completedBy := h.1.completedBy
  inOrder := h.1.inOrder

/-- Connections are used exclusively and futures are settled once: what the
proofs about runs start from. -/
structure Steady (w : World) : Prop where
  exclusive : Exclusive w
  settling : Settling w.futures

namespace Steady

variable {w w' : World}

theorem init (eraseEnd : List (Option FutId) → List (Option FutId)) (tls limit : Bool) (max : Nat) :
    Steady (World.init eraseEnd tls limit max) :=
  ⟨Exclusive.init eraseEnd tls limit max, Orderly.init, by simp [World.futures, World.init]⟩

theorem step (h : Steady w) {e : Event} (hstep : w.step e = some w') : Steady w' :=
  ⟨h.exclusive.step hstep, h.settling.step h.exclusive hstep⟩

/-- Both hold in every reachable state. -/
theorem run {ok : World → Event → Prop} {eraseEnd : List (Option FutId) → List (Option FutId)}
    {tls limit : Bool} {max : Nat}
    (run : Run World.step ok (World.init eraseEnd tls limit max) w) : Steady w :=
  run.invariant (init eraseEnd tls limit max) fun h _ hstep => h.step hstep

end Steady

/-- **A request completes at most once** in every run, whatever the verdicts and
the order of the events. -/
theorem completesOnce_of_run {eraseEnd : List (Option FutId) → List (Option FutId)}
    {tls limit : Bool} {max : Nat} {w : World}
    (run : Run World.step anyEvent (World.init eraseEnd tls limit max) w) : CompletesOnce w :=
  (Steady.run run).settling.completesOnce

/-- The first connection breaks, the request is retried and the second answers. -/
def retriedRequest : List Event :=
  [.request getRequest 30000] ++ connects 0 ++
    [.readFails 0 0 (ascii "End of file"), .runRead 0 0 .retry] ++ connects 1 ++
    [.receive 1 0 shortResponse, .runRead 1 0 .accept, .runRead 1 0 .accept, .runRead 1 0 .accept]

/-- In the retried run two attempts are settled, `on_completion` is asked with 0
and with 1, and `completion()` is settled once. -/
theorem completesOnce_retriedRequest :
    ∃ w, exec World.step (World.init id false true 1) retriedRequest = some w ∧
      w.completions.history = [.settled 0 0 0, .asked 0 0 0 .retry, .settled 1 0 1,
        .asked 0 1 1 .accept, .completed 0 1] ∧
      CompletesOnce w := by
  have hhist : (exec World.step (World.init id false true 1) retriedRequest).map
      (fun w => w.completions.history) = some [.settled 0 0 0, .asked 0 0 0 .retry, .settled 1 0 1,
        .asked 0 1 1 .accept, .completed 0 1] := by decide
  obtain ⟨w, hw, hhist⟩ := Option.map_eq_some_iff.mp hhist
  exact ⟨w, hw, hhist,
    completesOnce_of_run (Run.of_exec (fun _ _ => trivial) retriedRequest hw)⟩

end AsioProtocols
