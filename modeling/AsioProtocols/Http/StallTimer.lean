import AsioProtocols.Http.Effects

/-!
# The stall timer

`extend_timer()` cancels the wait that is pending and arms another, so a wait that it
has superseded should do nothing any more. A wait whose deadline has passed is no longer
pending: its handler is queued with a success code, and `extend_timer()` cannot take that
back. Run later, it resets the timer that was armed meanwhile, closes the connection and
fails the response, though there was no stall.

`Supersession` is the history that says of each wait whether it has been superseded, and
`StallOnly` that the handler of such a wait does nothing. It holds as long as no step
calls `extend_timer()` on a connection that has an expired wait whose handler is queued
(`World.timely`).
-/

namespace AsioProtocols

open Function

/-! ## The property -/

/-- For each wait of a connection, whether `extend_timer()` has been called since it was
armed. -/
abbrev Supersession := ConnId → List Bool

/-- The wait whose handler an event runs is taken off those of its connection. -/
def Supersession.without (s : Supersession) (e : Event) (c : ConnId) : List Bool :=
  match e with
  | .runWait d i _ => if d = c then (s c).eraseIdx i else s c
  | _ => s c

/-- What a step does to the history. Each call of `extend_timer()` arms one wait, behind
those there are. -/
def World.supersede (_ : World) (e : Event) (w' : World) (s : Supersession) : Supersession :=
  fun c =>
    if (s.without e c).length < (w'.conns c).waits.length then
      List.replicate ((w'.conns c).waits.length - 1) true ++ [false]
    else s.without e c

/-- **The stall timer only fires on a stall**: the handler of a superseded wait does
nothing, it neither closes the connection, nor fails a response, nor cancels another
wait. -/
def StallOnly (w : World) (s : Supersession) : Prop :=
  ∀ c i v w', (s c)[i]? = some true → w.step (.runWait c i v) = some w' →
    w' = w.modConn c fun k => { k with waits := k.waits.eraseIdx i }

/-- No wait of `c` has expired with its handler still queued. -/
def World.calm (w : World) (c : ConnId) : Bool :=
  (w.conns c).waits.all (·.status != .expired)

/-- The step calls `extend_timer()`, by itself or by giving a connection to a request, on
calm connections only. -/
def World.timely (w : World) (e : Event) : Bool := (w.arms e ++ w.handsTo e).all w.calm

/-! ## Waits -/

namespace Wait

variable {t : Wait}

theorem cancel_cancel : t.cancel.cancel = t.cancel := by
  rcases t with ⟨target, _ | _ | _⟩ <;> rfl

theorem status_cancel (h : t.status ≠ .expired) : t.cancel.status = .cancelled := by
  rcases t with ⟨target, _ | _ | _⟩
  · rfl
  · rfl
  · exact absurd rfl h

theorem cancel_of_cancelled (h : t.status = .cancelled) : t.cancel = t := by
  rcases t with ⟨target, _ | _ | _⟩
  · cases h
  · rfl
  · cases h

end Wait

/-- What may become of the waits of a connection: they stay, they are cancelled, or, if
`armed`, they are cancelled and others are armed behind them, all but the last of which
are cancelled too. -/
def Rearmed (armed : Prop) (old new : List Wait) : Prop :=
  (new = old ∨ new = old.map Wait.cancel) ∨
  (armed ∧ ∃ middle last, (∀ t ∈ middle, t.status = .cancelled) ∧ last.status ≠ .expired ∧
    new = old.map Wait.cancel ++ middle ++ [last])

namespace Rearmed

variable {armed : Prop} {old new : List Wait}

theorem map_cancel_cancel (l : List Wait) :
    (l.map Wait.cancel).map Wait.cancel = l.map Wait.cancel := by
  simp [Wait.cancel_cancel]

theorem map_cancel_of_cancelled {l : List Wait} (h : ∀ t ∈ l, t.status = .cancelled) :
    l.map Wait.cancel = l :=
  (List.map_congr_left fun t ht => Wait.cancel_of_cancelled (h t ht)).trans l.map_id

theorem cancel (h : Rearmed armed old new) : Rearmed armed old (new.map Wait.cancel) := by
  obtain (rfl | rfl) | ⟨harmed, middle, last, hmiddle, hlast, rfl⟩ := h
  · exact .inl (.inr rfl)
  · exact .inl (.inr (map_cancel_cancel old))
  · refine .inr ⟨harmed, middle, last.cancel, hmiddle, ?_, ?_⟩
    · rw [Wait.status_cancel hlast]
      simp
    · simp only [List.map_append, map_cancel_cancel, map_cancel_of_cancelled hmiddle,
        List.map_singleton]

theorem arm (h : Rearmed armed old new) (harmed : armed) (target : Nat) :
    Rearmed armed old (new.map Wait.cancel ++ [{ target := target }]) := by
  refine .inr ⟨harmed, ?_⟩
  obtain (rfl | rfl) | ⟨-, middle, last, hmiddle, hlast, rfl⟩ := h
  · exact ⟨[], { target := target }, by simp, by simp, by simp⟩
  · exact ⟨[], { target := target }, by simp, by simp, by simp [Wait.cancel_cancel]⟩
  · refine ⟨middle ++ [last.cancel], { target := target }, ?_, by simp, ?_⟩
    · intro t ht
      obtain ht | ht := List.mem_append.mp ht
      · exact hmiddle t ht
      · rw [List.mem_singleton.mp ht]
        exact Wait.status_cancel hlast
    · simp only [List.map_append, map_cancel_cancel, map_cancel_of_cancelled hmiddle,
        List.map_singleton, List.append_assoc]

end Rearmed

/-- What an effect does to the waits. -/
theorem Effect.waits {arms gives ends : Prop} {x y : Conn × List RespId}
    (h : Effect arms gives ends x y) : Rearmed (arms ∨ gives) x.1.waits y.1.waits := by
  induction h with
  | refl => exact .inl (.inl rfl)
  | inner _ waits _ _ _ _ ih => exact waits ▸ ih
  | cancel _ ih => exact ih.cancel
  | shut _ ih => exact ih.cancel
  | arm _ h target ih => exact ih.arm (.inl h) target
  | clear _ _ _ ih => exact ih
  | give _ h _ r a stall data ih => exact ih.arm (.inr h) stall

/-! ## The invariant -/

/-- The waits of one connection that the history calls superseded are cancelled. -/
structure Stamped (waits : List Wait) (superseded : List Bool) : Prop where
  length : superseded.length = waits.length
  cancelled : ∀ (i : Nat) (t : Wait), superseded[i]? = some true → waits[i]? = some t →
    t.status = .cancelled

namespace Stamped

variable {waits waits' : List Wait} {superseded : List Bool}

/-- A wait whose handler runs is taken off both. -/
theorem eraseIdx (h : Stamped waits superseded) (i : Nat) :
    Stamped (waits.eraseIdx i) (superseded.eraseIdx i) where
  length := by simp [List.length_eraseIdx, h.length]
  cancelled j t hs ht := by
    rw [List.getElem?_eraseIdx] at hs ht
    split at hs <;> rename_i hj
    · rw [if_pos hj] at ht
      exact h.cancelled j t hs ht
    · rw [if_neg hj] at ht
      exact h.cancelled (j + 1) t hs ht

/-- A wait that expires was pending, and so not superseded. -/
theorem expire (h : Stamped waits superseded) {i : Nat} {t : Wait} (ht : waits[i]? = some t)
    (hpending : t.status = .pending) :
    Stamped (waits.modify i fun t => { t with status := .expired }) superseded where
  length := by rw [List.length_modify, h.length]
  cancelled j u hs hu := by
    rw [List.getElem?_modify] at hu
    by_cases hj : i = j
    · subst hj
      have := h.cancelled i t hs ht
      rw [hpending] at this
      cases this
    · simp only [hj, if_false] at hu
      exact h.cancelled j u hs (by simpa using hu)

/-- **The timer of a calm connection may be armed.** -/
theorem rearmed {armed : Prop} (h : Stamped waits superseded) (hr : Rearmed armed waits waits')
    (hcalm : armed → ∀ t ∈ waits, t.status ≠ .expired) :
    Stamped waits' (if superseded.length < waits'.length then
      List.replicate (waits'.length - 1) true ++ [false] else superseded) := by
  obtain (rfl | rfl) | ⟨harmed, middle, last, hmiddle, hlast, rfl⟩ := hr
  · rw [if_neg (by simp [h.length])]
    exact h
  · rw [if_neg (by simp [h.length])]
    refine ⟨by simp [h.length], fun i t hs ht => ?_⟩
    rw [List.getElem?_map] at ht
    obtain ⟨u, hu, rfl⟩ := Option.map_eq_some_iff.mp ht
    rw [Wait.cancel_of_cancelled (h.cancelled i u hs hu)]
    exact h.cancelled i u hs hu
  · rw [if_pos (by simp [h.length])]
    refine ⟨by simp [Nat.add_assoc], fun i t hs ht => ?_⟩
    have hbefore : ∀ t ∈ waits.map Wait.cancel ++ middle, t.status = .cancelled := by
      intro t ht
      obtain ht | ht := List.mem_append.mp ht
      · obtain ⟨u, hu, rfl⟩ := List.mem_map.mp ht
        exact Wait.status_cancel (hcalm harmed u hu)
      · exact hmiddle t ht
    have hi : i < (waits.map Wait.cancel ++ middle).length := by
      by_contra hi
      rw [List.getElem?_append_right (by simpa using hi)] at hs
      obtain ⟨hlt, hs⟩ := List.getElem?_eq_some_iff.mp hs
      simp at hs
    rw [List.getElem?_append_left hi] at ht
    exact hbefore t (List.mem_of_getElem? ht)

end Stamped

/-! ## Every run -/

namespace World

variable {w w' : World} {s : Supersession}

/-- The waits that the handler of an event finds, and the history without its own. -/
theorem stamped_before {e : Event} (h : ∀ c, Stamped (w.conns c).waits (s c))
    (hstep : w.step e = some w') (c : ConnId) :
    Stamped ((w.before e).conns c).waits (s.without e c) := by
  obtain ⟨-, hstep⟩ := step_eq_some hstep
  cases e with
  | expire d i =>
    obtain ⟨t, ht, hpending, -⟩ := expire_inv hstep
    simp only [before, conns_modConn_apply]
    by_cases hc : c = d
    · subst hc
      rw [if_pos rfl]
      exact (h c).expire ht hpending
    · rw [if_neg hc]
      exact h c
  | runWait d i v =>
    simp only [before, conns_modConn_apply, Supersession.without]
    by_cases hc : c = d
    · subst hc
      rw [if_pos rfl, if_pos rfl]
      exact (h c).eraseIdx i
    · rw [if_neg hc, if_neg (Ne.symm hc)]
      exact h c
  | _ =>
    rw [waits_before (by simp) (by simp)]
    exact h c

/-- A calm connection is calm when the handler starts. -/
theorem calm_before {e : Event} {c : ConnId} (hcalm : w.calm c = true)
    (huses : c ∈ w.arms e ∨ c ∈ w.handsTo e) :
    ∀ t ∈ ((w.before e).conns c).waits, t.status ≠ .expired := by
  have hcalm : ∀ t ∈ (w.conns c).waits, t.status ≠ .expired := by
    simpa [calm] using hcalm
  cases e with
  | expire d i => simp [arms, handsTo] at huses
  | runWait d i v =>
    simp only [before, conns_modConn_apply]
    split
    · exact fun t ht => hcalm t (List.mem_of_mem_eraseIdx ht)
    · exact hcalm
  | _ =>
    rw [waits_before (by simp) (by simp)]
    exact hcalm

/-- **The step**: a timely event leaves every superseded wait cancelled. -/
theorem stamped_step {e : Event} (hw : Steady w) (h : ∀ c, Stamped (w.conns c).waits (s c))
    (htimely : w.timely e = true) (hstep : w.step e = some w') :
    ∀ c, Stamped (w'.conns c).waits (w.supersede e w' s c) := by
  intro c
  have hcalm : ∀ d, d ∈ w.arms e ∨ d ∈ w.handsTo e → w.calm d = true := by
    simpa [timely, or_imp, forall_and] using htimely
  exact (stamped_before h hstep c).rearmed (step_effects hw hstep c).waits fun huses =>
    calm_before (hcalm c huses) huses

end World

/-- **The stall timer only fires on a stall**, in every run whose steps are timely. -/
theorem stallOnly_of_run {eraseEnd : List (Option FutId) → List (Option FutId)} {tls limit : Bool}
    {max : Nat} {w : World} {s : Supersession}
    (run : Run (recorded World.step World.supersede) (fun x e => x.1.timely e = true)
      (World.init eraseEnd tls limit max, fun _ => []) (w, s)) : StallOnly w s := by
  obtain ⟨-, hstamped⟩ := run.invariant_recorded (P := Steady)
    (Q := fun w s => ∀ c, Stamped (w.conns c).waits (s c))
    ⟨Steady.init eraseEnd tls limit max, fun _ => ⟨rfl, by simp⟩⟩
    (fun hw hstep => hw.step hstep) World.stamped_step
  intro c i v w' hs hstep
  obtain ⟨t, ht, -, rfl⟩ := World.runWait_inv (World.step_eq_some hstep).2
  have hcancelled := (hstamped c).cancelled i t hs ht
  rw [World.finishWait, hcancelled]

/-- The server sends a status line and then nothing more. -/
def stalls : List Event :=
  [.request getRequest 30000] ++ connects 0 ++
    [.receive 0 0 (ascii "HTTP/1.1 200 OK" ++ crlf), .runRead 0 0 .accept, .runWait 0 0 .accept,
      .expire 0 1, .runWait 0 1 .accept]

/-- The timer armed last closes the connection; the one before it, which was armed for
the request and superseded by the status line, is still to run. -/
theorem stallOnly_stalls :
    ∃ w s, exec (guarded (recorded World.step World.supersede) fun x e => x.1.timely e = true)
        (World.init id false true 1, fun _ => []) stalls = some (w, s) ∧
      ((w.conns 0).closed, s 0) = (true, [true]) ∧ StallOnly w s := by
  have hvals : (exec (guarded (recorded World.step World.supersede) fun x e => x.1.timely e = true)
      (World.init id false true 1, fun _ => []) stalls).map
      (fun x => ((x.1.conns 0).closed, x.2 0)) = some (true, [true]) := by decide
  obtain ⟨⟨w, s⟩, hw, hvals⟩ := Option.map_eq_some_iff.mp hvals
  exact ⟨w, s, hw, hvals, stallOnly_of_run (Run.of_guarded stalls hw)⟩

/-- The response has arrived when the deadline passes; the handler of its first read runs
before that of the timer. -/
def lateExpiry : List Event :=
  [.request getRequest 30000] ++ connects 0 ++
    [.receive 0 0 shortResponse, .expire 0 1, .runRead 0 0 .accept]

/-- **A wait that was superseded closes the connection**, though it is open and another
wait is pending for it. -/
theorem lateExpiry_closes :
    ∃ w s, exec (recorded World.step World.supersede) (World.init id false true 1, fun _ => [])
        lateExpiry = some (w, s) ∧
      (s 0, (w.conns 0).closed) = ([true, true, false], false) ∧
      (w.step (.runWait 0 1 .accept)).map (fun w' => ((w'.conns 0).closed,
        w'.completions.completion 0)) = some (true, some (.failed (World.timeoutText 30000))) ∧
      ¬ StallOnly w s := by
  have hvals : (exec (recorded World.step World.supersede)
      (World.init id false true 1, fun _ => []) lateExpiry).map
      (fun x => ((x.2 0, (x.1.conns 0).closed), (x.1.step (.runWait 0 1 .accept)).map fun w' =>
        ((w'.conns 0).closed, w'.completions.completion 0))) =
      some (([true, true, false], false),
        some (true, some (.failed (World.timeoutText 30000)))) := by decide
  obtain ⟨⟨w, s⟩, hw, hvals⟩ := Option.map_eq_some_iff.mp hvals
  dsimp only at hvals
  obtain ⟨hbefore, hafter⟩ := Prod.mk.inj hvals
  refine ⟨w, s, hw, hbefore, hafter, fun h => ?_⟩
  obtain ⟨hs, hopen⟩ := Prod.mk.inj hbefore
  obtain ⟨w', hstep, hclosed⟩ := Option.map_eq_some_iff.mp hafter
  have hclosed := (Prod.mk.inj hclosed).1
  rw [h 0 1 .accept w' (by rw [hs]; rfl) hstep] at hclosed
  simp [World.modConn, hopen] at hclosed

end AsioProtocols
