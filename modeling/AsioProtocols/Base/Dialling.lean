import AsioProtocols.Base.Bytes
import AsioProtocols.Base.Machine
import AsioProtocols.Base.Promises

/-!
# Dialling

A client that dials looks a host up, connects a socket to one of the addresses, makes a link
of it, and settles a future with the link; each stage is started by the handler of the one
before. A client has any number of these under way, and of links that are up, and what
happens to them comes in any order. A link is a machine of its own, and `Dialling` says what
there is to it.

`Established` is what a program has of such a client: its futures are honest, and a future that
is done is done with a link of its own, to an address that the resolver gave for its host.
What holds of every new link and is kept by its own steps holds of all links for good, whatever
happens to the others (`Keeps.established`).

An exception that leaves the handler of the socket leaves the future of that call pending for
good; such an operation is `abandoned`.
-/

namespace AsioProtocols

variable {κ E α μ ε : Type}

/-- What is dialled and what comes of it: the query for a call, the link that is made of the
call, and the steps of a link. -/
structure Dialling (κ α μ ε : Type) where
  query : κ → Bytes × Bytes
  make : κ → α → μ
  step : μ → ε → Option μ

/-- What is outstanding for a call. -/
inductive DialOp (κ E : Type)
  | resolving (query : Bytes × Bytes) (call : κ)
  | connecting (addresses : List E) (call : κ)
  | abandoned

/-- A link, with the socket's peer, its call and the number of the future that hands it over. -/
structure Link (κ E μ : Type) where
  future : Nat
  call : κ
  peer : E
  machine : μ

/-- `links` are in the order in which they were made. A future is done with the position of its
link. -/
structure Dialler (κ E μ : Type) where
  promises : Promises Nat (DialOp κ E) := {}
  links : List (Link κ E μ) := []

/-- What the handler of the socket meets: an error, an exception, or neither, with the socket
connected to the `j`-th address. -/
inductive Dialled (α : Type)
  | error (ec : Bytes)
  | throws
  | up (j : Nat) (a : α)

/-- A call comes with what it throws, if it does. -/
inductive DialEvent (κ E α ε : Type)
  | call (c : κ) (thrown : Option Bytes)
  | resolved (i : Nat) (answer : Except Bytes (List E))
  | connected (i : Nat) (result : Dialled α)
  | onLink (k : Nat) (e : ε)

namespace Dialler

/-- The call. -/
def call (D : Dialling κ α μ ε) (s : Dialler κ E μ) (c : κ) : Option Bytes → Dialler κ E μ
  | some what => { s with promises := s.promises.refuse (.failed what) }
  | none => { s with promises := s.promises.start (.resolving (D.query c) c) }

/-- The handler of the lookup. -/
def resolved (s : Dialler κ E μ) (i : Nat) (answer : Except Bytes (List E)) :
    Option (Dialler κ E μ) :=
  match s.promises.outstanding[i]? with
  | some (_, .resolving _ c) =>
    match answer with
    | .error ec => (s.promises.finish i (.failed ec)).map fun promises => { s with promises }
    | .ok ei => (s.promises.next i (.connecting ei c)).map fun promises => { s with promises }
  | _ => none

/-- The handler of the socket: the link is made before its future settles. -/
def connected (D : Dialling κ α μ ε) (s : Dialler κ E μ) (i : Nat) (result : Dialled α) :
    Option (Dialler κ E μ) :=
  match s.promises.outstanding[i]? with
  | some (n, .connecting ei c) =>
    match result with
    | .error ec => (s.promises.finish i (.failed ec)).map fun promises => { s with promises }
    | .throws => (s.promises.next i .abandoned).map fun promises => { s with promises }
    | .up j a => do
      let peer ← ei[j]?
      let promises ← s.promises.finish i (.done s.links.length)
      some
        { promises
          links := s.links ++ [{ future := n, call := c, peer, machine := D.make c a }] }
  | _ => none

/-- Something happens to a link. -/
def onLink (D : Dialling κ α μ ε) (s : Dialler κ E μ) (k : Nat) (e : ε) :
    Option (Dialler κ E μ) := do
  let link ← s.links[k]?
  let machine ← D.step link.machine e
  some { s with links := s.links.set k { link with machine } }

def step (D : Dialling κ α μ ε) (s : Dialler κ E μ) : DialEvent κ E α ε → Option (Dialler κ E μ)
  | .call c thrown => some (s.call D c thrown)
  | .resolved i answer => s.resolved i answer
  | .connected i result => s.connected D i result
  | .onLink k e => s.onLink D k e

/-! ## What a run is to be compared with -/

/-- What ends a call. -/
inductive Report
  | thrown (what : Bytes)
  | error (ec : Bytes)
  | up (k : Nat)

/-- How the future of a call is to settle. -/
def verdict (_ : κ) : Report → Outcome Nat
  | .thrown what => .failed what
  | .error ec => .failed ec
  | .up k => .done k

/-- The calls and what their handlers were told, the addresses that the resolver gave for them,
and the calls whose handler an exception left. -/
structure History (κ E : Type) extends Diary κ Report where
  answers : List (Nat × List E) := []
  left : List Nat := []

/-- The number of the future that the operation at `i` is to settle. -/
def futureAt (s : Dialler κ E μ) (i : Nat) : Nat := (s.promises.outstanding[i]?).elim 0 Prod.fst

def record (s : Dialler κ E μ) (e : DialEvent κ E α ε) (_ : Dialler κ E μ) (h : History κ E) :
    History κ E :=
  match e with
  | .call c none => { h with toDiary := h.toDiary.call c }
  | .call c (some what) =>
    { h with toDiary := (h.toDiary.call c).tell s.promises.futures.length (.thrown what) }
  | .resolved i (.error ec) => { h with toDiary := h.tell (s.futureAt i) (.error ec) }
  | .resolved i (.ok ei) => { h with answers := h.answers ++ [(s.futureAt i, ei)] }
  | .connected i (.error ec) => { h with toDiary := h.tell (s.futureAt i) (.error ec) }
  | .connected i .throws => { h with left := h.left ++ [s.futureAt i] }
  | .connected i (.up _ _) => { h with toDiary := h.tell (s.futureAt i) (.up s.links.length) }
  | .onLink _ _ => h

/-- An operation is for its call. -/
def For (D : Dialling κ α μ ε) (h : History κ E) (n : Nat) : DialOp κ E → Prop
  | .resolving query c => h.calls[n]? = some c ∧ query = D.query c
  | .connecting ei c => h.calls[n]? = some c ∧ (n, ei) ∈ h.answers
  | .abandoned => n ∈ h.left

/-- **A link that was handed over**, at position `k`. -/
structure Linked (P : κ → μ → Prop) (s : Dialler κ E μ) (h : History κ E) (k : Nat)
    (link : Link κ E μ) : Prop where
  called : h.calls[link.future]? = some link.call
  addressed : ∃ ei, (link.future, ei) ∈ h.answers ∧ link.peer ∈ ei
  done : s.promises.outcome link.future = some (.done k)
  sound : P link.call link.machine

/-- **The invariant**, with `P` what is kept of each link. -/
structure Keeps (D : Dialling κ α μ ε) (P : κ → μ → Prop) (s : Dialler κ E μ) (h : History κ E) :
    Prop where
  honest : s.promises.Honest verdict h.toDiary
  ops : ∀ n op, (n, op) ∈ s.promises.outstanding → For D h n op
  left : ∀ n ∈ h.left, (n, .abandoned) ∈ s.promises.outstanding
  linked : ∀ k link, s.links[k]? = some link → Linked P s h k link
  handed : ∀ n k, s.promises.outcome n = some (.done k) →
    ∃ link, s.links[k]? = some link ∧ link.future = n

variable {D : Dialling κ α μ ε} {P : κ → μ → Prop} {s s' : Dialler κ E μ} {h h' : History κ E}
  {i k n m : Nat} {link : Link κ E μ} {op op' : DialOp κ E} {l : Promises Nat (DialOp κ E)} {c : κ}

/-! ## What one event leaves alone -/

/-- A history goes on. -/
structure Longer (h h' : History κ E) : Prop where
  calls : ∀ (n : Nat) c, h.calls[n]? = some c → h'.calls[n]? = some c
  answers : ∀ x ∈ h.answers, x ∈ h'.answers
  left : ∀ n ∈ h.left, n ∈ h'.left

theorem For.mono (hop : For D h n op) (hh : Longer h h') : For D h' n op := by
  cases op with
  | resolving query c => exact ⟨hh.calls n c hop.1, hop.2⟩
  | connecting ei c => exact ⟨hh.calls n c hop.1, hh.answers _ hop.2⟩
  | abandoned => exact hh.left n hop

theorem Linked.mono (hlink : Linked P s h k link) (hh : Longer h h')
    (hsettled : ∀ n o, s.promises.outcome n = some o → s'.promises.outcome n = some o) :
    Linked P s' h' k link := by
  obtain ⟨ei, hei, hpeer⟩ := hlink.addressed
  exact ⟨hh.calls _ _ hlink.called, ⟨ei, hh.answers _ hei, hpeer⟩, hsettled _ _ hlink.done,
    hlink.sound⟩

/-- An abandoned operation is none of those that go on. -/
theorem mem_set_of_ne (hmem : (n, op') ∈ s.promises.outstanding)
    (hop : s.promises.outstanding[i]? = some (m, op)) (hne : op' ≠ op) (x : Nat × DialOp κ E) :
    (n, op') ∈ s.promises.outstanding.set i x := by
  obtain ⟨j, hj⟩ := List.mem_iff_getElem?.mp hmem
  have hij : i ≠ j := by
    rintro rfl
    exact hne (Prod.mk.inj (Option.some.inj (hj.symm.trans hop))).2
  exact List.mem_iff_getElem?.mpr ⟨j, by rw [List.getElem?_set_ne hij, hj]⟩

/-- Nor of those that end. -/
theorem mem_eraseIdx_of_ne (hmem : (n, op') ∈ s.promises.outstanding)
    (hop : s.promises.outstanding[i]? = some (m, op)) (hne : op' ≠ op) :
    (n, op') ∈ s.promises.outstanding.eraseIdx i := by
  obtain ⟨j, hj⟩ := List.mem_iff_getElem?.mp hmem
  refine List.mem_eraseIdx_iff_getElem?.mpr ⟨j, ?_, hj⟩
  rintro rfl
  exact hne (Prod.mk.inj (Option.some.inj (hj.symm.trans hop))).2

/-! ## Each event keeps the invariant -/

namespace Keeps

theorem initial : Keeps D P ({} : Dialler κ E μ) ({} : History κ E) where
  honest := .empty
  ops := by simp
  left := by simp
  linked := by simp
  handed := by simp [Promises.outcome]

/-- **A handler goes on** with another operation. -/
theorem next (hs : Keeps D P s h) (hop : s.promises.outstanding[i]? = some (n, op))
    (halive : op ≠ .abandoned) (hnext : s.promises.next i op' = some l) (hh : Longer h h')
    (hdiary : h'.toDiary = h.toDiary) (hfor : For D h' n op')
    (hleft : ∀ m ∈ h'.left, m ∈ h.left ∨ m = n ∧ op' = .abandoned) :
    Keeps D P { s with promises := l } h' := by
  obtain ⟨n', op₀, hop', rfl⟩ := Promises.next_eq_some hnext
  obtain ⟨rfl, rfl⟩ := Prod.mk.inj (Option.some.inj (hop.symm.trans hop'))
  constructor
  · rw [hdiary]
    exact hs.honest.next hnext
  · intro m op₁ hmem
    rcases List.mem_or_eq_of_mem_set hmem with hmem | heq
    · exact (hs.ops m op₁ hmem).mono hh
    · obtain ⟨rfl, rfl⟩ := Prod.mk.inj heq
      exact hfor
  · intro m hm
    rcases hleft m hm with hm | ⟨rfl, rfl⟩
    · exact mem_set_of_ne (hs.left m hm) hop (Ne.symm halive) _
    · exact List.mem_set (List.getElem?_eq_some_iff.mp hop).1 _
  · exact fun k link hk => (hs.linked k link hk).mono hh fun _ _ ho => ho
  · exact hs.handed

/-- **A handler settles its future**, with a link or without. -/
theorem finish {x : Report} {links : List (Link κ E μ)} (hs : Keeps D P s h)
    (hop : s.promises.outstanding[i]? = some (n, op)) (halive : op ≠ .abandoned)
    (hcall : h.calls[n]? = some c) (hfinish : s.promises.finish i (verdict c x) = some l)
    (hlinks : ∀ (k : Nat) link, links[k]? = some link → s.links[k]? = some link ∨
      x = .up k ∧ link.future = n ∧ link.call = c ∧
        (∃ ei, (n, ei) ∈ h.answers ∧ link.peer ∈ ei) ∧ P c link.machine)
    (hkeeps : ∀ (k : Nat) link, s.links[k]? = some link → links[k]? = some link)
    (hup : ∀ k, x = .up k → ∃ link, links[k]? = some link ∧ link.future = n) :
    Keeps D P { promises := l, links } { h with toDiary := h.tell n x } := by
  have hspec := fun k => Promises.finish_spec (k := k) hop hfinish
  have hpending := (hspec 0).1
  have herase := (hspec 0).2.1
  have houtcome : ∀ k, l.outcome k = if k = n then some (verdict c x) else s.promises.outcome k :=
    fun k => (hspec k).2.2
  have hsettled : ∀ k o, s.promises.outcome k = some o → l.outcome k = some o := by
    intro k o ho
    have hk : k ≠ n := by
      rintro rfl
      rw [hpending] at ho
      cases ho
    rw [houtcome, if_neg hk, ho]
  have hlonger : Longer h { h with toDiary := h.tell n x } :=
    ⟨fun _ _ hc => hc, fun _ hx => hx, fun _ hn => hn⟩
  constructor
  · exact hs.honest.finish hop hcall hfinish
  · intro m op₁ hmem
    rw [herase] at hmem
    exact (hs.ops m op₁ (List.mem_of_mem_eraseIdx hmem)).mono hlonger
  · intro m hm
    rw [herase]
    exact mem_eraseIdx_of_ne (hs.left m hm) hop (Ne.symm halive)
  · intro k link hk
    rcases hlinks k link hk with hk | ⟨rfl, rfl, rfl, haddress, hsound⟩
    · exact (hs.linked k link hk).mono hlonger hsettled
    · exact ⟨hcall, haddress, by rw [houtcome, if_pos rfl]; rfl, hsound⟩
  · intro m k hk
    rw [houtcome] at hk
    split at hk
    · rename_i hm
      subst hm
      cases x with
      | up k' =>
        cases hk
        exact hup k rfl
      | thrown what => cases hk
      | error ec => cases hk
    · obtain ⟨link, hlink, hfuture⟩ := hs.handed m k hk
      exact ⟨link, hkeeps k link hlink, hfuture⟩

/-- A stage fails. -/
theorem fail {ec : Bytes} (hs : Keeps D P s h)
    (hop : s.promises.outstanding[i]? = some (n, op)) (halive : op ≠ .abandoned)
    (hcall : h.calls[n]? = some c) (hfinish : s.promises.finish i (.failed ec) = some l) :
    Keeps D P { s with promises := l } { h with toDiary := h.tell n (.error ec) } :=
  hs.finish (x := .error ec) (c := c) hop halive hcall hfinish (fun _ _ hk => .inl hk)
    (fun _ _ hk => hk) fun _ hup => by cases hup

theorem call (hs : Keeps D P s h) (c : κ) (thrown : Option Bytes) :
    Keeps D P (s.call D c thrown) (record s (.call c thrown : DialEvent κ E α ε) s' h) := by
  have hcalls : ∀ (n : Nat) c', h.calls[n]? = some c' → (h.toDiary.call c).calls[n]? = some c' :=
    fun _ _ hc => Diary.getElem?_call hc c
  cases thrown with
  | none =>
    have hlonger : Longer h { h with toDiary := h.toDiary.call c } :=
      ⟨hcalls, fun _ hx => hx, fun _ hn => hn⟩
    constructor
    · exact hs.honest.start c _
    · intro m op₁ hmem
      rcases List.mem_append.mp hmem with hmem | hmem
      · exact (hs.ops m op₁ hmem).mono hlonger
      · obtain ⟨rfl, rfl⟩ := Prod.mk.inj (List.mem_singleton.mp hmem)
        refine ⟨?_, rfl⟩
        show (h.calls ++ [c])[s.promises.futures.length]? = some c
        rw [← hs.honest.numbered, List.getElem?_concat_length]
    · exact fun m hm => List.mem_append_left _ (hs.left m hm)
    · exact fun k link hk => (hs.linked k link hk).mono hlonger fun m o ho =>
        (Promises.outcome_start _).trans ho
    · exact fun m k hk => hs.handed m k ((Promises.outcome_start _).symm.trans hk)
  | some what =>
    have hlonger : Longer h
        { h with toDiary := (h.toDiary.call c).tell s.promises.futures.length (.thrown what) } :=
      ⟨hcalls, fun _ hx => hx, fun _ hn => hn⟩
    constructor
    · exact hs.honest.refuse c (.thrown what)
    · exact fun m op₁ hmem => (hs.ops m op₁ hmem).mono hlonger
    · exact hs.left
    · refine fun k link hk => (hs.linked k link hk).mono hlonger fun m o ho => ?_
      show (s.promises.refuse (.failed what)).outcome m = some o
      rw [Promises.outcome_refuse, if_neg, ho]
      rintro rfl
      rw [Promises.outcome_of_length_le (Nat.le_refl _)] at ho
      cases ho
    · intro m k hk
      rw [Dialler.call, Promises.outcome_refuse] at hk
      split at hk
      · cases hk
      · exact hs.handed m k hk

theorem resolved {answer : Except Bytes (List E)} (hs : Keeps D P s h)
    (hstep : s.resolved i answer = some s') :
    Keeps D P s' (record s (.resolved i answer : DialEvent κ E α ε) s' h) := by
  rw [Dialler.resolved] at hstep
  split at hstep
  · rename_i n query c hop
    have hfor := hs.ops n _ (List.mem_of_getElem? hop)
    have hfuture : s.futureAt i = n := by rw [futureAt, hop]; rfl
    cases answer with
    | error ec =>
      obtain ⟨l, hl, rfl⟩ := Option.map_eq_some_iff.mp hstep
      simp only [record, hfuture]
      exact hs.fail hop (by simp) hfor.1 hl
    | ok ei =>
      obtain ⟨l, hl, rfl⟩ := Option.map_eq_some_iff.mp hstep
      simp only [record, hfuture]
      refine hs.next hop (by simp) hl ⟨fun _ _ hc => hc, fun _ hx => List.mem_append_left _ hx,
        fun _ hn => hn⟩ rfl ⟨hfor.1, ?_⟩ fun m hm => .inl hm
      exact List.mem_append_right _ (List.mem_singleton_self _)
  · cases hstep

theorem connected {result : Dialled α} (hs : Keeps D P s h) (make : ∀ c a, P c (D.make c a))
    (hstep : s.connected D i result = some s') :
    Keeps D P s' (record s (.connected i result : DialEvent κ E α ε) s' h) := by
  rw [Dialler.connected] at hstep
  split at hstep
  · rename_i n ei c hop
    obtain ⟨hcall, hei⟩ := hs.ops n _ (List.mem_of_getElem? hop)
    have hfuture : s.futureAt i = n := by rw [futureAt, hop]; rfl
    cases result with
    | error ec =>
      obtain ⟨l, hl, rfl⟩ := Option.map_eq_some_iff.mp hstep
      simp only [record, hfuture]
      exact hs.fail hop (by simp) hcall hl
    | throws =>
      obtain ⟨l, hl, rfl⟩ := Option.map_eq_some_iff.mp hstep
      simp only [record, hfuture]
      refine hs.next hop (by simp) hl ⟨fun _ _ hc => hc, fun _ hx => hx,
        fun _ hn => List.mem_append_left _ hn⟩ rfl (List.mem_append_right _ ?_) fun m hm => ?_
      · exact List.mem_singleton_self _
      · rcases List.mem_append.mp hm with hm | hm
        · exact .inl hm
        · exact .inr ⟨List.mem_singleton.mp hm, rfl⟩
    | up j a =>
      obtain ⟨peer, hpeer, hstep⟩ := Option.bind_eq_some_iff.mp hstep
      obtain ⟨l, hl, hstep⟩ := Option.bind_eq_some_iff.mp hstep
      obtain rfl := Option.some.inj hstep
      simp only [record, hfuture]
      refine hs.finish (x := .up s.links.length) hop (by simp) hcall hl ?_ ?_ ?_
      · intro k link hk
        rcases Nat.lt_trichotomy k s.links.length with hlt | rfl | hgt
        · rw [List.getElem?_append_left hlt] at hk
          exact .inl hk
        · rw [List.getElem?_concat_length] at hk
          obtain rfl := Option.some.inj hk
          exact .inr ⟨rfl, rfl, rfl, ⟨ei, hei, List.mem_of_getElem? hpeer⟩, make c a⟩
        · rw [List.getElem?_eq_none (by simp; omega)] at hk
          cases hk
      · intro k link hk
        rw [List.getElem?_append_left (List.getElem?_eq_some_iff.mp hk).1, hk]
      · rintro k hk
        cases hk
        exact ⟨_, List.getElem?_concat_length, rfl⟩
  · cases hstep

/-- What happens to a link is its own affair. -/
theorem onLink {e : ε} (hs : Keeps D P s h)
    (moves : ∀ {c m m' e}, P c m → D.step m e = some m' → P c m')
    (hstep : s.onLink D k e = some s') : Keeps D P s' h := by
  obtain ⟨link, hlink, hstep⟩ := Option.bind_eq_some_iff.mp hstep
  obtain ⟨machine, hmachine, hstep⟩ := Option.bind_eq_some_iff.mp hstep
  obtain rfl := Option.some.inj hstep
  have hk := (List.getElem?_eq_some_iff.mp hlink).1
  refine ⟨hs.honest, hs.ops, hs.left, ?_, ?_⟩
  · intro k' link' hlink'
    by_cases hkk : k = k'
    · subst hkk
      rw [List.getElem?_set_self hk] at hlink'
      obtain rfl := Option.some.inj hlink'
      have hold := hs.linked k link hlink
      exact ⟨hold.called, hold.addressed, hold.done, moves hold.sound hmachine⟩
    · rw [List.getElem?_set_ne hkk] at hlink'
      have hold := hs.linked k' link' hlink'
      exact ⟨hold.called, hold.addressed, hold.done, hold.sound⟩
  · intro n k' hdone
    obtain ⟨link', hlink', hfuture⟩ := hs.handed n k' hdone
    by_cases hkk : k = k'
    · subst hkk
      obtain rfl := Option.some.inj (hlink.symm.trans hlink')
      exact ⟨_, List.getElem?_set_self hk, hfuture⟩
    · exact ⟨link', by rw [List.getElem?_set_ne hkk, hlink'], hfuture⟩

/-- **One event**, where every new link satisfies `P` and the steps of a link keep it. -/
theorem step {e : DialEvent κ E α ε} (hs : Keeps D P s h) (make : ∀ c a, P c (D.make c a))
    (moves : ∀ {c m m' e}, P c m → D.step m e = some m' → P c m')
    (hstep : s.step D e = some s') : Keeps D P s' (record s e s' h) := by
  cases e with
  | call c thrown =>
    obtain rfl := Option.some.inj hstep
    exact hs.call c thrown
  | resolved i answer => exact hs.resolved hstep
  | connected i result => exact hs.connected make hstep
  | onLink k e => exact hs.onLink moves hstep

end Keeps

/-! ## Every run -/

/-- **What a program has of a client that dials**, with `P` what holds of its links: every
future is settled by its own operations, with a link of its own if it is done, and whatever a
handler is told, it can go on. -/
structure Established (D : Dialling κ α μ ε) (P : κ → μ → Prop) (s : Dialler κ E μ)
    (h : History κ E) : Prop where
  honest : s.promises.Honest verdict h.toDiary
  ops : ∀ n op, (n, op) ∈ s.promises.outstanding → For D h n op
  left_iff : ∀ n, n ∈ h.left ↔ (n, .abandoned) ∈ s.promises.outstanding
  handed_iff : ∀ n k, s.promises.outcome n = some (.done k) ↔
    ∃ link, s.links[k]? = some link ∧ link.future = n
  links : ∀ link ∈ s.links, h.calls[link.future]? = some link.call ∧
    (∃ ei, (link.future, ei) ∈ h.answers ∧ link.peer ∈ ei) ∧ P link.call link.machine
  answered : ∀ i n query c, s.promises.outstanding[i]? = some (n, .resolving query c) →
    ∀ answer, (s.resolved i answer).isSome
  dialled : ∀ i n ei c, s.promises.outstanding[i]? = some (n, .connecting ei c) →
    ∀ result, (∀ j a, result = .up j a → j < ei.length) → (s.connected D i result).isSome

theorem resolved_isSome {query : Bytes × Bytes} (honest : s.promises.Honest verdict h.toDiary)
    (hop : s.promises.outstanding[i]? = some (n, .resolving query c))
    (answer : Except Bytes (List E)) : (s.resolved i answer).isSome := by
  have hi := (List.getElem?_eq_some_iff.mp hop).1
  rw [resolved, hop]
  cases answer with
  | error ec =>
    rw [Option.isSome_map]
    exact honest.finish_isSome hi _
  | ok ei => simp [Promises.next, hop]

theorem connected_isSome {ei : List E} {result : Dialled α}
    (honest : s.promises.Honest verdict h.toDiary)
    (hop : s.promises.outstanding[i]? = some (n, .connecting ei c))
    (hup : ∀ j a, result = .up j a → j < ei.length) : (s.connected D i result).isSome := by
  have hi := (List.getElem?_eq_some_iff.mp hop).1
  rw [connected, hop]
  cases result with
  | error ec =>
    rw [Option.isSome_map]
    exact honest.finish_isSome hi _
  | throws => simp [Promises.next, hop]
  | up j a =>
    obtain ⟨l, hl⟩ := Option.isSome_iff_exists.mp (honest.finish_isSome hi (.done s.links.length))
    simp [List.getElem?_eq_getElem (hup j a rfl), hl]

theorem Keeps.established {Q : κ → μ → Prop} (hs : Keeps D P s h)
    (weaken : ∀ {c m}, P c m → Q c m) : Established D Q s h := by
  constructor
  · exact hs.honest
  · exact hs.ops
  · exact fun n => ⟨hs.left n, hs.ops n .abandoned⟩
  · refine fun n k => ⟨hs.handed n k, ?_⟩
    rintro ⟨link, hlink, rfl⟩
    exact (hs.linked k link hlink).done
  · intro link hmem
    obtain ⟨k, hk⟩ := List.mem_iff_getElem?.mp hmem
    have hlinked := hs.linked k link hk
    exact ⟨hlinked.called, hlinked.addressed, weaken hlinked.sound⟩
  · exact fun i n query c hop answer => resolved_isSome hs.honest hop answer
  · exact fun i n ei c hop result hup => connected_isSome hs.honest hop hup

/-- **The induction over a run**: what is kept of each link holds of them all. -/
theorem keeps_of_run (run : Run (recorded (step D) record) anyEvent ({}, {}) (s, h))
    (make : ∀ c a, P c (D.make c a))
    (moves : ∀ {c m m' e}, P c m → D.step m e = some m' → P c m') : Keeps D P s h := by
  refine run.invariant (P := fun x => Keeps D P x.1 x.2) .initial ?_
  rintro ⟨s, h⟩ t e hs - hstep
  obtain ⟨u, hu, rfl⟩ := Option.map_eq_some_iff.mp hstep
  exact hs.step make moves hu

end Dialler

end AsioProtocols
