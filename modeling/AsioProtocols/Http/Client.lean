import AsioProtocols.Http.Endpoints
import AsioProtocols.Http.Wire

/-!
# The client and all its pools

`net::http::client` gives every request to the pool of its endpoint and hands its limits
on to the pools. `Http/World.lean` is one pool and `Http/Endpoints.lean` is the map; here
they are together: a `Client` has a pool for each endpoint in the map, and an event of the
client is a request, a setting, or something that happens in one of the pools.

What happens in one pool is a run of that pool (`Projected`). So what was proved of a
pool holds of each pool of a client, and `isolated_of_run` puts it together: a request
goes out only on connections to its own host and port, as it was submitted, and on an
encrypted one whenever its URI says `https`.

A request is taken with the URI it was made from, which a request that was moved from
does not keep (request.h, lines 51-57). Where one pool faults the whole program stops.
-/

namespace AsioProtocols

open Function

/-- The state of a `client`: the map with the limits, the pools, and as history what
happened in each pool and the URIs of the requests it was given. -/
structure Client (stdHash : Bytes → Nat) where
  eraseEnd : List (Option FutId) → List (Option FutId) := id
  endpoints : Endpoints stdHash := {}
  stallTimeout : Nat := 30000
  pools : PoolId → World := fun _ => {}
  chronicles : PoolId → Chronicle := fun _ => {}
  asked : PoolId → List Uri := fun _ => []

/-- What can happen to a client. -/
inductive ClientEvent
  | request (u : Uri) (q : Request)
  | maxConnections (n : Nat)
  | limitConnections (limit : Bool)
  | stallTimeout (stall : Nat)
  | inPool (p : PoolId) (e : Event)

/-- A request reaches a pool through the client. -/
def Event.isRequest : Event → Bool
  | .request _ _ => true
  | _ => false

namespace Client

variable {stdHash : Bytes → Nat}

/-- Something happens in pool `p`. -/
def inPool (s : Client stdHash) (p : PoolId) (e : Event) : Option (Client stdHash) :=
  (recorded World.step Chronicle.record (s.pools p, s.chronicles p) e).map fun (w, h) =>
    { s with pools := update s.pools p w, chronicles := update s.chronicles p h }

/-- `request(req)` (client.h, lines 91-109), with `u` the URI of the request. -/
def request (s : Client stdHash) (u : Uri) (q : Request) : Option (Client stdHash) :=
  (s.endpoints.endpointFor u).bind fun (endpoints, p) =>
    -- a pool that was not in the map is new
    let pools := if s.endpoints.made < endpoints.made then
        update s.pools p (World.init s.eraseEnd (Details.ofUri u).tls
          s.endpoints.limitConnections s.endpoints.maxConnections)
      else s.pools
    ({ s with endpoints := endpoints, pools := pools
              asked := update s.asked p (s.asked p ++ [u]) }).inPool p (.request q s.stallTimeout)

/-- The loop of a setter: the same call on each pool in the map. -/
def eachPool (s : Client stdHash) (e : Event) : Option (Client stdHash) :=
  s.endpoints.endpoints.entries.foldlM (fun s entry => s.inPool entry.2 e) s

def step (s : Client stdHash) (e : ClientEvent) : Option (Client stdHash) :=
  if (List.range s.endpoints.made).all fun p => (s.pools p).fault.isNone then
    match e with
    | .request u q => s.request u q
    | .maxConnections n =>
      { s with endpoints := s.endpoints.setMaxConnections n }.eachPool (.maxConnections n)
    | .limitConnections limit =>
      { s with endpoints := s.endpoints.setLimitConnections limit }.eachPool (.limitConnections limit)
    | .stallTimeout stall => some { s with stallTimeout := stall }
    | .inPool p e => if p < s.endpoints.made ∧ e.isRequest = false then s.inPool p e else none
  else none

/-- The URI of a request was parsed from some text. -/
def FromText (_ : Client stdHash) : ClientEvent → Prop
  | .request u _ => ∃ input, Uri.parse input = .ok u
  | _ => True

/-- **Endpoints are kept apart.** Every pool is that of an endpoint in the map; the requests
written on its connections were submitted for this endpoint, go out as they were submitted,
and if it is encrypted only behind the handshake. -/
structure Isolated (s : Client stdHash) : Prop where
  mapped : ∀ p < s.endpoints.made, ∃ d, (d, p) ∈ s.endpoints.endpoints.entries
  reaches : ∀ d p, (d, p) ∈ s.endpoints.endpoints.entries → ∀ c, ∀ r ∈ writtenOn c (s.pools p).log,
    ∃ u, (s.asked p)[r]? = some u ∧ Details.ofUri u = d
  sent : ∀ d p, (d, p) ∈ s.endpoints.endpoints.entries → Wire (s.chronicles p) (s.pools p)
  secured : ∀ d p, (d, p) ∈ s.endpoints.endpoints.entries → Secured d.tls (s.chronicles p) (s.pools p)

/-! ## The invariant -/

/-- The pool of endpoint `d`: what happened in it is a run, for requests to `d`. -/
structure PoolOf (s : Client stdHash) (d : Details) (p : PoolId) : Prop where
  host : ch ':' ∉ d.host
  run : ∃ limit max, Run (recorded World.step Chronicle.record) anyEvent
    (World.init s.eraseEnd d.tls limit max, {}) (s.pools p, s.chronicles p)
  asked : (s.asked p).length = (s.chronicles p).submitted.length
  toEndpoint : ∀ u ∈ s.asked p, Details.ofUri u = d

/-- Every pool is that of its endpoint, and nothing has happened in those to come. -/
structure Projected (s : Client stdHash) : Prop where
  values : s.endpoints.endpoints.entries.map Prod.snd = List.range s.endpoints.made
  poolOf : ∀ d p, (d, p) ∈ s.endpoints.endpoints.entries → PoolOf s d p
  fresh : ∀ p, s.endpoints.made ≤ p → s.chronicles p = {} ∧ s.asked p = []

variable {s s' t : Client stdHash} {d : Details} {p : PoolId}

/-- `endpoint_for` adds a pool, or finds one by the printed endpoint. -/
theorem endpointFor_cases {e e' : Endpoints stdHash} {u : Uri} (h : e.endpointFor u = some (e', p)) :
    (e'.endpoints.entries = e.endpoints.entries ++ [(Details.ofUri u, e.made)] ∧
      e'.made = e.made + 1 ∧ p = e.made) ∨
    (e' = e ∧ ∃ d, (d, p) ∈ e.endpoints.entries ∧ d.string = (Details.ofUri u).string) := by
  rw [Endpoints.endpointFor] at h
  split at h
  · rename_i hcount
    cases h
    exact .inl ⟨UnorderedMap.entries_emplace (UnorderedMap.count_eq_zero_iff.mp hcount), rfl, rfl⟩
  · obtain ⟨q, hq, he⟩ := Option.map_eq_some_iff.mp h
    cases he
    obtain ⟨entry, hmem, hstring, rfl⟩ :=
      UnorderedMap.exists_mem_of_at? Endpoints.byString hq
    exact .inr ⟨rfl, entry.1, hmem, hstring⟩

theorem inPool_inv {e : Event} (h : s.inPool p e = some s') : ∃ w, (s.pools p).step e = some w ∧
    s' = { s with
      pools := update s.pools p w
      chronicles := update s.chronicles p (Chronicle.record (s.pools p) e w (s.chronicles p)) } := by
  obtain ⟨⟨w, c⟩, hstep, rfl⟩ := Option.map_eq_some_iff.mp h
  obtain ⟨w', hw, he⟩ := Option.map_eq_some_iff.mp hstep
  cases he
  exact ⟨w, hw, rfl⟩

/-- Only a request adds to what was submitted. -/
theorem submitted_record {w w' : World} {e : Event} (he : e.isRequest = false) (h : Chronicle) :
    (Chronicle.record w e w' h).submitted = h.submitted := by
  cases e with
  | request q stall => cases he
  | setupDone c result =>
    cases result with
    | error err => rfl
    | ok =>
      rw [Chronicle.record]
      split <;> rfl
  | _ => rfl

namespace PoolOf

/-- Nothing happens to the pool. -/
theorem congr (h : PoolOf s d p) (eraseEnd : t.eraseEnd = s.eraseEnd) (pools : t.pools p = s.pools p)
    (chronicles : t.chronicles p = s.chronicles p) (asked : t.asked p = s.asked p) :
    PoolOf t d p where
  host := h.host
  run := by
    rw [eraseEnd, pools, chronicles]
    exact h.run
  asked := by
    rw [asked, chronicles]
    exact h.asked
  toEndpoint := asked ▸ h.toEndpoint

/-- Something happens in it. -/
theorem event (h : PoolOf s d p) {e : Event} {w : World} (he : e.isRequest = false)
    (hstep : (s.pools p).step e = some w) (eraseEnd : t.eraseEnd = s.eraseEnd)
    (pools : t.pools p = w)
    (chronicles : t.chronicles p = Chronicle.record (s.pools p) e w (s.chronicles p))
    (asked : t.asked p = s.asked p) : PoolOf t d p where
  host := h.host
  run := by
    obtain ⟨limit, max, run⟩ := h.run
    refine ⟨limit, max, ?_⟩
    rw [eraseEnd, pools, chronicles]
    exact run.tail (e := e) trivial (by rw [recorded, hstep]; rfl)
  asked := by
    rw [asked, chronicles, submitted_record he]
    exact h.asked
  toEndpoint := asked ▸ h.toEndpoint

/-- It is given a request for its endpoint. -/
theorem request (h : PoolOf s d p) {u : Uri} {q : Request} {stall : Nat} {w : World}
    (hu : Details.ofUri u = d) (hstep : (s.pools p).step (.request q stall) = some w)
    (eraseEnd : t.eraseEnd = s.eraseEnd) (pools : t.pools p = w)
    (chronicles : t.chronicles p =
      Chronicle.record (s.pools p) (.request q stall) w (s.chronicles p))
    (asked : t.asked p = s.asked p ++ [u]) : PoolOf t d p where
  host := h.host
  run := by
    obtain ⟨limit, max, run⟩ := h.run
    refine ⟨limit, max, ?_⟩
    rw [eraseEnd, pools, chronicles]
    exact run.tail (e := .request q stall) trivial (by rw [recorded, hstep]; rfl)
  asked := by
    rw [asked, chronicles, Chronicle.record, List.length_append, List.length_append, h.asked]
    rfl
  toEndpoint v hv := by
    rw [asked] at hv
    rcases List.mem_append.mp hv with hold | hnew
    · exact h.toEndpoint v hold
    · exact List.mem_singleton.mp hnew ▸ hu

end PoolOf

namespace Projected

/-- A pool that was made. -/
theorem lt_made (h : Projected s) (hd : (d, p) ∈ s.endpoints.endpoints.entries) :
    p < s.endpoints.made := by
  have hmem : p ∈ s.endpoints.endpoints.entries.map Prod.snd := List.mem_map_of_mem hd
  rw [h.values] at hmem
  exact List.mem_range.mp hmem

/-- Another event in a pool. -/
theorem inPool (h : Projected s) {e : Event} (hp : p < s.endpoints.made) (he : e.isRequest = false)
    (hstep : s.inPool p e = some s') : Projected s' ∧ s'.endpoints = s.endpoints := by
  obtain ⟨w, hw, rfl⟩ := inPool_inv hstep
  refine ⟨⟨h.values, fun d q hd => ?_, fun q hq => ?_⟩, rfl⟩
  · have hpool := h.poolOf d q hd
    rcases eq_or_ne q p with rfl | hne
    · exact hpool.event he hw rfl (update_self ..) (update_self ..) rfl
    · exact hpool.congr rfl (update_of_ne hne _ _) (update_of_ne hne _ _) rfl
  · have hne : q ≠ p := fun heq => Nat.not_le.mpr hp (heq ▸ hq)
    exact ⟨(update_of_ne hne _ _).trans (h.fresh q hq).1, (h.fresh q hq).2⟩

/-- The limits of a client are no matter of its pools' history. -/
theorem setEndpoints (h : Projected s) {endpoints : Endpoints stdHash}
    (entries : endpoints.endpoints = s.endpoints.endpoints) (made : endpoints.made = s.endpoints.made) :
    Projected { s with endpoints := endpoints } where
  values := by
    show endpoints.endpoints.entries.map Prod.snd = List.range endpoints.made
    rw [entries, made]
    exact h.values
  poolOf d q hd := (h.poolOf d q (entries ▸ hd)).congr rfl rfl rfl rfl
  fresh q hq := h.fresh q (made ▸ hq)

/-- A setter reaches the pools one by one. -/
theorem eachPool (h : Projected s) {e : Event} (he : e.isRequest = false)
    (hstep : s.eachPool e = some s') : Projected s' := by
  have hfold : ∀ (entries : List (Details × PoolId)) (u : Client stdHash), Projected u →
      (∀ entry ∈ entries, entry.2 < u.endpoints.made) →
      entries.foldlM (fun s entry => s.inPool entry.2 e) u = some s' → Projected s' := by
    intro entries
    induction entries with
    | nil =>
      intro u hu _ hs
      obtain rfl := Option.some.inj hs
      exact hu
    | cons entry entries ih =>
      intro u hu hmade hs
      rw [List.foldlM_cons] at hs
      obtain ⟨v, hv, hs⟩ := Option.bind_eq_some_iff.mp hs
      obtain ⟨hprojected, hsame⟩ := hu.inPool (hmade entry List.mem_cons_self) he hv
      refine ih v hprojected (fun entry' hmem => ?_) hs
      rw [hsame]
      exact hmade entry' (List.mem_cons_of_mem _ hmem)
  exact hfold _ s h (fun entry hmem => h.lt_made hmem) hstep

/-- A pool has one endpoint. -/
theorem unique (h : Projected s) {d' : Details} (hd : (d, p) ∈ s.endpoints.endpoints.entries)
    (hd' : (d', p) ∈ s.endpoints.endpoints.entries) : d' = d := by
  have hnodup : (s.endpoints.endpoints.entries.map Prod.snd).Nodup := by
    rw [h.values]
    exact List.nodup_range
  exact congrArg Prod.fst (List.inj_on_of_nodup_map hnodup hd' hd rfl)

/-- A request for an endpoint that has a pool. -/
theorem requestAgain (h : Projected s) {u : Uri} {q : Request} {w : World}
    (hd : (Details.ofUri u, p) ∈ s.endpoints.endpoints.entries)
    (hw : (s.pools p).step (.request q s.stallTimeout) = some w) :
    Projected { s with
      pools := update s.pools p w
      chronicles := update s.chronicles p
        (Chronicle.record (s.pools p) (.request q s.stallTimeout) w (s.chronicles p))
      asked := update s.asked p (s.asked p ++ [u]) } where
  values := h.values
  poolOf d q hq := by
    have hpool := h.poolOf d q hq
    rcases eq_or_ne q p with rfl | hne
    · exact hpool.request (h.unique hq hd) hw rfl (update_self ..) (update_self ..) (update_self ..)
    · exact hpool.congr rfl (update_of_ne hne _ _) (update_of_ne hne _ _) (update_of_ne hne _ _)
  fresh q hq := by
    have hne : q ≠ p := fun he => Nat.not_le.mpr (h.lt_made hd) (he ▸ hq)
    obtain ⟨hc, ha⟩ := h.fresh q hq
    exact ⟨(update_of_ne hne _ _).trans hc, (update_of_ne hne _ _).trans ha⟩

/-- A new pool, in which nothing has happened. -/
theorem addPool (h : Projected s) {u : Uri} (hcolon : ch ':' ∉ u.hostname)
    {endpoints : Endpoints stdHash} (hmade : endpoints.made = s.endpoints.made + 1)
    (hentries : endpoints.endpoints.entries =
      s.endpoints.endpoints.entries ++ [(Details.ofUri u, s.endpoints.made)]) :
    Projected { s with
      endpoints := endpoints
      pools := update s.pools s.endpoints.made (World.init s.eraseEnd (Details.ofUri u).tls
        s.endpoints.limitConnections s.endpoints.maxConnections) } where
  values := by
    show endpoints.endpoints.entries.map Prod.snd = List.range endpoints.made
    rw [hentries, hmade, List.map_append, h.values, List.range_succ]
    rfl
  poolOf d q hq := by
    have hq : (d, q) ∈ endpoints.endpoints.entries := hq
    rw [hentries] at hq
    rcases List.mem_append.mp hq with hold | hlast
    · have hne := Nat.ne_of_lt (h.lt_made hold)
      exact (h.poolOf d q hold).congr rfl (update_of_ne hne _ _) rfl rfl
    · obtain ⟨rfl, rfl⟩ := Prod.mk.inj (List.mem_singleton.mp hlast)
      obtain ⟨hchronicle, hasked⟩ := h.fresh s.endpoints.made (Nat.le_refl _)
      refine ⟨hcolon, ⟨s.endpoints.limitConnections, s.endpoints.maxConnections, ?_⟩, ?_, ?_⟩
      · simp only [update_self, hchronicle]
        exact .refl _
      · simp only [hchronicle, hasked]
        rfl
      · simp [hasked]
  fresh q hq := by
    have hle : endpoints.made ≤ q := hq
    exact h.fresh q (by omega)

/-- **A request goes to the pool of its endpoint**, which may be a new one. -/
theorem request (h : Projected s) {u : Uri} {q : Request} (hcolon : ch ':' ∉ u.hostname)
    (hstep : s.request u q = some s') : Projected s' := by
  obtain ⟨⟨endpoints, p⟩, hfor, hstep⟩ := Option.bind_eq_some_iff.mp hstep
  obtain ⟨w, hw, rfl⟩ := inPool_inv hstep
  rcases endpointFor_cases hfor with ⟨hentries, hmade, rfl⟩ | ⟨rfl, d, hd, hstring⟩
  · have hnew : s.endpoints.made < endpoints.made := by
      rw [hmade]
      exact Nat.lt_succ_self _
    simp only [if_pos hnew] at hw ⊢
    refine (h.addPool hcolon hmade hentries).requestAgain ?_ hw
    rw [hentries]
    exact List.mem_append_right _ (List.mem_singleton_self _)
  · obtain rfl := Details.string_inj (h.poolOf d p hd).host hcolon hstring
    simp only [Nat.lt_irrefl, if_false] at hw ⊢
    exact h.requestAgain hd hw

theorem step (h : Projected s) {e : ClientEvent} (hok : FromText s e)
    (hstep : s.step e = some s') : Projected s' := by
  obtain ⟨-, hstep⟩ := Option.ite_none_right_eq_some.mp hstep
  cases e with
  | request u q => exact h.request (Endpoints.colon_not_mem_hostname hok) hstep
  | maxConnections n =>
    have hset : Projected { s with endpoints := s.endpoints.setMaxConnections n } :=
      h.setEndpoints rfl rfl
    exact hset.eachPool (e := .maxConnections n) rfl hstep
  | limitConnections limit =>
    have hset : Projected { s with endpoints := s.endpoints.setLimitConnections limit } :=
      h.setEndpoints rfl rfl
    exact hset.eachPool (e := .limitConnections limit) rfl hstep
  | stallTimeout stall =>
    obtain rfl := Option.some.inj hstep
    exact ⟨h.values, fun d q hd => (h.poolOf d q hd).congr rfl rfl rfl rfl, h.fresh⟩
  | inPool p e =>
    obtain ⟨⟨hp, he⟩, hstep⟩ := Option.ite_none_right_eq_some.mp hstep
    exact (h.inPool hp he hstep).1

/-- What the invariant says, with what is known of each pool. -/
theorem isolated (h : Projected s) : Isolated s := by
  have traced : ∀ d p, (d, p) ∈ s.endpoints.endpoints.entries →
      Exclusive (s.pools p) ∧ Traced ((s.chronicles p).account d.tls) (s.pools p) := by
    intro d p hd
    obtain ⟨limit, max, run⟩ := (h.poolOf d p hd).run
    exact Traced.run run
  constructor
  · intro p hp
    have hmem : p ∈ s.endpoints.endpoints.entries.map Prod.snd := by
      rw [h.values]
      exact List.mem_range.mpr hp
    obtain ⟨⟨d, q⟩, hd, rfl⟩ := List.mem_map.mp hmem
    exact ⟨d, hd⟩
  · intro d p hd c r hr
    have hpool := h.poolOf d p hd
    have hlt : r < (s.asked p).length :=
      hpool.asked.symm ▸ ((traced d p hd).2.conn c).known r hr
    exact ⟨_, List.getElem?_eq_getElem hlt, hpool.toEndpoint _ (List.getElem_mem hlt)⟩
  · exact fun d p hd => (traced d p hd).2.wire
  · exact fun d p hd => (traced d p hd).2.secured (traced d p hd).1

end Projected

/-- **Endpoints are kept apart**, whatever is requested and whatever happens in the pools. -/
theorem isolated_of_run {eraseEnd : List (Option FutId) → List (Option FutId)}
    (run : Run step FromText ({ eraseEnd := eraseEnd } : Client stdHash) s) : Isolated s := by
  have h : Projected s := by
    refine run.invariant (P := Projected) ⟨rfl, ?_, fun _ _ => ⟨rfl, rfl⟩⟩ ?_
    · exact fun d p hd => absurd hd List.not_mem_nil
    · exact fun h hok hstep => h.step hok hstep
  exact h.isolated

/-- One host by `http` and by `https`: two pools, and the second one shakes hands. -/
def bothSchemes : List ClientEvent :=
  [.request ⟨ascii "http", ascii "a", [], [], ascii "/", [], [], 80⟩ getRequest,
    .request ⟨ascii "https", ascii "a", [], [], ascii "/", [], [], 443⟩ getRequest] ++
    (connects 0).map (.inPool 0) ++
    (connectsSecurely 0).map (.inPool 1)

theorem isolated_bothSchemes :
    ∃ s : Client List.length, exec step {} bothSchemes = some s ∧
      writtenOn 0 (s.pools 0).log = [0] ∧ (s.chronicles 0).stages 0 = [.resolve, .connect] ∧
      writtenOn 0 (s.pools 1).log = [0] ∧
      (s.chronicles 1).stages 0 = [.resolve, .connect, .handshake] ∧ Isolated s := by
  have hvals : (exec step ({} : Client List.length) bothSchemes).map (fun s =>
      (writtenOn 0 (s.pools 0).log, (s.chronicles 0).stages 0,
        writtenOn 0 (s.pools 1).log, (s.chronicles 1).stages 0)) =
      some ([0], [.resolve, .connect], [0], [.resolve, .connect, .handshake]) := by decide
  obtain ⟨s, hs, hvals⟩ := Option.map_eq_some_iff.mp hvals
  obtain ⟨h₁, h₂, h₃, h₄⟩ : _ ∧ _ ∧ _ ∧ _ := by simpa using hvals
  refine ⟨s, hs, h₁, h₂, h₃, h₄, isolated_of_run (Run.of_exec_mem bothSchemes ?_ hs)⟩
  intro e he t
  simp only [bothSchemes, List.mem_append, List.mem_cons, List.not_mem_nil, or_false,
    List.mem_map] at he
  rcases he with ((rfl | rfl) | ⟨e, -, rfl⟩) | ⟨e, -, rfl⟩
  · exact ⟨ascii "http://a/", rfl⟩
  · exact ⟨ascii "https://a/", rfl⟩
  · trivial
  · trivial

end Client

end AsioProtocols
