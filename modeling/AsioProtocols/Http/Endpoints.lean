import AsioProtocols.Base.Machine
import AsioProtocols.Base.UnorderedMap
import AsioProtocols.Http.ConnectionPool
import AsioProtocols.Http.Details

/-!
# The endpoints of a client

`net::http::client` keeps a pool for each endpoint and hands its limits on to the
pools, at their creation and from then on through its setters
(`http/client.h`, lines 167-221). The map goes by the printed form of an
endpoint (`Http/Details.lean`), hashed by `std::hash<std::string>`, which is the
parameter `stdHash`.

**`endpointMap_of_run`**: whatever the order of the calls, two requests are given
the same pool exactly when their URIs agree on host, port and encryption, no pool
is ever replaced, and every pool has the limits of the client, which are those that
were set last (`SetLast`).

What a pool does with its limits, and what a request does with its pool, is in
`Http/ConnectionPool.lean` and `Http/World.lean`.
-/

namespace AsioProtocols

abbrev PoolId := Nat

/-- `details::hash` (details.h, lines 33-38) -/
def Details.hash (stdHash : Bytes → Nat) (d : Details) : Nat := stdHash d.string

/-- What `endpoint_for` and the setters of a client work on. Pools are numbered in
the order they are made; `returned` is history, the URI and the result of each
call of `endpoint_for`. -/
structure Endpoints (stdHash : Bytes → Nat) where
  limitConnections : Bool := true
  maxConnections : Nat := 8
  endpoints : UnorderedMap Details PoolId (Details.hash stdHash) Details.equal := {}
  pools : PoolId → Pool := fun _ => {}
  made : Nat := 0
  returned : List (Uri × PoolId) := []

namespace Endpoints

variable {stdHash : Bytes → Nat}

/-- The map with a new pool in it. -/
def addPool (s : Endpoints stdHash) (d : Details) : Endpoints stdHash :=
  let pool : Pool := {}
  let pool := { pool with maxConnections := s.maxConnections }
  let pool := { pool with limitConnections := s.limitConnections }
  { s with
    pools := Function.update s.pools s.made pool
    endpoints := s.endpoints.emplace d s.made
    made := s.made + 1 }

/-- `endpoint_for(req)` (client.h, lines 170-193), with `u` the URI of the
request; `none` where `at` throws. -/
def endpointFor (s : Endpoints stdHash) (u : Uri) : Option (Endpoints stdHash × PoolId) :=
  let details := Details.ofUri u
  if s.endpoints.count details = 0 then some (s.addPool details, s.made)
  else (s.endpoints.at? details).map fun p => (s, p)

/-- The loop of a setter: `f` on each pool in the map. -/
def eachPool (s : Endpoints stdHash) (f : Pool → Pool) : PoolId → Pool :=
  s.endpoints.entries.foldl (fun pools e => Function.update pools e.2 (f (pools e.2))) s.pools

/-- `max_connections(n)` (client.h, lines 206-214) -/
def setMaxConnections (s : Endpoints stdHash) (n : Nat) : Endpoints stdHash :=
  { s with maxConnections := n, pools := s.eachPool fun p => { p with maxConnections := n } }

/-- `limit_connections(limit)` (client.h, lines 216-224) -/
def setLimitConnections (s : Endpoints stdHash) (limit : Bool) : Endpoints stdHash :=
  { s with limitConnections := limit
           pools := s.eachPool fun p => { p with limitConnections := limit } }

/-- A call on the client. -/
inductive Call
  | endpointFor (u : Uri)
  | maxConnections (n : Nat)
  | limitConnections (limit : Bool)

def step (s : Endpoints stdHash) : Call → Option (Endpoints stdHash)
  | .endpointFor u => (s.endpointFor u).map fun (s', p) => { s' with returned := s.returned ++ [(u, p)] }
  | .maxConnections n => some (s.setMaxConnections n)
  | .limitConnections limit => some (s.setLimitConnections limit)

/-- The URI of a request was parsed from some text. -/
def FromText (_ : Endpoints stdHash) : Call → Prop
  | .endpointFor u => ∃ input, Uri.parse input = .ok u
  | .maxConnections _ => True
  | .limitConnections _ => True

/-! ## The property -/

/-- Requests to the same host and port, both encrypted or neither, and no others,
share a pool; the pools have the limits of the client; and a call returns. -/
structure EndpointMap (s : Endpoints stdHash) : Prop where
  same : ∀ x ∈ s.returned, ∀ y ∈ s.returned, x.2 = y.2 ↔
    x.1.hostname = y.1.hostname ∧ x.1.port = y.1.port ∧
      (x.1.scheme = ascii "https" ↔ y.1.scheme = ascii "https")
  limits : ∀ p < s.made, (s.pools p).maxConnections = s.maxConnections ∧
    (s.pools p).limitConnections = s.limitConnections
  returns : ∀ u, (s.endpointFor u).isSome = true

/-- What a call sets the maximum to, if it does. -/
def Call.newMax : Call → Option Nat
  | .maxConnections n => some n
  | _ => none

/-- What a call sets the switch of the limit to, if it does. -/
def Call.newLimit : Call → Option Bool
  | .limitConnections limit => some limit
  | _ => none

/-- The limits of the client are the arguments of the last call of either setter, and
as long as there was none what the client starts with. -/
structure SetLast (s : Endpoints stdHash) (calls : List Call) : Prop where
  maxConnections : s.maxConnections = (calls.filterMap Call.newMax).getLastD 8
  limitConnections : s.limitConnections = (calls.filterMap Call.newLimit).getLastD true

/-! ## The invariant -/

/-- The map goes by the printed endpoint. -/
theorem byString : UnorderedMap.ByView (Details.hash stdHash) Details.equal Details.string where
  hash h := congrArg stdHash h
  equal := beq_iff_eq

/-- The entries of the map are the pools made, for endpoints that differ, and what
was returned is what the map has. -/
structure Mapped (s : Endpoints stdHash) : Prop where
  values : s.endpoints.entries.map Prod.snd = List.range s.made
  distinct : (s.endpoints.entries.map fun e => e.1.string).Nodup
  returned : ∀ x ∈ s.returned, ch ':' ∉ x.1.hostname ∧
    s.endpoints.at? (Details.ofUri x.1) = some x.2
  limits : ∀ p < s.made, (s.pools p).maxConnections = s.maxConnections ∧
    (s.pools p).limitConnections = s.limitConnections

theorem Mapped.init : Mapped ({} : Endpoints stdHash) :=
  ⟨rfl, List.nodup_nil, nofun, nofun⟩

theorem ofUri_eq_iff {u v : Uri} : Details.ofUri u = Details.ofUri v ↔
    u.hostname = v.hostname ∧ u.port = v.port ∧
      (u.scheme = ascii "https" ↔ v.scheme = ascii "https") := by
  rw [Details.ofUri, Details.ofUri, Details.mk.injEq, Bool.eq_iff_iff, beq_iff_eq, beq_iff_eq]

/-- A pool stands for one endpoint, so the invariant gives the property. -/
theorem Mapped.endpointMap {s : Endpoints stdHash} (h : Mapped s) : EndpointMap s where
  same := by
    intro x hx y hy
    obtain ⟨hxcolon, hxat⟩ := h.returned x hx
    obtain ⟨hycolon, hyat⟩ := h.returned y hy
    rw [← ofUri_eq_iff]
    constructor
    · intro hsame
      obtain ⟨e, he, hestring, hevalue⟩ := UnorderedMap.exists_mem_of_at? byString hxat
      obtain ⟨e', he', hestring', hevalue'⟩ := UnorderedMap.exists_mem_of_at? byString hyat
      have hvalues : (s.endpoints.entries.map Prod.snd).Nodup := by
        rw [h.values]
        exact List.nodup_range
      have hentry : e = e' := List.inj_on_of_nodup_map hvalues he he'
        (hevalue.trans (hsame.trans hevalue'.symm))
      refine Details.string_inj hxcolon hycolon ?_
      rw [← hestring, ← hestring', hentry]
    · intro hsame
      rw [hsame, hyat] at hxat
      exact (Option.some.inj hxat).symm
  limits := h.limits
  returns := by
    intro u
    rw [endpointFor]
    split
    · rfl
    · rename_i hcount
      rw [UnorderedMap.count_eq_zero_iff, ← ne_eq, Option.ne_none_iff_isSome] at hcount
      rw [Option.isSome_map]
      exact hcount

/-- A setter reaches every pool. -/
theorem eachPool_apply (s : Endpoints stdHash) (h : s.endpoints.entries.map Prod.snd = List.range s.made)
    (f : Pool → Pool) {p : PoolId} (hp : p < s.made) : s.eachPool f p = f (s.pools p) := by
  have hfold : ∀ (entries : List (Details × PoolId)) (pools : PoolId → Pool),
      (entries.map Prod.snd).Nodup →
      entries.foldl (fun pools e => Function.update pools e.2 (f (pools e.2))) pools p =
        if p ∈ entries.map Prod.snd then f (pools p) else pools p := by
    intro entries
    induction entries with
    | nil => exact fun pools _ => rfl
    | cons e entries ih =>
      intro pools hnodup
      obtain ⟨hnot, hnodup⟩ := List.nodup_cons.mp hnodup
      rw [List.foldl_cons, ih _ hnodup]
      by_cases hpe : p = e.2
      · subst hpe
        rw [if_neg hnot, Function.update_self, List.map_cons, if_pos List.mem_cons_self]
      · rw [Function.update_of_ne hpe]
        simp only [List.map_cons, List.mem_cons, hpe, false_or]
  rw [eachPool, hfold _ _ (by rw [h]; exact List.nodup_range), h, if_pos (List.mem_range.mpr hp)]

theorem Mapped.addPool {s : Endpoints stdHash} (h : Mapped s) {u : Uri}
    (hcolon : ch ':' ∉ u.hostname) (hnone : s.endpoints.at? (Details.ofUri u) = none) :
    Mapped { s.addPool (Details.ofUri u) with returned := s.returned ++ [(u, s.made)] } where
  values := by
    show (s.endpoints.emplace _ _).entries.map Prod.snd = List.range (s.made + 1)
    rw [UnorderedMap.entries_emplace hnone, List.map_append, h.values, List.range_succ]
    rfl
  distinct := by
    show ((s.endpoints.emplace _ _).entries.map _).Nodup
    rw [UnorderedMap.entries_emplace hnone, List.map_append, List.nodup_append]
    refine ⟨h.distinct, List.nodup_singleton _, ?_⟩
    rintro d hd d' hd' rfl
    rw [List.mem_singleton.mp hd'] at hd
    exact UnorderedMap.not_mem_of_at? byString hnone hd
  returned := by
    intro x hx
    rcases List.mem_append.mp hx with hx | hx
    · obtain ⟨hxcolon, hxat⟩ := h.returned x hx
      exact ⟨hxcolon, UnorderedMap.at?_emplace_of_some hxat⟩
    · rw [List.mem_singleton.mp hx]
      exact ⟨hcolon, UnorderedMap.at?_emplace byString hnone⟩
  limits := by
    intro p hp
    show (Function.update s.pools s.made _ p).maxConnections = _ ∧
      (Function.update s.pools s.made _ p).limitConnections = _
    by_cases hnew : p = s.made
    · rw [hnew, Function.update_self]
      exact ⟨rfl, rfl⟩
    · rw [Function.update_of_ne hnew]
      have hlt : p < s.made + 1 := hp
      exact h.limits p (by omega)

/-- A parsed host has no colon. -/
theorem colon_not_mem_hostname {u : Uri} (h : ∃ input, Uri.parse input = .ok u) :
    ch ':' ∉ u.hostname := by
  obtain ⟨input, h⟩ := h
  intro hm
  exact absurd ((Uri.Parsed.of_parse h).host _ hm) (by decide)

theorem Mapped.step {s s' : Endpoints stdHash} {e : Call} (h : Mapped s) (hok : FromText s e)
    (hstep : step s e = some s') : Mapped s' := by
  cases e with
  | endpointFor u =>
    obtain ⟨⟨t, p⟩, ht, rfl⟩ := Option.map_eq_some_iff.mp hstep
    rw [endpointFor] at ht
    split at ht
    · rename_i hcount
      cases ht
      exact h.addPool (colon_not_mem_hostname hok) (UnorderedMap.count_eq_zero_iff.mp hcount)
    · obtain ⟨q, hq, heq⟩ := Option.map_eq_some_iff.mp ht
      cases heq
      refine ⟨h.values, h.distinct, fun x hx => ?_, h.limits⟩
      rcases List.mem_append.mp hx with hx | hx
      · exact h.returned x hx
      · rw [List.mem_singleton.mp hx]
        exact ⟨colon_not_mem_hostname hok, hq⟩
  | maxConnections n =>
    obtain rfl := Option.some.inj hstep
    refine ⟨h.values, h.distinct, h.returned, fun p hp => ?_⟩
    show (s.eachPool _ p).maxConnections = n ∧ (s.eachPool _ p).limitConnections = s.limitConnections
    rw [s.eachPool_apply h.values _ hp]
    exact ⟨rfl, (h.limits p hp).2⟩
  | limitConnections limit =>
    obtain rfl := Option.some.inj hstep
    refine ⟨h.values, h.distinct, h.returned, fun p hp => ?_⟩
    show (s.eachPool _ p).maxConnections = s.maxConnections ∧ (s.eachPool _ p).limitConnections = limit
    rw [s.eachPool_apply h.values _ hp]
    exact ⟨(h.limits p hp).1, rfl⟩

/-- A call leaves the pools there are to their endpoints. -/
theorem at?_step {s s' : Endpoints stdHash} {e : Call} (hstep : step s e = some s') {d : Details}
    {p : PoolId} (hp : s.endpoints.at? d = some p) : s'.endpoints.at? d = some p := by
  cases e with
  | endpointFor u =>
    obtain ⟨⟨t, q⟩, ht, rfl⟩ := Option.map_eq_some_iff.mp hstep
    rw [endpointFor] at ht
    split at ht
    · cases ht
      exact UnorderedMap.at?_emplace_of_some hp
    · obtain ⟨r, -, heq⟩ := Option.map_eq_some_iff.mp ht
      cases heq
      exact hp
  | maxConnections n =>
    obtain rfl := Option.some.inj hstep
    exact hp
  | limitConnections limit =>
    obtain rfl := Option.some.inj hstep
    exact hp

/-- A call sets one of the limits, or neither. -/
theorem limits_step {s s' : Endpoints stdHash} {e : Call} (hstep : step s e = some s') :
    s'.maxConnections = e.newMax.getD s.maxConnections ∧
      s'.limitConnections = e.newLimit.getD s.limitConnections := by
  cases e with
  | endpointFor u =>
    obtain ⟨⟨t, q⟩, ht, rfl⟩ := Option.map_eq_some_iff.mp hstep
    rw [endpointFor] at ht
    split at ht
    · cases ht
      exact ⟨rfl, rfl⟩
    · obtain ⟨r, -, heq⟩ := Option.map_eq_some_iff.mp ht
      cases heq
      exact ⟨rfl, rfl⟩
  | maxConnections n =>
    obtain rfl := Option.some.inj hstep
    exact ⟨rfl, rfl⟩
  | limitConnections limit =>
    obtain rfl := Option.some.inj hstep
    exact ⟨rfl, rfl⟩

theorem getLastD_filterMap_cons {α β : Type*} (f : α → Option β) (x : α) (xs : List α) (b : β) :
    ((x :: xs).filterMap f).getLastD b = (xs.filterMap f).getLastD ((f x).getD b) := by
  cases hx : f x with
  | none => rw [List.filterMap_cons_none hx, Option.getD_none]
  | some y => rw [List.filterMap_cons_some hx, List.getLastD_cons, Option.getD_some]

/-- From any client on, the limits are those set last. -/
theorem limits_exec {s t : Endpoints stdHash} (calls : List Call) (h : exec step s calls = some t) :
    t.maxConnections = (calls.filterMap Call.newMax).getLastD s.maxConnections ∧
      t.limitConnections = (calls.filterMap Call.newLimit).getLastD s.limitConnections := by
  induction calls generalizing s with
  | nil =>
    obtain rfl := Option.some.inj h
    exact ⟨rfl, rfl⟩
  | cons e calls ih =>
    obtain ⟨u, hu, h⟩ := Option.bind_eq_some_iff.mp h
    obtain ⟨hmax, hlimit⟩ := limits_step hu
    rw [getLastD_filterMap_cons, getLastD_filterMap_cons, ← hmax, ← hlimit]
    exact ih h

/-- **The endpoint map**, after any calls; the pools it keeps after more; and the limits,
whichever calls they were. -/
theorem endpointMap_of_run {s : Endpoints stdHash} (run : Run step FromText {} s) :
    EndpointMap s ∧
      (∀ {t : Endpoints stdHash}, Run step FromText s t →
        ∀ d p, s.endpoints.at? d = some p → t.endpoints.at? d = some p) ∧
      ∀ calls, exec step {} calls = some s → SetLast s calls := by
  have h : Mapped s := run.invariant Mapped.init fun h hok hstep => h.step hok hstep
  refine ⟨h.endpointMap, fun later d p hp => ?_, fun calls hcalls => ?_⟩
  · exact later.invariant (P := fun t => t.endpoints.at? d = some p) hp
      fun hp _ hstep => at?_step hstep hp
  · obtain ⟨hmax, hlimit⟩ := limits_exec calls hcalls
    exact ⟨hmax, hlimit⟩

/-- A plain and an encrypted request, and one more plain one with the default port
written out, with both limits set in between. -/
def threeCalls : List Call :=
  [.endpointFor ⟨ascii "http", ascii "a", [], [], ascii "/", [], [], 80⟩, .maxConnections 3,
    .endpointFor ⟨ascii "https", ascii "a", [], [], [], [], [], 443⟩, .limitConnections false,
    .endpointFor ⟨ascii "http", ascii "a", [], [], ascii "/x", [], [], 80⟩]

/-- Two pools, the first one returned twice, both with the limits that were set. -/
theorem endpointMap_threeCalls :
    ∃ s : Endpoints List.length, exec step {} threeCalls = some s ∧
      s.returned.map Prod.snd = [0, 1, 0] ∧
      (List.range 2).map (fun p => ((s.pools p).maxConnections, (s.pools p).limitConnections)) =
        [(3, false), (3, false)] ∧
      EndpointMap s ∧ SetLast s threeCalls := by
  have hpools : (exec step ({} : Endpoints List.length) threeCalls).map (fun s =>
      (s.returned.map Prod.snd,
        (List.range 2).map fun p => ((s.pools p).maxConnections, (s.pools p).limitConnections))) =
      some ([0, 1, 0], [(3, false), (3, false)]) := by decide
  obtain ⟨s, hs, hpools⟩ := Option.map_eq_some_iff.mp hpools
  obtain ⟨hreturned, hlimits⟩ := Prod.mk.inj hpools
  have htext : ∀ e ∈ threeCalls, ∀ t : Endpoints List.length, FromText t e := by
    intro e he t
    simp only [threeCalls, List.mem_cons, List.not_mem_nil, or_false] at he
    rcases he with rfl | rfl | rfl | rfl | rfl
    · exact ⟨ascii "http://a/", rfl⟩
    · trivial
    · exact ⟨ascii "https://a", rfl⟩
    · trivial
    · exact ⟨ascii "http://a:80/x", rfl⟩
  obtain ⟨hmap, -, hset⟩ := endpointMap_of_run (Run.of_exec_mem threeCalls htext hs)
  exact ⟨s, hs, hreturned, hlimits, hmap, hset threeCalls hs⟩

end Endpoints

end AsioProtocols
