import AsioProtocols.Base.Bytes

/-!
# Backtracking regular expressions

The fragment of Perl-style regular expressions whose repetitions are over
classes of characters: greedy `many` (`[..]*`), sequence, ordered choice, named
groups, the anchors and `\K`. `run r k s` is the backtracking matcher in
continuation-passing form: the continuation says whether the rest of the match
goes through, the alternatives of `r` are tried in their order, the longest
repetition first, and the first that the continuation accepts is the result.
`regexMatch` is `boost::regex_match` (the whole input), `replaceAll` is
`boost::regex_replace` for expressions that match no empty string.

What the groups of a match are depends on the text alone: `meaning r f` is the
matcher on what is left of the input, where `f` stands for the rest of the match,
and `regexMatch_anchored` says that the two agree for expressions whose only
anchors are `^` in front and `$` behind. There a greedy repetition is `longest`:
the longest prefix of its class behind which the rest goes through.
-/

namespace AsioProtocols

/-- Expressions over bytes, with group names in `γ`. -/
inductive Regex (γ : Type)
  | empty
  | bol
  | eol
  | keep
  | set (p : Byte → Bool)
  | many (p : Byte → Bool)
  | seq (a b : Regex γ)
  | alt (a b : Regex γ)
  | group (g : γ) (a : Regex γ)

/-- A position in the input: what is before it, last byte first, what is after
it, where the match counts from, and the groups captured so far. -/
structure Cursor (γ : Type) where
  before : Bytes := []
  after : Bytes
  start : Nat := 0
  caps : List (γ × Bytes) := []

/-- A line separator for `^` and `$`. -/
def isSeparator (b : Byte) : Bool := b == 10 || b == 13

/-- `^`: the start of the input, or behind a separator, but not inside CR LF. -/
def atBol (before after : Bytes) : Bool :=
  match before with
  | [] => true
  | b :: _ => isSeparator b && !(b == 13 && after.head? == some 10)

/-- `$`: the end of the input, or before a separator, but not inside CR LF. -/
def atEol (before after : Bytes) : Bool :=
  match after with
  | [] => true
  | a :: _ => isSeparator a && !(a == 10 && before.head? == some 13)

variable {γ β : Type}

/-- Greedy repetition of a class: the longest first, then ever shorter. -/
def runMany (p : Byte → Bool) (k : Bytes → Bytes → Option β) : Bytes → Bytes → Option β
  | before, [] => k before []
  | before, c :: rest =>
    if p c then (runMany p k (c :: before) rest).or (k before (c :: rest))
    else k before (c :: rest)

namespace Regex

/-- `r?`, preferring to match. -/
def opt (r : Regex γ) : Regex γ := .alt r .empty

/-- `[..]+` -/
def plus (p : Byte → Bool) : Regex γ := .seq (.set p) (.many p)

/-- A literal. -/
def lit : Bytes → Regex γ
  | [] => .empty
  | b :: bs => .seq (.set (· == b)) (lit bs)

/-- A literal in lower case under `icase`. -/
def litNoCase : Bytes → Regex γ
  | [] => .empty
  | b :: bs => .seq (.set (toLower · == b)) (litNoCase bs)

/-- The matcher: the first way to match `r` that the continuation accepts. -/
def run : Regex γ → (Cursor γ → Option β) → Cursor γ → Option β
  | .empty, k, s => k s
  | .bol, k, s => if atBol s.before s.after then k s else none
  | .eol, k, s => if atEol s.before s.after then k s else none
  | .keep, k, s => k { s with start := s.before.length }
  | .set p, k, s =>
    match s.after with
    | [] => none
    | c :: rest =>
      if p c then k { s with before := c :: s.before, after := rest } else none
  | .many p, k, s => runMany p (fun b a => k { s with before := b, after := a }) s.before s.after
  | .seq a b, k, s => a.run (b.run k) s
  | .alt a b, k, s => (a.run k s).or (b.run k s)
  | .group g a, k, s =>
    a.run (fun t => k { t with
      caps := (g, (t.before.take (t.before.length - s.before.length)).reverse) :: t.caps }) s

section run

variable (k : Cursor γ → Option β) (s : Cursor γ)

@[simp] theorem run_bol :
    (bol : Regex γ).run k s = if atBol s.before s.after then k s else none := rfl

@[simp] theorem run_eol :
    (eol : Regex γ).run k s = if atEol s.before s.after then k s else none := rfl

@[simp] theorem run_keep : (keep : Regex γ).run k s = k { s with start := s.before.length } := rfl

theorem run_set (p : Byte → Bool) : (set p : Regex γ).run k s =
    match s.after with
    | [] => none
    | c :: rest => if p c then k { s with before := c :: s.before, after := rest } else none := rfl

@[simp] theorem run_many (p : Byte → Bool) : (many p : Regex γ).run k s =
    runMany p (fun b a => k { s with before := b, after := a }) s.before s.after := rfl

@[simp] theorem run_seq (a b : Regex γ) : (seq a b).run k s = a.run (b.run k) s := rfl

@[simp] theorem run_alt (a b : Regex γ) : (alt a b).run k s = (a.run k s).or (b.run k s) := rfl

@[simp] theorem run_group (g : γ) (a : Regex γ) : (group g a).run k s = a.run (fun t => k { t with
    caps := (g, (t.before.take (t.before.length - s.before.length)).reverse) :: t.caps }) s := rfl

end run

/-- `boost::regex_match`: the groups of the first match of the whole input. -/
def regexMatch (r : Regex γ) (input : Bytes) : Option (List (γ × Bytes)) :=
  r.run (fun s => if s.after = [] then some s.caps else none) { after := input }

/-- The text of a group; empty when the group took no part in the match. -/
def capture [DecidableEq γ] (caps : List (γ × Bytes)) (g : γ) : Bytes :=
  match caps.find? (·.1 == g) with
  | some c => c.2
  | none => []

/-- A group that was captured, or was not, in front of others. -/
theorem capture_option [DecidableEq γ] (o : Option Bytes) (g g' : γ) (caps : List (γ × Bytes)) :
    capture ((o.toList.map fun x => (g, x)) ++ caps) g' =
      if g = g' then o.getD (capture caps g') else capture caps g' := by
  cases o with
  | none => simp
  | some x => by_cases hg : g = g' <;> simp [capture, hg]

theorem capture_cons [DecidableEq γ] (g g' : γ) (x : Bytes) (caps : List (γ × Bytes)) :
    capture ((g, x) :: caps) g' = if g = g' then x else capture caps g' :=
  capture_option (some x) g g' caps

/-- The loop of `boost::regex_replace`: at each position either a match, whose
text behind `\K` is replaced, or one byte copied. -/
def replaceFrom (r : Regex γ) (format : List (γ × Bytes) → Bytes) :
    Nat → Bytes → Bytes → Bytes
  | 0, _, after => after
  | fuel + 1, before, after =>
    match r.run some { before := before, after := after, start := before.length } with
    | some t =>
      after.take (t.start - before.length) ++ format t.caps ++
        replaceFrom r format fuel t.before t.after
    | none =>
      match after with
      | [] => []
      | c :: rest => c :: replaceFrom r format fuel (c :: before) rest

/-- `boost::regex_replace` over the whole input. -/
def replaceAll (r : Regex γ) (format : List (γ × Bytes) → Bytes) (input : Bytes) : Bytes :=
  replaceFrom r format (input.length + 1) [] input

end Regex

/-! ## Greedy repetition -/

/-- The longest prefix of class `p` behind which `q` holds. -/
def longest (p : Byte → Bool) (q : Bytes → Bool) : Bytes → Option (Bytes × Bytes)
  | [] => if q [] then some ([], []) else none
  | c :: rest =>
    (if p c then (longest p q rest).map fun ab => (c :: ab.1, ab.2) else none).or
      (if q (c :: rest) then some ([], c :: rest) else none)

section longest

variable {p : Byte → Bool} {q : Bytes → Bool}

/-- A split that `longest` may return. -/
structure Splits (p : Byte → Bool) (q : Bytes → Bool) (s a b : Bytes) : Prop where
  eq : s = a ++ b
  inside : ∀ c ∈ a, p c = true
  accepted : q b = true

theorem Splits.cons {c : Byte} {s a b : Bytes} (h : Splits p q s a b) (hc : p c = true) :
    Splits p q (c :: s) (c :: a) b :=
  ⟨by rw [h.eq, List.cons_append], by simpa [hc] using h.inside, h.accepted⟩

/-- Where there is a split, `longest` finds one. -/
theorem longest_isSome : ∀ {s a b : Bytes}, Splits p q s a b → (longest p q s).isSome = true
  | [], a, b, h => by
    obtain ⟨-, rfl⟩ := List.append_eq_nil_iff.mp h.eq.symm
    simp [longest, h.accepted]
  | c :: rest, [], b, h => by
    obtain rfl : c :: rest = b := h.eq
    simp [longest, h.accepted]
  | c :: rest, d :: a, b, h => by
    obtain ⟨rfl, heq⟩ := List.cons.inj h.eq
    have ih := longest_isSome (s := rest)
      ⟨heq, fun e he => h.inside e (List.mem_cons_of_mem c he), h.accepted⟩
    simp [longest, h.inside c List.mem_cons_self, ih]

/-- What `longest` returns is a split, and no split is longer. -/
theorem longest_spec : ∀ {s a b : Bytes}, longest p q s = some (a, b) →
    Splits p q s a b ∧ ∀ a' b', Splits p q s a' b' → a'.length ≤ a.length
  | [], a, b, h => by
    obtain ⟨hq, h⟩ := Option.ite_none_right_eq_some.mp h
    cases h
    refine ⟨⟨rfl, by simp, hq⟩, fun a' b' h' => ?_⟩
    have := congrArg List.length h'.eq
    simp only [List.length_nil, List.length_append] at this
    simp only [List.length_nil]
    omega
  | c :: rest, a, b, h => by
    rw [longest] at h
    rcases Option.or_eq_some_iff.mp h with h | ⟨hnone, h⟩
    · -- the repetition goes on, and every other split that does is shorter
      obtain ⟨hc, h⟩ := Option.ite_none_right_eq_some.mp h
      obtain ⟨⟨a', b'⟩, hrest, hab⟩ := Option.map_eq_some_iff.mp h
      cases hab
      obtain ⟨hsplit, hmax⟩ := longest_spec hrest
      refine ⟨hsplit.cons hc, fun a'' b'' h'' => ?_⟩
      cases a'' with
      | nil => exact Nat.zero_le _
      | cons d a'' =>
        obtain ⟨rfl, heq⟩ := List.cons.inj h''.eq
        exact Nat.succ_le_succ
          (hmax a'' b'' ⟨heq, fun e he => h''.inside e (List.mem_cons_of_mem c he), h''.accepted⟩)
    · obtain ⟨hq, h⟩ := Option.ite_none_right_eq_some.mp h
      cases h
      refine ⟨⟨rfl, by simp, hq⟩, fun a' b' h' => ?_⟩
      cases a' with
      | nil => exact Nat.le_refl _
      | cons d a' =>
        obtain ⟨rfl, heq⟩ := List.cons.inj h'.eq
        rw [if_pos (h'.inside c List.mem_cons_self), Option.map_eq_none_iff] at hnone
        exact absurd (longest_isSome
          ⟨heq, fun e he => h'.inside e (List.mem_cons_of_mem c he), h'.accepted⟩) (by simp [hnone])

/-- **The longest split**, and no other. -/
theorem longest_eq_some_iff {s a b : Bytes} : longest p q s = some (a, b) ↔
    Splits p q s a b ∧ ∀ a' b', Splits p q s a' b' → a'.length ≤ a.length := by
  refine ⟨longest_spec, fun ⟨hsplit, hmax⟩ => ?_⟩
  obtain ⟨⟨a', b'⟩, hsome⟩ := Option.isSome_iff_exists.mp (longest_isSome hsplit)
  obtain ⟨hsplit', hmax'⟩ := longest_spec hsome
  have hlen : a.length = a'.length := Nat.le_antisymm (hmax' a b hsplit) (hmax a' b' hsplit')
  obtain ⟨rfl, rfl⟩ := List.append_inj (hsplit.eq.symm.trans hsplit'.eq) hlen
  exact hsome

theorem longest_eq_none_iff {s : Bytes} :
    longest p q s = none ↔ ∀ a b, ¬ Splits p q s a b := by
  refine ⟨fun hnone a b h => ?_, fun hno => ?_⟩
  · have := longest_isSome h
    rw [hnone] at this
    cases this
  · rcases hl : longest p q s with _ | ⟨a, b⟩
    · rfl
    · exact absurd (longest_spec hl).1 (hno a b)

theorem splits_takeWhile {s : Bytes} (hq : q (s.dropWhile p) = true) :
    Splits p q s (s.takeWhile p) (s.dropWhile p) :=
  ⟨List.takeWhile_append_dropWhile.symm, fun _ hc => List.mem_takeWhile_imp hc, hq⟩

/-- A prefix of a class is no longer than the longest one. -/
theorem Splits.length_le {s a b : Bytes} (h : Splits p q s a b) :
    a.length ≤ (s.takeWhile p).length := by
  rw [h.eq, List.takeWhile_append_of_pos h.inside, List.length_append]
  exact Nat.le_add_right _ _

/-- If what follows the whole of the class is accepted, it is taken. -/
theorem longest_of_accepted {s : Bytes} (hq : q (s.dropWhile p) = true) :
    longest p q s = some (s.takeWhile p, s.dropWhile p) :=
  longest_eq_some_iff.mpr ⟨splits_takeWhile hq, fun _ _ h => h.length_le⟩

/-- **A repetition is blocked** where the rest of the match starts at no character
of its class: the whole of the class is taken, or there is no match. -/
theorem longest_of_blocked (hblocked : ∀ c s, p c = true → q (c :: s) = false) (s : Bytes) :
    longest p q s =
      if q (s.dropWhile p) then some (s.takeWhile p, s.dropWhile p) else none := by
  split
  · exact longest_of_accepted ‹_›
  · rename_i hq
    refine longest_eq_none_iff.mpr fun a b h => hq ?_
    have hstop : b.dropWhile p = b := by
      cases b with
      | nil => rfl
      | cons c b =>
        rcases hc : p c with _ | _
        · rw [List.dropWhile_cons_of_neg (by simp [hc])]
        · have := h.accepted
          rw [hblocked c b hc] at this
          cases this
    rw [h.eq, List.dropWhile_append_of_pos h.inside, hstop]
    exact h.accepted

/-- The same for `[..]+`: the prefix is not empty. -/
def longestPlus (p : Byte → Bool) (q : Bytes → Bool) (s : Bytes) : Option (Bytes × Bytes) :=
  (longest p q s).filter fun ab => !ab.1.isEmpty

theorem longestPlus_eq_some_iff {s a b : Bytes} :
    longestPlus p q s = some (a, b) ↔ longest p q s = some (a, b) ∧ a ≠ [] := by
  simp [longestPlus, Option.filter_eq_some_iff]

theorem longestPlus_eq_none_iff {s : Bytes} :
    longestPlus p q s = none ↔ ∀ a b, Splits p q s a b → a = [] := by
  refine ⟨fun hnone a b h => ?_, fun hnil => ?_⟩
  · obtain ⟨⟨a', b'⟩, hsome⟩ := Option.isSome_iff_exists.mp (longest_isSome h)
    by_contra hne
    have hlen := (longest_spec hsome).2 a b h
    have hne' : a' ≠ [] := by
      rintro rfl
      exact hne (List.eq_nil_of_length_eq_zero (Nat.le_zero.mp hlen))
    rw [longestPlus_eq_some_iff.mpr ⟨hsome, hne'⟩] at hnone
    cases hnone
  · rcases hl : longestPlus p q s with _ | ⟨a, b⟩
    · rfl
    · obtain ⟨hsome, hne⟩ := longestPlus_eq_some_iff.mp hl
      exact absurd (hnil a b (longest_spec hsome).1) hne

theorem longestPlus_of_blocked (hblocked : ∀ c s, p c = true → q (c :: s) = false) (s : Bytes) :
    longestPlus p q s =
      if s.takeWhile p ≠ [] ∧ q (s.dropWhile p) then some (s.takeWhile p, s.dropWhile p)
      else none := by
  rw [longestPlus, longest_of_blocked hblocked]
  by_cases hq : q (s.dropWhile p) = true
  · by_cases ht : s.takeWhile p = [] <;> simp [hq, ht, Option.filter]
  · simp [hq]

/-- The text in front of a character outside the class. -/
theorem takeWhile_of_inside {a : Bytes} (ha : ∀ c ∈ a, p c = true) {b : Bytes}
    (hb : ∀ c, b.head? = some c → p c = false) :
    (a ++ b).takeWhile p = a ∧ (a ++ b).dropWhile p = b := by
  rw [List.takeWhile_append_of_pos ha, List.dropWhile_append_of_pos ha]
  cases b with
  | nil => simp
  | cons c b => simp [hb c rfl]

end longest

/-! ## What a match depends on -/

/-- The groups of a match, the last one first. -/
abbrev Captures (γ : Type) := List (γ × Bytes)

/-- `k` accepts the text behind the cursor as `f` does, and adds its groups. -/
def Accepts (k : Cursor γ → Option (Captures γ)) (f : Bytes → Option (Captures γ)) : Prop :=
  ∀ s, k s = (f s.after).map (· ++ s.caps)

/-- `t` is the cursor `s` moved on. -/
def Cursor.Ahead (s t : Cursor γ) : Prop :=
  ∃ m, s.after = m ++ t.after ∧ t.before = m.reverse ++ s.before

namespace Cursor.Ahead

variable {s t u : Cursor γ}

theorem of_eq (hb : t.before = s.before) (ha : t.after = s.after) : s.Ahead t :=
  ⟨[], by simp [ha], by simp [hb]⟩

theorem trans (h : s.Ahead t) (h' : t.Ahead u) : s.Ahead u := by
  obtain ⟨m, hafter, hbefore⟩ := h
  obtain ⟨n, hafter', hbefore'⟩ := h'
  exact ⟨m ++ n, by simp [hafter, hafter'], by simp [hbefore, hbefore']⟩

/-- The text in between, seen from either side. -/
theorem consumed (h : s.Ahead t) : (t.before.take (t.before.length - s.before.length)).reverse =
    s.after.take (s.after.length - t.after.length) := by
  obtain ⟨m, hafter, hbefore⟩ := h
  have hleft : t.before.length - s.before.length = m.reverse.length := by simp [hbefore]
  have hright : s.after.length - t.after.length = m.length := by simp [hafter]
  rw [hleft, hright, hbefore, hafter, List.take_left, List.take_left, List.reverse_reverse]

end Cursor.Ahead

/-- A repetition asks its continuation only about cursors that moved on. -/
theorem runMany_congr {p : Byte → Bool} {k k' : Bytes → Bytes → Option β} :
    ∀ (after before : Bytes),
      (∀ m rest, after = m ++ rest → k (m.reverse ++ before) rest = k' (m.reverse ++ before) rest) →
      runMany p k before after = runMany p k' before after
  | [], before, h => h [] [] rfl
  | c :: rest, before, h => by
    have hhere := h [] (c :: rest) rfl
    have hon := runMany_congr (p := p) rest (c :: before)
      fun m rest' he => by simpa using h (c :: m) rest' (by rw [he, List.cons_append])
    simp only [List.reverse_nil, List.nil_append] at hhere
    rw [runMany, runMany, hhere, hon]

/-- In front of a continuation that depends on the text, a repetition takes the
longest prefix it can. -/
theorem runMany_eq_longest {p : Byte → Bool} {k : Bytes → Bytes → Option (Captures γ)}
    {f : Bytes → Option (Captures γ)} {caps : Captures γ}
    (hk : ∀ before after, k before after = (f after).map (· ++ caps)) :
    ∀ after before : Bytes, runMany p k before after =
      ((longest p (fun r => (f r).isSome) after).bind fun ab => f ab.2).map (· ++ caps)
  | [], before => by
    rw [runMany, hk, longest]
    cases hf : f [] <;> simp [hf]
  | c :: rest, before => by
    have ih := runMany_eq_longest (p := p) hk rest (c :: before)
    have hhere : k before (c :: rest) = ((if (f (c :: rest)).isSome then some ([], c :: rest)
        else none).bind fun ab : Bytes × Bytes => f ab.2).map (· ++ caps) := by
      rw [hk]
      cases hf : f (c :: rest) <;> simp [hf]
    rw [runMany, longest]
    split
    · rcases hl : longest p (fun r => (f r).isSome) rest with _ | ⟨a, b⟩
      · simp [ih, hl, hhere]
      · obtain ⟨x, hx⟩ := Option.isSome_iff_exists.mp (longest_spec hl).1.accepted
        simp [ih, hl, hx]
    · simp [hhere]

namespace Regex

/-- No anchors and no `\K`. -/
def Plain : Regex γ → Prop
  | .bol | .eol | .keep => False
  | .empty | .set _ | .many _ => True
  | .seq a b | .alt a b => a.Plain ∧ b.Plain
  | .group _ a => a.Plain

/-- The matcher on what is left of the input; `f` is the rest of the match. -/
def meaning : Regex γ → (Bytes → Option (Captures γ)) → Bytes → Option (Captures γ)
  | .empty, f, s => f s
  | .bol, f, s => f s
  | .eol, f, s => f s
  | .keep, f, s => f s
  | .set p, f, s =>
    match s with
    | [] => none
    | c :: rest => if p c then f rest else none
  | .many p, f, s => (longest p (fun r => (f r).isSome) s).bind fun ab => f ab.2
  | .seq a b, f, s => a.meaning (b.meaning f) s
  | .alt a b, f, s => (a.meaning f s).or (b.meaning f s)
  | .group g a, f, s =>
    a.meaning (fun r => (f r).map (· ++ [(g, s.take (s.length - r.length))])) s

section meaning

variable (f : Bytes → Option (Captures γ)) (s : Bytes)

@[simp] theorem meaning_empty : (empty : Regex γ).meaning f s = f s := rfl

@[simp] theorem meaning_set_nil (p : Byte → Bool) : (set p : Regex γ).meaning f [] = none := rfl

@[simp] theorem meaning_set_cons (p : Byte → Bool) (c : Byte) :
    (set p : Regex γ).meaning f (c :: s) = if p c then f s else none := rfl

theorem meaning_many (p : Byte → Bool) : (many p : Regex γ).meaning f s =
    (longest p (fun r => (f r).isSome) s).bind fun ab => f ab.2 := rfl

@[simp] theorem meaning_seq (a b : Regex γ) :
    (seq a b).meaning f s = a.meaning (b.meaning f) s := rfl

@[simp] theorem meaning_alt (a b : Regex γ) :
    (alt a b).meaning f s = (a.meaning f s).or (b.meaning f s) := rfl

theorem meaning_group (g : γ) (a : Regex γ) : (group g a).meaning f s =
    a.meaning (fun r => (f r).map (· ++ [(g, s.take (s.length - r.length))])) s := rfl

end meaning

/-- The matcher asks its continuation only about cursors that moved on. -/
theorem run_congr : ∀ (r : Regex γ) {k k' : Cursor γ → Option β} {s : Cursor γ},
    (∀ t, s.Ahead t → k t = k' t) → r.run k s = r.run k' s
  | .empty, _, _, s, h => h s (.of_eq rfl rfl)
  | .bol, k, k', s, h => by
    rw [run_bol, run_bol, h s (.of_eq rfl rfl)]
  | .eol, k, k', s, h => by
    rw [run_eol, run_eol, h s (.of_eq rfl rfl)]
  | .keep, _, _, s, h => h _ (.of_eq rfl rfl)
  | .set p, k, k', s, h => by
    rw [run_set, run_set]
    split
    · rfl
    · rename_i c rest hs
      rw [h _ ⟨[c], by simp [hs], by simp⟩]
  | .many p, k, k', s, h => runMany_congr _ _ fun m rest he => h _ ⟨m, he, rfl⟩
  | .seq a b, _, _, s, h => run_congr a fun t ht => run_congr b fun u hu => h u (ht.trans hu)
  | .alt a b, k, k', s, h => by rw [run_alt, run_alt, run_congr a h, run_congr b h]
  | .group g a, _, _, s, h =>
    run_congr a fun t ht => h _ (ht.trans (.of_eq rfl rfl))

/-- **The matcher is its meaning**: what goes through, and with which groups,
depends on the text behind the cursor alone. -/
theorem accepts_run : ∀ (r : Regex γ) {k : Cursor γ → Option (Captures γ)}
    {f : Bytes → Option (Captures γ)}, r.Plain → Accepts k f → Accepts (r.run k) (r.meaning f)
  | .empty, _, _, _, hk => hk
  | .set p, k, f, _, hk => fun s => by
    rcases hs : s.after with _ | ⟨c, rest⟩
    · simp [run_set, hs]
    · by_cases hp : p c = true <;> simp [run_set, hs, hp, hk _]
  | .many p, k, f, _, hk => fun s => by
    rw [run_many, meaning_many]
    refine runMany_eq_longest (k := fun b a => k { s with before := b, after := a })
      (fun b a => ?_) s.after s.before
    exact hk { s with before := b, after := a }
  | .seq a b, _, _, hr, hk => accepts_run a hr.1 (accepts_run b hr.2 hk)
  | .alt a b, k, f, hr, hk => fun s => by
    rw [run_alt, meaning_alt, accepts_run a hr.1 hk s, accepts_run b hr.2 hk s]
    cases a.meaning f s.after <;> rfl
  | .group g a, k, f, hr, hk => fun s => by
    have htext : (Regex.group g a).run k s = a.run (fun t => k { t with
        caps := (g, s.after.take (s.after.length - t.after.length)) :: t.caps }) s :=
      run_congr a fun t ht => by rw [ht.consumed]
    rw [htext]
    refine accepts_run a hr (fun t => ?_) s
    rw [hk]
    cases f t.after <;> simp

/-! ## What the pieces of an expression mean -/

section pieces

variable (f : Bytes → Option (Captures γ)) (s : Bytes)

theorem meaning_opt (r : Regex γ) : (opt r).meaning f s = (r.meaning f s).or (f s) := rfl

theorem meaning_lit : ∀ (bs s : Bytes),
    (lit bs).meaning f s = if bs <+: s then f (s.drop bs.length) else none
  | [], s => by simp [lit]
  | b :: bs, [] => by simp [lit]
  | b :: bs, c :: s => by
    rw [lit, meaning_seq, meaning_set_cons]
    by_cases hc : c = b
    · subst hc
      simp [meaning_lit bs s, List.cons_prefix_cons]
    · simp [hc, Ne.symm hc, List.cons_prefix_cons]

theorem meaning_byte (b : Byte) : (lit [b]).meaning f s =
    match s with
    | [] => none
    | c :: rest => if c = b then f rest else none := by
  cases s with
  | nil => rfl
  | cons c rest => simp [lit]

theorem meaning_litNoCase : ∀ (bs s : Bytes), (litNoCase bs).meaning f s =
    if bs <+: s.map toLower then f (s.drop bs.length) else none
  | [], s => by simp [litNoCase]
  | b :: bs, [] => by simp [litNoCase]
  | b :: bs, c :: s => by
    rw [litNoCase, meaning_seq, meaning_set_cons]
    by_cases hc : toLower c = b
    · subst hc
      simp [meaning_litNoCase bs s, List.cons_prefix_cons]
    · simp [hc, Ne.symm hc, List.cons_prefix_cons]

/-- The text of a group is what its expression consumed. -/
theorem take_of_split {a b : Bytes} (h : s = a ++ b) : s.take (s.length - b.length) = a := by
  simp [h]

theorem meaning_group_many (g : γ) (p : Byte → Bool) : (Regex.group g (.many p)).meaning f s =
    (longest p (fun r => (f r).isSome) s).bind fun ab => (f ab.2).map (· ++ [(g, ab.1)]) := by
  simp only [meaning_group, meaning_many, Option.isSome_map]
  rcases hl : longest p (fun r => (f r).isSome) s with _ | ⟨a, b⟩
  · rfl
  · simp [take_of_split s (longest_spec hl).1.eq]

theorem meaning_plus (p : Byte → Bool) : (plus p).meaning f s =
    (longestPlus p (fun r => (f r).isSome) s).bind fun ab => f ab.2 := by
  rw [longestPlus]
  cases s with
  | nil =>
    simp only [plus, meaning_seq, meaning_set_nil, longest]
    split <;> rfl
  | cons c rest =>
    simp only [plus, meaning_seq, meaning_set_cons, meaning_many, longest]
    by_cases hc : p c = true
    · rcases hl : longest p (fun r => (f r).isSome) rest with _ | ab
      · simp only [hc, if_true, Option.map_none, Option.none_or, Option.bind_none]
        split <;> rfl
      · simp [hc, Option.filter]
    · simp only [hc, Bool.false_eq_true, if_false, Option.none_or]
      split <;> rfl

theorem meaning_group_plus (g : γ) (p : Byte → Bool) : (Regex.group g (plus p)).meaning f s =
    (longestPlus p (fun r => (f r).isSome) s).bind fun ab => (f ab.2).map (· ++ [(g, ab.1)]) := by
  rw [meaning_group, meaning_plus]
  simp only [Option.isSome_map]
  rcases hl : longestPlus p (fun r => (f r).isSome) s with _ | ⟨a, b⟩
  · rfl
  · have hsplit := (longest_spec (longestPlus_eq_some_iff.mp hl).1).1
    simp [take_of_split s hsplit.eq]

/-- Up to the first `b`, and over it. -/
theorem meaning_upTo (g : γ) (b : Byte) :
    (Regex.group g (.many (· != b))).meaning ((lit [b]).meaning f) s =
      match s.dropWhile (· != b) with
      | [] => none
      | _ :: rest => (f rest).map (· ++ [(g, s.takeWhile (· != b))]) := by
  have hblocked : ∀ c s, (c != b) = true → ((lit [b]).meaning f (c :: s)).isSome = false := by
    intro c s hc
    simp [meaning_byte, bne_iff_ne.mp hc]
  rw [meaning_group_many, longest_of_blocked hblocked]
  rcases hd : s.dropWhile (· != b) with _ | ⟨c, rest⟩
  · simp [meaning_byte]
  · have hc : c = b := by
      have := List.head_dropWhile_not (· != b) (show s.dropWhile (· != b) ≠ [] by simp [hd])
      simpa [hd] using this
    cases hf : f rest <;> simp [meaning_byte, hc, hf]

/-- A piece that starts with `b` and goes on as long as its class does, where the
rest of the match starts at no character of the class. -/
theorem meaning_piece (g : γ) (b : Byte) (p : Byte → Bool)
    (hblocked : ∀ c s, p c = true → f (c :: s) = none) (rest : Bytes) :
    (Regex.group g (.seq (lit [b]) (.many p))).meaning f (b :: rest) =
      (f (rest.dropWhile p)).map (· ++ [(g, b :: rest.takeWhile p)]) := by
  rw [meaning_group, meaning_seq, meaning_byte]
  dsimp only
  rw [if_pos rfl, meaning_many]
  simp only [Option.isSome_map]
  rw [longest_of_blocked fun c s hc => by rw [hblocked c s hc]; rfl]
  have htext := take_of_split (b :: rest) (a := b :: rest.takeWhile p) (b := rest.dropWhile p)
    (by rw [List.cons_append, List.takeWhile_append_dropWhile])
  cases hf : f (rest.dropWhile p) with
  | none => simp
  | some x => simp only [Option.isSome_some, if_true, Option.bind_some, hf, htext]

theorem meaning_piece_of_ne (g : γ) {b : Byte} (p : Byte → Bool) (h : s.head? ≠ some b) :
    (Regex.group g (.seq (lit [b]) (.many p))).meaning f s = none := by
  rw [meaning_group, meaning_seq, meaning_byte]
  cases s with
  | nil => rfl
  | cons c rest =>
    have hc : c ≠ b := fun he => h (by rw [he]; rfl)
    simp [hc]

/-- The same where the `b` is not part of the group. -/
theorem meaning_behind (g : γ) (b : Byte) (p : Byte → Bool)
    (hblocked : ∀ c s, p c = true → f (c :: s) = none) (rest : Bytes) :
    (Regex.seq (lit [b]) (.group g (.many p))).meaning f (b :: rest) =
      (f (rest.dropWhile p)).map (· ++ [(g, rest.takeWhile p)]) := by
  rw [meaning_seq, meaning_byte]
  dsimp only
  rw [if_pos rfl, meaning_group_many,
    longest_of_blocked fun c s hc => by rw [hblocked c s hc]; rfl]
  cases hf : f (rest.dropWhile p) <;> simp [hf]

theorem meaning_behind_of_ne (g : γ) {b : Byte} (p : Byte → Bool) (h : s.head? ≠ some b) :
    (Regex.seq (lit [b]) (.group g (.many p))).meaning f s = none := by
  rw [meaning_seq, meaning_byte]
  cases s with
  | nil => rfl
  | cons c rest =>
    have hc : c ≠ b := fun he => h (by rw [he]; rfl)
    simp [hc]

/-- **An optional piece** is there if the text starts with its first character. -/
theorem meaning_opt_piece (g : γ) {b : Byte} {p : Byte → Bool} (hb : p b = true)
    (hblocked : ∀ c s, p c = true → f (c :: s) = none) :
    (opt (.group g (.seq (lit [b]) (.many p)))).meaning f s =
      if s.head? = some b then
        (f (s.tail.dropWhile p)).map (· ++ [(g, b :: s.tail.takeWhile p)])
      else f s := by
  rw [meaning_opt]
  split
  · rename_i hs
    obtain ⟨rest, rfl⟩ : ∃ rest, s = b :: rest := ⟨s.tail, List.eq_cons_of_mem_head? hs⟩
    rw [meaning_piece f g b p hblocked, hblocked b rest hb, Option.or_none]
    rfl
  · rename_i hs
    rw [meaning_piece_of_ne f s g p hs, Option.none_or]

theorem meaning_opt_behind (g : γ) {b : Byte} {p : Byte → Bool} (hb : p b = true)
    (hblocked : ∀ c s, p c = true → f (c :: s) = none) :
    (opt (.seq (lit [b]) (.group g (.many p)))).meaning f s =
      if s.head? = some b then
        (f (s.tail.dropWhile p)).map (· ++ [(g, s.tail.takeWhile p)])
      else f s := by
  rw [meaning_opt]
  split
  · rename_i hs
    obtain ⟨rest, rfl⟩ : ∃ rest, s = b :: rest := ⟨s.tail, List.eq_cons_of_mem_head? hs⟩
    rw [meaning_behind f g b p hblocked, hblocked b rest hb, Option.or_none]
    rfl
  · rename_i hs
    rw [meaning_behind_of_ne f s g p hs, Option.none_or]

end pieces

/-- The end of the input. -/
def ended (s : Bytes) : Option (Captures γ) := if s = [] then some [] else none

/-- `regex_match` of an expression between `^` and `$`. -/
theorem regexMatch_anchored (r : Regex γ) (hr : r.Plain) (input : Bytes) :
    regexMatch (.seq .bol (.seq r .eol)) input = r.meaning ended input := by
  have hend : Accepts (Regex.eol.run fun s : Cursor γ => if s.after = [] then some s.caps else none)
      ended := by
    intro s
    rw [run_eol]
    by_cases hs : s.after = [] <;> simp [hs, atEol, ended]
  have h := accepts_run r hr hend { after := input }
  simpa [regexMatch, atBol] using h

end Regex

end AsioProtocols
