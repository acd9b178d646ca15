import AsioProtocols.Base.Regex

/-!
# `net::http::header`

A header is a pair of name and value (`http/header.h`). The constructor
normalises the name: a global replacement that puts an upper-case letter at the
start of each hyphen-free segment and lower case behind it.
-/

namespace AsioProtocols

/-- A header, `first` and `second` of the pair. -/
structure Header where
  key : Bytes
  value : Bytes
  deriving DecidableEq, Repr

namespace Header

/-- `(?:^|-)\K([^-]+)` -/
def segment : Regex Unit :=
  .seq (.alt .bol (.set (· == ch '-')))
    (.seq .keep (.group () (.plus (· != ch '-'))))

/-- The format `\L\u\1`: lower case, but the first character in upper case. -/
def capitalised (caps : List (Unit × Bytes)) : Bytes :=
  match Regex.capture caps () with
  | [] => []
  | c :: cs => toUpper c :: cs.map toLower

/-- `normalize_key(k)` (header.h, lines 36-46) -/
def normalizeKey (k : Bytes) : Bytes := Regex.replaceAll segment capitalised k

/-- `normalize_value(v)` (header.h, lines 52-56) -/
def normalizeValue (v : Bytes) : Bytes := v

/-- `header(k, v)`, with the default normalisation. -/
def make (k v : Bytes) : Header := { key := normalizeKey k, value := normalizeValue v }

/-- `matches(k)` (header.h, line 61) -/
def isNamed (h : Header) (k : Bytes) : Bool := normalizeKey k == h.key

example : normalizeKey (ascii "-hypheN--prEf-X") = ascii "-Hyphen--Pref-X" := by decide

/-! ## Normalisation character by character -/

/-- Upper case behind a hyphen, and in front where `first` holds; lower case
elsewhere. -/
def capitalise : Bool → Bytes → Bytes
  | _, [] => []
  | first, c :: cs =>
    if c = ch '-' then c :: capitalise true cs
    else (if first then toUpper c else toLower c) :: capitalise false cs

/-- A segment, up to the next hyphen. -/
theorem capitalise_segment (seg : Bytes) {rest : Bytes} (hseg : ∀ c ∈ seg, (c != ch '-') = true)
    (hrest : ∀ c, rest.head? = some c → c = ch '-') :
    capitalise false (seg ++ rest) = seg.map toLower ++ capitalise true rest := by
  induction seg with
  | nil =>
    cases rest with
    | nil => rfl
    | cons c rest =>
      obtain rfl := hrest c rfl
      rfl
  | cons c seg ih =>
    have hc : c ≠ ch '-' := bne_iff_ne.mp (hseg c List.mem_cons_self)
    rw [List.cons_append, capitalise, if_neg hc, ih fun d hd => hseg d (List.mem_cons_of_mem c hd)]
    rfl

open Regex

/-- A greedy repetition takes all it can when what follows always goes through. -/
theorem runMany_some {γ : Type} (p : Byte → Bool) (f : Bytes → Bytes → γ) :
    ∀ before after : Bytes, runMany p (fun b a => some (f b a)) before after =
      some (f ((after.takeWhile p).reverse ++ before) (after.dropWhile p))
  | before, [] => rfl
  | before, c :: rest => by
    rw [runMany, runMany_some p f (c :: before) rest]
    by_cases hc : p c = true <;> simp [hc]

/-- What the expression matches behind `^` or a hyphen: the whole segment. -/
theorem run_segment (before after : Bytes) (start : Nat) :
    (Regex.seq .keep (.group () (plus (· != ch '-')))).run some
      { before := before, after := after, start := start } =
    match after with
    | [] => none
    | c :: rest =>
      if c = ch '-' then none
      else some { before := (c :: rest.takeWhile (· != ch '-')).reverse ++ before,
                  after := rest.dropWhile (· != ch '-'), start := before.length,
                  caps := [((), c :: rest.takeWhile (· != ch '-'))] } := by
  cases after with
  | nil => rfl
  | cons c rest =>
    by_cases hc : c = ch '-'
    · simp [run_set, plus, hc]
    · have htake : List.take ((rest.takeWhile (· != ch '-')).length + (before.length + 1) -
          before.length) ((rest.takeWhile (· != ch '-')).reverse ++ c :: before) =
          (rest.takeWhile (· != ch '-')).reverse ++ [c] := by
        rw [List.append_cons, show (rest.takeWhile (· != ch '-')).length + (before.length + 1) -
          before.length = ((rest.takeWhile (· != ch '-')).reverse ++ [c]).length by
            rw [List.length_append, List.length_reverse, List.length_singleton]
            omega, List.take_left]
      simp [run_set, plus, hc, runMany_some, htake]

/-- What is left behind a segment starts with a hyphen. -/
theorem head_dropWhile (s : Bytes) :
    ∀ c, (s.dropWhile (· != ch '-')).head? = some c → c = ch '-' := by
  intro c hc
  have hne : s.dropWhile (· != ch '-') ≠ [] := by
    intro hnil
    rw [hnil] at hc
    cases hc
  have hnot := List.head_dropWhile_not (· != ch '-') hne
  rw [List.head?_eq_some_head hne, Option.some.injEq] at hc
  rw [hc] at hnot
  simpa using hnot

/-- A segment that starts with `c`, and what is behind it. -/
theorem capitalise_cons (c : Byte) (hc : c ≠ ch '-') (rest : Bytes) :
    capitalise true (c :: rest) = capitalised [((), c :: rest.takeWhile (· != ch '-'))] ++
      capitalise true (rest.dropWhile (· != ch '-')) := by
  have hseg := capitalise_segment (rest.takeWhile (· != ch '-'))
    (fun d hd => List.mem_takeWhile_imp (p := (· != ch '-')) hd) (head_dropWhile rest)
  rw [List.takeWhile_append_dropWhile] at hseg
  rw [capitalise, if_neg hc, hseg]
  rfl

theorem replaceFrom_segment : ∀ (fuel : Nat) (before after : Bytes), after.length < fuel →
    (before = [] ∨ ∀ c, after.head? = some c → c = ch '-') →
    replaceFrom segment capitalised fuel before after = capitalise true after
  | fuel + 1, before, [], _, _ => by
    have hno : segment.run some { before := before, after := [], start := before.length } =
        (none : Option (Cursor Unit)) := by
      simp [segment, run_set, plus]
    rw [replaceFrom, hno]
    rfl
  | fuel + 1, before, c :: rest, hfuel, hfront => by
    have hlen : (rest.dropWhile (· != ch '-')).length ≤ rest.length :=
      (List.dropWhile_sublist _).length_le
    rw [List.length_cons] at hfuel
    have hrun : segment.run some { before := before, after := c :: rest, start := before.length } =
        (if atBol before (c :: rest) then (Regex.seq .keep (.group () (plus (· != ch '-')))).run some
          { before := before, after := c :: rest, start := before.length } else none).or
          (if c = ch '-' then (Regex.seq .keep (.group () (plus (· != ch '-')))).run some
            { before := c :: before, after := rest, start := before.length } else none) := by
      simp [segment, run_set]
    rw [replaceFrom, hrun, run_segment, run_segment]
    -- the first alternative matches at the start of the name, the second behind a hyphen
    by_cases hc : c = ch '-'
    · subst hc
      cases rest with
      | nil =>
        simp only [if_true, ite_self, Option.none_or]
        rw [replaceFrom_segment fuel _ [] (by simpa using hfuel) (.inr (by simp))]
        rfl
      | cons d rest =>
        by_cases hd : d = ch '-'
        · -- no segment between two hyphens
          subst hd
          simp only [if_true, ite_self, Option.none_or]
          rw [replaceFrom_segment fuel _ _ (by simpa using hfuel) (.inr fun c hc => by
            cases hc
            rfl)]
          rfl
        · have hlen' : (rest.dropWhile (· != ch '-')).length ≤ rest.length :=
            (List.dropWhile_sublist _).length_le
          rw [List.length_cons] at hfuel
          simp only [if_true, ite_self, Option.none_or, if_neg hd]
          rw [replaceFrom_segment fuel _ _ (by omega) (.inr (head_dropWhile rest)), capitalise,
            if_pos rfl, capitalise_cons d hd]
          simp
    · -- only the start of the name is not behind a hyphen
      obtain rfl : before = [] := hfront.resolve_right fun h => hc (h c rfl)
      simp only [if_neg hc, atBol, if_true, Option.or_none]
      rw [replaceFrom_segment fuel _ _ (by omega) (.inr (head_dropWhile rest)), capitalise_cons c hc]
      simp

/-- **Normalisation in closed form.** -/
theorem normalizeKey_eq (k : Bytes) : normalizeKey k = capitalise true k :=
  replaceFrom_segment _ _ _ (Nat.lt_succ_self _) (.inl rfl)

/-! ## Idempotence -/

theorem toNat_toUpper (c : Byte) : (toUpper c).toNat =
    if 97 ≤ c.toNat ∧ c.toNat ≤ 122 then c.toNat - 32 else c.toNat := by
  have hiff : (97 ≤ c ∧ c ≤ 122) ↔ (97 ≤ c.toNat ∧ c.toNat ≤ 122) := Iff.rfl
  rw [toUpper]
  by_cases h : 97 ≤ c ∧ c ≤ 122
  · rw [if_pos h, if_pos (hiff.mp h), UInt8.toNat_sub_of_le _ _ (by
      have h97 : 97 ≤ c.toNat := h.1
      show 32 ≤ c.toNat
      omega)]
    rfl
  · rw [if_neg h, if_neg (hiff.not.mp h)]

theorem toNat_toLower (c : Byte) : (toLower c).toNat =
    if 65 ≤ c.toNat ∧ c.toNat ≤ 90 then c.toNat + 32 else c.toNat := by
  have hiff : (65 ≤ c ∧ c ≤ 90) ↔ (65 ≤ c.toNat ∧ c.toNat ≤ 90) := Iff.rfl
  rw [toLower]
  by_cases h : 65 ≤ c ∧ c ≤ 90
  · have h' := hiff.mp h
    rw [if_pos h, if_pos h', UInt8.toNat_add]
    show (c.toNat + 32) % 256 = _
    omega
  · rw [if_neg h, if_neg (hiff.not.mp h)]

/-- Letters stay letters, and a hyphen is none. -/
theorem toUpper_spec (c : Byte) :
    toUpper (toUpper c) = toUpper c ∧ (c ≠ ch '-' → toUpper c ≠ ch '-') := by
  have hdash : (ch '-').toNat = 45 := rfl
  constructor
  · apply UInt8.toNat_inj.mp
    simp only [toNat_toUpper]
    split_ifs <;> omega
  · intro hc he
    have hne : c.toNat ≠ 45 := fun h => hc (UInt8.toNat_inj.mp (h.trans hdash.symm))
    have hnat := congrArg UInt8.toNat he
    rw [toNat_toUpper, hdash] at hnat
    split at hnat <;> omega

theorem toLower_spec (c : Byte) :
    toLower (toLower c) = toLower c ∧ (c ≠ ch '-' → toLower c ≠ ch '-') := by
  have hdash : (ch '-').toNat = 45 := rfl
  constructor
  · apply UInt8.toNat_inj.mp
    simp only [toNat_toLower]
    split_ifs <;> omega
  · intro hc he
    have hne : c.toNat ≠ 45 := fun h => hc (UInt8.toNat_inj.mp (h.trans hdash.symm))
    have hnat := congrArg UInt8.toNat he
    rw [toNat_toLower, hdash] at hnat
    split at hnat <;> omega

theorem capitalise_capitalise : ∀ (first : Bool) (s : Bytes),
    capitalise first (capitalise first s) = capitalise first s
  | _, [] => rfl
  | first, c :: cs => by
    rw [capitalise]
    by_cases hc : c = ch '-'
    · rw [if_pos hc, capitalise, if_pos hc, capitalise_capitalise true cs]
    · rw [if_neg hc]
      cases first with
      | true =>
        obtain ⟨hidem, hne⟩ := toUpper_spec c
        simp only [if_true]
        rw [capitalise, if_neg (hne hc), if_pos rfl, hidem, capitalise_capitalise false cs]
      | false =>
        obtain ⟨hidem, hne⟩ := toLower_spec c
        simp only [Bool.false_eq_true, if_false]
        rw [capitalise, if_neg (hne hc), if_neg Bool.false_ne_true, hidem,
          capitalise_capitalise false cs]

/-- **A normalised name is normal.** -/
theorem normalizeKey_normalizeKey (k : Bytes) : normalizeKey (normalizeKey k) = normalizeKey k := by
  rw [normalizeKey_eq, normalizeKey_eq, capitalise_capitalise]

end Header

end AsioProtocols
