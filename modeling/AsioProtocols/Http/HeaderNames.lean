import AsioProtocols.Http.Header

/-!
# One name per case class

Names that differ in letter case only are one name (`SameName`). `normalize_key`
picks a representative of each class (**`normalizeKey_representative`**): two names
have the same normalised form exactly if they are the same name, and the form
differs from the name in letter case only, with upper case at the start of each
hyphen-free segment and lower case elsewhere (`Capitalised`).
-/

namespace AsioProtocols

namespace Header

/-- Equal ignoring letter case. -/
def SameName (a b : Bytes) : Prop := a.map toLower = b.map toLower

instance (a b : Bytes) : Decidable (SameName a b) := inferInstanceAs (Decidable (_ = _))

/-- An ASCII letter. -/
def isLetter (c : Byte) : Bool := (65 ≤ c && c ≤ 90) || (97 ≤ c && c ≤ 122)

/-- Position `i` is the first of the name, or behind a hyphen. -/
def SegmentStart (k : Bytes) (i : Nat) : Prop := i = 0 ∨ k[i - 1]? = some (ch '-')

/-- `n` is `k` with other letter case: upper case at the start of each segment,
lower case elsewhere, and what is no letter where it was. -/
structure Capitalised (k n : Bytes) : Prop where
  length : n.length = k.length
  start : ∀ (i : Nat) (c : Byte), k[i]? = some c → SegmentStart k i → n[i]? = some (toUpper c)
  elsewhere : ∀ (i : Nat) (c : Byte), k[i]? = some c → ¬ SegmentStart k i → n[i]? = some (toLower c)
  others : ∀ (i : Nat) (c : Byte), k[i]? = some c → isLetter c = false → n[i]? = some c

/-! ## Letters -/

theorem isLetter_eq_false {c : Byte} (h : isLetter c = false) :
    ¬ (65 ≤ c ∧ c ≤ 90) ∧ ¬ (97 ≤ c ∧ c ≤ 122) := by
  simpa [isLetter] using h

/-- What is no letter has no case. -/
theorem case_of_not_letter {c : Byte} (h : isLetter c = false) : toUpper c = c ∧ toLower c = c := by
  obtain ⟨hupper, hlower⟩ := isLetter_eq_false h
  exact ⟨if_neg hlower, if_neg hupper⟩

/-- The two cases of a letter are one letter. -/
theorem toLower_toUpper (c : Byte) : toLower (toUpper c) = toLower c := by
  apply UInt8.toNat_inj.mp
  simp only [toNat_toUpper, toNat_toLower]
  split_ifs <;> omega

theorem toUpper_toLower (c : Byte) : toUpper (toLower c) = toUpper c := by
  apply UInt8.toNat_inj.mp
  simp only [toNat_toUpper, toNat_toLower]
  split_ifs <;> omega

theorem toLower_eq_hyphen_iff (c : Byte) : toLower c = ch '-' ↔ c = ch '-' := by
  constructor
  · intro h
    by_contra hne
    exact (toLower_spec c).2 hne h
  · rintro rfl
    rfl

/-! ## Case classes -/

/-- The case of the name does not matter to its normalised form. -/
theorem capitalise_map_toLower : ∀ (first : Bool) (s : Bytes),
    capitalise first (s.map toLower) = capitalise first s
  | _, [] => rfl
  | first, c :: cs => by
    rw [List.map_cons, capitalise, capitalise]
    by_cases hc : c = ch '-'
    · rw [if_pos ((toLower_eq_hyphen_iff c).mpr hc), if_pos hc, capitalise_map_toLower true cs, hc]
      rfl
    · rw [if_neg ((toLower_eq_hyphen_iff c).not.mpr hc), if_neg hc, capitalise_map_toLower false cs,
        toUpper_toLower, (toLower_spec c).1]

/-- The normalised form is the same name. -/
theorem map_toLower_capitalise : ∀ (first : Bool) (s : Bytes),
    (capitalise first s).map toLower = s.map toLower
  | _, [] => rfl
  | first, c :: cs => by
    rw [capitalise]
    by_cases hc : c = ch '-'
    · rw [if_pos hc, List.map_cons, List.map_cons, map_toLower_capitalise true cs]
    · rw [if_neg hc, List.map_cons, List.map_cons, map_toLower_capitalise false cs]
      cases first with
      | true => rw [if_pos rfl, toLower_toUpper]
      | false => rw [if_neg Bool.false_ne_true, (toLower_spec c).1]

theorem sameName_normalizeKey (k : Bytes) : SameName (normalizeKey k) k := by
  rw [normalizeKey_eq]
  exact map_toLower_capitalise true k

/-- **Normalisation collapses exactly the case variants** of a name. -/
theorem normalizeKey_eq_iff (a b : Bytes) : normalizeKey a = normalizeKey b ↔ SameName a b := by
  constructor
  · intro h
    calc a.map toLower = (normalizeKey a).map toLower := (sameName_normalizeKey a).symm
      _ = (normalizeKey b).map toLower := by rw [h]
      _ = b.map toLower := sameName_normalizeKey b
  · intro h
    rw [normalizeKey_eq, normalizeKey_eq, ← capitalise_map_toLower true a,
      ← capitalise_map_toLower true b, h]

/-! ## Positions -/

/-- Each character of the normalised form, from the one at its place and the one in front. -/
theorem getElem?_capitalise (s : Bytes) : ∀ (first : Bool) (i : Nat),
    (capitalise first s)[i]? = s[i]?.map fun c =>
      if (i = 0 ∧ first = true) ∨ (i ≠ 0 ∧ s[i - 1]? = some (ch '-')) then toUpper c
      else toLower c := by
  induction s with
  | nil => exact fun _ _ => rfl
  | cons c cs ih =>
    intro first i
    have hhyphen : toUpper (ch '-') = ch '-' ∧ toLower (ch '-') = ch '-' := ⟨rfl, rfl⟩
    rw [capitalise]
    cases i with
    | zero =>
      by_cases hc : c = ch '-'
      · subst hc
        simp [hhyphen]
      · cases first <;> simp [hc]
    | succ j =>
      by_cases hc : c = ch '-'
      · rw [if_pos hc, List.getElem?_cons_succ, List.getElem?_cons_succ, ih true j]
        cases j <;> simp [hc]
      · rw [if_neg hc, List.getElem?_cons_succ, List.getElem?_cons_succ, ih false j]
        cases j <;> simp [hc]

theorem length_capitalise : ∀ (first : Bool) (s : Bytes), (capitalise first s).length = s.length
  | _, [] => rfl
  | first, c :: cs => by
    rw [capitalise]
    split
    · rw [List.length_cons, List.length_cons, length_capitalise true cs]
    · rw [List.length_cons, List.length_cons, length_capitalise false cs]

theorem capitalised_normalizeKey (k : Bytes) : Capitalised k (normalizeKey k) := by
  have hchar : ∀ (i : Nat) (c : Byte), k[i]? = some c → (normalizeKey k)[i]? =
      some (if i = 0 ∨ (i ≠ 0 ∧ k[i - 1]? = some (ch '-')) then toUpper c else toLower c) := by
    intro i c hc
    rw [normalizeKey_eq, getElem?_capitalise, hc]
    simp
  have hstart : ∀ i, SegmentStart k i ↔ (i = 0 ∨ (i ≠ 0 ∧ k[i - 1]? = some (ch '-'))) := by
    intro i
    rw [SegmentStart]
    tauto
  refine ⟨?_, ?_, ?_, ?_⟩
  · rw [normalizeKey_eq, length_capitalise]
  · intro i c hc hs
    rw [hchar i c hc, if_pos ((hstart i).mp hs)]
  · intro i c hc hs
    rw [hchar i c hc, if_neg ((hstart i).not.mp hs)]
  · intro i c hc hletter
    obtain ⟨hupper, hlower⟩ := case_of_not_letter hletter
    rw [hchar i c hc, hupper, hlower, ite_self]

/-- **One representative for each case class.** -/
theorem normalizeKey_representative (a b : Bytes) :
    (normalizeKey a = normalizeKey b ↔ SameName a b) ∧
      normalizeKey (normalizeKey a) = normalizeKey a ∧ Capitalised a (normalizeKey a) :=
  ⟨normalizeKey_eq_iff a b, normalizeKey_normalizeKey a, capitalised_normalizeKey a⟩

end Header

end AsioProtocols
