import AsioProtocols.Base.Pieces

/-!
# Delimited streams

`delim_stream` (`test/streams.cpp`): text comes in chunks, and what stands in front of each
delimiter is handed to a sink. Between two calls the text behind the last delimiter is in two
places: `data_` holds what no search will look at again, `partial_` the last
characters, fewer than a delimiter has.

`Fed` is what holds between the calls, and `scan_cut` is about one call;
`delimStream_pieces` puts the calls together: the chunks do not matter.
-/

namespace AsioProtocols

/-- `delim_stream`, with the items that the sink was given. -/
structure DelimStream where
  delim : Bytes
  nonempty : delim ≠ []
  data : Bytes := []
  partial_ : Bytes := []
  items : List Bytes := []

namespace DelimStream

/-- `data(s)` (streams.cpp, line 17) -/
def addData (st : DelimStream) (s : Bytes) : DelimStream := { st with data := st.data ++ s }

/-- `emit()` (streams.cpp, lines 21-25) -/
def emit (st : DelimStream) : DelimStream :=
  { st with items := st.items ++ [st.data], data := [] }

/-- The loop of `incoming`; `rest` is `s.substr(lp)`. -/
def scan (st : DelimStream) (rest : Bytes) : DelimStream :=
  match _h : find st.delim rest with
  | none =>
    let partialLen := st.delim.length - 1
    if rest.length ≤ partialLen then { st with partial_ := rest }
    else
      { st.addData (rest.take (rest.length - partialLen)) with
        partial_ := rest.drop (rest.length - partialLen) }
  | some np => (st.addData (rest.take np)).emit.scan (rest.drop (np + st.delim.length))
termination_by rest.length
decreasing_by
  have hlen := congrArg List.length (find_eq_some st.nonempty _h).1
  have hpos := List.length_pos_iff.mpr st.nonempty
  rw [List.length_append, List.length_append] at hlen
  omega

/-- `incoming(is)` (streams.cpp, lines 69-113) -/
def incoming (st : DelimStream) (is : Bytes) : DelimStream := st.scan (st.partial_ ++ is)

/-- `delim_stream(d)` -/
def make (d : Bytes) (hd : d ≠ []) : DelimStream := { delim := d, nonempty := hd }

/-- **Between two calls**: the text so far is cut into the items and what is held. Nothing is
in `data_` unless `partial_` is full. -/
structure Fed (d : Bytes) (st : DelimStream) (text : Bytes) : Prop where
  delim : st.delim = d
  cut : CutAt d text st.items (st.data ++ st.partial_)
  full : st.data = [] ∨ st.partial_.length + 1 = d.length

/-! ## The loop -/

variable {st : DelimStream} {rest : Bytes}

theorem scan_of_none (h : find st.delim rest = none) : st.scan rest =
    if rest.length ≤ st.delim.length - 1 then { st with partial_ := rest }
    else
      { st.addData (rest.take (rest.length - (st.delim.length - 1))) with
        partial_ := rest.drop (rest.length - (st.delim.length - 1)) } := by
  rw [scan]
  split
  · rfl
  · rename_i np hnp
    rw [h] at hnp
    cases hnp

/-- One turn of the loop. -/
theorem scan_of_some {np : Nat} (h : find st.delim rest = some np) : st.scan rest =
    (st.addData (rest.take np)).emit.scan (rest.drop (np + st.delim.length)) := by
  rw [scan]
  split
  · rename_i hnone
    rw [h] at hnone
    cases hnone
  · rename_i np' hnp
    rw [h] at hnp
    cases hnp
    rfl

/-- What a scan over `rest` makes of `st`: it cuts what is in `data_` and `rest`. -/
structure Scanned (st : DelimStream) (rest : Bytes) (st' : DelimStream) : Prop where
  delim : st'.delim = st.delim
  cut : ∃ pieces, st'.items = st.items ++ pieces ∧
    CutAt st.delim (st.data ++ rest) pieces (st'.data ++ st'.partial_)
  full : st'.data = [] ∨ st'.partial_.length + 1 = st.delim.length

/-- No more delimiters: the text is held. -/
theorem scanned_of_none (h : find st.delim rest = none)
    (hclear : find st.delim (st.data ++ rest) = none)
    (hfull : st.data = [] ∨ st.delim.length ≤ rest.length + 1) :
    Scanned st rest (st.scan rest) := by
  have hpos := List.length_pos_iff.mpr st.nonempty
  rw [scan_of_none h]
  split
  · rename_i hshort
    refine ⟨rfl, ⟨[], (List.append_nil _).symm, .of_none hclear⟩, ?_⟩
    rcases hfull with hempty | hlong
    · exact .inl hempty
    · exact .inr (Nat.le_antisymm (by show rest.length + 1 ≤ _; omega) hlong)
  · refine ⟨rfl, ⟨[], (List.append_nil _).symm, ?_⟩, .inr ?_⟩
    · show CutAt st.delim _ [] (st.data ++ rest.take _ ++ rest.drop _)
      rw [List.append_assoc, List.take_append_drop]
      exact .of_none hclear
    · show (rest.drop _).length + 1 = _
      rw [List.length_drop]
      omega

/-- **The loop** cuts what is in `data_` and the text it goes over, if no delimiter
starts in `data_`. -/
theorem scan_cut : ∀ {n : Nat} {st : DelimStream} {rest : Bytes}, rest.length = n →
    find st.delim (st.data ++ rest) = (find st.delim rest).map (st.data.length + ·) →
    (st.data = [] ∨ st.delim.length ≤ rest.length + 1) → Scanned st rest (st.scan rest) := by
  intro n
  induction n using Nat.strongRecOn with
  | _ n ih =>
    intro st rest hn hclear hfull
    rcases hfind : find st.delim rest with _ | np
    · rw [hfind] at hclear
      exact scanned_of_none hfind hclear hfull
    · rw [hfind] at hclear
      obtain ⟨hsplit, htake, -⟩ := find_eq_some st.nonempty hfind
      have hpos := List.length_pos_iff.mpr st.nonempty
      have hlen := congrArg List.length hsplit
      rw [List.length_append, List.length_append] at hlen
      -- behind the delimiter `data_` is empty
      have hlater : Scanned (st.addData (rest.take np)).emit (rest.drop (np + st.delim.length))
          ((st.addData (rest.take np)).emit.scan (rest.drop (np + st.delim.length))) :=
        ih (rest.drop (np + st.delim.length)).length (by omega) rfl (by simp [emit]) (.inl rfl)
      obtain ⟨pieces, hitems, hcut⟩ := hlater.cut
      have hpiece : (st.data ++ rest).take (st.data.length + np) = st.data ++ rest.take np := by
        rw [List.take_append, List.take_of_length_le (by omega), Nat.add_sub_cancel_left]
      have hbehind : (st.data ++ rest).drop (st.data.length + np + st.delim.length) =
          rest.drop (np + st.delim.length) := by
        rw [Nat.add_assoc, ← List.drop_drop, List.drop_left]
      rw [scan_of_some hfind]
      refine ⟨hlater.delim, ⟨(st.data ++ rest.take np) :: pieces, ?_, ?_⟩, hlater.full⟩
      · rw [hitems, List.append_cons]
        rfl
      · rw [← hpiece]
        exact .of_some st.nonempty hclear (hbehind ▸ hcut)

/-! ## The calls -/

/-- **One call** cuts the chunk on to the text so far. -/
theorem Fed.incoming {d text : Bytes} (h : Fed d st text) (is : Bytes) :
    Fed d (st.incoming is) (text ++ is) := by
  obtain ⟨rfl, hbefore, hfull⟩ := h
  -- no delimiter starts in `data_`: it would end in `partial_`, where none was found
  have hclear : find st.delim (st.data ++ (st.partial_ ++ is)) =
      (find st.delim (st.partial_ ++ is)).map (st.data.length + ·) := by
    rcases hfull with hempty | hfull
    · rw [hempty]
      simp
    · exact find_append_of_none (by omega) is hbefore.done
  have hlong : st.data = [] ∨ st.delim.length ≤ (st.partial_ ++ is).length + 1 := by
    rw [List.length_append]
    exact hfull.imp_right fun hfull => by omega
  obtain ⟨hdelim, ⟨pieces, hitems, hcut⟩, hfull⟩ := scan_cut rfl hclear hlong
  rw [← List.append_assoc] at hcut
  refine ⟨hdelim, ?_, hfull⟩
  rw [DelimStream.incoming, hitems]
  exact hbefore.append hcut

/-- **All calls.** -/
theorem fed_incoming {d : Bytes} (hd : d ≠ []) (chunks : List Bytes) :
    Fed d (chunks.foldl incoming (make d hd)) chunks.flatten := by
  induction chunks using List.reverseRecOn with
  | nil =>
    have hfind : find d ([] : Bytes) = none := by rw [find, if_neg hd]
    exact ⟨rfl, .of_none hfind, .inl rfl⟩
  | append_singleton chunks is ih =>
    rw [List.foldl_append, List.flatten_append, List.flatten_singleton]
    exact ih.incoming is

/-- **Delimited streams do not depend on chunking**: whatever the chunks, their text is cut at
its leftmost delimiters, the pieces are the items, and the rest is held. -/
theorem delimStream_pieces (d : Bytes) (hd : d ≠ []) (chunks : List Bytes) :
    let st := chunks.foldl incoming (make d hd)
    CutAt d chunks.flatten st.items (st.data ++ st.partial_) ∧
      ∀ pieces rest, CutAt d chunks.flatten pieces rest →
        pieces = st.items ∧ rest = st.data ++ st.partial_ := by
  intro st
  have hcut : CutAt d chunks.flatten st.items (st.data ++ st.partial_) :=
    (fed_incoming hd chunks).cut
  exact ⟨hcut, fun pieces rest hother => hother.unique hcut⟩

/-- A delimiter that overlaps with itself, and straddles three chunks. -/
theorem delimStream_pieces_overlapping :
    let st := [ascii "xa", [], ascii "a", ascii "aab"].foldl incoming
      (make (ascii "aa") (by decide))
    CutAt (ascii "aa") [ascii "xa", [], ascii "a", ascii "aab"].flatten st.items
        (st.data ++ st.partial_) ∧
      ∀ pieces rest, CutAt (ascii "aa") [ascii "xa", [], ascii "a", ascii "aab"].flatten
        pieces rest → pieces = st.items ∧ rest = st.data ++ st.partial_ :=
  delimStream_pieces (ascii "aa") (by decide) [ascii "xa", [], ascii "a", ascii "aab"]

end DelimStream

end AsioProtocols
