import PatternTree.CharClass.Complement
import PatternTree.Proofs.CharClass.Canonical

namespace PatternTree

namespace CharClass

variable {intervals : List (Nat × Nat)} {ranges : List ClassRange} {low high cutLow cutHigh : Nat}

theorem spans_flatMap (intervals : List (Nat × Nat)) (pieces : Nat × Nat → List (Nat × Nat))
    (code : Nat) :
    Spans (intervals.flatMap pieces) code ↔
      ∃ interval ∈ intervals, Spans (pieces interval) code := by
  simp only [Spans, List.mem_flatMap]
  constructor
  · rintro ⟨piece, ⟨interval, hinterval, hpiece⟩, hcode⟩
    exact ⟨interval, hinterval, piece, hpiece, hcode⟩
  · rintro ⟨interval, hinterval, piece, hpiece, hcode⟩
    exact ⟨piece, ⟨interval, hinterval, hpiece⟩, hcode⟩

/-- Pieces of intervals that lie apart lie apart when those of each interval do. -/
theorem Apart.flatMap (hapart : Apart intervals) {pieces : Nat × Nat → List (Nat × Nat)}
    (hpieces : ∀ interval ∈ intervals, Apart (pieces interval))
    (hinside : ∀ interval ∈ intervals, ∀ piece ∈ pieces interval,
      interval.1 ≤ piece.1 ∧ piece.2 ≤ interval.2) :
    Apart (intervals.flatMap pieces) := by
  constructor
  · intro piece hpiece
    obtain ⟨interval, hinterval, hpiece⟩ := List.mem_flatMap.mp hpiece
    exact (hpieces interval hinterval).ordered piece hpiece
  · refine List.pairwise_flatMap.mpr ⟨fun interval hinterval => (hpieces interval hinterval).gaps,
      hapart.gaps.imp_of_mem fun hearlier hlater hgap first hfirst second hsecond => ?_⟩
    have hstop := (hinside _ hearlier first hfirst).2
    have hstart := (hinside _ hlater second hsecond).1
    omega

theorem spans_cutInterval (code : Nat) :
    Spans (cutInterval cutLow cutHigh low high) code ↔
      (low ≤ code ∧ code ≤ high) ∧ ¬ (cutLow ≤ code ∧ code ≤ cutHigh) := by
  rw [cutInterval, spans_append]
  by_cases hbelow : low < cutLow <;> by_cases habove : cutHigh < high <;>
    simp [hbelow, habove] <;> omega

theorem apart_cutInterval (horder : low ≤ high) (hcut : cutLow ≤ cutHigh) :
    Apart (cutInterval cutLow cutHigh low high) := by
  rw [cutInterval]
  by_cases hbelow : low < cutLow <;> by_cases habove : cutHigh < high <;>
    simp [hbelow, habove, apart_cons, apart_nil] <;> omega

/-- What is left of an interval lies in it, on one side of what was cut out. -/
theorem cutInterval_inside (cutLow cutHigh low high : Nat) :
    ∀ piece ∈ cutInterval cutLow cutHigh low high,
      (low ≤ piece.1 ∧ piece.2 ≤ high) ∧ (piece.2 < cutLow ∨ cutHigh < piece.1) := by
  rw [cutInterval]
  by_cases hbelow : low < cutLow <;> by_cases habove : cutHigh < high <;>
    simp [hbelow, habove] <;> omega

/-- Taking a range out of intervals leaves the code points that do not lie in it. -/
theorem spans_removeRange (range : ClassRange) (code : Nat) :
    Spans (removeRange intervals range) code ↔
      Spans intervals code ∧ ¬ (range.codes.1 ≤ code ∧ code ≤ range.codes.2) := by
  rw [removeRange, spans_flatMap]
  simp only [spans_cutInterval]
  constructor
  · rintro ⟨interval, hinterval, hcode, hout⟩
    exact ⟨⟨interval, hinterval, hcode⟩, hout⟩
  · rintro ⟨⟨interval, hinterval, hcode⟩, hout⟩
    exact ⟨interval, hinterval, hcode, hout⟩

theorem apart_removeRange (hapart : Apart intervals) {range : ClassRange}
    (hrange : range.low ≤ range.high) : Apart (removeRange intervals range) :=
  hapart.flatMap
    (fun interval hinterval => apart_cutInterval (hapart.ordered interval hinterval) hrange)
    fun _ _ piece hpiece =>
      (cutInterval_inside _ _ _ _ piece hpiece).1

theorem spans_foldl_removeRange (code : Nat) :
    Spans (ranges.foldl removeRange intervals) code ↔
      Spans intervals code ∧ ¬ Spans (ranges.map ClassRange.codes) code := by
  induction ranges generalizing intervals with
  | nil => simp
  | cons range ranges ih =>
    rw [List.foldl_cons, ih, spans_removeRange, List.map_cons, spans_cons, not_or, and_assoc]

theorem apart_foldl_removeRange (hapart : Apart intervals)
    (hordered : ∀ range ∈ ranges, range.low ≤ range.high) :
    Apart (ranges.foldl removeRange intervals) := by
  induction ranges generalizing intervals with
  | nil => exact hapart
  | cons range ranges ih =>
    obtain ⟨hrange, hordered⟩ := List.forall_mem_cons.mp hordered
    exact ih (apart_removeRange hapart hrange) hordered

/-- The characters of an interval are what lies in it apart from the surrogates. -/
theorem map_codes_scalarRanges (horder : low ≤ high) (hhigh : high ≤ 0x10ffff) :
    (scalarRanges low high).map ClassRange.codes = cutInterval 0xd800 0xdfff low high := by
  have hvalid : ∀ code ≤ 0x10ffff, code < 0xd800 ∨ 0xdfff < code → code.isValidChar :=
    fun code hlast hside => hside.imp id fun habove => ⟨habove, by omega⟩
  rw [scalarRanges, cutInterval, List.map_append]
  congr 1
  · by_cases hbelow : low < 0xd800
    · rw [if_pos (by omega), if_pos hbelow, List.map_singleton, ClassRange.codes,
        toNat_ofNat (hvalid low (by omega) (by omega)),
        toNat_ofNat (hvalid (min high 0xd7ff) (by omega) (by omega))]
    · rw [if_neg (by omega), if_neg hbelow, List.map_nil]
  · by_cases habove : 0xdfff < high
    · rw [if_pos (by omega), if_pos habove, List.map_singleton, ClassRange.codes,
        toNat_ofNat (hvalid high hhigh (by omega)),
        toNat_ofNat (hvalid (max low 0xe000) (by omega) (by omega))]
    · rw [if_neg (by omega), if_neg habove, List.map_nil]

theorem map_codes_flatMap_scalarRanges
    (hinside : ∀ interval ∈ intervals, interval.1 ≤ interval.2 ∧ interval.2 ≤ 0x10ffff) :
    (intervals.flatMap fun interval => scalarRanges interval.1 interval.2).map ClassRange.codes =
      intervals.flatMap fun interval => cutInterval 0xd800 0xdfff interval.1 interval.2 := by
  rw [List.map_flatMap]
  exact List.flatMap_congr fun interval hinterval =>
    map_codes_scalarRanges (hinside interval hinterval).1 (hinside interval hinterval).2

/-- Between characters whose codes are not next to each other lies another one, unless the
    surrogates are all that lies there. -/
theorem exists_between {first last : Char} (hgap : first.toNat + 1 < last.toNat) :
    (∃ char, first < char ∧ char < last) ∨ (first = '\ud7ff' ∧ last = '\ue000') := by
  have hvalid : ∀ {char : Char}, char.toNat < 0xd800 ∨ 0xdfff < char.toNat ∧
      char.toNat < 0x110000 := fun {char} => char.valid
  by_cases hnext : first.toNat + 1 < 0xd800 ∨ 0xdfff < first.toNat + 1
  · have hcode : (first.toNat + 1).isValidChar :=
      hnext.imp id fun habove => ⟨habove, by have := @hvalid last; omega⟩
    refine .inl ⟨Char.ofNat (first.toNat + 1), ?_, ?_⟩
    · exact show first.toNat < (Char.ofNat (first.toNat + 1)).toNat by
        rw [toNat_ofNat hcode]; omega
    · exact show (Char.ofNat (first.toNat + 1)).toNat < last.toNat by
        rw [toNat_ofNat hcode]; omega
  · have hfirst : first.toNat = 0xd7ff := by have := @hvalid first; omega
    by_cases hlast : last.toNat = 0xe000
    · exact .inr ⟨Char.toNat_inj.mp hfirst, Char.toNat_inj.mp hlast⟩
    · refine .inl ⟨'\ue000', ?_, ?_⟩
      · exact show first.toNat < 0xe000 by omega
      · exact show 0xe000 < last.toNat by have := @hvalid last; omega

/-- Ranges of characters are canonical when their codes lie apart and none of them runs over the
    surrogates. -/
theorem canonical_of_apart (hapart : Apart (ranges.map ClassRange.codes))
    (hunbroken : ∀ range ∈ ranges, range.high.toNat < 0xd800 ∨ 0xdfff < range.low.toNat) :
    Canonical ranges where
  ordered range hrange := hapart.ordered range.codes (List.mem_map_of_mem hrange)
  ascending := (List.pairwise_map.mp hapart.gaps).imp fun hgap => Nat.lt_of_succ_lt hgap
  apart := (List.pairwise_map.mp hapart.gaps).imp fun hgap => exists_between hgap
  unbroken range hrange := by
    obtain hbelow | habove := hunbroken range hrange
    · exact .inl (Nat.le_of_lt_succ hbelow)
    · exact .inr habove

/-- The ranges of the characters in some intervals, in as few pieces as there can be. -/
theorem canonical_flatMap_scalarRanges (hapart : Apart intervals)
    (hinside : ∀ interval ∈ intervals, interval.2 ≤ 0x10ffff) :
    Canonical (intervals.flatMap fun interval => scalarRanges interval.1 interval.2) := by
  have hcodes := map_codes_flatMap_scalarRanges fun interval hinterval =>
    ⟨hapart.ordered interval hinterval, hinside interval hinterval⟩
  refine canonical_of_apart ?_ fun range hrange => ?_
  · rw [hcodes]
    exact hapart.flatMap
      (fun interval hinterval =>
        apart_cutInterval (hapart.ordered interval hinterval) (by decide))
      fun _ _ piece hpiece => (cutInterval_inside _ _ _ _ piece hpiece).1
  · have hmem := List.mem_map_of_mem (f := ClassRange.codes) hrange
    rw [hcodes] at hmem
    obtain ⟨interval, -, hpiece⟩ := List.mem_flatMap.mp hmem
    exact (cutInterval_inside _ _ _ _ _ hpiece).2

theorem covers_flatMap_scalarRanges
    (hinside : ∀ interval ∈ intervals, interval.1 ≤ interval.2 ∧ interval.2 ≤ 0x10ffff)
    (char : Char) :
    Covers (intervals.flatMap fun interval => scalarRanges interval.1 interval.2) char ↔
      Spans intervals char.toNat := by
  have hvalid : char.toNat < 0xd800 ∨ 0xdfff < char.toNat ∧ char.toNat < 0x110000 := char.valid
  rw [covers_iff_spans, map_codes_flatMap_scalarRanges hinside, spans_flatMap]
  simp only [spans_cutInterval]
  constructor
  · rintro ⟨interval, hinterval, hcode, -⟩
    exact ⟨interval, hinterval, hcode⟩
  · rintro ⟨interval, hinterval, hcode⟩
    exact ⟨interval, hinterval, hcode, by omega⟩

/-- The intervals that are left of all code points lie among them. -/
theorem removed_inside (hordered : ∀ range ∈ ranges, range.low ≤ range.high) :
    Apart (ranges.foldl removeRange [(0, 0x10ffff)]) ∧
      ∀ interval ∈ ranges.foldl removeRange [(0, 0x10ffff)],
        interval.1 ≤ interval.2 ∧ interval.2 ≤ 0x10ffff := by
  have hapart : Apart (ranges.foldl removeRange [(0, 0x10ffff)]) :=
    apart_foldl_removeRange (apart_cons.mpr ⟨by decide, by simp, apart_nil⟩) hordered
  refine ⟨hapart, fun interval hinterval => ⟨hapart.ordered interval hinterval, ?_⟩⟩
  have hspans : Spans (ranges.foldl removeRange [(0, 0x10ffff)]) interval.2 :=
    ⟨interval, hinterval, hapart.ordered interval hinterval, Nat.le_refl _⟩
  have hall := ((spans_foldl_removeRange interval.2).mp hspans).1
  simpa using hall

/-- The complement of some ranges is canonical. -/
theorem canonical_complement (hordered : ∀ range ∈ ranges, range.low ≤ range.high) :
    Canonical (complement ranges) := by
  obtain ⟨hapart, hinside⟩ := removed_inside hordered
  exact canonical_flatMap_scalarRanges hapart fun interval hinterval =>
    (hinside interval hinterval).2

/-- The complement of some ranges holds the characters that none of them holds. -/
theorem covers_complement (hordered : ∀ range ∈ ranges, range.low ≤ range.high) (char : Char) :
    Covers (complement ranges) char ↔ ¬ Covers ranges char := by
  have hvalid : char.toNat < 0xd800 ∨ 0xdfff < char.toNat ∧ char.toNat < 0x110000 := char.valid
  obtain ⟨-, hinside⟩ := removed_inside hordered
  refine (covers_flatMap_scalarRanges hinside char).trans ?_
  rw [spans_foldl_removeRange, covers_iff_spans]
  simp
  omega

end CharClass

end PatternTree
