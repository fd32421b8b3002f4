import Mathlib.Data.List.Basic
import PatternTree.CharClass

namespace PatternTree

namespace CharClass

/-- Whether a code point lies in one of some intervals, whose ends belong to them. -/
def Spans (intervals : List (Nat × Nat)) (code : Nat) : Prop :=
  ∃ interval ∈ intervals, interval.1 ≤ code ∧ code ≤ interval.2

/-- Intervals in ascending order, none of them empty, with a code point between each two. -/
structure Apart (intervals : List (Nat × Nat)) : Prop where
  ordered : ∀ interval ∈ intervals, interval.1 ≤ interval.2
  gaps : intervals.Pairwise fun earlier later => earlier.2 + 1 < later.1

section Intervals

variable {interval : Nat × Nat} {intervals others : List (Nat × Nat)} {code : Nat}

@[simp] theorem not_spans_nil (code : Nat) : ¬ Spans [] code := by
  simp [Spans]

@[simp] theorem spans_cons (interval : Nat × Nat) (intervals : List (Nat × Nat)) (code : Nat) :
    Spans (interval :: intervals) code ↔
      (interval.1 ≤ code ∧ code ≤ interval.2) ∨ Spans intervals code := by
  simp [Spans]

@[simp] theorem spans_append (front back : List (Nat × Nat)) (code : Nat) :
    Spans (front ++ back) code ↔ Spans front code ∨ Spans back code := by
  simp [Spans, or_and_right, exists_or]

theorem apart_nil : Apart [] :=
  ⟨by simp, .nil⟩

theorem apart_cons :
    Apart (interval :: intervals) ↔ interval.1 ≤ interval.2 ∧
      (∀ later ∈ intervals, interval.2 + 1 < later.1) ∧ Apart intervals := by
  constructor
  · rintro ⟨hordered, hgaps⟩
    obtain ⟨hlater, hgaps⟩ := List.pairwise_cons.mp hgaps
    obtain ⟨hinterval, hordered⟩ := List.forall_mem_cons.mp hordered
    exact ⟨hinterval, hlater, hordered, hgaps⟩
  · rintro ⟨hinterval, hlater, hordered, hgaps⟩
    exact ⟨List.forall_mem_cons.mpr ⟨hinterval, hordered⟩,
      List.pairwise_cons.mpr ⟨hlater, hgaps⟩⟩

/-- Nothing behind the first interval is at its end or directly behind it. -/
theorem Apart.lt_of_spans_tail (hapart : Apart (interval :: intervals))
    (hspans : Spans intervals code) : interval.2 + 1 < code := by
  obtain ⟨later, hlater, hle, -⟩ := hspans
  exact Nat.lt_of_lt_of_le ((apart_cons.mp hapart).2.1 later hlater) hle

/-- Behind the first interval lies what is above its end. -/
theorem Apart.spans_tail_iff (hapart : Apart (interval :: intervals)) :
    Spans intervals code ↔ Spans (interval :: intervals) code ∧ interval.2 < code := by
  rw [spans_cons]
  constructor
  · intro hspans
    have hlt := hapart.lt_of_spans_tail hspans
    exact ⟨.inr hspans, by omega⟩
  · rintro ⟨hspans, hlt⟩
    exact hspans.resolve_left fun hle => by omega

theorem Apart.spans_low (hapart : Apart (interval :: intervals)) :
    Spans (interval :: intervals) interval.1 :=
  (spans_cons _ _ _).mpr (.inl ⟨Nat.le_refl _, (apart_cons.mp hapart).1⟩)

/-- The first interval starts with the least code point of all. -/
theorem Apart.le_of_spans (hapart : Apart (interval :: intervals))
    (hspans : Spans (interval :: intervals) code) : interval.1 ≤ code := by
  obtain hhead | htail := (spans_cons _ _ _).mp hspans
  · exact hhead.1
  · have hlt := hapart.lt_of_spans_tail htail
    have hle := (apart_cons.mp hapart).1
    omega

/-- The first interval ends where a code point is missing for the first time. -/
theorem Apart.high_le (hapart : Apart (interval :: intervals)) {other : Nat × Nat}
    (hlow : interval.1 = other.1)
    (hspans : ∀ code, Spans (other :: others) code → Spans (interval :: intervals) code) :
    other.2 ≤ interval.2 := by
  by_contra hlt
  have hle := (apart_cons.mp hapart).1
  have hbehind : Spans (interval :: intervals) (interval.2 + 1) :=
    hspans _ ((spans_cons _ _ _).mpr (.inl ⟨by omega, by omega⟩))
  obtain hhead | htail := (spans_cons _ _ _).mp hbehind
  · omega
  · have hlater := hapart.lt_of_spans_tail htail
    omega

/-- What intervals that lie apart span determines them. -/
theorem Apart.eq_of_spans (hapart : Apart intervals) (hapart' : Apart others)
    (hsame : ∀ code, Spans intervals code ↔ Spans others code) : intervals = others := by
  induction intervals generalizing others with
  | nil =>
    cases others with
    | nil => rfl
    | cons other others => exact absurd ((hsame _).mpr hapart'.spans_low) (not_spans_nil _)
  | cons interval intervals ih =>
    cases others with
    | nil => exact absurd ((hsame _).mp hapart.spans_low) (not_spans_nil _)
    | cons other others =>
      have hlow : interval.1 = other.1 := Nat.le_antisymm
        (hapart.le_of_spans ((hsame _).mpr hapart'.spans_low))
        (hapart'.le_of_spans ((hsame _).mp hapart.spans_low))
      have hhigh : interval.2 = other.2 := Nat.le_antisymm
        (hapart'.high_le hlow.symm fun code => (hsame code).mp)
        (hapart.high_le hlow fun code => (hsame code).mpr)
      obtain rfl : interval = other := Prod.ext hlow hhigh
      have htail : ∀ code, Spans intervals code ↔ Spans others code := by
        intro code
        rw [hapart.spans_tail_iff, hapart'.spans_tail_iff, hsame]
      rw [ih (apart_cons.mp hapart).2.2 (apart_cons.mp hapart').2.2 htail]

end Intervals

/-- Whether a character lies in one of some ranges. -/
def Covers (ranges : List ClassRange) (char : Char) : Prop :=
  ∃ range ∈ ranges, range.Holds char

/-- Ranges in ascending order, none of them empty, as few as there can be without one that runs
    over the surrogates: between each two lies a character, or else they meet at the
    surrogates. -/
structure Canonical (ranges : List ClassRange) : Prop where
  ordered : ∀ range ∈ ranges, range.low ≤ range.high
  ascending : ranges.Pairwise fun earlier later => earlier.high < later.low
  apart : ranges.Pairwise fun earlier later =>
    (∃ char, earlier.high < char ∧ char < later.low) ∨
      (earlier.high = '\ud7ff' ∧ later.low = '\ue000')
  unbroken : ∀ range ∈ ranges, range.high ≤ '\ud7ff' ∨ '\ue000' ≤ range.low

end CharClass

/-- The code points that a range runs over. -/
def ClassRange.codes (range : ClassRange) : Nat × Nat :=
  (range.low.toNat, range.high.toNat)

theorem ClassRange.codes_injective : Function.Injective ClassRange.codes := by
  intro range other hcodes
  obtain ⟨hlow, hhigh⟩ := Prod.mk.inj hcodes
  cases range
  cases other
  simp_all [Char.toNat_inj]

namespace CharClass

theorem toNat_ofNat {code : Nat} (hcode : code.isValidChar) : (Char.ofNat code).toNat = code := by
  unfold Char.ofNat
  rw [dif_pos hcode]
  rfl

/-- A character lies in ranges when its code lies between their codes. -/
theorem covers_iff_spans (ranges : List ClassRange) (char : Char) :
    Covers ranges char ↔ Spans (ranges.map ClassRange.codes) char.toNat := by
  constructor
  · rintro ⟨range, hrange, hholds⟩
    exact ⟨range.codes, List.mem_map_of_mem hrange, hholds⟩
  · rintro ⟨interval, hinterval, hcode⟩
    obtain ⟨range, hrange, rfl⟩ := List.mem_map.mp hinterval
    exact ⟨range, hrange, hcode⟩

section Canonical

variable {ranges others : List ClassRange} {code : Nat}

/-- A range that does not run over the surrogates runs over characters alone. -/
theorem Canonical.isValidChar_of_spans (hcanonical : Canonical ranges)
    (hspans : Spans (ranges.map ClassRange.codes) code) : code.isValidChar := by
  obtain ⟨interval, hinterval, hlow, hhigh⟩ := hspans
  obtain ⟨range, hrange, rfl⟩ := List.mem_map.mp hinterval
  simp only [ClassRange.codes] at hlow hhigh
  obtain hside | hside := hcanonical.unbroken range hrange
  · have hside : range.high.toNat ≤ 0xd7ff := hside
    exact .inl (by omega)
  · have hside : 0xe000 ≤ range.low.toNat := hside
    have hlast : range.high.toNat < 0x110000 := by
      obtain hvalid | hvalid := range.high.valid
      · exact Nat.lt_trans hvalid (by decide)
      · exact hvalid.2
    exact .inr ⟨by omega, by omega⟩

theorem Canonical.apart_codes (hcanonical : Canonical ranges) :
    Apart (ranges.map ClassRange.codes) := by
  constructor
  · intro interval hinterval
    obtain ⟨range, hrange, rfl⟩ := List.mem_map.mp hinterval
    exact hcanonical.ordered range hrange
  · refine List.pairwise_map.mpr (hcanonical.apart.imp ?_)
    rintro earlier later (⟨char, hbehind, hbefore⟩ | ⟨hhigh, hlow⟩)
    · have hbehind : earlier.high.toNat < char.toNat := hbehind
      have hbefore : char.toNat < later.low.toNat := hbefore
      simp only [ClassRange.codes]
      omega
    · simp only [ClassRange.codes, hhigh, hlow]
      decide

/-- There is one way to write a set of characters in canonical ranges. -/
theorem Canonical.eq_of_covers (hcanonical : Canonical ranges) (hcanonical' : Canonical others)
    (hsame : ∀ char, Covers ranges char ↔ Covers others char) : ranges = others := by
  have hcodes : ∀ {code}, code.isValidChar → (Spans (ranges.map ClassRange.codes) code ↔
      Spans (others.map ClassRange.codes) code) := by
    intro code hvalid
    have hchar := hsame (Char.ofNat code)
    rwa [covers_iff_spans, covers_iff_spans, toNat_ofNat hvalid] at hchar
  refine List.map_injective_iff.mpr ClassRange.codes_injective ?_
  refine hcanonical.apart_codes.eq_of_spans hcanonical'.apart_codes fun code => ?_
  constructor
  · intro hspans
    exact (hcodes (hcanonical.isValidChar_of_spans hspans)).mp hspans
  · intro hspans
    exact (hcodes (hcanonical'.isValidChar_of_spans hspans)).mpr hspans

end Canonical

end CharClass

end PatternTree
