import PatternTree.Proofs.CharClass.Complement

namespace PatternTree

namespace CharClass

/-- The code point before another one, with 32 bits. There is none before zero. -/
def before? (code : UInt32) : Option UInt32 :=
  if code = 0 then none else some (code - 1)

/-- The code point after another one, with 32 bits. There is none after the largest number. -/
def after? (code : UInt32) : Option UInt32 :=
  if code = 0xffffffff then none else some (code + 1)

/-- The character with a code. Surrogates and numbers past the last character are no codes. -/
def charOf? (code : UInt32) : Option Char :=
  if hcode : code.isValidChar then some ⟨code, hcode⟩ else none

/-- A range from its codes, or nothing where their order leaves nothing. -/
def piece? (low high : UInt32) : Option (List ClassRange) :=
  if high < low then some []
  else do return [⟨← charOf? low, ← charOf? high⟩]

/-- The ranges from one code to another, on either side of the surrogates. -/
def pieces? (low high : UInt32) : Option (List ClassRange) := do
  return (← piece? low (min high (0xd800 - 1))) ++ (← piece? (max low (0xdfff + 1)) high)

/-- What one more range comes to when those before it start no later: the ranges between them so
    far, and the first code that lies behind all of them. -/
def sweepTurn? (state : List ClassRange × UInt32) (range : UInt32 × UInt32) :
    Option (List ClassRange × UInt32) := do
  let gap ← if state.2 < range.1 then pieces? state.2 (← before? range.1) else some []
  return (state.1 ++ gap, max state.2 (← after? range.2))

/-- Whether a pair of codes stands before another one in a sorted list. -/
def sortsBefore (first second : UInt32 × UInt32) : Bool :=
  first.1 < second.1 || (first.1 = second.1 && first.2 ≤ second.2)

/-- The codes of ranges in their order. -/
def sortedCodes (ranges : List ClassRange) : List (UInt32 × UInt32) :=
  (ranges.map fun range => (range.low.val, range.high.val)).mergeSort sortsBefore

/-- The complement of some ranges by one pass over them in the order of their codes. There is no
    result when a step leaves the 32 bits or needs a character that does not exist. -/
def sweep? (ranges : List ClassRange) : Option (List ClassRange) := do
  let (gaps, next) ← (sortedCodes ranges).foldlM sweepTurn? ([], 0)
  return gaps ++ (← pieces? next 0x10ffff)

/-- What intervals leave open from a code point on, when they are sorted by their starts. -/
def gapsFrom (next : Nat) : List (Nat × Nat) → List (Nat × Nat)
  | [] => if next ≤ 0x10ffff then [(next, 0x10ffff)] else []
  | (low, high) :: intervals =>
    (if next < low then [(next, low - 1)] else []) ++ gapsFrom (max next (high + 1)) intervals

section Gaps

variable {next : Nat} {intervals : List (Nat × Nat)}

theorem le_of_mem_gapsFrom : ∀ interval ∈ gapsFrom next intervals, next ≤ interval.1 := by
  induction intervals generalizing next with
  | nil => by_cases hnext : next ≤ 0x10ffff <;> simp [gapsFrom, hnext]
  | cons interval intervals ih =>
    intro gap hgap
    rw [gapsFrom, List.mem_append] at hgap
    obtain hgap | hgap := hgap
    · split at hgap
      · exact Nat.le_of_eq (congrArg Prod.fst (List.mem_singleton.mp hgap)).symm
      · cases hgap
    · exact Nat.le_trans (Nat.le_max_left _ _) (ih gap hgap)

/-- What is left open lies apart: the intervals between it are not empty. -/
theorem apart_gapsFrom (hordered : ∀ interval ∈ intervals, interval.1 ≤ interval.2) :
    Apart (gapsFrom next intervals) := by
  induction intervals generalizing next with
  | nil => by_cases hnext : next ≤ 0x10ffff <;> simp [gapsFrom, hnext, apart_cons, apart_nil]
  | cons interval intervals ih =>
    obtain ⟨horder, hordered⟩ := List.forall_mem_cons.mp hordered
    rw [gapsFrom]
    split
    next hnext =>
      refine apart_cons.mpr ⟨by simp only; omega, fun later hlater => ?_, ih hordered⟩
      have hbehind := le_of_mem_gapsFrom later hlater
      simp only
      omega
    · exact ih hordered

/-- A code point is left open when it lies in none of the intervals. -/
theorem spans_gapsFrom (hordered : ∀ interval ∈ intervals, interval.1 ≤ interval.2)
    (hlast : ∀ interval ∈ intervals, interval.2 ≤ 0x10ffff)
    (hsorted : intervals.Pairwise fun earlier later => earlier.1 ≤ later.1) (code : Nat) :
    Spans (gapsFrom next intervals) code ↔
      (next ≤ code ∧ code ≤ 0x10ffff) ∧ ¬ Spans intervals code := by
  induction intervals generalizing next with
  | nil =>
    by_cases hnext : next ≤ 0x10ffff
    · simp [gapsFrom, hnext]
    · simp [gapsFrom, hnext]
      omega
  | cons interval intervals ih =>
    obtain ⟨horder, hordered⟩ := List.forall_mem_cons.mp hordered
    obtain ⟨hhigh, hlast⟩ := List.forall_mem_cons.mp hlast
    obtain ⟨hlater, hsorted⟩ := List.pairwise_cons.mp hsorted
    -- a gap in front of an interval lies in front of all later ones as well
    have hbehind : Spans intervals code → interval.1 ≤ code := by
      rintro ⟨later, hmem, hle, -⟩
      exact Nat.le_trans (hlater later hmem) hle
    rw [gapsFrom, spans_append, ih hordered hlast hsorted, spans_cons]
    by_cases hspans : Spans intervals code
    · have hle := hbehind hspans
      by_cases hnext : next < interval.1 <;> simp [hnext, hspans]
      omega
    · by_cases hnext : next < interval.1 <;> simp [hnext, hspans] <;> omega

end Gaps

section Steps

variable {low high code : UInt32}

theorem before?_eq (hcode : 0 < code.toNat) :
    ∃ before, before? code = some before ∧ before.toNat = code.toNat - 1 := by
  refine ⟨code - 1, if_neg ?_, ?_⟩
  · rintro rfl
    exact absurd hcode (Nat.lt_irrefl 0)
  · exact UInt32.toNat_sub_of_le _ _ (UInt32.le_iff_toNat_le.mpr hcode)

theorem after?_eq (hcode : code.toNat ≤ 0x10ffff) :
    ∃ after, after? code = some after ∧ after.toNat = code.toNat + 1 := by
  refine ⟨code + 1, if_neg ?_, ?_⟩
  · rintro rfl
    exact absurd hcode (by decide)
  · rw [UInt32.toNat_add]
    exact Nat.mod_eq_of_lt (show code.toNat + 1 < 2 ^ 32 by omega)

theorem charOf?_eq (hcode : code.isValidChar) : charOf? code = some (Char.ofNat code.toNat) := by
  rw [charOf?, dif_pos hcode]
  exact congrArg some (Char.toNat_inj.mp (toNat_ofNat hcode).symm)

theorem piece?_eq (hvalid : low ≤ high → low.isValidChar ∧ high.isValidChar) :
    piece? low high = some (if low.toNat ≤ high.toNat then
      [⟨Char.ofNat low.toNat, Char.ofNat high.toNat⟩] else []) := by
  rw [piece?]
  by_cases horder : low ≤ high
  · obtain ⟨hlow, hhigh⟩ := hvalid horder
    rw [if_neg (UInt32.not_lt.mpr horder), charOf?_eq hlow, charOf?_eq hhigh,
      if_pos (UInt32.le_iff_toNat_le.mp horder)]
    rfl
  · rw [if_pos (UInt32.not_le.mp horder), if_neg fun hle => horder (UInt32.le_iff_toNat_le.mpr hle)]

/-- Every piece of a gap between characters is a range of characters. -/
theorem pieces?_eq (hhigh : high.toNat ≤ 0x10ffff) :
    pieces? low high = some (scalarRanges low.toNat high.toNat) := by
  have hmin : (min high (0xd800 - 1)).toNat = min high.toNat 0xd7ff := UInt32.toNat_min _ _
  have hmax : (max low (0xdfff + 1)).toNat = max low.toNat 0xe000 := UInt32.toNat_max _ _
  have hbelow := @piece?_eq low (min high (0xd800 - 1)) fun horder => by
    have horder := UInt32.le_iff_toNat_le.mp horder
    rw [hmin] at horder
    exact ⟨.inl (by omega), .inl (by omega)⟩
  have habove := @piece?_eq (max low (0xdfff + 1)) high fun horder => by
    have horder := UInt32.le_iff_toNat_le.mp horder
    rw [hmax] at horder
    exact ⟨.inr (by omega), .inr (by omega)⟩
  rw [hmin] at hbelow
  rw [hmax] at habove
  simp only [pieces?, hbelow, habove, scalarRanges]
  rfl

end Steps

/-- The codes of a pair as numbers. -/
def codesToNat (range : UInt32 × UInt32) : Nat × Nat :=
  (range.1.toNat, range.2.toNat)

/-- One turn takes the gap in front of a range and goes on behind the range. -/
theorem sweepTurn?_eq {range : UInt32 × UInt32} (hordered : range.1 ≤ range.2)
    (hlast : range.2.toNat ≤ 0x10ffff) (gaps : List ClassRange) (next : UInt32) :
    ∃ next', sweepTurn? (gaps, next) range = some
        (gaps ++ (if next.toNat < range.1.toNat then
          scalarRanges next.toNat (range.1.toNat - 1) else []), next') ∧
      next'.toNat = max next.toNat (range.2.toNat + 1) := by
  have hordered := UInt32.le_iff_toNat_le.mp hordered
  obtain ⟨after, hafter, hvalue⟩ := after?_eq hlast
  refine ⟨max next after, ?_, by rw [UInt32.toNat_max, hvalue]⟩
  by_cases hgap : next < range.1
  · have hgap' := UInt32.lt_iff_toNat_lt.mp hgap
    obtain ⟨before, hbefore, hvalue'⟩ := before?_eq (Nat.zero_lt_of_lt hgap')
    have hpieces := @pieces?_eq next before (by omega)
    rw [hvalue'] at hpieces
    simp [sweepTurn?, hgap, hgap', hbefore, hafter, hpieces]
  · have hgap' : ¬ next.toNat < range.1.toNat := fun hlt => hgap (UInt32.lt_iff_toNat_lt.mpr hlt)
    simp [sweepTurn?, hgap, hgap', hafter]

/-- The turns over sorted ranges and the gap behind them come to the characters of all gaps. -/
theorem foldlM_sweepTurn? {sorted : List (UInt32 × UInt32)}
    (hordered : ∀ range ∈ sorted, range.1 ≤ range.2)
    (hlast : ∀ range ∈ sorted, range.2.toNat ≤ 0x10ffff) (gaps : List ClassRange)
    (next : UInt32) :
    (do
      let (gaps, next) ← sorted.foldlM sweepTurn? (gaps, next)
      return gaps ++ (← pieces? next 0x10ffff)) =
    some (gaps ++ (gapsFrom next.toNat (sorted.map codesToNat)).flatMap fun interval =>
      scalarRanges interval.1 interval.2) := by
  induction sorted generalizing gaps next with
  | nil =>
    have hpieces := @pieces?_eq next 0x10ffff (Nat.le_refl _)
    have hlast : (0x10ffff : UInt32).toNat = 0x10ffff := rfl
    by_cases hnext : next.toNat ≤ 0x10ffff
    · simp [hpieces, gapsFrom, hnext, hlast]
    · have hnone : scalarRanges next.toNat 0x10ffff = [] := by
        rw [scalarRanges, if_neg (by omega), if_neg (by omega), List.append_nil]
      simp [hpieces, gapsFrom, hnext, hlast, hnone]
  | cons range sorted ih =>
    obtain ⟨horder, hordered⟩ := List.forall_mem_cons.mp hordered
    obtain ⟨hhigh, hlast⟩ := List.forall_mem_cons.mp hlast
    obtain ⟨next', hturn, hnext'⟩ := sweepTurn?_eq horder hhigh gaps next
    have hrest := ih hordered hlast (gaps ++ (if next.toNat < range.1.toNat then
          scalarRanges next.toNat (range.1.toNat - 1) else [])) next'
    rw [List.foldlM_cons, hturn]
    refine Eq.trans hrest ?_
    rw [List.map_cons, codesToNat, gapsFrom, hnext', List.append_assoc, List.flatMap_append]
    by_cases hgap : next.toNat < range.1.toNat <;> simp [hgap]

section Sorted

variable {ranges : List ClassRange}

theorem pairwise_sortedCodes (ranges : List ClassRange) :
    (sortedCodes ranges).Pairwise fun earlier later => earlier.1 ≤ later.1 := by
  have htrans : ∀ first second third, sortsBefore first second → sortsBefore second third →
      sortsBefore first third := by
    simp only [sortsBefore, Bool.or_eq_true, Bool.and_eq_true, decide_eq_true_eq]
    grind
  have htotal : ∀ first second, sortsBefore first second || sortsBefore second first := by
    simp only [sortsBefore, Bool.or_eq_true, Bool.and_eq_true, decide_eq_true_eq]
    grind
  refine (List.pairwise_mergeSort htrans htotal _).imp fun {earlier later} hbefore => ?_
  simp only [sortsBefore, Bool.or_eq_true, Bool.and_eq_true, decide_eq_true_eq] at hbefore
  grind

/-- Sorting keeps the codes. -/
theorem mem_sortedCodes {codes : UInt32 × UInt32} :
    codes ∈ sortedCodes ranges ↔
      ∃ range ∈ ranges, (range.low.val, range.high.val) = codes := by
  rw [sortedCodes, (List.mergeSort_perm _ _).mem_iff, List.mem_map]

theorem spans_sortedCodes (ranges : List ClassRange) (code : Nat) :
    Spans ((sortedCodes ranges).map codesToNat) code ↔
      Spans (ranges.map ClassRange.codes) code := by
  have hmem : ∀ interval, interval ∈ (sortedCodes ranges).map codesToNat ↔
      interval ∈ ranges.map ClassRange.codes := by
    intro interval
    simp only [List.mem_map, mem_sortedCodes]
    constructor
    · rintro ⟨-, ⟨range, hrange, rfl⟩, rfl⟩
      exact ⟨range, hrange, rfl⟩
    · rintro ⟨range, hrange, rfl⟩
      exact ⟨_, ⟨range, hrange, rfl⟩, rfl⟩
  simp only [Spans, hmem]

/-- What sorted ranges leave open is what remains when they are taken out one after the other. -/
theorem gapsFrom_sortedCodes (hordered : ∀ range ∈ ranges, range.low ≤ range.high)
    (hcodes : ∀ codes ∈ sortedCodes ranges, codes.1 ≤ codes.2 ∧ codes.2.toNat ≤ 0x10ffff) :
    gapsFrom 0 ((sortedCodes ranges).map codesToNat) =
      ranges.foldl removeRange [(0, 0x10ffff)] := by
  have hinside : ∀ interval ∈ (sortedCodes ranges).map codesToNat,
      interval.1 ≤ interval.2 ∧ interval.2 ≤ 0x10ffff := List.forall_mem_map.mpr hcodes
  have hsorted : ((sortedCodes ranges).map codesToNat).Pairwise fun earlier later =>
      earlier.1 ≤ later.1 := List.pairwise_map.mpr (pairwise_sortedCodes ranges)
  have hordered' := fun interval hinterval => (hinside interval hinterval).1
  refine (apart_gapsFrom hordered').eq_of_spans (removed_inside hordered).1 fun code => ?_
  rw [spans_gapsFrom hordered' (fun interval hinterval => (hinside interval hinterval).2) hsorted,
    spans_foldl_removeRange, spans_sortedCodes]
  simp

/-- The sweep never takes an impossible step and comes to the complement. -/
theorem sweep?_eq (hordered : ∀ range ∈ ranges, range.low ≤ range.high) :
    sweep? ranges = some (complement ranges) := by
  have hcodes : ∀ codes ∈ sortedCodes ranges, codes.1 ≤ codes.2 ∧ codes.2.toNat ≤ 0x10ffff := by
    intro codes hmem
    obtain ⟨range, hrange, rfl⟩ := mem_sortedCodes.mp hmem
    refine ⟨hordered range hrange, ?_⟩
    obtain hvalid | hvalid := range.high.valid
    · exact Nat.le_of_lt (Nat.lt_trans hvalid (by decide))
    · exact Nat.le_of_lt_succ hvalid.2
  have hsweep := foldlM_sweepTurn? (fun codes hmem => (hcodes codes hmem).1)
    (fun codes hmem => (hcodes codes hmem).2) [] 0
  rw [UInt32.toNat_zero, gapsFrom_sortedCodes hordered hcodes, List.nil_append] at hsweep
  exact hsweep

/-- The complement of ranges in any order, which may overlap, is found in steps each of which is
    possible. It is in canonical order and holds what the ranges do not hold, and the complement of
    the complement holds what the ranges hold. -/
theorem complement_exact (hordered : ∀ range ∈ ranges, range.low ≤ range.high) :
    sweep? ranges = some (complement ranges) ∧ Canonical (complement ranges) ∧
      (∀ char, Covers (complement ranges) char ↔ ¬ Covers ranges char) ∧
      ∀ char, Covers (complement (complement ranges)) char ↔ Covers ranges char := by
  have hcanonical := canonical_complement hordered
  have hcovers := covers_complement hordered
  refine ⟨sweep?_eq hordered, hcanonical, hcovers, fun char => ?_⟩
  rw [covers_complement hcanonical.ordered, hcovers, not_not]

/-- Ranges in no order, of which some overlap, some meet, and some end at the surrogates or at the
    last character. -/
theorem complement_exact_at_edges :
    ∃ ranges : List ClassRange,
      ranges = [⟨'\ue000', '\uffff'⟩, ⟨'c', '\ud7ff'⟩, ⟨'a', 'd'⟩, .single 'e',
        ⟨Char.ofNat 0x10fffe, Char.ofNat 0x10ffff⟩] ∧
      (∀ range ∈ ranges, range.low ≤ range.high) ∧ sweep? ranges = some (complement ranges) ∧
      Canonical (complement ranges) ∧
      (∀ char, Covers (complement ranges) char ↔ ¬ Covers ranges char) ∧
      (∀ char, Covers (complement (complement ranges)) char ↔ Covers ranges char) ∧
      complement ranges =
        [⟨'\x00', '`'⟩, ⟨Char.ofNat 0x10000, Char.ofNat 0x10fffd⟩] ∧
      complement (complement ranges) = [⟨'a', '\ud7ff'⟩, ⟨'\ue000', '\uffff'⟩,
        ⟨Char.ofNat 0x10fffe, Char.ofNat 0x10ffff⟩] := by
  have hordered : ∀ range ∈ ([⟨'\ue000', '\uffff'⟩, ⟨'c', '\ud7ff'⟩, ⟨'a', 'd'⟩, .single 'e',
      ⟨Char.ofNat 0x10fffe, Char.ofNat 0x10ffff⟩] : List ClassRange), range.low ≤ range.high := by
    decide
  obtain ⟨hsweep, hcanonical, hcovers, htwice⟩ := complement_exact hordered
  exact ⟨_, rfl, hordered, hsweep, hcanonical, hcovers, htwice, by decide +kernel,
    by decide +kernel⟩

end Sorted

end CharClass

end PatternTree
