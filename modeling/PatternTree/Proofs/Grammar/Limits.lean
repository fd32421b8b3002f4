import PatternTree.Dialect
import PatternTree.Proofs.Grammar

namespace PatternTree

/-- Counts of at most 32 bits of which the upper one is not below the lower one. -/
def Counts.Fit : Counts → Prop
  | exactly count => Text.fits32 (Text.decimalValue count)
  | atLeast lower => Text.fits32 (Text.decimalValue lower)
  | between lower upper =>
    Text.fits32 (Text.decimalValue lower) ∧ Text.fits32 (Text.decimalValue upper) ∧
      Text.decimalValue lower ≤ Text.decimalValue upper

namespace TokenRole

/-- Whether a token opens a group. -/
def isOpener : TokenRole → Bool
  | opener _ => true
  | _ => false

/-- Whether a token closes a group. -/
def isCloser : TokenRole → Bool
  | closer => true
  | _ => false

/-- The name that a token gives to a group. -/
def groupName? : TokenRole → Option String
  | opener (.named name) => some name
  | _ => none

/-- How many groups tokens open. -/
def openers (roles : List TokenRole) : Nat :=
  roles.countP isOpener

/-- How many groups tokens close. -/
def closers (roles : List TokenRole) : Nat :=
  roles.countP isCloser

/-- The names that tokens give to groups. -/
def groupNames (roles : List TokenRole) : List String :=
  roles.filterMap groupName?

@[simp] theorem groupNames_nil : groupNames [] = [] := rfl

@[simp] theorem groupNames_cons (role : TokenRole) (roles : List TokenRole) :
    groupNames (role :: roles) = role.groupName?.toList ++ groupNames roles := by
  cases hname : role.groupName? <;> simp [groupNames, hname]

@[simp] theorem groupNames_append (front back : List TokenRole) :
    groupNames (front ++ back) = groupNames front ++ groupNames back := by
  simp [groupNames]

@[simp] theorem openers_nil : openers [] = 0 := rfl

@[simp] theorem closers_nil : closers [] = 0 := rfl

@[simp] theorem openers_append (front back : List TokenRole) :
    openers (front ++ back) = openers front + openers back := by
  simp [openers]

@[simp] theorem closers_append (front back : List TokenRole) :
    closers (front ++ back) = closers front + closers back := by
  simp [closers]

@[simp] theorem openers_cons (role : TokenRole) (roles : List TokenRole) :
    openers (role :: roles) = openers roles + (if role.isOpener then 1 else 0) := by
  simp [openers, List.countP_cons]

@[simp] theorem closers_cons (role : TokenRole) (roles : List TokenRole) :
    closers (role :: roles) = closers roles + (if role.isCloser then 1 else 0) := by
  simp [closers, List.countP_cons]

/-- Every closer has its opener before it and every opener its closer behind it, and at no place
    more groups are open than a depth. -/
structure Nested (depth : Nat) (roles : List TokenRole) : Prop where
  balanced : openers roles = closers roles
  closers_le : ∀ front, front <+: roles → closers front ≤ openers front
  openers_le : ∀ front, front <+: roles → openers front ≤ closers front + depth

namespace Nested

variable {depth depth' : Nat} {roles roles' : List TokenRole}

/-- Tokens that neither open nor close groups. -/
theorem of_plain (hplain : ∀ role ∈ roles, role.isOpener = false ∧ role.isCloser = false) :
    Nested 0 roles := by
  have hnone : ∀ front, front <+: roles → openers front = 0 ∧ closers front = 0 := by
    intro front hfront
    rw [openers, closers, List.countP_eq_zero, List.countP_eq_zero]
    constructor
    · intro role hrole
      simp [(hplain role (hfront.subset hrole)).1]
    · intro role hrole
      simp [(hplain role (hfront.subset hrole)).2]
  refine ⟨?_, ?_, ?_⟩
  · have hall := hnone roles (List.prefix_refl _)
    omega
  · intro front hfront
    have hall := hnone front hfront
    omega
  · intro front hfront
    have hall := hnone front hfront
    omega

theorem mono (hnested : Nested depth roles) (hdepth : depth ≤ depth') : Nested depth' roles :=
  { hnested with
    openers_le := fun front hfront => Nat.le_trans (hnested.openers_le front hfront) (by omega) }

theorem append (hnested : Nested depth roles) (hnested' : Nested depth' roles') :
    Nested (max depth depth') (roles ++ roles') := by
  have hbalanced := hnested.balanced
  have hsplit : ∀ front, front <+: roles ++ roles' →
      front <+: roles ∨ ∃ front', front = roles ++ front' ∧ front' <+: roles' := by
    rintro front ⟨back, hback⟩
    obtain ⟨middle, hmiddle, -⟩ | ⟨front', rfl, hfront'⟩ := List.append_eq_append_iff.mp hback
    · exact .inl ⟨middle, hmiddle.symm⟩
    · exact .inr ⟨front', rfl, back, hfront'.symm⟩
  refine ⟨?_, ?_, ?_⟩
  · simp [hbalanced, hnested'.balanced]
  · intro front hfront
    obtain hfront | ⟨front', rfl, hfront'⟩ := hsplit front hfront
    · exact hnested.closers_le front hfront
    · have hle := hnested'.closers_le front' hfront'
      simp only [openers_append, closers_append]
      omega
  · intro front hfront
    obtain hfront | ⟨front', rfl, hfront'⟩ := hsplit front hfront
    · have hle := hnested.openers_le front hfront
      omega
    · have hle := hnested'.openers_le front' hfront'
      simp only [openers_append, closers_append]
      omega

/-- A pair of parentheses around tokens. -/
theorem group (hnested : Nested depth roles) (kind : Opener) :
    Nested (depth + 1) (opener kind :: (roles ++ [closer])) := by
  have hbalanced := hnested.balanced
  have hsplit : ∀ front, front <+: opener kind :: (roles ++ [closer]) →
      front = [] ∨ front = opener kind :: (roles ++ [closer]) ∨
        ∃ front', front = opener kind :: front' ∧ front' <+: roles := by
    intro front hfront
    cases front with
    | nil => exact .inl rfl
    | cons role front =>
      rw [List.cons_prefix_cons, List.prefix_concat_iff] at hfront
      obtain ⟨rfl, rfl | hfront⟩ := hfront
      · exact .inr (.inl rfl)
      · exact .inr (.inr ⟨front, rfl, hfront⟩)
  refine ⟨?_, ?_, ?_⟩
  · simp [isOpener, isCloser, hbalanced]
  · intro front hfront
    obtain rfl | rfl | ⟨front', rfl, hfront'⟩ := hsplit front hfront
    · exact Nat.le_refl _
    · simp [isOpener, isCloser, hbalanced]
    · have hle := hnested.closers_le front' hfront'
      simp [isOpener, isCloser]
      omega
  · intro front hfront
    obtain rfl | rfl | ⟨front', rfl, hfront'⟩ := hsplit front hfront
    · exact Nat.zero_le _
    · simp [isOpener, isCloser, hbalanced]
    · have hle := hnested.openers_le front' hfront'
      simp [isOpener, isCloser]
      omega

end Nested

end TokenRole

open TokenRole (isOpener isCloser openers closers groupNames)

/-- What a dialect asks of tokens beyond the grammar: all counts fit, at no place more groups
    are open than it allows, and names differ unless it lets them repeat. -/
structure Dialect.Admits (dialect : Dialect) (roles : List TokenRole) : Prop where
  counts : ∀ counts, .quantifier (.counted counts) ∈ roles → counts.Fit
  depth : ∀ front, front <+: roles → openers front ≤ closers front + dialect.maxDepth
  names : dialect.allowDuplicateNames = false → (groupNames roles).Nodup

/-- What a dialect asks of one more token behind those it admits. -/
structure Dialect.AdmitsNext (dialect : Dialect) (roles : List TokenRole) (role : TokenRole) :
    Prop where
  counts : ∀ counts, role = .quantifier (.counted counts) → counts.Fit
  depth : role.isOpener → openers roles < closers roles + dialect.maxDepth
  names : dialect.allowDuplicateNames = false →
    ∀ name, role.groupName? = some name → name ∉ groupNames roles

namespace Dialect

variable {dialect : Dialect} {roles : List TokenRole} {role : TokenRole}

theorem admits_nil : dialect.Admits [] where
  counts := by simp
  depth := by
    intro front hfront
    rw [List.prefix_nil.mp hfront]
    exact Nat.zero_le _
  names := by simp

theorem Admits.of_prefix {front : List TokenRole} (hadmits : dialect.Admits roles)
    (hfront : front <+: roles) : dialect.Admits front where
  counts counts hcounts := hadmits.counts counts (hfront.subset hcounts)
  depth inner hinner := hadmits.depth inner (hinner.trans hfront)
  names hdistinct :=
    (hadmits.names hdistinct).sublist (hfront.sublist.filterMap TokenRole.groupName?)

/-- Only openers meet the limits on depth and names. -/
theorem AdmitsNext.of_isOpener_eq_false (hrole : role.isOpener = false)
    (hfit : ∀ counts, role = .quantifier (.counted counts) → counts.Fit) :
    dialect.AdmitsNext roles role where
  counts := hfit
  depth := by simp [hrole]
  names := by
    intro _ name hname
    cases role <;> simp_all [TokenRole.isOpener, TokenRole.groupName?]

theorem admits_append_singleton :
    dialect.Admits (roles ++ [role]) ↔ dialect.Admits roles ∧ dialect.AdmitsNext roles role := by
  constructor
  · intro hadmits
    refine ⟨hadmits.of_prefix (List.prefix_append _ _), ?_, ?_, ?_⟩
    · rintro counts rfl
      exact hadmits.counts counts (by simp)
    · intro hopener
      have hdepth := hadmits.depth _ (List.prefix_refl _)
      have hcloser : role.isCloser = false := by cases role <;> simp_all [isOpener, isCloser]
      simp [hopener, hcloser] at hdepth
      omega
    · intro hdistinct name hname
      have hnodup := hadmits.names hdistinct
      rw [TokenRole.groupNames_append, List.nodup_append] at hnodup
      intro hmem
      exact hnodup.2.2 name hmem name (by simp [hname]) rfl
  · rintro ⟨hadmits, hnext⟩
    refine ⟨?_, ?_, ?_⟩
    · intro counts hcounts
      obtain hcounts | hcounts := List.mem_append.mp hcounts
      · exact hadmits.counts counts hcounts
      · exact hnext.counts counts (List.mem_singleton.mp hcounts).symm
    · intro front hfront
      obtain rfl | hfront := List.prefix_concat_iff.mp hfront
      · have hdepth := hadmits.depth roles (List.prefix_refl _)
        cases hopener : role.isOpener with
        | true =>
          have hroom := hnext.depth hopener
          simp [hopener]
          omega
        | false =>
          simp [hopener]
          omega
      · exact hadmits.depth front hfront
    · intro hdistinct
      rw [TokenRole.groupNames_append, List.nodup_append]
      refine ⟨hadmits.names hdistinct, ?_, ?_⟩
      · cases hname : role.groupName? <;> simp [hname]
      · intro name hmem other hother
        cases hname : role.groupName? with
        | none => simp [hname] at hother
        | some found =>
          obtain rfl : other = found := by simpa [hname] using hother
          rintro rfl
          exact hnext.names hdistinct _ hname hmem

end Dialect

namespace Counts

theorem count?_of_fits32 {digits : List Char} (hfits : Text.fits32 (Text.decimalValue digits)) :
    count? digits = .ok (Text.decimalValue digits) := by
  rw [count?, if_pos hfits]

theorem count?_of_fits32_eq_false {digits : List Char}
    (hlarge : Text.fits32 (Text.decimalValue digits) = false) :
    count? digits = .error (.tooLarge digits) := by
  rw [count?, hlarge]
  rfl

/-- Counts are bounds exactly when they fit, and then they are the bounds they write. -/
theorem bounds_eq_ok_iff {counts : Counts} {bounds : Bounds} :
    counts.bounds = .ok bounds ↔ counts.Fit ∧ bounds = counts.written := by
  cases counts with
  | exactly count =>
    cases hcount : Text.fits32 (Text.decimalValue count) with
    | true =>
      rw [Counts.bounds, count?_of_fits32 hcount]
      simp [Fit, written, hcount, bind, Except.bind, pure, Except.pure, eq_comm]
    | false =>
      rw [Counts.bounds, count?_of_fits32_eq_false hcount]
      simp [Fit, hcount, bind, Except.bind]
  | atLeast lower =>
    cases hlower : Text.fits32 (Text.decimalValue lower) with
    | true =>
      rw [Counts.bounds, count?_of_fits32 hlower]
      simp [Fit, written, hlower, bind, Except.bind, pure, Except.pure, eq_comm]
    | false =>
      rw [Counts.bounds, count?_of_fits32_eq_false hlower]
      simp [Fit, hlower, bind, Except.bind]
  | between lower upper =>
    cases hlower : Text.fits32 (Text.decimalValue lower) with
    | false =>
      rw [Counts.bounds, count?_of_fits32_eq_false hlower]
      simp [Fit, hlower, bind, Except.bind]
    | true =>
      rw [Counts.bounds, count?_of_fits32 hlower]
      cases hupper : Text.fits32 (Text.decimalValue upper) with
      | false =>
        rw [count?_of_fits32_eq_false hupper]
        simp [Fit, hupper, bind, Except.bind]
      | true =>
        rw [count?_of_fits32 hupper]
        by_cases horder : Text.decimalValue upper < Text.decimalValue lower
        · have hnot : ¬ Text.decimalValue lower ≤ Text.decimalValue upper := Nat.not_le.mpr horder
          simp [Fit, horder, hnot, bind, Except.bind]
        · have hle : Text.decimalValue lower ≤ Text.decimalValue upper := Nat.not_lt.mp horder
          simp [Fit, written, hlower, hupper, horder, hle, bind, Except.bind, pure, Except.pure,
            eq_comm]

end Counts

/-- A quantifier stands for the bounds it writes when its counts fit, and else for none. -/
theorem Quantifier.bounds_eq_ok_iff {quantifier : Quantifier} {bounds : Bounds} :
    quantifier.bounds = .ok bounds ↔
      (∀ counts, quantifier = .counted counts → counts.Fit) ∧ bounds = quantifier.written := by
  cases quantifier with
  | counted counts => simp [Quantifier.bounds, Quantifier.written, Counts.bounds_eq_ok_iff]
  | star => simp [Quantifier.bounds, Quantifier.written, eq_comm]
  | plus => simp [Quantifier.bounds, Quantifier.written, eq_comm]
  | optional => simp [Quantifier.bounds, Quantifier.written, eq_comm]

end PatternTree
