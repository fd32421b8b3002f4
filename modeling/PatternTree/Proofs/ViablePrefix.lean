import Mathlib.Data.List.Nodup
import PatternTree.Proofs.Ranking

namespace PatternTree

namespace TokenRole

/-- Whether tokens close the group that an opener before them opens: a closing parenthesis is among
    them, and every other group is opened and closed before it or neither. -/
def CloseOuter (roles : List TokenRole) : Prop :=
  ∃ inner rest depth, roles = inner ++ closer :: rest ∧ Nested depth inner

variable {roles front back : List TokenRole} {depth : Nat}

/-- Tokens that at no place have closed more groups than they have opened leave the group around
    them open. -/
theorem not_closeOuter (hclosers : ∀ front, front <+: roles → closers front ≤ openers front) :
    ¬ CloseOuter roles := by
  rintro ⟨inner, rest, depth, rfl, hnested⟩
  have hle := hclosers (inner ++ [closer]) ⟨rest, by simp⟩
  have hbalanced := hnested.balanced
  simp only [openers_append, closers_append, openers_cons, closers_cons, openers_nil, closers_nil,
    isOpener, isCloser, if_true, Bool.false_eq_true, if_false] at hle
  omega

/-- Tokens that close more groups than they open close the one around them. The closing parenthesis
    is the first one behind which they have done so. -/
theorem closeOuter_of_openers_lt (hlt : openers roles < closers roles) : CloseOuter roles := by
  induction hlength : roles.length using Nat.strongRecOn generalizing roles with
  | ind length ih =>
    obtain rfl | ⟨front, last, rfl⟩ := roles.eq_nil_or_concat'
    · simp at hlt
    · by_cases hearlier : ∃ shorter, shorter <+: front ∧ openers shorter < closers shorter
      · obtain ⟨shorter, ⟨later, rfl⟩, hshorter⟩ := hearlier
        obtain ⟨inner, rest, depth, rfl, hnested⟩ :=
          ih shorter.length (by simp [← hlength]) hshorter rfl
        exact ⟨inner, rest ++ later ++ [last], depth, by simp, hnested⟩
      · have hclosers : ∀ shorter, shorter <+: front → closers shorter ≤ openers shorter :=
          fun shorter hshorter => Nat.le_of_not_lt fun hmore => hearlier ⟨shorter, hshorter, hmore⟩
        have hfront := hclosers front (List.prefix_refl front)
        have hlast : last = closer ∧ openers front = closers front := by
          cases last <;> simp [isOpener, isCloser] at hlt ⊢ <;> omega
        obtain ⟨rfl, hbalanced⟩ := hlast
        refine ⟨front, [], openers front, rfl, hbalanced, hclosers, fun shorter hshorter => ?_⟩
        exact Nat.le_trans (hshorter.sublist.countP_le (p := isOpener)) (Nat.le_add_left _ _)

/-- Among nested tokens each opener has its closing parenthesis. -/
theorem Nested.closeOuter {opener : TokenRole} (hopener : opener.isOpener)
    (hnested : Nested depth (front ++ opener :: back)) : CloseOuter back := by
  apply closeOuter_of_openers_lt
  have hbalanced := hnested.balanced
  have hfront := hnested.closers_le front (List.prefix_append _ _)
  have hcloser : opener.isCloser = false := by cases opener <;> simp_all [isOpener, isCloser]
  simp only [openers_append, closers_append, openers_cons, closers_cons, hopener, hcloser, if_true,
    Bool.false_eq_true, if_false] at hbalanced
  omega

end TokenRole

namespace Scan

/-- How many groups are open at an offset. -/
def depthAt (offset : Nat) (scan : Scan) : Nat :=
  TokenRole.depth ((scan.tokens.filter (·.span.start < offset)).map Token.role)

/-- Whether an offset is the start of the last opener without a closing parenthesis. -/
def LastUnclosedAt (offset : Nat) (scan : Scan) : Prop :=
  ∃ front opener back, scan.tokens = front ++ opener :: back ∧ opener.span.start = offset ∧
    opener.role.isOpener ∧ ¬ TokenRole.CloseOuter (back.map Token.role) ∧
    ∀ between inner later, back = between ++ inner :: later → inner.role.isOpener →
      TokenRole.CloseOuter (later.map Token.role)

end Scan

namespace Lexeme

variable {classSyntax : ClassSyntax} {rest : List Char} {lexemes : List Lexeme}

/-- No two tokens start at one offset. -/
theorem Reads.eq_of_start_eq (hreads : Reads classSyntax rest lexemes) {offset : Nat}
    {token token' : Token} (htoken : token ∈ place offset lexemes)
    (htoken' : token' ∈ place offset lexemes) (hstart : token.span.start = token'.span.start) :
    token = token' := by
  have hstarts : ((place offset lexemes).map (·.span.start)).Nodup := by
    rw [List.Nodup, List.pairwise_map]
    refine (pairwise_place offset lexemes).imp_of_mem fun {first second} hfirst _ hle => ?_
    have hlt := hreads.start_lt_stop_of_mem hfirst
    omega
  exact List.inj_on_of_nodup_map hstarts htoken htoken' hstart

/-- A text that starts with a token of another kind than an atom has neither an equals sign nor an
    exclamation mark in front. -/
theorem Reads.head_ne {lexeme : Lexeme} (hreads : Reads classSyntax rest (lexeme :: lexemes))
    (hrole : ∀ atom, lexeme.role ≠ .atom atom) :
    ∀ next ∈ (textOf (lexeme :: lexemes) ++ rest).head?, next ≠ '=' ∧ next ≠ '!' := by
  cases hreads with
  | @cons role char chars _ hread _ =>
    intro next hnext
    obtain rfl : char = next := by simpa using hnext
    constructor
    · rintro rfl
      obtain ⟨hatom, -⟩ := Prod.mk.inj (Except.ok.inj hread)
      exact hrole _ hatom.symm
    · rintro rfl
      obtain ⟨hatom, -⟩ := Prod.mk.inj (Except.ok.inj hread)
      exact hrole _ hatom.symm

/-- Behind tokens that are read from a text as many groups are open as they leave open. -/
theorem Reads.depthAt_eq (hreads : Reads classSyntax rest lexemes) :
    (Scan.ofText classSyntax 0 (textOf lexemes ++ rest)).depthAt (size lexemes) =
      TokenRole.depth (lexemes.map role) := by
  obtain ⟨others, -, -, -, hothers, -⟩ :=
    exists_reads_ofText classSyntax (0 + size lexemes) rest
  have hfilter := hreads.filter_start_lt 0 others
  rw [place_append, Nat.zero_add] at hfilter
  rw [Nat.zero_add] at hothers
  simp only [Scan.depthAt, hreads.ofText_append, Nat.zero_add, hothers, hfilter, roles_place]

end Lexeme

namespace Tree

variable {dialect : Dialect} {chars : List Char} {error : ParseError}

/-- A structural error is reported at a token in front of which all others are taken in. That token
    does not fit, or all tokens fit and it opens the innermost group that is still open at the end
    of the text. -/
theorem exists_front_of_ofText_eq_error
    (hread : ofText dialect chars = .error (.structural error)) :
    ∃ front token back before,
      (Scan.ofText dialect.classSyntax 0 chars).tokens = front ++ token :: back ∧
      token.span.start = error.offset ∧ ParseState.run dialect {} front = .ok before ∧
      (∀ atom, token.role ≠ .atom atom) ∧
      (before.step dialect token = .error error.cause ∨
        (Scan.ofText dialect.classSyntax 0 chars).failure = none ∧
          (∃ last, ParseState.run dialect {} (Scan.ofText dialect.classSyntax 0 chars).tokens =
            .ok last) ∧
          token.role.isOpener ∧ ∃ depth, TokenRole.Nested depth (back.map Token.role)) := by
  cases hrun : ParseState.run dialect {} (Scan.ofText dialect.classSyntax 0 chars).tokens with
  | error error' =>
    rw [ofText_of_run_eq_error hrun] at hread
    cases hread
    obtain ⟨front, token, back, before, cause, htokens, hfront, hstep, rfl⟩ :=
      ParseState.exists_of_run_eq_error hrun
    exact ⟨front, token, back, before, htokens, rfl, hfront,
      (ParseState.role_of_step_eq_error hstep).1, .inl hstep⟩
  | ok last =>
    simp only [ofText, ofTokens, hrun] at hread
    split at hread
    next hfailure =>
      simp only [ParseState.finish] at hread
      split at hread
      · cases hread
      next innermost others hopen =>
        cases hread
        obtain ⟨front, opener, back, before, htokens, hfront, -, hopener, hspan, hnested⟩ :=
          ParseState.exists_opener_of_run hrun hopen
        refine ⟨front, opener, back, before, htokens, congrArg Span.start hspan, hfront, ?_,
          .inr ⟨hfailure, ⟨last, rfl⟩, hopener, hnested⟩⟩
        intro atom hatom
        rw [hatom] at hopener
        cases hopener
    · cases hread

end Tree

namespace Pattern

variable {dialect : Dialect} {source : String} {error : ParseError}

/-- A structural error is reported at the first place at which the pattern cannot be gone on with:
    what stands before it makes a pattern together with a closing parenthesis for each group that is
    open there. Where it is reported at an opener that its group is not closed, the whole pattern
    only lacks closing parentheses, and no later opener lacks its own. A builder that reads one
    token ahead reports the same. -/
theorem parse_viable (hparse : parse dialect source = .error (.structural error)) :
    (∃ front rest, source.toList = front ++ rest ∧ Text.utf8Size front = error.offset ∧
      ∃ pattern, parse dialect (String.ofList (front ++ List.replicate
        ((tokenize dialect.classSyntax source).depthAt error.offset) ')')) = .ok pattern) ∧
    (∀ token ∈ (tokenize dialect.classSyntax source).tokens, token.span.start = error.offset →
      token.role.isOpener → error.cause.family = .unbalancedGroup →
      (∃ pattern, parse dialect (String.ofList (source.toList ++ List.replicate
        (tokenize dialect.classSyntax source).depth ')')) = .ok pattern) ∧
      (tokenize dialect.classSyntax source).LastUnclosedAt error.offset) ∧
    (Text.DigitsFit source.toList →
      (tokenize dialect.classSyntax source).tokens.countP (·.role.isNumbered) < 0xffffffff →
      Builder.build? dialect source =
        some (.error (PatternError.report (.structural error)))) := by
  obtain ⟨lexemes, rest, htext, hreads, hplaced, hrest, -⟩ :=
    Lexeme.exists_reads_ofText dialect.classSyntax 0 source.toList
  obtain ⟨front, token, back, before, htokens, hstart, hfront, hrole, hcause⟩ :=
    Tree.exists_front_of_ofText_eq_error (parse_eq_error_iff.mp hparse)
  obtain ⟨taken, behind, rfl, rfl, hback⟩ :=
    Lexeme.exists_of_place_eq_append (hplaced.symm.trans htokens)
  cases behind with
  | nil => cases hback
  | cons lexeme behind =>
    obtain ⟨rfl, rfl⟩ := List.cons.inj hback
    have htaken := hreads.of_append_left
    have hoffset : 0 + Lexeme.size taken = error.offset := hstart
    refine ⟨⟨Lexeme.textOf taken, Lexeme.textOf (lexeme :: behind) ++ rest, ?_, ?_, ?_⟩, ?_, ?_⟩
    · rw [htext, Lexeme.textOf_append, List.append_assoc]
    · rw [← hoffset, Nat.zero_add]
      rfl
    · have hdepth : (tokenize dialect.classSyntax source).depthAt error.offset =
          TokenRole.depth (taken.map Lexeme.role) := by
        rw [tokenize, htext, Lexeme.textOf_append, List.append_assoc, ← hoffset, Nat.zero_add]
        exact htaken.depthAt_eq
      rw [exists_parse_ofList_iff, hdepth,
        Tree.exists_ofText_closed_iff dialect htaken (hreads.of_append.head_ne hrole)]
      exact ⟨before, hfront⟩
    · intro opener hmem hopener hisOpener hfamily
      rw [show (tokenize dialect.classSyntax source).tokens = _ from hplaced] at hmem
      obtain rfl := hreads.eq_of_start_eq hmem (hplaced ▸ htokens ▸ by simp)
        (hopener.trans hstart.symm)
      obtain hstep | ⟨hfailure, hlast, -, depth, hnested⟩ := hcause
      · have hcloser := (ParseState.role_of_step_eq_error hstep).2 hfamily
        rw [hcloser] at hisOpener
        cases hisOpener
      · obtain rfl := hrest hfailure
        constructor
        · have hdepth : (tokenize dialect.classSyntax source).depth =
              TokenRole.depth ((taken ++ lexeme :: behind).map Lexeme.role) := by
            rw [← Lexeme.roles_place 0, ← hplaced]
            rfl
          rw [List.append_nil] at htext
          rw [exists_parse_ofList_iff, hdepth, htext,
            Tree.exists_ofText_closed_iff dialect hreads (by simp), ← hplaced]
          exact hlast
        · refine ⟨_, _, _, htokens, hstart, hisOpener,
            TokenRole.not_closeOuter hnested.closers_le, ?_⟩
          intro between inner later hsplit hinner
          rw [hsplit, List.map_append, List.map_cons] at hnested
          exact hnested.closeOuter hinner
    · intro hdigits hnumbered
      rw [Builder.build?_eq dialect source hdigits hnumbered, hparse]
      rfl

/-- Of two groups that are not closed the inner one is reported, although another one is closed
    behind its opener. A count that is out of order is reported before the group around it. -/
theorem parse_viable_open_groups :
    parse {} "((a)(b(c)" = .error (.structural ⟨.openGroup, 4⟩) ∧
      (∃ pattern, parse {} (String.ofList ("((a)".toList ++ [')'])) = .ok pattern) ∧
      (∃ pattern, parse {} (String.ofList ("((a)(b(c)".toList ++ [')', ')'])) = .ok pattern) ∧
      (tokenize .pcre "((a)(b(c)").LastUnclosedAt 4 ∧
      parse {} "(a|é{2,1}" =
        .error (.structural ⟨.countsOutOfOrder ['{', '2', ',', '1', '}'], 5⟩) ∧
      ∃ pattern, parse {} (String.ofList ("(a|é".toList ++ [')'])) = .ok pattern := by
  have hopen : parse {} "((a)(b(c)" = .error (.structural ⟨.openGroup, 4⟩) := by decide +kernel
  have hcounts : parse {} "(a|é{2,1}" =
      .error (.structural ⟨.countsOutOfOrder ['{', '2', ',', '1', '}'], 5⟩) := by
    decide +kernel
  obtain ⟨⟨front, rest, htext, hsize, hfront⟩, hlast, -⟩ := parse_viable hopen
  obtain ⟨⟨front', rest', htext', hsize', hfront'⟩, -⟩ := parse_viable hcounts
  obtain ⟨rfl, -⟩ := Text.append_inj_of_utf8Size_eq
    (htext.symm.trans (by decide : _ = "((a)".toList ++ "(b(c)".toList)) (hsize.trans (by decide))
  obtain ⟨rfl, -⟩ := Text.append_inj_of_utf8Size_eq
    (htext'.symm.trans (by decide : _ = "(a|é".toList ++ "{2,1}".toList))
    (hsize'.trans (by decide))
  have hdepth : (tokenize .pcre "((a)(b(c)").depthAt 4 = 1 ∧
      (tokenize .pcre "((a)(b(c)").depth = 2 ∧
      (tokenize .pcre "(a|é{2,1}").depthAt 5 = 1 := by
    decide +kernel
  obtain ⟨hbefore, hall, hbefore'⟩ := hdepth
  have hopener : ∃ token ∈ (tokenize .pcre "((a)(b(c)").tokens, token.span.start = 4 ∧
      token.role.isOpener := by
    decide +kernel
  obtain ⟨token, htoken, hstart, hrole⟩ := hopener
  obtain ⟨hwhole, hunclosed⟩ := hlast token htoken hstart hrole rfl
  rw [hbefore] at hfront
  rw [hbefore'] at hfront'
  rw [hall] at hwhole
  exact ⟨hopen, hfront, hwhole, hunclosed, hcounts, hfront'⟩

end Pattern

end PatternTree
