import PatternTree.Proofs.Grammar.Run

namespace PatternTree

namespace Snapshot

variable {dialect : Dialect}

/-- Lexemes lead from one snapshot to another when the parser reads its way there, provided that
    the dialect admits all that has been read in the end. -/
structure Leads (dialect : Dialect) (front : Snapshot) (lexemes : List Lexeme)
    (back : Snapshot) : Prop where
  lexemes_eq : back.lexemes = front.lexemes ++ lexemes
  run_eq : dialect.Admits back.roles →
    front.state.run dialect (Lexeme.place (Lexeme.size front.lexemes) lexemes) = .ok back.state

theorem Leads.roles_eq {front back : Snapshot} {lexemes : List Lexeme}
    (hleads : Leads dialect front lexemes back) :
    back.roles = front.roles ++ lexemes.map Lexeme.role := by
  simp [roles, hleads.lexemes_eq]

theorem Leads.refl (snapshot : Snapshot) : Leads dialect snapshot [] snapshot where
  lexemes_eq := by simp
  run_eq _ := rfl

theorem Leads.trans {front middle back : Snapshot} {lexemes others : List Lexeme}
    (hfront : Leads dialect front lexemes middle) (hback : Leads dialect middle others back) :
    Leads dialect front (lexemes ++ others) back where
  lexemes_eq := by rw [hback.lexemes_eq, hfront.lexemes_eq, List.append_assoc]
  run_eq := by
    intro hadmits
    have hmiddle : dialect.Admits middle.roles := by
      apply hadmits.of_prefix
      rw [hback.roles_eq]
      exact List.prefix_append _ _
    rw [Lexeme.place_append, ParseState.run_append (hfront.run_eq hmiddle),
      ← Lexeme.size_append, ← hfront.lexemes_eq]
    exact hback.run_eq hadmits

/-- One lexeme leads as far as one step does. -/
theorem Leads.of_step {front back : Snapshot} {lexeme : Lexeme}
    (hlexemes : back.lexemes = front.lexemes ++ [lexeme])
    (hstep : dialect.AdmitsNext front.roles lexeme.role →
      front.state.step dialect (lexeme.token (Lexeme.size front.lexemes)) = .ok back.state) :
    Leads dialect front [lexeme] back where
  lexemes_eq := hlexemes
  run_eq := by
    intro hadmits
    have hroles : back.roles = front.roles ++ [lexeme.role] := by simp [roles, hlexemes]
    rw [hroles, Dialect.admits_append_singleton] at hadmits
    rw [Lexeme.place, ParseState.run, hstep hadmits.2]
    rfl

/-- An item's quantifier is read behind the item without it. -/
theorem leads_suffix (snapshot : Snapshot) (phrase : Phrase) (suffix : Option Suffix) :
    Leads dialect (snapshot.push (phrase.withSuffix none)) (Phrase.suffixLexemes suffix)
      (snapshot.push (phrase.withSuffix suffix)) := by
  cases suffix with
  | none => exact Leads.refl _
  | some suffix =>
    obtain ⟨quantifier, text, isLazy⟩ := suffix
    have hgreedy : Leads dialect (snapshot.push (phrase.withSuffix none))
        [⟨.quantifier quantifier, text⟩]
        (snapshot.push (phrase.withSuffix (some ⟨quantifier, text, false⟩))) := by
      apply Leads.of_step
      · rw [lexemes_push, lexemes_push, phrase.lexemes_withSuffix (some _), List.append_assoc]
        rfl
      · intro hadmits
        refine step_quantifier snapshot phrase ?_ text
        rintro counts rfl
        exact hadmits.counts counts rfl
    cases isLazy with
    | false => exact hgreedy
    | true =>
      have hlazy : Leads dialect
          (snapshot.push (phrase.withSuffix (some ⟨quantifier, text, false⟩))) [Phrase.lazyMark]
          (snapshot.push (phrase.withSuffix (some ⟨quantifier, text, true⟩))) := by
        apply Leads.of_step
        · rw [lexemes_push, lexemes_push, phrase.lexemes_withSuffix (some _),
            phrase.lexemes_withSuffix (some _), List.append_assoc, List.append_assoc]
          rfl
        · intro _
          exact step_lazyMark dialect snapshot phrase quantifier text
      exact hgreedy.trans hlazy

/-- Sets the innermost choice. -/
def enter (choice : Choice) (snapshot : Snapshot) : Snapshot :=
  snapshot.modify fun _ => choice

theorem enter_push (snapshot : Snapshot) (earlier : List (List Phrase)) (phrases : List Phrase)
    (phrase : Phrase) :
    (snapshot.enter ⟨earlier, phrases⟩).push phrase =
      snapshot.enter ⟨earlier, phrases ++ [phrase]⟩ := by
  cases snapshot <;> rfl

theorem enter_nextBranch (snapshot : Snapshot) (earlier : List (List Phrase))
    (phrases : List Phrase) :
    (snapshot.enter ⟨earlier, phrases⟩).nextBranch = snapshot.enter ⟨earlier ++ [phrases], []⟩ := by
  cases snapshot <;> rfl

theorem enter_inside (outer : Snapshot) (opener : Opener) (text : List Char)
    (choice other : Choice) :
    (outer.inside opener text choice).enter other = outer.inside opener text other := rfl

mutual

/-- The lexemes of an item lead to where the item has been added. -/
theorem leads_item (snapshot : Snapshot) (phrase : Phrase) :
    Leads dialect snapshot phrase.lexemes (snapshot.push phrase) := by
  cases phrase with
  | leaf atom text suffix =>
    have hatom : Leads dialect snapshot [⟨.atom atom, text⟩]
        (snapshot.push (.leaf atom text none)) := by
      apply Leads.of_step
      · simp [Phrase.lexemes, Phrase.suffixLexemes]
      · intro _
        exact step_atom dialect snapshot atom text
    exact hatom.trans (leads_suffix snapshot (.leaf atom text suffix) suffix)
  | group opener text earlier last suffix =>
    have hopener : Leads dialect snapshot [⟨.opener opener, text⟩]
        (snapshot.inside opener text {}) := by
      apply Leads.of_step
      · simp [lexemes, Choice.lexemes, Phrase.earlierLexemes, Phrase.sequenceLexemes]
      · intro hadmits
        exact step_opener_eq_ok_iff.mpr ⟨hadmits, rfl⟩
    have hearlier := leads_earlier (snapshot.inside opener text {}) [] earlier
    have hlast := leads_sequence (snapshot.inside opener text {}) earlier [] last
    have hcloser : Leads dialect (snapshot.inside opener text ⟨earlier, last⟩) [Phrase.closer]
        (snapshot.push (.group opener text earlier last none)) := by
      apply Leads.of_step
      · rw [lexemes_push]
        simp [lexemes, Phrase.lexemes, Choice.lexemes, Phrase.suffixLexemes]
      · intro _
        exact step_closer dialect snapshot opener text ⟨earlier, last⟩
    have hsuffix : Leads dialect (snapshot.push (.group opener text earlier last none))
        (Phrase.suffixLexemes suffix) (snapshot.push (.group opener text earlier last suffix)) :=
      leads_suffix snapshot (.group opener text earlier last suffix) suffix
    simp only [enter_inside, List.nil_append] at hearlier hlast
    have hall := hopener.trans (hearlier.trans (hlast.trans (hcloser.trans hsuffix)))
    simpa [Phrase.lexemes] using hall

/-- The lexemes of a sequence lead to where its items have been added. -/
theorem leads_sequence (snapshot : Snapshot) (earlier : List (List Phrase))
    (done phrases : List Phrase) :
    Leads dialect (snapshot.enter ⟨earlier, done⟩) (Phrase.sequenceLexemes phrases)
      (snapshot.enter ⟨earlier, done ++ phrases⟩) := by
  cases phrases with
  | nil =>
    rw [List.append_nil]
    exact Leads.refl _
  | cons phrase phrases =>
    have hfirst := leads_item (snapshot.enter ⟨earlier, done⟩) phrase
    have hothers := leads_sequence snapshot earlier (done ++ [phrase]) phrases
    rw [enter_push] at hfirst
    rw [List.append_assoc] at hothers
    exact hfirst.trans hothers

/-- The lexemes of branches with a bar behind each lead to the start of another branch. -/
theorem leads_earlier (snapshot : Snapshot) (done branches : List (List Phrase)) :
    Leads dialect (snapshot.enter ⟨done, []⟩) (Phrase.earlierLexemes branches)
      (snapshot.enter ⟨done ++ branches, []⟩) := by
  cases branches with
  | nil =>
    rw [List.append_nil]
    exact Leads.refl _
  | cons branch branches =>
    have hbranch := leads_sequence snapshot done [] branch
    have hbar : Leads dialect (snapshot.enter ⟨done, branch⟩) [Phrase.bar]
        (snapshot.enter ⟨done ++ [branch], []⟩) := by
      rw [← enter_nextBranch]
      apply Leads.of_step
      · exact lexemes_nextBranch _
      · intro _
        exact step_bar dialect _
    have hothers := leads_earlier snapshot (done ++ [branch]) branches
    rw [List.append_assoc] at hothers
    exact hbranch.trans (hbar.trans hothers)

end

end Snapshot

/-- The parser accepts the lexemes of a choice that the dialect admits, and makes the choice's
    tree of them. -/
theorem Choice.ofTokens_eq_ok {dialect : Dialect} (choice : Choice)
    (hadmits : dialect.Admits (choice.lexemes.map Lexeme.role)) :
    Tree.ofTokens dialect (Lexeme.size choice.lexemes) (Lexeme.place 0 choice.lexemes) =
      .ok (choice.tree 0 0) := by
  have hearlier : Snapshot.Leads dialect _ _ _ :=
    Snapshot.leads_earlier (.outermost {}) [] choice.earlier
  have hlast : Snapshot.Leads dialect _ _ _ :=
    Snapshot.leads_sequence (.outermost {}) choice.earlier [] choice.last
  have hall : Snapshot.Leads dialect (.outermost {}) choice.lexemes (.outermost choice) :=
    hearlier.trans hlast
  have hrun : ParseState.run dialect {} (Lexeme.place 0 choice.lexemes) =
      .ok (Snapshot.outermost choice).state := hall.run_eq hadmits
  rw [Tree.ofTokens, hrun]
  exact Snapshot.finish_outermost choice

end PatternTree
