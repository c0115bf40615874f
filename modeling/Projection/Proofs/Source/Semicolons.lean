import Projection.Proofs.Source.Statements

/-!
# Semicolons

A semicolon may stand after the exported entity, after a declaration and after a `default`
statement, and nowhere else. It says nothing: without it the tokens stand for the same source, but
for positions (`Source.ofTokens_without_semicolon`).

There is one exception. The words of a `default` statement go on as long as modifiers follow, so
its semicolon keeps the modifiers of the next declaration out of it.
-/

namespace Projection

/-! ### The end of a `default` statement -/

/-- After the tokens the name of the exported entity does not go on. -/
def NameEnds (tokens : List Token) : Prop :=
  ∀ t, tokens.getLast? = some t → t ≠ .keyword .exportWord ∧ t ≠ .symbol .dot

/-- The tokens end with a `default` statement, without its semicolon. The word `default` in the name
of the exported entity starts no statement. -/
def EndsWithDefaults (tokens : List Token) : Prop :=
  ∃ earlier words, tokens = earlier ++ .word "default" :: words ∧ NameEnds earlier ∧
    ∀ t ∈ words, t.goesOn

/-- The tokens start with a modifier. -/
def StartsWithModifier (tokens : List Token) : Prop :=
  ∃ t, tokens.head? = some t ∧ t.isModifier

theorem NameEnds.append {earlier tokens : List Token} (hearlier : NameEnds earlier)
    (h : NameEnds tokens) : NameEnds (earlier ++ tokens) := by
  intro t ht
  rw [List.getLast?_append, Option.or_eq_some_iff] at ht
  rcases ht with ht | ⟨_, ht⟩
  · exact h t ht
  · exact hearlier t ht

theorem NameEnds.cons {tokens : List Token} (h : NameEnds tokens) (hne : tokens ≠ [])
    (t : Token) : NameEnds (t :: tokens) := by
  cases tokens with
  | nil => exact absurd rfl hne
  | cons u tokens =>
    intro last hlast
    rw [List.getLast?_cons_cons] at hlast
    exact h last hlast

theorem EndsWithDefaults.append {tokens : List Token} (h : EndsWithDefaults tokens)
    {earlier : List Token} (hearlier : NameEnds earlier) :
    EndsWithDefaults (earlier ++ tokens) := by
  obtain ⟨between, words, rfl, hbetween, hwords⟩ := h
  exact ⟨earlier ++ between, words, (List.append_assoc ..).symm, hearlier.append hbetween, hwords⟩

namespace Parser

variable {n m : Nat} {c c' d : Cursor} {ss : List Statement}

theorem Statement.Covers.nameEnds {s : Statement} {taken : List Token} (h : s.Covers taken) :
    NameEnds taken := by
  intro t ht
  cases s with
  | declaration d =>
    cases (Eq.symm h).trans ht
    exact ⟨by decide, by decide⟩
  | defaults found =>
    obtain ⟨words, rfl, hwords⟩ := h
    rcases List.mem_cons.mp (List.mem_of_getLast? ht) with rfl | ht
    · exact ⟨by decide, by decide⟩
    · have hgoes := hwords t ht
      constructor
      · rintro rfl
        cases hgoes
      · rintro rfl
        cases hgoes

/-! ### Statements one after the other -/

/-- The tokens after a semicolon that may be the next one. -/
def afterSemicolon (tokens : List Token) : List Token :=
  if tokens.head? = some (.symbol .semicolon) then tokens.tail else tokens

theorem skipSemicolon_ahead (c : Cursor) : (skipSemicolon c).ahead = afterSemicolon c.ahead := by
  rw [skipSemicolon, afterSemicolon]
  split <;> rfl

theorem afterSemicolon_append {tokens : List Token} (h : tokens ≠ []) (rest : List Token) :
    afterSemicolon (tokens ++ rest) = afterSemicolon tokens ++ rest := by
  rw [afterSemicolon, afterSemicolon, List.head?_append_of_ne_nil _ h]
  split
  · exact List.tail_append_of_ne_nil h
  · rfl

theorem statements_nil (h : c.ahead = []) : statements n c = .ok ([], c) := by
  obtain ⟨ahead, index⟩ := c
  obtain rfl : ahead = [] := h
  cases n <;> rfl

theorem statements_succ (h : c.ahead ≠ []) : statements (n + 1) c =
    (do let first ← statement; return first :: (← statements n) : Parser _) c := by
  obtain ⟨ahead, index⟩ := c
  cases ahead with
  | nil => exact absurd rfl h
  | cons t ahead => rfl

theorem statements_cases (h : statements (n + 1) c = .ok (ss, c')) :
    c.ahead = [] ∧ ss = [] ∨ ∃ s rest between, ss = s :: rest ∧
      openStatement c = .ok (s, between) ∧
      statements n (skipSemicolon between) = .ok (rest, c') := by
  by_cases hnil : c.ahead = []
  · rw [statements_nil hnil] at h
    cases h
    exact .inl ⟨hnil, rfl⟩
  · rw [statements_succ hnil] at h
    obtain ⟨⟨s, e⟩, hs, hrest⟩ := bind_eq_ok.mp h
    obtain ⟨⟨rest, f⟩, hrest, hpure⟩ := bind_eq_ok.mp hrest
    cases hpure
    obtain ⟨between, hopen, rfl⟩ := (endsWithSemicolon_statement c s e).mp hs
    exact .inr ⟨s, rest, between, rfl, hopen, hrest⟩

theorem statements_cons {s : Statement} {between : Cursor} (hc : c.ahead ≠ [])
    (hs : openStatement c = .ok (s, between))
    (hrest : statements n (skipSemicolon between) = .ok (ss, c')) :
    statements (n + 1) c = .ok (s :: ss, c') := by
  have hstatement := (endsWithSemicolon_statement c s _).mpr ⟨between, hs, rfl⟩
  rw [statements_succ hc, bind_eq_of_eq_ok hstatement, bind_eq_of_eq_ok hrest]
  rfl

/-- A statement may be next, or the tokens end. -/
def StartsStatement (tokens : List Token) : Prop :=
  ∀ t, tokens.head? = some t → t = .symbol .atSign ∨ ∃ name, t = .word name

theorem StartsStatement.afterSemicolon_eq {tokens : List Token} (h : StartsStatement tokens) :
    afterSemicolon tokens = tokens := by
  rw [afterSemicolon, if_neg]
  intro hsemicolon
  rcases h _ hsemicolon with hat | ⟨name, hword⟩
  · cases hat
  · cases hword

theorem starts_of_openStatement {s : Statement} (h : openStatement c = .ok (s, c')) :
    StartsStatement c.ahead := by
  intro t ht
  obtain ⟨ahead, index⟩ := c
  obtain ⟨rest, rfl⟩ : ∃ rest, ahead = t :: rest := List.head?_eq_some_iff.mp ht
  cases t with
  | word name => exact .inr ⟨name, rfl⟩
  | symbol symbol =>
    cases symbol with
    | atSign => exact .inl rfl
    | _ => cases h
  | _ => cases h

theorem starts_of_statements (hn : c.ahead.length ≤ n) (h : statements n c = .ok (ss, c')) :
    StartsStatement c.ahead := by
  have hnone : c.ahead = [] → StartsStatement c.ahead := by
    intro hnil t ht
    rw [hnil] at ht
    cases ht
  cases n with
  | zero => exact hnone (List.eq_nil_of_length_eq_zero (Nat.le_zero.mp hn))
  | succ n =>
    rcases statements_cases h with ⟨hnil, _⟩ | ⟨_, _, _, _, hopen, _⟩
    · exact hnone hnil
    · exact starts_of_openStatement hopen

theorem length_skipSemicolon {s : Statement} {taken : List Token} (hcovers : s.Covers taken)
    (hc : c.ahead = taken ++ d.ahead) (hn : c.ahead.length ≤ n + 1) :
    (skipSemicolon d).ahead.length ≤ n := by
  have hpos := List.length_pos_iff.mpr hcovers.ne_nil
  have hle : (skipSemicolon d).ahead.length ≤ d.ahead.length := by
    rw [skipSemicolon]
    split
    · exact List.length_tail ▸ Nat.sub_le _ _
    · exact Nat.le_refl _
  rw [hc, List.length_append] at hn
  omega

/-- Some statements after a first one. -/
theorem exists_statements_cons {s s' : Statement} {taken : List Token} (hcovers : s.Covers taken)
    (hc : c.ahead = taken ++ d.ahead) (hm : c.ahead.length ≤ m)
    (hs : openStatement c = .ok (s', d)) (hbare : s.bare = s'.bare)
    (hrest : ∀ m, (skipSemicolon d).ahead.length ≤ m → ∃ ss' d',
      statements m (skipSemicolon d) = .ok (ss', d') ∧
        ss.map Statement.bare = ss'.map Statement.bare) :
    ∃ ss' d', statements m c = .ok (ss', d') ∧
      (s :: ss).map Statement.bare = ss'.map Statement.bare := by
  have hne : c.ahead ≠ [] := by
    rw [hc]
    exact List.append_ne_nil_of_left_ne_nil hcovers.ne_nil _
  cases m with
  | zero => exact absurd (List.eq_nil_of_length_eq_zero (Nat.le_zero.mp hm)) hne
  | succ m =>
    obtain ⟨ss', d', hrest, hmap⟩ := hrest m (length_skipSemicolon hcovers hc hm)
    refine ⟨s' :: ss', d', statements_cons hne hs hrest, ?_⟩
    rw [List.map_cons, List.map_cons, hbare, hmap]

theorem Statement.lookahead_refl (s : Statement) (tokens : List Token) :
    s.lookahead.Alike tokens tokens := by
  cases s with
  | declaration d => trivial
  | defaults found => rfl

theorem statements_elsewhere (hn : c.ahead.length ≤ n) (h : statements n c = .ok (ss, c'))
    (hd : d.ahead = c.ahead) (hm : d.ahead.length ≤ m) : ∃ ss' d', statements m d = .ok (ss', d') ∧
      ss.map Statement.bare = ss'.map Statement.bare := by
  induction n generalizing m c d ss with
  | zero =>
    have hnil := List.eq_nil_of_length_eq_zero (Nat.le_zero.mp hn)
    cases (statements_nil hnil).symm.trans h
    exact ⟨[], d, statements_nil (hd.trans hnil), rfl⟩
  | succ n ih =>
    rcases statements_cases h with ⟨hnil, rfl⟩ | ⟨s, rest, between, rfl, hopen, hrest⟩
    · exact ⟨[], d, statements_nil (hd.trans hnil), rfl⟩
    · obtain ⟨taken, hahead, _, hcovers, hread⟩ := readable_of_openStatement hopen
      obtain ⟨s', e, hopen', he, hbare⟩ :=
        hread d between.ahead (s.lookahead_refl _) (hd.trans hahead)
      refine exists_statements_cons hcovers (by rw [hd, hahead, he]) hm hopen' hbare fun m hm => ?_
      refine ih (length_skipSemicolon hcovers hahead hn) hrest ?_ hm
      rw [skipSemicolon_ahead, skipSemicolon_ahead, he]

/-- The tokens before a semicolon go on after others that have none. -/
theorem exists_append_of_not_mem {taken rest before after : List Token} {t : Token}
    (h : taken ++ rest = before ++ t :: after) (ht : t ∉ taken) :
    ∃ between, before = taken ++ between ∧ rest = between ++ t :: after := by
  rcases List.append_eq_append_iff.mp h with ⟨between, hbefore, hrest⟩ | ⟨between, htaken, hrest⟩
  · exact ⟨between, hbefore, hrest⟩
  · cases between with
    | nil => exact ⟨[], by rw [htaken, List.append_nil, List.append_nil], hrest.symm⟩
    | cons u between =>
      obtain ⟨rfl, _⟩ := List.cons.inj hrest
      exact absurd (htaken ▸ List.mem_append_right _ List.mem_cons_self) ht

theorem EndsWithDefaults.of_afterSemicolon {tokens taken : List Token} (htaken : NameEnds taken)
    (h : EndsWithDefaults (afterSemicolon tokens)) : EndsWithDefaults (taken ++ tokens) := by
  rw [afterSemicolon] at h
  split at h
  · rename_i hsemi
    obtain ⟨rest, rfl⟩ := List.head?_eq_some_iff.mp hsemi
    have hsemicolon : NameEnds [.symbol .semicolon] := by
      intro t ht
      cases ht
      exact ⟨by decide, by decide⟩
    exact (h.append hsemicolon).append htaken
  · exact h.append htaken

theorem Statement.lookahead_append (s : Statement) {tokens : List Token} (h : tokens ≠ [])
    (r r' : List Token) : s.lookahead.Alike (tokens ++ r) (tokens ++ r') := by
  cases s with
  | declaration d => trivial
  | defaults found =>
    cases tokens with
    | nil => exact absurd rfl h
    | cons t tokens => rfl

/-- A statement sees no difference between its semicolon and the next statement, if its words cannot
go on. -/
theorem Statement.lookahead_semicolon {s : Statement} {after : List Token}
    (hstarts : StartsStatement after)
    (hmodifier : ∀ found, s = .defaults found → ¬ StartsWithModifier after) :
    s.lookahead.Alike (.symbol .semicolon :: after) after := by
  cases s with
  | declaration d => trivial
  | defaults found =>
    refine (Option.filter_eq_none_iff.mpr fun t ht hgoes => ?_).symm
    have hmodifier : t.isModifier = false :=
      Bool.eq_false_iff.mpr fun ht' => hmodifier found rfl ⟨t, ht, ht'⟩
    rcases hstarts t ht with rfl | ⟨name, rfl⟩
    · cases hgoes
    · simp [Token.goesOn, hmodifier] at hgoes

/-- Without a semicolon the statements are read alike. -/
theorem statements_without_semicolon {before after : List Token} (hn : c.ahead.length ≤ n)
    (h : statements n c = .ok (ss, c')) (hc : c.ahead = before ++ .symbol .semicolon :: after)
    (hdefaults : EndsWithDefaults before → ¬ StartsWithModifier after)
    (hd : d.ahead = before ++ after) (hm : d.ahead.length ≤ m) :
    ∃ ss' d', statements m d = .ok (ss', d') ∧
      ss.map Statement.bare = ss'.map Statement.bare := by
  have hne : c.ahead ≠ [] := by
    rw [hc]
    exact List.append_ne_nil_of_right_ne_nil _ (List.cons_ne_nil _ _)
  induction n generalizing m c d ss before with
  | zero => exact absurd (List.eq_nil_of_length_eq_zero (Nat.le_zero.mp hn)) hne
  | succ n ih =>
    rcases statements_cases h with ⟨hnil, _⟩ | ⟨s, rest, between, rfl, hopen, hrest⟩
    · exact absurd hnil hne
    obtain ⟨taken, hahead, hsemi, hcovers, hread⟩ := readable_of_openStatement hopen
    obtain ⟨more, rfl, hmore⟩ := exists_append_of_not_mem (hahead.symm.trans hc) hsemi
    have hlength := length_skipSemicolon hcovers hahead hn
    rw [List.append_assoc] at hd
    by_cases hnil : more = []
    · -- the semicolon ends this statement
      subst hnil
      have hskip : (skipSemicolon between).ahead = after := by
        rw [skipSemicolon_ahead, hmore]
        rfl
      have hstarts : StartsStatement after := hskip ▸ starts_of_statements hlength hrest
      have hmodifier : ∀ found, s = .defaults found → ¬ StartsWithModifier after := by
        rintro found rfl
        obtain ⟨words, hwords, hgoes⟩ := hcovers
        refine hdefaults ⟨[], words, by rw [hwords, List.append_nil]; rfl, ?_, hgoes⟩
        intro t ht
        cases ht
      obtain ⟨s', e, hopen', he, hbare⟩ := hread d after
        (hmore ▸ Statement.lookahead_semicolon hstarts hmodifier) hd
      refine exists_statements_cons hcovers (by rw [hd, he]; rfl) hm hopen' hbare fun m hm => ?_
      refine statements_elsewhere hlength hrest ?_ hm
      rw [skipSemicolon_ahead, he, hskip, hstarts.afterSemicolon_eq]
    · -- the semicolon comes later
      obtain ⟨s', e, hopen', he, hbare⟩ :=
        hread d (more ++ after) (hmore ▸ s.lookahead_append hnil _ _) hd
      refine exists_statements_cons hcovers (by rw [hd, he]) hm hopen' hbare fun m hm => ?_
      have hskip : (skipSemicolon between).ahead =
          afterSemicolon more ++ .symbol .semicolon :: after := by
        rw [skipSemicolon_ahead, hmore, afterSemicolon_append hnil]
      refine ih hlength hrest hskip (fun hends => hdefaults ?_) ?_ hm ?_
      · exact EndsWithDefaults.of_afterSemicolon hcovers.nameEnds hends
      · rw [skipSemicolon_ahead, he, afterSemicolon_append hnil]
      · rw [hskip]
        exact List.append_ne_nil_of_right_ne_nil _ (List.cons_ne_nil _ _)

/-! ### The exported entity -/

/-- Whether a dot is next. -/
def Lookahead.dot : Lookahead :=
  .only fun next => next == some (.symbol .dot)

theorem Lookahead.dot_tells : dot.Tells (.symbol .dot) := by
  intro r s h
  have hdot : ∀ next : Option Token, next = some (.symbol .dot) ↔
      (next == some (.symbol .dot)) = true := fun next => beq_iff_eq.symm
  rw [hdot, hdot s.head?]
  exact Eq.congr_left h

theorem Lookahead.dot_append {tokens : List Token} (h : tokens ≠ []) (r r' : List Token) :
    dot.Alike (tokens ++ r) (tokens ++ r') := by
  cases tokens with
  | nil => exact absurd rfl h
  | cons t tokens => rfl

/-- A name ends before a semicolon as it does before a statement. -/
theorem Lookahead.dot_semicolon {after : List Token} (hstarts : StartsStatement after) :
    dot.Alike (.symbol .semicolon :: after) after := by
  refine Eq.symm (Bool.eq_false_iff.mpr fun hdot => ?_)
  rcases hstarts _ (eq_of_beq hdot) with hat | ⟨name, hword⟩
  · cases hat
  · cases hword

theorem nameEnds_of_word {tokens : List Token} (last : Name)
    (h : tokens.getLast? = some (.word last)) : NameEnds tokens := by
  intro t ht
  cases h.symm.trans ht
  exact ⟨Token.noConfusion, Token.noConfusion⟩

theorem takes_moreSegments (n : Nat) (name : Located TokenRange Name) :
    Takes (moreSegments n name) fun taken _ =>
      taken = [] ∨ ∃ last, taken.getLast? = some (.word last) := by
  induction n generalizing name with
  | zero => exact takes_pure (.inl rfl)
  | succ n ih =>
    refine (takes_eat .dot).bind (R := fun found taken _ => found.isSome = false ∧ taken = [] ∨
      ∃ last, taken.getLast? = some (.word last)) (fun found => ?_) ?_
    · cases found with
      | none => exact takes_pure (.inl ⟨rfl, rfl⟩)
      | some _ =>
        refine .bind takes_just_word (fun segment => ih _) ?_
        rintro _ segment more _ rfl (rfl | ⟨last, hlast⟩)
        · exact .inr ⟨segment.val, rfl⟩
        · exact .inr ⟨last, by rw [List.getLast?_append, hlast]; rfl⟩
    · rintro _ found more _ rfl (⟨hnone, rfl⟩ | ⟨last, hlast⟩)
      · rw [hnone]
        exact .inl rfl
      · exact .inr ⟨last, by rw [List.getLast?_append, hlast]; rfl⟩

theorem nameEnds_qualifiedName : Takes qualifiedName fun taken _ => NameEnds taken := by
  refine .bind takes_just_word (R := fun _ taken _ => taken = [] ∨
    ∃ last, taken.getLast? = some (.word last)) (fun first => ?_) ?_
  · intro c name c' h
    exact takes_moreSegments c.ahead.length first c name c' h
  · rintro _ first more _ rfl (rfl | ⟨last, hlast⟩)
    · exact nameEnds_of_word first.val rfl
    · exact nameEnds_of_word last (by rw [List.getLast?_append, hlast]; rfl)

/-- The exported entity without the semicolon. -/
def openExported : Parser (Located TokenRange Name) := do
  match ← eatToken (.keyword .exportWord) with
  | none => fail .exportStatement
  | some _ => qualifiedName

theorem endsWithSemicolon_exported : EndsWithSemicolon exported openExported := by
  refine .bind fun found => ?_
  cases found with
  | none => exact endsWithSemicolon_fail _
  | some _ =>
    have hname := EndsWithSemicolon.bind (p := qualifiedName) endsWithSemicolon_pure
    rwa [bind_pure] at hname

theorem openExported_of_head {rest : List Token} (h : c.ahead = .keyword .exportWord :: rest) :
    openExported c = qualifiedName ⟨rest, c.index + 1⟩ := by
  obtain ⟨ahead, index⟩ := c
  obtain rfl : ahead = .keyword .exportWord :: rest := h
  rfl

theorem head_of_openExported {entity : Located TokenRange Name}
    (h : openExported c = .ok (entity, c')) : ∃ rest, c.ahead = .keyword .exportWord :: rest := by
  by_cases hnext : c.ahead.head? = some (.keyword .exportWord)
  · exact List.head?_eq_some_iff.mp hnext
  · rw [openExported, bind_eq_of_eq_ok ((eatToken_eq _ c).trans (if_neg hnext))] at h
    exact absurd h (fail_ne_ok _ c _)

/-- The exported entity is read alike wherever its tokens are ahead and no dot follows. -/
theorem openExported_elsewhere {entity : Located TokenRange Name}
    (h : openExported c = .ok (entity, c')) :
    ∃ taken, c.ahead = taken ++ c'.ahead ∧ .symbol .semicolon ∉ taken ∧ NameEnds taken ∧
      ∀ d rest, Lookahead.dot.Alike c'.ahead rest → d.ahead = taken ++ rest →
        ∃ entity' d', openExported d = .ok (entity', d') ∧ d'.ahead = rest ∧
          entity.move nowhere = entity'.move nowhere := by
  obtain ⟨ahead, hahead⟩ := head_of_openExported h
  rw [openExported_of_head hahead] at h
  obtain ⟨taken, htaken, hsemi, hmirror⟩ := MirrorsAt.everywhere (fun m =>
    mirrors_qualifiedName (n := ahead.length) (m := m) Lookahead.dot_tells _ (Nat.le_refl _)) h
  have hne : taken ≠ [] := Takes.of_ahead progresses_qualifiedName h htaken
  have hends : NameEnds taken := Takes.of_ahead nameEnds_qualifiedName h htaken
  refine ⟨.keyword .exportWord :: taken, ?_, ?_, hends.cons hne _, fun d rest hrest hd => ?_⟩
  · rw [hahead, List.cons_append, ← htaken]
  · rw [List.mem_cons]
    exact fun hmem => hmem.elim Token.noConfusion hsemi
  · rw [openExported_of_head hd]
    exact hmirror ⟨taken ++ rest, d.index + 1⟩ rest hrest rfl

/-! ### Whole sources -/

/-- The source of an entity with these statements. -/
def sourceOf (entity : Located TokenRange Name) (ss : List Statement) : Source TokenRange where
  entity := entity
  modifiers := ss.flatMap Statement.modifiers
  declarations := ss.filterMap Statement.declaration?

/-- Without positions a source depends only on what its statements say. -/
theorem bare_sourceOf (entity : Located TokenRange Name) (ss : List Statement) :
    (sourceOf entity ss).bare = {
      entity := entity.move nowhere
      modifiers := (ss.map Statement.bare).flatMap Prod.fst
      declarations := (ss.map Statement.bare).filterMap Prod.snd } := by
  simp only [Source.bare, Source.move, sourceOf, List.map_flatMap, List.flatMap_map,
    List.map_filterMap, List.filterMap_map, Statement.bare, Function.comp_def]

theorem ofSignificant_eq_ok {tokens : List Token} {s : Source TokenRange} :
    Source.ofSignificant tokens = .ok s ↔ ∃ entity between ss c',
      openExported ⟨tokens, 0⟩ = .ok (entity, between) ∧
      statements (skipSemicolon between).ahead.length (skipSemicolon between) = .ok (ss, c') ∧
      s = sourceOf entity ss := by
  have hsource : Source.ofSignificant tokens = .ok s ↔
      ∃ c', source (⟨tokens, 0⟩ : Cursor) = .ok (s, c') := by
    rw [Source.ofSignificant]
    cases source (⟨tokens, 0⟩ : Cursor) with
    | ok result => simp [Prod.ext_iff]
    | error fault => simp
  rw [hsource]
  constructor
  · rintro ⟨c', h⟩
    obtain ⟨⟨entity, c⟩, hexported, hrest⟩ := bind_eq_ok.mp h
    obtain ⟨between, hopen, rfl⟩ := (endsWithSemicolon_exported _ _ _).mp hexported
    obtain ⟨⟨ss, d⟩, hstatements, hpure⟩ := bind_eq_ok.mp hrest
    cases hpure
    exact ⟨entity, between, ss, c', hopen, hstatements, rfl⟩
  · rintro ⟨entity, between, ss, c', hopen, hstatements, rfl⟩
    have hexported := (endsWithSemicolon_exported _ _ _).mpr ⟨between, hopen, rfl⟩
    exact ⟨c', bind_eq_ok.mpr ⟨_, hexported, bind_eq_ok.mpr ⟨_, hstatements, rfl⟩⟩⟩

/-- Tokens stand for a source without positions, if their statements say what it says. -/
theorem exists_ofSignificant {tokens : List Token} {entity entity' : Located TokenRange Name}
    {between : Cursor} (hopen : openExported ⟨tokens, 0⟩ = .ok (entity', between))
    (hentity : entity.move nowhere = entity'.move nowhere)
    (hstatements : ∃ ss' d', statements (skipSemicolon between).ahead.length
      (skipSemicolon between) = .ok (ss', d') ∧ ss.map Statement.bare = ss'.map Statement.bare) :
    ∃ t, Source.ofSignificant tokens = .ok t ∧ t.bare = (sourceOf entity ss).bare := by
  obtain ⟨ss', d', hstatements, hbare⟩ := hstatements
  refine ⟨sourceOf entity' ss',
    ofSignificant_eq_ok.mpr ⟨entity', between, ss', d', hopen, hstatements, rfl⟩, ?_⟩
  rw [bare_sourceOf, bare_sourceOf, hentity, hbare]

theorem ofSignificant_delete {before after : List Token} {s : Source TokenRange}
    (h : Source.ofSignificant (before ++ .symbol .semicolon :: after) = .ok s)
    (hdefaults : EndsWithDefaults before → ¬ StartsWithModifier after) :
    ∃ t, Source.ofSignificant (before ++ after) = .ok t ∧ t.bare = s.bare := by
  obtain ⟨entity, between, ss, c', hopen, hstatements, rfl⟩ := ofSignificant_eq_ok.mp h
  obtain ⟨taken, hahead, hsemi, hends, hread⟩ := openExported_elsewhere hopen
  obtain ⟨more, rfl, hmore⟩ := exists_append_of_not_mem hahead.symm hsemi
  rw [List.append_assoc]
  by_cases hnil : more = []
  · -- the semicolon ends the exported entity
    subst hnil
    have hskip : (skipSemicolon between).ahead = after := by
      rw [skipSemicolon_ahead, hmore]
      rfl
    have hstarts : StartsStatement after := hskip ▸ starts_of_statements (Nat.le_refl _) hstatements
    obtain ⟨entity', e, hopen', he, hentity⟩ :=
      hread ⟨taken ++ after, 0⟩ after (hmore ▸ Lookahead.dot_semicolon hstarts) rfl
    refine exists_ofSignificant hopen' hentity
      (statements_elsewhere (Nat.le_refl _) hstatements ?_ (Nat.le_refl _))
    rw [skipSemicolon_ahead, he, hskip, hstarts.afterSemicolon_eq]
  · -- the semicolon comes later
    obtain ⟨entity', e, hopen', he, hentity⟩ := hread ⟨taken ++ (more ++ after), 0⟩ (more ++ after)
      (hmore ▸ Lookahead.dot_append hnil _ _) rfl
    have hskip : (skipSemicolon between).ahead =
        afterSemicolon more ++ .symbol .semicolon :: after := by
      rw [skipSemicolon_ahead, hmore, afterSemicolon_append hnil]
    refine exists_ofSignificant hopen' hentity (statements_without_semicolon (Nat.le_refl _)
      hstatements hskip (fun hlast => hdefaults (EndsWithDefaults.of_afterSemicolon hends hlast)) ?_
      (Nat.le_refl _))
    rw [skipSemicolon_ahead, he, afterSemicolon_append hnil]

end Parser

theorem Token.significant_append {P : Type} (a b : List (Located P Token)) :
    significant (a ++ b) = significant a ++ significant b := by
  rw [significant, List.filter_append, List.map_append]
  rfl

/-- **Semicolons are optional.** Take tokens that stand for a source, with comments and blanks among
them. Without a semicolon they stand for the same source, but for positions, unless the semicolon
ends a `default` statement and a modifier comes next. -/
theorem Source.ofTokens_without_semicolon {P : Type} {before after : List (Located P Token)}
    {semicolon : Located P Token} {s : Source TokenRange}
    (hsemicolon : semicolon.val = .symbol .semicolon)
    (h : ofTokens (Token.significant (before ++ semicolon :: after)) = .ok s)
    (hdefaults : EndsWithDefaults (Token.significant before) →
      ¬ StartsWithModifier (Token.significant after)) :
    ∃ t, ofTokens (Token.significant (before ++ after)) = .ok t ∧ t.bare = s.bare := by
  have hcons : Token.significant (semicolon :: after) =
      .symbol .semicolon :: Token.significant after := by
    obtain ⟨t, pos⟩ := semicolon
    obtain rfl : t = .symbol .semicolon := hsemicolon
    rfl
  rw [ofTokens_significant, Token.significant_append, hcons] at h
  rw [ofTokens_significant, Token.significant_append]
  exact Parser.ofSignificant_delete h hdefaults

/-! ### An example

The same `default` statement with a semicolon, before two declarations of a type `Card`: one without
modifiers and one for inputs. -/

namespace Layouts

/-- Tokens without positions. -/
def unplaced (tokens : List Token) : List (Located Unit Token) :=
  tokens.map (⟨·, ()⟩)

def semicolon : Located Unit Token :=
  ⟨.symbol .semicolon, ()⟩

/-- `export Desk` and `default fixed`, on two lines. -/
def opening : List (Located Unit Token) :=
  unplaced [.keyword .exportWord, .blank, .word "Desk", .newline, .word "default", .blank,
    .word "fixed"]

/-- `Card ⟨id⟩` on the next line. -/
def card : List (Located Unit Token) :=
  unplaced [.newline, .word "Card", .symbol .leftBrace, .word "id", .symbol .rightBrace]

/-- `input Card ⟨id⟩` on the next line. -/
def inputCard : List (Located Unit Token) :=
  unplaced [.newline, .word "input", .blank, .word "Card", .symbol .leftBrace, .word "id",
    .symbol .rightBrace]

theorem opening_ends : EndsWithDefaults (Token.significant opening) := by
  refine ⟨[.keyword .exportWord, .word "Desk"], [.word "fixed"], rfl, ?_, by decide⟩
  intro t ht
  cases ht
  exact ⟨by decide, by decide⟩

theorem semicolon_before_card : EndsWithDefaults (Token.significant opening) ∧
    ∃ s t, Source.ofTokens (Token.significant (opening ++ semicolon :: card)) = .ok s ∧
      Source.ofTokens (Token.significant (opening ++ card)) = .ok t ∧ t.bare = s.bare := by
  have hcard : ¬ StartsWithModifier (Token.significant card) := by
    rintro ⟨t, ht, hmodifier⟩
    cases ht
    revert hmodifier
    decide
  have hread : ∃ s, Source.ofTokens (Token.significant (opening ++ semicolon :: card)) = .ok s := by
    rw [Source.ofTokens_significant]
    exact ⟨_, rfl⟩
  obtain ⟨s, hread⟩ := hread
  obtain ⟨t, ht, hbare⟩ := Source.ofTokens_without_semicolon rfl hread fun _ => hcard
  exact ⟨opening_ends, s, t, hread, ht, hbare⟩

/-- The words of the statement go on, and `input` holds for every type then. -/
theorem semicolon_before_inputCard :
    ∃ s, Source.ofTokens (Token.significant (opening ++ semicolon :: inputCard)) = .ok s ∧
      ¬ ∃ t, Source.ofTokens (Token.significant (opening ++ inputCard)) = .ok t ∧
        t.bare = s.bare := by
  rw [Source.ofTokens_significant, Source.ofTokens_significant]
  refine ⟨_, rfl, ?_⟩
  rintro ⟨t, ht, hbare⟩
  cases ht
  have hlength := congrArg (fun u : Source Unit => u.modifiers.length) hbare
  cases hlength

end Layouts

end Projection
