import Projection.Proofs.Source.Listings
import Projection.Proofs.Source.Semicolons

/-!
# One declaration of a source

`Parser.heading` reads a declaration up to its body. A statement that declares a type is a heading
with a body behind it (`Parser.openStatement_iff_heading`), so its tokens are those of a heading and
a listing between braces. One declaration of a source can be replaced by another one that begins
with the same token, and the rest of the source is read as before
(`Source.exists_ofSignificant_replace`).
-/

namespace Projection

section Fill

variable {P Q : Type}

/-- The declaration with another body. -/
def Declaration.fill (body : Body P) (d : Declaration P) : Declaration P :=
  { d with body }

theorem Declaration.move_fill (f : P → Q) (body : Body P) (d : Declaration P) :
    (d.fill body).move f = (d.move f).fill (body.move f) :=
  rfl

end Fill

namespace Parser

variable {n m : Nat} {c c' : Cursor}

/-! ### Declarations without their bodies -/

/-- The words before a body, of which the first one is read. -/
def headingWords (isDefault : Bool) (first : Located TokenRange Name) :
    Parser (List (Located TokenRange Name) × Located TokenRange Name) :=
  if isDefault then do
    let words ← defaultWords (← remaining)
    return ((first :: words).dropLast, words.getLast?.getD first)
  else do headerWords (← remaining) first

/-- A declaration up to its body, with an empty body in place of it. -/
def heading : Parser (Declaration TokenRange) := do
  let tags ← tags (← remaining)
  let first ← word
  let (words, name) ← headingWords (tags.isEmpty && first.val == "default") first
  return ⟨name, tags, ← modifiers words, ⟨[], .single 0⟩⟩

/-- Words stand for their modifiers at every place, and nothing is read. -/
theorem modifiers_everywhere {words : List (Located TokenRange Name)}
    {found : List (Located TokenRange Modifier)} (h : modifiers words c = .ok (found, c')) :
    c' = c ∧ ∀ d : Cursor, modifiers words d = .ok (found, d) := by
  rcases modifiers_eq words with ⟨found', heq⟩ | ⟨fault, heq⟩
  · rw [heq] at h ⊢
    cases h
    exact ⟨rfl, fun _ => rfl⟩
  · rw [heq] at h
    cases h

theorem openBody_eq_ok {tags : List (TagItem TokenRange)}
    {header : List (Located TokenRange Name) × Located TokenRange Name}
    {d : Declaration TokenRange} :
    openBody tags header c = .ok (d, c') ↔ c.ahead.head? = some (.symbol .leftBrace) ∧
      ∃ found b, modifiers header.1 c = .ok (found, c) ∧ body c.ahead.length c = .ok (b, c') ∧
        d = ⟨header.2, tags, found, b⟩ := by
  have hbody : openBody tags header c = (if c.ahead.head? == some (.symbol .leftBrace) then
      openDeclaration tags header.1 header.2 else fail (.symbol .leftBrace)) c := rfl
  rw [hbody]
  by_cases hopened : c.ahead.head? = some (.symbol .leftBrace)
  · rw [if_pos (by simpa using hopened)]
    constructor
    · intro h
      refine ⟨hopened, ?_⟩
      obtain ⟨⟨found, e⟩, hfound, hrest⟩ := bind_eq_ok.mp h
      obtain rfl : e = c := (modifiers_everywhere hfound).1
      obtain ⟨⟨b, _⟩, hb, hpure⟩ := bind_eq_ok.mp hrest
      cases hpure
      exact ⟨found, b, hfound, hb, rfl⟩
    · rintro ⟨_, found, b, hfound, hb, rfl⟩
      exact bind_eq_ok.mpr ⟨(found, c), hfound, bind_eq_ok.mpr ⟨(b, c'), hb, rfl⟩⟩
  · rw [if_neg (by simpa using hopened)]
    exact ⟨fun h => absurd h (fail_ne_ok _ c _), fun h => absurd h.1 hopened⟩

theorem heading_eq_ok {h : Declaration TokenRange} :
    heading c = .ok (h, c') ↔ ∃ d first e header, tags c.ahead.length c = .ok (h.tags, d) ∧
      word d = .ok (first, e) ∧
      headingWords (h.tags.isEmpty && first.val == "default") first e = .ok (header, c') ∧
      modifiers header.1 c' = .ok (h.modifiers, c') ∧ h.name = header.2 ∧
      h.body = ⟨[], .single 0⟩ := by
  constructor
  · intro hheading
    obtain ⟨⟨tags, d⟩, htags, hrest⟩ := bind_eq_ok.mp hheading
    obtain ⟨⟨first, e⟩, hfirst, hrest⟩ := bind_eq_ok.mp hrest
    obtain ⟨⟨header, f⟩, hheader, hrest⟩ := bind_eq_ok.mp hrest
    obtain ⟨⟨found, g⟩, hfound, hpure⟩ := bind_eq_ok.mp hrest
    obtain ⟨rfl, _⟩ := modifiers_everywhere hfound
    cases hpure
    exact ⟨d, first, e, header, htags, hfirst, hheader, hfound, rfl, rfl⟩
  · rintro ⟨d, first, e, header, htags, hfirst, hheader, hfound, hname, hbody⟩
    refine bind_eq_ok.mpr ⟨(h.tags, d), htags, bind_eq_ok.mpr ⟨(first, e), hfirst,
      bind_eq_ok.mpr ⟨(header, c'), hheader, bind_eq_ok.mpr ⟨(h.modifiers, c'), hfound, ?_⟩⟩⟩⟩
    obtain ⟨name, tags, modifiers, body⟩ := h
    obtain rfl : name = header.2 := hname
    obtain rfl : body = _ := hbody
    rfl

theorem openHeaded_eq (tags : List (TagItem TokenRange)) (first : Located TokenRange Name) :
    openHeaded tags first = headingWords false first >>= openBody tags :=
  rfl

theorem openDefaultBody_eq (first : Located TokenRange Name) :
    openDefaultBody first = headingWords true first >>= openBody [] := by
  simp only [openDefaultBody, headingWords, if_true, bind_assoc, pure_bind]

theorem openDefault_iff {first : Located TokenRange Name} {d : Declaration TokenRange} :
    openDefault first c = .ok (.declaration d, c') ↔ openDefaultBody first c = .ok (d, c') := by
  refine ⟨fun h => ?_, openDefault_of_openDefaultBody⟩
  rcases openDefault_cases h with ⟨d', hd', hbody⟩ | ⟨_, _, hdefaults, _⟩
  · obtain rfl := Statement.declaration.inj hd'
    exact hbody
  · cases hdefaults

/-- A statement after its first word. -/
def openFrom (tags : List (TagItem TokenRange)) (first : Located TokenRange Name) :
    Parser Statement :=
  if tags.isEmpty && first.val == "default" then openDefault first
  else do return .declaration (← openHeaded tags first)

theorem openFrom_iff {tags : List (TagItem TokenRange)} {first : Located TokenRange Name}
    {d : Declaration TokenRange} : openFrom tags first c = .ok (.declaration d, c') ↔
      (headingWords (tags.isEmpty && first.val == "default") first >>= openBody tags) c =
        .ok (d, c') := by
  rw [openFrom]
  cases hdefault : tags.isEmpty && first.val == "default" with
  | true =>
    obtain rfl : tags = [] := List.isEmpty_iff.mp (Bool.and_eq_true_iff.mp hdefault).1
    rw [if_pos rfl, openDefault_iff, openDefaultBody_eq]
  | false =>
    rw [if_neg Bool.false_ne_true, ← openHeaded_eq]
    constructor
    · intro h
      obtain ⟨⟨d', e⟩, hd', hpure⟩ := bind_eq_ok.mp h
      cases hpure
      exact hd'
    · intro h
      exact bind_eq_ok.mpr ⟨(d, c'), h, rfl⟩

theorem openStatement_eq_ok {d : Declaration TokenRange} :
    openStatement c = .ok (.declaration d, c') ↔ ∃ found e first f,
      tags c.ahead.length c = .ok (found, e) ∧ word e = .ok (first, f) ∧
        openFrom found first f = .ok (.declaration d, c') := by
  constructor
  · intro h
    obtain ⟨⟨found, e⟩, htags, hrest⟩ := bind_eq_ok.mp h
    obtain ⟨⟨first?, f⟩, hfirst, hrest⟩ := bind_eq_ok.mp hrest
    cases first? with
    | none => exact absurd hrest (fail_ne_ok _ f _)
    | some first =>
      have hword : word e = .ok (first, f) := bind_eq_of_eq_ok hfirst
      exact ⟨found, e, first, f, htags, hword, hrest⟩
  · rintro ⟨found, e, first, f, htags, hword, hrest⟩
    obtain ⟨⟨first?, g⟩, hfirst, hsome⟩ := bind_eq_ok.mp hword
    cases first? with
    | none => exact absurd hsome (fail_ne_ok _ g _)
    | some first' =>
      cases hsome
      exact bind_eq_ok.mpr ⟨(found, e), htags, bind_eq_ok.mpr ⟨(some first, f), hfirst, hrest⟩⟩

/-- A declaration is a heading with a body behind it. -/
theorem openStatement_iff_heading {d : Declaration TokenRange} :
    openStatement c = .ok (.declaration d, c') ↔ ∃ h e b, heading c = .ok (h, e) ∧
      e.ahead.head? = some (.symbol .leftBrace) ∧ body e.ahead.length e = .ok (b, c') ∧
      d = h.fill b := by
  rw [openStatement_eq_ok]
  constructor
  · rintro ⟨found, e, first, f, htags, hword, hfrom⟩
    obtain ⟨⟨header, g⟩, hheader, hopen⟩ := bind_eq_ok.mp (openFrom_iff.mp hfrom)
    obtain ⟨hopened, ms, b, hms, hbody, rfl⟩ := openBody_eq_ok.mp hopen
    exact ⟨⟨header.2, found, ms, ⟨[], .single 0⟩⟩, g, b, heading_eq_ok.mpr
      ⟨e, first, f, header, htags, hword, hheader, hms, rfl, rfl⟩, hopened, hbody, rfl⟩
  · rintro ⟨h, g, b, hheading, hopened, hbody, rfl⟩
    obtain ⟨e, first, f, header, htags, hword, hheader, hms, hname, _⟩ := heading_eq_ok.mp hheading
    refine ⟨h.tags, e, first, f, htags, hword, openFrom_iff.mpr (bind_eq_ok.mpr ⟨_, hheader, ?_⟩)⟩
    exact openBody_eq_ok.mpr ⟨hopened, h.modifiers, b, hms, hbody, by rw [← hname]; rfl⟩

/-! ### Headings elsewhere -/

theorem mirrors_headingWords {first first' : Located TokenRange Name}
    (hfirst : first.move nowhere = first'.move nowhere) (isDefault : Bool) :
    Mirrors .full n m (headingWords isDefault first) (headingWords isDefault first')
      (Prod.map (List.map (Located.move nowhere)) (Located.move nowhere)) := by
  cases isDefault with
  | false => exact mirrors_remaining fun _ _ => mirrors_headerWords hfirst
  | true =>
    refine mirrors_remaining fun _ _ => .bind (.coarser mirrors_defaultWords ?_)
      fun words words' hwords => mirrors_pure ?_
    · exact fun r s h => congrArg _ h.1
    · exact congrArg₂ Prod.mk (dropLast_move hfirst hwords) (last_move hfirst hwords)

theorem mirrors_heading : Mirrors .full n m heading heading (Declaration.move nowhere) := by
  refine mirrors_remaining fun _ _ => .bind mirrors_tags fun tags tags' htags =>
    .word fun first first' hfirst => ?_
  have hempty : tags'.isEmpty = tags.isEmpty := by
    simpa using congrArg List.isEmpty htags.symm
  rw [hempty, ← Located.val_eq_of_move hfirst]
  refine .bind (mirrors_headingWords hfirst _) fun header header' hheader => ?_
  obtain ⟨hwords, hname⟩ := Prod.mk.inj hheader
  refine .bind (mirrors_modifiers hwords) fun found found' hfound => mirrors_pure ?_
  simp only [Declaration.move, htags, hname, hfound]

theorem advances_headingWords (isDefault : Bool) (first : Located TokenRange Name) :
    Advances (headingWords isDefault first) := by
  cases isDefault with
  | false =>
    exact .seq advances_remaining fun n => (takes_headerWords n first).mono fun _ _ _ => trivial
  | true =>
    exact .seq advances_remaining fun n => .seq (takes_defaultWords n) fun _ => takes_pure trivial

theorem progresses_heading : Progresses heading :=
  .after advances_remaining fun n => .after (advances_tags n) fun _ =>
    .before progresses_word fun first => .seq (advances_headingWords _ first) fun _ =>
      .seq (advances_modifiers _) fun _ => takes_pure trivial

/-- Read from the number `start` on, the tokens are this heading. -/
def HeadingAt (start : Nat) (lead : List Token) (h : Declaration TokenRange) : Prop :=
  ∃ rest, rest.head? = some (.symbol .leftBrace) ∧
    heading ⟨lead ++ rest, start⟩ = .ok (h, ⟨rest, start + lead.length⟩)

section Headings

variable {start : Nat} {lead inner : List Token} {h d : Declaration TokenRange}

theorem HeadingAt.ne_nil (hlead : HeadingAt start lead h) : lead ≠ [] := by
  obtain ⟨rest, _, hheading⟩ := hlead
  exact Takes.of_ahead progresses_heading hheading rfl

/-- A heading is read alike at another place. -/
theorem HeadingAt.elsewhere (hlead : HeadingAt start lead h) (i : Nat) {rest : List Token}
    (hrest : rest.head? = some (.symbol .leftBrace)) :
    ∃ h' j, heading ⟨lead ++ rest, i⟩ = .ok (h', ⟨rest, j⟩) ∧
      h'.move nowhere = h.move nowhere := by
  obtain ⟨rest', hrest', hheading⟩ := hlead
  obtain ⟨taken, hahead, _, hmirror⟩ := mirrors_heading (m := (lead ++ rest).length)
    ⟨lead ++ rest', start⟩ (Nat.le_refl _) _ _ hheading
  obtain rfl : lead = taken := List.append_cancel_right hahead
  have halike : Lookahead.full.Alike rest' rest := by
    refine ⟨hrest'.trans hrest.symm, fun has => ?_⟩
    cases hrest'.symm.trans has
  obtain ⟨h', d, hanswer, rfl, hmove⟩ :=
    hmirror ⟨lead ++ rest, i⟩ rest halike rfl (Nat.le_refl _)
  exact ⟨h', d.index, hanswer, hmove.symm⟩

/-- Wherever the tokens are, they are read as this declaration, but for positions. -/
def ReadsAs (tokens : List Token) (d : Declaration TokenRange) : Prop :=
  ∀ i rest, ∃ d' j, openStatement ⟨tokens ++ rest, i⟩ = .ok (.declaration d', ⟨rest, j⟩) ∧
    d'.move nowhere = d.move nowhere

/-- A heading and a listing between braces are a declaration. -/
theorem HeadingAt.readsAs (hlead : HeadingAt start lead h) {k : Nat}
    {items : List (Item TokenRange)} (hlisting : Listing k inner items) (extent : TokenRange) :
    ReadsAs (lead ++ braced inner) (h.fill ⟨items, extent⟩) := by
  intro i rest
  have hopened : (braced inner ++ rest).head? = some (.symbol .leftBrace) := rfl
  obtain ⟨h', j, hheading, hmove⟩ := hlead.elsewhere i hopened
  have hlength : inner.length + 2 ≤ (braced inner ++ rest).length := by
    rw [List.length_append, length_braced]
    omega
  obtain ⟨b, k, hbody, hitems⟩ := hlisting.reads_body hlength j rest
  refine ⟨h'.fill b, k, ?_, ?_⟩
  · rw [List.append_assoc]
    exact openStatement_iff_heading.mpr ⟨h', _, b, hheading, hopened, hbody, rfl⟩
  · rw [Declaration.move_fill, Declaration.move_fill, hmove, Body.move, Body.move, hitems]

/-- The tokens of a declaration are a heading and a listing between braces. -/
theorem exists_heading (hopen : openStatement c = .ok (.declaration d, c')) :
    ∃ lead inner, c.ahead = lead ++ (braced inner ++ c'.ahead) ∧
      HeadingAt c.index lead (d.fill ⟨[], .single 0⟩) ∧
      d.body.extent =
        ⟨c.index + lead.length, c.index + lead.length + inner.length + 1⟩ ∧
      Listing (c.index + lead.length + 1) inner d.body.items := by
  obtain ⟨h, e, b, hheading, hopened, hbody, rfl⟩ := openStatement_iff_heading.mp hopen
  obtain ⟨lead, hahead, _⟩ := Takes.exists_append progresses_heading hheading
  have hne : e.ahead ≠ [] := by
    intro hnil
    rw [hnil] at hopened
    cases hopened
  have hindex := Takes.index_eq progresses_heading hheading hahead hne
  obtain ⟨inner, hinner, _, hextent, hlisting⟩ := bodyBetween_of_body hbody
  rw [hindex] at hextent hlisting
  refine ⟨lead, inner, by rw [hahead, hinner], ⟨e.ahead, hopened, ?_⟩, hextent, hlisting⟩
  have hempty : h.body = ⟨[], .single 0⟩ := by
    obtain ⟨_, _, _, _, _, _, _, _, _, hempty⟩ := heading_eq_ok.mp hheading
    exact hempty
  rw [← hahead, ← hindex, ← hempty]
  exact hheading

end Headings

/-! ### Replacing a declaration -/

/-- A semicolon that may be the next token can be put before other tokens. -/
theorem exists_afterSemicolon (tokens : List Token) :
    ∃ semicolon, tokens = semicolon ++ afterSemicolon tokens ∧
      ∀ other : List Token, other.head? = (afterSemicolon tokens).head? →
        afterSemicolon (semicolon ++ other) = other := by
  by_cases hnext : tokens.head? = some (.symbol .semicolon)
  · obtain ⟨rest, rfl⟩ := List.head?_eq_some_iff.mp hnext
    exact ⟨[.symbol .semicolon], rfl, fun _ _ => rfl⟩
  · have hafter : afterSemicolon tokens = tokens := if_neg hnext
    refine ⟨[], hafter.symm, fun other hother => if_neg ?_⟩
    rw [List.nil_append, hother, hafter]
    exact hnext

theorem Lookahead.only_alike_of_head {γ : Type} {view : Option Token → γ} {r r' : List Token}
    (h : r.head? = r'.head?) : (only view).Alike r r' :=
  congrArg view h

/-- A statement sees at most the next token. -/
theorem Statement.lookahead_of_head (s : Statement) {r r' : List Token} (h : r.head? = r'.head?) :
    s.lookahead.Alike r r' := by
  cases s with
  | declaration d => trivial
  | defaults found => exact Lookahead.only_alike_of_head h

theorem head?_append_congr {r r' : List Token} (first : List Token) (h : r.head? = r'.head?) :
    (first ++ r).head? = (first ++ r').head? := by
  cases first with
  | nil => exact h
  | cons t first => rfl

section Replace

variable {ss₁ ss₂ : List Statement} {d : Declaration TokenRange}

theorem ReadsAs.ne_nil {tokens : List Token} (h : ReadsAs tokens d) : tokens ≠ [] := by
  rintro rfl
  obtain ⟨d', j, hopen, _⟩ := h 0 []
  cases hopen

/-- Where a declaration stands among statements, and that it can be replaced there. -/
theorem statements_replace (hn : c.ahead.length ≤ n)
    (h : statements n c = .ok (ss₁ ++ .declaration d :: ss₂, c')) :
    ∃ before e f, c.ahead = before ++ e.ahead ∧ e.index = c.index + before.length ∧
      openStatement e = .ok (.declaration d, f) ∧
      ∀ tokens d' (g : Cursor) m, tokens.head? = e.ahead.head? → ReadsAs tokens d' →
        g.ahead = before ++ (tokens ++ f.ahead) → g.ahead.length ≤ m →
        ∃ ss' g', statements m g = .ok (ss', g') ∧
          (ss₁ ++ .declaration d' :: ss₂).map Statement.bare = ss'.map Statement.bare := by
  induction n generalizing c ss₁ with
  | zero =>
    have hnil := List.eq_nil_of_length_eq_zero (Nat.le_zero.mp hn)
    cases ss₁ <;> cases (statements_nil hnil).symm.trans h
  | succ n ih =>
    rcases statements_cases h with ⟨_, hss⟩ | ⟨s, rest, between, hss, hopen, hrest⟩
    · cases ss₁ <;> cases hss
    obtain ⟨taken, hahead, _, hcovers, hread⟩ := readable_of_openStatement hopen
    have hlength := length_skipSemicolon hcovers hahead hn
    cases ss₁ with
    | nil =>
      -- the declaration comes first, and the statements behind it are read at another place
      obtain ⟨rfl, rfl⟩ := List.cons.inj hss
      refine ⟨[], c, between, rfl, rfl, hopen, fun tokens d' g m _ hreads hg hm => ?_⟩
      obtain ⟨ahead, index⟩ := g
      obtain rfl : ahead = tokens ++ between.ahead := hg
      obtain ⟨d'', j, hopen', hmove⟩ := hreads index between.ahead
      obtain ⟨taken', hahead', _, hcovers', _⟩ := readable_of_openStatement hopen'
      refine exists_statements_cons (s := .declaration d') hcovers' hahead' hm hopen' ?_
        fun m hm => statements_elsewhere hlength hrest ?_ hm
      · rw [Statement.bare, Statement.bare]
        exact congrArg (fun d => ([], some d)) hmove.symm
      · rw [skipSemicolon_ahead, skipSemicolon_ahead]
    | cons s₁ ss₁ =>
      obtain ⟨rfl, rfl⟩ := List.cons.inj hss
      obtain ⟨before, e, f, hbefore, hindex, hd, hreplace⟩ := ih hlength hrest
      have hne : e.ahead ≠ [] := by
        obtain ⟨taken, hahead, _, hcovers, _⟩ := readable_of_openStatement hd
        rw [hahead]
        exact List.append_ne_nil_of_left_ne_nil hcovers.ne_nil _
      obtain ⟨semicolon, hsemicolon, hother⟩ := exists_afterSemicolon between.ahead
      rw [← skipSemicolon_ahead, hbefore] at hsemicolon hother
      have hc : c.ahead = (taken ++ semicolon) ++ (skipSemicolon between).ahead := by
        rw [hahead, hsemicolon, hbefore, List.append_assoc]
      have hstatement := (endsWithSemicolon_statement c s₁ _).mpr ⟨between, hopen, rfl⟩
      have hskip := takes_statement.index_eq hstatement hc (by
        rw [hbefore]
        exact List.append_ne_nil_of_right_ne_nil _ hne)
      refine ⟨taken ++ (semicolon ++ before), e, f, ?_, ?_, hd, ?_⟩
      · rw [hahead, hsemicolon, List.append_assoc, List.append_assoc]
      · rw [hindex, hskip]
        simp only [List.length_append]
        omega
      · -- the statement before it looks at one token behind it, which is the same
        intro tokens d' g m hhead hreads hg hm
        have hsame : (before ++ (tokens ++ f.ahead)).head? = (before ++ e.ahead).head? :=
          head?_append_congr before ((List.head?_append_of_ne_nil _ hreads.ne_nil).trans hhead)
        simp only [List.append_assoc] at hg
        obtain ⟨s', b', hopen', hb', hbare⟩ := hread g
          (semicolon ++ (before ++ (tokens ++ f.ahead)))
          (s₁.lookahead_of_head (hsemicolon ▸ head?_append_congr semicolon hsame.symm)) hg
        refine exists_statements_cons hcovers (by rw [hg, hb']) hm hopen' hbare fun m hm => ?_
        refine hreplace tokens d' (skipSemicolon b') m hhead hreads ?_ hm
        rw [skipSemicolon_ahead, hb', hother _ hsame]

end Replace

theorem sourceOf_replace (entity : Located TokenRange Name) (ss₁ ss₂ : List Statement)
    (d d' : Declaration TokenRange) : sourceOf entity (ss₁ ++ .declaration d' :: ss₂) =
      { sourceOf entity (ss₁ ++ .declaration d :: ss₂) with
        declarations := ss₁.filterMap Statement.declaration? ++
          d' :: ss₂.filterMap Statement.declaration? } := by
  simp [sourceOf, Statement.modifiers, Statement.declaration?]

theorem exists_statements_of_declarations {ss : List Statement}
    {ds ds' : List (Declaration TokenRange)} {d : Declaration TokenRange}
    (h : ss.filterMap Statement.declaration? = ds ++ d :: ds') :
    ∃ ss₁ ss₂, ss = ss₁ ++ .declaration d :: ss₂ ∧ ss₁.filterMap Statement.declaration? = ds ∧
      ss₂.filterMap Statement.declaration? = ds' := by
  obtain ⟨ss₁, rest, rfl, rfl, hrest⟩ := List.filterMap_eq_append_iff.mp h
  obtain ⟨others, s, ss₂, rfl, hothers, hs, rfl⟩ := List.filterMap_eq_cons_iff.mp hrest
  have hnone : others.filterMap Statement.declaration? = [] := List.filterMap_eq_nil_iff.mpr hothers
  cases s with
  | defaults found => cases hs
  | declaration d' =>
    cases hs
    refine ⟨ss₁ ++ others, ss₂, (List.append_assoc ..).symm, ?_, rfl⟩
    rw [List.filterMap_append, hnone, List.append_nil]

/-- Where a declaration of a source stands, and that it can be replaced there. -/
theorem ofSignificant_replace {tokens : List Token} {s : Source TokenRange}
    (h : Source.ofSignificant tokens = .ok s) {ds ds' : List (Declaration TokenRange)}
    {d : Declaration TokenRange} (hs : s.declarations = ds ++ d :: ds') :
    ∃ before e f, tokens = before ++ e.ahead ∧ e.index = before.length ∧
      openStatement e = .ok (.declaration d, f) ∧
      ∀ tokens' d', tokens'.head? = e.ahead.head? → ReadsAs tokens' d' →
        ∃ t, Source.ofSignificant (before ++ (tokens' ++ f.ahead)) = .ok t ∧
          t.bare = ({ s with declarations := ds ++ d' :: ds' } : Source TokenRange).bare := by
  obtain ⟨entity, between, ss, c', hopen, hstatements, rfl⟩ := ofSignificant_eq_ok.mp h
  obtain ⟨ss₁, ss₂, rfl, rfl, rfl⟩ := exists_statements_of_declarations hs
  obtain ⟨before, e, f, hbefore, hindex, hd, hreplace⟩ :=
    statements_replace (Nat.le_refl _) hstatements
  obtain ⟨taken, hahead, _, _, hread⟩ := openExported_elsewhere hopen
  obtain ⟨semicolon, hsemicolon, hother⟩ := exists_afterSemicolon between.ahead
  rw [← skipSemicolon_ahead, hbefore] at hsemicolon hother
  have hne : (skipSemicolon between).ahead ≠ [] := by
    obtain ⟨taken, hahead, _, hcovers, _⟩ := readable_of_openStatement hd
    rw [hbefore, hahead]
    exact List.append_ne_nil_of_right_ne_nil _ (List.append_ne_nil_of_left_ne_nil hcovers.ne_nil _)
  have htokens : tokens = (taken ++ semicolon) ++ (skipSemicolon between).ahead := by
    rw [hbefore, List.append_assoc, ← hsemicolon]
    exact hahead
  have hexported := (endsWithSemicolon_exported _ _ _).mpr ⟨between, hopen, rfl⟩
  have hskip := advances_exported.index_eq hexported htokens hne
  refine ⟨taken ++ (semicolon ++ before), e, f, ?_, ?_, hd, fun tokens' d' hhead hreads => ?_⟩
  · rw [htokens, hbefore, List.append_assoc, List.append_assoc, List.append_assoc]
  · rw [hindex, hskip]
    simp only [List.length_append]
    omega
  · -- the name of the entity looks at one token behind it, which is the same
    have hsame : (before ++ (tokens' ++ f.ahead)).head? = (before ++ e.ahead).head? :=
      head?_append_congr before ((List.head?_append_of_ne_nil _ hreads.ne_nil).trans hhead)
    have halike : Lookahead.dot.Alike between.ahead
        (semicolon ++ (before ++ (tokens' ++ f.ahead))) := by
      rw [hsemicolon]
      exact Lookahead.only_alike_of_head (head?_append_congr semicolon hsame.symm)
    obtain ⟨entity', b', hopen', hb', hentity⟩ :=
      hread ⟨taken ++ (semicolon ++ (before ++ (tokens' ++ f.ahead))), 0⟩ _ halike rfl
    rw [← sourceOf_replace]
    simp only [List.append_assoc]
    refine exists_ofSignificant hopen' hentity
      (hreplace tokens' d' _ _ hhead hreads ?_ (Nat.le_refl _))
    rw [skipSemicolon_ahead, hb', hother _ hsame]

end Parser

/-- **A declaration can be replaced.** Its tokens are a heading and a listing between braces. With
another heading that begins with the same token and another listing in place of them, the tokens
stand for the source with the other declaration. -/
theorem Source.exists_ofSignificant_replace {tokens : List Token} {s : Source TokenRange}
    (h : ofSignificant tokens = .ok s) {ds ds' : List (Declaration TokenRange)}
    {d : Declaration TokenRange} (hs : s.declarations = ds ++ d :: ds') :
    ∃ before lead inner after, tokens = before ++ (lead ++ (Parser.braced inner ++ after)) ∧
      Parser.HeadingAt before.length lead (d.fill ⟨[], .single 0⟩) ∧
      d.body.extent = ⟨before.length + lead.length,
        before.length + lead.length + inner.length + 1⟩ ∧
      Parser.Listing (before.length + lead.length + 1) inner d.body.items ∧
      ∀ {i k lead' inner' h' items'} (extent : TokenRange), lead'.head? = lead.head? →
        Parser.HeadingAt i lead' h' → Parser.Listing k inner' items' →
        ∃ t, ofSignificant (before ++ (lead' ++ (Parser.braced inner' ++ after))) = .ok t ∧
          t.bare = ({ s with declarations := ds ++ h'.fill ⟨items', extent⟩ :: ds' } :
            Source TokenRange).bare := by
  obtain ⟨before, e, f, htokens, hindex, hopen, hreplace⟩ := Parser.ofSignificant_replace h hs
  obtain ⟨lead, inner, hahead, hheading, hextent, hlisting⟩ := Parser.exists_heading hopen
  rw [hindex] at hheading hextent hlisting
  refine ⟨before, lead, inner, f.ahead, by rw [htokens, hahead], hheading, hextent, hlisting, ?_⟩
  intro i k lead' inner' h' items' extent hhead hheading' hlisting'
  have hne : lead ≠ [] := hheading.ne_nil
  have hne' : lead' ≠ [] := hheading'.ne_nil
  obtain ⟨t, ht, hbare⟩ := hreplace (lead' ++ Parser.braced inner') _ (by
    rw [hahead, List.head?_append_of_ne_nil _ hne, List.head?_append_of_ne_nil _ hne', hhead])
    (hheading'.readsAs hlisting' extent)
  rw [List.append_assoc] at ht
  exact ⟨t, ht, hbare⟩

end Projection
