import Projection.Proofs.Source.Locality
import Projection.Proofs.Source.Parts

/-!
# Bodies as listings

`Parser.shell` reads an item up to its body (`Parser.item_eq_shell`). A shell is read alike wherever
its tokens are ahead and nothing goes on with the item behind them (`Parser.ShellAt.elsewhere`).

`Parser.Listing` puts the tokens between two braces together from shells, from the bodies behind
them and from commas. The tokens that are read as a body are those of a listing
(`Parser.bodyBetween_of_body`), and the tokens of a listing are read as such, wherever they are
(`Parser.Listing.reads`). So a listing can be changed piece by piece.
-/

namespace Projection

section Fill

variable {P Q : Type}

/-- The item with another body, if it has one. -/
def Item.fill (body : Body P) : Item P → Item P
  | .nested head _ _ => .nested head body.items body.extent
  | .flatten property lead _ _ => .flatten property lead body.items body.extent
  | .group pattern _ _ => .group pattern body.items body.extent
  | .plain head => .plain head
  | .bundle name nullability => .bundle name nullability
  | .idOnly property nullability newName => .idOnly property nullability newName
  | .negative name => .negative name
  | .user item => .user item

theorem Item.move_fill (f : P → Q) (body : Body P) (item : Item P) :
    (item.fill body).move f = (item.move f).fill (body.move f) := by
  cases item <;> rfl

/-- Without positions a filled item depends only on its shell and its items. -/
theorem Item.move_fill_eq {item item' : Item P} {items items' : List (Item P)} {extent extent' : P}
    (hitem : item'.move nowhere = item.move nowhere)
    (hitems : Item.moveAll nowhere items' = Item.moveAll nowhere items) :
    (item'.fill ⟨items', extent'⟩).move nowhere = (item.fill ⟨items, extent⟩).move nowhere := by
  rw [Item.move_fill, Item.move_fill, hitem, Body.move, Body.move, hitems]

end Fill

namespace Parser

/-! ### Items without their bodies -/

/-- An item up to its body, with an empty body in place of it. -/
def shell : Parser (Item TokenRange) :=
  item (pure ⟨[], .single 0⟩)

/-- The body behind a shell, if it has one. -/
def shellRest (body : Parser (Body TokenRange)) (shell : Item TokenRange) :
    Parser (Item TokenRange) :=
  if shell.extent?.isSome then (do return shell.fill (← body)) else return shell

theorem shellRest_of_none (body : Parser (Body TokenRange)) {shell : Item TokenRange}
    (h : shell.extent?.isSome = false) : shellRest body shell = pure shell := by
  rw [shellRest, h]
  rfl

theorem shellRest_of_some (body : Parser (Body TokenRange)) {shell : Item TokenRange}
    (h : shell.extent?.isSome) : shellRest body shell = (do return shell.fill (← body)) := by
  rw [shellRest, if_pos h]

theorem userItem_shellRest (body : Parser (Body TokenRange)) (tags : List (TagItem TokenRange))
    (name : Located TokenRange Name) :
    userItem tags name >>= shellRest body = userItem tags name := by
  simp only [userItem, bind_assoc]
  refine bind_congr fun _ => bind_congr fun _ => bind_congr fun type => bind_congr fun found => ?_
  cases found with
  | none => rfl
  | some sign =>
    simp only [bind_assoc]
    rfl

theorem wordItem_eq_shell (body : Parser (Body TokenRange)) (name : Located TokenRange Name) :
    wordItem body name = wordItem (pure ⟨[], .single 0⟩) name >>= shellRest body := by
  simp only [wordItem, bind_assoc]
  refine bind_congr fun called => bind_congr fun typed => ?_
  split
  · exact (userItem_shellRest body [] name).symm
  · split
    · simp only [bind_assoc]
      rfl
    · split
      · simp only [bind_assoc]
        rfl
      · simp only [bind_assoc]
        refine bind_congr fun head => bind_congr fun opened => ?_
        cases opened <;> rfl

/-- An item is a shell with the body behind it. -/
theorem item_eq_shell (body : Parser (Body TokenRange)) :
    item body = shell >>= shellRest body := by
  rw [shell, item_eq, item_eq, bind_assoc]
  refine bind_congr fun next => ?_
  unfold itemFrom
  split
  · simp only [bind_assoc, userItem_shellRest]
  · simp only [bind_assoc]
    rfl
  · simp only [bind_assoc]
    rfl
  · simp only [bind_assoc]
    rfl
  · simp only [bind_assoc]
    refine bind_congr fun found => ?_
    cases found with
    | none => exact (fail_bind .item (shellRest body)).symm
    | some name => exact wordItem_eq_shell body name

/-! ### Where an item ends -/

/-- Whether an item goes on. -/
def Lookahead.ending : Lookahead where
  Alike r s := (∀ symbol : Symbol, symbol.goesOn →
      (r.head? = some (.symbol symbol) ↔ s.head? = some (.symbol symbol))) ∧
    opensAlias r = opensAlias s
  append taken r s h := by
    match taken with
    | [] => exact h
    | [t] =>
      refine ⟨fun _ _ => Iff.rfl, congrArg ((some t == some (.keyword .asWord)) && ·) ?_⟩
      have hparen : (r.head? == some (.symbol .leftParen)) =
          (s.head? == some (.symbol .leftParen)) :=
        Bool.eq_iff_iff.mpr (by simpa using h.1 .leftParen rfl)
      exact congrArg not hparen
    | t :: u :: taken => exact ⟨fun _ _ => Iff.rfl, rfl⟩

theorem Lookahead.ending_tellsEnd : ending.TellsEnd :=
  ⟨fun symbol hsymbol _ _ h => h.1 symbol hsymbol, fun _ _ h => h.2⟩

/-- There are more tokens, and they do not go on with the item before them. -/
def ItemEnds (rest : List Token) : Prop :=
  rest ≠ [] ∧ Lookahead.ending.Alike [] rest

theorem itemEnds_cons {t : Token} {rest : List Token} (ht : ∀ s, t = .symbol s → s.goesOn = false)
    (has : opensAlias (t :: rest) = false) : ItemEnds (t :: rest) := by
  refine ⟨List.cons_ne_nil _ _, fun symbol hsymbol => ⟨nofun, fun h => ?_⟩, has.symm⟩
  rw [ht symbol (Option.some.inj h)] at hsymbol
  cases hsymbol

theorem itemEnds_symbol {s : Symbol} (hs : s.goesOn = false) (rest : List Token) :
    ItemEnds (.symbol s :: rest) :=
  itemEnds_cons (fun _ h => Token.symbol.inj h ▸ hs) rfl

/-- An item may start with these tokens. -/
def StartsItem : List Token → Prop
  | .word _ :: _ => True
  | .symbol s :: _ => s = .atSign ∨ s = .hash ∨ s = .minus
  | .keyword .asWord :: rest => rest.head? = some (.symbol .leftParen)
  | _ => False

theorem StartsItem.itemEnds {tokens : List Token} (h : StartsItem tokens) : ItemEnds tokens := by
  match tokens with
  | .word name :: rest => exact itemEnds_cons (fun s hs => by cases hs) rfl
  | .symbol s :: rest =>
    obtain rfl | rfl | rfl := h
    · exact itemEnds_symbol rfl rest
    · exact itemEnds_symbol rfl rest
    · exact itemEnds_symbol rfl rest
  | .keyword .asWord :: rest =>
    obtain ⟨rest, rfl⟩ := List.head?_eq_some_iff.mp h
    exact itemEnds_cons (fun s hs => by cases hs) rfl

theorem StartsItem.head?_ne {tokens : List Token} (h : StartsItem tokens) {s : Symbol}
    (hs : ¬ (s = .atSign ∨ s = .hash ∨ s = .minus)) : tokens.head? ≠ some (.symbol s) := by
  intro hhead
  obtain ⟨rest, rfl⟩ := List.head?_eq_some_iff.mp hhead
  exact hs h

theorem startsItem_of_item {b : Parser (Body TokenRange)} {c : Cursor}
    {result : Item TokenRange × Cursor} (h : item b c = .ok result) : StartsItem c.ahead := by
  obtain ⟨ahead, index⟩ := c
  match ahead with
  | [] => cases h
  | .word name :: rest => trivial
  | .symbol s :: rest => cases s <;> first | cases h | simp [StartsItem]
  | .keyword .exportWord :: rest => cases h
  | .keyword .asWord :: rest =>
    have hgroup : (pattern (.single index) >>= fun pattern => b >>= fun body =>
        pure (.group pattern body.items body.extent)) ⟨rest, index + 1⟩ = .ok result := h
    obtain ⟨_, hpattern, _⟩ := bind_eq_ok.mp hgroup
    obtain ⟨_, hparen, _⟩ := bind_eq_ok.mp hpattern
    obtain ⟨_, hrest, rfl⟩ := (takes_just_expect .leftParen _).exists_append hparen
    exact congrArg List.head? hrest

/-! ### Shells -/

section Shells

variable {start : Nat} {lead : List Token} {head : Item TokenRange}

/-- What has to follow a shell: its body, or something that does not go on with it. -/
def FollowsShell (head : Item TokenRange) (rest : List Token) : Prop :=
  if head.extent?.isSome then rest.head? = some (.symbol .leftBrace) else ItemEnds rest

theorem FollowsShell.ne_nil {rest : List Token} (h : FollowsShell head rest) : rest ≠ [] := by
  rw [FollowsShell] at h
  split at h
  · rintro rfl
    cases h
  · exact h.1

theorem FollowsShell.alike {r s : List Token} (hr : FollowsShell head r)
    (hs : FollowsShell head s) : Lookahead.ending.Alike r s := by
  rw [FollowsShell] at hr hs
  split at hr
  · rename_i hbody
    rw [if_pos hbody] at hs
    obtain ⟨r, rfl⟩ := List.head?_eq_some_iff.mp hr
    obtain ⟨s, rfl⟩ := List.head?_eq_some_iff.mp hs
    exact ⟨fun _ _ => Iff.rfl, rfl⟩
  · rename_i hbody
    rw [if_neg hbody] at hs
    exact ⟨fun symbol hsymbol => (hr.2.1 symbol hsymbol).symm.trans (hs.2.1 symbol hsymbol),
      hr.2.2.symm.trans hs.2.2⟩

/-- Read from the number `start` on, the tokens are this shell. -/
def ShellAt (start : Nat) (lead : List Token) (head : Item TokenRange) : Prop :=
  ∃ rest, FollowsShell head rest ∧
    shell ⟨lead ++ rest, start⟩ = .ok (head, ⟨rest, start + lead.length⟩)

theorem progresses_shell : Progresses shell :=
  progresses_item (takes_pure trivial)

theorem ShellAt.ne_nil (h : ShellAt start lead head) : lead ≠ [] := by
  obtain ⟨rest, _, hshell⟩ := h
  exact Takes.of_ahead progresses_shell hshell rfl

theorem ShellAt.startsItem (h : ShellAt start lead head) (rest : List Token) :
    StartsItem (lead ++ rest) := by
  have hne := h.ne_nil
  obtain ⟨rest', hfollows, hshell⟩ := h
  have hstarts : StartsItem (lead ++ rest') := startsItem_of_item hshell
  match lead with
  | .word name :: _ => trivial
  | .symbol s :: _ => exact hstarts
  | .keyword .asWord :: t :: _ => exact hstarts
  | [.keyword .asWord] =>
    -- a parenthesis does not follow a shell
    rw [FollowsShell] at hfollows
    split at hfollows
    · cases hfollows.symm.trans hstarts
    · cases (hfollows.2.1 .leftParen rfl).mpr hstarts

/-- What is known of the number of the next token, if there is one. -/
theorem Takes.index_eq {α : Type} {p : Parser α} {Q : List Token → α → Prop} (h : Takes p Q)
    {c c' : Cursor} {a : α} {taken : List Token} (hp : p c = .ok (a, c'))
    (hahead : c.ahead = taken ++ c'.ahead) (hne : c'.ahead ≠ []) :
    c'.index = c.index + taken.length := by
  obtain ⟨n, rfl, _⟩ := h c a c' hp
  have hpos := List.length_pos_iff.mpr hne
  have hlength := congrArg List.length hahead
  rw [List.length_append] at hlength
  change c.index + n = c.index + taken.length
  simp only [Cursor.skip, List.length_drop] at hpos hlength
  omega

/-- A shell is read alike at another place. -/
theorem ShellAt.elsewhere (h : ShellAt start lead head) (start' : Nat) {rest : List Token}
    (hrest : FollowsShell head rest) :
    ∃ head', shell ⟨lead ++ rest, start'⟩ = .ok (head', ⟨rest, start' + lead.length⟩) ∧
      head'.move nowhere = head.move nowhere := by
  obtain ⟨rest', hrest', hshell⟩ := h
  have hmirrors : Mirrors .ending (lead ++ rest').length (lead ++ rest).length shell shell
      (Item.move nowhere) :=
    mirrors_item Lookahead.ending_tellsEnd (mirrors_pure rfl) (takes_pure trivial)
  obtain ⟨taken, hahead, _, hmirror⟩ := hmirrors _ (Nat.le_refl _) _ _ hshell
  obtain rfl : lead = taken := List.append_cancel_right hahead
  obtain ⟨head', d, hanswer, rfl, hmove⟩ :=
    hmirror ⟨lead ++ rest, start'⟩ rest (hrest'.alike hrest) rfl (Nat.le_refl _)
  have hindex := Takes.index_eq progresses_shell hanswer rfl hrest.ne_nil
  exact ⟨head', by rw [hanswer, ← hindex], hmove.symm⟩

end Shells

/-! ### Listings -/

/-- The tokens between braces. -/
def braced (inner : List Token) : List Token :=
  .symbol .leftBrace :: (inner ++ [.symbol .rightBrace])

theorem length_braced (inner : List Token) : (braced inner).length = inner.length + 2 := by
  simp [braced]

theorem braced_append (inner rest : List Token) :
    braced inner ++ rest = .symbol .leftBrace :: (inner ++ .symbol .rightBrace :: rest) := by
  simp [braced]

/-- The tokens are a comma or none. -/
def IsSeparator (tokens : List Token) : Prop :=
  tokens = [] ∨ tokens = [.symbol .comma]

/-- Read from the number `start` on, the tokens are these items with their bodies. Behind each may
stand a comma. -/
inductive Listing : Nat → List Token → List (Item TokenRange) → Prop
  | nil {start : Nat} : Listing start [] []
  | leaf {start : Nat} {lead separator tokens : List Token} {head : Item TokenRange}
      {items : List (Item TokenRange)} :
      ShellAt start lead head → head.extent?.isSome = false → IsSeparator separator →
      Listing (start + lead.length + separator.length) tokens items →
      Listing start (lead ++ (separator ++ tokens)) (head :: items)
  | branch {start : Nat} {lead inner separator tokens : List Token} {head : Item TokenRange}
      {inside items : List (Item TokenRange)} :
      ShellAt start lead head → head.extent?.isSome →
      Listing (start + lead.length + 1) inner inside → IsSeparator separator →
      Listing (start + lead.length + (inner.length + 2) + separator.length) tokens items →
      Listing start (lead ++ (braced inner ++ (separator ++ tokens)))
        (head.fill ⟨inside, start + lead.length, start + lead.length + inner.length + 1⟩ :: items)

section Listings

variable {n m start : Nat} {tokens : List Token} {items : List (Item TokenRange)} {c c' : Cursor}

theorem Listing.startsItem (h : Listing start tokens items) :
    tokens = [] ∨ ∀ rest, StartsItem (tokens ++ rest) := by
  cases h with
  | nil => exact .inl rfl
  | leaf hshell =>
    refine .inr fun rest => ?_
    rw [List.append_assoc]
    exact hshell.startsItem _
  | branch hshell =>
    refine .inr fun rest => ?_
    rw [List.append_assoc]
    exact hshell.startsItem _

/-- Where a body goes on, the item before is over and there is no comma. -/
theorem Listing.itemEnds (h : Listing start tokens items) (rest : List Token) :
    ItemEnds (tokens ++ .symbol .rightBrace :: rest) ∧
      (tokens ++ .symbol .rightBrace :: rest).head? ≠ some (.symbol .comma) := by
  rcases h.startsItem with rfl | hstarts
  · exact ⟨itemEnds_symbol rfl rest, by simp⟩
  · exact ⟨(hstarts _).itemEnds, (hstarts _).head?_ne (by decide)⟩

theorem IsSeparator.itemEnds {separator rest : List Token} (h : IsSeparator separator)
    (hrest : ItemEnds rest) : ItemEnds (separator ++ rest) := by
  rcases h with rfl | rfl
  · exact hrest
  · exact itemEnds_symbol rfl rest

theorem IsSeparator.eat {separator rest : List Token} (h : IsSeparator separator)
    (hrest : rest.head? ≠ some (.symbol .comma)) (i : Nat) :
    ∃ found, eat .comma (⟨separator ++ rest, i⟩ : Cursor) =
      .ok (found, ⟨rest, i + separator.length⟩) := by
  rcases h with rfl | rfl
  · exact ⟨none, eat_of_not_head hrest⟩
  · exact ⟨some (.single i), eat_of_head rfl⟩

/-! #### What is read is a listing -/

theorem item_cases {b : Parser (Body TokenRange)} {read : Item TokenRange}
    (h : item b c = .ok (read, c')) :
    (shell c = .ok (read, c') ∧ read.extent?.isSome = false) ∨ ∃ head between body,
      shell c = .ok (head, between) ∧ head.extent?.isSome ∧ b between = .ok (body, c') ∧
        read = head.fill body := by
  rw [item_eq_shell] at h
  obtain ⟨⟨head, between⟩, hshell, hrest⟩ := bind_eq_ok.mp h
  cases hextent : head.extent?.isSome with
  | false =>
    cases (congrFun (shellRest_of_none b hextent) between).symm.trans hrest
    exact .inl ⟨hshell, hextent⟩
  | true =>
    obtain ⟨⟨body, _⟩, hbody, hpure⟩ :=
      bind_eq_ok.mp ((congrFun (shellRest_of_some b hextent) between).symm.trans hrest)
    cases hpure
    exact .inr ⟨head, between, body, hshell, hextent, hbody, rfl⟩

theorem shellAt_of_shell {head : Item TokenRange} (h : shell c = .ok (head, c'))
    (hfollows : FollowsShell head c'.ahead) :
    ∃ lead, c.ahead = lead ++ c'.ahead ∧ c'.index = c.index + lead.length ∧
      ShellAt c.index lead head := by
  obtain ⟨lead, hahead, _⟩ := Takes.exists_append progresses_shell h
  have hindex := Takes.index_eq progresses_shell h hahead hfollows.ne_nil
  exact ⟨lead, hahead, hindex, c'.ahead, hfollows, by rw [← hahead, ← hindex]; exact h⟩

/-- Between the cursors the tokens are this body. -/
def BodyBetween (c : Cursor) (b : Body TokenRange) (c' : Cursor) : Prop :=
  ∃ inner, c.ahead = braced inner ++ c'.ahead ∧ c'.index = c.index + inner.length + 2 ∧
    b.extent = ⟨c.index, c.index + inner.length + 1⟩ ∧ Listing (c.index + 1) inner b.items

theorem listing_of_itemsRest {b : Parser (Body TokenRange)}
    (hb : ∀ c body c', b c = .ok (body, c') → BodyBetween c body c')
    {rest : List (Item TokenRange) × TokenRange} (h : itemsRest (item b) m c = .ok (rest, c')) :
    ∃ inner, c.ahead = inner ++ .symbol .rightBrace :: c'.ahead ∧
      c'.index = c.index + inner.length + 1 ∧ rest.2 = .single (c.index + inner.length) ∧
      Listing c.index inner rest.1 := by
  induction m generalizing c rest with
  | zero => exact absurd h (fail_ne_ok _ c _)
  | succ m ih =>
    by_cases hnext : c.ahead.head? = some (.symbol .rightBrace)
    · obtain ⟨after, ht⟩ := List.head?_eq_some_iff.mp hnext
      rw [itemsRest_of_head ht] at h
      cases h
      exact ⟨[], ht, rfl, rfl, .nil⟩
    · rw [itemsRest_of_not_head hnext] at h
      obtain ⟨⟨first, c₁⟩, hitem, hafter⟩ := bind_eq_ok.mp h
      obtain ⟨⟨found, c₂⟩, hcomma, hmore⟩ := bind_eq_ok.mp hafter
      obtain ⟨⟨⟨more, close⟩, _⟩, hmore, hpure⟩ := bind_eq_ok.mp hmore
      cases hpure
      obtain ⟨inner, hinner, hindex, rfl, hlisting⟩ := ih hmore
      -- behind the item there is a comma or none, and this is where its last part ends
      obtain ⟨separator, hseparator, hsep⟩ := (takes_eat .comma).exists_append hcomma
      replace hsep : IsSeparator separator := by
        rw [hsep]
        cases found with
        | none => exact .inl rfl
        | some r => exact .inr rfl
      have hindex₂ : c₂.index = c₁.index + separator.length :=
        Takes.index_eq (advances_eat .comma) hcomma hseparator (by simp [hinner])
      have hends : ItemEnds c₁.ahead := by
        rw [hseparator, hinner]
        exact hsep.itemEnds (hlisting.itemEnds c'.ahead).1
      rcases item_cases hitem with ⟨hshell, hextent⟩ | ⟨head, e, body, hshell, hextent, hbody, rfl⟩
      · obtain ⟨lead, hahead, hindex₁, hlead⟩ :=
          shellAt_of_shell hshell (by rwa [FollowsShell, hextent])
        rw [hindex₂, hindex₁] at hlisting hindex
        refine ⟨lead ++ (separator ++ inner), ?_, ?_, ?_, .leaf hlead hextent hsep hlisting⟩
        · rw [hahead, hseparator, hinner, List.append_assoc, List.append_assoc]
        · simp only [hindex, List.length_append]
          omega
        · simp only [hindex₂, hindex₁, List.length_append, TokenRange.single, TokenRange.mk.injEq]
          omega
      · obtain ⟨inside, hinside, hindex₁, hspan, hlisting'⟩ := hb e body c₁ hbody
        obtain ⟨lead, hahead, hindexₑ, hlead⟩ :=
          shellAt_of_shell hshell (by rw [FollowsShell, hextent, hinside]; rfl)
        obtain ⟨inner', extent⟩ := body
        obtain rfl : extent = _ := hspan
        rw [hindex₂, hindex₁, hindexₑ] at hlisting hindex
        rw [hindexₑ] at hlisting'
        rw [hindexₑ]
        refine ⟨lead ++ (braced inside ++ (separator ++ inner)), ?_, ?_, ?_,
          .branch hlead hextent hlisting' hsep hlisting⟩
        · rw [hahead, hinside, hseparator, hinner]
          simp only [List.append_assoc]
        · simp only [hindex, List.length_append, length_braced]
          omega
        · simp only [hindex₂, hindex₁, hindexₑ, List.length_append, length_braced,
            TokenRange.single, TokenRange.mk.injEq]
          omega

theorem expect_eq_ok {s : Symbol} {expected : Expected} {r : TokenRange}
    (h : expect s expected c = .ok (r, c')) :
    ∃ rest, c.ahead = .symbol s :: rest ∧ r = .single c.index ∧ c' = ⟨rest, c.index + 1⟩ := by
  obtain ⟨taken, hahead, rfl⟩ := (takes_just_expect s expected).exists_append h
  have hexpect : expect s expected c = .ok (.single c.index, ⟨c'.ahead, c.index + 1⟩) :=
    bind_eq_of_eq_ok (eat_of_head hahead)
  obtain ⟨rfl, hc'⟩ := Prod.mk.inj (Except.ok.inj (h.symm.trans hexpect))
  exact ⟨c'.ahead, hahead, rfl, hc'⟩

theorem bodyBetween_of_body {b : Body TokenRange} (h : body n c = .ok (b, c')) :
    BodyBetween c b c' := by
  induction n generalizing c c' b with
  | zero => exact absurd h (fail_ne_ok _ c _)
  | succ n ih =>
    obtain ⟨⟨opening, e⟩, hopening, hbody⟩ := bind_eq_ok.mp h
    obtain ⟨after, hahead, rfl, rfl⟩ := expect_eq_ok hopening
    obtain ⟨⟨rest, _⟩, hrest, hpure⟩ := bind_eq_ok.mp hbody
    cases hpure
    obtain ⟨inner, hinner, hindex, hclose, hlisting⟩ :=
      listing_of_itemsRest (fun _ _ _ hbody => ih hbody) hrest
    dsimp only at hindex hclose
    refine ⟨inner, ?_, ?_, ?_, hlisting⟩
    · rw [hahead, braced_append, ← hinner]
    · omega
    · rw [hclose, Nat.add_right_comm]
      rfl

/-! #### A listing is read -/

theorem extent?_isSome_of_move {item item' : Item TokenRange}
    (h : item'.move nowhere = item.move nowhere) : item'.extent?.isSome = item.extent?.isSome := by
  have hextent := congrArg (fun item => item.extent?.isSome) h
  simpa only [Item.extent?_move, Option.isSome_map] using hextent

/-- An item, and the comma that may stand behind it, before other items. -/
theorem itemsRest_cons {b : Parser (Body TokenRange)} {separator rest : List Token} {i : Nat}
    {first : Item TokenRange} {more : List (Item TokenRange)} {close : TokenRange}
    (hitem : item b c = .ok (first, ⟨separator ++ rest, i⟩)) (hsep : IsSeparator separator)
    (hcomma : rest.head? ≠ some (.symbol .comma))
    (hmore : itemsRest (item b) m ⟨rest, i + separator.length⟩ = .ok ((more, close), c')) :
    itemsRest (item b) (m + 1) c = .ok ((first :: more, close), c') := by
  have hstarts := startsItem_of_item hitem
  obtain ⟨found, heat⟩ := hsep.eat hcomma i
  rw [itemsRest_of_not_head (hstarts.head?_ne (by decide)), bind_eq_of_eq_ok hitem, afterItem,
    bind_eq_of_eq_ok heat, bind_eq_of_eq_ok hmore]
  rfl

/-- The tokens of a listing are read as its items wherever they are. -/
theorem Listing.reads (h : Listing start tokens items) {n m : Nat} (hn : tokens.length ≤ n)
    (hm : tokens.length < m) (i : Nat) (rest : List Token) :
    ∃ items' close j, itemsRest (item (body n)) m
        (⟨tokens ++ .symbol .rightBrace :: rest, i⟩ : Cursor) = .ok ((items', close), ⟨rest, j⟩) ∧
      Item.moveAll nowhere items' = Item.moveAll nowhere items := by
  induction h generalizing n m i rest with
  | nil =>
    obtain ⟨m, rfl⟩ : ∃ k, m = k + 1 := ⟨m - 1, by omega⟩
    exact ⟨[], _, _, itemsRest_of_head rfl, rfl⟩
  | @leaf start lead separator tokens head items hshell hextent hsep hmore ih =>
    obtain ⟨m, rfl⟩ : ∃ k, m = k + 1 := ⟨m - 1, by omega⟩
    simp only [List.length_append] at hn hm
    have hpos := List.length_pos_iff.mpr hshell.ne_nil
    obtain ⟨hends, hcomma⟩ := hmore.itemEnds rest
    have hfollows : FollowsShell head (separator ++ (tokens ++ .symbol .rightBrace :: rest)) := by
      rw [FollowsShell, hextent]
      exact hsep.itemEnds hends
    obtain ⟨head', hread, hhead⟩ := hshell.elsewhere i hfollows
    obtain ⟨items', close, j, hitems, hmove⟩ :=
      ih (n := n) (m := m) (by omega) (by omega) (i + lead.length + separator.length) rest
    have hitem : item (body n)
        (⟨lead ++ (separator ++ (tokens ++ .symbol .rightBrace :: rest)), i⟩ : Cursor) =
        .ok (head', ⟨separator ++ (tokens ++ .symbol .rightBrace :: rest), i + lead.length⟩) := by
      rw [item_eq_shell, bind_eq_of_eq_ok hread,
        shellRest_of_none _ ((extent?_isSome_of_move hhead).trans hextent)]
      rfl
    refine ⟨head' :: items', close, j, ?_, congrArg₂ List.cons hhead hmove⟩
    simp only [List.append_assoc]
    exact itemsRest_cons hitem hsep hcomma hitems
  | @branch start lead inner separator tokens head inside items hshell hextent hinner hsep hmore
      ihinner ih =>
    obtain ⟨m, rfl⟩ : ∃ k, m = k + 1 := ⟨m - 1, by omega⟩
    simp only [List.length_append, length_braced] at hn hm
    obtain ⟨n, rfl⟩ : ∃ k, n = k + 1 := ⟨n - 1, by omega⟩
    have hpos := List.length_pos_iff.mpr hshell.ne_nil
    obtain ⟨hends, hcomma⟩ := hmore.itemEnds rest
    have hfollows : FollowsShell head
        (braced inner ++ (separator ++ (tokens ++ .symbol .rightBrace :: rest))) := by
      rw [FollowsShell, if_pos hextent]
      rfl
    obtain ⟨head', hread, hhead⟩ := hshell.elsewhere i hfollows
    -- the body comes first, since the rest starts where it ends
    obtain ⟨inside', close', j', hinside, hmove'⟩ := ihinner (n := n) (m := n) (by omega) (by omega)
      (i + lead.length + 1) (separator ++ (tokens ++ .symbol .rightBrace :: rest))
    obtain ⟨items', close, j, hitems, hmove⟩ :=
      ih (n := n + 1) (m := m) (by omega) (by omega) (j' + separator.length) rest
    have hbody : body (n + 1) (⟨braced inner ++ (separator ++ (tokens ++
        .symbol .rightBrace :: rest)), i + lead.length⟩ : Cursor) =
        .ok (⟨inside', (TokenRange.single (i + lead.length)).upTo close'⟩,
          ⟨separator ++ (tokens ++ .symbol .rightBrace :: rest), j'⟩) := by
      rw [braced_append]
      refine (bind_eq_of_eq_ok (bind_eq_of_eq_ok (eat_of_head rfl))).trans ?_
      exact bind_eq_of_eq_ok hinside
    have hitem : item (body (n + 1)) (⟨lead ++ (braced inner ++ (separator ++ (tokens ++
        .symbol .rightBrace :: rest))), i⟩ : Cursor) =
        .ok (head'.fill ⟨inside', (TokenRange.single (i + lead.length)).upTo close'⟩,
          ⟨separator ++ (tokens ++ .symbol .rightBrace :: rest), j'⟩) := by
      rw [item_eq_shell, bind_eq_of_eq_ok hread,
        shellRest_of_some _ ((extent?_isSome_of_move hhead).trans hextent)]
      exact bind_eq_of_eq_ok hbody
    have hcons := itemsRest_cons hitem hsep hcomma hitems
    simp only [List.append_assoc]
    exact ⟨_, close, j, hcons, congrArg₂ List.cons (Item.move_fill_eq hhead hmove') hmove⟩

/-- The tokens of a body are read as a body wherever they are. -/
theorem Listing.reads_body (h : Listing start tokens items) {n : Nat} (hn : tokens.length + 2 ≤ n)
    (i : Nat) (rest : List Token) :
    ∃ b j, body n (⟨braced tokens ++ rest, i⟩ : Cursor) = .ok (b, ⟨rest, j⟩) ∧
      Item.moveAll nowhere b.items = Item.moveAll nowhere items := by
  obtain ⟨n, rfl⟩ : ∃ k, n = k + 1 := ⟨n - 1, by omega⟩
  obtain ⟨items', close, j, hitems, hmove⟩ :=
    h.reads (n := n) (m := n) (by omega) (by omega) (i + 1) rest
  refine ⟨⟨items', (TokenRange.single i).upTo close⟩, j, ?_, hmove⟩
  rw [braced_append]
  refine (bind_eq_of_eq_ok (bind_eq_of_eq_ok (eat_of_head rfl))).trans ?_
  exact bind_eq_of_eq_ok hitems

theorem ShellAt.shift {lead : List Token} {head : Item TokenRange} (h : ShellAt start lead head)
    (start' : Nat) : ∃ head', ShellAt start' lead head' ∧
      head'.move nowhere = head.move nowhere := by
  obtain ⟨rest, hrest, _⟩ := id h
  obtain ⟨head', hshell, hmove⟩ := h.elsewhere start' hrest
  refine ⟨head', ⟨rest, ?_, hshell⟩, hmove⟩
  rwa [FollowsShell, extent?_isSome_of_move hmove]

/-- The tokens of a listing are a listing from any number on. -/
theorem Listing.shift (h : Listing start tokens items) (start' : Nat) :
    ∃ items', Listing start' tokens items' ∧
      Item.moveAll nowhere items' = Item.moveAll nowhere items := by
  induction h generalizing start' with
  | nil => exact ⟨[], .nil, rfl⟩
  | @leaf start lead separator tokens head items hshell hextent hsep hmore ih =>
    obtain ⟨head', hshell', hhead⟩ := hshell.shift start'
    obtain ⟨items', hitems, hmove⟩ := ih (start' + lead.length + separator.length)
    refine ⟨head' :: items', .leaf hshell' ?_ hsep hitems, congrArg₂ List.cons hhead hmove⟩
    rw [extent?_isSome_of_move hhead, hextent]
  | @branch start lead inner separator tokens head inside items hshell hextent hinner hsep hmore
      ihinner ih =>
    obtain ⟨head', hshell', hhead⟩ := hshell.shift start'
    obtain ⟨inside', hinside, hmove'⟩ := ihinner (start' + lead.length + 1)
    obtain ⟨items', hitems, hmove⟩ :=
      ih (start' + lead.length + (inner.length + 2) + separator.length)
    refine ⟨_, .branch hshell' ?_ hinside hsep hitems,
      congrArg₂ List.cons (Item.move_fill_eq hhead hmove') hmove⟩
    rw [extent?_isSome_of_move hhead, hextent]

end Listings

end Parser

end Projection
