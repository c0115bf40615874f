import Projection.Proofs.Source.Declarations
import Projection.Proofs.Source.Locating

/-!
# Commas between items

A comma may stand behind each item of a body, at any depth. It says nothing: with or without it the
tokens stand for the same source, but for positions (`Source.ofTokens_comma`).

The place of such a comma is a *seam* of the source: the number of the token that comes next, which
starts another item or closes the body.
-/

namespace Projection

/-! ### Seams -/

/-- The number of the token that an item starts with. A word and a parenthesis stand before the name
of a property that is flattened or of which only the identifier is selected, and a symbol stands
before the name of a property that is left out and before that of an annotation. -/
def Item.start : Item TokenRange → Nat
  | .plain head => head.name.pos.first
  | .nested head _ _ => head.name.pos.first
  | .bundle name _ => name.pos.first
  | .flatten property _ _ _ => property.pos.first - 2
  | .idOnly property _ _ => property.pos.first - 2
  | .negative name => name.pos.first - 1
  | .user item => ((item.tags.head?.map (·.name.pos.first - 1)).getD item.name.pos.first)
  | .group pattern _ _ => pattern.pos.first

mutual

/-- The seams in the body of an item. -/
def Item.seams : Item TokenRange → List Nat
  | .nested _ items extent => Item.seamsAll extent.last items
  | .flatten _ _ items extent => Item.seamsAll extent.last items
  | .group _ items extent => Item.seamsAll extent.last items
  | .plain _ | .bundle .. | .idOnly .. | .negative _ | .user _ => []

/-- The seams behind items and in their bodies, where the items stand before the token `close`. -/
def Item.seamsAll (close : Nat) : List (Item TokenRange) → List Nat
  | [] => []
  | item :: items =>
    item.seams ++ (items.head?.map Item.start).getD close :: Item.seamsAll close items

end

/-- The seams of a source: where a comma may stand behind an item. -/
def Source.seams (s : Source TokenRange) : List Nat :=
  s.declarations.flatMap fun d => Item.seamsAll d.body.extent.last d.body.items

theorem Item.start_fill (item : Item TokenRange) (body : Body TokenRange) :
    (item.fill body).start = item.start := by
  cases item <;> rfl

theorem Item.seams_fill {item : Item TokenRange} (h : item.extent?.isSome)
    (body : Body TokenRange) :
    (item.fill body).seams = Item.seamsAll body.extent.last body.items := by
  cases item <;> first | rfl | cases h

theorem Item.seams_of_none {item : Item TokenRange} (h : item.extent?.isSome = false) :
    item.seams = [] := by
  cases item <;> first | rfl | cases h

namespace Parser

variable {start : Nat} {tokens lead : List Token} {head : Item TokenRange}
  {items : List (Item TokenRange)}

/-! ### Where an item starts -/

theorem locates_tag_first :
    Locates tokens start tag fun _ found => found.name.pos.first = start + 1 := by
  refine .expect fun _ => .bind locates_qualifiedName fun mid name _ hcovers => ?_
  have hname := hcovers.2.first
  refine .eat (locates_pure hname) fun _ => .eat ?_ fun _ => locates_pure hname
  exact .remaining fun n => .after (advances_arguments n) fun _ _ _ =>
    .expect fun _ => locates_pure hname

theorem locates_userItem_start (tags : List (TagItem TokenRange)) (name : Located TokenRange Name) :
    Locates tokens start (userItem tags name) fun _ item =>
      item.start = (tags.head?.map (·.name.pos.first - 1)).getD name.pos.first :=
  .expect fun _ => .remaining fun n => .after (advances_type n) fun _ _ _ =>
    .eat (locates_pure rfl) fun _ => .after advances_defaultValue fun _ _ _ => locates_pure rfl

/-- Annotations and the item behind them. -/
theorem locates_tagged_start (n : Nat) : Locates tokens start (do
    let tags ← tags n
    userItem tags (← word)) fun _ item => item.start = start := by
  cases n with
  | zero => exact .word fun name _ => locates_userItem_start [] _
  | succ n =>
    rw [tags, bind_assoc]
    refine .sees fun seen => ?_
    cases seen with
    | false => exact .word fun name _ => locates_userItem_start [] _
    | true =>
      simp only [if_true, bind_assoc, pure_bind]
      refine .bind locates_tag_first fun mid first _ hfirst => .after (advances_tags n) ?_
      intro mid' more _
      refine .word fun name _ => (locates_userItem_start (first :: more) _).mono ?_
      intro stop item _ hitem
      rw [hitem]
      exact Nat.sub_eq_of_eq_add hfirst

theorem locates_parenthesized_first :
    Locates tokens start parenthesized fun _ w => w.pos.first = start + 1 :=
  .expect fun _ => .word fun _ _ => .expect fun _ => locates_pure rfl

theorem locates_wordItem_start {body : Parser (Body TokenRange)} (hbody : Advances body)
    {name : Located TokenRange Name} (hname : name.pos.first + 1 = start) :
    Locates tokens start (wordItem body name) fun _ item => item.start + 1 = start := by
  refine .sees fun called => .sees fun typed => ?_
  split
  · refine (locates_userItem_start [] name).mono fun _ item _ hitem => ?_
    rw [hitem]
    exact hname
  · split
    · refine .bind locates_parenthesized_first fun _ property _ hproperty =>
        .after advances_newName fun _ _ _ => .after hbody fun _ _ _ => locates_pure ?_
      simp only [Item.start, hproperty]
      omega
    · split
      · refine .bind locates_parenthesized_first fun _ property _ hproperty =>
          .after advances_markedAlias fun _ _ _ => locates_pure ?_
        simp only [Item.start, hproperty]
        omega
      · refine .bind (locates_selected name) fun _ head _ hhead => .sees fun opened => ?_
        have hstart : head.name.pos.first + 1 = start := hhead.1 ▸ hname
        split
        · exact .after hbody fun _ _ _ => locates_pure hstart
        · exact locates_pure hstart

theorem locates_item_start {body : Parser (Body TokenRange)} (hbody : Advances body) :
    Locates tokens start (item body) fun _ item => item.start = start := by
  refine .peek ?_
  split
  · exact .remaining fun n => locates_tagged_start n
  · rename_i has
    exact .advance (.bind (locates_pattern (Nat.lt_succ_self start) has) fun _ pattern _ hpattern =>
      .after hbody fun _ _ _ => locates_pure hpattern.1.first)
  · exact .advance (.word fun _ _ => .after advances_nullability fun _ _ _ => locates_pure rfl)
  · exact .advance (.word fun _ _ => locates_pure rfl)
  · refine .word? (locates_fail .item) fun name _ => ?_
    exact (locates_wordItem_start hbody rfl).mono fun _ item _ hitem => Nat.succ.inj hitem

theorem ShellAt.start_eq (h : ShellAt start lead head) : head.start = start := by
  obtain ⟨rest, _, hshell⟩ := h
  -- what stands before the item does not matter
  have hdrop : (List.replicate start Token.newline ++ (lead ++ rest)).drop start = lead ++ rest :=
    List.drop_left' List.length_replicate
  have hlocates : Locates (List.replicate start .newline ++ (lead ++ rest)) start shell
      fun _ item => item.start = start := locates_item_start (takes_pure trivial)
  rw [Locates, hdrop] at hlocates
  obtain ⟨_, _, _, hstart⟩ := hlocates _ _ hshell
  exact hstart

/-- The first seam behind an item is where the rest of the listing starts. -/
theorem Listing.next_eq (h : Listing start tokens items) :
    (items.head?.map Item.start).getD (start + tokens.length) = start := by
  cases h with
  | nil => rfl
  | leaf hshell => exact hshell.start_eq
  | branch hshell => exact (Item.start_fill _ _).trans hshell.start_eq

/-! ### No item ends with a comma -/

/-- The last of the tokens is no comma. -/
def EndsPlain (tokens : List Token) : Prop :=
  tokens.getLast? ≠ some (.symbol .comma)

theorem EndsPlain.append {first second : List Token} (hfirst : EndsPlain first)
    (hsecond : EndsPlain second) : EndsPlain (first ++ second) := by
  intro h
  rw [List.getLast?_append, Option.or_eq_some_iff] at h
  rcases h with h | ⟨_, h⟩
  · exact hsecond h
  · exact hfirst h

theorem EndsPlain.after {second : List Token} (h : EndsPlain second) (hne : second ≠ [])
    (first : List Token) : EndsPlain (first ++ second) := by
  rw [EndsPlain, List.getLast?_append_of_ne_nil _ hne]
  exact h

theorem endsPlain_nil : EndsPlain [] :=
  nofun

theorem endsPlain_single {t : Token} (h : t ≠ .symbol .comma) : EndsPlain [t] :=
  fun hlast => h (Option.some.inj hlast)

/-- The tokens that the parser takes do not end with a comma. -/
abbrev Plain {α : Type} (p : Parser α) : Prop :=
  Takes p fun taken _ => EndsPlain taken

/-- The parser takes tokens, and the last of them is no comma. -/
abbrev PlainEnd {α : Type} (p : Parser α) : Prop :=
  Takes p fun taken _ => taken ≠ [] ∧ EndsPlain taken

section Plain

variable {α β : Type} {p : Parser α} {k : α → Parser β}

theorem Plain.bind (hp : Plain p) (hk : ∀ a, Plain (k a)) : Plain (p >>= k) :=
  Takes.bind hp hk fun _ _ _ _ hfirst hsecond => hfirst.append hsecond

theorem PlainEnd.after (hp : Advances p) (hk : ∀ a, PlainEnd (k a)) : PlainEnd (p >>= k) :=
  Takes.after hp hk fun first _ _ h =>
    ⟨List.append_ne_nil_of_right_ne_nil _ h.1, h.2.after h.1 first⟩

theorem PlainEnd.plain (hp : PlainEnd p) : Plain p :=
  Takes.mono hp fun _ _ h => h.2

theorem PlainEnd.before (hp : PlainEnd p) (hk : ∀ a, Plain (k a)) : PlainEnd (p >>= k) :=
  Takes.bind hp hk fun _ _ _ _ hfirst hsecond =>
    ⟨List.append_ne_nil_of_left_ne_nil hfirst.1 _, hfirst.2.append hsecond⟩

theorem plain_pure (a : α) : Plain (pure a : Parser α) :=
  takes_pure endsPlain_nil

end Plain

theorem plain_eat {s : Symbol} (hs : s ≠ .comma) : Plain (eat s) := by
  refine (takes_eat s).mono fun taken found htaken => ?_
  rw [htaken]
  split
  · exact endsPlain_single fun h => hs (Token.symbol.inj h)
  · exact endsPlain_nil

theorem plainEnd_expect {s : Symbol} (hs : s ≠ .comma) (expected : Expected) :
    PlainEnd (expect s expected) := by
  refine (takes_just_expect s expected).mono fun taken _ htaken => ?_
  rw [htaken]
  exact ⟨List.cons_ne_nil _ _, endsPlain_single fun h => hs (Token.symbol.inj h)⟩

theorem plainEnd_word : PlainEnd word := by
  refine takes_just_word.mono fun taken _ htaken => ?_
  rw [htaken]
  exact ⟨List.cons_ne_nil _ _, endsPlain_single Token.noConfusion⟩

theorem plain_word? : Plain word? := by
  intro c found c' h
  by_cases hnext : ∃ name, c.ahead.head? = some (.word name)
  · obtain ⟨name, hname⟩ := hnext
    obtain ⟨rest, ht⟩ := List.head?_eq_some_iff.mp hname
    cases (word?_of_head ht).symm.trans h
    refine ⟨1, (Cursor.skip_one_of_cons ht).symm, ?_⟩
    rw [ht]
    exact endsPlain_single Token.noConfusion
  · cases (word?_of_not_head (not_exists.mp hnext)).symm.trans h
    exact ⟨0, rfl, endsPlain_nil⟩

theorem plain_remaining : Plain remaining := by
  intro c a c' h
  cases h
  exact ⟨0, rfl, endsPlain_nil⟩

theorem plain_peek : Plain peek := by
  intro c a c' h
  cases h
  exact ⟨0, rfl, endsPlain_nil⟩

theorem plain_sees (s : Symbol) : Plain (sees s) := by
  intro c a c' h
  cases h
  exact ⟨0, rfl, endsPlain_nil⟩

theorem plain_moreSegments (n : Nat) (name : Located TokenRange Name) :
    Plain (moreSegments n name) := by
  induction n generalizing name with
  | zero => exact plain_pure name
  | succ n ih =>
    refine .bind (plain_eat (by decide)) fun found => ?_
    cases found with
    | none => exact plain_pure name
    | some _ => exact .bind plainEnd_word.plain fun segment => ih _

theorem plainEnd_qualifiedName : PlainEnd qualifiedName :=
  .before plainEnd_word fun first => .bind plain_remaining fun n => plain_moreSegments n first

theorem plain_nullability : Plain nullability := by
  refine .bind (plain_eat (by decide)) fun found => ?_
  cases found with
  | none => exact .bind (plain_eat (by decide)) fun _ => plain_pure _
  | some r => exact plain_pure _

theorem plain_newName : Plain newName := by
  intro c a c' h
  rw [newName_eq] at h
  have hplain : Plain (newNameIf (opensAlias c.ahead)) := by
    rw [newNameIf]
    split
    · exact (PlainEnd.after advances_advance fun _ =>
        .before plainEnd_word fun _ => plain_pure _).plain
    · exact plain_pure none
  exact hplain c a c' h

theorem plain_markedAlias : Plain markedAlias := by
  refine .bind plain_nullability fun before => .bind plain_newName fun name => ?_
  cases before with
  | none => exact .bind plain_nullability fun _ => plain_pure _
  | some mark => exact plain_pure _

theorem plain_type (n : Nat) : Plain (type n) := by
  have hmark : ∀ name pos arguments, Plain (type.mark name pos arguments) := by
    intro name pos arguments
    refine .bind (plain_eat (by decide)) fun found => ?_
    cases found <;> exact plain_pure _
  cases n with
  | zero => exact takes_fail _
  | succ n =>
    refine .bind plainEnd_qualifiedName.plain fun name => .bind (plain_eat (by decide)) ?_
    rintro (_ | _)
    · exact hmark _ _ _
    · exact (PlainEnd.after (advances_typesBy (advances_type n) n) fun arguments =>
        .before (plainEnd_expect (by decide) _) fun _ => hmark _ _ _).plain

theorem plain_defaultValue : Plain defaultValue := by
  rw [defaultValue_eq]
  refine .bind (plain_eat (by decide)) fun minus c d c' h => ?_
  obtain ⟨t, rest, ht, hd, _, rfl⟩ := head_of_defaultRest h
  refine ⟨1, (Cursor.skip_one_of_cons ht).symm, ?_⟩
  rw [ht]
  refine endsPlain_single ?_
  rintro rfl
  cases hd

theorem plainEnd_userItem (tags : List (TagItem TokenRange)) (name : Located TokenRange Name) :
    PlainEnd (userItem tags name) := by
  refine .before (plainEnd_expect (by decide) _) fun _ => .bind plain_remaining fun n =>
    .bind (plain_type n) fun type => .bind (plain_eat (by decide)) fun found => ?_
  cases found with
  | none => exact plain_pure _
  | some _ => exact .bind plain_defaultValue fun _ => plain_pure _

theorem plain_parenthesized : Plain parenthesized :=
  .bind (plainEnd_expect (by decide) _).plain fun _ => .bind plainEnd_word.plain fun _ =>
    .bind (plainEnd_expect (by decide) _).plain fun _ => plain_pure _

theorem plainEnd_patternAfter (keyword : TokenRange) (atStart : Bool) (text : String × Bool) :
    PlainEnd (patternAfter keyword atStart text) := by
  rw [patternAfter]
  split
  · exact takes_fail _
  · refine .after (advances_expect .arrow _) fun _ =>
      .after (.mono takes_word? fun _ _ _ => trivial) fun replacement => ?_
    rw [patternEnd]
    split
    · exact takes_fail _
    · exact .before (plainEnd_expect (by decide) _) fun _ => plain_pure _

theorem plain_wordItem {body : Parser (Body TokenRange)} (hbody : Plain body)
    (name : Located TokenRange Name) : Plain (wordItem body name) := by
  refine .bind (plain_sees .leftParen) fun called => .bind (plain_sees .colon) fun typed => ?_
  split
  · exact (plainEnd_userItem [] name).plain
  · split
    · exact .bind plain_parenthesized fun _ => .bind plain_newName fun _ =>
        .bind hbody fun _ => plain_pure _
    · split
      · exact .bind plain_parenthesized fun _ => .bind plain_markedAlias fun _ => plain_pure _
      · refine .bind (.bind (plain_eat (by decide)) fun _ => .bind plain_markedAlias fun _ =>
          plain_pure _) fun head => .bind (plain_sees .leftBrace) fun opened => ?_
        split
        · exact .bind hbody fun _ => plain_pure _
        · exact plain_pure _

theorem plain_item {body : Parser (Body TokenRange)} (hbody : Plain body) : Plain (item body) := by
  rw [item_eq]
  refine .bind plain_peek fun next => ?_
  unfold itemFrom
  split
  · exact (PlainEnd.after advances_remaining fun n => .after (advances_tags n) fun tags =>
      .after (.mono takes_word fun _ _ _ => trivial) fun name => plainEnd_userItem tags name).plain
  · exact (PlainEnd.after advances_advance fun keyword =>
      .before (.after (advances_expect .leftParen _) fun _ => .after (advances_eat .caret) fun _ =>
        .after advances_patternText fun text => plainEnd_patternAfter keyword _ text) fun pattern =>
          .bind hbody fun _ => plain_pure _).plain
  · exact (PlainEnd.after advances_advance fun hash => .before plainEnd_word fun name =>
      .bind plain_nullability fun _ => plain_pure _).plain
  · exact (PlainEnd.after advances_advance fun _ =>
      .before plainEnd_word fun _ => plain_pure _).plain
  · refine .bind plain_word? fun found => ?_
    cases found with
    | none => exact takes_fail _
    | some name => exact plain_wordItem hbody name

theorem ShellAt.endsPlain (h : ShellAt start lead head) : EndsPlain lead := by
  obtain ⟨rest, _, hshell⟩ := h
  exact Takes.of_ahead (plain_item (plain_pure _)) hshell rfl

/-! ### With and without a comma -/

/-- The tokens with a comma at their end, if they have none, and without it, if they have one. -/
def TogglesComma (tokens other : List Token) : Prop :=
  tokens = other ++ [.symbol .comma] ∨ EndsPlain tokens ∧ other = tokens ++ [.symbol .comma]

theorem TogglesComma.of_append {first tokens other : List Token} (hne : tokens ≠ [])
    (h : TogglesComma (first ++ tokens) other) :
    ∃ rest, other = first ++ rest ∧ TogglesComma tokens rest := by
  rcases h with h | ⟨hplain, rfl⟩
  · obtain ⟨rest, t, rfl⟩ := (List.eq_nil_or_concat tokens).resolve_left hne
    rw [List.concat_eq_append, ← List.append_assoc] at h
    obtain ⟨rfl, hlast⟩ := List.append_inj' h rfl
    exact ⟨rest, rfl, .inl (by rw [List.concat_eq_append, hlast])⟩
  · refine ⟨tokens ++ [.symbol .comma], List.append_assoc .., .inr ⟨?_, rfl⟩⟩
    rwa [EndsPlain, List.getLast?_append_of_ne_nil _ hne] at hplain

/-- Only the separator behind an item changes. -/
theorem TogglesComma.of_separator {separator other : List Token} (hlead : EndsPlain lead)
    (hsep : IsSeparator separator) (h : TogglesComma (lead ++ separator) other) :
    ∃ separator', IsSeparator separator' ∧ other = lead ++ separator' := by
  rcases hsep with rfl | rfl
  · rw [List.append_nil] at h
    rcases h with rfl | ⟨_, rfl⟩
    · exact absurd List.getLast?_concat hlead
    · exact ⟨[.symbol .comma], .inr rfl, rfl⟩
  · rcases h with h | ⟨hplain, _⟩
    · exact ⟨[], .inl rfl, by rw [List.append_nil, List.append_cancel_right h]⟩
    · exact absurd List.getLast?_concat hplain

/-- Tokens that reach behind others begin with them. -/
theorem exists_append_of_length_le {first rest before after : List Token}
    (h : first ++ rest = before ++ after) (hle : first.length ≤ before.length) :
    ∃ between, before = first ++ between ∧ rest = between ++ after := by
  rcases List.append_eq_append_iff.mp h with ⟨between, hbefore, hrest⟩ | ⟨between, rfl, rfl⟩
  · exact ⟨between, hbefore, hrest⟩
  · rw [List.length_append] at hle
    obtain rfl : between = [] := List.eq_nil_of_length_eq_zero (by omega)
    exact ⟨[], by simp, rfl⟩

theorem mem_seamsAll_cons {close k : Nat} {item : Item TokenRange} :
    k ∈ Item.seamsAll close (item :: items) ↔ k ∈ item.seams ∨
      k = (items.head?.map Item.start).getD close ∨ k ∈ Item.seamsAll close items := by
  rw [Item.seamsAll, List.mem_append, List.mem_cons]

/-- The seams behind an item without a body. -/
theorem mem_seams_leaf {separator : List Token} {k : Nat} (hextent : head.extent?.isSome = false)
    (hmore : Listing (start + lead.length + separator.length) tokens items)
    (hk : k ∈ Item.seamsAll (start + (lead ++ (separator ++ tokens)).length) (head :: items)) :
    k = start + lead.length + separator.length ∨
      k ∈ Item.seamsAll (start + lead.length + separator.length + tokens.length) items := by
  have hclose : start + (lead ++ (separator ++ tokens)).length =
      start + lead.length + separator.length + tokens.length := by
    simp only [List.length_append]
    omega
  rw [hclose, mem_seamsAll_cons, Item.seams_of_none hextent, hmore.next_eq] at hk
  exact hk.resolve_left List.not_mem_nil

/-- The seams inside an item with a body and behind it. -/
theorem mem_seams_branch {separator inner : List Token} {inside : List (Item TokenRange)} {k : Nat}
    (hextent : head.extent?.isSome)
    (hmore : Listing (start + lead.length + (inner.length + 2) + separator.length) tokens items)
    (hk : k ∈ Item.seamsAll (start + (lead ++ (braced inner ++ (separator ++ tokens))).length)
      (head.fill ⟨inside, start + lead.length, start + lead.length + inner.length + 1⟩ :: items)) :
    k ∈ Item.seamsAll (start + lead.length + 1 + inner.length) inside ∨
      k = start + lead.length + (inner.length + 2) + separator.length ∨
      k ∈ Item.seamsAll
        (start + lead.length + (inner.length + 2) + separator.length + tokens.length) items := by
  have hclose : start + (lead ++ (braced inner ++ (separator ++ tokens))).length =
      start + lead.length + (inner.length + 2) + separator.length + tokens.length := by
    simp only [List.length_append, length_braced]
    omega
  rw [hclose, mem_seamsAll_cons, Item.seams_fill hextent, hmore.next_eq] at hk
  rwa [Nat.add_right_comm (start + lead.length) 1]

theorem Listing.seam_bounds (h : Listing start tokens items) {k : Nat}
    (hk : k ∈ Item.seamsAll (start + tokens.length) items) :
    start < k ∧ k ≤ start + tokens.length := by
  induction h with
  | nil => cases hk
  | @leaf start lead separator tokens head items hshell hextent hsep hmore ih =>
    have hpos := List.length_pos_iff.mpr hshell.ne_nil
    simp only [List.length_append]
    rcases mem_seams_leaf hextent hmore hk with rfl | hk
    · omega
    · have := ih hk
      omega
  | @branch start lead inner separator tokens head inside items hshell hextent hinner hsep hmore
      ihinner ih =>
    simp only [List.length_append, length_braced]
    rcases mem_seams_branch hextent hmore hk with hk | rfl | hk
    · have := ihinner hk
      omega
    · omega
    · have := ih hk
      omega

/-- A comma behind some tokens that does not reach back to them. -/
theorem TogglesComma.later {first tokens before after other : List Token} {k : Nat}
    (htokens : first ++ tokens = before ++ after) (hlt : first.length < before.length)
    (hk : start + before.length = k) (h : TogglesComma before other) :
    ∃ between rest, tokens = between ++ after ∧ start + first.length + between.length = k ∧
      other = first ++ rest ∧ TogglesComma between rest := by
  obtain ⟨between, rfl, hrest⟩ := exists_append_of_length_le htokens (Nat.le_of_lt hlt)
  rw [List.length_append] at hlt hk
  have hne : between ≠ [] := by
    rintro rfl
    exact Nat.lt_irrefl _ hlt
  obtain ⟨rest, rfl, htoggle⟩ := h.of_append hne
  exact ⟨between, rest, hrest, by omega, rfl, htoggle⟩

/-- With or without the comma before a seam, the tokens are a listing of the same items. -/
theorem Listing.toggle (h : Listing start tokens items) {k : Nat}
    (hk : k ∈ Item.seamsAll (start + tokens.length) items) {before after other : List Token}
    (htokens : tokens = before ++ after) (hbefore : start + before.length = k)
    (htoggle : TogglesComma before other) :
    ∃ items', Listing start (other ++ after) items' ∧
      Item.moveAll nowhere items' = Item.moveAll nowhere items := by
  induction h generalizing before after other with
  | nil => cases hk
  | @leaf start lead separator tokens head items hshell hextent hsep hmore ih =>
    rw [← List.append_assoc] at htokens
    rcases mem_seams_leaf hextent hmore hk with rfl | hk
    · -- behind this item
      obtain ⟨rfl, rfl⟩ := List.append_inj htokens (by rw [List.length_append]; omega)
      obtain ⟨separator', hsep', rfl⟩ := htoggle.of_separator hshell.endsPlain hsep
      obtain ⟨items', hitems, hmove⟩ := hmore.shift (start + lead.length + separator'.length)
      rw [List.append_assoc]
      exact ⟨head :: items', .leaf hshell hextent hsep' hitems, congrArg (_ :: ·) hmove⟩
    · -- behind a later item
      have hbounds := hmore.seam_bounds hk
      obtain ⟨between, rest, hmid, hbetween, rfl, hrest⟩ := htoggle.later htokens
        (by rw [List.length_append]; omega) hbefore
      rw [List.length_append, ← Nat.add_assoc] at hbetween
      obtain ⟨items', hitems, hmove⟩ := ih hk hmid hbetween hrest
      rw [List.append_assoc, List.append_assoc]
      exact ⟨head :: items', .leaf hshell hextent hsep hitems, congrArg (_ :: ·) hmove⟩
  | @branch start lead inner separator tokens head inside items hshell hextent hinner hsep hmore
      ihinner ih =>
    rcases mem_seams_branch hextent hmore hk with hk | rfl | hk
    · -- in the body of this item
      have hbounds := hinner.seam_bounds hk
      rw [braced_append, ← List.singleton_append, ← List.append_assoc] at htokens
      obtain ⟨between, rest, hmid, hbetween, rfl, hrest⟩ := htoggle.later htokens
        (by rw [List.length_append, List.length_singleton]; omega) hbefore
      rw [List.length_append, ← Nat.add_assoc, List.length_singleton] at hbetween
      obtain ⟨more, rfl, rfl⟩ := exists_append_of_length_le hmid.symm (by omega)
      obtain ⟨inside', hinside, hmove⟩ := ihinner hk rfl hbetween hrest
      obtain ⟨items', hitems, hmove'⟩ := hmore.shift
        (start + lead.length + ((rest ++ more).length + 2) + separator.length)
      have hbranch := Listing.branch hshell hextent hinside hsep hitems
      rw [braced_append] at hbranch
      simp only [List.append_assoc, List.singleton_append] at hbranch ⊢
      exact ⟨_, hbranch, congrArg₂ List.cons (Item.move_fill_eq rfl hmove) hmove'⟩
    · -- behind this item
      rw [← List.append_assoc, ← List.append_assoc] at htokens
      obtain ⟨rfl, rfl⟩ := List.append_inj htokens (by
        simp only [List.length_append, length_braced]
        omega)
      have hplain : EndsPlain (lead ++ braced inner) := by
        refine .after ?_ (List.cons_ne_nil _ _) lead
        exact .after (endsPlain_single (by decide)) (List.cons_ne_nil _ _) (_ :: inner)
      obtain ⟨separator', hsep', rfl⟩ := htoggle.of_separator hplain hsep
      obtain ⟨items', hitems, hmove⟩ :=
        hmore.shift (start + lead.length + (inner.length + 2) + separator'.length)
      simp only [List.append_assoc]
      exact ⟨_, .branch hshell hextent hinner hsep' hitems, congrArg (_ :: ·) hmove⟩
    · -- behind a later item
      have hbounds := hmore.seam_bounds hk
      rw [← List.append_assoc, ← List.append_assoc] at htokens
      obtain ⟨between, rest, hmid, hbetween, rfl, hrest⟩ := htoggle.later htokens
        (by simp only [List.length_append, length_braced]; omega) hbefore
      simp only [List.length_append, length_braced, ← Nat.add_assoc] at hbetween
      obtain ⟨items', hitems, hmove⟩ := ih hk hmid hbetween hrest
      simp only [List.append_assoc]
      exact ⟨_, .branch hshell hextent hinner hsep hitems, congrArg (_ :: ·) hmove⟩

/-- With or without the comma before a seam, the tokens stand for the same source. -/
theorem ofSignificant_toggle {before after other : List Token} {s : Source TokenRange}
    (h : Source.ofSignificant (before ++ after) = .ok s) (hseam : before.length ∈ s.seams)
    (htoggle : TogglesComma before other) :
    ∃ t, Source.ofSignificant (other ++ after) = .ok t ∧ t.bare = s.bare := by
  obtain ⟨d, hd, hk⟩ := List.mem_flatMap.mp hseam
  obtain ⟨ds, ds', hds⟩ := List.append_of_mem hd
  obtain ⟨earlier, lead, inner, later, htokens, hheading, hextent, hlisting, hreplace⟩ :=
    Source.exists_ofSignificant_replace h hds
  have hclose : d.body.extent.last = earlier.length + lead.length + 1 + inner.length := by
    rw [hextent]
    exact Nat.add_right_comm _ _ _
  rw [hclose] at hk
  have hbounds := hlisting.seam_bounds hk
  rw [braced_append, ← List.singleton_append, ← List.append_assoc, ← List.append_assoc] at htokens
  obtain ⟨between, rest, hmid, hbetween, rfl, hrest⟩ := htoggle.later htokens.symm
    (by simp only [List.length_append, List.length_singleton]; omega)
    (Nat.zero_add before.length)
  simp only [Nat.zero_add, List.length_append, List.length_singleton] at hbetween
  obtain ⟨more, rfl, rfl⟩ := exists_append_of_length_le hmid.symm (by omega)
  obtain ⟨items', hitems, hmove⟩ :=
    hlisting.toggle hk rfl hbetween hrest
  obtain ⟨t, ht, hbare⟩ := hreplace d.body.extent rfl hheading hitems
  refine ⟨t, ?_, hbare.trans ?_⟩
  · rw [braced_append] at ht
    simpa only [List.append_assoc, List.cons_append, List.nil_append] using ht
  · simp only [Source.bare, Source.move, hds, List.map_append, List.map_cons, Declaration.move_fill,
      Body.move, hmove]
    rfl

end Parser

/-- **Commas between items are optional.** Take tokens that stand for a source, with comments and
blanks among them. Without a comma behind an item, and with one more where there was none, they
stand for the same source, but for positions. -/
theorem Source.ofTokens_comma {P : Type} {before after : List (Located P Token)}
    {comma : Located P Token} {s : Source TokenRange} (hcomma : comma.val = .symbol .comma) :
    (ofTokens (Token.significant (before ++ comma :: after)) = .ok s →
      (Token.significant before).length + 1 ∈ s.seams →
      ∃ t, ofTokens (Token.significant (before ++ after)) = .ok t ∧ t.bare = s.bare) ∧
    (ofTokens (Token.significant (before ++ after)) = .ok s →
      (Token.significant before).length ∈ s.seams →
      (Token.significant before).getLast? ≠ some (.symbol .comma) →
      ∃ t, ofTokens (Token.significant (before ++ comma :: after)) = .ok t ∧ t.bare = s.bare) := by
  have hcons : Token.significant (comma :: after) = .symbol .comma :: Token.significant after := by
    obtain ⟨t, pos⟩ := comma
    obtain rfl : t = .symbol .comma := hcomma
    rfl
  rw [ofTokens_significant, ofTokens_significant, Token.significant_append,
    Token.significant_append, hcons, ← List.singleton_append, ← List.append_assoc]
  constructor
  · intro h hseam
    refine Parser.ofSignificant_toggle h ?_ (.inl rfl)
    rwa [List.length_append]
  · intro h hseam hplain
    exact Parser.ofSignificant_toggle h hseam (.inr ⟨hplain, rfl⟩)

/-! ### An example

`Card ⟨drawers ⟨width depth⟩ id⟩`, with and without a comma in the inner body. -/

namespace Layouts

def comma : Located Unit Token :=
  ⟨.symbol .comma, ()⟩

/-- From `export Desk` up to `width`. -/
def upToWidth : List (Located Unit Token) :=
  unplaced [.keyword .exportWord, .blank, .word "Desk", .newline, .word "Card", .symbol .leftBrace,
    .word "drawers", .blank, .symbol .leftBrace, .word "width"]

/-- The rest, from `depth` on. -/
def fromDepth : List (Located Unit Token) :=
  unplaced [.blank, .word "depth", .symbol .rightBrace, .newline, .word "id", .symbol .rightBrace]

theorem comma_behind_width :
    (∃ s, Source.ofTokens (Token.significant (upToWidth ++ comma :: fromDepth)) = .ok s ∧
      (Token.significant upToWidth).length + 1 ∈ s.seams ∧
      ∃ t, Source.ofTokens (Token.significant (upToWidth ++ fromDepth)) = .ok t ∧
        t.bare = s.bare) ∧
    ∃ s, Source.ofTokens (Token.significant (upToWidth ++ fromDepth)) = .ok s ∧
      (Token.significant upToWidth).length ∈ s.seams ∧
      ∃ t, Source.ofTokens (Token.significant (upToWidth ++ comma :: fromDepth)) = .ok t ∧
        t.bare = s.bare :=
  have hcomma : comma.val = .symbol .comma := rfl
  ⟨⟨_, rfl, by decide, (Source.ofTokens_comma hcomma).1 rfl (by decide)⟩,
    ⟨_, rfl, by decide, (Source.ofTokens_comma hcomma).2 rfl (by decide) (by decide)⟩⟩

end Layouts

end Projection
