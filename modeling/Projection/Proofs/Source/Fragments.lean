import Projection.Proofs.Source.Formatting
import Projection.Proofs.Source.Reading
import Projection.Proofs.Source.Writing

/-!
# Parts of items are read back

What stands in items and before declarations: names, values, types, annotations, marks and alias
patterns. Each is taken from the tokens it is written as, given that what follows cannot belong to
it. A name, for example, ends where no dot follows, and a type where no dot, no `<` and no `?` does.
-/

namespace Projection

open Token

namespace Parser

variable {rest : List Token}

/-! ### Names -/

theorem reads_moreSegments (segments : List Name) (current : Located TokenRange Name) {n : Nat}
    (hn : segments.length ≤ n) (hrest : rest.head? ≠ some (.symbol .dot)) :
    Reads (moreSegments n current) (segments.flatMap fun s => [.symbol .dot, .word s]) rest
      (·.val = segments.foldl Name.join current.val) := by
  induction segments generalizing current n with
  | nil =>
    cases n with
    | zero => exact reads_pure rfl
    | succ n =>
      refine Reads.last (reads_eat_none hrest) ?_
      rintro _ rfl
      exact reads_pure rfl
  | cons segment segments ih =>
    cases n with
    | zero => simp at hn
    | succ n =>
      refine Reads.take reads_eat ?_
      rintro _ ⟨dot, rfl⟩
      refine Reads.take reads_word ?_
      rintro w rfl
      exact ih _ (by simpa using hn)

theorem reads_qualifiedName (name : Name) (hrest : rest.head? ≠ some (.symbol .dot)) :
    Reads qualifiedName (Name.tokens name) rest (·.val = name) := by
  obtain ⟨first, more, _, htokens, hjoin⟩ := Name.tokens_eq name
  rw [htokens]
  refine Reads.take reads_word ?_
  rintro w rfl
  refine Reads.look reads_remaining ?_
  rintro _ rfl
  refine (reads_moreSegments more w ?_ hrest).mono ?_
  · simp
    omega
  · intro a ha
    rw [ha, hjoin]

/-! ### Literals -/

theorem reads_signed {α : Type} {read : Bool → Token → Option α} {t : Token} {a : α}
    (ht : t ≠ .symbol .minus) (h : read false t = some a) :
    Reads (signed read) [t] rest fun r => ∃ x, r = .inl x ∧ x.val = a := by
  refine Reads.look (reads_eat_none (by simpa using ht)) ?_
  rintro _ rfl
  refine Reads.look reads_peek ?_
  rintro _ rfl
  simp only [List.singleton_append, List.head?_cons, Option.bind_some, Option.isSome_none, h]
  exact Reads.last reads_advance fun r _ => reads_pure ⟨_, rfl, rfl⟩

theorem reads_signed_minus {α : Type} {read : Bool → Token → Option α} {t : Token} {a : α}
    (h : read true t = some a) :
    Reads (signed read) [.symbol .minus, t] rest fun r => ∃ x, r = .inl x ∧ x.val = a := by
  refine Reads.take reads_eat ?_
  rintro _ ⟨minus, rfl⟩
  refine Reads.look reads_peek ?_
  rintro _ rfl
  simp only [List.singleton_append, List.head?_cons, Option.bind_some, Option.isSome_some, h]
  exact Reads.last reads_advance fun r _ => reads_pure ⟨_, rfl, rfl⟩

/-- Whatever takes tokens for literals takes those of a literal for that literal. -/
theorem reads_signed_literal {α : Type} {read : Bool → Token → Option α} {f : Literal → α}
    (hread : ∀ negative t l, literal? negative t = some l → read negative t = some (f l))
    (l : Literal) : Reads (signed read) l.tokens rest fun r => ∃ x, r = .inl x ∧ x.val = f l := by
  cases l with
  | boolean value =>
    cases value <;> exact reads_signed (by simp) (hread _ _ _ rfl)
  | integer value =>
    rw [Literal.tokens]
    split
    · rename_i hneg
      have hvalue : -(value.natAbs : Int) = value := by omega
      have hliteral : literal? true (.integer value.natAbs) = some (.integer value) :=
        congrArg (some ∘ Literal.integer) hvalue
      exact reads_signed_minus (hread _ _ _ hliteral)
    · rename_i hneg
      have hvalue : (value.natAbs : Int) = value := by omega
      have hliteral : literal? false (.integer value.natAbs) = some (.integer value) :=
        congrArg (some ∘ Literal.integer) hvalue
      exact reads_signed (by simp) (hread _ _ _ hliteral)
  | decimal value => exact reads_signed (by simp) (hread _ _ _ rfl)
  | quoted value => exact reads_signed (by simp) (hread _ _ _ rfl)

theorem reads_defaultValue (d : Default) : Reads defaultValue d.tokens rest (·.val = d) := by
  have hread : Reads (signed default?) d.tokens rest fun r => ∃ x, r = .inl x ∧ x.val = d := by
    cases d with
    | null => exact reads_signed (by simp) rfl
    | literal l =>
      refine reads_signed_literal ?_ l
      intro negative t l hl
      have ht : t ≠ .word "null" := by
        rintro rfl
        cases negative <;> cases hl
      simp [default?, ht, hl]
  refine hread.last ?_
  rintro _ ⟨x, rfl, hx⟩
  exact reads_pure hx

/-! ### Values -/

theorem reads_constant {name : Name} {n : Nat}
    (hname : (Value.constant name).isWritable = true)
    (hrest : rest.head? ≠ some (.symbol .dot)) :
    Reads (value (n + 1)) (Name.tokens name) rest (·.val = .constant name) := by
  obtain ⟨first, more, hsegments, htokens, _⟩ := Name.tokens_eq name
  -- Only a first segment that is a truth value would be taken for a literal.
  have hfirst : first ≠ "true" ∧ first ≠ "false" := by
    rw [Value.isWritable, Bool.and_eq_true, hsegments] at hname
    simpa using hname.2
  have hliteral : literal? false (.word first) = none := by
    unfold literal?
    split <;> simp_all
  have hqualified := reads_qualifiedName name hrest
  rw [htokens] at hqualified ⊢
  refine Reads.look (reads_eat_none (by simp)) ?_
  rintro _ rfl
  have hsigned : Reads (signed literal?) [] (Token.word first :: more.flatMap
      (fun s => [Token.symbol .dot, .word s]) ++ rest) (· = .inr false) := by
    refine Reads.look (reads_eat_none (by simp)) ?_
    rintro _ rfl
    refine Reads.look reads_peek ?_
    rintro _ rfl
    simp only [List.nil_append, List.cons_append, List.head?_cons, Option.bind_some,
      Option.isSome_none, hliteral]
    exact reads_pure rfl
  refine Reads.look hsigned ?_
  rintro _ rfl
  refine Reads.last (reads_attempt hqualified) ?_
  rintro _ ⟨x, rfl, rfl⟩
  exact reads_pure rfl

-- The induction is on the value. A loop starts with a bound of all the tokens that are left, and
-- each round takes one at least, so the bound is never reached.
mutual

theorem reads_value : ∀ (v : Value) {n : Nat} {rest : List Token}, v.isWritable = true →
    v.tokens.length ≤ n → rest.head? ≠ some (.symbol .dot) →
    Reads (value n) v.tokens rest (·.val = v)
  | v, 0, rest, _, hn, _ => by
    obtain ⟨t, ts, htokens, _⟩ := Value.tokens_head v
    simp [htokens] at hn
  | .literal l, n + 1, rest, h, hn, hrest => by
    obtain ⟨t, ts, htokens, ht, _⟩ := Literal.tokens_head l
    rw [Value.tokens]
    refine Reads.look (reads_eat_none (by simpa [htokens] using ht)) ?_
    rintro _ rfl
    refine Reads.last (reads_signed_literal (fun _ _ _ h => h) l) ?_
    rintro _ ⟨x, rfl, hx⟩
    exact reads_pure (congrArg Value.literal hx)
  | .constant name, n + 1, rest, h, hn, hrest => reads_constant h hrest
  | .list values, n + 1, rest, h, hn, hrest => by
    rw [Value.tokens] at hn ⊢
    refine Reads.take reads_eat ?_
    rintro _ ⟨opening, rfl⟩
    rw [Value.isWritable] at h
    refine Reads.last (reads_listRest values h ?_ ?_) ?_
    · simpa using hn
    · simpa using hn
    · rintro ⟨vs, close⟩ rfl
      exact reads_pure rfl
termination_by structural v => v

theorem reads_listRest : ∀ (values : List Value) {m n : Nat} {rest : List Token},
    Value.allWritable values = true → (separated (Value.rows values)).length + 1 ≤ m →
    (separated (Value.rows values)).length + 1 ≤ n →
    Reads (listRest (value m) n)
      (separated (Value.rows values) ++ [Token.symbol .rightBracket]) rest (·.1 = values)
  | _, m, 0, rest, _, _, hn => by simp at hn
  | [], m, n + 1, rest, _, _, _ => by
    refine Reads.last reads_eat ?_
    rintro _ ⟨close, rfl⟩
    exact reads_pure rfl
  | [v], m, n + 1, rest, h, hm, hn => by
    rw [Value.allWritable, Bool.and_eq_true] at h
    rw [Value.rows, Value.rows, separated_singleton] at hm hn ⊢
    obtain ⟨t, ts, htokens, ht⟩ := Value.tokens_head v
    refine Reads.look (reads_eat_none (by simpa [htokens] using ht)) ?_
    rintro _ rfl
    refine Reads.bind (reads_value v h.1 (by omega) (by simp)) ?_
    rintro first rfl
    refine Reads.look (reads_eat_none (by simp)) ?_
    rintro _ rfl
    exact Reads.last reads_expect fun close _ => reads_pure rfl
  | v :: w :: values, m, n + 1, rest, h, hm, hn => by
    rw [Value.allWritable, Bool.and_eq_true] at h
    have hrows : separated (Value.rows (v :: w :: values)) =
        v.tokens ++ Token.symbol .comma :: separated (Value.rows (w :: values)) := by
      rw [Value.rows, Value.rows, separated_cons_cons]
    rw [hrows] at hm hn ⊢
    rw [List.length_append, List.length_cons] at hm hn
    obtain ⟨t, ts, htokens, ht⟩ := Value.tokens_head v
    rw [List.append_assoc, List.cons_append]
    refine Reads.look (reads_eat_none (by simpa [htokens] using ht)) ?_
    rintro _ rfl
    refine Reads.bind (reads_value v h.1 (by omega) (by simp)) ?_
    rintro first rfl
    refine Reads.take reads_eat ?_
    rintro _ ⟨comma, rfl⟩
    refine Reads.last (reads_listRest (w :: values) h.2 (by omega) (by omega)) ?_
    rintro ⟨more, close⟩ rfl
    exact reads_pure rfl
termination_by structural values => values

end

/-! ### Types -/

theorem reads_mark {name : Name} {pos : TokenRange} {arguments : List TypeRef} {nullable : Bool}
    (hrest : rest.head? ≠ some (.symbol .question)) :
    Reads (type.mark name pos arguments) (if nullable then [.symbol .question] else []) rest
      (·.val = ⟨name, arguments, nullable⟩) := by
  cases nullable with
  | true =>
    refine Reads.last reads_eat ?_
    rintro _ ⟨question, rfl⟩
    exact reads_pure rfl
  | false =>
    refine Reads.last (reads_eat_none hrest) ?_
    rintro _ rfl
    exact reads_pure rfl

/-- What cannot follow a type. -/
structure EndsType (rest : List Token) : Prop where
  dot : rest.head? ≠ some (.symbol .dot)
  less : rest.head? ≠ some (.symbol .less)
  question : rest.head? ≠ some (.symbol .question)

mutual

theorem reads_type : ∀ (type : TypeRef) {n : Nat} {rest : List Token},
    type.tokens.length ≤ n → EndsType rest → Reads (Parser.type n) type.tokens rest (·.val = type)
  | type, 0, rest, hn, _ => by
    obtain ⟨name, ts, htokens⟩ := TypeRef.tokens_head type
    simp [htokens] at hn
  | ⟨name, [], nullable⟩, n + 1, rest, hn, hrest => by
    rw [TypeRef.tokens, List.isEmpty_nil, if_pos rfl, List.nil_append]
    have hmark : ((if nullable then [Token.symbol .question] else []) ++ rest).head? ≠
        some (.symbol .dot) := by
      cases nullable
      · exact hrest.dot
      · simp
    refine Reads.bind (reads_qualifiedName name hmark) ?_
    rintro x rfl
    have hless : ((if nullable then [Token.symbol .question] else []) ++ rest).head? ≠
        some (.symbol .less) := by
      cases nullable
      · exact hrest.less
      · simp
    refine Reads.look (reads_eat_none hless) ?_
    rintro _ rfl
    exact reads_mark hrest.question
  | ⟨name, argument :: arguments, nullable⟩, n + 1, rest, hn, hrest => by
    rw [TypeRef.tokens, List.isEmpty_cons, if_neg (by simp), List.cons_append,
      List.append_assoc] at hn ⊢
    refine Reads.bind (reads_qualifiedName name (by simp)) ?_
    rintro x rfl
    refine Reads.take reads_eat ?_
    rintro _ ⟨opening, rfl⟩
    simp only [List.length_append, List.length_cons] at hn
    refine Reads.bind (reads_typesBy (argument :: arguments) (by simp) (by omega) (by omega)
      (by simp)) ?_
    rintro types rfl
    refine Reads.take reads_expect ?_
    intro close _
    exact reads_mark hrest.question
termination_by structural type => type

theorem reads_typesBy : ∀ (types : List TypeRef) {m n : Nat} {rest : List Token}, types ≠ [] →
    (separated (TypeRef.rows types)).length ≤ m → (separated (TypeRef.rows types)).length < n →
    rest.head? = some (.symbol .greater) →
    Reads (typesBy (Parser.type m) n) (separated (TypeRef.rows types)) rest (· = types)
  | [], m, n, rest, hne, _, _, _ => absurd rfl hne
  | types, m, 0, rest, _, _, hn, _ => by omega
  | [first], m, n + 1, rest, _, hm, hn, hrest => by
    rw [TypeRef.rows, TypeRef.rows, separated_singleton] at hm ⊢
    refine Reads.last (reads_type first hm ⟨?_, ?_, ?_⟩) ?_
    · simp [hrest]
    · simp [hrest]
    · simp [hrest]
    · rintro x rfl
      refine Reads.look (reads_eat_none (by simp [hrest])) ?_
      rintro _ rfl
      exact reads_pure rfl
  | first :: next :: types, m, n + 1, rest, _, hm, hn, hrest => by
    have hrows : separated (TypeRef.rows (first :: next :: types)) =
        first.tokens ++ Token.symbol .comma :: separated (TypeRef.rows (next :: types)) := by
      rw [TypeRef.rows, TypeRef.rows, separated_cons_cons]
    rw [hrows] at hm hn ⊢
    rw [List.length_append, List.length_cons] at hm hn
    refine Reads.bind (reads_type first (by omega) ⟨by simp, by simp, by simp⟩) ?_
    rintro x rfl
    refine Reads.take reads_eat ?_
    rintro _ ⟨comma, rfl⟩
    refine Reads.last (reads_typesBy (next :: types) (by simp) (by omega) (by omega) hrest) ?_
    rintro more rfl
    exact reads_pure rfl
termination_by structural types => types

end

/-! ### Annotations -/

theorem move_nowhere_eq {P Q α : Type} {x : Located P α} {y : Located Q α} (h : x.val = y.val) :
    x.move nowhere = y.move nowhere := by
  rw [Located.move, Located.move, h]

variable {P : Type}

/-- An argument of an annotation without its positions. -/
def bareArgument (a : Located P Name × Located P Value) :
    Located Unit Name × Located Unit Value :=
  (a.1.move nowhere, a.2.move nowhere)

theorem reads_argument (a : Located P Name × Located P Value) (ha : a.2.val.isWritable = true)
    (hrest : rest.head? ≠ some (.symbol .dot)) :
    Reads argument (TagItem.argumentTokens a) rest (bareArgument · = bareArgument a) := by
  refine Reads.look reads_peekSecond ?_
  rintro _ rfl
  rw [if_pos (by simp [TagItem.argumentTokens])]
  refine Reads.take reads_word? ?_
  rintro _ ⟨r, rfl⟩
  refine Reads.take reads_advance ?_
  intro _ _
  refine Reads.look reads_remaining ?_
  rintro _ rfl
  refine Reads.last (reads_value a.2.val ha (by simp) hrest) ?_
  intro x hx
  exact reads_pure (Prod.ext rfl (move_nowhere_eq hx))

theorem reads_arguments (a : Located P Name × Located P Value)
    (as : List (Located P Name × Located P Value)) {n : Nat}
    (has : ∀ b ∈ a :: as, b.2.val.isWritable = true) (hn : as.length < n)
    (hrest : rest.head? = some (.symbol .rightParen)) :
    Reads (arguments n) (separated ((a :: as).map TagItem.argumentTokens)) rest
      (·.map bareArgument = (a :: as).map bareArgument) := by
  induction as generalizing a n with
  | nil =>
    cases n with
    | zero => simp at hn
    | succ n =>
      rw [List.map_singleton, separated_singleton]
      refine Reads.last (reads_argument a (has a List.mem_cons_self) (by simp [hrest])) ?_
      intro b hb
      refine Reads.look (reads_eat_none (by simp [hrest])) ?_
      rintro _ rfl
      exact reads_pure (by rw [List.map_singleton, hb, List.map_singleton])
  | cons next as ih =>
    cases n with
    | zero => simp at hn
    | succ n =>
      rw [List.map_cons, List.map_cons, separated_cons_cons]
      refine Reads.bind (reads_argument a (has a List.mem_cons_self) (by simp)) ?_
      intro b hb
      refine Reads.take reads_eat ?_
      rintro _ ⟨comma, rfl⟩
      have hmore := ih next (fun b hb => has b (List.mem_cons_of_mem a hb)) (n := n)
        (by simpa using hn)
      refine Reads.last hmore ?_
      intro more hmore
      exact reads_pure (by rw [List.map_cons, hb, hmore, ← List.map_cons])

/-- What cannot follow an annotation. -/
structure EndsTag (rest : List Token) : Prop where
  dot : rest.head? ≠ some (.symbol .dot)
  leftParen : rest.head? ≠ some (.symbol .leftParen)

theorem reads_tag (a : TagItem P) (ha : a.isWritable = true) (hrest : EndsTag rest) :
    Reads tag a.tokens rest (·.move nowhere = a.move nowhere) := by
  obtain ⟨name, arguments⟩ := a
  refine Reads.take reads_expect ?_
  intro _ _
  cases arguments with
  | nil =>
    rw [List.isEmpty_nil, if_pos rfl]
    refine Reads.bind (reads_qualifiedName name.val hrest.dot) ?_
    intro x hx
    refine Reads.last (reads_eat_none hrest.leftParen) ?_
    rintro _ rfl
    refine reads_pure ?_
    rw [TagItem.move, TagItem.move, move_nowhere_eq hx]
    rfl
  | cons first arguments =>
    rw [List.isEmpty_cons, if_neg (by simp)]
    refine Reads.bind (reads_qualifiedName name.val (by simp)) ?_
    intro x hx
    refine Reads.take reads_eat ?_
    rintro _ ⟨opening, rfl⟩
    rw [TagItem.isWritable, Bool.and_eq_true, List.all_eq_true] at ha
    have hvalues : ∀ b ∈ first :: arguments, b.2.val.isWritable = true := by
      intro b hb
      have hargument := ha.2 b hb
      rw [Bool.and_eq_true] at hargument
      exact hargument.2
    obtain ⟨more, hmore⟩ := separated_head (.word first.1.val)
      (.symbol .equals :: first.2.val.tokens) (arguments.map TagItem.argumentTokens)
    rw [List.map_cons]
    refine Reads.look (reads_eat_none (by simp [TagItem.argumentTokens, hmore])) ?_
    rintro _ rfl
    refine Reads.look reads_remaining ?_
    rintro _ rfl
    refine Reads.bind (reads_arguments first arguments hvalues ?_ (by simp)) ?_
    · have hlength := length_le_separated ((first :: arguments).map TagItem.argumentTokens)
      rw [List.length_map, List.length_cons] at hlength
      simp only [List.length_append, List.length_cons, List.map_cons] at hlength ⊢
      omega
    · intro read hread
      refine Reads.last reads_expect ?_
      intro _ _
      refine reads_pure ?_
      rw [TagItem.move, TagItem.move, move_nowhere_eq hx]
      exact congrArg (TagItem.mk _) hread

/-- What cannot follow a row of annotations. -/
structure EndsTags (rest : List Token) : Prop extends EndsTag rest where
  atSign : rest.head? ≠ some (.symbol .atSign)

theorem reads_tags_none {n : Nat} (hrest : rest.head? ≠ some (.symbol .atSign)) :
    Reads (tags n) [] rest (· = []) := by
  cases n with
  | zero => exact reads_pure rfl
  | succ n =>
    refine Reads.look reads_sees ?_
    rintro _ rfl
    rw [if_neg (by simpa using hrest)]
    exact reads_pure rfl

theorem reads_tags (as : List (TagItem P)) {n : Nat} (has : as.all TagItem.isWritable = true)
    (hn : as.length ≤ n) (hrest : EndsTags rest) :
    Reads (tags n) (as.flatMap TagItem.tokens) rest
      (·.map (·.move nowhere) = as.map (·.move nowhere)) := by
  induction as generalizing n with
  | nil =>
    refine (reads_tags_none hrest.atSign).mono ?_
    rintro _ rfl
    rfl
  | cons a as ih =>
    cases n with
    | zero => simp at hn
    | succ n =>
      rw [List.all_cons, Bool.and_eq_true] at has
      rw [List.flatMap_cons]
      have hnext : EndsTag (as.flatMap TagItem.tokens ++ rest) := by
        cases as with
        | nil => exact hrest.toEndsTag
        | cons next as => exact ⟨by simp [TagItem.tokens], by simp [TagItem.tokens]⟩
      refine Reads.look reads_sees ?_
      rintro _ rfl
      rw [if_pos (by simp [TagItem.tokens])]
      refine Reads.bind (reads_tag a has.1 hnext) ?_
      intro x hx
      refine Reads.last (ih has.2 (by simpa using hn)) ?_
      intro xs hxs
      exact reads_pure (by rw [List.map_cons, hx, hxs, List.map_cons])

/-! ### Marks and aliases -/

theorem reads_nullability (mark : Option (Located P Nullability))
    (hquestion : rest.head? ≠ some (.symbol .question))
    (hbang : rest.head? ≠ some (.symbol .bang)) :
    Reads nullability (Nullability.tokens mark) rest
      (·.map (·.move nowhere) = mark.map (·.move nowhere)) := by
  cases mark with
  | none =>
    refine Reads.look (reads_eat_none hquestion) ?_
    rintro _ rfl
    refine Reads.last (reads_eat_none hbang) ?_
    rintro _ rfl
    exact reads_pure rfl
  | some mark =>
    obtain ⟨mark, pos⟩ := mark
    cases mark with
    | nullable =>
      refine Reads.last reads_eat ?_
      rintro _ ⟨r, rfl⟩
      exact reads_pure rfl
    | nonNull =>
      refine Reads.look (reads_eat_none (by simp [Nullability.tokens, Nullability.symbol])) ?_
      rintro _ rfl
      refine Reads.last reads_eat ?_
      rintro _ ⟨r, rfl⟩
      exact reads_pure rfl

theorem reads_newName (newName : Option (Located P Name))
    (has : rest.head? ≠ some (.keyword .asWord)) :
    Reads Parser.newName (Name.aliasTokens newName) rest
      (·.map (·.move nowhere) = newName.map (·.move nowhere)) := by
  refine Reads.look reads_peek ?_
  rintro _ rfl
  refine Reads.look reads_peekSecond ?_
  rintro _ rfl
  cases newName with
  | none =>
    rw [if_neg (by simpa [Name.aliasTokens] using fun h => absurd h has)]
    exact reads_pure rfl
  | some name =>
    rw [if_pos (by simp [Name.aliasTokens])]
    refine Reads.take reads_advance ?_
    intro _ _
    refine Reads.last reads_word ?_
    intro w hw
    exact reads_pure (congrArg some (move_nowhere_eq hw))

/-- What cannot follow a mark with an alias. -/
structure EndsAlias (rest : List Token) : Prop where
  question : rest.head? ≠ some (.symbol .question)
  bang : rest.head? ≠ some (.symbol .bang)
  asWord : rest.head? ≠ some (.keyword .asWord)

theorem reads_markedAlias (mark : Option (Located P Nullability))
    (newName : Option (Located P Name)) (hrest : EndsAlias rest) :
    Reads markedAlias (Nullability.tokens mark ++ Name.aliasTokens newName) rest fun r =>
      r.1.map (·.move nowhere) = mark.map (·.move nowhere) ∧
        r.2.map (·.move nowhere) = newName.map (·.move nowhere) := by
  have hquestion : (Name.aliasTokens newName ++ rest).head? ≠ some (.symbol .question) := by
    cases newName with
    | none => exact hrest.question
    | some name => simp [Name.aliasTokens]
  have hbang : (Name.aliasTokens newName ++ rest).head? ≠ some (.symbol .bang) := by
    cases newName with
    | none => exact hrest.bang
    | some name => simp [Name.aliasTokens]
  refine Reads.bind (reads_nullability mark hquestion hbang) ?_
  intro before hbefore
  refine Reads.last (reads_newName newName hrest.asWord) ?_
  intro name hname
  cases before with
  | some before => exact reads_pure ⟨hbefore, hname⟩
  | none =>
    -- The mark might also stand after the alias, but none does.
    have hnone :=
      reads_nullability (none : Option (Located P Nullability)) hrest.question hrest.bang
    refine Reads.last hnone ?_
    intro after hafter
    exact reads_pure ⟨hafter.trans hbefore, hname⟩

/-! ### User-defined properties -/

theorem reads_userItem (item : UserItem P) {tags : List (TagItem TokenRange)}
    {name : Located TokenRange Name}
    (htags : tags.map (·.move nowhere) = item.tags.map (·.move nowhere))
    (hname : name.val = item.name.val) (hrest : EndsType rest)
    (hequals : rest.head? ≠ some (.symbol .equals)) :
    Reads (userItem tags name) item.typeTokens rest
      (·.move nowhere = Item.move nowhere (.user item)) := by
  obtain ⟨tags', name', type', default'⟩ := item
  refine Reads.take reads_expect ?_
  intro _ _
  refine Reads.look reads_remaining ?_
  rintro _ rfl
  cases default' with
  | none =>
    refine Reads.bind (reads_type type'.val (by simp) hrest) ?_
    intro type htype
    refine Reads.last (reads_eat_none hequals) ?_
    rintro _ rfl
    refine reads_pure ?_
    simp only [Item.move, UserItem.move, htags, move_nowhere_eq hname, move_nowhere_eq htype]
    rfl
  | some value =>
    refine Reads.bind (reads_type type'.val (by simp) ⟨by simp, by simp, by simp⟩) ?_
    intro type htype
    refine Reads.take reads_eat ?_
    rintro _ ⟨equals, rfl⟩
    refine Reads.last (reads_defaultValue value.val) ?_
    intro read hread
    refine reads_pure ?_
    simp only [Item.move, UserItem.move, htags, move_nowhere_eq hname, move_nowhere_eq htype,
      Option.map_some, move_nowhere_eq hread]

theorem reads_parenthesized {name : Name} :
    Reads parenthesized [.symbol .leftParen, .word name, .symbol .rightParen] rest
      (·.val = name) := by
  refine Reads.take reads_expect ?_
  intro _ _
  refine Reads.take reads_word ?_
  intro w hw
  exact Reads.last reads_expect fun _ _ => reads_pure hw

/-! ### Alias patterns -/

theorem withoutTail?_append (tail cs : List Char) :
    AliasPattern.withoutTail? tail (cs ++ tail) = some cs := by
  simp [AliasPattern.withoutTail?, AliasPattern.withoutLead?]

theorem withoutTail?_eq_none {c : Char} {cs : List Char} (h : cs.getLast? ≠ some c) :
    AliasPattern.withoutTail? [c] cs = none := by
  rw [← List.head?_reverse] at h
  cases hcs : cs.reverse with
  | nil => simp [AliasPattern.withoutTail?, AliasPattern.withoutLead?, hcs]
  | cons d ds =>
    have hd : c ≠ d := by
      rintro rfl
      exact h (by rw [hcs, List.head?_cons])
    simp [AliasPattern.withoutTail?, AliasPattern.withoutLead?, hcs, hd]

theorem reads_optionalWord (name : String) (hrest : ∀ name, rest.head? ≠ some (.word name)) :
    Reads word? (AliasPattern.wordTokens name) rest fun w => (w.map (·.val)).getD "" = name := by
  unfold AliasPattern.wordTokens
  split
  · rename_i hempty
    refine (reads_word?_none hrest).mono ?_
    rintro _ rfl
    simpa using hempty.symm
  · refine reads_word?.mono ?_
    rintro _ ⟨r, rfl⟩
    rfl

theorem reads_patternText (p : AliasPattern)
    (hp : (p.atEnd || p.sought.toList.getLast? != some '$') = true)
    (hrest : ∀ name, rest.head? ≠ some (.word name)) :
    Reads patternText (AliasPattern.wordTokens p.written) rest (· = (p.sought, p.atEnd)) := by
  obtain ⟨atStart, atEnd, sought, replacement⟩ := p
  cases atEnd with
  | true =>
    have htail : AliasPattern.withoutTail? ['$'] (sought ++ "$").toList = some sought.toList := by
      rw [String.toList_append]
      exact withoutTail?_append _ _
    have hword : AliasPattern.wordTokens (sought ++ "$") = [Token.word (sought ++ "$")] := by
      simp [AliasPattern.wordTokens]
    rw [AliasPattern.written, if_pos rfl, hword]
    refine Reads.last reads_word? ?_
    rintro _ ⟨r, rfl⟩
    simp only [htail, String.ofList_toList]
    exact reads_pure rfl
  | false =>
    have htail : AliasPattern.withoutTail? ['$'] sought.toList = none :=
      withoutTail?_eq_none (by simpa using hp)
    rw [AliasPattern.written, if_neg (by simp), AliasPattern.wordTokens]
    split
    · rename_i hempty
      obtain rfl : sought = "" := by simpa using hempty
      refine Reads.last (reads_word?_none hrest) ?_
      rintro _ rfl
      exact reads_pure rfl
    · refine Reads.last reads_word? ?_
      rintro _ ⟨r, rfl⟩
      simp only [htail]
      exact reads_pure rfl

/-- The pattern can be told from another by its text. -/
structure Told (p : AliasPattern) : Prop where
  sought : (p.sought.isEmpty && p.atStart == p.atEnd) = false
  replacement : (p.replacement.isEmpty && (p.sought.isEmpty || p.atStart == p.atEnd)) = false
  dollar : (p.atEnd || p.sought.toList.getLast? != some '$') = true

/-- A pattern is read after its keyword. -/
theorem reads_told (p : AliasPattern) (hp : Told p) {keyword : TokenRange} :
    Reads (pattern keyword) p.tokens.tail rest (·.val = p) := by
  obtain ⟨hsought, hreplacement, hdollar⟩ := hp
  rw [AliasPattern.tokens, List.tail_cons]
  refine Reads.take reads_expect ?_
  intro _ _
  refine Reads.bind (reads_eat_if p.atStart ?_) ?_
  · rw [List.append_assoc, List.cons_append]
    obtain ⟨more, h⟩ | h := AliasPattern.wordTokens_head p.written (.symbol .arrow) _
    · rw [h]
      simp
    · rw [h]
      simp
  intro caret hcaret
  refine Reads.bind (reads_patternText p hdollar (by simp)) ?_
  rintro _ rfl
  simp only [hcaret, hsought, Bool.false_eq_true, if_false]
  refine Reads.take reads_expect ?_
  intro _ _
  refine Reads.bind (reads_optionalWord p.replacement (by simp)) ?_
  intro w hw
  simp only [hw, hreplacement, Bool.false_eq_true, if_false]
  exact Reads.last reads_expect fun _ _ => reads_pure rfl

theorem reads_pattern (p : AliasPattern) (hp : p.isWritable = true) {keyword : TokenRange} :
    Reads (pattern keyword) p.tokens.tail rest (·.val = p) := by
  simp only [AliasPattern.isWritable, Bool.and_eq_true, Bool.not_eq_true'] at hp
  obtain ⟨⟨⟨_, hsought⟩, hreplacement⟩, hdollar⟩ := hp
  exact reads_told p ⟨hsought, hreplacement, hdollar⟩

end Parser

end Projection
