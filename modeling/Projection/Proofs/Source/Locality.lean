import Projection.Proofs.Source.Lookahead

/-!
# Parsers read alike everywhere

Every parser of names, values, types, items and bodies does the same wherever the same tokens are
ahead with a rest that looks alike (`Parser.Mirrors`). The proofs follow the text of the parsers.

An item has no end of its own: it goes on with a mark, an alias, a default or a body. Its parser has
to see no more of the rest than whether it does (`Lookahead.TellsEnd`).
-/

namespace Projection

namespace Parser

variable {L : Lookahead} {n m : Nat}

/-! ### Names, marks and aliases -/

theorem mirrors_moreSegments (hL : L.Tells (.symbol .dot)) {name name' : Located TokenRange Name}
    (h : name.move nowhere = name'.move nowhere) :
    Mirrors L n m (moreSegments n name) (moreSegments m name') (Located.move nowhere) := by
  induction n generalizing m name name' with
  | zero =>
    refine mirrors_end (fun d hd => ?_) h
    cases m with
    | zero => rfl
    | succ m =>
      have hdot : d.ahead.head? ≠ some (.symbol .dot) := fun hdot => by
        cases (hL _ _ hd).mpr hdot
      exact bind_eq_of_eq_ok (eat_of_not_head hdot)
  | succ n ih =>
    have hjoin : ∀ w w' : Located TokenRange Name, w.move nowhere = w'.move nowhere →
        Name.join name.val w.val = Name.join name'.val w'.val :=
      fun w w' hw => congrArg₂ Name.join (Located.val_eq_of_move h) (Located.val_eq_of_move hw)
    have hsucc : ∀ m, Mirrors L (n + 1) (m + 1) (moreSegments (n + 1) name)
        (moreSegments (m + 1) name') (Located.move nowhere) := fun m =>
      .eat_of_tells hL (by decide) (mirrors_pure h) fun _ _ => .word fun w w' hw =>
        .less (ih (Located.move_eq_of_val (hjoin w w' hw)))
    cases m with
    | zero => exact (hsucc 0).exhausted fun _ _ hanswer => hanswer
    | succ m => exact hsucc m

theorem mirrors_qualifiedName (hL : L.Tells (.symbol .dot)) :
    Mirrors L n m qualifiedName qualifiedName (Located.move nowhere) :=
  .word fun _ _ h => mirrors_remaining fun _ _ => mirrors_moreSegments hL h

/-- The tokens begin with an `as` that is followed by an alias. -/
def opensAlias (ahead : List Token) : Bool :=
  ahead.head? == some (.keyword .asWord) && ahead.tail.head? != some (.symbol .leftParen)

theorem opensAlias_of_alike {r s : List Token} (h : Lookahead.full.Alike r s) :
    opensAlias r = opensAlias s := by
  by_cases has : r.head? = some (.keyword .asWord)
  · rw [opensAlias, opensAlias, ← h.1, h.2 has]
  · have hbeq : (r.head? == some (.keyword .asWord)) = false := by simpa using has
    rw [opensAlias, opensAlias, ← h.1, hbeq, Bool.false_and, Bool.false_and]

end Parser

/-- The symbol goes on with the item before it. -/
def Symbol.goesOn (s : Symbol) : Bool :=
  [Symbol.star, .question, .bang, .leftBrace, .colon, .leftParen, .less, .equals, .dot].contains s

namespace Parser

/-- It is seen whether an item goes on. -/
structure Lookahead.TellsEnd (L : Lookahead) : Prop where
  symbol : ∀ s : Symbol, s.goesOn → L.Tells (.symbol s)
  opensAlias : ∀ r s, L.Alike r s → opensAlias r = opensAlias s

theorem Lookahead.full_tellsEnd : full.TellsEnd :=
  ⟨fun _ _ => full_tells _, fun _ _ => opensAlias_of_alike⟩

theorem mirrors_nullability (hL : L.TellsEnd) :
    Mirrors L n m nullability nullability (Option.map (Located.move nowhere)) :=
  .eat_of_tells (hL.symbol _ rfl) (by decide)
    (.eat_of_tells (hL.symbol _ rfl) (by decide) (mirrors_pure rfl) fun _ _ => mirrors_pure rfl)
    fun _ _ => mirrors_pure rfl

/-- An alias with its `as`, where one is there. -/
def newNameIf (opened : Bool) : Parser (Option (Located TokenRange Name)) :=
  if opened then (do let _ ← advance; return some (← word)) else return none

theorem newName_eq (c : Cursor) : newName c = newNameIf (opensAlias c.ahead) c :=
  rfl

theorem mirrors_newName (hL : L.TellsEnd) :
    Mirrors L n m newName newName (Option.map (Located.move nowhere)) := by
  intro c hc
  have hrest : MirrorsAt L m c (newNameIf (opensAlias c.ahead)) (newNameIf (opensAlias c.ahead))
      (Option.map (Located.move nowhere)) := by
    cases hopens : opensAlias c.ahead with
    | false => exact mirrors_pure rfl c hc
    | true =>
      have has := eq_of_beq (Bool.and_eq_true_iff.mp hopens).1
      obtain ⟨rest, ht⟩ := List.head?_eq_some_iff.mp has
      exact mirrorsAt_advance ht hc Token.noConfusion fun _ _ =>
        .word fun _ _ hw => mirrors_pure (congrArg some hw)
  refine mirrorsAt_look (newName_eq c) hrest fun d hd => ?_
  rw [newName_eq, hL.opensAlias _ _ hd]

theorem mirrors_markedAlias (hL : L.TellsEnd) : Mirrors L n m markedAlias markedAlias
    (Prod.map (Option.map (Located.move nowhere)) (Option.map (Located.move nowhere))) := by
  refine .bind (mirrors_nullability hL) fun before before' hbefore =>
    .bind (mirrors_newName hL) fun name name' hname => ?_
  match before, before', hbefore with
  | some mark, some mark', hbefore => exact mirrors_pure (congrArg₂ Prod.mk hbefore hname)
  | none, none, _ =>
    exact .bind (mirrors_nullability hL) fun mark mark' hmark =>
      mirrors_pure (congrArg₂ Prod.mk hmark hname)

/-! ### Values and types -/

/-- What is read after a sign, if there was one. -/
def afterSign {α : Type} (read : Bool → Token → Option α) (minus : Option TokenRange) :
    Parser (Located TokenRange α ⊕ Bool) := do
  match (← peek).bind (read minus.isSome) with
  | some a =>
    let r ← advance
    return .inl ⟨a, (minus.getD r).upTo r⟩
  | none => return .inr minus.isSome

theorem mirrors_afterSign {α : Type} {read : Bool → Token → Option α}
    (hread : ∀ minus, read minus (.symbol .semicolon) = none) {minus minus' : Option TokenRange}
    (hminus : minus.isSome = minus'.isSome) :
    Mirrors .full n m (afterSign read minus) (afterSign read minus')
      (Sum.map (Located.move nowhere) id) := by
  rw [afterSign, afterSign, ← hminus]
  refine .peek fun c hc => ?_
  cases hnext : c.ahead.head?.bind (read minus.isSome) with
  | none => exact mirrors_pure rfl c hc
  | some a =>
    obtain ⟨t, ht, ha⟩ := Option.bind_eq_some_iff.mp hnext
    obtain ⟨rest, ht⟩ := List.head?_eq_some_iff.mp ht
    refine mirrorsAt_advance ht hc ?_ fun _ _ => mirrors_pure rfl
    rintro rfl
    cases (hread _).symm.trans ha

theorem mirrors_signed {α : Type} {read : Bool → Token → Option α}
    (hread : ∀ minus, read minus (.symbol .semicolon) = none) :
    Mirrors .full n m (signed read) (signed read) (Sum.map (Located.move nowhere) id) :=
  .eat (by decide) (mirrors_afterSign hread rfl) fun _ _ => mirrors_afterSign hread rfl

/-- The count of the loop may be smaller than that of the values in it. -/
theorem mirrors_listRest {v : Parser (Located TokenRange Value)}
    {w : Nat → Parser (Located TokenRange Value)} {i j : Nat}
    (hv : ∀ m, Mirrors .full n m v (w m) (Located.move nowhere))
    (hw : ∀ m i r, w m ⟨[], i⟩ ≠ .ok r) (hi : i ≤ n) (hj : j ≤ m) :
    Mirrors .full i j (listRest v i) (listRest (w m) j) Prod.fst := by
  induction i generalizing m j with
  | zero => exact mirrors_fail
  | succ i ih =>
    have hsucc : ∀ {m j}, j + 1 ≤ m →
        Mirrors .full (i + 1) (j + 1) (listRest v (i + 1)) (listRest (w m) (j + 1)) Prod.fst := by
      intro m j hj
      refine .eat (by decide) ?_ fun _ _ => mirrors_pure rfl
      refine .bind ((hv m).mono hi hj) fun first first' hfirst => .eat (by decide) ?_ fun _ _ => ?_
      · exact .expect (by decide) fun _ _ => mirrors_pure
          (congrArg (fun value => [value]) (Located.val_eq_of_move hfirst))
      · exact .bind (ih (Nat.le_of_succ_le hi) (Nat.le_of_succ_le hj)) fun more more' hmore =>
          mirrors_pure (congrArg₂ List.cons (Located.val_eq_of_move hfirst) hmore)
    cases j with
    | zero =>
      refine (hsucc (Nat.le_refl 1)).exhausted fun i r hanswer => ?_
      rw [listRest, bind_eq_of_eq_ok (eat_nil _ i)] at hanswer
      obtain ⟨_, hvalue, _⟩ := bind_eq_ok.mp hanswer
      exact absurd hvalue (hw 1 i _)
    | succ j => exact hsucc hj

theorem value_nil (n i : Nat) (result : Located TokenRange Value × Cursor) :
    value n ⟨[], i⟩ ≠ .ok result := by
  intro h
  cases n <;> cases h

theorem mirrors_value : Mirrors .full n m (value n) (value m) (Located.move nowhere) := by
  induction n generalizing m with
  | zero => exact mirrors_fail
  | succ n ih =>
    have hsucc : ∀ m, Mirrors .full (n + 1) (m + 1) (value (n + 1)) (value (m + 1))
        (Located.move nowhere) := by
      intro m
      refine .eat (by decide) ?_ fun _ _ => ?_
      · refine .bind (mirrors_signed fun _ => rfl) fun read read' hread => ?_
        match read, read', hread with
        | .inl l, .inl l', hread =>
          exact mirrors_pure (congrArg (Located.map Value.literal) (Sum.inl.inj hread))
        | .inr true, .inr true, _ => exact mirrors_fail
        | .inr false, .inr false, _ =>
          exact .attempt (.bind (mirrors_qualifiedName (Lookahead.full_tells _))
            fun _ _ hname => mirrors_pure (congrArg (Located.map Value.constant) hname)) rfl
      · exact .bind (mirrors_listRest (fun _ => ih) value_nil (Nat.le_refl n) (Nat.le_refl m))
          fun _ _ hvalues => mirrors_pure (Located.move_eq_of_val (congrArg Value.list hvalues))
    cases m with
    | zero => exact (hsucc 0).exhausted fun i r hanswer => absurd hanswer (value_nil 1 i r)
    | succ m => exact hsucc m

theorem takes_signed {α : Type} (read : Bool → Token → Option α) :
    Takes (signed read) fun taken found => found.isLeft → taken ≠ [] := by
  refine .after (advances_eat .minus) (fun minus c found c' h => ?_)
    fun first second _ hsecond hleft => List.append_ne_nil_of_right_ne_nil _ (hsecond hleft)
  rw [bind_eq_of_eq_ok (peek_eq c)] at h
  cases hnext : c.ahead.head?.bind (read minus.isSome) with
  | none =>
    simp only [hnext] at h
    cases h
    exact ⟨0, rfl, fun hleft => by cases hleft⟩
  | some a =>
    simp only [hnext] at h
    cases h
    obtain ⟨t, ht, _⟩ := Option.bind_eq_some_iff.mp hnext
    obtain ⟨rest, ht⟩ := List.head?_eq_some_iff.mp ht
    exact ⟨1, c.skip_one.symm, fun _ => by rw [ht]; exact List.cons_ne_nil _ _⟩

theorem progresses_qualifiedName : Progresses qualifiedName :=
  .before progresses_word fun first => .seq advances_remaining fun n =>
    advances_moreSegments n first

theorem progresses_value (n : Nat) : Progresses (value n) := by
  cases n with
  | zero => exact takes_fail _
  | succ n =>
    refine (progressesIfSome_eat .leftBracket).either ?_ fun opening =>
      .seq (advances_listRest (advances_value n) n) fun rest => takes_pure trivial
    refine (takes_signed literal?).bind (R := fun read taken _ => read.isLeft = false → taken ≠ [])
      (fun read => ?_) fun first read second _ hfirst hsecond => ?_
    · match read with
      | .inl l => exact takes_pure fun h => by cases h
      | .inr true => exact takes_fail _
      | .inr false =>
        have hname := progressesIfSome_attempt progresses_qualifiedName
        exact Takes.mono (hname.either (takes_fail _) fun _ => takes_pure trivial)
          fun _ _ hne _ => hne
    · cases hread : read.isLeft with
      | false => exact List.append_ne_nil_of_right_ne_nil _ (hsecond hread)
      | true => exact List.append_ne_nil_of_left_ne_nil (hfirst hread) _

/-- An argument after its name. -/
def namedArgument (name : Located TokenRange Name) :
    Parser (Located TokenRange Name × Located TokenRange Value) := do
  let _ ← advance
  return (name, ← value (← remaining))

theorem mirrors_argument : Mirrors .full n m argument argument
    (Prod.map (Located.move nowhere) (Located.move nowhere)) := by
  have hpositional : ∀ {n m}, Mirrors .full n m argument.positional argument.positional
      (Prod.map (Located.move nowhere) (Located.move nowhere)) :=
    mirrors_remaining fun _ _ => .bind mirrors_value fun _ _ hvalue =>
      mirrors_pure (congrArg (Prod.mk (Located.mk "value" ())) hvalue)
  refine .peekSecond (fun c hc => ?_) fun second => ?_
  · split
    · rename_i hsecond
      by_cases hnext : ∃ name, c.ahead.head? = some (.word name)
      · obtain ⟨name, hname⟩ := hnext
        obtain ⟨rest, ht⟩ := List.head?_eq_some_iff.mp hname
        rw [ht, List.tail_cons] at hsecond
        obtain ⟨rest, rfl⟩ := List.head?_eq_some_iff.mp (eq_of_beq hsecond)
        have hnamed : ∀ r, MirrorsAt .full (m - 1) ⟨.symbol .equals :: rest, c.index + 1⟩
            (namedArgument ⟨name, .single c.index⟩) (namedArgument ⟨name, r⟩)
            (Prod.map (Located.move nowhere) (Located.move nowhere)) := fun r =>
          mirrorsAt_advance rfl (length_le_sub_one ht hc) (by decide) fun _ _ =>
            mirrors_remaining fun _ _ => .bind mirrors_value fun _ _ hvalue =>
              mirrors_pure (congrArg (Prod.mk (Located.mk name ())) hvalue)
        exact mirrorsAt_cons ht Token.noConfusion (bind_eq_of_eq_ok (word?_of_head ht)) hnamed
          fun d rest' hd => bind_eq_of_eq_ok (word?_of_head hd)
      · have hnot := not_exists.mp hnext
        exact mirrorsAt_look (bind_eq_of_eq_ok (word?_of_not_head hnot)) (hpositional c hc)
          fun d hd => bind_eq_of_eq_ok (word?_of_not_head (hd.1 ▸ hnot))
    · exact hpositional c hc
  · have hvalue : Progresses argument.positional :=
      .after advances_remaining fun n => .before (progresses_value n) fun v => takes_pure trivial
    split
    · exact ProgressesIfSome.either progressesIfSome_word? hvalue fun name =>
        .seq advances_advance fun r => .seq advances_remaining fun n =>
          .seq (advances_value n) fun v => takes_pure trivial
    · exact hvalue

theorem mirrors_arguments : Mirrors .full n m (arguments n) (arguments m)
    (List.map (Prod.map (Located.move nowhere) (Located.move nowhere))) := by
  induction n generalizing m with
  | zero => exact mirrors_fail
  | succ n ih =>
    have hsucc : ∀ m, Mirrors .full (n + 1) (m + 1) (arguments (n + 1)) (arguments (m + 1))
        (List.map (Prod.map (Located.move nowhere) (Located.move nowhere))) := fun m =>
      .bind mirrors_argument fun _ _ hfirst =>
        .eat (by decide) (mirrors_pure (congrArg (fun x => [x]) hfirst)) fun _ _ =>
          .bind ih fun _ _ hrest => mirrors_pure (congrArg₂ List.cons hfirst hrest)
    cases m with
    | zero =>
      refine (hsucc 0).exhausted fun i r hanswer => ?_
      cases hanswer
    | succ m => exact hsucc m

theorem mirrors_tag : Mirrors .full n m tag tag (TagItem.move nowhere) := by
  refine .expect (by decide) fun _ _ => .bind (mirrors_qualifiedName (Lookahead.full_tells _))
    fun name name' hname => ?_
  have hbare : ∀ {n m}, Mirrors .full n m (pure ⟨name, []⟩) (pure ⟨name', []⟩)
      (TagItem.move (nowhere (P := TokenRange))) :=
    mirrors_pure (congrArg (TagItem.mk · []) hname)
  refine .eat (by decide) hbare fun _ _ => .eat (by decide) ?_ fun _ _ => hbare
  exact mirrors_remaining fun _ _ => .bind mirrors_arguments fun _ _ harguments =>
    .expect (by decide) fun _ _ => mirrors_pure (congrArg₂ TagItem.mk hname harguments)

theorem progresses_tag : Progresses tag := by
  refine .before (progresses_expect .atSign _) fun r => .seq advances_qualifiedName fun name =>
    .either (advances_eat .leftParen) (takes_pure trivial) fun opening =>
      .either (advances_eat .rightParen) ?_ fun close => takes_pure trivial
  exact .seq advances_remaining fun n => .seq (advances_arguments n) fun arguments =>
    .seq (advances_expect .rightParen _) fun r => takes_pure trivial

theorem mirrors_tags : Mirrors .full n m (tags n) (tags m) (List.map (TagItem.move nowhere)) := by
  induction n generalizing m with
  | zero =>
    refine mirrors_end (fun d hd => ?_) rfl
    rw [Lookahead.eq_nil_of_full_alike hd]
    cases m <;> rfl
  | succ n ih =>
    have hsucc : ∀ m, Mirrors .full (n + 1) (m + 1) (tags (n + 1)) (tags (m + 1))
        (List.map (TagItem.move nowhere)) := by
      intro m
      refine .sees (Lookahead.full_tells _) fun seen => ?_
      cases seen with
      | false => exact mirrors_pure rfl
      | true =>
        exact .step mirrors_tag progresses_tag fun _ _ hfirst => .bind ih fun _ _ hrest =>
          mirrors_pure (congrArg₂ List.cons hfirst hrest)
    cases m with
    | zero => exact (hsucc 0).exhausted fun _ _ hanswer => hanswer
    | succ m => exact hsucc m

theorem mirrors_typesBy {t : Parser (Located TokenRange TypeRef)}
    {u : Nat → Parser (Located TokenRange TypeRef)} {i j : Nat}
    (ht : ∀ m, Mirrors .full n m t (u m) (Located.move nowhere))
    (hu : ∀ m i r, u m ⟨[], i⟩ ≠ .ok r) (hi : i ≤ n) (hj : j ≤ m) :
    Mirrors .full i j (typesBy t i) (typesBy (u m) j) id := by
  induction i generalizing m j with
  | zero => exact mirrors_fail
  | succ i ih =>
    have hsucc : ∀ {m j}, j + 1 ≤ m →
        Mirrors .full (i + 1) (j + 1) (typesBy t (i + 1)) (typesBy (u m) (j + 1)) id := by
      intro m j hj
      refine .bind ((ht m).mono hi hj) fun first first' hfirst => .eat (by decide) ?_ fun _ _ => ?_
      · exact mirrors_pure (congrArg (fun type => [type]) (Located.val_eq_of_move hfirst))
      · exact .bind (ih (Nat.le_of_succ_le hi) (Nat.le_of_succ_le hj)) fun more more' hmore =>
          mirrors_pure (congrArg₂ List.cons (Located.val_eq_of_move hfirst) hmore)
    cases j with
    | zero =>
      refine (hsucc (Nat.le_refl 1)).exhausted fun i r hanswer => ?_
      obtain ⟨_, htype, _⟩ := bind_eq_ok.mp hanswer
      exact absurd htype (hu 1 i _)
    | succ j => exact hsucc hj

theorem type_nil (n i : Nat) (result : Located TokenRange TypeRef × Cursor) :
    type n ⟨[], i⟩ ≠ .ok result := by
  intro h
  cases n <;> cases h

/-- The types inside a type are read up to a closing bracket, so only what follows them is seen of
the rest. -/
theorem mirrors_type (hL : L.TellsEnd) :
    Mirrors L n m (type n) (type m) (Located.move nowhere) := by
  have hmark : ∀ {L n m} {name name' : Name} {arguments arguments' : List TypeRef} {pos pos'},
      L.TellsEnd → name = name' → arguments = arguments' →
      Mirrors L n m (type.mark name pos arguments) (type.mark name' pos' arguments')
        (Located.move nowhere) := by
    rintro L n m name _ arguments _ pos pos' hL rfl rfl
    exact .eat_of_tells (hL.symbol _ rfl) (by decide) (mirrors_pure rfl) fun _ _ => mirrors_pure rfl
  induction n generalizing L m with
  | zero => exact mirrors_fail
  | succ n ih =>
    have hsucc : ∀ m, Mirrors L (n + 1) (m + 1) (type (n + 1)) (type (m + 1))
        (Located.move nowhere) := by
      intro m
      refine .bind (mirrors_qualifiedName (hL.symbol _ rfl)) fun name name' hname =>
        .eat_of_tells (hL.symbol _ rfl) (by decide)
          (hmark hL (Located.val_eq_of_move hname) rfl) fun _ _ => ?_
      have hinside : ∀ m, Mirrors .full n m (type n) (type m) (Located.move nowhere) :=
        fun m => ih Lookahead.full_tellsEnd
      refine .hide (mirrors_typesBy hinside type_nil (Nat.le_refl n) (Nat.le_refl m))
        (fun arguments arguments' harguments => .expect (by decide) fun _ _ =>
          hmark hL (Located.val_eq_of_move hname) harguments) fun arguments => ?_
      refine (takes_just_expect .greater _).bind (R := fun _ _ _ => True)
        (fun close => ?_) fun _ _ taken _ hfirst _ => ?_
      · exact .either (advances_eat .question) (takes_pure trivial) fun _ => takes_pure trivial
      · rw [hfirst]
        exact Lookahead.full_hides (by decide) taken
    cases m with
    | zero => exact (hsucc 0).exhausted fun i r hanswer => absurd hanswer (type_nil 1 i r)
    | succ m => exact hsucc m

/-- A default after the place for its sign. -/
def defaultRest (minus : Option TokenRange) : Parser (Located TokenRange Default) := do
  match (← peek).bind (default? minus.isSome) with
  | some d =>
    let r ← advance
    return ⟨d, (minus.getD r).upTo r⟩
  | none => fail .defaultValue

theorem defaultValue_eq : defaultValue = eat .minus >>= defaultRest := by
  rw [defaultValue, signed, bind_assoc]
  refine congrArg (eat .minus >>= ·) (funext fun minus => ?_)
  rw [bind_assoc, defaultRest]
  refine congrArg (peek >>= ·) (funext fun next => ?_)
  cases next.bind (default? minus.isSome) with
  | none => rfl
  | some d => rfl

theorem defaultRest_of_head {minus : Option TokenRange} {c : Cursor} {t : Token}
    {rest : List Token} {d : Default} (ht : c.ahead = t :: rest)
    (hd : default? minus.isSome t = some d) : defaultRest minus c =
      .ok (⟨d, (minus.getD (.single c.index)).upTo (.single c.index)⟩, ⟨rest, c.index + 1⟩) := by
  rw [defaultRest, bind_eq_of_eq_ok (peek_eq c), ht]
  simp only [List.head?_cons, Option.bind_some, hd]
  obtain ⟨ahead, index⟩ := c
  obtain rfl : ahead = t :: rest := ht
  rfl

theorem head_of_defaultRest {minus : Option TokenRange} {c c' : Cursor}
    {d : Located TokenRange Default} (h : defaultRest minus c = .ok (d, c')) :
    ∃ t rest, c.ahead = t :: rest ∧ default? minus.isSome t = some d.val ∧
      d.pos = (minus.getD (.single c.index)).upTo (.single c.index) ∧
      c' = ⟨rest, c.index + 1⟩ := by
  cases hnext : c.ahead.head?.bind (default? minus.isSome) with
  | none =>
    rw [defaultRest, bind_eq_of_eq_ok (peek_eq c)] at h
    simp only [hnext] at h
    exact absurd h (fail_ne_ok _ c _)
  | some a =>
    obtain ⟨t, ht, ha⟩ := Option.bind_eq_some_iff.mp hnext
    obtain ⟨rest, ht⟩ := List.head?_eq_some_iff.mp ht
    rw [defaultRest_of_head ht ha] at h
    cases h
    exact ⟨t, rest, ht, ha, rfl, rfl⟩

theorem progresses_defaultRest (minus : Option TokenRange) : Progresses (defaultRest minus) := by
  intro c d c' h
  obtain ⟨t, rest, ht, _, _, rfl⟩ := head_of_defaultRest h
  exact ⟨1, (Cursor.skip_one_of_cons ht).symm, by rw [ht]; exact List.cons_ne_nil _ _⟩

theorem mirrors_defaultRest {minus minus' : Option TokenRange}
    (hminus : minus.isSome = minus'.isSome) :
    Mirrors L n m (defaultRest minus) (defaultRest minus') (Located.move nowhere) := by
  intro c hc d c' h
  obtain ⟨t, rest, ht, ha, _⟩ := head_of_defaultRest h
  have hsemi : t ≠ .symbol .semicolon := by
    rintro rfl
    cases ha
  have hread : ∀ r, MirrorsAt L (m - 1) ⟨rest, c.index + 1⟩
      (pure ⟨d.val, (minus.getD (.single c.index)).upTo (.single c.index)⟩)
      (pure ⟨d.val, (minus'.getD r).upTo r⟩) (Located.move nowhere) := by
    refine fun r => mirrors_pure ?_ _ (length_le_sub_one ht hc)
    rfl
  exact mirrorsAt_cons ht hsemi (defaultRest_of_head ht ha) hread
    (fun e rest he => defaultRest_of_head he (hminus ▸ ha)) d c' h

theorem mirrors_defaultValue :
    Mirrors L n m defaultValue defaultValue (Located.move nowhere) := by
  rw [defaultValue_eq]
  exact .eat_taken (by decide) (mirrors_defaultRest rfl) (progresses_defaultRest none)
    fun _ _ => mirrors_defaultRest rfl

/-! ### Items -/

/-- A default with its sign of equality, where one is there. -/
def defaultTail : Parser (Option (Located TokenRange Default)) := do
  match ← eat .equals with
  | some _ => return some (← defaultValue)
  | none => return none

/-- The type and the default of a user-defined property. -/
def userTail : Parser (Located TokenRange TypeRef × Option (Located TokenRange Default)) := do
  let _ ← expect .colon .type
  let type ← type (← remaining)
  return (type, ← defaultTail)

theorem userItem_eq (tags : List (TagItem TokenRange)) (name : Located TokenRange Name) :
    userItem tags name = userTail >>= fun tail => pure (.user ⟨tags, name, tail.1, tail.2⟩) := by
  simp only [userItem, userTail, defaultTail, bind_assoc, pure_bind]
  refine bind_congr fun _ => bind_congr fun _ => bind_congr fun type => bind_congr fun found => ?_
  cases found with
  | none => rfl
  | some sign =>
    simp only [bind_assoc]
    rfl

theorem mirrors_defaultTail (hL : L.TellsEnd) :
    Mirrors L n m defaultTail defaultTail (Option.map (Located.move nowhere)) :=
  .eat_of_tells (hL.symbol _ rfl) (by decide) (mirrors_pure rfl) fun _ _ =>
    .bind mirrors_defaultValue fun _ _ hvalue => mirrors_pure (congrArg some hvalue)

theorem mirrors_userTail (hL : L.TellsEnd) : Mirrors L n m userTail userTail
    (Prod.map (Located.move nowhere) (Option.map (Located.move nowhere))) :=
  .expect (by decide) fun _ _ => mirrors_remaining fun _ _ => .bind (mirrors_type hL)
    fun _ _ htype => .bind (mirrors_defaultTail hL) fun _ _ hdefault =>
      mirrors_pure (congrArg₂ Prod.mk htype hdefault)

theorem mirrors_userItem (hL : L.TellsEnd) {tags tags' : List (TagItem TokenRange)}
    {name name' : Located TokenRange Name}
    (htags : tags.map (·.move nowhere) = tags'.map (·.move nowhere))
    (hname : name.move nowhere = name'.move nowhere) :
    Mirrors L n m (userItem tags name) (userItem tags' name') (Item.move nowhere) := by
  rw [userItem_eq, userItem_eq]
  refine .bind (mirrors_userTail hL) fun tail tail' htail => mirrors_pure ?_
  obtain ⟨htype, hdefault⟩ := Prod.mk.inj htail
  simp only [Item.move, UserItem.move, htags, hname, htype, hdefault]

theorem mirrors_parenthesized :
    Mirrors L n m parenthesized parenthesized (Located.move nowhere) :=
  .expect (by decide) fun _ _ => .word fun _ _ hw => .expect (by decide) fun _ _ => mirrors_pure hw

/-- A pattern after its replacement. -/
def patternEnd (keyword : TokenRange) (atStart atEnd : Bool) (sought replacement : String) :
    Parser (Located TokenRange AliasPattern) :=
  if replacement.isEmpty && (sought.isEmpty || atStart == atEnd) then
    fail .replacement
  else do
    let close ← expect .rightParen
    return ⟨⟨atStart, atEnd, sought, replacement⟩, keyword.upTo close⟩

theorem mirrors_patternEnd (keyword keyword' : TokenRange) (atStart atEnd : Bool)
    (sought replacement : String) :
    Mirrors L n m (patternEnd keyword atStart atEnd sought replacement)
      (patternEnd keyword' atStart atEnd sought replacement) (Located.move nowhere) := by
  rw [patternEnd, patternEnd]
  split
  · exact mirrors_fail
  · exact .expect (by decide) fun _ _ => mirrors_pure rfl

theorem progresses_patternEnd (keyword : TokenRange) (atStart atEnd : Bool)
    (sought replacement : String) :
    Progresses (patternEnd keyword atStart atEnd sought replacement) := by
  rw [patternEnd]
  split
  · exact takes_fail _
  · exact .before (progresses_expect .rightParen _) fun close => takes_pure trivial

/-- A pattern after the text that it looks for. -/
def patternAfter (keyword : TokenRange) (atStart : Bool) (text : String × Bool) :
    Parser (Located TokenRange AliasPattern) :=
  if text.1.isEmpty && atStart == text.2 then
    fail .patternText
  else do
    let _ ← expect .arrow
    patternEnd keyword atStart text.2 text.1 (((← word?).map (·.val)).getD "")

theorem mirrors_patternAfter (keyword keyword' : TokenRange) (atStart : Bool)
    (text : String × Bool) :
    Mirrors L n m (patternAfter keyword atStart text) (patternAfter keyword' atStart text)
      (Located.move nowhere) := by
  rw [patternAfter, patternAfter]
  split
  · exact mirrors_fail
  · refine .expect (by decide) fun _ _ => .word?_taken (mirrors_patternEnd _ _ _ _ _ "")
      (progresses_patternEnd _ _ _ _ _) fun w w' hw => ?_
    have hreplacement : ((some w).map (·.val)).getD "" = ((some w').map (·.val)).getD "" :=
      Located.val_eq_of_move hw
    rw [← hreplacement]
    exact mirrors_patternEnd _ _ _ _ _ _

theorem progresses_patternAfter (keyword : TokenRange) (atStart : Bool) (text : String × Bool) :
    Progresses (patternAfter keyword atStart text) := by
  rw [patternAfter]
  split
  · exact takes_fail _
  · exact .before (progresses_expect .arrow _) fun _ => .seq takes_word? fun replacement =>
      (progresses_patternEnd _ _ _ _ _).mono fun _ _ _ => trivial

/-- A pattern after the place for its `^`. -/
def patternRest (keyword : TokenRange) (atStart : Bool) :
    Parser (Located TokenRange AliasPattern) :=
  patternText >>= patternAfter keyword atStart

theorem mirrors_patternRest (keyword keyword' : TokenRange) (atStart : Bool) :
    Mirrors L n m (patternRest keyword atStart) (patternRest keyword' atStart)
      (Located.move nowhere) := by
  rw [patternRest, patternRest, patternText, bind_assoc, bind_assoc]
  refine .word?_taken (mirrors_patternAfter keyword keyword' atStart _)
    (progresses_patternAfter keyword atStart _) fun w w' hw => ?_
  dsimp only
  rw [← Located.val_eq_of_move hw]
  split <;> exact mirrors_patternAfter keyword keyword' atStart _

theorem progresses_patternRest (keyword : TokenRange) (atStart : Bool) :
    Progresses (patternRest keyword atStart) :=
  .after advances_patternText (progresses_patternAfter keyword atStart)

theorem mirrors_pattern (keyword keyword' : TokenRange) :
    Mirrors L n m (pattern keyword) (pattern keyword') (Located.move nowhere) :=
  .expect (by decide) fun _ _ => .eat_taken (by decide) (mirrors_patternRest keyword keyword' false)
    (progresses_patternRest keyword false) fun _ _ => mirrors_patternRest keyword keyword' true

theorem progresses_pattern (keyword : TokenRange) : Progresses (pattern keyword) :=
  .before (progresses_expect .leftParen _) fun _ => .seq (advances_eat .caret) fun caret =>
    (progresses_patternRest keyword caret.isSome).mono fun _ _ _ => trivial

/-- A plain selection after the place for its star. -/
def selectedRest (name : Located TokenRange Name) (recursive : Bool) :
    Parser (Selected TokenRange) := do
  let (nullability, newName) ← markedAlias
  return ⟨name, recursive, nullability, newName⟩

theorem mirrors_selectedRest (hL : L.TellsEnd) {name name' : Located TokenRange Name}
    (hname : name.move nowhere = name'.move nowhere) (recursive : Bool) :
    Mirrors L n m (selectedRest name recursive) (selectedRest name' recursive)
      (Selected.move nowhere) := by
  refine .bind (mirrors_markedAlias hL) fun marks marks' hmarks => mirrors_pure ?_
  obtain ⟨hmark, hnew⟩ := Prod.mk.inj hmarks
  simp only [Selected.move, hname, hmark, hnew]

theorem mirrors_selected (hL : L.TellsEnd) {name name' : Located TokenRange Name}
    (hname : name.move nowhere = name'.move nowhere) :
    Mirrors L n m (selected name) (selected name') (Selected.move nowhere) :=
  .eat_of_tells (hL.symbol _ rfl) (by decide) (mirrors_selectedRest hL hname false)
    fun _ _ => mirrors_selectedRest hL hname true

theorem mirrors_wordItem (hL : L.TellsEnd) {b b' : Parser (Body TokenRange)}
    (hb : Mirrors L n m b b' (fun body => Item.moveAll nowhere body.items))
    {name name' : Located TokenRange Name} (hname : name.move nowhere = name'.move nowhere) :
    Mirrors L n m (wordItem b name) (wordItem b' name') (Item.move nowhere) := by
  refine .sees (hL.symbol _ rfl) fun called => .sees (hL.symbol _ rfl) fun typed => ?_
  rw [← Located.val_eq_of_move hname]
  split
  · exact mirrors_userItem hL rfl hname
  · split
    · refine .bind mirrors_parenthesized fun property property' hproperty =>
        .bind (mirrors_newName hL) fun lead lead' hlead => .bind hb fun body body' hbody =>
          mirrors_pure ?_
      simp only [Item.move, hproperty, hlead, hbody]
    · split
      · refine .bind mirrors_parenthesized fun property property' hproperty =>
          .bind (mirrors_markedAlias hL) fun marks marks' hmarks => mirrors_pure ?_
        obtain ⟨hmark, hnew⟩ := Prod.mk.inj hmarks
        simp only [Item.move, hproperty, hmark, hnew]
      · refine .bind (mirrors_selected hL hname) fun head head' hhead =>
          .sees (hL.symbol _ rfl) fun opened => ?_
        split
        · refine .bind hb fun body body' hbody => mirrors_pure ?_
          simp only [Item.move, hhead, hbody]
        · exact mirrors_pure (congrArg Item.plain hhead)

/-- An item, given the next token. -/
def itemFrom (body : Parser (Body TokenRange)) : Option Token → Parser (Item TokenRange)
  | some (.symbol .atSign) => do
    let tags ← tags (← remaining)
    userItem tags (← word)
  | some (.keyword .asWord) => do
    let pattern ← pattern (← advance)
    let body ← body
    return .group pattern body.items body.extent
  | some (.symbol .hash) => do
    let hash ← advance
    let name ← word
    return .bundle ⟨name.val, hash.upTo name.pos⟩ (← nullability)
  | some (.symbol .minus) => do
    let _ ← advance
    return .negative (← word)
  | _ => do
    match ← word? with
    | some name => wordItem body name
    | none => fail .item

theorem item_eq (body : Parser (Body TokenRange)) : item body = peek >>= itemFrom body :=
  rfl

theorem progresses_itemFrom {b : Parser (Body TokenRange)} (hb : Advances b)
    (next : Option Token) : Progresses (itemFrom b next) := by
  unfold itemFrom
  split
  · exact .after advances_remaining fun n => .after (advances_tags n) fun tags =>
      .before progresses_word fun name => advances_userItem tags name
  · exact .after advances_advance fun keyword => .before (progresses_pattern keyword) fun pattern =>
      .seq hb fun body => takes_pure trivial
  · exact .after advances_advance fun hash => .before progresses_word fun name =>
      .seq advances_nullability fun mark => takes_pure trivial
  · exact .after advances_advance fun r => .before progresses_word fun name => takes_pure trivial
  · exact ProgressesIfSome.either progressesIfSome_word? (takes_fail .item) fun name =>
      advances_wordItem hb name

theorem progresses_item {b : Parser (Body TokenRange)} (hb : Advances b) :
    Progresses (item b) := by
  rw [item_eq]
  exact .after advances_peek (progresses_itemFrom hb)

theorem mirrors_item (hL : L.TellsEnd) {b b' : Parser (Body TokenRange)}
    (hb : Mirrors L n m b b' (fun body => Item.moveAll nowhere body.items))
    (hadvances : Advances b) : Mirrors L n m (item b) (item b') (Item.move nowhere) := by
  rw [item_eq, item_eq]
  refine .peek_taken (fun c hc => ?_) (progresses_itemFrom hadvances)
  unfold itemFrom
  split
  · refine mirrors_remaining (fun n m => .hide mirrors_tags (fun tags tags' htags =>
      .word fun _ _ hname => mirrors_userItem hL htags hname) fun tags => ?_) c hc
    -- the name behind the annotations keeps them from seeing the rest
    refine .bind takes_just_word (advances_userItem tags) ?_
    rintro _ name taken _ rfl _
    exact Lookahead.full_hides Token.noConfusion taken
  · rename_i has
    obtain ⟨rest, ht⟩ := List.head?_eq_some_iff.mp has
    refine mirrorsAt_advance ht hc Token.noConfusion fun _ _ =>
      .bind (mirrors_pattern _ _) fun pattern pattern' hpattern =>
        .bind hb.less fun body body' hbody => mirrors_pure ?_
    simp only [Item.move, hpattern, hbody]
  · rename_i hhash
    obtain ⟨rest, ht⟩ := List.head?_eq_some_iff.mp hhash
    exact mirrorsAt_advance ht hc (by decide) fun _ _ => .word fun name name' hname =>
      .bind (mirrors_nullability hL) fun mark mark' hmark => mirrors_pure
        (congrArg₂ Item.bundle (Located.move_eq_of_val (Located.val_eq_of_move hname)) hmark)
  · rename_i hminus
    obtain ⟨rest, ht⟩ := List.head?_eq_some_iff.mp hminus
    exact mirrorsAt_advance ht hc (by decide) fun _ _ => .word fun name name' hname =>
      mirrors_pure (congrArg Item.negative hname)
  · exact Mirrors.word?_taken mirrors_fail (takes_fail _)
      (fun name name' hname => mirrors_wordItem hL hb.less hname) c hc

/-- The items after the first one. -/
def afterItem (item : Parser (Item TokenRange)) (n : Nat) (first : Item TokenRange) :
    Parser (List (Item TokenRange) × TokenRange) := do
  let _ ← eat .comma
  let (more, close) ← itemsRest item n
  return (first :: more, close)

theorem itemsRest_of_head {i : Parser (Item TokenRange)} {c : Cursor} {rest : List Token}
    (h : c.ahead = .symbol .rightBrace :: rest) :
    itemsRest i (n + 1) c = .ok (([], .single c.index), ⟨rest, c.index + 1⟩) :=
  bind_eq_of_eq_ok (eat_of_head h)

theorem itemsRest_of_not_head {i : Parser (Item TokenRange)} {c : Cursor}
    (h : c.ahead.head? ≠ some (.symbol .rightBrace)) :
    itemsRest i (n + 1) c = (i >>= afterItem i n) c :=
  bind_eq_of_eq_ok (eat_of_not_head h)

theorem closes_afterItem {i : Parser (Item TokenRange)} (h : Closes (itemsRest i n))
    (first : Item TokenRange) : Closes (afterItem i n first) :=
  .after (advances_eat .comma) fun _ => .map h fun rest => (first :: rest.1, rest.2)

theorem closes_itemsRest {i : Parser (Item TokenRange)} (hi : Advances i) (n : Nat) :
    Closes (itemsRest i n) := by
  induction n with
  | zero => exact takes_fail .item
  | succ n ih =>
    intro c result c' h
    by_cases hnext : c.ahead.head? = some (.symbol .rightBrace)
    · obtain ⟨rest, ht⟩ := List.head?_eq_some_iff.mp hnext
      rw [itemsRest_of_head ht] at h
      cases h
      exact ⟨1, (Cursor.skip_one_of_cons ht).symm, by rw [ht]; rfl⟩
    · rw [itemsRest_of_not_head hnext] at h
      exact Closes.after hi (closes_afterItem ih) c result c' h

theorem mirrors_itemsRest {b : Parser (Body TokenRange)} {e : Nat → Parser (Body TokenRange)}
    {i j : Nat} (hb : ∀ m, Mirrors .nothing n m b (e m) fun body => Item.moveAll nowhere body.items)
    (hbody : Advances b) (hi : i ≤ n) (hj : j ≤ m) :
    Mirrors .nothing i j (itemsRest (item b) i) (itemsRest (item (e m)) j)
      fun rest => Item.moveAll nowhere rest.1 := by
  have hadvances : Advances (item b) := (progresses_item hbody).mono fun _ _ _ => trivial
  induction i generalizing m j with
  | zero => exact mirrors_fail
  | succ i ih =>
    have hclosed := closes_afterItem (closes_itemsRest hadvances i)
    have hmore : ∀ {m j}, j + 1 ≤ m → Mirrors .nothing (i + 1) (j + 1)
        (item b >>= afterItem (item b) i) (item (e m) >>= afterItem (item (e m)) j)
        fun rest => Item.moveAll nowhere rest.1 := by
      intro m j hj
      refine .close 1 (mirrors_item Lookahead.full_tellsEnd ((hb m).mono hi hj).of_nothing hbody)
        ((progresses_item hbody).mono fun _ _ hne => List.length_pos_iff.mpr hne)
        (fun first first' hfirst => ?_) hclosed Closed.full_alike
      refine .close 0 (mirrors_eat (by decide))
        ((advances_eat .comma).mono fun _ _ _ => Nat.zero_le _) (fun _ _ _ => ?_)
        (fun _ => .map (closes_itemsRest hadvances i) _) Closed.full_alike
      exact .bind (ih (Nat.le_of_succ_le hi) (Nat.le_of_succ_le hj)) fun _ _ hrest =>
        mirrors_pure (congrArg₂ List.cons hfirst hrest)
    have hsucc : ∀ {m j}, j + 1 ≤ m → Mirrors .nothing (i + 1) (j + 1) (itemsRest (item b) (i + 1))
        (itemsRest (item (e m)) (j + 1)) fun rest => Item.moveAll nowhere rest.1 := by
      intro m j hj c hc
      by_cases hnext : c.ahead.head? = some (.symbol .rightBrace)
      · obtain ⟨rest, ht⟩ := List.head?_eq_some_iff.mp hnext
        have hdone : ∀ r, MirrorsAt .nothing j ⟨rest, c.index + 1⟩
            (pure (([] : List (Item TokenRange)), TokenRange.single c.index)) (pure ([], r))
            fun rest => Item.moveAll nowhere rest.1 := by
          refine fun r => mirrors_pure ?_ _ (length_le_sub_one ht hc)
          rfl
        exact mirrorsAt_cons ht (by decide) (itemsRest_of_head ht) hdone
          fun d rest' hd => itemsRest_of_head hd
      · have hne : Progresses (item b >>= afterItem (item b) i) :=
          .before (progresses_item hbody) fun first =>
            (hclosed first).mono fun _ _ _ => trivial
        exact mirrorsAt_look_taken (itemsRest_of_not_head hnext) hne (hmore hj c hc)
          fun d hd => itemsRest_of_not_head (hd ▸ hnext)
    cases j with
    | zero =>
      refine (hsucc (Nat.le_refl 1)).exhausted fun i r hanswer => ?_
      cases hanswer
    | succ j => exact hsucc hj

theorem closes_body (n : Nat) : Closes (body n) := by
  cases n with
  | zero => exact takes_fail _
  | succ n =>
    have hitem : Advances (item (body n)) := advances_item (advances_body n)
    exact .after (advances_expect .leftBrace _) fun opening =>
      .map (closes_itemsRest hitem n) fun rest => Body.mk rest.1 (opening.upTo rest.2)

theorem mirrors_body : Mirrors .nothing n m (body n) (body m)
    fun body => Item.moveAll nowhere body.items := by
  induction n generalizing m with
  | zero => exact mirrors_fail
  | succ n ih =>
    have hsucc : ∀ m, Mirrors .nothing (n + 1) (m + 1) (body (n + 1)) (body (m + 1))
        fun body => Item.moveAll nowhere body.items := fun m =>
      .expect (by decide) fun _ _ =>
        .bind (mirrors_itemsRest (fun _ => ih) (advances_body n) (Nat.le_refl n)
          (Nat.le_refl m)) fun _ _ hitems => mirrors_pure hitems
    cases m with
    | zero =>
      refine (hsucc 0).exhausted fun i r hanswer => ?_
      cases hanswer
    | succ m => exact hsucc m

/-! ### Declarations -/

theorem mirrors_headerWords {name name' : Located TokenRange Name}
    (hname : name.move nowhere = name'.move nowhere) :
    Mirrors .full n m (headerWords n name) (headerWords m name')
      (Prod.map (List.map (Located.move nowhere)) (Located.move nowhere)) := by
  induction n generalizing m name name' with
  | zero =>
    have hend : ∀ d : Cursor, Lookahead.full.Alike [] d.ahead →
        headerWords m name' d = .ok (([], name'), d) := by
      intro d hd
      rw [Lookahead.eq_nil_of_full_alike hd]
      cases m <;> rfl
    exact mirrors_end hend (congrArg (Prod.mk []) hname)
  | succ n ih =>
    have hsucc : ∀ m, Mirrors .full (n + 1) (m + 1) (headerWords (n + 1) name)
        (headerWords (m + 1) name')
        (Prod.map (List.map (Located.move nowhere)) (Located.move nowhere)) := by
      intro m
      refine .word? (mirrors_pure (congrArg (Prod.mk []) hname)) fun next next' hnext =>
        .bind (ih hnext) fun rest rest' hrest => mirrors_pure ?_
      obtain ⟨hmore, hlast⟩ := Prod.mk.inj hrest
      exact congrArg₂ Prod.mk (congrArg₂ List.cons hname hmore) hlast
    cases m with
    | zero => exact (hsucc 0).exhausted fun _ _ hanswer => hanswer
    | succ m => exact hsucc m

theorem mirrors_modifiers {words words' : List (Located TokenRange Name)}
    (h : words.map (·.move nowhere) = words'.map (·.move nowhere)) :
    Mirrors L n m (modifiers words) (modifiers words') (List.map (Located.move nowhere)) := by
  induction words generalizing words' with
  | nil =>
    obtain rfl : words' = [] := List.map_eq_nil_iff.mp h.symm
    exact mirrors_pure rfl
  | cons w ws ih =>
    obtain ⟨w', ws', rfl, hw, hws⟩ := List.map_eq_cons_iff.mp h.symm
    rw [modifiers, modifiers, Located.val_eq_of_move hw]
    cases Modifier.ofWord? w.val with
    | none =>
      intro c _ a c' hp
      cases hp
    | some modifier =>
      exact .bind (ih hws.symm) fun _ _ hmore =>
        mirrors_pure (congrArg (List.cons (Located.mk modifier ())) hmore)

end Parser

/-- The token is a word that stands for a modifier. -/
def Token.isModifier : Token → Bool
  | .word name => (Modifier.ofWord? name).isSome
  | _ => false

/-- The token may stand among the words of a `default` statement. -/
def Token.goesOn (t : Token) : Bool :=
  t == .symbol .comma || t.isModifier

namespace Parser

/-- Whether the words of a `default` statement go on, or a body follows. -/
def Lookahead.words : Lookahead :=
  .only fun next => next.filter fun t => t.goesOn || t == .symbol .leftBrace

/-- The words of a `default` statement after the place for a comma. -/
def wordsRest (n : Nat) : Parser (List (Located TokenRange Name)) := do
  match ← peek with
  | some (.word next) =>
    if (Modifier.ofWord? next).isSome then
      let w ← word
      return w :: (← defaultWords n)
    else return []
  | _ => return []

theorem wordsRest_of_modifier {c : Cursor} {t : Token} (h : c.ahead.head? = some t)
    (ht : t.isModifier) :
    wordsRest n c = (do let w ← word; return w :: (← defaultWords n) : Parser _) c := by
  cases t with
  | word name =>
    rw [wordsRest, bind_eq_of_eq_ok (peek_eq c), h]
    exact congrFun (if_pos ht) c
  | _ => cases ht

theorem wordsRest_of_not {c : Cursor} (h : ∀ t, c.ahead.head? = some t → t.isModifier = false) :
    wordsRest n c = .ok ([], c) := by
  rw [wordsRest, bind_eq_of_eq_ok (peek_eq c)]
  cases hnext : c.ahead.head? with
  | none => rfl
  | some t =>
    cases t with
    | word name => exact congrFun (if_neg (Bool.eq_false_iff.mp (h _ hnext))) c
    | _ => rfl

theorem defaultWords_succ (n : Nat) :
    defaultWords (n + 1) = (do let _ ← eat .comma; wordsRest n) :=
  rfl

theorem Lookahead.words_tells {t : Token} (ht : t.goesOn || t == .symbol .leftBrace) :
    words.Tells t := by
  intro r s h
  have hfilter : ∀ next : Option Token, next = some t ↔
      next.filter (fun t => t.goesOn || t == .symbol .leftBrace) = some t := by
    intro next
    rw [Option.filter_eq_some_iff]
    exact ⟨fun hnext => ⟨hnext, ht⟩, fun hnext => hnext.1⟩
  rw [hfilter, hfilter s.head?]
  exact Eq.congr_left h

theorem Lookahead.words_tells_modifier {t : Token} (ht : t.isModifier) : words.Tells t :=
  words_tells (by simp [Token.goesOn, ht])

theorem mirrors_wordsRest
    (h : Mirrors .words n m (defaultWords n) (defaultWords m) (List.map (Located.move nowhere))) :
    Mirrors .words (n + 1) (m + 1) (wordsRest n) (wordsRest m)
      (List.map (Located.move nowhere)) := by
  have hword : Mirrors .words (n + 1) (m + 1)
      (do let w ← word; return w :: (← defaultWords n))
      (do let w ← word; return w :: (← defaultWords m)) (List.map (Located.move nowhere)) :=
    .word fun _ _ hw => .bind h fun _ _ hmore => mirrors_pure (congrArg₂ List.cons hw hmore)
  intro c hc
  by_cases hnext : ∃ t, c.ahead.head? = some t ∧ t.isModifier
  · obtain ⟨t, ht, hmodifier⟩ := hnext
    refine mirrorsAt_look (wordsRest_of_modifier ht hmodifier) (hword c hc) fun d hd => ?_
    exact wordsRest_of_modifier ((Lookahead.words_tells_modifier hmodifier _ _ hd).mp ht) hmodifier
  · have hnot : ∀ {d : Cursor}, Lookahead.words.Alike c.ahead d.ahead →
        ∀ t, d.ahead.head? = some t → t.isModifier = false := by
      intro d hd t ht
      refine Bool.eq_false_iff.mpr fun hmodifier => hnext ⟨t, ?_, hmodifier⟩
      exact (Lookahead.words_tells_modifier hmodifier _ _ hd).mpr ht
    refine mirrorsAt_look (wordsRest_of_not (hnot rfl)) (mirrors_pure rfl c hc) fun d hd => ?_
    exact wordsRest_of_not (hnot hd)

theorem mirrors_defaultWords :
    Mirrors .words n m (defaultWords n) (defaultWords m) (List.map (Located.move nowhere)) := by
  induction n generalizing m with
  | zero =>
    have hend : ∀ d : Cursor, Lookahead.words.Alike [] d.ahead →
        defaultWords m d = .ok ([], d) := by
      intro d hd
      have hnot : ∀ {t}, Lookahead.words.Tells t → d.ahead.head? ≠ some t := fun ht hnext => by
        cases (ht _ _ hd).mpr hnext
      cases m with
      | zero => rfl
      | succ m =>
        rw [defaultWords_succ,
          bind_eq_of_eq_ok (eat_of_not_head (hnot (Lookahead.words_tells rfl)))]
        refine wordsRest_of_not fun t ht => Bool.eq_false_iff.mpr fun hmodifier => ?_
        exact hnot (Lookahead.words_tells_modifier hmodifier) ht
    exact mirrors_end hend rfl
  | succ n ih =>
    have hsucc : ∀ m, Mirrors .words (n + 1) (m + 1) (defaultWords (n + 1)) (defaultWords (m + 1))
        (List.map (Located.move nowhere)) := fun m =>
      .eat_of_tells (Lookahead.words_tells rfl) (by decide) (mirrors_wordsRest ih)
        fun _ _ => (mirrors_wordsRest ih).less
    cases m with
    | zero => exact (hsucc 0).exhausted fun _ _ hanswer => hanswer
    | succ m => exact hsucc m

theorem takes_wordsRest (h : Takes (defaultWords n) fun taken _ => ∀ t ∈ taken, t.goesOn) :
    Takes (wordsRest n) fun taken _ => ∀ t ∈ taken, t.goesOn := by
  intro c words c' hanswer
  by_cases hnext : ∃ t, c.ahead.head? = some t ∧ t.isModifier
  · obtain ⟨t, ht, hmodifier⟩ := hnext
    rw [wordsRest_of_modifier ht hmodifier] at hanswer
    obtain ⟨⟨w, d⟩, hword, hrest⟩ := bind_eq_ok.mp hanswer
    obtain ⟨⟨more, e⟩, hmore, hpure⟩ := bind_eq_ok.mp hrest
    cases hpure
    obtain ⟨n, rfl, htaken⟩ := takes_just_word c w d hword
    obtain ⟨m, rfl, hgoes⟩ := h _ more c' hmore
    have hhead : c.ahead.head? = some (.word w.val) := by
      rw [← List.take_append_drop n c.ahead, htaken]
      rfl
    obtain rfl : .word w.val = t := Option.some.inj (hhead.symm.trans ht)
    refine ⟨n + m, c.skip_skip n m, fun t ht => ?_⟩
    rw [List.take_add, htaken] at ht
    rcases List.mem_cons.mp ht with rfl | ht
    · exact hmodifier
    · exact hgoes t ht
  · have hnot : ∀ t, c.ahead.head? = some t → t.isModifier = false := fun t ht =>
      Bool.eq_false_iff.mpr fun hmodifier => hnext ⟨t, ht, hmodifier⟩
    rw [wordsRest_of_not hnot] at hanswer
    cases hanswer
    exact ⟨0, rfl, fun t ht => by cases ht⟩

theorem goesOn_of_defaultWords (n : Nat) :
    Takes (defaultWords n) fun taken _ => ∀ t ∈ taken, t.goesOn := by
  induction n with
  | zero => exact takes_pure fun t ht => by cases ht
  | succ n ih =>
    refine (takes_eat .comma).bind (fun _ => takes_wordsRest ih) ?_
    rintro first found second _ hfirst hsecond t ht
    rcases List.mem_append.mp ht with ht | ht
    · rw [hfirst] at ht
      split at ht
      · rw [List.mem_singleton.mp ht]
        rfl
      · cases ht
    · exact hsecond t ht

end Parser

end Projection
