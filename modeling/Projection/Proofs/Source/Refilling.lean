import Projection.Proofs.Source.Annotations

/-!
# Other phrases in their places

The tokens of a phrase can be replaced by others that spell a phrase of the same kind. The parser
then reads the rest as before and the new phrase in its place.

This is shown for the shells of items and for headings, then for listings, and so for whole sources
(`Source.ofSignificant_fillable`). The default behind a type and the rest of a property behind its
annotations are cases of `Parser.Joins`.
-/

namespace Projection

namespace Parser

variable {n m start : Nat} {c c' : Cursor} {taken rest : List Token}

/-! ### User-defined properties -/

theorem word_of_head {name : Name} (h : c.ahead = .word name :: rest) :
    word c = .ok (⟨name, .single c.index⟩, ⟨rest, c.index + 1⟩) :=
  bind_eq_of_eq_ok (word?_of_head h)

theorem word_eq_ok {w : Located TokenRange Name} (h : word c = .ok (w, c')) :
    ∃ name rest, c.ahead = .word name :: rest ∧ w = ⟨name, .single c.index⟩ ∧
      c' = ⟨rest, c.index + 1⟩ := by
  obtain ⟨taken, hahead, rfl⟩ := takes_just_word.exists_append h
  obtain ⟨hw, hc'⟩ := Prod.mk.inj (Except.ok.inj (h.symm.trans (word_of_head hahead)))
  exact ⟨w.val, c'.ahead, hahead, hw, hc'⟩

theorem Reads.type_of_phrase {v : Phrase} (h : Reads (phrase .type) taken rest (·.val = v)) :
    Reads (type (taken ++ rest).length) taken rest (Phrase.type ·.val = v) := by
  intro index
  obtain ⟨w, hw, rfl⟩ := h index
  obtain ⟨t, ht, rfl⟩ := phrase_type.mp hw
  exact ⟨t, ht, rfl⟩

theorem Reads.default_of_phrase {v : Phrase} (h : Reads (phrase .default) taken rest (·.val = v)) :
    Reads defaultValue taken rest (Phrase.default ·.val = v) := by
  intro index
  obtain ⟨w, hw, rfl⟩ := h index
  obtain ⟨d, hd, rfl⟩ := phrase_default.mp hw
  exact ⟨d, hd, rfl⟩

theorem advances_defaultTail : Advances defaultTail :=
  .either (advances_eat .equals) (takes_pure trivial) fun _ =>
    .seq advances_defaultValue fun _ => takes_pure trivial

theorem advances_userTail : Advances userTail :=
  .seq (advances_expect .colon _) fun _ => .seq advances_remaining fun n => .seq (advances_type n)
    fun _ => .seq advances_defaultTail fun _ => takes_pure trivial

theorem ItemEnds.head?_ne (h : ItemEnds rest) {s : Symbol} (hs : s.goesOn) :
    rest.head? ≠ some (.symbol s) :=
  fun hhead => by cases (h.2.1 s hs).mpr hhead

theorem ItemEnds.endsType (h : ItemEnds rest) : EndsType rest :=
  ⟨h.head?_ne rfl, h.head?_ne rfl, h.head?_ne rfl⟩

/-- The type of a user-defined property, behind its colon. -/
def typed : Parser (Located TokenRange TypeRef) := do
  let _ ← expect .colon .type
  type (← remaining)

theorem userTail_eq : userTail = do return (← typed, ← defaultTail) := by
  simp only [userTail, typed, bind_assoc]

theorem advances_typed : Advances typed :=
  .seq (advances_expect .colon _) fun _ => .seq advances_remaining advances_type

theorem mirrors_typed : Mirrors .full n m typed typed (Located.move nowhere) :=
  .expect (by decide) fun _ _ => mirrors_remaining fun _ _ => mirrors_type Lookahead.full_tellsEnd

theorem typed_cases {t : Located TokenRange TypeRef} (h : typed c = .ok (t, c')) :
    ∃ ahead, c.ahead = .symbol .colon :: ahead ∧
      type ahead.length ⟨ahead, c.index + 1⟩ = .ok (t, c') := by
  obtain ⟨⟨_, d⟩, hcolon, htype⟩ := bind_eq_ok.mp h
  obtain ⟨ahead, hahead, _, rfl⟩ := expect_eq_ok hcolon
  exact ⟨ahead, hahead, htype⟩

theorem userTail_cases {tail : Located TokenRange TypeRef × Option (Located TokenRange Default)}
    (h : userTail c = .ok (tail, c')) :
    ∃ d, typed c = .ok (tail.1, d) ∧ defaultTail d = .ok (tail.2, c') := by
  rw [userTail_eq] at h
  obtain ⟨⟨type, d⟩, htype, hrest⟩ := bind_eq_ok.mp h
  obtain ⟨default, hdefault, rfl⟩ := bind_pure_eq_ok.mp hrest
  exact ⟨d, htype, hdefault⟩

/-- Either there is no default, or it stands behind a sign of equality. -/
theorem defaultTail_cases {default : Option (Located TokenRange Default)}
    (h : defaultTail c = .ok (default, c')) :
    (c.ahead.head? ≠ some (.symbol .equals) ∧ default = none ∧ c' = c) ∨
      ∃ ahead d, c.ahead = .symbol .equals :: ahead ∧ default = some d ∧
        defaultValue ⟨ahead, c.index + 1⟩ = .ok (d, c') := by
  rw [defaultTail] at h
  by_cases hequals : c.ahead.head? = some (.symbol .equals)
  · obtain ⟨ahead, hahead⟩ := List.head?_eq_some_iff.mp hequals
    rw [bind_eq_of_eq_ok (eat_of_head hahead)] at h
    obtain ⟨d, hd, rfl⟩ := bind_pure_eq_ok.mp h
    exact .inr ⟨ahead, d, hahead, rfl, hd⟩
  · rw [bind_eq_of_eq_ok (eat_of_not_head hequals)] at h
    cases h
    exact .inl ⟨hequals, rfl, rfl⟩

theorem reads_defaultTail {Q : Located TokenRange Default → Prop}
    (h : Reads defaultValue taken rest Q) :
    Reads defaultTail (.symbol .equals :: taken) rest fun found => ∃ d, found = some d ∧ Q d := by
  refine Reads.take reads_eat ?_
  rintro _ ⟨r, rfl⟩
  exact Reads.last h fun d hd => reads_pure ⟨d, rfl, hd⟩

/-- The phrase of a default. -/
def defaultPhrases (default : Option (Located TokenRange Default)) :
    List (Located TokenRange Phrase) :=
  (default.map (·.map Phrase.default)).toList

/-- The phrases of a user-defined property behind its name. -/
def tailPhrases (tail : Located TokenRange TypeRef × Option (Located TokenRange Default)) :
    List (Located TokenRange Phrase) :=
  tail.1.map .type :: defaultPhrases tail.2

theorem kept_typed {t t' : Located TokenRange TypeRef} (h : t.move nowhere = t'.move nowhere) :
    Kept (fun t => [t.map .type]) (fun _ => ()) t t' :=
  ⟨congrArg (fun t => [Phrase.type t]) (Located.val_eq_of_move h).symm, rfl⟩

theorem kept_default {default default' : Option (Located TokenRange Default)}
    (h : default.map (·.move nowhere) = default'.map (·.move nowhere)) :
    Kept defaultPhrases Option.isSome default default' := by
  cases default with
  | none =>
    cases default' with
    | none => exact ⟨rfl, rfl⟩
    | some d' => cases h
  | some d =>
    cases default' with
    | none => cases h
    | some d' =>
      have hval := Located.val_eq_of_move (Option.some.inj h)
      exact ⟨congrArg (fun d => [Phrase.default d]) hval.symm, rfl⟩

theorem refills_typed {t : Located TokenRange TypeRef} (h : typed c = .ok (t, c'))
    (hahead : c.ahead = taken ++ c'.ahead) (hfollows : Follows .type c'.ahead)
    (hne : c'.ahead ≠ []) :
    Refills (fun _ => typed) (fun t => [t.map .type]) (fun _ => ()) c.index taken c'.ahead t := by
  obtain ⟨ahead, hc, htype⟩ := typed_cases h
  obtain ⟨old, rfl, _, hold⟩ :=
    phraseAt_of_phrase (c := ⟨ahead, c.index + 1⟩) (phrase_type.mpr ⟨t, htype, rfl⟩) hne
  obtain rfl : taken = [.symbol .colon] ++ old := List.append_cancel_right (hahead.symm.trans hc)
  refine refills_single rfl (.prepend (refillsAt_phrase hold hfollows) rfl ?_)
  intro v taken' htaken _ _
  refine Reads.take reads_expect fun _ _ => Reads.look reads_remaining ?_
  rintro _ rfl
  exact (htaken _ (Nat.le_refl _)).type_of_phrase.mono fun _ htype =>
    ⟨congrArg (List.cons · []) htype, rfl⟩

theorem refills_defaultTail {default : Option (Located TokenRange Default)}
    (h : defaultTail c = .ok (default, c')) (hahead : c.ahead = taken ++ c'.ahead)
    (hne : c'.ahead ≠ []) :
    Refills (fun _ => defaultTail) defaultPhrases Option.isSome c.index taken c'.ahead default := by
  rcases defaultTail_cases h with ⟨_, rfl, _⟩ | ⟨ahead, value, hc, rfl, hvalue⟩
  · exact refills_nil rfl
  · obtain ⟨old, rfl, _, hold⟩ := phraseAt_of_phrase (c := ⟨ahead, c.index + 1⟩)
      (phrase_default.mpr ⟨value, hvalue, rfl⟩) hne
    obtain rfl : taken = [.symbol .equals] ++ old :=
      List.append_cancel_right (hahead.symm.trans hc)
    have hfollows : Follows .default c'.ahead := trivial
    refine refills_single rfl (.prepend (refillsAt_phrase hold hfollows) rfl ?_)
    intro v taken' htaken _ _
    refine (reads_defaultTail (htaken _ (Nat.le_refl _)).default_of_phrase).mono ?_
    rintro _ ⟨value', rfl, hvalue'⟩
    exact ⟨congrArg (List.cons · []) hvalue', rfl⟩

theorem joins_userTail :
    Joins (fun _ => typed) (fun _ => defaultTail) (fun _ => userTail) rest Prod.mk := by
  intro first second Q₁ Q₂ hfirst hsecond _ _
  rw [userTail_eq]
  exact Reads.bind (hfirst _ (Nat.le_refl _)) fun type htype =>
    Reads.last (hsecond _ (Nat.le_refl _)) fun default hdefault =>
      reads_pure ⟨type, default, rfl, htype, hdefault⟩

theorem splits_userTail : Splits Prod.mk (fun t => [t.map .type]) defaultPhrases tailPhrases
    (fun _ => ()) Option.isSome (fun tail => tail.2.isSome) where
  phrases _ _ := rfl
  blank _ hsome := hsome

theorem refills_userTail
    {tail : Located TokenRange TypeRef × Option (Located TokenRange Default)}
    (h : userTail c = .ok (tail, c')) (hahead : c.ahead = taken ++ c'.ahead)
    (hends : ItemEnds c'.ahead) :
    Refills (fun _ => userTail) tailPhrases (fun tail => tail.2.isSome) c.index taken c'.ahead
      tail := by
  obtain ⟨d, htyped, hdefault⟩ := userTail_cases h
  obtain ⟨takenType, hc, _⟩ := advances_typed.exists_append htyped
  obtain ⟨takenDefault, hd, _⟩ := advances_defaultTail.exists_append hdefault
  obtain rfl : taken = takenType ++ takenDefault := by
    refine List.append_cancel_right (hahead.symm.trans ?_)
    rw [hc, hd, List.append_assoc]
  have hne : d.ahead ≠ [] := by
    rw [hd]
    exact List.append_ne_nil_of_right_ne_nil _ hends.1
  have hfollows : Follows .type d.ahead := by
    rcases defaultTail_cases hdefault with ⟨_, _, rfl⟩ | ⟨rest, _, hrest, _⟩
    · exact hends.endsType
    · rw [hrest]
      exact ⟨by simp, by simp, by simp⟩
  have hindex := advances_typed.index_eq htyped hc hne
  have hslot := refills_typed htyped hc hfollows hne
  rw [hd] at hslot
  refine joins_userTail.refills splits_userTail hslot ?_
    (hindex ▸ refills_defaultTail hdefault hd hends.1) ?_
  · exact fun m hm => (reads_again (mirrors_defaultTail Lookahead.full_tellsEnd)
      advances_defaultTail hdefault (Nat.le_refl _) hd _ (Lookahead.full_refl _) hends.1 hm).mono
      fun _ => kept_default
  · -- the default is replaced, so there is one, before and after
    intro before w after v second' hphrases hread _ _
    have hequals : d.ahead.head? = some (.symbol .equals) := by
      rcases defaultTail_cases hdefault with ⟨_, hnone, _⟩ | ⟨_, _, hahead, _⟩
      · rw [hnone] at hphrases
        cases before <;> cases hphrases
      · rw [hahead, List.head?_cons]
    have hequals' : (second' ++ c'.ahead).head? = some (.symbol .equals) := by
      obtain ⟨default', hdefault', hchanged⟩ := hread _ (Nat.le_refl _) 0
      rcases defaultTail_cases hdefault' with ⟨_, hnone, _⟩ | ⟨_, _, hahead, _⟩
      · rw [hnone] at hchanged
        simpa [defaultPhrases] using hchanged.phrases
      · exact congrArg List.head? hahead
    exact (reads_again mirrors_typed advances_typed htyped (Nat.le_refl _) hc
      (second' ++ c'.ahead) (Lookahead.full_of_head hequals hequals')
      (List.append_ne_nil_of_right_ne_nil _ hends.1) (Nat.le_refl _)).mono fun _ => kept_typed

/-- A user-defined property behind its annotations. -/
def namedTail : Parser
    (Located TokenRange Name × Located TokenRange TypeRef × Option (Located TokenRange Default)) :=
  do return (← word, ← userTail)

section NamedTail

variable {x : Located TokenRange Name × Located TokenRange TypeRef ×
  Option (Located TokenRange Default)}

theorem namedTail_cases (h : namedTail c = .ok (x, c')) : ∃ name ahead,
    c.ahead = .word name :: ahead ∧ x.1 = ⟨name, .single c.index⟩ ∧
      userTail ⟨ahead, c.index + 1⟩ = .ok (x.2, c') := by
  obtain ⟨⟨_, d⟩, hname, hrest⟩ := bind_eq_ok.mp h
  obtain ⟨name, ahead, hahead, rfl, rfl⟩ := word_eq_ok hname
  obtain ⟨tail, htail, rfl⟩ := bind_pure_eq_ok.mp hrest
  exact ⟨name, ahead, hahead, rfl, htail⟩

theorem advances_namedTail : Advances namedTail :=
  .seq takes_word fun _ => .seq advances_userTail fun _ => takes_pure trivial

theorem mirrors_namedTail : Mirrors .full n m namedTail namedTail (Prod.map (Located.move nowhere)
    (Prod.map (Located.move nowhere) (Option.map (Located.move nowhere)))) :=
  .word fun _ _ hname => .bind (mirrors_userTail Lookahead.full_tellsEnd) fun _ _ htail =>
    mirrors_pure (congrArg₂ Prod.mk hname htail)

theorem kept_namedTail
    {x' : Located TokenRange Name × Located TokenRange TypeRef ×
      Option (Located TokenRange Default)}
    (h : x.map (Located.move nowhere) (Prod.map (Located.move nowhere)
        (Option.map (Located.move nowhere))) =
      x'.map (Located.move nowhere) (Prod.map (Located.move nowhere)
        (Option.map (Located.move nowhere)))) :
    Kept (fun x => tailPhrases x.2) (fun x => (x.1.val, x.2.2.isSome)) x x' := by
  obtain ⟨hname, htail⟩ := Prod.mk.inj h
  obtain ⟨htype, hdefault⟩ := Prod.mk.inj htail
  have htyped := kept_typed htype
  have hkept := kept_default hdefault
  refine ⟨?_, congrArg₂ Prod.mk (Located.val_eq_of_move hname).symm hkept.blank⟩
  exact congrArg₂ List.append htyped.phrases hkept.phrases

theorem refills_namedTail (h : namedTail c = .ok (x, c')) (hahead : c.ahead = taken ++ c'.ahead)
    (hends : ItemEnds c'.ahead) :
    Refills (fun _ => namedTail) (fun x => tailPhrases x.2) (fun x => (x.1.val, x.2.2.isSome))
      c.index taken c'.ahead x := by
  obtain ⟨name, ahead, hc, hname, htail⟩ := namedTail_cases h
  obtain ⟨takenTail, rfl, _⟩ := advances_userTail.exists_append htail
  obtain rfl : taken = [.word name] ++ takenTail :=
    List.append_cancel_right (hahead.symm.trans hc)
  intro before w after hphrases
  refine .prepend (refills_userTail htail rfl hends before w after hphrases) rfl ?_
  intro v taken' htaken _ _
  refine Reads.take reads_word fun name' hname' => ?_
  refine Reads.last (htaken _ (Nat.le_refl _)) fun tail' htail' => reads_pure ?_
  refine ⟨htail'.phrases, congrArg₂ Prod.mk ?_ htail'.blank⟩
  rw [hname', hname]

end NamedTail

/-! ### Shells -/

theorem wordItem_cases {name : Located TokenRange Name} {head : Item TokenRange}
    (h : wordItem (pure ⟨[], .single 0⟩) name c = .ok (head, c')) :
    head.ownPhrases = [] ∨ userItem [] name c = .ok (head, c') := by
  have hsees : ∀ s, sees s c = .ok (c.ahead.head? == some (.symbol s), c) := fun _ => rfl
  rw [wordItem, bind_eq_of_eq_ok (hsees .leftParen), bind_eq_of_eq_ok (hsees .colon)] at h
  split at h
  · exact .inr h
  refine .inl ((?_ : Answers _ (Item.ownPhrases · = [])) c head c' h)
  split
  · exact .after fun _ => .after fun _ => answers_pure rfl
  · split
    · exact .after fun _ => .after fun _ => answers_pure rfl
    · refine .after fun _ => .after fun opened => ?_
      cases opened <;> exact answers_pure rfl

theorem tags_of_not_head (h : c.ahead.head? ≠ some (.symbol .atSign)) : tags n c = .ok ([], c) := by
  cases n with
  | zero => rfl
  | succ n =>
    change (if c.ahead.head? == some (.symbol .atSign) then _ else _ : Parser _) c = _
    rw [if_neg (by simpa using h)]
    rfl

/-- A shell has no phrases, or it is the pattern of a group, or it is a user-defined property. -/
theorem shell_cases {head : Item TokenRange} (h : shell c = .ok (head, c')) :
    head.ownPhrases = [] ∨
    (∃ p, head = .group p [] (.single 0) ∧ phrase .pattern c = .ok (p.map .pattern, c')) ∨
    ∃ found d x, tags c.ahead.length c = .ok (found, d) ∧ namedTail d = .ok (x, c') ∧
      head = .user ⟨found, x.1, x.2.1, x.2.2⟩ := by
  obtain ⟨ahead, index⟩ := c
  match ahead with
  | [] => cases h
  | .word name :: rest =>
    rcases wordItem_cases h with hnone | huser
    · exact .inl hnone
    · rw [userItem_eq] at huser
      obtain ⟨tail, htail, rfl⟩ := bind_pure_eq_ok.mp huser
      have hnamed : namedTail ⟨.word name :: rest, index⟩ =
          .ok ((⟨name, .single index⟩, tail), c') :=
        (bind_eq_of_eq_ok (word_of_head rfl)).trans (bind_eq_of_eq_ok htail)
      exact .inr (.inr ⟨[], _, _, tags_of_not_head (by simp), hnamed, rfl⟩)
  | .keyword .asWord :: rest =>
    have hgroup : (pattern (.single index) >>= fun p => pure (.group p [] (.single 0)))
        ⟨rest, index + 1⟩ = .ok (head, c') := h
    obtain ⟨p, hp, rfl⟩ := bind_pure_eq_ok.mp hgroup
    exact .inr (.inl ⟨p, rfl, phrase_pattern.mpr ⟨rest, p, rfl, hp, rfl⟩⟩)
  | .keyword .exportWord :: rest => cases h
  | .symbol s :: rest =>
    cases s with
    | atSign =>
      have hitem : (tags (rest.length + 1) >>= fun found => word >>= userItem found)
          ⟨.symbol .atSign :: rest, index⟩ = .ok (head, c') := h
      obtain ⟨⟨found, d⟩, htags, hafter⟩ := bind_eq_ok.mp hitem
      obtain ⟨⟨name, e⟩, hname, huser⟩ := bind_eq_ok.mp hafter
      dsimp only at huser
      rw [userItem_eq] at huser
      obtain ⟨tail, htail, rfl⟩ := bind_pure_eq_ok.mp huser
      have hnamed : namedTail d = .ok ((name, tail), c') :=
        (bind_eq_of_eq_ok hname).trans (bind_eq_of_eq_ok htail)
      exact .inr (.inr ⟨found, d, _, htags, hnamed, rfl⟩)
    | hash =>
      have hnone : Answers (itemFrom (pure ⟨[], .single 0⟩) (some (.symbol .hash)))
          (Item.ownPhrases · = []) :=
        .after fun _ => .after fun _ => .after fun _ => answers_pure rfl
      exact .inl (hnone _ _ _ h)
    | minus =>
      have hnone : Answers (itemFrom (pure ⟨[], .single 0⟩) (some (.symbol .minus)))
          (Item.ownPhrases · = []) := .after fun _ => .after fun _ => answers_pure rfl
      exact .inl (hnone _ _ _ h)
    | _ => cases h

theorem reads_shell_of_pattern {v : Phrase}
    (h : Reads (phrase .pattern) taken rest (·.val = v)) :
    Reads shell taken rest fun item =>
      ∃ p, item = .group p [] (.single 0) ∧ .pattern p.val = v := by
  intro index
  obtain ⟨w, hw, rfl⟩ := h index
  obtain ⟨rest', p, hahead, hp, rfl⟩ := phrase_pattern.mp hw
  dsimp only at hahead hp
  refine ⟨.group p [] (.single 0), ?_, p, rfl, rfl⟩
  rw [hahead]
  have hgroup : shell ⟨.keyword .asWord :: rest', index⟩ = (pattern (.single index) >>= fun p =>
      pure (.group p [] (.single 0))) ⟨rest', index + 1⟩ := rfl
  rw [hgroup, bind_eq_of_eq_ok hp]
  rfl

/-- Annotations and a property behind them are a shell. -/
theorem shell_user {found : List (TagItem TokenRange)} {d : Cursor}
    {x : Located TokenRange Name × Located TokenRange TypeRef × Option (Located TokenRange Default)}
    (htags : tags c.ahead.length c = .ok (found, d)) (h : namedTail d = .ok (x, c')) :
    shell c = .ok (.user ⟨found, x.1, x.2.1, x.2.2⟩, c') := by
  obtain ⟨name, ahead, hd, hname, htail⟩ := namedTail_cases h
  have huser : userItem found x.1 ⟨ahead, d.index + 1⟩ =
      .ok (.user ⟨found, x.1, x.2.1, x.2.2⟩, c') := by
    rw [userItem_eq]
    exact bind_eq_of_eq_ok htail
  obtain ⟨tokens, index⟩ := c
  rcases tags_cases htags with ⟨rfl, rfl⟩ | ⟨_, _, _, _, _, _, hat, _⟩
  · -- no annotations
    obtain rfl : tokens = .word name :: ahead := hd
    obtain ⟨e, htyped, _⟩ := userTail_cases htail
    obtain ⟨more, rfl, _⟩ := typed_cases htyped
    rw [hname] at huser ⊢
    exact huser
  · obtain ⟨rest, rfl⟩ := List.head?_eq_some_iff.mp hat
    have hword : (word >>= userItem found) d = userItem found x.1 ⟨ahead, d.index + 1⟩ := by
      rw [hname]
      exact bind_eq_of_eq_ok (word_of_head hd)
    change (tags (rest.length + 1) >>= fun found => word >>= userItem found)
      (⟨.symbol .atSign :: rest, index⟩ : Cursor) = _
    exact (bind_eq_of_eq_ok htags).trans (hword.trans huser)

theorem joins_shell : Joins tags (fun _ => namedTail) (fun _ => shell) rest
    fun found x => .user ⟨found, x.1, x.2.1, x.2.2⟩ := by
  intro first second Q₁ Q₂ hfirst hsecond _ _ index
  obtain ⟨found, hfound, hQ₁⟩ := hfirst _ (Nat.le_refl _) index
  obtain ⟨x, hx, hQ₂⟩ := hsecond _ (Nat.le_refl _) (index + first.length)
  refine ⟨_, ?_, found, x, rfl, hQ₁, hQ₂⟩
  rw [List.append_assoc, List.length_append, ← Nat.add_assoc]
  exact shell_user hfound hx

theorem splits_shell : Splits
    (fun found (x : Located TokenRange Name × Located TokenRange TypeRef ×
      Option (Located TokenRange Default)) => Item.user ⟨found, x.1, x.2.1, x.2.2⟩)
    (List.flatMap TagItem.phrases) (fun x => tailPhrases x.2) Item.ownPhrases
    (List.map TagItem.blank) (fun x => (x.1.val, x.2.2.isSome)) Item.blank where
  phrases _ _ := rfl
  blank hfound htail := by
    have hdefault : ∀ default : Option (Located TokenRange Default),
        default.map (fun _ => (⟨.null, ()⟩ : Located Unit Default)) =
          if default.isSome then some ⟨.null, ()⟩ else none := by
      rintro (_ | _) <;> rfl
    obtain ⟨hname, hsome⟩ := Prod.mk.inj htail
    simp only [Item.blank, UserItem.blank, hfound, hdefault, hname, hsome, Located.move]

theorem refills_shell {head : Item TokenRange} (h : shell c = .ok (head, c'))
    (hahead : c.ahead = taken ++ c'.ahead) (hfollows : FollowsShell head c'.ahead) :
    Refills (fun _ => shell) Item.ownPhrases Item.blank c.index taken c'.ahead head := by
  rcases shell_cases h with hnone | ⟨p, rfl, hp⟩ | ⟨found, d, x, htags, hx, rfl⟩
  · exact refills_nil hnone
  · -- the pattern of a group
    obtain ⟨old, hold, _, hphrase⟩ := phraseAt_of_phrase hp hfollows.ne_nil
    obtain rfl : taken = old := List.append_cancel_right (hahead.symm.trans hold)
    have hpattern : Follows .pattern c'.ahead := trivial
    refine refills_single rfl (.mono (refillsAt_phrase hphrase hpattern) ?_)
    intro v taken' htaken m hm
    refine (reads_shell_of_pattern (htaken m hm)).mono ?_
    rintro _ ⟨p', rfl, hp'⟩
    exact ⟨congrArg (List.cons · []) hp', rfl⟩
  · -- a user-defined property
    obtain ⟨takenTags, hc, _⟩ := (advances_tags _).exists_append htags
    obtain ⟨takenTail, hd, _⟩ := advances_namedTail.exists_append hx
    obtain rfl : taken = takenTags ++ takenTail := by
      refine List.append_cancel_right (hahead.symm.trans ?_)
      rw [hc, hd, List.append_assoc]
    obtain ⟨name, ahead, hword, hname, _⟩ := namedTail_cases hx
    have hends : ItemEnds c'.ahead := hfollows
    have hne : d.ahead ≠ [] := by simp [hword]
    have hindex := (advances_tags _).index_eq htags hc hne
    have hslot := refills_tags (Nat.le_refl _) htags hc hne
    rw [hd] at hslot
    refine joins_shell.refills splits_shell hslot ?_ (hindex ▸ refills_namedTail hx hd hends) ?_
    · exact fun m hm => (reads_again mirrors_namedTail advances_namedTail hx (Nat.le_refl _) hd _
        (Lookahead.full_refl _) hends.1 hm).mono fun _ => kept_namedTail
    · -- the name stays, so the annotations end before the same word
      intro _ _ _ _ second' _ hread m hm
      obtain ⟨x', hx', hchanged⟩ := hread _ (Nat.le_refl _) 0
      obtain ⟨name', ahead', hword', hname', _⟩ := namedTail_cases hx'
      obtain rfl : name' = name := by
        have hval := (Prod.mk.inj hchanged.blank).1
        rwa [hname', hname] at hval
      dsimp only at hword'
      have halike : Lookahead.full.Alike d.ahead (second' ++ c'.ahead) := by
        rw [hword, hword']
        exact Lookahead.full_word name' ahead ahead'
      exact (reads_again mirrors_tags (advances_tags m) htags (Nat.le_refl _) hc _ halike
        (List.append_ne_nil_of_right_ne_nil _ hends.1) hm).mono fun _ => kept_tags

/-! ### Listings -/

section Listings

variable {lead tokens : List Token} {head : Item TokenRange} {items : List (Item TokenRange)}
  {before after : List (Located TokenRange Phrase)} {w : Located TokenRange Phrase}

theorem extent?_isSome_of_blank {item item' : Item TokenRange} (h : item'.blank = item.blank) :
    item'.extent?.isSome = item.extent?.isSome := by
  rw [← item'.extent?_blank, ← item.extent?_blank, h]

theorem ShellAt.fillable (h : ShellAt start lead head)
    (hphrases : head.ownPhrases = before ++ w :: after) :
    Fillable (fun v lead' => ∃ head', ShellAt start lead' head' ∧
      Changed Item.ownPhrases Item.blank before after head v head') start lead w := by
  obtain ⟨rest, hfollows, hshell⟩ := h
  have hslot := refills_shell hshell rfl hfollows before w after hphrases
  refine .mono hslot fun v lead' hreads => ?_
  obtain ⟨head', hhead', hchanged⟩ := hreads _ (Nat.le_refl _) start
  refine ⟨head', ⟨rest, ?_, hhead'⟩, hchanged⟩
  rwa [FollowsShell, extent?_isSome_of_blank hchanged.blank]

theorem kept_items {items items' : List (Item TokenRange)}
    (h : Item.moveAll nowhere items' = Item.moveAll nowhere items) :
    Kept Item.phrasesAll Item.blankAll items items' := by
  have hphrases := congrArg (fun items => (Item.phrasesAll items).map (·.val)) h
  have hblank := congrArg Item.blankAll h
  simp only [Item.phrasesAll_move, List.map_map, Function.comp_def, Located.move] at hphrases
  rw [Item.blankAll_move, Item.blankAll_move] at hblank
  exact ⟨hphrases, hblank⟩

theorem splits_items : Splits List.cons Item.phrases (Item.phrasesAll (P := TokenRange))
    Item.phrasesAll Item.blank Item.blankAll Item.blankAll where
  phrases _ _ := by rw [Item.phrasesAll]
  blank hitem hitems := by rw [Item.blankAll, Item.blankAll, hitem, hitems]

section Changed

variable {head' : Item TokenRange} {inside inside' : List (Item TokenRange)}
  {extent extent' : TokenRange} {v : Phrase}

theorem Changed.leaf (h : Changed Item.ownPhrases Item.blank before after head v head')
    (hextent : head.extent?.isSome = false) :
    Changed Item.phrases Item.blank before after head v head' := by
  have hextent' := (extent?_isSome_of_blank h.blank).trans hextent
  exact ⟨by rw [Item.phrases_of_none hextent', h.phrases], h.blank⟩

theorem Changed.shell (h : Changed Item.ownPhrases Item.blank before after head v head')
    (hextent : head.extent?.isSome) (hinside : Kept Item.phrasesAll Item.blankAll inside inside') :
    Changed Item.phrases Item.blank before (after ++ Item.phrasesAll inside)
      (head.fill ⟨inside, extent⟩) v (head'.fill ⟨inside', extent'⟩) := by
  have hextent' : head'.extent?.isSome := (extent?_isSome_of_blank h.blank).trans hextent
  refine ⟨?_, by rw [Item.blank_fill, Item.blank_fill, h.blank, hinside.blank]⟩
  rw [Item.phrases_fill hextent', List.map_append, h.phrases, hinside.phrases]
  simp only [List.map_append, List.append_assoc, List.cons_append]

theorem Changed.body (h : Changed Item.phrasesAll Item.blankAll before after inside v inside')
    (hextent : head.extent?.isSome) :
    Changed Item.phrases Item.blank (head.ownPhrases ++ before) after
      (head.fill ⟨inside, extent⟩) v (head.fill ⟨inside', extent'⟩) := by
  refine ⟨?_, by rw [Item.blank_fill, Item.blank_fill, h.blank]⟩
  rw [Item.phrases_fill hextent, List.map_append, h.phrases]
  simp only [List.map_append, List.append_assoc]

end Changed

theorem Listing.fillable (h : Listing start tokens items)
    (hphrases : Item.phrasesAll items = before ++ w :: after) :
    Fillable (fun v tokens' => ∃ items', Listing start tokens' items' ∧
      Changed Item.phrasesAll Item.blankAll before after items v items') start tokens w := by
  induction h generalizing before after with
  | nil => cases before <;> cases hphrases
  | @leaf start lead separator tokens head items hshell hextent hsep hmore ih =>
    rw [Item.phrasesAll] at hphrases
    rcases List.append_eq_append_cons hphrases with ⟨later, hlater, rfl⟩ | ⟨earlier, rfl, hlater⟩
    · rw [Item.phrases_of_none hextent] at hlater
      refine .append (hshell.fillable hlater) ?_
      rintro v lead' ⟨head', hshell', hchanged⟩
      obtain ⟨items', hitems, hmove⟩ := hmore.shift (start + lead'.length + separator.length)
      have hextent' := (extent?_isSome_of_blank hchanged.blank).trans hextent
      exact ⟨head' :: items', .leaf hshell' hextent' hsep hitems,
        splits_items.first (hchanged.leaf hextent) (kept_items hmove)⟩
    · rw [← List.append_assoc]
      refine .prepend (ih hlater) (by rw [List.length_append, Nat.add_assoc]) ?_
      rintro v tokens' ⟨items', hitems, hchanged⟩
      rw [List.append_assoc]
      exact ⟨head :: items', .leaf hshell hextent hsep hitems,
        splits_items.second ⟨rfl, rfl⟩ hchanged⟩
  | @branch start lead inner separator tokens head inside items hshell hextent hinner hsep hmore
      ihinner ih =>
    rw [Item.phrasesAll] at hphrases
    rcases List.append_eq_append_cons hphrases with ⟨later, hlater, rfl⟩ | ⟨earlier, rfl, hlater⟩
    · rw [Item.phrases_fill hextent] at hlater
      rcases List.append_eq_append_cons hlater with ⟨last, hlast, rfl⟩ | ⟨earlier, rfl, hlast⟩
      · -- in the shell
        refine .append (hshell.fillable hlast) ?_
        rintro v lead' ⟨head', hshell', hchanged⟩
        obtain ⟨inside', hinside, hmove'⟩ := hinner.shift (start + lead'.length + 1)
        obtain ⟨items', hitems, hmove⟩ :=
          hmore.shift (start + lead'.length + (inner.length + 2) + separator.length)
        have hextent' := (extent?_isSome_of_blank hchanged.blank).trans hextent
        exact ⟨_, .branch hshell' hextent' hinside hsep hitems,
          splits_items.first (hchanged.shell hextent (kept_items hmove')) (kept_items hmove)⟩
      · -- in the body
        have htokens : ∀ inner, lead ++ (braced inner ++ (separator ++ tokens)) =
            (lead ++ [.symbol .leftBrace]) ++
              (inner ++ (.symbol .rightBrace :: (separator ++ tokens))) := by
          simp [braced]
        rw [htokens]
        refine .within (ihinner hlast) (by rw [List.length_append, ← Nat.add_assoc]; rfl) ?_
        rintro v inner' ⟨inside', hinside, hchanged⟩
        obtain ⟨items', hitems, hmove⟩ :=
          hmore.shift (start + lead.length + (inner'.length + 2) + separator.length)
        rw [← htokens]
        exact ⟨_, .branch hshell hextent hinside hsep hitems,
          splits_items.first (hchanged.body hextent) (kept_items hmove)⟩
    · -- behind it
      have htokens : ∀ tokens, lead ++ (braced inner ++ (separator ++ tokens)) =
          (lead ++ (braced inner ++ separator)) ++ tokens := by
        simp only [List.append_assoc, implies_true]
      have hstart : start + lead.length + (inner.length + 2) + separator.length =
          start + (lead ++ (braced inner ++ separator)).length := by
        simp only [List.length_append, length_braced, Nat.add_assoc]
      rw [htokens]
      refine .prepend (ih hlater) hstart ?_
      rintro v tokens' ⟨items', hitems, hchanged⟩
      rw [← htokens]
      exact ⟨_, .branch hshell hextent hinner hsep hitems,
        splits_items.second ⟨rfl, rfl⟩ hchanged⟩

end Listings

/-! ### Headings -/

theorem isEmpty_of_blank {found found' : List (TagItem TokenRange)}
    (h : found'.map TagItem.blank = found.map TagItem.blank) : found'.isEmpty = found.isEmpty := by
  rw [← List.isEmpty_map, h, List.isEmpty_map]

theorem HeadingAt.fillable {lead : List Token} {h : Declaration TokenRange}
    {before after : List (Located TokenRange Phrase)} {w : Located TokenRange Phrase}
    (hlead : HeadingAt start lead h)
    (hphrases : h.tags.flatMap TagItem.phrases = before ++ w :: after) :
    Fillable (fun v lead' => lead'.head? = lead.head? ∧ ∃ h', HeadingAt start lead' h' ∧
      Changed (fun d => d.tags.flatMap TagItem.phrases) Declaration.blank before after h v h')
      start lead w := by
  obtain ⟨rest, hopened, hheading⟩ := hlead
  obtain ⟨d, first, e, header, htags, hfirst, hheader, hmodifiers, hname, hbody⟩ :=
    heading_eq_ok.mp hheading
  obtain ⟨name, ahead, hd, rfl, rfl⟩ := word_eq_ok hfirst
  obtain ⟨takenTags, hc, _⟩ := (advances_tags _).exists_append htags
  obtain ⟨words, hwords, _⟩ := (advances_headingWords _ _).exists_append hheader
  dsimp only at hc hwords
  subst hwords
  obtain rfl : lead = takenTags ++ .word name :: words := by
    refine List.append_cancel_right (hc.trans ?_)
    rw [hd, List.append_assoc, List.cons_append]
  have hne : rest ≠ [] := by
    rintro rfl
    cases hopened
  have hslot := refills_tags (Nat.le_refl _) htags hc (by simp [hd]) before w after hphrases
  rw [hd] at hslot
  refine .append hslot fun v taken' htaken => ?_
  have hreads : Reads heading (taken' ++ .word name :: words) rest fun h' =>
      Changed (fun d => d.tags.flatMap TagItem.phrases) Declaration.blank before after h v h' := by
    refine Reads.look reads_remaining ?_
    rintro _ rfl
    rw [List.append_assoc, List.cons_append]
    refine Reads.bind (htaken _ (Nat.le_refl _)) fun found hchanged =>
      Reads.take reads_word fun first' hfirst' => ?_
    have hsame : (⟨name, .single d.index⟩ : Located TokenRange Name).move nowhere =
        first'.move nowhere := by
      rw [Located.move, Located.move, hfirst']
    rw [isEmpty_of_blank hchanged.blank, hfirst']
    refine Reads.last (reads_again (mirrors_headingWords hsame _) (advances_headingWords _ _)
      hheader (Nat.le_refl _) rfl rest (Lookahead.full_refl _) hne (Nat.le_refl _)) ?_
    intro header' hheader'
    obtain ⟨hwords, hname'⟩ := Prod.mk.inj hheader'
    refine Reads.last (reads_again (mirrors_modifiers hwords) (advances_modifiers _) hmodifiers
      (Nat.le_refl _) rfl rest (Lookahead.full_refl _) hne (Nat.le_refl _)) ?_
    intro modifiers' hmodifiers'
    refine reads_pure ⟨hchanged.phrases, ?_⟩
    rw [Declaration.blank, Declaration.blank, hbody, hname, hchanged.blank, hname', hmodifiers']
  obtain ⟨found, hfound, hchanged⟩ := htaken _ (Nat.le_refl _) 0
  obtain ⟨h', hh', hchanged'⟩ := hreads start
  refine ⟨?_, h', ⟨rest, hopened, hh'⟩, hchanged'⟩
  -- both begin with the sign of an annotation
  have hat := head_of_phrases htags hphrases
  have hat' := head_of_changed hfound hchanged
  have hhead : ∀ tokens, (tokens ++ .word name :: words).head? =
      (tokens ++ .word name :: (words ++ rest)).head? := by
    rintro (_ | _) <;> rfl
  dsimp only at hat hat'
  rw [hc, hd] at hat
  rw [hhead, hhead, hat, hat']

end Parser

/-! ### Sources -/

/-- A member of a list that is put together from others is in one of them. -/
theorem List.flatMap_eq_append_cons {α β : Type} {f : α → List β} {xs : List α}
    {before after : List β} {w : β} (h : xs.flatMap f = before ++ w :: after) :
    ∃ xs₁ x xs₂ first second, xs = xs₁ ++ x :: xs₂ ∧ f x = first ++ w :: second ∧
      before = xs₁.flatMap f ++ first ∧ after = second ++ xs₂.flatMap f := by
  induction xs generalizing before with
  | nil => cases before <;> cases h
  | cons x xs ih =>
    rw [List.flatMap_cons] at h
    rcases List.append_eq_append_cons h with ⟨later, hlater, rfl⟩ | ⟨earlier, rfl, hlater⟩
    · exact ⟨[], x, xs, before, later, rfl, hlater, rfl, rfl⟩
    · obtain ⟨xs₁, y, xs₂, first, second, rfl, hy, rfl, rfl⟩ := ih hlater
      refine ⟨x :: xs₁, y, xs₂, first, second, rfl, hy, ?_, rfl⟩
      rw [List.flatMap_cons, List.append_assoc]

/-- A source with another declaration in place of one. -/
theorem changed_source {s t : Source TokenRange} {ds ds' : List (Declaration TokenRange)}
    {d d' : Declaration TokenRange} {before after : List (Located TokenRange Phrase)} {v : Phrase}
    (hs : s.declarations = ds ++ d :: ds')
    (ht : t.bare = ({ s with declarations := ds ++ d' :: ds' } : Source TokenRange).bare)
    (hd : Parser.Changed Declaration.phrases Declaration.blank before after d v d') :
    Parser.Changed Source.phrases Source.blank (ds.flatMap Declaration.phrases ++ before)
      (after ++ ds'.flatMap Declaration.phrases) s v t := by
  refine ⟨?_, ?_⟩
  · rw [Source.phrases_of_bare_eq ht]
    simp only [Source.phrases, List.flatMap_append, List.flatMap_cons, List.map_append, hd.phrases,
      List.append_assoc, List.cons_append]
  · rw [Source.blank_of_bare_eq ht]
    simp only [Source.blank, hs, List.map_append, List.map_cons, hd.blank]

/-- **A phrase can be replaced.** Its tokens stand among those of the source. With tokens of another
phrase of this kind in place of them, the tokens stand for the same source with the other phrase. -/
theorem Source.ofSignificant_fillable {tokens : List Token} {s : Source TokenRange}
    (h : ofSignificant tokens = .ok s) {before after : List (Located TokenRange Phrase)}
    {w : Located TokenRange Phrase} (hphrases : s.phrases = before ++ w :: after) :
    Parser.Fillable (fun v tokens' => ∃ t, ofSignificant tokens' = .ok t ∧
      Parser.Changed Source.phrases Source.blank before after s v t) 0 tokens w := by
  obtain ⟨ds, d, ds', first, second, hs, hd, rfl, rfl⟩ := List.flatMap_eq_append_cons hphrases
  obtain ⟨front, lead, inner, rear, rfl, hheading, _, hlisting, hreplace⟩ :=
    exists_ofSignificant_replace h hs
  rcases List.append_eq_append_cons hd with ⟨later, hlater, rfl⟩ | ⟨earlier, rfl, hlater⟩
  · -- among the annotations
    refine .within (hheading.fillable hlater) (Nat.zero_add _).symm ?_
    rintro v lead' ⟨hhead, h', hheading', hchanged⟩
    obtain ⟨t, ht, hbare⟩ := hreplace d.body.extent hhead hheading' hlisting
    refine ⟨t, ht, changed_source hs hbare ⟨?_, ?_⟩⟩
    · simp only [Declaration.phrases, Declaration.fill, List.map_append]
      rw [hchanged.phrases, List.append_assoc, List.cons_append]
    · have hblank : (h'.fill d.body).blank =
          h'.blank.fill ⟨Item.blankAll d.body.items, ()⟩ := rfl
      rw [hblank, hchanged.blank]
      rfl
  · -- in the body
    have htokens : ∀ inner, front ++ (lead ++ (Parser.braced inner ++ rear)) =
        (front ++ (lead ++ [.symbol .leftBrace])) ++ (inner ++ (.symbol .rightBrace :: rear)) := by
      simp [Parser.braced]
    rw [htokens]
    refine .within (hlisting.fillable hlater) (by simp; omega) ?_
    rintro v inner' ⟨items', hlisting', hchanged⟩
    obtain ⟨t, ht, hbare⟩ := hreplace d.body.extent rfl hheading hlisting'
    rw [← htokens]
    refine ⟨t, ht, changed_source hs hbare ⟨?_, ?_⟩⟩
    · simp only [Declaration.phrases, Declaration.fill, List.map_append, hchanged.phrases,
        List.append_assoc]
    · simp only [Declaration.blank, Declaration.fill, hchanged.blank]

end Projection
