import Projection.Proofs.Selection.Words
import Projection.Proofs.Source.Phrases

/-!
# Phrases that were read

What the parser reads from tokens that were scanned is *sound* (`Phrase.IsSound`): the names are
identifiers with dots between them, the integers fit in 63 bits, a constant does not start like a
truth value, and a pattern is one that its text tells from others. Decimals have no canonical
tokens, so this is said of the parts of a phrase that hold none.

The induction follows the parsers. `Parser.Yields` says what they answer if all the tokens that they
take were scanned.
-/

namespace Projection

open Token (isIdentifier isScannable)

/-! ### Parts of phrases -/

mutual

/-- The type and all types among its arguments. -/
def TypeRef.parts : TypeRef → List TypeRef
  | ⟨name, arguments, nullable⟩ => ⟨name, arguments, nullable⟩ :: TypeRef.partsAll arguments

def TypeRef.partsAll : List TypeRef → List TypeRef
  | [] => []
  | type :: types => type.parts ++ TypeRef.partsAll types

end

mutual

/-- The value and all values in it. -/
def Value.parts : Value → List Value
  | .literal l => [.literal l]
  | .constant name => [.constant name]
  | .list values => .list values :: Value.partsAll values

def Value.partsAll : List Value → List Value
  | [] => []
  | v :: values => v.parts ++ Value.partsAll values

end

/-- The phrase and all phrases of its kind in it. -/
def Phrase.parts : Phrase → List Phrase
  | type t => t.parts.map type
  | pattern p => [pattern p]
  | argument v => v.parts.map argument
  | default d => [default d]

theorem Value.self_mem_parts (v : Value) : v ∈ v.parts := by
  cases v <;> simp [Value.parts]

theorem Phrase.self_mem_parts (v : Phrase) : v ∈ v.parts := by
  cases v with
  | type t =>
    obtain ⟨name, arguments, nullable⟩ := t
    exact List.mem_map_of_mem (by simp [TypeRef.parts])
  | pattern p => exact List.mem_singleton.mpr rfl
  | argument v => exact List.mem_map_of_mem v.self_mem_parts
  | default d => exact List.mem_singleton.mpr rfl

def Literal.isDecimal : Literal → Bool
  | decimal _ => true
  | boolean _ | integer _ | quoted _ => false

mutual

/-- A decimal stands somewhere in the value. -/
def Value.hasDecimal : Value → Bool
  | .literal l => l.isDecimal
  | .constant _ => false
  | .list values => Value.anyDecimal values

def Value.anyDecimal : List Value → Bool
  | [] => false
  | v :: values => v.hasDecimal || Value.anyDecimal values

end

def Default.isDecimal : Default → Bool
  | null => false
  | literal l => l.isDecimal

/-- A decimal stands somewhere in the phrase. -/
def Phrase.hasDecimal : Phrase → Bool
  | type _ | pattern _ => false
  | argument v => v.hasDecimal
  | default d => d.isDecimal

/-! ### Sound phrases -/

/-- A word that may be missing. -/
def AliasPattern.IsOptionalWord (name : String) : Prop :=
  name.isEmpty = false → isIdentifier name = true

/-- The phrase has canonical tokens from which it can be read. -/
def Phrase.IsSound : Phrase → Prop
  | type t => t.isWritable = true
  | pattern p => Parser.Told p ∧ AliasPattern.IsOptionalWord p.written ∧
      AliasPattern.IsOptionalWord p.replacement
  | argument v => v.isWritable = true
  | default d => d.isWritable = true

mutual

theorem TypeRef.isWritable_of_mem : ∀ type : TypeRef, type.isWritable = true →
    ∀ part ∈ type.parts, part.isWritable = true
  | ⟨name, arguments, nullable⟩, h, part, hpart => by
    rw [TypeRef.parts] at hpart
    rcases List.mem_cons.mp hpart with rfl | hpart
    · exact h
    · rw [TypeRef.isWritable, Bool.and_eq_true] at h
      exact TypeRef.isWritable_of_mem_all arguments h.2 part hpart

theorem TypeRef.isWritable_of_mem_all : ∀ types : List TypeRef, TypeRef.allWritable types = true →
    ∀ part ∈ TypeRef.partsAll types, part.isWritable = true
  | [], _, _, hpart => by cases hpart
  | type :: types, h, part, hpart => by
    rw [TypeRef.allWritable, Bool.and_eq_true] at h
    rw [TypeRef.partsAll] at hpart
    rcases List.mem_append.mp hpart with hpart | hpart
    · exact TypeRef.isWritable_of_mem type h.1 part hpart
    · exact TypeRef.isWritable_of_mem_all types h.2 part hpart

end

/-- What holds no decimal in the value can be written. -/
def Value.IsSafe (v : Value) : Prop :=
  ∀ part ∈ v.parts, part.hasDecimal = false → part.isWritable = true

theorem Value.isSafe_list {values : List Value} (h : ∀ v ∈ values, v.IsSafe) :
    (Value.list values).IsSafe := by
  have hall : ∀ values : List Value, (∀ v ∈ values, v.IsSafe) → Value.anyDecimal values = false →
      Value.allWritable values = true := by
    intro values h hdecimal
    induction values with
    | nil => rfl
    | cons v values ih =>
      rw [Value.anyDecimal, Bool.or_eq_false_iff] at hdecimal
      rw [Value.allWritable, h v List.mem_cons_self v v.self_mem_parts hdecimal.1,
        ih (fun w hw => h w (List.mem_cons_of_mem v hw)) hdecimal.2]
      rfl
  have hmem : ∀ values : List Value, ∀ part ∈ Value.partsAll values,
      ∃ v ∈ values, part ∈ v.parts := by
    intro values part hpart
    induction values with
    | nil => cases hpart
    | cons v values ih =>
      rw [Value.partsAll] at hpart
      rcases List.mem_append.mp hpart with hpart | hpart
      · exact ⟨v, List.mem_cons_self, hpart⟩
      · obtain ⟨w, hw, hpart⟩ := ih hpart
        exact ⟨w, List.mem_cons_of_mem v hw, hpart⟩
  intro part hpart hdecimal
  rw [Value.parts] at hpart
  rcases List.mem_cons.mp hpart with rfl | hpart
  · exact hall values h hdecimal
  · obtain ⟨v, hv, hpart⟩ := hmem values part hpart
    exact h v hv part hpart hdecimal

/-! ### What parsers yield -/

namespace Parser

variable {α β : Type}

/-- From tokens that were scanned the parser makes nothing but what has the property. -/
def Yields (p : Parser α) (Q : α → Prop) : Prop :=
  Takes p fun taken a => taken.all isScannable = true → Q a

section Rules

variable {p : Parser α} {k : α → Parser β} {Q Q' : α → Prop} {R : β → Prop}

theorem yields_pure {a : α} (h : Q a) : Yields (pure a) Q :=
  takes_pure fun _ => h

theorem yields_fail (expected : Expected) : Yields (fail expected) Q :=
  takes_fail expected

theorem Yields.mono (h : Yields p Q) (hQ : ∀ a, Q a → Q' a) : Yields p Q' :=
  Takes.mono h fun _ a ha hall => hQ a (ha hall)

/-- One parser after another. -/
theorem Yields.bind (hp : Yields p Q) (hk : ∀ a, Yields (k a) fun b => Q a → R b) :
    Yields (p >>= k) R := by
  refine Takes.bind hp hk fun first a second b hfirst hsecond hall => ?_
  rw [List.all_append, Bool.and_eq_true] at hall
  exact hsecond hall.2 (hfirst hall.1)

theorem Yields.after (hp : Advances p) (hk : ∀ a, Yields (k a) R) : Yields (p >>= k) R := by
  refine Takes.after hp hk fun first second b hsecond hall => ?_
  rw [List.all_append, Bool.and_eq_true] at hall
  exact hsecond hall.2

end Rules

/-! ### Names -/

theorem takes_segments (n : Nat) (name : Located TokenRange Name) :
    Takes (moreSegments n name) fun taken found => ∃ more : List Name,
      taken = more.flatMap (fun s => [.symbol .dot, .word s]) ∧
        found.val = more.foldl Name.join name.val := by
  induction n generalizing name with
  | zero => exact takes_pure ⟨[], rfl, rfl⟩
  | succ n ih =>
    refine (takes_eat .dot).bind (R := fun dot taken found => ∃ more : List Name,
      (if dot.isSome then [.symbol .dot] else []) ++ taken =
        more.flatMap (fun s => [.symbol .dot, .word s]) ∧
          found.val = more.foldl Name.join name.val) (fun dot => ?_) ?_
    · cases dot with
      | none => exact takes_pure ⟨[], rfl, rfl⟩
      | some dot =>
        refine .bind takes_just_word (fun segment => ih _) ?_
        rintro _ segment _ found rfl ⟨more, rfl, hfound⟩
        exact ⟨segment.val :: more, rfl, hfound⟩
    · rintro _ dot taken found rfl hfound
      exact hfound

theorem takes_qualifiedName :
    Takes qualifiedName fun taken name => ∃ (first : Name) (more : List Name),
      taken = .word first :: more.flatMap (fun s => [.symbol .dot, .word s]) ∧
        name.val = more.foldl Name.join first := by
  refine takes_just_word.bind (R := fun first taken name => ∃ more : List Name,
    taken = more.flatMap (fun s => [.symbol .dot, .word s]) ∧
      name.val = more.foldl Name.join first.val) (fun first => ?_) ?_
  · intro c name c' h
    exact takes_segments c.ahead.length first c name c' h
  · rintro _ first _ name rfl ⟨more, rfl, hname⟩
    exact ⟨first.val, more, rfl, hname⟩

end Parser

theorem Name.segments_foldl_join {first : Name} {more : List Name}
    (h : ∀ s ∈ first :: more, isIdentifier s = true) :
    Name.segments (more.foldl Name.join first) = first :: more := by
  have hdot : ∀ cs ∈ (first :: more).map String.toList, '.' ∉ cs := by
    intro cs hcs hmem
    obtain ⟨s, hs, rfl⟩ := List.mem_map.mp hcs
    have hall := h s hs
    simp only [isIdentifier, Bool.and_eq_true, List.all_eq_true] at hall
    exact absurd (hall.1.1.1 '.' hmem) (by decide)
  have hjoin := Name.foldl_join first.toList (more.map String.toList)
  rw [← List.map_cons, List.map_map] at hjoin
  simp only [String.ofList_toList, Function.comp_def, List.map_id'] at hjoin
  rw [hjoin, Name.segments, String.toList_ofList, List.splitOn_intercalate '.' hdot (by simp)]
  simp [List.map_map, Function.comp_def]

namespace Parser

/-- A qualified name is read from its canonical tokens, if its words were scanned. -/
theorem takes_nameTokens : Takes qualifiedName fun taken name => taken.all isScannable = true →
    taken = Name.tokens name.val ∧ Name.isQualified name.val = true := by
  refine takes_qualifiedName.mono ?_
  rintro _ name ⟨first, more, rfl, hname⟩ hall
  have hwords : ∀ s ∈ first :: more, isIdentifier s = true := by
    intro s hs
    have hmem : Token.word s ∈ Token.word first ::
        more.flatMap (fun s => [Token.symbol .dot, .word s]) := by
      rcases List.mem_cons.mp hs with rfl | hs
      · exact List.mem_cons_self
      · exact List.mem_cons_of_mem _ (List.mem_flatMap.mpr ⟨s, hs, by simp⟩)
    exact List.all_eq_true.mp hall _ hmem
  have hsegments := Name.segments_foldl_join hwords
  rw [← hname] at hsegments
  obtain ⟨first', more', hsegments', htokens, _⟩ := Name.tokens_eq name.val
  cases hsegments.symm.trans hsegments'
  refine ⟨htokens.symm, ?_⟩
  rw [Name.isQualified, hsegments]
  exact List.all_eq_true.mpr hwords

theorem yields_qualifiedName : Yields qualifiedName (Name.isQualified ·.val = true) :=
  takes_nameTokens.mono fun _ _ h hall => (h hall).2

/-! ### Types -/

theorem yields_mark (name : Name) (pos : TokenRange) (arguments : List TypeRef) :
    Yields (type.mark name pos arguments) fun type =>
      Name.isQualified name = true → TypeRef.allWritable arguments = true →
        type.val.isWritable = true := by
  refine .after (advances_eat .question) fun question => ?_
  cases question with
  | none =>
    refine yields_pure fun hname harguments => ?_
    rw [TypeRef.isWritable, hname, harguments]
    rfl
  | some question =>
    refine yields_pure fun hname harguments => ?_
    rw [TypeRef.isWritable, hname, harguments]
    rfl

theorem yields_typesBy {type : Parser (Located TokenRange TypeRef)}
    (htype : Yields type (·.val.isWritable = true)) (n : Nat) :
    Yields (typesBy type n) (TypeRef.allWritable · = true) := by
  induction n with
  | zero => exact yields_fail .identifier
  | succ n ih =>
    refine htype.bind fun first => .after (advances_eat .comma) fun comma => ?_
    cases comma with
    | none => exact yields_pure fun hfirst => by simp [TypeRef.allWritable, hfirst]
    | some comma =>
      refine ih.bind fun more => yields_pure fun hmore hfirst => ?_
      rw [TypeRef.allWritable, hfirst, hmore]
      rfl

theorem yields_type (n : Nat) : Yields (type n) (·.val.isWritable = true) := by
  induction n with
  | zero => exact yields_fail .identifier
  | succ n ih =>
    refine yields_qualifiedName.bind fun name => .after (advances_eat .less) fun opening => ?_
    cases opening with
    | none => exact (yields_mark _ _ _).mono fun type htype hname => htype hname rfl
    | some opening =>
      refine (yields_typesBy ih n).bind fun arguments =>
        .after (advances_expect .greater _) fun close => ?_
      exact (yields_mark _ _ _).mono fun type htype harguments hname => htype hname harguments

/-! ### Values -/

theorem isWritable_of_literal? {negative : Bool} {t : Token} {l : Literal}
    (h : literal? negative t = some l) (ht : isScannable t = true)
    (hdecimal : l.isDecimal = false) : l.isWritable = true := by
  cases t with
  | integer n =>
    cases h
    have hn : n < Nat.pow 2 63 := of_decide_eq_true ht
    refine decide_eq_true ?_
    cases negative
    · exact hn
    · exact (Int.natAbs_neg n).symm ▸ hn
  | decimal x =>
    cases h
    cases hdecimal
  | quoted s =>
    cases negative
    · cases h
      rfl
    · cases h
  | word name =>
    cases l with
    | integer value => unfold literal? at h; split at h <;> simp_all
    | decimal value => cases hdecimal
    | _ => rfl
  | _ => cases h

/-- What a signed token yields. -/
theorem yields_signed {read : Bool → Token → Option α} {Q : α → Prop}
    (hread : ∀ negative t a, read negative t = some a → isScannable t = true → Q a) :
    Yields (signed read) fun found => ∀ x, found = .inl x → Q x.val := by
  refine .after (advances_eat .minus) fun minus c found c' h => ?_
  rw [bind_eq_of_eq_ok (peek_eq c)] at h
  cases hnext : c.ahead.head?.bind (read minus.isSome) with
  | none =>
    simp only [hnext] at h
    cases h
    exact ⟨0, rfl, fun _ x hx => by cases hx⟩
  | some a =>
    simp only [hnext] at h
    cases h
    obtain ⟨t, ht, ha⟩ := Option.bind_eq_some_iff.mp hnext
    obtain ⟨rest, ht⟩ := List.head?_eq_some_iff.mp ht
    refine ⟨1, c.skip_one.symm, fun hall x hx => ?_⟩
    cases hx
    rw [ht] at hall
    exact hread _ t a ha (by simpa using hall)

theorem signed_eq_inr {read : Bool → Token → Option α} {c c' : Cursor}
    (h : signed read c = .ok (.inr false, c')) :
    c' = c ∧ c.ahead.head?.bind (read false) = none := by
  by_cases hminus : c.ahead.head? = some (.symbol .minus)
  · obtain ⟨rest, hahead⟩ := List.head?_eq_some_iff.mp hminus
    rw [signed, bind_eq_of_eq_ok (eat_of_head hahead), bind_eq_of_eq_ok (peek_eq _)] at h
    cases hnext : rest.head?.bind (read true) with
    | none =>
      simp only [Option.isSome_some, hnext] at h
      cases h
    | some a =>
      simp only [Option.isSome_some, hnext] at h
      cases h
  · rw [signed, bind_eq_of_eq_ok (eat_of_not_head hminus), bind_eq_of_eq_ok (peek_eq _)] at h
    cases hnext : c.ahead.head?.bind (read false) with
    | none =>
      simp only [Option.isSome_none, hnext] at h
      cases h
      exact ⟨rfl, rfl⟩
    | some a =>
      simp only [Option.isSome_none, hnext] at h
      cases h

theorem yields_listRest {value : Parser (Located TokenRange Value)}
    (hvalue : Yields value (·.val.IsSafe)) (n : Nat) :
    Yields (listRest value n) fun rest => ∀ v ∈ rest.1, v.IsSafe := by
  induction n with
  | zero => exact yields_fail .annotationValue
  | succ n ih =>
    refine .after (advances_eat .rightBracket) fun close => ?_
    cases close with
    | some close => exact yields_pure fun v hv => by cases hv
    | none =>
      refine hvalue.bind fun first => .after (advances_eat .comma) fun comma => ?_
      cases comma with
      | none =>
        refine .after (advances_expect .rightBracket _) fun close =>
          yields_pure fun hfirst v hv => ?_
        obtain rfl := List.mem_singleton.mp hv
        exact hfirst
      | some comma =>
        refine ih.bind fun rest => yields_pure fun hrest hfirst v hv => ?_
        rcases List.mem_cons.mp hv with rfl | hv
        · exact hfirst
        · exact hrest v hv

theorem isSafe_literal {l : Literal} (h : l.isDecimal = false → l.isWritable = true) :
    (Value.literal l).IsSafe := by
  intro part hpart hdecimal
  obtain rfl := List.mem_singleton.mp hpart
  exact h hdecimal

/-- A constant is read where no literal stands. -/
theorem isSafe_constant {name : Name} {ahead : List Token} {n : Nat}
    (hname : Name.isQualified name = true) (htokens : ahead.take n = Name.tokens name)
    (hliteral : ahead.head?.bind (literal? false) = none) : (Value.constant name).IsSafe := by
  intro part hpart _
  obtain rfl := List.mem_singleton.mp hpart
  obtain ⟨first, more, hsegments, htokens', _⟩ := Name.tokens_eq name
  have hhead : ahead.head? = some (.word first) := by
    rw [← List.take_append_drop n ahead, htokens, htokens']
    rfl
  rw [hhead, Option.bind_some] at hliteral
  have hfirst : first ≠ "true" ∧ first ≠ "false" := by
    constructor
    · rintro rfl
      cases hliteral
    · rintro rfl
      cases hliteral
  simp [Value.isWritable, hname, hsegments, hfirst]

theorem yields_value (n : Nat) : Yields (value n) (·.val.IsSafe) := by
  induction n with
  | zero => exact yields_fail .annotationValue
  | succ n ih =>
    refine .after (advances_eat .leftBracket) fun opening => ?_
    cases opening with
    | some opening =>
      exact (yields_listRest ih n).bind fun rest => yields_pure Value.isSafe_list
    | none =>
      intro c v c' h
      obtain ⟨⟨found, between⟩, hfound, hv⟩ := bind_eq_ok.mp h
      match found with
      | .inl l =>
        cases hv
        have hsafe : Yields (signed literal?) fun found =>
            ∀ x, found = .inl x → (Value.literal x.val).IsSafe :=
          yields_signed fun _ _ _ hl ht => isSafe_literal (isWritable_of_literal? hl ht)
        obtain ⟨k, hk, hl⟩ := hsafe c _ _ hfound
        exact ⟨k, hk, fun hall => hl hall l rfl⟩
      | .inr true => exact absurd hv (fail_ne_ok _ _ _)
      | .inr false =>
        obtain ⟨rfl, hliteral⟩ := signed_eq_inr hfound
        dsimp only at hv
        rw [attempt_bind] at hv
        split at hv
        · rename_i name _ hname
          cases hv
          obtain ⟨k, hk, hconstant⟩ := takes_nameTokens _ name _ hname
          refine ⟨k, hk, fun hall => ?_⟩
          obtain ⟨htokens, hqualified⟩ := hconstant hall
          exact isSafe_constant hqualified htokens hliteral
        · exact absurd hv (fail_ne_ok _ _ _)

theorem yields_defaultValue :
    Yields defaultValue fun d => d.val.isDecimal = false → d.val.isWritable = true := by
  have hread : ∀ negative t d, default? negative t = some d → isScannable t = true →
      d.isDecimal = false → d.isWritable = true := by
    intro negative t d h ht hdecimal
    unfold default? at h
    split at h
    · cases h
      rfl
    · obtain ⟨l, hl, rfl⟩ := Option.map_eq_some_iff.mp h
      exact isWritable_of_literal? hl ht hdecimal
  refine (yields_signed hread).bind fun found => ?_
  cases found with
  | inl d => exact yields_pure fun h => h d rfl
  | inr minus => exact yields_fail .defaultValue

/-! ### Patterns -/

theorem yields_word? : Yields word? fun found => ∀ w, found = some w → isIdentifier w.val = true :=
  takes_word?.mono fun _ _ hmem hall w hw => List.all_eq_true.mp hall _ (hmem w hw)

theorem yields_patternText : Yields patternText fun text =>
    (text.2 || text.1.toList.getLast? != some '$') = true ∧
      AliasPattern.IsOptionalWord (if text.2 then text.1 ++ "$" else text.1) := by
  refine yields_word?.bind fun found => ?_
  cases found with
  | none => exact yields_pure fun _ => ⟨rfl, nofun⟩
  | some w =>
    dsimp only
    split
    · rename_i rest hrest
      have hdollar : AliasPattern.withoutTail? "$".toList w.val.toList = some rest := hrest
      refine yields_pure fun hword => ⟨rfl, fun _ => ?_⟩
      rw [if_pos rfl, ← AliasPattern.eq_append_of_withoutTail? hdollar]
      exact hword w rfl
    · rename_i hnone
      refine yields_pure fun hword => ⟨?_, fun _ => hword w rfl⟩
      refine bne_iff_ne.mpr fun hlast => ?_
      obtain ⟨lead, hlead⟩ := List.getLast?_eq_some_iff.mp hlast
      rw [hlead, withoutTail?_append] at hnone
      cases hnone

theorem yields_pattern (keyword : TokenRange) : Yields (pattern keyword) fun p =>
    Told p.val ∧ AliasPattern.IsOptionalWord p.val.written ∧
      AliasPattern.IsOptionalWord p.val.replacement := by
  refine .after (advances_expect .leftParen _) fun _ => .after (advances_eat .caret) fun caret =>
    yields_patternText.bind fun text => ?_
  obtain ⟨sought, atEnd⟩ := text
  dsimp only
  split
  · exact yields_fail .patternText
  · rename_i hsought
    refine .after (advances_expect .arrow _) fun _ => yields_word?.bind fun word => ?_
    split
    · exact yields_fail .replacement
    · rename_i hreplacement
      refine .after (advances_expect .rightParen _) fun close => yields_pure fun hword htext => ?_
      refine ⟨⟨eq_false_of_ne_true hsought, eq_false_of_ne_true hreplacement, htext.1⟩, htext.2,
        fun hne => ?_⟩
      cases word with
      | none => cases hne
      | some w => exact hword w rfl

/-! ### Phrases -/

theorem yields_phrase (kind : Phrase.Kind) : Yields (phrase kind) fun w =>
    ∀ v ∈ w.val.parts, v.hasDecimal = false → v.IsSound := by
  cases kind with
  | type =>
    refine .after advances_remaining fun n => (yields_type n).bind fun t =>
      yields_pure fun ht v hv _ => ?_
    obtain ⟨part, hpart, rfl⟩ := List.mem_map.mp hv
    exact TypeRef.isWritable_of_mem t.val ht part hpart
  | pattern =>
    refine .after (advances_eatToken _) fun keyword => ?_
    cases keyword with
    | none => exact yields_fail .item
    | some keyword =>
      refine (yields_pattern keyword).bind fun p => yields_pure fun hp v hv _ => ?_
      obtain rfl := List.mem_singleton.mp hv
      exact hp
  | argument =>
    refine .after advances_remaining fun n => (yields_value n).bind fun x =>
      yields_pure fun hx v hv hdecimal => ?_
    obtain ⟨part, hpart, rfl⟩ := List.mem_map.mp hv
    exact hx part hpart hdecimal
  | default =>
    refine yields_defaultValue.bind fun d => yields_pure fun hd v hv hdecimal => ?_
    obtain rfl := List.mem_singleton.mp hv
    exact hd hdecimal

/-- The parts of a phrase that was read from scanned tokens are sound, if they hold no decimal. -/
theorem PhraseAt.isSound {start : Nat} {tokens : List Token} {w : Located TokenRange Phrase}
    (h : PhraseAt start tokens w) (htokens : tokens.all isScannable = true) {v : Phrase}
    (hv : v ∈ w.val.parts) (hdecimal : v.hasDecimal = false) : v.IsSound := by
  obtain ⟨rest, _, hphrase⟩ := h
  exact Takes.of_ahead (yields_phrase _) hphrase rfl htokens v hv hdecimal

end Parser

end Projection
