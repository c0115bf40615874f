import Mathlib.Data.List.Infix
import Projection.Proofs.Source.Showing
import Projection.Rendering

/-!
# Brackets of types

The arguments of a type stand between angle brackets. A type that a source writes has its arguments
as parts, and its text in the output has balanced brackets (`Source.balanced_written`).

A type that an entity declares is a text. The collections around it are taken off, and of the rest
only what follows the last dot is kept, wherever this dot stands. If it stands among the arguments
of a type that is left, the brackets opened before it are lost and those that close them are kept.
So the brackets stay balanced if and only if the last dot stands inside the brackets of the
collections and inside no others (`FieldType.balanced_ofDeclared_iff`).
-/

namespace Projection

/-! ### Balanced texts -/

namespace Text

/-- Brackets are balanced: every front part of the text has at least as many opening brackets as
closing ones, and the whole text has as many. -/
structure Balanced (text : String) : Prop where
  front : ∀ front, front <+: text.toList → front.count '>' ≤ front.count '<'
  whole : text.toList.count '<' = text.toList.count '>'

instance (text : String) : Decidable (Balanced text) :=
  decidable_of_iff ((∀ front ∈ text.toList.inits, front.count '>' ≤ front.count '<') ∧
      text.toList.count '<' = text.toList.count '>')
    ⟨fun h => ⟨fun front hfront => h.1 front ((List.mem_inits _ _).mpr hfront), h.2⟩,
      fun h => ⟨fun front hfront => h.front front ((List.mem_inits _ _).mp hfront), h.whole⟩⟩

/-- The number of brackets that the text opens and does not close. -/
def depth (cs : List Char) : Int :=
  cs.count '<' - cs.count '>'

theorem depth_append (cs more : List Char) : depth (cs ++ more) = depth cs + depth more := by
  simp only [depth, List.count_append]
  omega

/-- After `outer` open brackets, the text closes none that is not open. -/
def ClosesOpen (outer : Int) (cs : List Char) : Prop :=
  ∀ front, front <+: cs → 0 ≤ outer + depth front

/-- After `outer` open brackets, the text closes none that is not open, and leaves as many open as
there were. -/
structure BalancedIn (outer : Int) (cs : List Char) : Prop where
  closesOpen : ClosesOpen outer cs
  even : depth cs = 0

theorem balanced_iff {text : String} : Balanced text ↔ BalancedIn 0 text.toList := by
  constructor
  · intro h
    refine ⟨fun front hfront => ?_, ?_⟩
    · have hle := h.front front hfront
      rw [depth]
      omega
    · have heq := h.whole
      rw [depth]
      omega
  · intro h
    refine ⟨fun front hfront => ?_, ?_⟩
    · have hle := h.closesOpen front hfront
      rw [depth] at hle
      omega
    · have heq := h.even
      rw [depth] at heq
      omega

section Brackets

variable {outer : Int} {cs more lead tail : List Char}

theorem ClosesOpen.outer_nonneg (h : ClosesOpen outer cs) : 0 ≤ outer := by
  have hempty := h [] List.nil_prefix
  simpa [depth] using hempty

theorem closesOpen_append :
    ClosesOpen outer (cs ++ more) ↔ ClosesOpen outer cs ∧ ClosesOpen (outer + depth cs) more := by
  constructor
  · intro h
    refine ⟨fun front hfront => h front (List.prefix_append_of_prefix hfront), ?_⟩
    intro front hfront
    have hboth := h (cs ++ front) ((List.prefix_append_right_inj cs).mpr hfront)
    rw [depth_append] at hboth
    omega
  · rintro ⟨hcs, hmore⟩ front hfront
    have hstart : cs <+: cs ++ more := List.prefix_append cs more
    rcases List.prefix_or_prefix_of_prefix hfront hstart with hle | ⟨rest, rfl⟩
    · exact hcs front hle
    · have hrest := hmore rest ((List.prefix_append_right_inj cs).mp hfront)
      rw [depth_append]
      omega

theorem closesOpen_of_opens (houter : 0 ≤ outer) (h : '>' ∉ cs) : ClosesOpen outer cs := by
  intro front hfront
  have hnone : front.count '>' = 0 := List.count_eq_zero.mpr fun hmem => h (hfront.mem hmem)
  rw [depth]
  omega

theorem closesOpen_of_closes (houter : 0 ≤ outer + depth cs) (h : '<' ∉ cs) :
    ClosesOpen outer cs := by
  intro front hfront
  have hnone : cs.count '<' = 0 := List.count_eq_zero.mpr h
  have hle : front.count '>' ≤ cs.count '>' := hfront.count_le '>'
  rw [depth] at houter ⊢
  omega

theorem depth_eq_zero (hopen : '<' ∉ cs) (hclose : '>' ∉ cs) : depth cs = 0 := by
  rw [depth, List.count_eq_zero.mpr hopen, List.count_eq_zero.mpr hclose]
  rfl

theorem balancedIn_of_notMem (houter : 0 ≤ outer) (hopen : '<' ∉ cs) (hclose : '>' ∉ cs) :
    BalancedIn outer cs :=
  ⟨closesOpen_of_opens houter hclose, depth_eq_zero hopen hclose⟩

theorem BalancedIn.append (h : BalancedIn outer cs) (h' : BalancedIn outer more) :
    BalancedIn outer (cs ++ more) := by
  refine ⟨closesOpen_append.mpr ⟨h.closesOpen, ?_⟩, by rw [depth_append, h.even, h'.even]; rfl⟩
  rw [h.even, Int.add_zero]
  exact h'.closesOpen

/-- Brackets are opened before the text and closed behind it. -/
theorem balancedIn_between (houter : 0 ≤ outer) (hlead : '>' ∉ lead) (htail : '<' ∉ tail)
    (hsame : depth lead + depth tail = 0) :
    BalancedIn outer (lead ++ cs ++ tail) ↔ BalancedIn (outer + depth lead) cs := by
  constructor
  · rintro ⟨hcloses, heven⟩
    rw [closesOpen_append, closesOpen_append] at hcloses
    rw [depth_append, depth_append] at heven
    exact ⟨hcloses.1.2, by omega⟩
  · rintro ⟨hcloses, heven⟩
    have hall : depth (lead ++ cs ++ tail) = 0 := by
      rw [depth_append, depth_append]
      omega
    have hfirst : ClosesOpen outer (lead ++ cs) :=
      closesOpen_append.mpr ⟨closesOpen_of_opens houter hlead, hcloses⟩
    refine ⟨closesOpen_append.mpr ⟨hfirst, closesOpen_of_closes ?_ htail⟩, hall⟩
    rw [depth_append] at hall
    omega

/-- The front of a balanced text is cut off. -/
theorem BalancedIn.drop_iff (h : BalancedIn outer (cs ++ more)) :
    BalancedIn outer more ↔ depth cs = 0 := by
  have heven := h.even
  rw [depth_append] at heven
  constructor
  · intro hmore
    rw [hmore.even] at heven
    omega
  · intro hcs
    have hcloses := (closesOpen_append.mp h.closesOpen).2
    rw [hcs, Int.add_zero] at hcloses
    exact ⟨hcloses, by omega⟩

end Brackets

/-! ### The last dot -/

/-- The last dot of the text, if there is one, stands inside `n` open brackets. -/
def LastDotInside (n : Int) (cs : List Char) : Prop :=
  ∀ front back, cs = front ++ '.' :: back → '.' ∉ back → depth front = n

theorem lastDotInside_of_notMem {cs : List Char} (n : Int) (h : '.' ∉ cs) : LastDotInside n cs := by
  rintro front back rfl
  exact absurd (List.mem_append_right front List.mem_cons_self) h

theorem lastDotInside_between {n : Int} {lead cs tail : List Char} (hlead : '.' ∉ lead)
    (htail : '.' ∉ tail) :
    LastDotInside (n + depth lead) (lead ++ cs ++ tail) ↔ LastDotInside n cs := by
  constructor
  · rintro h front back rfl hback
    have hsplit : lead ++ (front ++ '.' :: back) ++ tail =
        lead ++ front ++ '.' :: (back ++ tail) := by
      simp
    have hdepth := h _ _ hsplit (by simp [hback, htail])
    rw [depth_append] at hdepth
    omega
  · intro h front back hsplit hback
    rcases List.append_eq_append_cons hsplit with ⟨rest, hfirst, rfl⟩ | ⟨rest, rfl, htail'⟩
    · rcases List.append_eq_append_cons hfirst with ⟨rest', rfl, _⟩ | ⟨front, rfl, hcs⟩
      · exact absurd (List.mem_append_right front List.mem_cons_self) hlead
      · have hdepth := h front rest hcs fun hmem => hback (List.mem_append_left tail hmem)
        rw [depth_append]
        omega
    · exact absurd (htail' ▸ List.mem_append_right rest List.mem_cons_self) htail

theorem exists_lastDot {cs : List Char} (h : '.' ∈ cs) :
    ∃ front back, cs = front ++ '.' :: back ∧ '.' ∉ back := by
  obtain ⟨back, front, hreverse, hback⟩ := List.eq_append_cons_of_mem (List.mem_reverse.mpr h)
  refine ⟨front.reverse, back.reverse, ?_, fun hmem => hback (List.mem_reverse.mp hmem)⟩
  have hsplit := congrArg List.reverse hreverse
  simpa using hsplit

/-! ### Blanks around a text -/

/-- Blanks have neither brackets nor dots. -/
theorem notMem_of_blank {cs : List Char} (h : cs.all isBlank = true) :
    '<' ∉ cs ∧ '>' ∉ cs ∧ '.' ∉ cs := by
  rw [List.all_eq_true] at h
  exact ⟨fun hmem => absurd (h _ hmem) (by decide), fun hmem => absurd (h _ hmem) (by decide),
    fun hmem => absurd (h _ hmem) (by decide)⟩

theorem exists_trim (cs : List Char) : ∃ lead tail,
    cs = lead ++ trim cs ++ tail ∧ lead.all isBlank = true ∧ tail.all isBlank = true := by
  let inner := cs.dropWhile isBlank
  refine ⟨cs.takeWhile isBlank, (inner.reverse.takeWhile isBlank).reverse, ?_,
    List.all_takeWhile, ?_⟩
  · have hinner : trim cs ++ (inner.reverse.takeWhile isBlank).reverse = inner := by
      rw [trim, ← List.reverse_append, List.takeWhile_append_dropWhile, List.reverse_reverse]
    rw [List.append_assoc, hinner, List.takeWhile_append_dropWhile]
  · rw [List.all_reverse]
    exact List.all_takeWhile

theorem length_trim_le (cs : List Char) : (trim cs).length ≤ cs.length := by
  obtain ⟨lead, tail, hcs, _⟩ := exists_trim cs
  have hlength := congrArg List.length hcs
  rw [List.length_append, List.length_append] at hlength
  omega

theorem balancedIn_trim {outer : Int} {cs : List Char} (houter : 0 ≤ outer) :
    BalancedIn outer (trim cs) ↔ BalancedIn outer cs := by
  obtain ⟨lead, tail, hcs, hlead, htail⟩ := exists_trim cs
  obtain ⟨hopen, hclose, _⟩ := notMem_of_blank hlead
  obtain ⟨hopen', hclose', _⟩ := notMem_of_blank htail
  have hzero : depth lead = 0 := depth_eq_zero hopen hclose
  have hbetween : BalancedIn outer (lead ++ trim cs ++ tail) ↔
      BalancedIn (outer + depth lead) (trim cs) :=
    balancedIn_between houter hclose hopen' (by rw [hzero, depth_eq_zero hopen' hclose']; rfl)
  rw [hzero, Int.add_zero, ← hcs] at hbetween
  exact hbetween.symm

theorem lastDotInside_trim {n : Int} {cs : List Char} :
    LastDotInside n (trim cs) ↔ LastDotInside n cs := by
  obtain ⟨lead, tail, hcs, hlead, htail⟩ := exists_trim cs
  obtain ⟨hopen, hclose, hdot⟩ := notMem_of_blank hlead
  have hbetween : LastDotInside (n + depth lead) (lead ++ trim cs ++ tail) ↔
      LastDotInside n (trim cs) :=
    lastDotInside_between hdot (notMem_of_blank htail).2.2
  rw [depth_eq_zero hopen hclose, Int.add_zero, ← hcs] at hbetween
  exact hbetween.symm

end Text

/-! ### Declared types -/

namespace Name

/-- The simple name is what no dot is in, after a dot or from the start. -/
theorem simple_append {lead back : List Char} (hlead : lead.getLast?.all (· == '.') = true)
    (hback : '.' ∉ back) : (simple (String.ofList (lead ++ back))).toList = back := by
  have hrun : back.reverse.all (· != '.') = true := by
    rw [List.all_reverse, List.all_eq_true]
    exact fun c hc => bne_iff_ne.mpr fun heq => hback (heq ▸ hc)
  have hrest : lead.reverse.head?.all (fun c => !(c != '.')) = true := by
    rw [List.head?_reverse]
    simpa [bne] using hlead
  rw [simple, String.toList_ofList, String.toList_ofList, List.reverse_append,
    Token.takeWhile_run hrun hrest, List.reverse_reverse]

end Name

namespace FieldType

open Text

/-- A declared collection: a wrapper, the type of the elements, and the closing bracket. Blanks
around them do not count. -/
def CollectionOf (declared inner : List Char) : Prop :=
  ∃ wrapper ∈ wrappers, trim declared = wrapper.toList ++ inner ++ ['>']

/-- The declared type is `n` collections, one inside the other, of a type that is none. -/
inductive Collects : Nat → List Char → Prop
  | simple {declared} (h : ∀ inner, ¬CollectionOf declared inner) : Collects 0 declared
  | collection {n declared inner} (h : CollectionOf declared inner) (hinner : Collects n inner) :
      Collects (n + 1) declared

theorem CollectionOf.length_lt {declared inner : List Char} (h : CollectionOf declared inner) :
    inner.length < declared.length := by
  obtain ⟨wrapper, _, htrim⟩ := h
  have hle := length_trim_le declared
  rw [htrim, List.length_append, List.length_append, List.length_singleton] at hle
  omega

theorem exists_collects (declared : List Char) : ∃ n, Collects n declared := by
  by_cases h : ∃ inner, CollectionOf declared inner
  · obtain ⟨inner, hinner⟩ := h
    have hlength := hinner.length_lt
    obtain ⟨n, hn⟩ := exists_collects inner
    exact ⟨n + 1, .collection hinner hn⟩
  · exact ⟨0, .simple fun inner hinner => h ⟨inner, hinner⟩⟩
termination_by declared.length

/-- A type is a collection in one way only, since wrappers differ in their first letters. -/
theorem CollectionOf.unique {declared inner inner' : List Char} (h : CollectionOf declared inner)
    (h' : CollectionOf declared inner') : inner = inner' := by
  have hletters : ∀ w ∈ wrappers, ∀ w' ∈ wrappers, w.toList.head? = w'.toList.head? → w = w' := by
    decide
  have hstart : ∀ w ∈ wrappers, w.toList ≠ [] := by decide
  obtain ⟨wrapper, hwrapper, htrim⟩ := h
  obtain ⟨wrapper', hwrapper', htrim'⟩ := h'
  have hsame := htrim.symm.trans htrim'
  rw [List.append_assoc, List.append_assoc] at hsame
  have hhead := congrArg List.head? hsame
  rw [List.head?_append_of_ne_nil _ (hstart wrapper hwrapper),
    List.head?_append_of_ne_nil _ (hstart wrapper' hwrapper')] at hhead
  obtain rfl := hletters wrapper hwrapper wrapper' hwrapper' hhead
  exact List.append_cancel_right (List.append_cancel_left hsame)

theorem collectionOf_of_unwrap? {declared inner : List Char}
    (h : unwrap? (trim declared) = some inner) : CollectionOf declared inner := by
  obtain ⟨wrapper, hwrapper, hinner⟩ := List.exists_of_findSome?_eq_some h
  obtain ⟨rest, hlead, htail⟩ := Option.bind_eq_some_iff.mp hinner
  refine ⟨wrapper, hwrapper, ?_⟩
  rw [AliasPattern.withoutLead?_eq_some hlead, AliasPattern.withoutTail?_eq_some htail,
    List.append_assoc]

theorem unwrap?_eq_some_iff {declared inner : List Char} :
    unwrap? (trim declared) = some inner ↔ CollectionOf declared inner := by
  refine ⟨collectionOf_of_unwrap?, fun h => ?_⟩
  cases hfound : unwrap? (trim declared) with
  | some other => rw [h.unique (collectionOf_of_unwrap? hfound)]
  | none =>
    obtain ⟨wrapper, hwrapper, htrim⟩ := h
    have hnone := List.findSome?_eq_none_iff.mp hfound wrapper hwrapper
    rw [htrim, List.append_assoc, AliasPattern.withoutLead?_append, Option.bind_some,
      Parser.withoutTail?_append] at hnone
    cases hnone

theorem unwrap?_eq_none_iff {declared : List Char} :
    unwrap? (trim declared) = none ↔ ∀ inner, ¬CollectionOf declared inner := by
  rw [Option.eq_none_iff_forall_not_mem]
  exact forall_congr' fun inner => not_congr unwrap?_eq_some_iff

/-! ### One collection after the other -/

theorem text_vec (element : FieldType) : (vec element).text = "Vec<" ++ element.text ++ ">" :=
  rfl

theorem text_simple (cs : List Char) : (simple cs).text =
    ((simpleNames.find? (·.1 == Name.simple (String.ofList cs))).map (·.2)).getD
      (Name.simple (String.ofList cs)) :=
  rfl

theorem ofDeclaredText_simple {declared : List Char} (h : ∀ inner, ¬CollectionOf declared inner)
    (n : Nat) : ofDeclaredText n declared = simple (trim declared) := by
  cases n with
  | zero => rw [ofDeclaredText]
  | succ n => rw [ofDeclaredText, unwrap?_eq_none_iff.mpr h]

theorem ofDeclaredText_collection {declared inner : List Char} (h : CollectionOf declared inner)
    (n : Nat) : ofDeclaredText (n + 1) declared = vec (ofDeclaredText n inner) := by
  rw [ofDeclaredText, unwrap?_eq_some_iff.mpr h]

theorem balancedIn_renamed {outer : Int} {name : String} (houter : 0 ≤ outer) :
    BalancedIn outer (((simpleNames.find? (·.1 == name)).map (·.2)).getD name).toList ↔
      BalancedIn outer name.toList := by
  have hplain : ∀ entry ∈ simpleNames, ('<' ∉ entry.1.toList ∧ '>' ∉ entry.1.toList) ∧
      '<' ∉ entry.2.toList ∧ '>' ∉ entry.2.toList := by
    decide
  cases hfound : simpleNames.find? (·.1 == name) with
  | none => exact Iff.rfl
  | some entry =>
    obtain ⟨hkey, hvalue⟩ := hplain entry (List.mem_of_find?_eq_some hfound)
    have hname := List.find?_some hfound
    rw [beq_iff_eq] at hname
    rw [hname] at hkey
    exact iff_of_true (balancedIn_of_notMem houter hvalue.1 hvalue.2)
      (balancedIn_of_notMem houter hkey.1 hkey.2)

/-- A balanced text stays so without the part up to its last dot if and only if that part closes
all the brackets that it opens. -/
theorem balancedIn_qualified_iff {outer : Int} {front back : List Char}
    (h : BalancedIn outer (front ++ '.' :: back)) (hback : '.' ∉ back) :
    BalancedIn outer (Name.simple (String.ofList (front ++ '.' :: back))).toList ↔
      depth front = 0 := by
  have hsplit : front ++ '.' :: back = (front ++ ['.']) ++ back := by simp
  have hdepth : depth (front ++ ['.']) = depth front := by
    rw [depth_append]
    exact Int.add_zero _
  rw [hsplit] at h ⊢
  rw [Name.simple_append (by simp) hback, h.drop_iff, hdepth]

/-- A type that is no collection loses what stands before its last dot. -/
theorem balancedIn_simple_iff {outer : Int} {cs : List Char} (h : BalancedIn outer cs) :
    BalancedIn outer (simple cs).text.toList ↔ LastDotInside 0 cs := by
  rw [text_simple, balancedIn_renamed h.closesOpen.outer_nonneg]
  constructor
  · rintro hbalanced front back rfl hback
    exact (balancedIn_qualified_iff h hback).mp hbalanced
  · intro hinside
    by_cases hdot : '.' ∈ cs
    · obtain ⟨front, back, rfl, hback⟩ := exists_lastDot hdot
      exact (balancedIn_qualified_iff h hback).mpr (hinside front back rfl hback)
    · have hwhole : (Name.simple (String.ofList ([] ++ cs))).toList = cs :=
        Name.simple_append rfl hdot
      rw [List.nil_append] at hwhole
      rw [hwhole]
      exact h

theorem opens_of_mem_wrappers : ∀ wrapper ∈ wrappers,
    '>' ∉ wrapper.toList ∧ '.' ∉ wrapper.toList ∧ depth wrapper.toList = 1 := by
  decide

/-- A declared collection is a bracket around its elements. -/
theorem CollectionOf.balancedIn_iff {outer : Int} {declared inner : List Char}
    (h : CollectionOf declared inner) (houter : 0 ≤ outer) :
    BalancedIn outer declared ↔ BalancedIn (outer + 1) inner := by
  obtain ⟨wrapper, hwrapper, htrim⟩ := h
  obtain ⟨hclose, _, hdepth⟩ := opens_of_mem_wrappers wrapper hwrapper
  rw [← balancedIn_trim houter, htrim,
    balancedIn_between houter hclose (by decide) (by rw [hdepth]; rfl), hdepth]

theorem CollectionOf.lastDotInside_iff {n : Int} {declared inner : List Char}
    (h : CollectionOf declared inner) :
    LastDotInside (n + 1) declared ↔ LastDotInside n inner := by
  obtain ⟨wrapper, hwrapper, htrim⟩ := h
  obtain ⟨_, hdot, hdepth⟩ := opens_of_mem_wrappers wrapper hwrapper
  rw [← lastDotInside_trim, htrim, ← hdepth, lastDotInside_between hdot (by decide)]

/-- A collection in the output is a bracket around its elements. -/
theorem balancedIn_vec {outer : Int} {element : FieldType} (houter : 0 ≤ outer) :
    BalancedIn outer (vec element).text.toList ↔ BalancedIn (outer + 1) element.text.toList := by
  rw [text_vec, String.toList_append, String.toList_append,
    balancedIn_between houter (by decide) (by decide) (by decide)]
  rfl

/-- By induction on the collections that are taken off. Their elements need not be balanced on their
own, as in `List<A>, List<B>`, so the brackets around them are counted. -/
theorem Collects.balancedIn_iff {n : Nat} {declared : List Char} (h : Collects n declared) :
    ∀ {steps : Nat} {outer : Int}, declared.length ≤ steps → BalancedIn outer declared →
      (BalancedIn outer (ofDeclaredText steps declared).text.toList ↔
        LastDotInside n declared) := by
  induction h with
  | simple h =>
    intro steps outer _ hbalanced
    have htrim := (balancedIn_trim hbalanced.closesOpen.outer_nonneg).mpr hbalanced
    rw [ofDeclaredText_simple h, balancedIn_simple_iff htrim, lastDotInside_trim]
    rfl
  | collection h _ ih =>
    intro steps outer hsteps hbalanced
    have houter := hbalanced.closesOpen.outer_nonneg
    have hlength := h.length_lt
    cases steps with
    | zero => omega
    | succ steps =>
      have hinner := (h.balancedIn_iff houter).mp hbalanced
      rw [ofDeclaredText_collection h, balancedIn_vec houter, ih (by omega) hinner,
        ← h.lastDotInside_iff]
      rfl

/-- **When the brackets of a declared type stay balanced.** The type is `n` collections, one inside
the other, for some `n`. Its text in the output is balanced if and only if the last dot of the
declared text stands inside `n` brackets. -/
theorem balanced_ofDeclared_iff {declared : String} (h : Balanced declared) :
    (∃ n, Collects n declared.toList) ∧ ∀ n, Collects n declared.toList →
      (Balanced (ofDeclared declared).text ↔ LastDotInside n declared.toList) := by
  refine ⟨exists_collects declared.toList, fun n hn => ?_⟩
  rw [balanced_iff, ofDeclared]
  exact hn.balancedIn_iff (Nat.le_of_eq String.length_toList) (balanced_iff.mp h)

end FieldType

namespace Payroll

/-- A list of optional amounts. The last dot stands inside two brackets, but the list has one. -/
theorem bonuses_lose_bracket :
    let declared := "List<Optional<java.math.BigDecimal>>"
    Text.Balanced declared ∧ FieldType.Collects 1 declared.toList ∧
      (FieldType.ofDeclared declared).text = "Vec<BigDecimal>>" ∧
      ¬Text.Balanced (FieldType.ofDeclared declared).text := by
  intro declared
  have hbalanced : Text.Balanced declared := by decide +kernel
  have hlist : FieldType.CollectionOf declared.toList "Optional<java.math.BigDecimal>".toList :=
    FieldType.unwrap?_eq_some_iff.mp (by decide +kernel)
  have hcollects : FieldType.Collects 1 declared.toList :=
    .collection hlist (.simple (FieldType.unwrap?_eq_none_iff.mp (by decide +kernel)))
  refine ⟨hbalanced, hcollects, by decide +kernel, fun hout => ?_⟩
  have hinside := ((FieldType.balanced_ofDeclared_iff hbalanced).2 1 hcollects).mp hout
    "List<Optional<java.math".toList "BigDecimal>>".toList (by decide +kernel) (by decide)
  exact absurd hinside (by decide)

end Payroll

/-! ### Written types -/

namespace Text

theorem BalancedIn.mono {outer outer' : Int} {cs : List Char} (h : BalancedIn outer cs)
    (hle : outer ≤ outer') : BalancedIn outer' cs := by
  refine ⟨fun front hfront => ?_, h.even⟩
  have := h.closesOpen front hfront
  omega

theorem balanced_of_notMem {text : String} (hopen : '<' ∉ text.toList)
    (hclose : '>' ∉ text.toList) : Balanced text :=
  balanced_iff.mpr (balancedIn_of_notMem (Int.le_refl 0) hopen hclose)

theorem Balanced.append {text more : String} (h : Balanced text) (h' : Balanced more) :
    Balanced (text ++ more) := by
  rw [balanced_iff] at h h' ⊢
  rw [String.toList_append]
  exact h.append h'

theorem Balanced.wrap {text : String} (h : Balanced text) {lead : String}
    (hlead : '>' ∉ lead.toList) (hdepth : depth lead.toList = 1) :
    Balanced (lead ++ text ++ ">") := by
  rw [balanced_iff] at h ⊢
  rw [String.toList_append, String.toList_append,
    balancedIn_between (Int.le_refl 0) hlead (by decide) (by rw [hdepth]; rfl)]
  exact h.mono (by omega)

theorem balanced_intercalate {separator : String} (hseparator : Balanced separator)
    {parts : List String} (h : ∀ part ∈ parts, Balanced part) :
    Balanced (separator.intercalate parts) := by
  induction parts with
  | nil => exact balanced_of_notMem (by simp) (by simp)
  | cons part parts ih =>
    have hpart := h part List.mem_cons_self
    cases parts with
    | nil =>
      rw [String.intercalate_singleton]
      exact hpart
    | cons next parts =>
      rw [String.intercalate_cons_cons]
      exact (hpart.append hseparator).append (ih fun other hother =>
        h other (List.mem_cons_of_mem part hother))

end Text

namespace Name

theorem mem_of_mem_simple {name : Name} {c : Char} (h : c ∈ (simple name).toList) :
    c ∈ name.toList ∧ c ≠ '.' := by
  rw [simple, String.toList_ofList, List.mem_reverse] at h
  have hmem := (List.takeWhile_prefix _).subset h
  have hne := List.mem_takeWhile_imp h
  exact ⟨List.mem_reverse.mp hmem, bne_iff_ne.mp hne⟩

theorem all_of_isQualified {name : Name} (h : isQualified name = true) :
    name.toList.all (fun c => c != '<' && c != '>') = true := by
  have hjoin : ['.'].intercalate (name.toList.splitOn '.') = name.toList :=
    List.intercalate_splitOn '.'
  rw [← hjoin, List.all_intercalate (by decide), List.all_eq_true]
  intro part hpart
  have hword := List.all_eq_true.mp h (String.ofList part) (List.mem_map_of_mem hpart)
  simp only [Token.isIdentifier, String.toList_ofList, Bool.and_eq_true, List.all_eq_true] at hword
  rw [List.all_eq_true]
  intro c hc
  have hchar := hword.1.1.1 c hc
  rw [Bool.and_eq_true, bne_iff_ne, bne_iff_ne]
  exact ⟨Token.ne_of_isWordChar hchar (by decide), Token.ne_of_isWordChar hchar (by decide)⟩

/-- A simple name has neither brackets nor dots. -/
theorem notMem_simple {name : Name} (h : isQualified name = true) :
    '<' ∉ (simple name).toList ∧ '>' ∉ (simple name).toList ∧ '.' ∉ (simple name).toList := by
  have hall := List.all_eq_true.mp (all_of_isQualified h)
  refine ⟨fun hmem => ?_, fun hmem => ?_, fun hmem => (mem_of_mem_simple hmem).2 rfl⟩
  · exact absurd (hall _ (mem_of_mem_simple hmem).1) (by decide)
  · exact absurd (hall _ (mem_of_mem_simple hmem).1) (by decide)

end Name

namespace FieldType

open Text

theorem balanced_nullable {t : FieldType} (h : Balanced t.text) (isNullable : Bool) :
    Balanced (t.nullable isNullable).text := by
  cases isNullable with
  | false => exact h
  | true => exact h.wrap (by decide) (by decide)

theorem balanced_generic {name : String} {arguments : List FieldType} (hname : Balanced name)
    (h : ∀ text ∈ texts arguments, Balanced text) : Balanced (generic name arguments).text := by
  have htext : (generic name arguments).text =
      name ++ ("<" ++ ", ".intercalate (texts arguments) ++ ">") := by
    rw [← String.append_assoc, ← String.append_assoc]
    rfl
  rw [htext]
  exact hname.append ((balanced_intercalate (by decide) h).wrap (by decide) (by decide))

theorem balanced_map {key value : FieldType} (hkey : Balanced key.text)
    (hvalue : Balanced value.text) : Balanced (map key value).text := by
  have htext : (map key value).text =
      "std::collections::HashMap<" ++ (key.text ++ ", " ++ value.text) ++ ">" := by
    rw [← String.append_assoc, ← String.append_assoc]
    rfl
  rw [htext]
  exact ((hkey.append (by decide)).append hvalue).wrap (by decide) (by decide)

theorem balanced_ofDeclared_of_notMem {name : String} (hopen : '<' ∉ name.toList)
    (hclose : '>' ∉ name.toList) (hdot : '.' ∉ name.toList) : Balanced (ofDeclared name).text := by
  obtain ⟨n, hn⟩ := exists_collects name.toList
  rw [balanced_iff, ofDeclared, hn.balancedIn_iff (Nat.le_of_eq String.length_toList)
    (balancedIn_of_notMem (Int.le_refl 0) hopen hclose)]
  exact lastDotInside_of_notMem n hdot

theorem balanced_ofArguments {name : String} {arguments : List FieldType}
    (hname : Balanced (ofDeclared name).text) (h : ∀ text ∈ texts arguments, Balanced text) :
    Balanced (ofArguments name arguments).text := by
  unfold ofArguments
  split
  · exact hname
  · rename_i element
    split
    · exact (h element.text List.mem_cons_self).wrap (by decide) (by decide)
    · exact balanced_generic hname h
  · rename_i key value
    split
    · exact balanced_map (h key.text List.mem_cons_self)
        (h value.text (List.mem_cons_of_mem _ List.mem_cons_self))
    · exact balanced_generic hname h
  · exact balanced_generic hname h

mutual

theorem balanced_ofTypeRef : ∀ t : TypeRef, t.isWritable = true → Balanced (ofTypeRef t).text
  | ⟨name, arguments, _⟩, h => by
    rw [TypeRef.isWritable, Bool.and_eq_true] at h
    obtain ⟨hopen, hclose, hdot⟩ := Name.notMem_simple h.1
    rw [ofTypeRef]
    exact balanced_ofArguments (balanced_ofDeclared_of_notMem hopen hclose hdot)
      (balanced_ofTypeRefs arguments h.2)

theorem balanced_ofTypeRefs : ∀ ts : List TypeRef, TypeRef.allWritable ts = true →
    ∀ text ∈ texts (ofTypeRefs ts), Balanced text
  | [], _, _, htext => by cases htext
  | t :: ts, h, text, htext => by
    rw [TypeRef.allWritable, Bool.and_eq_true] at h
    rw [ofTypeRefs] at htext
    rcases List.mem_cons.mp htext with rfl | htext
    · exact balanced_nullable (balanced_ofTypeRef t h.1) t.nullable
    · exact balanced_ofTypeRefs ts h.2 text htext

end

end FieldType

/-- **The brackets of written types are balanced.** A type that stands in a source that was read has
a text with balanced brackets in the output, whatever names and arguments it has. -/
theorem Source.balanced_written {text : String} {s : Source Span} (h : parse text = .ok s)
    {w : Located Span Phrase} (hw : w ∈ s.phrases) {t : TypeRef} (ht : w.val = .type t)
    (isNullable : Bool) : Text.Balanced ((FieldType.ofTypeRef t).nullable isNullable).text := by
  have hsound : w.val.IsSound :=
    isSound_of_parse h hw w.val.self_mem_parts (by rw [ht]; rfl)
  rw [ht] at hsound
  exact FieldType.balanced_nullable (FieldType.balanced_ofTypeRef t hsound) isNullable

end Projection
