import Projection.Proofs.Source.Locating
import Projection.Proofs.Token.Tiling

/-!
# The positions of a syntax tree

Every part of a source that was read has the position of what it describes: the name of a property
is the text at its position, and a body starts and ends with its braces (`Part.PointsAt`). The items
of a body stand between its braces in their order, and the body of an item stands behind it and
before the next one (`Body.Encloses`).

`Proofs.Source.Locating` finds the parts among the tokens by number. The tokens tile the text, so
their numbers and their bytes have the same order; `edge` is the byte where a token starts.
-/

namespace Projection

/-! ### What a position says -/

/-- The body of an item, if it has one, stands behind the item, and both stand from the byte `lo` up
to `hi`. -/
structure Item.Sits (lo hi : Nat) (item : Item Span) : Prop where
  start : lo ≤ item.span.start
  nonempty : item.span.start < item.span.stop
  stop : item.span.stop ≤ hi
  body : ∀ extent, item.extent? = some extent → item.span.stop ≤ extent.start ∧ extent.stop ≤ hi

/-- The items stand between the braces of a body in their order. The body of an item stands behind
the item and before the next one. -/
structure Body.Encloses (b : Body Span) : Prop where
  inside : ∀ item ∈ b.items, b.extent.start < item.span.start ∧ item.span.stop < b.extent.stop
  ordered : b.items.Pairwise fun i j =>
    i.span.start < j.span.start ∧ i.span.stop ≤ j.span.start
  bodies : ∀ item ∈ b.items, ∀ extent, item.extent? = some extent →
    b.extent.start < extent.start ∧ extent.stop < b.extent.stop ∧ item.span.stop ≤ extent.start
  apart : b.items.Pairwise fun i j => ∀ extent, i.extent? = some extent →
    extent.stop ≤ j.span.start

/-- The position of a part is that of what it describes. -/
def Part.PointsAt (text : String) : Part Span → Prop
  | name w => w.pos.Cuts text w.val
  | bundle w => ∃ gap, w.pos.Cuts text ("#" ++ gap ++ w.val)
  | modifier m => m.pos.Cuts text m.val.text
  | pattern p => ∃ inner, p.pos.Cuts text ("as" ++ inner ++ ")")
  | body b => (∃ inner, b.extent.Cuts text ("\x7b" ++ inner ++ "\x7d")) ∧ b.Encloses

theorem Item.Sits.mono {lo hi lo' hi' : Nat} {item : Item Span} (h : item.Sits lo hi)
    (hlo : lo' ≤ lo) (hhi : hi ≤ hi') : item.Sits lo' hi' := by
  refine ⟨Nat.le_trans hlo h.start, h.nonempty, Nat.le_trans h.stop hhi, fun extent hextent => ?_⟩
  obtain ⟨hstart, hstop⟩ := h.body extent hextent
  exact ⟨hstart, Nat.le_trans hstop hhi⟩

/-- Items in a row between the braces. -/
theorem Body.encloses_of_sits {b : Body Span} {lo hi : Nat} (hlo : b.extent.start < lo)
    (hhi : hi < b.extent.stop) (hall : ∀ item ∈ b.items, item.Sits lo hi)
    (hrow : b.items.Pairwise fun i j => ∃ mid, i.Sits lo mid ∧ j.Sits mid hi) : b.Encloses := by
  refine ⟨fun item hitem => ?_, hrow.imp ?_, fun item hitem extent hextent => ?_, hrow.imp ?_⟩
  · obtain ⟨hstart, _, hstop, _⟩ := hall item hitem
    omega
  · rintro i j ⟨mid, hi, hj⟩
    have := hi.nonempty
    have := hi.stop
    have := hj.start
    omega
  · obtain ⟨hstart, hne, hstop, hbody⟩ := hall item hitem
    obtain ⟨hbehind, hend⟩ := hbody extent hextent
    omega
  · rintro i j ⟨mid, hi, hj⟩ extent hextent
    exact Nat.le_trans (hi.body extent hextent).2 hj.start

/-! ### Tokens in a text -/

namespace Token

/-- The tokens stand in the text one behind the other, each at the piece it was read from. -/
structure Laid (text : String) (tokens : List (Located Span Token)) : Prop where
  cuts : ∀ t ∈ tokens, ∃ piece, t.pos.Cuts text piece ∧ Stands piece.toList t.val
  apart : tokens.Pairwise fun t u => t.pos.stop ≤ u.pos.start

/-- The byte where a token starts; behind the last token it is the end of the text. -/
def edge (text : String) (tokens : List (Located Span Token)) (i : Nat) : Nat :=
  (tokens[i]?.map (·.pos.start)).getD text.utf8ByteSize

/-- The place of a range of tokens in the text. -/
def place (tokens : List (Located Span Token)) (r : TokenRange) : Span :=
  r.span (tokens.map (·.pos)).toArray

variable {text : String} {tokens : List (Located Span Token)}

theorem laid_of_tokenize (h : tokenize text = .ok tokens) : Laid text tokens :=
  ⟨fun _ ht => cuts_of_tokenize h ht, (tiles_of_tokenize h).pairwise⟩

namespace Laid

variable {i j : Nat} {t u : Located Span Token} {r : TokenRange}

theorem filter (h : Laid text tokens) (p : Located Span Token → Bool) :
    Laid text (tokens.filter p) :=
  ⟨fun t ht => h.cuts t (List.mem_of_mem_filter ht), h.apart.filter p⟩

theorem lt (h : Laid text tokens) (ht : t ∈ tokens) : t.pos.start < t.pos.stop := by
  obtain ⟨piece, hcuts, hstands⟩ := h.cuts t ht
  exact hcuts.lt hstands.ne_empty

theorem stop_le (h : Laid text tokens) (ht : t ∈ tokens) : t.pos.stop ≤ text.utf8ByteSize := by
  obtain ⟨piece, hcuts, _⟩ := h.cuts t ht
  obtain ⟨before, after, rfl, _, hstop⟩ := Span.cuts_iff.mp hcuts
  simp only [String.utf8ByteSize_append]
  omega

theorem stop_le_start (h : Laid text tokens) (ht : tokens[i]? = some t) (hu : tokens[j]? = some u)
    (hij : i < j) : t.pos.stop ≤ u.pos.start := by
  obtain ⟨hi, rfl⟩ := List.getElem?_eq_some_iff.mp ht
  obtain ⟨hj, rfl⟩ := List.getElem?_eq_some_iff.mp hu
  exact List.pairwise_iff_getElem.mp h.apart i j hi hj hij

theorem edge_eq (ht : tokens[i]? = some t) : edge text tokens i = t.pos.start := by
  rw [edge, ht]
  rfl

theorem stop_le_edge (h : Laid text tokens) (ht : tokens[i]? = some t) (hij : i < j) :
    t.pos.stop ≤ edge text tokens j := by
  cases hu : tokens[j]? with
  | none =>
    rw [edge, hu]
    exact h.stop_le (List.mem_of_getElem? ht)
  | some u =>
    rw [edge_eq hu]
    exact h.stop_le_start ht hu hij

theorem edge_le_edge (h : Laid text tokens) (hij : i ≤ j) :
    edge text tokens i ≤ edge text tokens j := by
  rcases Nat.eq_or_lt_of_le hij with rfl | hij
  · exact Nat.le_refl _
  · cases ht : tokens[i]? with
    | none =>
      have hu : tokens[j]? = none :=
        List.getElem?_eq_none (Nat.le_trans (List.getElem?_eq_none_iff.mp ht) (Nat.le_of_lt hij))
      rw [edge, edge, ht, hu]
    | some t =>
      rw [edge_eq ht]
      exact Nat.le_trans t.pos.ordered (h.stop_le_edge ht hij)

theorem place_eq (ht : tokens[r.first]? = some t) (hu : tokens[r.last]? = some u) :
    place tokens r = t.pos.union u.pos := by
  simp [place, TokenRange.span, ht, hu]

/-- A range of tokens starts where its first token starts and ends where its last one ends. -/
theorem place_bounds (h : Laid text tokens) (hr : r.first ≤ r.last)
    (ht : tokens[r.first]? = some t) (hu : tokens[r.last]? = some u) :
    (place tokens r).start = t.pos.start ∧ (place tokens r).stop = u.pos.stop := by
  have ht' := t.pos.ordered
  have hu' := u.pos.ordered
  rw [place_eq ht hu]
  simp only [Span.union]
  -- the union is taken of one token with itself, or of two tokens that stand apart
  rcases Nat.eq_or_lt_of_le hr with heq | hlt
  · rw [heq, hu] at ht
    obtain rfl : u = t := Option.some.inj ht
    omega
  · have hle := h.stop_le_start ht hu hlt
    omega

theorem edges_of_within {lo hi : Nat} (h : Laid text tokens) (hr : r.Within lo hi)
    (hhi : hi ≤ tokens.length) :
    edge text tokens lo ≤ (place tokens r).start ∧ (place tokens r).start < (place tokens r).stop ∧
      (place tokens r).stop ≤ edge text tokens hi := by
  have hlast : r.last < tokens.length := Nat.lt_of_lt_of_le hr.last hhi
  have hfirst : r.first < tokens.length := Nat.lt_of_le_of_lt hr.ordered hlast
  have ht := List.getElem?_eq_getElem hfirst
  have hu := List.getElem?_eq_getElem hlast
  obtain ⟨hstart, hstop⟩ := h.place_bounds hr.ordered ht hu
  have hedge := h.edge_le_edge hr.first
  have hedge' := h.edge_le_edge hr.ordered
  have hlt := h.lt (List.mem_of_getElem? hu)
  have hend := h.stop_le_edge hu hr.last
  rw [edge_eq ht] at hedge hedge'
  rw [edge_eq hu] at hedge'
  omega

/-- One token stands where its text is. -/
theorem cuts_of_isAt (h : Laid text tokens) {t : Token} (ht : t.isVerbatim = true)
    (hr : r.IsAt (tokens.map (·.val)) t) : (place tokens r).Cuts text t.text := by
  obtain ⟨heq, hat⟩ := hr
  rw [List.getElem?_map] at hat
  obtain ⟨u, hu, rfl⟩ := Option.map_eq_some_iff.mp hat
  obtain ⟨piece, hcuts, hstands⟩ := h.cuts u (List.mem_of_getElem? hu)
  rw [place_eq hu (heq ▸ hu), Span.union_self, hstands.text_eq ht]
  exact hcuts

/-- A range of tokens stands where the texts of its two ends are. -/
theorem cuts_of_runs (h : Laid text tokens) {t u : Token} (ht : t.isVerbatim = true)
    (hu : u.isVerbatim = true) (hr : r.Runs (tokens.map (·.val)) t u) :
    ∃ gap, (place tokens r).Cuts text (t.text ++ gap ++ u.text) := by
  obtain ⟨hlt, hfirst, hlast⟩ := hr
  rw [List.getElem?_map] at hfirst hlast
  obtain ⟨t, hat, rfl⟩ := Option.map_eq_some_iff.mp hfirst
  obtain ⟨u, hat', rfl⟩ := Option.map_eq_some_iff.mp hlast
  obtain ⟨piece, hcuts, hstands⟩ := h.cuts t (List.mem_of_getElem? hat)
  obtain ⟨piece', hcuts', hstands'⟩ := h.cuts u (List.mem_of_getElem? hat')
  rw [place_eq hat hat', hstands.text_eq ht, hstands'.text_eq hu]
  exact hcuts.union hcuts' (h.stop_le_start hat hat' hlt)

/-! ### Items and bodies -/

theorem sits_of_lies {lo hi : Nat} {item : Item TokenRange} (h : Laid text tokens)
    (hitem : item.Lies lo hi) (hhi : hi ≤ tokens.length) :
    (item.move (place tokens)).Sits (edge text tokens lo) (edge text tokens hi) := by
  obtain ⟨mid, hmid, hfront, hback, hextent⟩ := hitem
  have hedges := h.edges_of_within hfront (Nat.le_trans hmid hhi)
  have hedges' := h.edges_of_within hback (Nat.le_trans hmid hhi)
  have hmid' := h.edge_le_edge hmid
  have hspan : (item.move (place tokens)).span =
      (place tokens item.front).union (place tokens item.back) := by
    rw [Item.span_eq, Item.front_move, Item.back_move]
  have hstart : (item.move (place tokens)).span.start =
      min (place tokens item.front).start (place tokens item.back).start := by rw [hspan]; rfl
  have hstop : (item.move (place tokens)).span.stop =
      max (place tokens item.front).stop (place tokens item.back).stop := by rw [hspan]; rfl
  refine ⟨by omega, by omega, by omega, fun extent h' => ?_⟩
  rw [Item.extent?_move] at h'
  obtain ⟨r, hr, rfl⟩ := Option.map_eq_some_iff.mp h'
  have hedges'' := h.edges_of_within (hextent r hr) hhi
  omega

/-- What stands in a row by number stands in a row in the text. -/
theorem sits_of_row {lo hi : Nat} {items : List (Item TokenRange)} (h : Laid text tokens)
    (hrow : Item.Row hi lo items) (hhi : hi ≤ tokens.length) :
    (∀ item ∈ items, (item.move (place tokens)).Sits (edge text tokens lo) (edge text tokens hi)) ∧
      items.Pairwise fun i j => ∃ mid, (i.move (place tokens)).Sits (edge text tokens lo) mid ∧
        (j.move (place tokens)).Sits mid (edge text tokens hi) := by
  induction hrow with
  | nil => exact ⟨List.forall_mem_nil _, .nil⟩
  | @cons lo mid item items hitem hrest ih =>
    obtain ⟨hall, hpairs⟩ := ih
    have hle := h.edge_le_edge (Nat.le_of_lt hitem.lt)
    have hle' := h.edge_le_edge hrest.le
    have hfirst := h.sits_of_lies hitem (Nat.le_trans hrest.le hhi)
    -- the first item ends at `edge mid`, where the others may start
    constructor
    · refine List.forall_mem_cons.mpr ⟨hfirst.mono (Nat.le_refl _) hle', fun other hother => ?_⟩
      exact (hall other hother).mono hle (Nat.le_refl _)
    · refine .cons (fun other hother => ⟨_, hfirst, hall other hother⟩) (hpairs.imp ?_)
      rintro i j ⟨between, hi, hj⟩
      exact ⟨between, hi.mono hle (Nat.le_refl _), hj⟩

theorem encloses_of_isAmong {b : Body TokenRange} (h : Laid text tokens)
    (hb : (Part.body b).IsAmong (tokens.map (·.val))) : (b.move (place tokens)).Encloses := by
  obtain ⟨⟨hlt, hfirst, hlast⟩, hrow⟩ := hb
  rw [List.getElem?_map] at hfirst hlast
  obtain ⟨t, ht, _⟩ := Option.map_eq_some_iff.mp hfirst
  obtain ⟨u, hu, _⟩ := Option.map_eq_some_iff.mp hlast
  obtain ⟨hstart, hstop⟩ := h.place_bounds (Nat.le_of_lt hlt) ht hu
  have hhi : b.extent.last ≤ tokens.length := Nat.le_of_lt (List.getElem?_eq_some_iff.mp hu).1
  obtain ⟨hall, hpairs⟩ := h.sits_of_row hrow hhi
  have hopen : (place tokens b.extent).start < edge text tokens (b.extent.first + 1) := by
    have hbrace := h.lt (List.mem_of_getElem? ht)
    have hnext : t.pos.stop ≤ edge text tokens (b.extent.first + 1) :=
      h.stop_le_edge ht (Nat.lt_succ_self b.extent.first)
    omega
  have hclose : edge text tokens b.extent.last < (place tokens b.extent).stop := by
    have hbrace := h.lt (List.mem_of_getElem? hu)
    rw [edge_eq hu]
    omega
  refine Body.encloses_of_sits hopen hclose ?_ ?_
  · rw [Body.move, Item.moveAll_eq_map]
    exact List.forall_mem_map.mpr hall
  · rw [Body.move, Item.moveAll_eq_map]
    exact List.pairwise_map.mpr hpairs

theorem pointsAt_of_isAmong {part : Part TokenRange} (h : Laid text tokens)
    (hpart : part.IsAmong (tokens.map (·.val))) : (part.move (place tokens)).PointsAt text := by
  cases part with
  | name w => exact h.cuts_of_isAt rfl hpart
  | bundle w =>
    obtain ⟨gap, hcuts⟩ := h.cuts_of_runs rfl rfl hpart
    exact ⟨gap, hcuts⟩
  | modifier m => exact h.cuts_of_isAt rfl hpart
  | pattern p =>
    obtain ⟨inner, hcuts⟩ := h.cuts_of_runs rfl rfl hpart.1
    exact ⟨inner, hcuts⟩
  | body b =>
    obtain ⟨inner, hcuts⟩ := h.cuts_of_runs rfl rfl hpart.1
    exact ⟨⟨inner, hcuts⟩, h.encloses_of_isAmong hpart⟩

end Laid

end Token

namespace Source

/-- What is read from a text is read from its tokens without comments and blanks, and every part of
it has its place in the text from these. -/
theorem exists_tokens_of_parse {text : String} {s : Source Span} (h : parse text = .ok s) :
    ∃ tokens, Token.tokenize text = .ok tokens ∧ ∀ part ∈ s.parts, ∃ found : Part TokenRange,
      found.IsAmong ((tokens.filter fun t => !t.val.isTrivia).map (·.val)) ∧
        found.move (Token.place (tokens.filter fun t => !t.val.isTrivia)) = part := by
  obtain ⟨tokens, s', htokens, hs', rfl⟩ := exists_of_parse h
  refine ⟨tokens, htokens, fun part hpart => ?_⟩
  rw [parts_move] at hpart
  obtain ⟨found, hfound, rfl⟩ := List.mem_map.mp hpart
  exact ⟨found, isAmong_of_ofSignificant hs' hfound, rfl⟩

/-- **Positions point at what they describe.** If a text is read, then each name in its syntax tree,
at any depth, is the text at its position, and so is each modifier. A macro is there with its `#`, a
pattern with its `as` and its parenthesis, and a body with its braces. Within a body the spans of
the items are between the braces and in their order, without an overlap; the body of an item is
between this item and the next. -/
theorem parts_point_at_text {text : String} {s : Source Span} (h : parse text = .ok s) :
    ∀ part ∈ s.parts, part.PointsAt text := by
  intro part hpart
  obtain ⟨tokens, htokens, hparts⟩ := exists_tokens_of_parse h
  obtain ⟨found, hfound, rfl⟩ := hparts part hpart
  have hlaid := (Token.laid_of_tokenize htokens).filter fun t => !t.val.isTrivia
  exact hlaid.pointsAt_of_isAmong hfound

/-- The characters before a part need not be of one byte. -/
theorem order_parts_point_at_text :
    let text := "export Shop /*é*/ fixed Order \x7b # all, buyer as by " ++
      "\x7b as(^id -> no) \x7b id \x7d \x7d \x7d"
    ∃ s, parse text = .ok s ∧ s.parts.length = 10 ∧ ∀ part ∈ s.parts, part.PointsAt text := by
  intro text
  have h : (parse text).toOption.map (·.parts.length) = some 10 := by decide +kernel
  obtain ⟨s, hs, hlength⟩ := Option.map_eq_some_iff.mp h
  have hparse := eq_ok_of_toOption hs
  exact ⟨s, hparse, hlength, parts_point_at_text hparse⟩

end Source

end Projection
