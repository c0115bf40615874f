import Projection.Dto.Compile

/-!
# Compilation and positions

Every part of a source knows its position, and compilation carries positions along, next to what it
decides by. This module moves a source to other positions and follows the move through every step:
the selections move, the faults move, and the types stay as they are. So positions decide nothing
but where a fault points to.

The main result is `Source.compile_move`. It holds for any change of positions, also for one that
forgets them all.
-/

namespace Projection

variable {P Q : Type} (f : P → Q)

/-! ### What has positions -/

/-- The fault with its positions changed. -/
def Fault.move : Fault P → Fault Q
  | .unknownEntity entity => .unknownEntity (entity.move f)
  | .duplicateType name first => .duplicateType (name.move f) (f first)
  | .duplicateNegative name first => .duplicateNegative (name.move f) (f first)
  | .idleNegative name => .idleNegative (name.move f)
  | .duplicateMacro name first => .duplicateMacro (name.move f) (f first)
  | .unknownMacro name => .unknownMacro (name.move f)
  | .notAllowed item pos place => .notAllowed item (f pos) place
  | .recursiveWithBody property body => .recursiveWithBody property (f body)
  | .nothingToSelect property kind body => .nothingToSelect (property.move f) kind (f body)
  | .ineligible usage property obstacle => .ineligible usage (property.move f) obstacle
  | .selectedTwice source first => .selectedTwice (source.move f) (f first)
  | .unknownProperty entity source available =>
    .unknownProperty entity (source.move f) available
  | .deletedSelected entity property => .deletedSelected entity (property.move f)
  | .missingDependency entity property dependency =>
    .missingDependency entity (property.move f) dependency
  | .nonNullOutsideInput mark => .nonNullOutsideInput (f mark)
  | .conflictingRoles later earlier => .conflictingRoles (f later) (f earlier)
  | .conflictingStances later earlier => .conflictingStances (f later) (f earlier)
  | .roleAsDefault role => .roleAsDefault (role.move f)
  | .invalidMutability value => .invalidMutability (value.move f)
  | .duplicateOutput type name first => .duplicateOutput type (name.move f) (f first)
  | .duplicateUser type name first => .duplicateUser type (name.move f) (f first)
  | .missingDefault name type => .missingDefault name (type.move f)
  | .invalidDefault name type value => .invalidDefault name (type.move f) (value.move f)
  | .within declaration fault => .within declaration (fault.move)

/-- The pick with its positions changed. -/
def Pick.move (pick : Pick P) : Pick Q where
  entity := pick.entity
  source := pick.source.move f
  path := pick.path
  name := pick.name
  newName := pick.newName
  nullability := pick.nullability.map (·.move f)
  throughNullable := pick.throughNullable
  explicit := pick.explicit

mutual

/-- The selection with its positions changed. -/
def Selection.move : Selection P → Selection Q
  | .leaf pick form => .leaf (pick.move f) form
  | .nested pick entity type inner => .nested (pick.move f) entity type (Selection.moveAll inner)

/-- The selections with their positions changed. -/
def Selection.moveAll : List (Selection P) → List (Selection Q)
  | [] => []
  | s :: rest => s.move :: Selection.moveAll rest

end

theorem Selection.moveAll_eq_map (selections : List (Selection P)) :
    Selection.moveAll f selections = selections.map (Selection.move f) := by
  induction selections with
  | nil => rfl
  | cons s rest ih => rw [Selection.moveAll, ih, List.map_cons]

theorem Selection.moveAll_append (first rest : List (Selection P)) :
    Selection.moveAll f (first ++ rest) =
      Selection.moveAll f first ++ Selection.moveAll f rest := by
  simp only [Selection.moveAll_eq_map, List.map_append]

/-- What is picked from items moves with them, if what is picked from one does. -/
theorem Item.filterMap_moveAll {α β : Type} {pick : Item P → Option α} {pick' : Item Q → Option β}
    {g : α → β} (items : List (Item P)) (h : ∀ item, pick' (item.move f) = (pick item).map g) :
    (Item.moveAll f items).filterMap pick' = (items.filterMap pick).map g := by
  rw [Item.moveAll_eq_map, List.filterMap_map, List.map_filterMap]
  congr 1
  funext item
  exact h item

/-- A result with its value changed and the positions of its fault. -/
def relocate {α β : Type} (g : α → β) : Except (Fault P) α → Except (Fault Q) β
  | .ok a => .ok (g a)
  | .error fault => .error (fault.move f)

section Relocate

variable {α β γ δ : Type} {g : α → γ} {h : β → δ}

@[simp] theorem relocate_ok (a : α) : relocate f g (.ok a) = .ok (g a) :=
  rfl

@[simp] theorem relocate_error (fault : Fault P) :
    relocate f g (.error fault) = .error (fault.move f) :=
  rfl

/-- Steps that move one by one move together. -/
theorem relocate_bind {x : Except (Fault P) α} {k : α → Except (Fault P) β}
    {x' : Except (Fault Q) γ} {k' : γ → Except (Fault Q) δ} (hx : x' = relocate f g x)
    (hk : ∀ a, k' (g a) = relocate f h (k a)) : (x' >>= k') = relocate f h (x >>= k) := by
  subst hx
  cases x with
  | error fault => rfl
  | ok a => exact hk a

end Relocate

@[simp] theorem Located.val_move {α : Type} (x : Located P α) : (x.move f).val = x.val :=
  rfl

@[simp] theorem Located.pos_move {α : Type} (x : Located P α) : (x.move f).pos = f x.pos :=
  rfl

/-- A search by value finds the same element at its new position. -/
theorem Located.find?_move {α : Type} [BEq α] (a : α) (seen : List (Located P α)) :
    (seen.map (·.move f)).find? (·.val == a) = (seen.find? (·.val == a)).map (·.move f) := by
  rw [List.find?_map]
  rfl

/-! ### Selections -/

namespace Selection

variable (schema : Schema)

@[simp] theorem pick_move (s : Selection P) : (s.move f).pick = s.pick.move f := by
  cases s <;> rfl

@[simp] theorem name_move (s : Selection P) : (s.move f).name = s.name := by
  cases s <;> rfl

@[simp] theorem hasAlias_move (item : Item P) : (item.move f).hasAlias = item.hasAlias := by
  cases item <;> simp [Item.move, Item.hasAlias, Selected.move]

theorem negatives_moveAll (items : List (Item P)) :
    negatives (Item.moveAll f items) = (negatives items).map (·.move f) := by
  refine Item.filterMap_moveAll f items ?_
  intro item
  cases item <;> rfl

theorem checkNegatives_move (seen names : List (Located P Name)) :
    checkNegatives (seen.map (·.move f)) (names.map (·.move f)) =
      relocate f id (checkNegatives seen names) := by
  induction names generalizing seen with
  | nil => rfl
  | cons name names ih =>
    rw [List.map_cons, checkNegatives, checkNegatives, Located.val_move, Located.find?_move]
    cases seen.find? (·.val == name.val) with
    | some first => rfl
    | none =>
      have hseen : seen.map (·.move f) ++ [name.move f] = (seen ++ [name]).map (·.move f) := by
        simp
      simp only [Option.map_none]
      rw [hseen, ih]

theorem prune_move (names : List (Located P Name)) (selections : List (Selection P)) :
    prune (names.map (·.move f)) (moveAll f selections) =
      relocate f (moveAll f) (prune names selections) := by
  induction names generalizing selections with
  | nil => rfl
  | cons name names ih =>
    rw [List.map_cons, prune, prune, moveAll_eq_map, List.any_map, List.filter_map]
    simp only [Function.comp_def, name_move, Located.val_move]
    split
    · rw [← moveAll_eq_map]
      exact ih _
    · rfl

theorem bodyOf_move {items : List (Item P)} {selected : Except (Fault P) (List (Selection P))}
    {selected' : Except (Fault Q) (List (Selection Q))}
    (h : selected' = relocate f (moveAll f) selected) :
    bodyOf (Item.moveAll f items) selected' = relocate f (moveAll f) (bodyOf items selected) := by
  unfold bodyOf
  rw [negatives_moveAll]
  refine relocate_bind f (checkNegatives_move f [] (negatives items)) ?_
  intro _
  exact relocate_bind f h fun all => prune_move f (negatives items) all

theorem macroAttributes_move (entity : Name) (name : Located P Name) :
    macroAttributes schema entity (name.move f) =
      relocate f id (macroAttributes schema entity name) := by
  unfold macroAttributes
  rw [Located.val_move]
  split
  · rfl
  · split <;> rfl

theorem ofMacro_move (entity : Name) (name : Located P Name)
    (nullability : Option (Located P Nullability)) (a : Attribute) :
    ofMacro entity (name.move f) (nullability.map (·.move f)) a =
      (ofMacro entity name nullability a).move f := by
  unfold ofMacro
  split <;> rfl

theorem bundle_move (site : Site) (name : Located P Name)
    (nullability : Option (Located P Nullability)) :
    bundle schema site (name.move f) (nullability.map (·.move f)) =
      relocate f (moveAll f) (bundle schema site name nullability) := by
  unfold bundle
  refine relocate_bind f (macroAttributes_move f schema site.entity name) ?_
  intro attributes
  simp only [pure, Except.pure, relocate_ok, moveAll_eq_map, List.map_map]
  congr 1
  apply List.map_congr_left
  intro a _
  exact ofMacro_move f site.entity name nullability a

theorem plainPick_move (entity : Name) (head : Selected P) :
    plainPick entity (head.move f) = (plainPick entity head).move f := by
  simp [plainPick, Pick.move, Selected.move, Function.comp_def]

theorem recursiveForm_move (site : Site) (property : Located P Name) :
    recursiveForm schema site (property.move f) =
      relocate f id (recursiveForm schema site property) := by
  unfold recursiveForm
  rw [Located.val_move]
  split
  · rfl
  · split
    · split <;> rfl
    · rfl

theorem plain_move (site : Site) (head : Selected P) :
    plain schema site (head.move f) = relocate f (moveAll f) (plain schema site head) := by
  have hpick (form : Form) : leaf (plainPick site.entity (head.move f)) form =
      (leaf (plainPick site.entity head) form).move f := by
    rw [plainPick_move]
    rfl
  have hrec : (head.move f).recursive = head.recursive := rfl
  simp only [plain, hrec, hpick]
  split
  · exact relocate_bind f (recursiveForm_move f schema site head.name) fun form => rfl
  · rfl

theorem idOnly_move (site : Site) (property : Located P Name)
    (nullability : Option (Located P Nullability)) (newName : Option (Located P Name)) :
    idOnly schema site (property.move f) (nullability.map (·.move f)) (newName.map (·.move f)) =
      relocate f (moveAll f) (idOnly schema site property nullability newName) := by
  have hname : (newName.map (·.move f)).map (·.val) = newName.map (·.val) := by
    simp [Function.comp_def]
  simp only [idOnly, Located.val_move, Located.pos_move, hname]
  split
  · rfl
  · split
    · split <;> rfl
    · rfl

theorem flattened_move (site : Site) (property : Located P Name) :
    flattened schema site (property.move f) = relocate f id (flattened schema site property) := by
  unfold flattened
  rw [Located.val_move]
  split
  · rfl
  · split <;> rfl

theorem map_through_moveAll (lead : Name) (a : Attribute) (selections : List (Selection P)) :
    (moveAll f selections).map (through lead a) =
      moveAll f (selections.map (through lead a)) := by
  rw [moveAll_eq_map, moveAll_eq_map, List.map_map, List.map_map]
  apply List.map_congr_left
  intro s _
  cases s <;> rfl

theorem renamed_moveAll (pattern : Option AliasPattern) (item : Item P)
    (selections : List (Selection P)) :
    renamed pattern (item.move f) (moveAll f selections) =
      moveAll f (renamed pattern item selections) := by
  cases pattern with
  | none => rfl
  | some pattern =>
    simp only [renamed, hasAlias_move]
    split
    · rfl
    · rw [moveAll_eq_map, moveAll_eq_map, List.map_map, List.map_map]
      apply List.map_congr_left
      intro s _
      cases s with
      | leaf pick form =>
        simp only [Function.comp_apply, mapPick, move, Pick.move]
        split <;> rfl
      | nested pick entity type inner =>
        simp only [Function.comp_apply, mapPick, move, Pick.move]
        split <;> rfl

mutual

theorem explicitNames_move : ∀ item : Item P,
    explicitNames (item.move f) = explicitNames item
  | .plain _ | .nested .. | .idOnly .. | .flatten .. | .bundle .. | .negative _ | .user _ => by
    simp [Item.move, explicitNames, Selected.move]
  | .group pattern items extent => by
    rw [Item.move, explicitNames, explicitNames, explicitNamesAll_moveAll items]

theorem explicitNamesAll_moveAll : ∀ items : List (Item P),
    explicitNamesAll (Item.moveAll f items) = explicitNamesAll items
  | [] => rfl
  | item :: items => by
    rw [Item.moveAll, explicitNamesAll, explicitNamesAll, explicitNames_move item,
      explicitNamesAll_moveAll items]

end

theorem macroOf_move (item : Item P) : macroOf (item.move f) = (macroOf item).map (·.move f) := by
  cases item <;> rfl

theorem checkMacro_move (seen : List (Located P Name)) (name : Located P Name) :
    checkMacro (seen.map (·.move f)) (name.move f) = relocate f id (checkMacro seen name) := by
  unfold checkMacro
  rw [Located.val_move, Located.find?_move]
  cases seen.find? (·.val == name.val) <;> rfl

-- By recursion on the syntax, as `ofItem` and `ofItems` are.
mutual

theorem ofItem_move (site : Site) (seen : List (Located P Name)) : ∀ item : Item P,
    ofItem schema site (seen.map (·.move f)) (item.move f) =
      relocate f (moveAll f) (ofItem schema site seen item)
  | .bundle name nullability => by
    rw [Item.move, ofItem, ofItem]
    exact relocate_bind f (checkMacro_move f seen name) fun _ => bundle_move f schema site name _
  | .negative name => by
    rw [Item.move, ofItem, ofItem]
    split <;> rfl
  | .user item => by
    rw [Item.move, ofItem, ofItem]
    split <;> rfl
  | .plain head => by
    rw [Item.move, ofItem, ofItem]
    exact plain_move f schema site head
  | .nested head items extent => by
    have hrec : (head.move f).recursive = head.recursive := rfl
    have hname : (head.move f).name.val = head.name.val := rfl
    rw [Item.move, ofItem, ofItem, hrec, hname, plainPick_move]
    split
    · rfl
    · split
      · rfl
      · split
        · rfl
        · rw [explicitNamesAll_moveAll]
          exact relocate_bind f (bodyOf_move f (ofItems_moveAll _ [] items)) fun inner => rfl
  | .idOnly property nullability newName => by
    rw [Item.move, ofItem, ofItem]
    exact idOnly_move f schema site property nullability newName
  | .flatten property lead items extent => by
    have hlead : (lead.map (·.move f)).map (·.val) = lead.map (·.val) := by
      simp [Function.comp_def]
    rw [Item.move, ofItem, ofItem, hlead, explicitNamesAll_moveAll]
    refine relocate_bind f (flattened_move f schema site property) ?_
    rintro ⟨a, target⟩
    refine relocate_bind f (bodyOf_move f (ofItems_moveAll _ [] items)) ?_
    intro inner
    simp only [pure, Except.pure, relocate_ok, ← map_through_moveAll]
    rfl
  | .group pattern items extent => by
    rw [Item.move, ofItem, ofItem]
    split
    · rfl
    · exact ofItems_moveAll _ [] items

theorem ofItems_moveAll (site : Site) (seen : List (Located P Name)) : ∀ items : List (Item P),
    ofItems schema site (seen.map (·.move f)) (Item.moveAll f items) =
      relocate f (moveAll f) (ofItems schema site seen items)
  | [] => rfl
  | item :: items => by
    rw [Item.moveAll, ofItems, ofItems, macroOf_move, ← List.map_append]
    refine relocate_bind f (ofItem_move site seen item) ?_
    intro first
    refine relocate_bind f (ofItems_moveAll site (seen ++ macroOf item) items) ?_
    intro rest
    rw [renamed_moveAll, ← moveAll_append]
    rfl

end

theorem ofBody_move (entity type : Name) (body : Body P) :
    ofBody schema entity type (body.move f) =
      relocate f (moveAll f) (ofBody schema entity type body) := by
  unfold ofBody
  rw [Body.move, explicitNamesAll_moveAll]
  exact bodyOf_move f (ofItems_moveAll f schema _ [] body.items)

end Selection

/-! ### Modifiers and annotations -/

/-- The modifiers with their positions changed. -/
def ModifierSet.move (set : ModifierSet P) : ModifierSet Q where
  role := set.role.map (·.move f)
  stance := set.stance.map (·.move f)
  deleted := set.deleted

namespace ModifierSet

theorem addRole_move (set : ModifierSet P) (role : Role) (pos : P) :
    (set.move f).addRole role (f pos) = relocate f (move f) (set.addRole role pos) := by
  unfold addRole
  cases hrole : set.role with
  | none => simp [move, hrole, Located.move]
  | some earlier =>
    by_cases hsame : earlier.val = role
    · simp [move, hrole, hsame, Located.move]
    · simp [move, hrole, hsame, Located.move, Fault.move]

theorem addStance_move (set : ModifierSet P) (stance : Stance) (pos : P) :
    (set.move f).addStance stance (f pos) = relocate f (move f) (set.addStance stance pos) := by
  unfold addStance
  cases hstance : set.stance with
  | none => simp [move, hstance, Located.move]
  | some earlier =>
    by_cases hsame : earlier.val = stance
    · simp [move, hstance, hsame, Located.move]
    · simp [move, hstance, hsame, Located.move, Fault.move]

theorem add_move (set : ModifierSet P) (m : Located P Modifier) :
    (set.move f).add (m.move f) = relocate f (move f) (set.add m) := by
  unfold add
  rw [Located.val_move, Located.pos_move]
  cases m.val with
  | input => exact addRole_move f set .input m.pos
  | specification => exact addRole_move f set .specification m.pos
  | stance s => exact addStance_move f set s m.pos
  | deleted => rfl

theorem foldlM_add_move (modifiers : List (Located P Modifier)) (set : ModifierSet P) :
    (modifiers.map (·.move f)).foldlM add (set.move f) =
      relocate f (move f) (modifiers.foldlM add set) := by
  induction modifiers generalizing set with
  | nil => rfl
  | cons m modifiers ih =>
    rw [List.map_cons, List.foldlM_cons, List.foldlM_cons]
    exact relocate_bind f (add_move f set m) ih

end ModifierSet

theorem Traits.resolve_move (source declaration : List (Located P Modifier)) (default : Stance) :
    Traits.resolve (source.map (·.move f)) (declaration.map (·.move f)) default =
      relocate f id (Traits.resolve source declaration default) := by
  unfold Traits.resolve
  refine relocate_bind f (ModifierSet.foldlM_add_move f source {}) ?_
  intro shared
  cases hrole : shared.role with
  | some role =>
    simp only [ModifierSet.move, hrole]
    rfl
  | none =>
    simp only [ModifierSet.move, hrole, Option.map_none]
    refine relocate_bind f (ModifierSet.foldlM_add_move f declaration {}) ?_
    intro own
    have hroles : ((own.move f).role.map (·.val)).getD .view =
        (own.role.map (·.val)).getD .view := by
      simp [ModifierSet.move, Function.comp_def]
    have hstances : ((own.move f).stance <|> shared.stance.map (·.move f)).map (·.val) =
        (own.stance <|> shared.stance).map (·.val) := by
      cases hown : own.stance with
      | none => simp [ModifierSet.move, hown, Function.comp_def]
      | some stance => simp [ModifierSet.move, hown]
    simp only [hroles, hstances]
    rfl

theorem Mutability.requests_move (tags : List (TagItem P)) :
    Mutability.requests (tags.map (·.move f)) = (Mutability.requests tags).map (·.move f) := by
  simp only [Mutability.requests, List.filter_map, List.flatMap_map, List.map_flatMap, List.map_map]
  congr 1
  funext tag
  simp [TagItem.move, List.filter_map, Function.comp_def]

theorem Mutability.resolve?_move (tags : List (TagItem P)) :
    Mutability.resolve? (tags.map (·.move f)) = relocate f id (Mutability.resolve? tags) := by
  have hfold (values : List (Located P Value)) (m : Mutability) :
      (values.map (·.move f)).foldlM (fun _ value => Mutability.ofValue value) m =
        relocate f id (values.foldlM (fun _ value => Mutability.ofValue value) m) := by
    induction values generalizing m with
    | nil => rfl
    | cons value values ih =>
      rw [List.map_cons, List.foldlM_cons, List.foldlM_cons]
      refine relocate_bind f (g := id) ?_ ih
      unfold Mutability.ofValue
      rw [Located.val_move]
      split
      · split
        · rfl
        · split <;> rfl
      · rfl
  rw [Mutability.resolve?, requests_move]
  exact hfold _ _

theorem Tag.ofItem_move (item : TagItem P) : Tag.ofItem (item.move f) = Tag.ofItem item := by
  simp [Tag.ofItem, TagItem.move, List.foldl_map]

/-! ### Properties -/

namespace UserProperty

theorem checkDefault_move (item : UserItem P) (nullable : Bool) :
    checkDefault (item.move f) nullable = relocate f id (checkDefault item nullable) := by
  unfold checkDefault
  cases hdefault : item.default with
  | none =>
    simp only [UserItem.move, hdefault, Option.map_none, Located.val_move]
    split <;> rfl
  | some value =>
    simp only [UserItem.move, hdefault, Option.map_some, Located.val_move]
    split <;> rfl

theorem ofItem_move (traits : Traits) (item : UserItem P) :
    ofItem traits (item.move f) = relocate f id (ofItem traits item) := by
  unfold ofItem
  refine relocate_bind f (checkDefault_move f item _) ?_
  intro _
  have htags : (item.move f).tags.map Tag.ofItem = item.tags.map Tag.ofItem := by
    simp [UserItem.move, Function.comp_def, Tag.ofItem_move]
  have hdefault : (item.move f).default.map (·.val) = item.default.map (·.val) := by
    simp [UserItem.move, Function.comp_def]
  rw [htags, hdefault]
  rfl

theorem ofItems_move (type : Name) (traits : Traits) (outputs : List (Located P Name))
    (items : List (UserItem P)) :
    ofItems type traits (outputs.map (·.move f)) (items.map (·.move f)) =
      relocate f id (ofItems type traits outputs items) := by
  induction items generalizing outputs with
  | nil => rfl
  | cons item items ih =>
    have hname : (item.move f).name = item.name.move f := rfl
    rw [List.map_cons, ofItems, ofItems, hname, Located.val_move, Located.find?_move]
    cases outputs.find? (·.val == item.name.val) with
    | some first => rfl
    | none =>
      have houtputs : outputs.map (·.move f) ++ [item.name.move f] =
          (outputs ++ [item.name]).map (·.move f) := by
        simp
      simp only [Option.map_none]
      rw [houtputs]
      refine relocate_bind f (ofItem_move f traits item) ?_
      intro property
      exact relocate_bind f (ih _) fun rest => rfl

end UserProperty

namespace Property

variable (schema : Schema) (traits : Traits) (mutable : Bool)

theorem bound_move (pick : Pick P) :
    bound schema traits (pick.move f) = relocate f id (bound schema traits pick) := by
  unfold bound
  refine relocate_bind f (g := id) ?_ ?_
  · unfold attributeOf
    simp only [Pick.move, Located.val_move]
    split <;> rfl
  intro a
  refine relocate_bind f (g := id) ?_ ?_
  · unfold checkKind
    simp only [Pick.move, id]
    split
    · split <;> rfl
    · split <;> rfl
    · rfl
  intro _
  refine relocate_bind f (g := id) ?_ fun _ => rfl
  unfold checkMark
  cases hn : pick.nullability with
  | none => simp [Pick.move, hn]
  | some mark =>
    obtain ⟨mark, pos⟩ := mark
    cases mark with
    | nullable => simp [Pick.move, hn, Located.move]
    | nonNull =>
      simp only [Pick.move, hn, Option.map_some, Located.move]
      split <;> rfl

theorem ofForm_move (pick : Pick P) (a : Attribute) (form : Form) :
    ofForm schema (pick.move f) a form = relocate f id (ofForm schema pick a form) := by
  cases form with
  | value =>
    simp only [ofForm]
    split <;> rfl
  | idOnly =>
    simp only [ofForm]
    refine relocate_bind f (g := id) ?_ fun _ => rfl
    simp only [idType]
    split <;> rfl
  | recursive type => rfl

theorem infoOf_move (pick : Pick P) (a : Attribute) (type : String) :
    infoOf traits (pick.move f) a type = infoOf traits pick a type := by
  have hmarks : (pick.move f).nullability.map (·.val) = pick.nullability.map (·.val) := by
    simp [Pick.move, Function.comp_def]
  have hnullable : isNullable traits (pick.move f) a = isNullable traits pick a := by
    unfold isNullable
    cases hn : pick.nullability with
    | none => simp [Pick.move, hn]
    | some mark =>
      obtain ⟨mark, pos⟩ := mark
      cases mark <;> simp [Pick.move, hn, Located.move]
  unfold infoOf
  rw [hmarks, hnullable]
  rfl

/-- What is taken, with its positions changed. -/
def Taken.move (taken : Taken P) : Taken Q where
  origins := taken.origins.map (·.move f)
  outputs := taken.outputs.map (·.move f)

theorem origin?_move (pick : Pick P) : origin? (pick.move f) = (origin? pick).map (·.move f) := by
  cases hexplicit : pick.explicit <;> simp [origin?, Pick.move, hexplicit, Located.move]

theorem Taken.checkOrigin_move (taken : Taken P) (pick : Pick P) :
    (taken.move f).checkOrigin (pick.move f) = relocate f id (taken.checkOrigin pick) := by
  have hfind : ((origin? (pick.move f)).bind fun o =>
        (taken.move f).origins.find? (·.val == o.val)) =
      ((origin? pick).bind fun o => taken.origins.find? (·.val == o.val)).map (·.move f) := by
    rw [origin?_move]
    cases origin? pick with
    | none => rfl
    | some o => exact Located.find?_move f o.val taken.origins
  unfold checkOrigin
  rw [hfind]
  cases (origin? pick).bind fun o => taken.origins.find? (·.val == o.val) <;> rfl

theorem Taken.checkOutput_move (taken : Taken P) (type : Name) (pick : Pick P) :
    (taken.move f).checkOutput type (pick.move f) =
      relocate f id (taken.checkOutput type pick) := by
  have hfind : (taken.move f).outputs.find? (·.val == (pick.move f).name) =
      (taken.outputs.find? (·.val == pick.name)).map (·.move f) :=
    Located.find?_move f pick.name taken.outputs
  unfold checkOutput
  rw [hfind]
  cases taken.outputs.find? (·.val == pick.name) <;> rfl

theorem Taken.add_move (taken : Taken P) (pick : Pick P) :
    (taken.move f).add (pick.move f) = (taken.add pick).move f := by
  have hname : (⟨(pick.move f).name, (pick.move f).source.pos⟩ : Located Q Name) =
      Located.move f ⟨pick.name, pick.source.pos⟩ := rfl
  simp [Taken.add, Taken.move, origin?_move, hname, Option.toList_map]

mutual

theorem ofSelection_move : ∀ s : Selection P,
    ofSelection schema traits mutable (s.move f) =
      relocate f id (ofSelection schema traits mutable s)
  | .leaf pick form => by
    rw [Selection.move, ofSelection, ofSelection]
    refine relocate_bind f (bound_move f schema traits pick) ?_
    intro a
    refine relocate_bind f (ofForm_move f schema pick a form) ?_
    rintro ⟨type, target⟩
    simp only [id, infoOf_move]
    rfl
  | .nested pick entity type inner => by
    rw [Selection.move, ofSelection, ofSelection]
    refine relocate_bind f (bound_move f schema traits pick) ?_
    intro a
    refine relocate_bind f (ofSelections_moveAll type {} inner) ?_
    intro properties
    rw [id, infoOf_move]
    rfl

theorem ofSelections_moveAll (type : Name) (taken : Taken P) : ∀ selections : List (Selection P),
    ofSelections schema traits mutable type (taken.move f) (Selection.moveAll f selections) =
      relocate f id (ofSelections schema traits mutable type taken selections)
  | [] => rfl
  | s :: rest => by
    rw [Selection.moveAll, ofSelections, ofSelections, Selection.pick_move, Taken.add_move]
    refine relocate_bind f (Taken.checkOrigin_move f taken s.pick) ?_
    intro _
    refine relocate_bind f (ofSelection_move s) ?_
    intro property
    refine relocate_bind f (Taken.checkOutput_move f taken type s.pick) ?_
    intro _
    exact relocate_bind f (ofSelections_moveAll type (taken.add s.pick) rest) fun _ => rfl

end

end Property

/-! ### Declarations and sources -/

variable (schema : Schema) (defaults : Defaults)

theorem Body.users_move (body : Body P) : (body.move f).users = body.users.map (·.move f) := by
  refine Item.filterMap_moveAll f body.items ?_
  intro item
  cases item <;> rfl

theorem Dto.ofDeclaration_move (entity : Name) (shared : List (Located P Modifier))
    (d : Declaration P) :
    Dto.ofDeclaration schema defaults entity (shared.map (·.move f)) (d.move f) =
      relocate f id (Dto.ofDeclaration schema defaults entity shared d) := by
  unfold Dto.ofDeclaration
  simp only [Declaration.move, Located.val_move]
  refine relocate_bind f (Selection.ofBody_move f schema entity d.name.val d.body) ?_
  intro selections
  refine relocate_bind f (Traits.resolve_move f shared d.modifiers defaults.stance) ?_
  intro traits
  refine relocate_bind f (Mutability.resolve?_move f d.tags) ?_
  intro mutability
  refine relocate_bind f
    (Property.ofSelections_moveAll f schema traits _ d.name.val {} selections) ?_
  intro properties
  have houtputs : (Selection.moveAll f selections).map
        (fun s => (⟨s.name, s.pick.source.pos⟩ : Located Q Name)) =
      (selections.map fun s => (⟨s.name, s.pick.source.pos⟩ : Located P Name)).map (·.move f) := by
    rw [Selection.moveAll_eq_map, List.map_map, List.map_map]
    apply List.map_congr_left
    intro s _
    cases s <;> rfl
  rw [houtputs, Body.users_move]
  refine relocate_bind f (UserProperty.ofItems_move f d.name.val traits _ d.body.users) ?_
  intro users
  have htags : (d.tags.map (·.move f)).map Tag.ofItem = d.tags.map Tag.ofItem := by
    simp [Function.comp_def, Tag.ofItem_move]
  rw [htags]
  rfl

theorem Source.checkNames_move (seen : List (Located P Name)) (ds : List (Declaration P)) :
    checkNames (seen.map (·.move f)) (ds.map (·.move f)) = relocate f id (checkNames seen ds) := by
  induction ds generalizing seen with
  | nil => rfl
  | cons d ds ih =>
    have hname : (d.move f).name = d.name.move f := rfl
    rw [List.map_cons, checkNames, checkNames, hname, Located.val_move, Located.find?_move]
    cases seen.find? (·.val == d.name.val) with
    | some first => rfl
    | none =>
      have hseen : seen.map (·.move f) ++ [d.name.move f] = (seen ++ [d.name]).map (·.move f) := by
        simp
      simp only [Option.map_none]
      rw [hseen]
      exact ih _

/-- **Positions do not decide what a source compiles to.** With its positions changed it compiles
to the same types, or it has the same fault at the changed positions. -/
theorem Source.compile_move (s : Source P) :
    (s.move f).compile schema defaults = relocate f id (s.compile schema defaults) := by
  have hdeclarations (ds : List (Declaration P)) :
      (ds.map (·.move f)).mapM (fun d => inDeclaration d
          (Dto.ofDeclaration schema defaults s.entity.val (s.modifiers.map (·.move f)) d)) =
        relocate f id (ds.mapM fun d =>
          inDeclaration d (Dto.ofDeclaration schema defaults s.entity.val s.modifiers d)) := by
    induction ds with
    | nil => rfl
    | cons d ds ih =>
      rw [List.map_cons, List.mapM_cons, List.mapM_cons]
      refine relocate_bind f (g := id) ?_ fun _ => relocate_bind f ih fun _ => rfl
      rw [Dto.ofDeclaration_move]
      cases Dto.ofDeclaration schema defaults s.entity.val s.modifiers d <;> rfl
  have hentity : (s.move f).entity.val = s.entity.val := rfl
  rw [compile, compile, hentity]
  by_cases hunknown : (schema.entity? s.entity.val).isNone = true
  · rw [if_pos hunknown, if_pos hunknown]
    rfl
  · rw [if_neg hunknown, if_neg hunknown]
    exact relocate_bind f (checkNames_move f [] s.declarations)
      fun _ => hdeclarations s.declarations

/-! ### Faults -/

namespace Fault

variable (fault : Fault P)

@[simp]
theorem code_move : (fault.move f).code = fault.code := by
  induction fault with
  | within declaration fault ih => exact ih
  | _ => rfl

@[simp]
theorem message_move : (fault.move f).message = fault.message := by
  induction fault with
  | within declaration fault ih =>
    exact congrArg (· ++ " in declaration `" ++ declaration ++ "`") ih
  | _ => rfl

@[simp]
theorem help_move : (fault.move f).help = fault.help := by
  induction fault with
  | within declaration fault ih => exact ih
  | _ => rfl

end Fault

end Projection
