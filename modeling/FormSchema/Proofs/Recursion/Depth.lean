import FormSchema.Proofs.Recursion.Limited

/-!
How deep reconciliation goes. It always comes to an end, and the limit on the items below each other need not be more
than the heights of the sample and of the item before together, and two. Neither height goes down with every item: an
array item over anything but an array goes on with an empty object, and what stands for the elements of an array is
no part of the array. What goes down is the height that the items may grow to.
-/
namespace FormSchema
open OrderedMap (keys)

/-- A fold that can be left without a result gives that of a plain fold, if each step does. -/
private theorem foldlM_eq_foldl {α β : Type} {step : β → α → Option β} {plain : β → α → β} (p : β → Prop)
    (xs : List α) (hstep : ∀ acc, p acc → ∀ x ∈ xs, step acc x = some (plain acc x) ∧ p (plain acc x)) {start : β}
    (h : p start) : xs.foldlM step start = some (xs.foldl plain start) ∧ p (xs.foldl plain start) := by
  induction xs generalizing start with
  | nil => exact ⟨rfl, h⟩
  | cons x rest ih =>
    obtain ⟨hx, hp⟩ := hstep start h x List.mem_cons_self
    rw [List.foldlM_cons, hx]
    exact ih (fun acc hacc y hy => hstep acc hacc y (List.mem_cons_of_mem x hy)) hp

namespace Json

private theorem exists_mem_itemsHeight {items : List Json} (h : items ≠ []) :
    ∃ item ∈ items, itemsHeight items = item.height + 1 := by
  induction items with
  | nil => exact absurd rfl h
  | cons first rest ih =>
    rw [itemsHeight]
    by_cases hdeeper : itemsHeight rest ≤ first.height + 1
    · exact ⟨first, List.mem_cons_self, Nat.max_eq_left hdeeper⟩
    · have hrest : rest ≠ [] := by
        rintro rfl
        exact hdeeper (Nat.zero_le _)
      obtain ⟨item, hitem, hheight⟩ := ih hrest
      exact ⟨item, List.mem_cons_of_mem first hitem, by omega⟩

/-- The plausible object of an array nests no deeper than the deepest element. -/
private theorem exists_mem_height_plausibleObject_le {items : List Json} (h : items ≠ []) :
    ∃ item ∈ items, (object (plausibleObject items)).height ≤ item.height := by
  obtain ⟨item, hitem, hheight⟩ := exists_mem_itemsHeight h
  have hmerged := entriesHeight_plausibleObject_le items
  refine ⟨item, hitem, ?_⟩
  rw [height]
  omega

end Json

namespace Item

mutual
/-- The number of generations below, once every array item has a template. -/
def grownHeight : Item → Nat
  | { fieldType, children, .. } => max (if fieldType = .array then 1 else 0) (grownLevelHeight children)
termination_by structural item => item

def grownLevelHeight : List (String × Item) → Nat
  | [] => 0
  | (_, item) :: rest => max (item.grownHeight + 1) (grownLevelHeight rest)
termination_by structural items => items
end

/-- All items of a level, once grown, have less than so many generations below. -/
def GrowsBelow (n : Nat) (level : Schema) : Prop := ∀ entry ∈ level, entry.2.grownHeight < n

private theorem grownLevelHeight_le_iff {level : Schema} {n : Nat} :
    grownLevelHeight level ≤ n ↔ GrowsBelow n level := by
  rw [GrowsBelow]
  induction level with
  | nil => simp [grownLevelHeight]
  | cons entry rest ih =>
    rw [grownLevelHeight, Nat.max_le, ih, List.forall_mem_cons, Nat.succ_le_iff]

private theorem grownHeight_le_iff {item : Item} {n : Nat} :
    item.grownHeight ≤ n ↔ (item.fieldType = .array → 0 < n) ∧ GrowsBelow n item.children := by
  cases item
  rw [grownHeight, Nat.max_le, grownLevelHeight_le_iff]
  refine and_congr_left fun _ => ?_
  split <;> simp_all [Nat.succ_le_iff]

mutual
/-- A template adds one generation at most. -/
private theorem grownHeight_le_height (item : Item) : item.grownHeight ≤ item.height + 1 := by
  match item with
  | ⟨_, _, _, _, _, _, _, _, children, _, _, _, _, _, _, _⟩ =>
    have hlevel := grownLevelHeight_le_levelHeight children
    rw [grownHeight, height]
    split <;> omega

private theorem grownLevelHeight_le_levelHeight (level : List (String × Item)) :
    grownLevelHeight level ≤ levelHeight level + 1 := by
  match level with
  | [] => exact Nat.zero_le _
  | (_, item) :: rest =>
    have hitem := grownHeight_le_height item
    have hrest := grownLevelHeight_le_levelHeight rest
    rw [grownLevelHeight, levelHeight]
    omega
end

/-- Only the kind and the children matter. -/
private theorem grownHeight_congr {a b : Item} (hkind : a.fieldType = b.fieldType)
    (hchildren : a.children = b.children) :
    a.grownHeight = b.grownHeight := by
  cases a
  cases b
  cases hkind
  cases hchildren
  rfl

private theorem grownHeight_movedTo (item : Item) (n : Int) : (item.movedTo n).grownHeight = item.grownHeight :=
  grownHeight_congr rfl rfl

private theorem grownHeight_recording (item : Item) (sample : Option Json) :
    (item.recording sample).grownHeight = item.grownHeight := grownHeight_congr rfl rfl

private theorem grownHeight_inPlaceOf (built item : Item) : (built.inPlaceOf item).grownHeight = built.grownHeight :=
  grownHeight_congr rfl rfl

namespace GrowsBelow
variable {n : Nat} {level : Schema}

private theorem get?_le (h : GrowsBelow n level) {key : String} {item : Item}
    (hitem : OrderedMap.get? level key = some item) :
    item.grownHeight ≤ n - 1 := Nat.le_sub_one_of_lt (h _ (OrderedMap.mem_of_get?_eq_some hitem))

theorem insert (h : GrowsBelow n level) (key : String) {item : Item} (hitem : item.grownHeight < n) :
    GrowsBelow n (OrderedMap.insert level key item) := by
  intro entry hentry
  rcases OrderedMap.mem_insert hentry with hentry | rfl
  · exact h entry hentry
  · exact hitem

theorem dropVanished (h : GrowsBelow n level) (entries : OrderedMap Json) :
    GrowsBelow n (Item.dropVanished level entries) := by
  refine List.foldlRecOn _ _ h fun level hlevel key _ => ?_
  split
  · exact fun entry hentry => hlevel entry (OrderedMap.mem_of_mem_erase hentry)
  · exact hlevel

theorem placed (h : GrowsBelow n level) (new : List String) : GrowsBelow n (level.placed new) := by
  intro entry hentry
  obtain ⟨old, hold, place, rfl⟩ := Schema.mem_placed hentry
  rw [grownHeight_movedTo]
  exact h old hold

end GrowsBelow

private theorem kindFor_inPlaceOf (spec : ItemSpec) (item : Item) (sample : Option Json) :
    (spec.inPlaceOf item).kindFor sample = spec.kindFor sample ∨
      (spec.inPlaceOf item).kindFor sample = item.fieldType := by
  unfold ItemSpec.inPlaceOf ItemSpec.kindFor
  cases spec.fieldType with
  | some kind => exact .inl rfl
  | none =>
    cases item.isFieldTypeOverridden with
    | false => exact .inl rfl
    | true => exact .inr rfl

/-- So many generations are enough below a fresh item of a kind. A sample without height takes none but a template's;
any other may end in an empty array, whose template takes one more than the height. -/
structure Room (n : Nat) (kind : FieldType) (sample : Option Json) : Prop where
  template : kind = .array → 0 < n
  sample : sampleHeight sample = 0 ∨ sampleHeight sample < n

namespace Room
variable {n : Nat} {kind : FieldType} {sample : Option Json}

/-- An item that was there before has made room for its template. -/
private theorem of_grown (h : Room n kind sample) {item : Item} (hitem : item.grownHeight ≤ n) :
    Room n item.fieldType sample :=
  ⟨(grownHeight_le_iff.mp hitem).1, h.sample⟩

theorem inPlaceOf {spec : ItemSpec} (h : Room n (spec.kindFor sample) sample) {item : Item}
    (hitem : item.grownHeight ≤ n) : Room n ((spec.inPlaceOf item).kindFor sample) sample := by
  refine ⟨fun harray => ?_, h.sample⟩
  rcases kindFor_inPlaceOf spec item sample with heq | heq
  · exact h.template (heq ▸ harray)
  · exact (h.of_grown hitem).template (heq ▸ harray)

theorem field {entries : OrderedMap Json} (h : Room n kind (some (.object entries))) {entry : String × Json}
    (hentry : entry ∈ entries) (fieldKind : FieldType) : 0 < n ∧ Room (n - 1) fieldKind (some entry.2) := by
  have hlt := Json.height_lt_of_entry_mem hentry
  obtain ⟨-, hzero | hn⟩ := h
  · exact absurd hzero (Nat.ne_of_gt (Nat.zero_lt_of_lt hlt))
  · have hvalue : sampleHeight (some entry.2) < sampleHeight (some (.object entries)) := hlt
    exact ⟨by omega, fun _ => by omega, by omega⟩

/-- What stands for the elements of an array nests less deep than the array; otherwise it is empty, and the template
no array. -/
theorem representative (h : Room n .array sample) (path : String) :
    Room (n - 1) ((ItemSpec.template path).kindFor (representative sample)) (representative sample) := by
  have hn := h.template rfl
  match sample with
  | some (.array []) => exact ⟨nofun, .inl rfl⟩
  | some (.array (first :: rest)) =>
    have hlt := sampleHeight_representative_lt (List.cons_ne_nil first rest)
    have hdeep := h.sample.resolve_left (Nat.ne_of_gt (Nat.zero_lt_of_lt hlt))
    exact ⟨fun _ => by omega, by omega⟩
  | none | some .null | some (.bool _) | some (.int _) | some (.double _) | some (.string _) | some (.object _) =>
    exact ⟨nofun, .inl rfl⟩

end Room

/-- Calls answer with the reconciled item wherever less than so many generations are enough below it, and it keeps to
what is enough. -/
def AnswersBelow (depth : Nat) (calls : PartialReconciler) : Prop :=
  ∀ n < depth, ∀ ctx spec previous sample, Room n (spec.kindFor sample) sample →
    (∀ item, previous = some item → item.grownHeight ≤ n) →
    calls ctx spec previous sample = some (reconcile ctx spec previous sample) ∧
      (reconcile ctx spec previous sample).grownHeight ≤ n

section
variable {depth : Nat} {calls : PartialReconciler} {n : Nat} (ctx : Context) (path : String) {kind : FieldType}
  {sample : Option Json} {entries : OrderedMap Json} {level : Schema}

/-- A call for an item below one that may have so many generations. -/
theorem AnswersBelow.call (hcalls : AnswersBelow depth calls) (hn : n ≤ depth) (hpos : 0 < n) (spec : ItemSpec)
    {previous : Option Item} (hroom : Room (n - 1) (spec.kindFor sample) sample)
    (hprevious : ∀ item, previous = some item → item.grownHeight ≤ n - 1) :
    calls ctx spec previous sample = some (reconcile ctx spec previous sample) ∧
      (reconcile ctx spec previous sample).grownHeight < n := by
  obtain ⟨hanswer, hheight⟩ := hcalls (n - 1) (by omega) ctx spec previous sample hroom hprevious
  exact ⟨hanswer, by omega⟩

private theorem addFieldBy_eq (hcalls : AnswersBelow depth calls) (hn : n ≤ depth)
    (hroom : Room n kind (some (.object entries))) (hlevel : GrowsBelow n level) {entry : String × Json}
    (hentry : entry ∈ entries) : addFieldBy calls ctx path level entry = some (addField ctx path level entry) ∧
      GrowsBelow n (addField ctx path level entry) := by
  obtain ⟨hpos, hfield⟩ := hroom.field hentry _
  have hnone : ∀ item : Item, none = some item → item.grownHeight ≤ n - 1 := nofun
  obtain ⟨hanswer, hheight⟩ := hcalls.call ctx hn hpos
    (.field entry.1 (Identifier.ofKey entry.1 (keys level)) path) hfield hnone
  rw [reconcile_none] at hanswer hheight
  refine ⟨?_, hlevel.insert _ hheight⟩
  rw [addFieldBy, hanswer]
  rfl

private theorem updateFieldBy_eq (hcalls : AnswersBelow depth calls) (hn : n ≤ depth)
    (hroom : Room n kind (some (.object entries))) (hlevel : GrowsBelow n level) (key : String) :
    updateFieldBy calls ctx path entries level key = some (updateField reconcile ctx path entries level key) ∧
      GrowsBelow n (updateField reconcile ctx path entries level key) := by
  rw [updateFieldBy, updateField]
  cases level.identifierFor? key with
  | none => exact ⟨rfl, hlevel⟩
  | some identifier =>
    cases hvalue : OrderedMap.get? entries key with
    | none => exact ⟨rfl, hlevel⟩
    | some value =>
      obtain ⟨hpos, hfield⟩ := hroom.field (OrderedMap.mem_of_get?_eq_some hvalue) _
      -- The item under the identifier may be one that the level has got just before.
      obtain ⟨hanswer, hheight⟩ := hcalls.call ctx hn hpos (.field key identifier path) hfield
        fun _ hitem => hlevel.get?_le hitem
      dsimp only
      rw [hanswer]
      exact ⟨rfl, hlevel.insert _ hheight⟩

private theorem levelBy_eq (hcalls : AnswersBelow depth calls) (hn : n ≤ depth)
    (hroom : Room n kind (some (.object entries))) (hlevel : GrowsBelow n level) :
    levelBy calls ctx path level entries = some (reconcileLevel ctx path level entries) ∧
      GrowsBelow n (reconcileLevel ctx path level entries) := by
  obtain ⟨hgrown, hgrows⟩ := foldlM_eq_foldl (GrowsBelow n)
    (entries.filter fun entry => !(level.keysOf .sampleKey .sampled).contains entry.1)
    (fun level hlevel entry hentry =>
      addFieldBy_eq ctx path hcalls hn hroom hlevel (List.mem_filter.mp hentry).1)
    (hlevel.dropVanished entries)
  obtain ⟨hupdated, hbelow⟩ := foldlM_eq_foldl (GrowsBelow n) (level.keysOf .sampleKey .sampled)
    (fun level hlevel key _ => updateFieldBy_eq ctx path hcalls hn hroom hlevel key) hgrows
  refine ⟨?_, hbelow.placed _⟩
  simp only [levelBy, hgrown, hupdated, Option.bind_eq_bind, Option.bind_some]
  rfl

private theorem arrayBy_eq (hcalls : AnswersBelow depth calls) (hn : n ≤ depth) (hroom : Room n .array sample)
    (hlevel : GrowsBelow n level) : arrayBy calls ctx path level sample = some (reconcileArray ctx path level sample) ∧
      GrowsBelow n (reconcileArray ctx path level sample) := by
  obtain ⟨hanswer, hheight⟩ := hcalls.call ctx.enterArray hn (hroom.template rfl) (.template path)
    (hroom.representative path) fun _ hitem => hlevel.get?_le hitem
  constructor
  · rw [arrayBy, hanswer]
    rfl
  · rw [reconcileArray, templateLevel_eq]
    refine List.forall_mem_singleton.mpr ?_
    rwa [grownHeight_movedTo]

private theorem childrenBy_eq (hcalls : AnswersBelow depth calls) (hn : n ≤ depth) (hroom : Room n kind sample)
    (hlevel : GrowsBelow n level) : childrenBy calls ctx path kind level sample =
      some (childrenFor ctx path kind level sample) ∧ GrowsBelow n (childrenFor ctx path kind level sample) := by
  unfold childrenBy
  split
  · exact arrayBy_eq ctx path hcalls hn hroom hlevel
  · exact levelBy_eq ctx path hcalls hn hroom hlevel
  · rename_i harray hobject
    rw [childrenFor_other harray fun hkind entries hsample => hobject entries hkind hsample]
    exact ⟨rfl, hlevel⟩

private theorem buildBy_eq (hcalls : AnswersBelow depth calls) (hn : n ≤ depth) {spec : ItemSpec}
    (hroom : Room n (spec.kindFor sample) sample) : buildBy calls ctx spec sample = some (build ctx spec sample) ∧
      (build ctx spec sample).grownHeight ≤ n := by
  have hnil : GrowsBelow n [] := by simp [GrowsBelow]
  obtain ⟨hchildren, hbelow⟩ := childrenBy_eq ctx spec.sourcePath hcalls hn hroom hnil
  rw [buildBy, hchildren, build_eq]
  exact ⟨rfl, grownHeight_le_iff.mpr ⟨hroom.template, hbelow⟩⟩

private theorem refreshBy_eq (hcalls : AnswersBelow depth calls) (hn : n ≤ depth) {item : Item}
    (hroom : Room n item.fieldType sample) (hitem : item.grownHeight ≤ n) :
    refreshBy calls ctx path item sample = some (refresh ctx path item sample) ∧
      (refresh ctx path item sample).grownHeight ≤ n := by
  obtain ⟨hchildren, hbelow⟩ := childrenBy_eq ctx path hcalls hn hroom (grownHeight_le_iff.mp hitem).2
  rw [refreshBy, hchildren]
  exact ⟨rfl, grownHeight_le_iff.mpr ⟨hroom.template, hbelow⟩⟩

/-- An item may have one more generation below than the items that it calls for. -/
theorem AnswersBelow.step (hcalls : AnswersBelow depth calls) : AnswersBelow (depth + 1) (reconcileBy calls) := by
  intro n hlt ctx spec previous sample hroom hprevious
  have hn := Nat.le_of_lt_succ hlt
  cases previous with
  | none =>
    rw [reconcileBy, reconcile_none]
    exact buildBy_eq ctx hcalls hn hroom
  | some item =>
    have hitem := hprevious item rfl
    rw [reconcileBy, reconcile_eq]
    cases Decision.between item sample with
    | keepShape => exact ⟨rfl, Nat.le_trans (Nat.le_of_eq (grownHeight_recording item sample)) hitem⟩
    | rebuild =>
      obtain ⟨hbuilt, hheight⟩ := buildBy_eq ctx hcalls hn (hroom.inPlaceOf hitem)
      dsimp only
      rw [hbuilt]
      exact ⟨rfl, Nat.le_trans (Nat.le_of_eq (grownHeight_inPlaceOf _ item)) hheight⟩
    | unchanged => exact refreshBy_eq ctx spec.sourcePath hcalls hn (hroom.of_grown hitem) hitem

end

private theorem answersBelow_reconcileTo (depth : Nat) : AnswersBelow depth (reconcileTo depth) := by
  induction depth with
  | zero => exact fun n hn => absurd hn (Nat.not_lt_zero n)
  | succ depth ih => exact ih.step

def itemLevel (previous : Option Item) : Schema := (previous.map children).getD []

/-- How deep the item that was there before nests; one that is missing does not. -/
def itemHeight (previous : Option Item) : Nat := (previous.map height).getD 0

private theorem levelHeight_itemLevel (previous : Option Item) :
    levelHeight (itemLevel previous) = itemHeight previous := by
  cases previous with
  | none => rfl
  | some item => exact (height_eq item).symm

section
variable {below : Nat} {previous : Option Item} {sample : Option Json}

private theorem grownHeight_le_of_itemHeight_lt (h : itemHeight previous < below) :
    ∀ item, previous = some item → item.grownHeight ≤ below := by
  rintro item rfl
  exact Nat.le_trans (grownHeight_le_height item) h

private theorem growsBelow_itemLevel (h : itemHeight previous < below) : GrowsBelow below (itemLevel previous) := by
  have hgrown := grownLevelHeight_le_levelHeight (itemLevel previous)
  rw [levelHeight_itemLevel] at hgrown
  exact grownLevelHeight_le_iff.mp (Nat.le_trans hgrown h)

private theorem Room.of_lt (h : sampleHeight sample < below) (kind : FieldType) : Room below kind sample :=
  ⟨fun _ => Nat.zero_lt_of_lt h, .inr h⟩

/-- It is enough if one more item may lie below than the deeper one of the sample and the item before nests. -/
theorem reconcileTo_eq (hsample : sampleHeight sample < below) (hprevious : itemHeight previous < below)
    (ctx : Context) (spec : ItemSpec) :
    reconcileTo (below + 1) ctx spec previous sample = some (reconcile ctx spec previous sample) :=
  (answersBelow_reconcileTo (below + 1) below (Nat.lt_succ_self below) ctx spec previous sample (.of_lt hsample _)
    (grownHeight_le_of_itemHeight_lt hprevious)).1

/-- Whatever the limit, there is no other answer than the reconciled item. -/
theorem eq_reconcile_of_reconcileTo {depth : Nat} {ctx : Context} {spec : ItemSpec} {item : Item}
    (h : reconcileTo depth ctx spec previous sample = some item) : item = reconcile ctx spec previous sample := by
  have hanswer : reconcileTo (sampleHeight sample + itemHeight previous + 1 + 1) ctx spec previous sample =
      some (reconcile ctx spec previous sample) := reconcileTo_eq (by omega) (by omega) ctx spec
  have hmore := extends_reconcileTo depth (sampleHeight sample + itemHeight previous + 1 + 1) _ _ _ _ item h
  rw [Nat.add_comm depth] at hmore
  exact Option.some.inj (hmore.symm.trans (extends_reconcileTo _ depth _ _ _ _ _ hanswer))

end

/-- All that takes part in the recursion has its answer when at most so many items may lie below each other: the item,
one that is built or refreshed, and the level of an object and of an array. No limit gives another answer. -/
structure EndsWithin (below : Nat) (ctx : Context) (spec : ItemSpec) (previous : Option Item) (sample : Option Json) :
    Prop where
  reconciled : reconcileTo (below + 1) ctx spec previous sample = some (reconcile ctx spec previous sample)
  built : buildBy (reconcileTo below) ctx spec sample = some (build ctx spec sample)
  refreshed : ∀ item, previous = some item → refreshBy (reconcileTo below) ctx spec.sourcePath item sample =
    some (refresh ctx spec.sourcePath item sample)
  level : ∀ entries, sample = some (.object entries) →
    levelBy (reconcileTo below) ctx spec.sourcePath (itemLevel previous) entries =
      some (reconcileLevel ctx spec.sourcePath (itemLevel previous) entries)
  array : arrayBy (reconcileTo below) ctx spec.sourcePath (itemLevel previous) sample =
    some (reconcileArray ctx spec.sourcePath (itemLevel previous) sample)
  unique : ∀ depth item, reconcileTo depth ctx spec previous sample = some item →
    item = reconcile ctx spec previous sample

private theorem endsWithin_of_lt {below : Nat} {previous : Option Item} {sample : Option Json}
    (hsample : sampleHeight sample < below) (hprevious : itemHeight previous < below) (ctx : Context)
    (spec : ItemSpec) : EndsWithin below ctx spec previous sample := by
  have hcalls := answersBelow_reconcileTo below
  have hle := Nat.le_refl below
  have hlevel := growsBelow_itemLevel hprevious
  constructor
  case reconciled => exact reconcileTo_eq hsample hprevious ctx spec
  case built => exact (buildBy_eq ctx hcalls hle (.of_lt hsample _)).1
  case refreshed =>
    intro item heq
    have hitem := grownHeight_le_of_itemHeight_lt hprevious item heq
    exact (refreshBy_eq ctx spec.sourcePath hcalls hle (.of_lt hsample _) hitem).1
  case level =>
    rintro entries rfl
    exact (levelBy_eq ctx spec.sourcePath hcalls hle (.of_lt hsample .object) hlevel).1
  case array => exact (arrayBy_eq ctx spec.sourcePath hcalls hle (.of_lt hsample _) hlevel).1
  case unique => exact fun _ _ h => eq_reconcile_of_reconcileTo h

/-- The recursion comes to an end. What stands for the elements of an array nests less deep than the array, and a
plausible object no deeper than the deepest element. The items below each other, the first one included, need not be
more than the heights of the sample and of the item before together, and two. -/
theorem reconcile_endsWithin :
    (∀ items : List Json, items ≠ [] →
      sampleHeight (representative (some (.array items))) < sampleHeight (some (.array items)) ∧
      ∃ item ∈ items, (Json.object (Json.plausibleObject items)).height ≤ item.height) ∧
    ∀ (previous : Option Item) (sample : Option Json) (below : Nat),
      sampleHeight sample + itemHeight previous + 2 ≤ below + 1 →
      ∀ ctx spec, EndsWithin below ctx spec previous sample := by
  refine ⟨fun items hitems => ?_, fun previous sample below hbelow => ?_⟩
  · exact ⟨sampleHeight_representative_lt hitems, Json.exists_mem_height_plausibleObject_le hitems⟩
  · exact endsWithin_of_lt (by omega) (by omega)

def listOfLists : Item :=
  let lists := { fresh { widget := "Form", withinArray := true } (.template "sourceData.a") (some (.object [])) [] with
    fieldType := .array, isFieldTypeOverridden := true }
  { fresh { widget := "Form" } (.field "a" "a" "sourceData") (some (.string "x")) [(Identifier.arrayItem, lists)] with
    fieldType := .array, isFieldTypeOverridden := true }

/-- Three items are enough for the list and its text, and two are not. -/
theorem reconcile_endsWithin_listOfLists :
    sampleHeight (some (.string "x")) + itemHeight (some listOfLists) + 2 ≤ 2 + 1 ∧
    EndsWithin 2 { widget := "Form" } (.field "a" "a" "sourceData") (some listOfLists) (some (.string "x")) ∧
    reconcileTo 2 { widget := "Form" } (.field "a" "a" "sourceData") (some listOfLists) (some (.string "x")) = none ∧
    sampleHeight (representative (some (.array [.object [], .object [("x", .array [])]]))) <
      sampleHeight (some (.array [.object [], .object [("x", .array [])]])) := by
  have hheights : sampleHeight (some (.string "x")) + itemHeight (some listOfLists) + 2 ≤ 2 + 1 := by decide
  exact ⟨hheights, reconcile_endsWithin.2 _ _ 2 hheights _ _, rfl, (reconcile_endsWithin.1 _ (by simp)).1⟩

end Item
end FormSchema
