import FormSchema.Item.Basic
import FormSchema.Proofs.OrderedMap

/-!
Numbering a level. The order it follows lists every key once, so the positions are `0, 1, …` up to
the greatest one, and a level that has been numbered keeps its positions when it is numbered again.
-/
namespace FormSchema

namespace Item

def movedTo (position : Int) (item : Item) : Item := { item with position }

theorem movedTo_position (item : Item) : item.movedTo item.position = item := by cases item; rfl

theorem placedBefore_iff {a b : Item} : a.placedBefore b = true ↔
    b.position = unplaced ∨ a.position ≠ unplaced ∧ a.position ≤ b.position := by
  unfold placedBefore
  split
  · rename_i h
    simp [h]
  · rename_i h
    simp [h]

private theorem placedBefore_total {a b : Item} (h : ¬ a.placedBefore b = true) : b.placedBefore a = true := by
  rw [placedBefore_iff] at h ⊢
  omega

private theorem placedBefore_trans {a b c : Item} (hab : a.placedBefore b = true)
    (hbc : b.placedBefore c = true) : a.placedBefore c = true := by
  rw [placedBefore_iff] at hab hbc ⊢
  omega

end Item

namespace Schema
open OrderedMap (keys Distinct)

theorem insertPlaced_perm (entry : String × Item) (level : Schema) :
    (insertPlaced entry level).Perm (entry :: level) := by
  induction level with
  | nil => exact .refl _
  | cons other rest ih =>
    rw [insertPlaced]
    split
    · exact .refl _
    · exact (ih.cons other).trans (.swap entry other rest)

theorem byPosition_perm (level : Schema) : level.byPosition.Perm level := by
  induction level with
  | nil => exact .refl _
  | cons entry rest ih => exact (insertPlaced_perm entry _).trans (ih.cons entry)

def Sorted (level : Schema) : Prop := level.Pairwise fun a b => a.2.placedBefore b.2 = true

private theorem insertPlaced_sorted (entry : String × Item) {level : Schema} (h : level.Sorted) :
    (insertPlaced entry level).Sorted := by
  induction level with
  | nil => exact List.pairwise_singleton ..
  | cons other rest ih =>
    obtain ⟨hother, hrest⟩ := List.pairwise_cons.mp h
    rw [insertPlaced]
    split
    · rename_i hbefore
      refine List.pairwise_cons.mpr ⟨fun last hlast => ?_, h⟩
      rcases List.mem_cons.mp hlast with rfl | hlast
      · exact hbefore
      · exact Item.placedBefore_trans hbefore (hother last hlast)
    · rename_i hafter
      refine List.pairwise_cons.mpr ⟨fun last hlast => ?_, ih hrest⟩
      rcases List.mem_cons.mp ((insertPlaced_perm entry rest).mem_iff.mp hlast) with rfl | hlast
      · exact Item.placedBefore_total hafter
      · exact hother last hlast

private theorem byPosition_sorted (level : Schema) : level.byPosition.Sorted := by
  induction level with
  | nil => exact List.Pairwise.nil
  | cons entry rest ih => exact insertPlaced_sorted entry ih

private theorem lastPlace?_eq {order : List String} (h : order.Nodup) {key : String} (hmem : key ∈ order) :
    lastPlace? key order = some (order.idxOf key) := by
  have hnone : ∀ {order : List String}, key ∉ order → lastPlace? key order = none := by
    intro order hmem
    induction order with
    | nil => rfl
    | cons first rest ih =>
      rw [List.mem_cons, not_or] at hmem
      simp [lastPlace?, ih hmem.2, Ne.symm hmem.1]
  induction order with
  | nil => simp at hmem
  | cons first rest ih =>
    obtain ⟨hfirst, hrest⟩ := List.nodup_cons.mp h
    by_cases heq : first = key
    · subst heq
      simp [lastPlace?, hnone hfirst]
    · have hmemrest := (List.mem_cons.mp hmem).resolve_left (Ne.symm heq)
      simp [lastPlace?, ih hrest hmemrest, List.idxOf_cons, beq_eq_false_iff_ne.mpr heq]

/-- The order in which a level is numbered. -/
def order (level : Schema) (new : List String) : List String :=
  keys (byPosition (level.filter fun entry => !new.contains entry.1)) ++ new

/-- Each new key is one of the level, and none is given twice. -/
def Places (level : Schema) (new : List String) : Prop := new.Nodup ∧ ∀ key ∈ new, key ∈ keys level

private theorem places_nil (level : Schema) : level.Places [] := ⟨List.nodup_nil, by simp⟩

theorem order_perm {level : Schema} {new : List String} (h : Distinct level) (hnew : level.Places new) :
    (level.order new).Perm (keys level) := by
  have hold : (keys (byPosition (level.filter fun entry => !new.contains entry.1))).Perm
      (keys (level.filter fun entry => !new.contains entry.1)) := (byPosition_perm _).map Prod.fst
  have hmem : ∀ {key}, key ∈ keys (level.filter fun entry => !new.contains entry.1) ↔
      key ∈ keys level ∧ key ∉ new := by
    intro key
    simp [keys]
  have hnodup : (level.order new).Nodup := by
    refine List.nodup_append.mpr ⟨hold.nodup_iff.mpr (h.sublist List.filter_sublist), hnew.1, ?_⟩
    intro a ha b hb heq
    exact (hmem.mp (hold.mem_iff.mp ha)).2 (heq ▸ hb)
  apply (List.perm_ext_iff_of_nodup hnodup h).mpr
  intro key
  rw [order, List.mem_append, hold.mem_iff, hmem]
  refine ⟨fun hkey => hkey.elim And.left (hnew.2 key), fun hkey => ?_⟩
  by_cases hkeynew : key ∈ new
  · exact .inr hkeynew
  · exact .inl ⟨hkey, hkeynew⟩

private theorem order_nil (level : Schema) : level.order [] = keys level.byPosition := by
  have hall : (level.filter fun entry => !List.contains [] entry.1) = level :=
    List.filter_eq_self.mpr fun _ _ => rfl
  rw [order, hall, List.append_nil]

def nthPosition (n : Nat) : Int := min (n : Int) lastPosition

def positionIn (order : List String) (key : String) : Int := nthPosition (order.idxOf key)

private theorem nthPosition_ne_unplaced (n : Nat) : nthPosition n ≠ unplaced := by
  unfold nthPosition lastPosition unplaced
  omega

theorem nthPosition_eq {n : Nat} (h : n ≤ 2147483647) : nthPosition n = n := by
  unfold nthPosition lastPosition
  omega

private theorem map_positionIn {order : List String} (h : order.Nodup) :
    order.map (positionIn order) = (List.range order.length).map nthPosition := by
  refine List.ext_getElem (by simp) fun n hn _ => ?_
  simp only [List.getElem_map, List.getElem_range, positionIn]
  rw [h.idxOf_getElem]

def numberedIn (order : List String) (entry : String × Item) : String × Item :=
  (entry.1, entry.2.movedTo (positionIn order entry.1))

/-- Numbering changes positions only: an item whose key is not in the order keeps its own. -/
private theorem placed_eq_map_placeIn (level : Schema) (new : List String) : level.placed new = level.map fun entry =>
    (entry.1, entry.2.movedTo (((lastPlace? entry.1 (level.order new)).map nthPosition).getD entry.2.position)) := by
  refine List.map_congr_left fun entry _ => ?_
  obtain ⟨key, item⟩ := entry
  dsimp only [order]
  cases lastPlace? key (keys (byPosition (level.filter fun entry => !new.contains entry.1)) ++ new) with
  | none => rw [Option.map_none, Option.getD_none, Item.movedTo_position]
  | some n => rfl

theorem placed_eq_map {level : Schema} {new : List String} (h : Distinct level)
    (hnew : level.Places new) : level.placed new = level.map (numberedIn (level.order new)) := by
  have hperm := order_perm h hnew
  rw [placed_eq_map_placeIn]
  apply List.map_congr_left
  intro entry hentry
  have hmem : entry.1 ∈ level.order new := hperm.mem_iff.mpr (OrderedMap.mem_keys_of_mem hentry)
  rw [lastPlace?_eq (hperm.nodup_iff.mpr h) hmem]
  rfl

theorem placed_eq_map_movedTo (level : Schema) (new : List String) :
    ∃ place : String × Item → Int,
      level.placed new = level.map fun entry => (entry.1, entry.2.movedTo (place entry)) :=
  ⟨_, placed_eq_map_placeIn level new⟩

@[simp] theorem keys_placed (level : Schema) (new : List String) :
    keys (level.placed new) = keys level := by
  obtain ⟨place, heq⟩ := placed_eq_map_movedTo level new
  rw [heq]
  exact OrderedMap.keys_map_of_fst level fun _ _ => rfl

/-- An only item has the first place. -/
theorem placed_singleton (key : String) (item : Item) : placed [(key, item)] [] = [(key, item.movedTo 0)] := by
  have hfirst : min (0 : Int) lastPosition = 0 := by decide
  simp [placed, numbered, byPosition, insertPlaced, lastPlace?, Item.movedTo, hfirst]

/-- The positions of a numbered level. -/
theorem positions_placed {level : Schema} {new : List String} (h : Distinct level)
    (hnew : level.Places new) : ((level.placed new).map fun entry => entry.2.position).Perm
      ((List.range level.length).map nthPosition) := by
  have hperm := order_perm h hnew
  have hlength : (level.order new).length = level.length := by simpa [keys] using hperm.length_eq
  rw [placed_eq_map h hnew, List.map_map, ← hlength, ← map_positionIn (hperm.nodup_iff.mpr h)]
  have hmap := (hperm.map (positionIn (level.order new))).symm
  rwa [keys, List.map_map] at hmap

private theorem length_placed (level : Schema) (new : List String) : (level.placed new).length = level.length := by
  have hkeys := congrArg List.length (keys_placed level new)
  rwa [keys, keys, List.length_map, List.length_map] at hkeys

/-- The positions are `0, 1, …` without gaps, unless there are more siblings than positions. -/
def Contiguous (level : Schema) : Prop :=
  level.length ≤ 2147483648 →
    (level.map fun entry => entry.2.position).Perm ((List.range level.length).map Int.ofNat)

instance (level : Schema) : Decidable level.Contiguous :=
  inferInstanceAs (Decidable (level.length ≤ 2147483648 →
    (level.map fun entry => entry.2.position).Perm ((List.range level.length).map Int.ofNat)))

/-- A contiguous level has no item without a place. -/
theorem Contiguous.position_ne {level : Schema} (h : level.Contiguous) (hlength : level.length ≤ 2147483648)
    {entry : String × Item} (hentry : entry ∈ level) : entry.2.position ≠ unplaced := by
  have hmem := (h hlength).mem_iff.mp (List.mem_map_of_mem hentry)
  obtain ⟨n, -, hn⟩ := List.mem_map.mp hmem
  rw [← hn, unplaced, Int.ofNat_eq_natCast]
  omega

theorem contiguous_nil : Contiguous [] := fun _ => .refl _

theorem contiguous_singleton {entry : String × Item} (h : entry.2.position = 0) : Contiguous [entry] := by
  intro _
  simp [h]

theorem contiguous_placed {level : Schema} {new : List String} (h : Distinct level) (hnew : level.Places new) :
    (level.placed new).Contiguous := by
  intro hlength
  rw [length_placed] at hlength ⊢
  apply (positions_placed h hnew).trans
  rw [List.map_congr_left fun n hn => nthPosition_eq (by have := List.mem_range.mp hn; omega)]
  exact .refl _

private theorem position_of_mem_placed {level : Schema} {new : List String} (h : Distinct level)
    (hnew : level.Places new) {entry : String × Item} (hentry : entry ∈ level.placed new) :
    entry.2.position = positionIn (level.order new) entry.1 := by
  rw [placed_eq_map h hnew] at hentry
  obtain ⟨old, -, rfl⟩ := List.mem_map.mp hentry
  rfl

/-- A numbered level is listed with ascending positions, and so is the order it was numbered in. -/
private theorem map_order_placed {level : Schema} {new : List String} (h : Distinct level)
    (hnew : level.Places new) (hperm : ((level.placed new).order []).Perm (level.order new)) :
    ((level.placed new).order []).map (positionIn (level.order new)) =
      (level.order new).map (positionIn (level.order new)) := by
  have hnodup := (order_perm h hnew).nodup_iff.mpr h
  refine (hperm.map _).eq_of_pairwise (fun a b _ _ => Int.le_antisymm) ?_ ?_
  · rw [order_nil, keys, List.map_map, List.pairwise_map]
    refine List.Pairwise.imp_of_mem (fun {a b} ha hb hab => ?_) (byPosition_sorted _)
    have ha := position_of_mem_placed h hnew ((byPosition_perm _).mem_iff.mp ha)
    have hb := position_of_mem_placed h hnew ((byPosition_perm _).mem_iff.mp hb)
    have hplaced : b.2.position ≠ unplaced := hb ▸ nthPosition_ne_unplaced _
    have hle := ((Item.placedBefore_iff.mp hab).resolve_left hplaced).2
    rwa [ha, hb] at hle
  · rw [map_positionIn hnodup, List.pairwise_map]
    refine List.Pairwise.imp (fun {m n} hmn => ?_) List.pairwise_lt_range
    unfold nthPosition
    omega

/-- Numbering again changes nothing: the order may differ only beyond the greatest position. -/
theorem placed_placed {level : Schema} {new : List String} (h : Distinct level)
    (hnew : level.Places new) : (level.placed new).placed [] = level.placed new := by
  have h' : Distinct (level.placed new) := by rwa [Distinct, keys_placed]
  have hperm := order_perm h' (places_nil _)
  have hperm' : ((level.placed new).order []).Perm (level.order new) :=
    (keys_placed level new ▸ hperm).trans (order_perm h hnew).symm
  have hsame := map_order_placed h hnew hperm'
  rw [map_positionIn ((order_perm h hnew).nodup_iff.mpr h), ← hperm'.length_eq,
    ← map_positionIn (hperm.nodup_iff.mpr h')] at hsame
  rw [placed_eq_map h' (places_nil _)]
  refine (List.map_congr_left fun entry hentry => ?_).trans (List.map_id' _)
  have hmem := hperm.mem_iff.mpr (OrderedMap.mem_keys_of_mem hentry)
  rw [numberedIn, ← List.map_inj_left.mp hsame entry.1 hmem, ← position_of_mem_placed h hnew hentry,
    Item.movedTo_position]

section Map
variable {change : String × Item → String × Item}

private theorem insertPlaced_map {entry : String × Item} {level : Schema}
    (hposition : ∀ other ∈ entry :: level, (change other).2.position = other.2.position) :
    insertPlaced (change entry) (level.map change) = (insertPlaced entry level).map change := by
  induction level with
  | nil => rfl
  | cons other rest ih =>
    obtain ⟨hentry, hother, hrest⟩ := (List.forall_mem_cons.mp hposition).imp_right List.forall_mem_cons.mp
    have hbefore : (change entry).2.placedBefore (change other).2 = entry.2.placedBefore other.2 := by
      rw [Item.placedBefore, Item.placedBefore, hentry, hother]
    simp only [List.map_cons, insertPlaced, hbefore]
    split
    · rfl
    · rw [ih (List.forall_mem_cons.mpr ⟨hentry, hrest⟩), List.map_cons]

private theorem byPosition_map {level : Schema}
    (hposition : ∀ entry ∈ level, (change entry).2.position = entry.2.position) :
    byPosition (level.map change) = (byPosition level).map change := by
  induction level with
  | nil => rfl
  | cons entry rest ih =>
    obtain ⟨hentry, hrest⟩ := List.forall_mem_cons.mp hposition
    have hsorted : ∀ other ∈ byPosition rest, (change other).2.position = other.2.position :=
      fun other hother => hrest other ((byPosition_perm rest).mem_iff.mp hother)
    show insertPlaced (change entry) (byPosition (rest.map change)) = _
    rw [ih hrest, insertPlaced_map (List.forall_mem_cons.mpr ⟨hentry, hsorted⟩)]
    rfl

/-- A change that leaves keys and positions alone keeps a numbered level numbered. -/
theorem placed_map_eq_self {level : Schema} (h : Distinct level)
    (hkey : ∀ entry ∈ level, (change entry).1 = entry.1)
    (hposition : ∀ entry ∈ level, (change entry).2.position = entry.2.position)
    (hplaced : level.placed [] = level) : Schema.placed (level.map change) [] = level.map change := by
  have hkeys : keys (level.map change) = keys level := OrderedMap.keys_map_of_fst level hkey
  have horder : order (level.map change) [] = level.order [] := by
    rw [order_nil, order_nil, byPosition_map hposition]
    exact OrderedMap.keys_map_of_fst _ fun entry hentry => hkey entry ((byPosition_perm _).mem_iff.mp hentry)
  rw [placed_eq_map h (places_nil _)] at hplaced
  rw [placed_eq_map (by rwa [Distinct, hkeys]) (places_nil _), horder, List.map_map]
  apply List.map_congr_left
  intro entry hentry
  have hself : numberedIn (level.order []) entry = entry :=
    List.map_inj_left.mp (hplaced.trans (List.map_id' level).symm) entry hentry
  have hat : (change entry).2.position = positionIn (level.order []) (change entry).1 := by
    rw [hposition entry hentry, hkey entry hentry, ← hself]
    rfl
  rw [Function.comp_apply, numberedIn, ← hat, Item.movedTo_position]

end Map

end Schema
end FormSchema
