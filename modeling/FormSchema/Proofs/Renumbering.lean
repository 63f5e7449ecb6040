import Mathlib.Data.List.Basic
import Mathlib.Data.Prod.Lex
import Mathlib.Data.Set.Function
import FormSchema.Build
import FormSchema.Proofs.Position

/-!
The order that numbering follows. Items that were there go by their positions, those without one last,
and ties by their places in the level; new items come behind in the order given.
-/
namespace FormSchema.Schema
open OrderedMap (keys Distinct)

/-- What the items of a level are ordered by: whether they have a position, which one, and their place. -/
def rank (item : Item) (place : Nat) : Bool ×ₗ Int ×ₗ Nat :=
  toLex (decide (item.position = unplaced), toLex (item.position, place))

/-- Of two items, the one that is stored first has the lesser rank unless it comes later by position. -/
private theorem rank_lt_iff {a b : Item} {m n : Nat} (h : m < n) : rank a m < rank b n ↔ a.placedBefore b = true := by
  simp only [rank, Prod.Lex.toLex_lt_toLex, Item.placedBefore_iff, Bool.lt_iff, decide_eq_false_iff_not,
    decide_eq_true_eq, decide_eq_decide]
  omega

private theorem rank_ne {a b : Item} {m n : Nat} (h : m ≠ n) : rank a m ≠ rank b n := by
  intro heq
  have hplaces := congrArg (fun r => (ofLex (ofLex r).2).2) heq
  exact h hplaces

section Ascending
variable {place : String × Item → Nat}

def Ascending (place : String × Item → Nat) (level : Schema) : Prop :=
  level.Pairwise fun a b => rank a.2 (place a) < rank b.2 (place b)

private theorem insertPlaced_ascending {entry : String × Item} {level : Schema}
    (hentry : ∀ other ∈ level, place entry < place other) (h : level.Ascending place) :
    (insertPlaced entry level).Ascending place := by
  induction level with
  | nil => exact List.pairwise_singleton ..
  | cons other rest ih =>
    obtain ⟨hother, hrest⟩ := List.pairwise_cons.mp h
    obtain ⟨hfirst, hbehind⟩ := List.forall_mem_cons.mp hentry
    rw [insertPlaced]
    split
    · rename_i hbefore
      have hlt := (rank_lt_iff hfirst).mpr hbefore
      refine List.pairwise_cons.mpr ⟨fun last hlast => ?_, h⟩
      rcases List.mem_cons.mp hlast with rfl | hlast
      · exact hlt
      · exact hlt.trans (hother last hlast)
    · rename_i hafter
      refine List.pairwise_cons.mpr ⟨fun last hlast => ?_, ih hbehind hrest⟩
      rcases List.mem_cons.mp ((insertPlaced_perm entry rest).mem_iff.mp hlast) with rfl | hlast
      · exact lt_of_le_of_ne (not_lt.mp fun hlt => hafter ((rank_lt_iff hfirst).mp hlt)) (rank_ne hfirst.ne')
      · exact hother last hlast

/-- The sort is stable: where positions tie, the places decide. -/
theorem byPosition_ascending {level : Schema} (h : level.Pairwise fun a b => place a < place b) :
    level.byPosition.Ascending place := by
  induction level with
  | nil => exact List.Pairwise.nil
  | cons entry rest ih =>
    obtain ⟨hentry, hrest⟩ := List.pairwise_cons.mp h
    apply insertPlaced_ascending
    · intro other hother
      exact hentry other ((byPosition_perm rest).mem_iff.mp hother)
    · exact ih hrest

/-- A key is found in a level where its entry is. -/
private theorem idxOf_getElem_fst {level : Schema} (h : Distinct level) (n : Nat) (hn : n < level.length) :
    (keys level).idxOf level[n].1 = n := by
  have hkey := List.Nodup.idxOf_getElem h n (by simpa [keys] using hn)
  simpa [keys] using hkey

/-- In a level sorted by position, an entry comes earlier exactly if its rank is lesser. -/
private theorem idxOf_byPosition_lt_iff {level : Schema} (h : Distinct level)
    (hplace : level.Pairwise fun a b => place a < place b) {a b : String × Item} (ha : a ∈ level) (hb : b ∈ level) :
    (keys level.byPosition).idxOf a.1 < (keys level.byPosition).idxOf b.1 ↔
      rank a.2 (place a) < rank b.2 (place b) := by
  have hsorted := List.pairwise_iff_getElem.mp (byPosition_ascending hplace)
  have hdistinct : Distinct level.byPosition := ((byPosition_perm level).map Prod.fst).nodup_iff.mpr h
  obtain ⟨m, hm, rfl⟩ := List.getElem_of_mem ((byPosition_perm level).mem_iff.mpr ha)
  obtain ⟨n, hn, rfl⟩ := List.getElem_of_mem ((byPosition_perm level).mem_iff.mpr hb)
  rw [idxOf_getElem_fst hdistinct m hm, idxOf_getElem_fst hdistinct n hn]
  rcases Nat.lt_trichotomy m n with hlt | rfl | hgt
  · exact iff_of_true hlt (hsorted m n hm hn hlt)
  · exact iff_of_false (Nat.lt_irrefl m) (lt_irrefl _)
  · exact iff_of_false (Nat.lt_asymm hgt) (lt_asymm (hsorted n m hn hm hgt))

end Ascending

/-- The position that each key of a level has once the level is numbered, with some keys as new. -/
structure Renumbers (level : Schema) (new : List String) (position : String → Nat) : Prop where
  bijective : Set.BijOn position {key | key ∈ keys level} {n | n < level.length}
  /-- The others keep their order. -/
  others : ∀ (m n : Nat) (hm : m < level.length) (hn : n < level.length), level[m].1 ∉ new → level[n].1 ∉ new →
    (position level[m].1 < position level[n].1 ↔ rank level[m].2 m < rank level[n].2 n)
  /-- The new ones follow in the order given. -/
  added : ∀ (n : Nat) (hn : n < new.length), position new[n] = level.length - new.length + n

private theorem length_order {level : Schema} {new : List String} (h : Distinct level) (hnew : level.Places new) :
    (level.order new).length = level.length := by
  simpa [keys] using (order_perm h hnew).length_eq

private theorem bijOn_idxOf_order {level : Schema} {new : List String} (h : Distinct level) (hnew : level.Places new) :
    Set.BijOn (level.order new).idxOf {key | key ∈ keys level} {n | n < level.length} := by
  have hperm := order_perm h hnew
  have hlength := length_order h hnew
  refine ⟨?_, ?_, ?_⟩
  · intro key hkey
    show (level.order new).idxOf key < level.length
    rw [← hlength]
    exact List.idxOf_lt_length_of_mem (hperm.mem_iff.mpr hkey)
  · intro key hkey other hother heq
    exact (List.idxOf_inj (hperm.mem_iff.mpr hkey)).mp heq
  · intro n hn
    have hn' : n < (level.order new).length := by rwa [hlength]
    exact ⟨(level.order new)[n], hperm.mem_iff.mp (List.getElem_mem hn'),
      (hperm.nodup_iff.mpr h).idxOf_getElem n hn'⟩

private theorem pairwise_idxOf_keys {level : Schema} (h : Distinct level) :
    level.Pairwise fun a b => (keys level).idxOf a.1 < (keys level).idxOf b.1 := by
  rw [List.pairwise_iff_getElem]
  intro m n hm hn hlt
  rwa [idxOf_getElem_fst h m hm, idxOf_getElem_fst h n hn]

def others (level : Schema) (new : List String) : Schema := level.filter fun entry => !new.contains entry.1

private theorem order_eq (level : Schema) (new : List String) :
    level.order new = keys (level.others new).byPosition ++ new := rfl

private theorem mem_others {level : Schema} {new : List String} {entry : String × Item} :
    entry ∈ level.others new ↔ entry ∈ level ∧ entry.1 ∉ new := by
  simp [others, List.mem_filter]

private theorem idxOf_order_of_mem_others {level : Schema} {new : List String} {entry : String × Item}
    (hentry : entry ∈ level.others new) :
    (level.order new).idxOf entry.1 = (keys (level.others new).byPosition).idxOf entry.1 := by
  rw [order_eq]
  apply List.idxOf_append_of_mem
  exact OrderedMap.mem_keys_of_mem ((byPosition_perm _).mem_iff.mpr hentry)

private theorem idxOf_order_new {level : Schema} {new : List String} (h : Distinct level) (hnew : level.Places new)
    (n : Nat) (hn : n < new.length) : (level.order new).idxOf new[n] = level.length - new.length + n := by
  have hnotMem : new[n] ∉ keys (level.others new).byPosition := by
    intro hmem
    obtain ⟨item, hitem⟩ := OrderedMap.mem_keys.mp hmem
    exact (mem_others.mp ((byPosition_perm _).mem_iff.mp hitem)).2 (List.getElem_mem hn)
  have hlength := length_order h hnew
  rw [order_eq, List.length_append] at hlength
  rw [order_eq, List.idxOf_append_of_notMem hnotMem, hnew.1.idxOf_getElem n hn]
  omega

private theorem renumbers_idxOf_order {level : Schema} {new : List String} (h : Distinct level)
    (hnew : level.Places new) : level.Renumbers new (level.order new).idxOf := by
  refine ⟨bijOn_idxOf_order h hnew, ?_, idxOf_order_new h hnew⟩
  intro m n hm hn hmnew hnnew
  have hmold : level[m] ∈ level.others new := mem_others.mpr ⟨List.getElem_mem hm, hmnew⟩
  have hnold : level[n] ∈ level.others new := mem_others.mpr ⟨List.getElem_mem hn, hnnew⟩
  have hplace : (level.others new).Pairwise fun a b => (keys level).idxOf a.1 < (keys level).idxOf b.1 :=
    (pairwise_idxOf_keys h).sublist List.filter_sublist
  have hothers : Distinct (level.others new) := h.sublist List.filter_sublist
  rw [idxOf_order_of_mem_others hmold, idxOf_order_of_mem_others hnold,
    idxOf_byPosition_lt_iff hothers hplace hmold hnold, idxOf_getElem_fst h m hm, idxOf_getElem_fst h n hn]

/-- Numbering a level changes nothing but the positions, which become `0, 1, …` in the order of the ranks, and in
the order given for new keys. Numbering again changes nothing. -/
theorem placed_renumbers {level : Schema} (h : Distinct level) {new : List String} (hnew : level.Places new)
    (hlength : level.length ≤ 2147483648) :
    (∃ position, level.Renumbers new position ∧
      level.placed new = level.map fun entry => (entry.1, entry.2.movedTo (position entry.1))) ∧
    (level.placed new).placed [] = level.placed new := by
  refine ⟨⟨(level.order new).idxOf, renumbers_idxOf_order h hnew, ?_⟩, placed_placed h hnew⟩
  rw [placed_eq_map h hnew]
  apply List.map_congr_left
  intro entry hentry
  have hlt : (level.order new).idxOf entry.1 < level.length :=
    (bijOn_idxOf_order h hnew).mapsTo (OrderedMap.mem_keys_of_mem hentry)
  rw [numberedIn, positionIn, nthPosition_eq (by omega)]

def scattered : Schema :=
  [("a", 7), ("b", -1), ("c", -3), ("d", 7), ("e", 0), ("f", -1)].map fun (key, position) =>
    (key, (Item.fresh { widget := "Form" } (.field key key SourcePath.root) (some .null) []).movedTo position)

theorem placed_renumbers_scattered : Distinct scattered ∧ scattered.Places ["e", "b"] ∧
    scattered.length ≤ 2147483648 ∧
    ((scattered.placed ["e", "b"]).map fun entry => (entry.1, entry.2.position)) =
      [("a", 1), ("b", 5), ("c", 0), ("d", 2), ("e", 4), ("f", 3)] ∧
    (∃ position, scattered.Renumbers ["e", "b"] position ∧
      scattered.placed ["e", "b"] = scattered.map fun entry => (entry.1, entry.2.movedTo (position entry.1))) ∧
    (scattered.placed ["e", "b"]).placed [] = scattered.placed ["e", "b"] := by
  have hdistinct : Distinct scattered := by decide +kernel
  have hnew : scattered.Places ["e", "b"] := ⟨by decide, by decide +kernel⟩
  have hlength : scattered.length ≤ 2147483648 := by decide +kernel
  exact ⟨hdistinct, hnew, hlength, by decide +kernel, placed_renumbers hdistinct hnew hlength⟩

end FormSchema.Schema
