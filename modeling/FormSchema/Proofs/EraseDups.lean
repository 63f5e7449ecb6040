import Mathlib.Data.List.Basic
import Mathlib.Data.List.Induction
import Mathlib.Data.List.Nodup

namespace FormSchema
variable {α : Type} [BEq α] [LawfulBEq α]

theorem removeAll_eq_self {l other : List α} (h : ∀ a ∈ l, a ∉ other) : l.removeAll other = l := by
  rw [List.removeAll, List.filter_eq_self]
  intro a ha
  simpa using h a ha

/-- From the last element: it is left out exactly if it occurred before. -/
theorem eraseDups_concat (l : List α) (a : α) :
    (l ++ [a]).eraseDups = if a ∈ l then l.eraseDups else l.eraseDups ++ [a] := by
  rw [List.eraseDups_append]
  split
  · rename_i hmem
    have hnone : [a].removeAll l = [] := by simp [List.removeAll, hmem]
    rw [hnone, List.eraseDups_nil, List.append_nil]
  · rename_i hnew
    rw [removeAll_eq_self (by simpa using hnew)]
    rfl

theorem nodup_eraseDups (l : List α) : l.eraseDups.Nodup := by
  induction l using List.reverseRecOn with
  | nil => exact List.nodup_nil
  | append_singleton l a ih =>
    rw [eraseDups_concat]
    split
    · exact ih
    · rename_i hnew
      refine List.nodup_append.mpr ⟨ih, List.nodup_singleton a, ?_⟩
      rintro b hb _ hlast rfl
      rw [List.mem_singleton.mp hlast] at hb
      exact hnew (List.mem_eraseDups.mp hb)

theorem eraseDups_of_nodup {l : List α} (h : l.Nodup) : l.eraseDups = l := by
  induction l using List.reverseRecOn with
  | nil => rfl
  | append_singleton l a ih =>
    obtain ⟨hl, -, hnew⟩ := List.nodup_append.mp h
    rw [eraseDups_concat, if_neg fun hmem => hnew a hmem a (List.mem_singleton_self a) rfl, ih hl]

/-- What remains stands in the order of first occurrences. -/
theorem pairwise_idxOf_eraseDups (l : List α) :
    l.eraseDups.Pairwise fun a b => l.idxOf a < l.idxOf b := by
  induction l using List.reverseRecOn with
  | nil => exact .nil
  | append_singleton l c ih =>
    have hbefore : l.eraseDups.Pairwise fun a b => (l ++ [c]).idxOf a < (l ++ [c]).idxOf b := by
      refine ih.imp_of_mem fun {a b} ha hb hlt => ?_
      rw [List.idxOf_append_of_mem (List.mem_eraseDups.mp ha), List.idxOf_append_of_mem (List.mem_eraseDups.mp hb)]
      exact hlt
    rw [eraseDups_concat]
    split
    · exact hbefore
    · rename_i hnew
      refine List.pairwise_append.mpr ⟨hbefore, List.pairwise_singleton .., fun a ha last hlast => ?_⟩
      have hmem := List.mem_eraseDups.mp ha
      rw [List.mem_singleton.mp hlast, List.idxOf_append_of_mem hmem, List.idxOf_append_of_notMem hnew]
      exact Nat.lt_add_right _ (List.idxOf_lt_length_of_mem hmem)

theorem eraseDups_filter (p : α → Bool) (l : List α) : (l.filter p).eraseDups = l.eraseDups.filter p := by
  induction l using List.reverseRecOn with
  | nil => rfl
  | append_singleton l a ih =>
    rw [List.filter_append, eraseDups_concat]
    cases hp : p a with
    | false =>
      rw [List.filter_cons_of_neg (by simp [hp]), List.filter_nil, List.append_nil, ih]
      split
      · rfl
      · rw [List.filter_append, List.filter_cons_of_neg (by simp [hp]), List.filter_nil, List.append_nil]
    | true =>
      rw [List.filter_cons_of_pos hp, List.filter_nil, eraseDups_concat, ih]
      by_cases hmem : a ∈ l
      · rw [if_pos (List.mem_filter.mpr ⟨hmem, hp⟩), if_pos hmem]
      · rw [if_neg fun h => hmem (List.mem_of_mem_filter h), if_neg hmem, List.filter_append,
          List.filter_cons_of_pos hp, List.filter_nil]

/-- What is left out in front does not come back. -/
theorem eraseDups_eraseDups_append (l other : List α) : (l.eraseDups ++ other).eraseDups = (l ++ other).eraseDups := by
  induction other using List.reverseRecOn with
  | nil => rw [List.append_nil, List.append_nil, eraseDups_of_nodup (nodup_eraseDups l)]
  | append_singleton other a ih =>
    rw [← List.append_assoc, ← List.append_assoc, eraseDups_concat, eraseDups_concat, ih]
    simp only [List.mem_append, List.mem_eraseDups]

/-- Nothing is added by what occurs before. -/
theorem eraseDups_append_of_forall_mem {l other : List α} (h : ∀ a ∈ other, a ∈ l) :
    (l ++ other).eraseDups = l.eraseDups := by
  have hnone : other.removeAll l = [] := by
    rw [List.removeAll, List.filter_eq_nil_iff]
    intro a ha
    simpa using h a ha
  rw [List.eraseDups_append, hnone, List.eraseDups_nil, List.append_nil]

end FormSchema
