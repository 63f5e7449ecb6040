import FormSchema.Identifier
import Mathlib.Data.List.Induction

/-!
Identifiers given to keys. The search among the candidates always ends at a free one, since more
candidates are tried than can be taken, and every identifier it gives is a word. A word is its own
folded key, so a key that is a free word is its own identifier.
-/
namespace FormSchema.Identifier

def Free (taken : List String) (name : String) : Prop := name ∉ reserved ∧ name ∉ taken

def IsWord (text : String) : Prop := text ≠ "" ∧ ∀ c ∈ text.toList, isWordChar c = true

instance (text : String) : Decidable (IsWord text) :=
  decidable_of_iff (text ≠ "" ∧ text.toList.all isWordChar = true) (and_congr_right fun _ => List.all_eq_true)

private theorem toString_injective {m n : Nat} (h : toString m = toString n) : m = n := by
  have hdigits : Nat.toDigits 10 m = Nat.toDigits 10 n := by
    rw [← Nat.toList_repr, ← Nat.toList_repr]
    exact congrArg String.toList h
  rw [← Nat.ofDigitChars_ten_toDigits (n := m), hdigits, Nat.ofDigitChars_ten_toDigits]

private theorem candidate_injective {base : String} {m n : Nat} (h : candidate base m = candidate base n) :
    m = n := by
  have hlength : ∀ n, (candidate base (n + 1)).length ≠ base.length := by
    intro n heq
    have hpos : 0 < (toString (n + 1)).length := Nat.length_repr_pos
    rw [candidate, String.length_append] at heq
    omega
  cases m with
  | zero =>
    cases n with
    | zero => rfl
    | succ n => exact absurd (congrArg String.length h).symm (hlength n)
  | succ m =>
    cases n with
    | zero => exact absurd (congrArg String.length h) (hlength m)
    | succ n => exact Nat.succ.inj (toString_injective ((String.append_right_inj base).mp h)) ▸ rfl

/-- One of the candidates that the search tries is free. -/
private theorem exists_free_candidate (base : String) (taken : List String) :
    ∃ n < taken.length + 3, Free taken (candidate base n) := by
  apply Classical.byContradiction
  intro hnone
  have hall : ∀ n < taken.length + 3, candidate base n ∈ reserved ++ taken := by
    intro n hn
    refine Classical.byContradiction fun hmem => hnone ⟨n, hn, ?_⟩
    rwa [List.mem_append, not_or] at hmem
  have hnodup : ((List.range (taken.length + 3)).map (candidate base)).Nodup := by
    refine List.pairwise_map.mpr (List.Pairwise.imp ?_ List.nodup_range)
    intro m n hne heq
    exact hne (candidate_injective heq)
  have hsubset : (List.range (taken.length + 3)).map (candidate base) ⊆ reserved ++ taken := by
    intro name hname
    obtain ⟨n, hn, rfl⟩ := List.mem_map.mp hname
    exact hall n (List.mem_range.mp hn)
  have hle := hnodup.length_le_of_subset hsubset
  simp only [List.length_map, List.length_range, List.length_append, reserved, List.length_cons,
    List.length_nil] at hle
  omega

private theorem free_iff (taken : List String) (name : String) :
    (!isReserved name && !taken.contains name) = true ↔ Free taken name := by
  simp [isReserved, Free]

/-- The search stops at the first free candidate. -/
theorem firstFree_spec (base : String) (taken : List String) :
    ∃ n < taken.length + 3, firstFree base taken = candidate base n ∧
      Free taken (candidate base n) ∧ ∀ m < n, ¬ Free taken (candidate base m) := by
  let attempt (n : Nat) : Option String :=
    if !isReserved (candidate base n) && !taken.contains (candidate base n) then some (candidate base n)
    else none
  have hsome : ∀ {n name}, attempt n = some name ↔ name = candidate base n ∧ Free taken name := by
    intro n name
    simp only [attempt, Option.ite_none_right_eq_some, free_iff, Option.some.injEq]
    constructor
    · rintro ⟨hfree, rfl⟩
      exact ⟨rfl, hfree⟩
    · rintro ⟨rfl, hfree⟩
      exact ⟨hfree, rfl⟩
  have hfound : (List.range (taken.length + 3)).findSome? attempt ≠ none := by
    obtain ⟨n, hn, hfree⟩ := exists_free_candidate base taken
    intro hnone
    have := List.findSome?_eq_none_iff.mp hnone n (List.mem_range.mpr hn)
    rw [hsome.mpr ⟨rfl, hfree⟩] at this
    cases this
  obtain ⟨name, hname⟩ := Option.ne_none_iff_exists'.mp hfound
  obtain ⟨before, n, after, hrange, hn, hbefore⟩ := List.findSome?_eq_some_iff.mp hname
  obtain ⟨rfl, hfree⟩ := hsome.mp hn
  rw [List.range_eq_range', List.range'_eq_append_iff] at hrange
  obtain ⟨k, hk, rfl, hrest⟩ := hrange
  obtain ⟨hkn, hpos, -⟩ := List.range'_eq_cons_iff.mp hrest.symm
  rw [Nat.zero_add, Nat.mul_one] at hkn
  subst hkn
  refine ⟨k, by omega, ?_, hfree, fun m hm hfreem => ?_⟩
  · rw [firstFree]
    exact congrArg (Option.getD · base) hname
  · have hnone := hbefore m (by simpa [List.mem_range'_1] using hm)
    rw [hsome.mpr ⟨rfl, hfreem⟩] at hnone
    cases hnone

private theorem free_firstFree (base : String) (taken : List String) : Free taken (firstFree base taken) := by
  obtain ⟨n, -, heq, hfree, -⟩ := firstFree_spec base taken
  exact heq ▸ hfree

theorem ofKey_notMem (key : String) (taken : List String) : ofKey key taken ∉ taken :=
  (free_firstFree ..).2

theorem ofKey_notReserved (key : String) (taken : List String) : ofKey key taken ∉ reserved :=
  (free_firstFree ..).1

theorem isWord_of_mem_reserved {name : String} (h : name ∈ reserved) : IsWord name := by
  have hwords : ∀ name ∈ reserved, name ≠ "" ∧ name.toList.all isWordChar = true := by
    decide +kernel
  exact ⟨(hwords name h).1, List.all_eq_true.mp (hwords name h).2⟩

private theorem isWordChar_of_mem_fold {cs : List Char} {c : Char} (h : c ∈ fold cs) :
    isWordChar c = true := by
  unfold fold at h
  split at h
  · rw [List.mem_singleton.mp h]; decide
  · obtain ⟨d, -, rfl⟩ := List.mem_map.mp h
    split
    · assumption
    · decide

private theorem isWord_fold (cs : List Char) : IsWord (String.ofList (fold cs)) := by
  refine ⟨fun hempty => ?_, fun c hc => isWordChar_of_mem_fold (by simpa using hc)⟩
  have hnil : fold cs = [] := by simpa using congrArg String.toList hempty
  unfold fold at hnil
  split at hnil
  · cases hnil
  · rename_i hne
    rw [List.map_eq_nil_iff] at hnil
    simp [hnil] at hne

/-- A decimal suffix leaves a word a word. -/
theorem IsWord.candidate {base : String} (h : IsWord base) (n : Nat) : IsWord (candidate base n) := by
  cases n with
  | zero => exact h
  | succ n =>
    refine ⟨fun hempty => h.1 ?_, fun c hc => ?_⟩
    · exact (String.append_eq_empty_iff.mp hempty).1
    · rw [Identifier.candidate, String.toList_append, List.mem_append] at hc
      rcases hc with hc | hc
      · exact h.2 c hc
      · have hdigit : c.isDigit = true := Nat.isDigit_of_mem_toDigits (by decide) (Nat.le_refl 10)
          (by rw [← Nat.toList_repr]; exact hc)
        simp [isWordChar, Char.isAlphanum, hdigit]

/-- What the search for the identifier of a key starts from. -/
def folded (key : String) : String := String.ofList (fold (Punycode.toAscii key).toList)

theorem isWord_ofKey (key : String) (taken : List String) : IsWord (ofKey key taken) := by
  obtain ⟨n, -, heq, -⟩ := firstFree_spec (folded key) taken
  rw [ofKey, ← folded, heq]
  exact (isWord_fold _).candidate n

private theorem isAscii_of_isWordChar {c : Char} (h : isWordChar c = true) : Punycode.isAscii c = true := by
  have hbound : c.val ≤ 122 := by
    have hranges : (decide (65 ≤ c.val ∧ c.val ≤ 90) || (97 ≤ c.val && c.val ≤ 122) ||
        (48 ≤ c.val && c.val ≤ 57) || c = '_') = true := h
    simp only [Bool.or_eq_true, Bool.and_eq_true, decide_eq_true_eq] at hranges
    rcases hranges with ((⟨-, h⟩ | ⟨-, h⟩) | ⟨-, h⟩) | rfl
    · exact UInt32.le_trans h (by decide)
    · exact h
    · exact UInt32.le_trans h (by decide)
    · decide
  exact decide_eq_true (Nat.lt_of_le_of_lt (UInt32.le_iff_toNat_le.mp hbound) (by decide))

/-- A key without full stops is one label. -/
theorem toAscii_of_notMem {key : String} (h : '.' ∉ key.toList) :
    (Punycode.toAscii key).toList = if key.toList.all Punycode.isAscii then key.toList
      else "xn--".toList ++ Punycode.encode key.toList := by
  rw [Punycode.toAscii, List.splitOn_eq_singleton h, List.map_singleton, String.toList_ofList]
  exact List.intercalate_singleton ..

private theorem folded_of_isWord {key : String} (h : IsWord key) : folded key = key := by
  have hascii : (Punycode.toAscii key).toList = key.toList := by
    rw [toAscii_of_notMem fun hdot => absurd (h.2 '.' hdot) (by decide), if_pos]
    exact List.all_eq_true.mpr fun c hc => isAscii_of_isWordChar (h.2 c hc)
  have hne : key.toList ≠ [] := fun hnil => h.1 (String.toList_eq_nil_iff.mp hnil)
  have hfold : fold key.toList = key.toList := by
    rw [fold, if_neg (by simpa using hne)]
    exact (List.map_congr_left fun c hc => if_pos (h.2 c hc)).trans (List.map_id _)
  rw [folded, hascii, hfold, String.ofList_toList]

/-- A free folded key is the identifier itself. -/
theorem ofKey_of_free {key : String} {taken : List String} (h : Free taken (folded key)) :
    ofKey key taken = folded key := by
  obtain ⟨n, -, heq, -, hbefore⟩ := firstFree_spec (folded key) taken
  cases n with
  | zero => exact heq
  | succ n => exact absurd h (hbefore 0 n.succ_pos)

private theorem ofKey_of_isWord {key : String} {taken : List String} (hword : IsWord key) (h : Free taken key) :
    ofKey key taken = key := by
  have hfolded := folded_of_isWord hword
  exact (ofKey_of_free (hfolded.symm ▸ h)).trans hfolded

private theorem ofKeys_concat (keys : List String) (key : String) :
    ofKeys (keys ++ [key]) = ofKeys keys ++ [ofKey key (ofKeys keys)] := by
  rw [ofKeys, List.foldl_append]
  rfl

private theorem length_ofKeys (keys : List String) : (ofKeys keys).length = keys.length := by
  induction keys using List.reverseRecOn with
  | nil => rfl
  | append_singleton keys key ih => rw [ofKeys_concat, List.length_append, List.length_append, ih]; rfl

private theorem nodup_ofKeys (keys : List String) : (ofKeys keys).Nodup := by
  induction keys using List.reverseRecOn with
  | nil => exact List.nodup_nil
  | append_singleton keys key ih =>
    rw [ofKeys_concat]
    refine List.nodup_append.mpr ⟨ih, List.pairwise_singleton .., ?_⟩
    rintro name hname _ hlast rfl
    rw [List.mem_singleton.mp hlast] at hname
    exact ofKey_notMem _ _ hname

/-- Distinct words name themselves. -/
theorem ofKeys_of_words {keys : List String} (hnodup : keys.Nodup)
    (hwords : ∀ key ∈ keys, IsWord key ∧ key ∉ reserved) : ofKeys keys = keys := by
  induction keys using List.reverseRecOn with
  | nil => rfl
  | append_singleton keys key ih =>
    obtain ⟨hkeys, -, hnew⟩ := List.nodup_append.mp hnodup
    have hlast := hwords key (by simp)
    have hfree : Free keys key :=
      ⟨hlast.2, fun hmem => hnew key hmem key (List.mem_singleton_self key) rfl⟩
    rw [ofKeys_concat, ih hkeys fun other hother => hwords other (List.mem_append_left _ hother),
      ofKey_of_isWord hlast.1 hfree]

/-- What is asked of the identifier of a key beside the identifiers already taken. -/
structure Suits (key : String) (taken : List String) (identifier : String) : Prop where
  /-- The folded key if that is free, and else the first free one among those with a suffix. -/
  first : ∃ n < taken.length + 3, identifier = candidate (folded key) n ∧
    ∀ m < n, ¬ Free taken (candidate (folded key) m)
  free : Free taken identifier
  word : IsWord identifier
  /-- As a key of its own it is its identifier, wherever it is not taken. -/
  stable : ∀ others, identifier ∉ others → ofKey identifier others = identifier

/-- Every key gets a suitable identifier. Keys that are named one after the other get different ones, and
distinct words name themselves. -/
theorem ofKey_suits : (∀ key taken, Suits key taken (ofKey key taken)) ∧
    ∀ keys, (ofKeys keys).length = keys.length ∧ (ofKeys keys).Nodup ∧
      (keys.Nodup → (∀ key ∈ keys, IsWord key ∧ key ∉ reserved) → ofKeys keys = keys) := by
  refine ⟨fun key taken => ?_, fun keys => ⟨length_ofKeys keys, nodup_ofKeys keys, ofKeys_of_words⟩⟩
  obtain ⟨n, hn, heq, -, hbefore⟩ := firstFree_spec (folded key) taken
  have hword := isWord_ofKey key taken
  exact ⟨⟨n, hn, heq, hbefore⟩, free_firstFree .., hword,
    fun others hothers => ofKey_of_isWord hword ⟨ofKey_notReserved key taken, hothers⟩⟩

/-- A suffixed key beside the key that is like it, and words one of which looks suffixed. -/
theorem ofKey_suits_underscores : "__1" ∉ ["__", "name"] ∧ ofKey "__1" ["__", "name"] = "__1" ∧
    ["__1", "__", "name"].Nodup ∧ ofKeys ["__1", "__", "name"] = ["__1", "__", "name"] := by
  have hsuffixed : ofKey "##" ["__"] = "__1" := by decide +kernel
  have hnotMem : "__1" ∉ ["__", "name"] := by decide
  have hnodup : ["__1", "__", "name"].Nodup := by decide
  have hwords : ∀ key ∈ ["__1", "__", "name"], IsWord key ∧ key ∉ reserved := by decide +kernel
  have hstable := (ofKey_suits.1 "##" ["__"]).stable ["__", "name"]
  rw [hsuffixed] at hstable
  exact ⟨hnotMem, hstable hnotMem, hnodup, (ofKey_suits.2 _).2.2 hnodup hwords⟩

end FormSchema.Identifier
