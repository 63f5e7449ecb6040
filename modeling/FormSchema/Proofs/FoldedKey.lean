import FormSchema.Proofs.Identifier
import FormSchema.Proofs.Punycode.RoundTrip

/-!
Keys of other scripts stay distinct when they are folded. The hyphens of their encoding become underscores, which
such a key may hold as well, but no underscore follows the last one of them, so that it is found again.
-/
namespace FormSchema.Identifier
open Punycode (insertions encode isAscii)

/-- A text of two parts, with a separator between them if the first part is not empty. -/
def separated (separator : Char) (first second : List Char) : List Char :=
  first ++ (if first.isEmpty then [] else [separator]) ++ second

/-- The parts are found again if the separator is not in the second one. -/
private theorem separated_inj {separator : Char} {a b c d : List Char} (hb : separator ∉ b) (hd : separator ∉ d)
    (h : separated separator a b = separated separator c d) : a = c ∧ b = d := by
  have hcons : ∀ {first second : List Char}, first ≠ [] →
      separated separator first second = first ++ separator :: second := by
    intro first second hne
    rw [separated, if_neg (by simpa using hne), List.append_assoc]
    rfl
  by_cases ha : a = []
  · by_cases hc : c = []
    · subst ha hc
      exact ⟨rfl, h⟩
    · rw [ha, hcons hc] at h
      have hmem : separator ∈ separated separator [] b := by simp [h]
      exact absurd hmem hb
  · by_cases hc : c = []
    · rw [hc, hcons ha] at h
      have hmem : separator ∈ separated separator [] d := by simp [← h]
      exact absurd hmem hd
    · rw [hcons ha, hcons hc] at h
      obtain ⟨middle, hleft, hright⟩ | ⟨middle, hleft, hright⟩ := List.append_eq_append_iff.mp h
      · cases middle with
        | nil => exact ⟨by simpa using hleft.symm, by simpa using hright⟩
        | cons first rest =>
          have hmem : separator ∈ b := by rw [(List.cons.inj hright).2]; simp
          exact absurd hmem hb
      · cases middle with
        | nil => exact ⟨by simpa using hleft, by simpa using hright.symm⟩
        | cons first rest =>
          have hmem : separator ∈ d := by rw [(List.cons.inj hright).2]; simp
          exact absurd hmem hd

/-- A key with other than ASCII characters, and with letters, digits and underscores only among the ASCII ones. -/
structure Foreign (key : String) : Prop where
  foreign : ∃ c ∈ key.toList, 128 ≤ c.toNat
  words : ∀ c ∈ key.toList, c.toNat < 128 → isWordChar c = true
  short : key.toList.length ≤ 3800

instance (key : String) : Decidable (Foreign key) :=
  decidable_of_iff (key.toList.any (128 ≤ ·.toNat) = true ∧
      key.toList.all (fun c => c.toNat < 128 → isWordChar c = true) = true ∧ key.toList.length ≤ 3800) <| by
    simp only [List.any_eq_true, List.all_eq_true, decide_eq_true_eq]
    exact ⟨fun ⟨foreign, words, short⟩ => ⟨foreign, words, short⟩, fun h => ⟨h.foreign, h.words, h.short⟩⟩

private theorem isWordChar_of_mem_insertions {label : List Char} {c : Char} (h : c ∈ insertions label) :
    isWordChar c = true ∧ c ≠ '_' := by
  have hdigits : ∀ n < 36, isWordChar (Punycode.digit n) = true ∧ Punycode.digit n ≠ '_' := by decide +kernel
  exact Punycode.forall_mem_insertions (p := fun c => isWordChar c = true ∧ c ≠ '_') hdigits label c h

private theorem fold_map {cs : List Char} (h : ∀ c ∈ cs, isWordChar c = true) :
    cs.map (fun c => if isWordChar c then c else '_') = cs :=
  (List.map_congr_left fun c hc => if_pos (h c hc)).trans (List.map_id _)

namespace Foreign
variable {key : String}

private theorem toList_folded (h : Foreign key) :
    (folded key).toList = "xn__".toList ++ separated '_' (key.toList.filter isAscii) (insertions key.toList) := by
  have hdot : '.' ∉ key.toList := fun hmem => absurd (h.words '.' hmem (by decide)) (by decide)
  have hforeign : ¬ key.toList.all isAscii = true := by
    obtain ⟨c, hc, hlarge⟩ := h.foreign
    intro hall
    have hascii : decide (c.toNat < 128) = true := List.all_eq_true.mp hall c hc
    exact Nat.not_lt.mpr hlarge (of_decide_eq_true hascii)
  have hbasic : ∀ c ∈ key.toList.filter isAscii, isWordChar c = true := by
    intro c hc
    obtain ⟨hmem, hascii⟩ := List.mem_filter.mp hc
    exact h.words c hmem (of_decide_eq_true hascii)
  rw [folded, String.toList_ofList, toAscii_of_notMem hdot, if_neg hforeign, fold, if_neg (by simp), List.map_append,
    Punycode.encode_eq, List.map_append, List.map_append, fold_map hbasic,
    fold_map fun c hc => (isWordChar_of_mem_insertions hc).1, separated]
  cases (key.toList.filter isAscii).isEmpty <;> rfl

private theorem ofKey_eq (h : Foreign key) : ofKey key [] = folded key := by
  refine ofKey_of_free ⟨fun hmem => ?_, List.not_mem_nil⟩
  have hfirst : ∀ name ∈ reserved, name.toList.head? = some '_' := by decide +kernel
  have := hfirst _ hmem
  rw [h.toList_folded] at this
  cases this

end Foreign

/-- Different keys of other scripts get different identifiers, of which none is taken. -/
theorem ofKey_ne_of_foreign {a b : String} (ha : Foreign a) (hb : Foreign b) (h : a ≠ b) :
    ofKey a [] ≠ ofKey b [] := by
  intro heq
  rw [ha.ofKey_eq, hb.ofKey_eq] at heq
  have hfolded := congrArg String.toList heq
  rw [ha.toList_folded, hb.toList_folded] at hfolded
  obtain ⟨hbasic, hinsertions⟩ := separated_inj (fun hmem => (isWordChar_of_mem_insertions hmem).2 rfl)
    (fun hmem => (isWordChar_of_mem_insertions hmem).2 rfl) (List.append_cancel_left hfolded)
  have hencode : encode a.toList = encode b.toList := by
    rw [Punycode.encode_eq, Punycode.encode_eq, hbasic, hinsertions]
  have hdecode := congrArg Punycode.Decoder.decode? hencode
  rw [Punycode.decode?_encode ha.short, Punycode.decode?_encode hb.short] at hdecode
  exact h (String.toList_inj.mp (Option.some.inj hdecode))

/-- A key with an underscore at its end, where another one has a hyphen in its encoding. -/
theorem ofKey_ne_of_foreign_underscore : Foreign "a_é" ∧ Foreign "aé_" ∧ "a_é" ≠ "aé_" ∧
    ofKey "a_é" [] ≠ ofKey "aé_" [] := by
  have hfirst : Foreign "a_é" := by decide +kernel
  have hsecond : Foreign "aé_" := by decide +kernel
  have hne : "a_é" ≠ "aé_" := by decide
  exact ⟨hfirst, hsecond, hne, ofKey_ne_of_foreign hfirst hsecond hne⟩

end FormSchema.Identifier
