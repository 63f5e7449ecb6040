import FormSchema.Path
import Mathlib.Data.List.TakeWhile

/-!
Source paths read back. A step ends where the next one begins, since no step begins with a character that a
bare name could go on with, and a quoted name ends at its first quote without a backslash in front. So a
text that is put behind a base stands for one list of steps at most.
-/
namespace FormSchema.SourcePath

def guarded (special c : Char) : List Char := if c = special then ['\\', c] else [c]

/-- Escaping is to replace all backslashes and then all quotes. The other way round, the backslashes that the
quotes have got would be replaced too. -/
theorem flatMap_guarded_guarded (key : List Char) :
    (key.flatMap (guarded '\\')).flatMap (guarded '"') = key.flatMap escape := by
  rw [List.flatMap_assoc]
  congr
  funext c
  by_cases hslash : c = '\\'
  · subst hslash
    rfl
  · rw [guarded, if_neg hslash, List.flatMap_singleton, escape, guarded]
    simp only [hslash, decide_false, Bool.false_or, decide_eq_true_eq]

/-- Reads a quoted name behind its first quote, and what stands behind the last one. -/
def unquote? : List Char → Option (List Char × List Char)
  | [] | ['\\'] => none
  | '"' :: rest => some ([], rest)
  | '\\' :: c :: rest => (unquote? rest).map fun (key, rest) => (c :: key, rest)
  | c :: rest => (unquote? rest).map fun (key, rest) => (c :: key, rest)

def readStep? : List Char → Option (SourceStep × List Char)
  | '.' :: text => some (.name (String.ofList (text.takeWhile isNameChar)), text.dropWhile isNameChar)
  | '[' :: '"' :: text =>
    match unquote? text with
    | some (key, ']' :: rest) => some (.name (String.ofList key), rest)
    | _ => none
  | '[' :: text =>
    match text.dropWhile Char.isDigit with
    | ']' :: rest => some (.index (Nat.ofDigitChars 10 (text.takeWhile Char.isDigit) 0), rest)
    | _ => none
  | _ => none

private theorem length_le_of_unquote? {text key rest : List Char} (h : unquote? text = some (key, rest)) :
    rest.length ≤ text.length := by
  induction text using unquote?.induct generalizing key with
  | case1 => cases h
  | case2 => cases h
  | case3 text =>
    cases h
    exact Nat.le_succ _
  | case4 c text ih =>
    obtain ⟨⟨name, behind⟩, hread, heq⟩ := Option.map_eq_some_iff.mp h
    cases heq
    exact Nat.le_succ_of_le (Nat.le_succ_of_le (ih hread))
  | case5 c text hslash hquote hescape ih =>
    rw [unquote?] at h
    · obtain ⟨⟨name, behind⟩, hread, heq⟩ := Option.map_eq_some_iff.mp h
      cases heq
      exact Nat.le_succ_of_le (ih hread)
    all_goals assumption

private theorem length_lt_of_readStep? {text rest : List Char} {s : SourceStep} (h : readStep? text = some (s, rest)) :
    rest.length < text.length := by
  unfold readStep? at h
  split at h
  · cases h
    exact Nat.lt_succ_of_le (List.length_dropWhile_le ..)
  · rename_i text
    split at h
    · rename_i key behind hread
      cases h
      have := length_le_of_unquote? hread
      simp only [List.length_cons] at this ⊢
      omega
    · cases h
  · rename_i text _
    split at h
    · rename_i behind hread
      cases h
      have := List.length_dropWhile_le Char.isDigit text
      rw [hread] at this
      simp only [List.length_cons] at this ⊢
      omega
    · cases h
  · cases h

def readSteps? (text : List Char) : Option (List SourceStep) :=
  if text.isEmpty then some []
  else match _h : readStep? text with
    | none => none
    | some (s, rest) => (readSteps? rest).map (s :: ·)
termination_by text.length
decreasing_by exact length_lt_of_readStep? _h

/-- The steps that lead from a base to a path. -/
def stepsFrom? (base path : String) : Option (List SourceStep) := readSteps? (path.toList.drop base.toList.length)

/-- What stands in front of a closing quote and behind it. -/
private theorem unquote?_escape (c : Char) (text : List Char) :
    unquote? (escape c ++ text) = (unquote? text).map fun (key, rest) => (c :: key, rest) := by
  rw [escape]
  split
  · rw [List.cons_append, List.singleton_append, unquote?]
  · rename_i hplain
    rw [Bool.or_eq_true, decide_eq_true_eq, decide_eq_true_eq, not_or] at hplain
    rw [List.singleton_append, unquote?]
    · exact fun hslash => absurd hslash hplain.1
    · exact hplain.2
    · exact fun _ _ hslash => absurd hslash hplain.1

private theorem unquote?_quoted (key rest : List Char) :
    unquote? (key.flatMap escape ++ '"' :: rest) = some (key, rest) := by
  induction key with
  | nil => rfl
  | cons c key ih => rw [List.flatMap_cons, List.append_assoc, unquote?_escape, ih, Option.map_some]

/-- What ends where a property does not hold of the next character. -/
private theorem span_append {p : Char → Bool} {cs rest : List Char} (hcs : ∀ c ∈ cs, p c = true)
    (hrest : ∀ c ∈ rest.head?, p c = false) :
    (cs ++ rest).takeWhile p = cs ∧ (cs ++ rest).dropWhile p = rest := by
  have hstop : rest.takeWhile p = [] ∧ rest.dropWhile p = rest := by
    cases rest with
    | nil => exact ⟨rfl, rfl⟩
    | cons c rest => simp [hrest c rfl]
  rw [List.takeWhile_append_of_pos hcs, List.dropWhile_append_of_pos hcs, hstop.1, hstop.2, List.append_nil]
  exact ⟨rfl, rfl⟩

private theorem isNameChar_of_mem_bareName {name : List Char} (h : isBareName name = true) :
    ∀ c ∈ name, isNameChar c = true := by
  cases name with
  | nil => cases h
  | cons first rest =>
    obtain ⟨hfirst, hrest⟩ := Bool.and_eq_true_iff.mp h
    rw [List.forall_mem_cons]
    refine ⟨?_, List.all_eq_true.mp hrest⟩
    simp only [isNameStart, isNameChar, Char.isAlphanum, Bool.or_eq_true] at hfirst ⊢
    rcases hfirst with (halpha | hscore) | hdollar
    · exact .inl (.inl (.inl halpha))
    · exact .inl (.inr hscore)
    · exact .inr hdollar

private theorem isDigit_of_mem_toString (n : Nat) : ∀ c ∈ (toString n).toList, c.isDigit = true := by
  intro c hc
  apply Nat.isDigit_of_mem_toDigits (by decide) (Nat.le_refl 10)
  rw [← Nat.toList_repr]
  exact hc

private theorem ofDigitChars_toString (n : Nat) : Nat.ofDigitChars 10 (toString n).toList 0 = n := by
  show Nat.ofDigitChars 10 n.repr.toList 0 = n
  rw [Nat.toList_repr, Nat.ofDigitChars_ten_toDigits]

/-- A step is read in front of any text that a bare name does not go on with. -/
theorem readStep?_segment (s : SourceStep) {rest : List Char} (hrest : ∀ c ∈ rest.head?, isNameChar c = false) :
    readStep? (segment s ++ rest) = some (s, rest) := by
  cases s with
  | name key =>
    rw [segment]
    split
    · rename_i hbare
      obtain ⟨hname, hbehind⟩ := span_append (isNameChar_of_mem_bareName hbare) hrest
      rw [List.cons_append, readStep?, hname, hbehind, String.ofList_toList]
    · have hread := unquote?_quoted key.toList (']' :: rest)
      simp only [quote, List.cons_append, List.append_assoc, List.nil_append, readStep?, hread, String.ofList_toList]
  | index n =>
    have hclose : ∀ c ∈ (']' :: rest).head?, c.isDigit = false := by
      rintro c hc
      cases hc
      rfl
    have hdigit := isDigit_of_mem_toString n
    obtain ⟨hdigits, hbehind⟩ := span_append hdigit hclose
    have htext : segment (.index n) ++ rest = '[' :: ((toString n).toList ++ ']' :: rest) := by simp [segment]
    rw [htext, readStep?]
    · rw [hdigits, hbehind, ofDigitChars_toString]
      rfl
    · -- The digits, or the bracket behind them, are no quote.
      intro text hquote
      cases hcs : (toString n).toList with
      | nil =>
        rw [hcs] at hquote
        cases hquote
      | cons first digits =>
        rw [hcs] at hquote hdigit
        obtain ⟨rfl, -⟩ := List.cons.inj hquote
        exact absurd (hdigit '"' List.mem_cons_self) (by decide)

/-- No step begins like a continued name. -/
private theorem exists_segment_eq_cons (s : SourceStep) : ∃ c text, segment s = c :: text ∧ isNameChar c = false := by
  cases s with
  | name key =>
    rw [segment]
    split
    · exact ⟨'.', _, rfl, rfl⟩
    · exact ⟨'[', _, rfl, rfl⟩
  | index n => exact ⟨'[', _, rfl, rfl⟩

private theorem forall_mem_head?_segments (steps : List SourceStep) :
    ∀ c ∈ (steps.flatMap segment).head?, isNameChar c = false := by
  cases steps with
  | nil => simp
  | cons s steps =>
    obtain ⟨first, text, hsegment, hname⟩ := exists_segment_eq_cons s
    rintro c hc
    rw [List.flatMap_cons, hsegment] at hc
    cases hc
    exact hname

private theorem readSteps?_segments (steps : List SourceStep) : readSteps? (steps.flatMap segment) = some steps := by
  induction steps with
  | nil => rw [readSteps?, List.flatMap_nil, List.isEmpty_nil, if_pos rfl]
  | cons s steps ih =>
    have hread := readStep?_segment s (forall_mem_head?_segments steps)
    obtain ⟨first, text, hsegment, -⟩ := exists_segment_eq_cons s
    rw [List.flatMap_cons, readSteps?, if_neg (by simp [hsegment])]
    split
    · rename_i hnone
      rw [hread] at hnone
      cases hnone
    · rename_i hsome
      rw [hread] at hsome
      cases hsome
      rw [ih, Option.map_some]

private theorem toList_foldl_step (base : String) (steps : List SourceStep) :
    (steps.foldl step base).toList = base.toList ++ steps.flatMap segment := by
  induction steps generalizing base with
  | nil => rw [List.foldl_nil, List.flatMap_nil, List.append_nil]
  | cons s steps ih =>
    rw [List.foldl_cons, ih, step, String.toList_append, String.toList_ofList, List.append_assoc, List.flatMap_cons]

/-- Steps are read back from the path that they lead to, so from one base different steps lead to different
paths. -/
theorem stepsFrom?_foldl_step (base : String) (steps : List SourceStep) :
    stepsFrom? base (steps.foldl step base) = some steps ∧
      ∀ others : List SourceStep, others.foldl step base = steps.foldl step base ↔ others = steps := by
  have hread : ∀ steps : List SourceStep, stepsFrom? base (steps.foldl step base) = some steps := by
    intro steps
    rw [stepsFrom?, toList_foldl_step, List.drop_left, readSteps?_segments]
  refine ⟨hread steps, fun others => ⟨fun heq => ?_, congrArg _⟩⟩
  have hothers := hread others
  rw [heq, hread steps] at hothers
  exact (Option.some.inj hothers).symm

end FormSchema.SourcePath
