import FormSchema.Path
import FormSchema.Proofs.Identifier
import Mathlib.Data.List.Induction

namespace FormSchema.ItemPath

/-- At least one character, and no full stop: what can stand in a path for an identifier. -/
def IsName (text : String) : Prop := text ≠ "" ∧ '.' ∉ text.toList

instance (text : String) : Decidable (IsName text) := inferInstanceAs (Decidable (_ ∧ _))

theorem isName_of_isWord {text : String} (h : Identifier.IsWord text) : IsName text :=
  ⟨h.1, fun hdot => absurd (h.2 '.' hdot) (by decide)⟩

private theorem segments_dot (a b : String) : segments (a ++ "." ++ b) = segments a ++ segments b := by
  have hchars : (a ++ "." ++ b).toList = a.toList ++ '.' :: b.toList := by simp
  rw [segments, segments, segments, hchars, List.splitOn_append_cons_self, List.map_append]

private theorem segments_of_notMem (text : String) (h : '.' ∉ text.toList) : segments text = [text] := by
  rw [segments, List.splitOn_eq_singleton h, List.map_singleton, String.ofList_toList]

private theorem segments_injective {a b : String} (h : segments a = segments b) : a = b := by
  have hpieces : a.toList.splitOn '.' = b.toList.splitOn '.' :=
    (List.map_inj_right fun _ _ => String.ofList_injective).mp h
  have hjoin : ∀ text : String, ['.'].intercalate (text.toList.splitOn '.') = text.toList := fun _ =>
    List.intercalate_splitOn '.'
  rw [← String.toList_inj, ← hjoin a, hpieces, hjoin b]

/-- The pieces of a split text do not have the separator. -/
theorem notMem_of_mem_splitOn {separator : Char} {cs piece : List Char} (h : piece ∈ cs.splitOn separator) :
    separator ∉ piece := by
  induction cs generalizing piece with
  | nil =>
    rw [List.splitOn_nil, List.mem_singleton] at h
    exact h ▸ List.not_mem_nil
  | cons c cs ih =>
    rw [List.splitOn_cons_eq_if_modifyHead] at h
    split at h
    · rcases List.mem_cons.mp h with rfl | hpiece
      · exact List.not_mem_nil
      · exact ih hpiece
    · rename_i hc
      obtain ⟨head, tail, hsplit⟩ := List.exists_cons_of_ne_nil (List.splitOn_ne_nil separator cs)
      rw [hsplit] at h ih
      rcases List.mem_cons.mp h with rfl | hpiece
      · have hhead : separator ∉ head := ih List.mem_cons_self
        rw [List.mem_cons, not_or]
        exact ⟨fun heq => hc (by simp [← heq]), hhead⟩
      · exact ih (List.mem_cons_of_mem _ hpiece)

private theorem dot_notMem_segments {path segment : String} (h : segment ∈ segments path) : '.' ∉ segment.toList := by
  obtain ⟨piece, hpiece, rfl⟩ := List.mem_map.mp h
  rw [String.toList_ofList]
  exact notMem_of_mem_splitOn hpiece

def childWords (identifiers : List String) : List String :=
  identifiers.flatMap fun identifier => [childrenWord, identifier]

private theorem segments_foldl_child {rest : List String} (h : ∀ identifier ∈ rest, IsName identifier)
    (parent : String) : segments (rest.foldl child parent) = segments parent ++ childWords rest := by
  induction rest generalizing parent with
  | nil => simp [childWords]
  | cons identifier rest ih =>
    obtain ⟨hfirst, hrest⟩ := List.forall_mem_cons.mp h
    rw [List.foldl_cons, ih hrest, child, segments_dot, segments_dot, segments_of_notMem identifier hfirst.2,
      segments_of_notMem childrenWord (by decide)]
    simp [childWords]

private theorem segments_through {first : String} {rest : List String} (hfirst : IsName first)
    (hrest : ∀ identifier ∈ rest, IsName identifier) :
    segments (through first rest) = schemaWord :: first :: childWords rest := by
  rw [through, segments_foldl_child hrest, top, segments_dot, segments_of_notMem first hfirst.2,
    segments_of_notMem schemaWord (by decide)]
  rfl

theorem exists_through_eq (first : String) (rest : List String) :
    ∃ more, through first rest = schemaWord ++ "." ++ more := by
  induction rest using List.reverseRecOn with
  | nil => exact ⟨first, rfl⟩
  | append_singleton rest identifier ih =>
    obtain ⟨more, hmore⟩ := ih
    have hchild : through first (rest ++ [identifier]) = child (through first rest) identifier := by
      rw [through, List.foldl_append]
      rfl
    refine ⟨more ++ "." ++ childrenWord ++ "." ++ identifier, ?_⟩
    rw [hchild, hmore, child]
    simp only [String.append_assoc]

private theorem descendants_childWords {rest : List String} (h : ∀ identifier ∈ rest, identifier ≠ "") :
    descendants (childWords rest) = .ok rest := by
  induction rest with
  | nil => rfl
  | cons identifier rest ih =>
    obtain ⟨hfirst, hrest⟩ := List.forall_mem_cons.mp h
    show descendants (childrenWord :: identifier :: childWords rest) = _
    rw [descendants, if_pos rfl]
    rw [if_neg hfirst, ih hrest]
    rfl

/-- The path through some names leads through just these. -/
theorem identifiers_through_of_names {first : String} {rest : List String} (hfirst : IsName first)
    (hrest : ∀ identifier ∈ rest, IsName identifier) :
    identifiers (through first rest) = .ok (first :: rest) := by
  rw [identifiers, segments_through hfirst hrest, ofSegments, if_pos rfl]
  rw [if_neg hfirst.1, descendants_childWords fun identifier hidentifier => (hrest identifier hidentifier).1]
  rfl

/-- The path through some identifiers leads through just these. -/
theorem identifiers_through {first : String} {rest : List String} (hfirst : Identifier.IsWord first)
    (hrest : ∀ identifier ∈ rest, Identifier.IsWord identifier) :
    identifiers (through first rest) = .ok (first :: rest) :=
  identifiers_through_of_names (isName_of_isWord hfirst) fun identifier hidentifier =>
    isName_of_isWord (hrest identifier hidentifier)

private theorem eq_childWords_of_descendants {words rest : List String} (h : descendants words = .ok rest) :
    words = childWords rest ∧ ∀ identifier ∈ rest, identifier ≠ "" := by
  fun_induction descendants words generalizing rest with
  | case1 =>
    cases h
    exact ⟨rfl, by simp⟩
  | case2 => cases h
  | case3 => cases h
  | case4 identifier words hidentifier ih =>
    cases hwords : descendants words with
    | error fault =>
      rw [hwords] at h
      cases h
    | ok names =>
      rw [hwords] at h
      cases h
      obtain ⟨rfl, hnames⟩ := ih hwords
      exact ⟨rfl, List.forall_mem_cons.mpr ⟨hidentifier, hnames⟩⟩
  | case5 => cases h

private theorem ofSegments_eq_ok {words names : List String} (h : ofSegments words = .ok names) :
    ∃ first rest, names = first :: rest ∧ words = schemaWord :: first :: childWords rest ∧
      ∀ identifier ∈ names, identifier ≠ "" := by
  revert h
  fun_cases ofSegments words with
  | case4 first words hfirst =>
    intro h
    cases hwords : descendants words with
    | error fault =>
      rw [hwords] at h
      cases h
    | ok rest =>
      rw [hwords] at h
      cases h
      obtain ⟨rfl, hrest⟩ := eq_childWords_of_descendants hwords
      exact ⟨first, rest, rfl, rfl, List.forall_mem_cons.mpr ⟨hfirst, hrest⟩⟩
  | _ => nofun

/-- A path that names identifiers consists of them and the words between. -/
theorem segments_of_identifiers {path : String} {names : List String} (h : identifiers path = .ok names) :
    ∃ first rest, names = first :: rest ∧ segments path = schemaWord :: first :: childWords rest ∧
      ∀ identifier ∈ names, identifier ≠ "" := by
  apply ofSegments_eq_ok
  rw [identifiers] at h
  cases hwords : ofSegments (segments path) with
  | error fault =>
    rw [hwords] at h
    cases h
  | ok found =>
    rw [hwords] at h
    cases h
    rfl

/-- A path that names identifiers is the one through them. -/
theorem eq_through_of_identifiers {path : String} {names : List String} (h : identifiers path = .ok names) :
    ∃ first rest, names = first :: rest ∧ path = through first rest ∧ ∀ name ∈ names, IsName name := by
  obtain ⟨first, rest, rfl, hwords, hnonempty⟩ := segments_of_identifiers h
  have hnames : ∀ name ∈ first :: rest, IsName name := by
    intro name hname
    have hmem : name ∈ segments path := by
      rw [hwords]
      simp only [childWords, List.mem_cons, List.mem_flatMap, List.not_mem_nil, or_false]
      rcases List.mem_cons.mp hname with rfl | hrest
      · exact .inr (.inl rfl)
      · exact .inr (.inr ⟨name, hrest, .inr rfl⟩)
    exact ⟨hnonempty name hname, dot_notMem_segments hmem⟩
  obtain ⟨hfirst, hrest⟩ := List.forall_mem_cons.mp hnames
  exact ⟨first, rest, rfl, segments_injective (hwords.trans (segments_through hfirst hrest).symm), hnames⟩

private theorem identifiers_error {path : String} {error : SchemaError} (h : identifiers path = .error error) :
    ∃ fault, error = .invalidItemPath path fault := by
  rw [identifiers] at h
  cases hwords : ofSegments (segments path) with
  | error fault =>
    rw [hwords] at h
    exact ⟨fault, (Except.error.inj h).symm⟩
  | ok names =>
    rw [hwords] at h
    cases h

/-- The names that a path leads through are those it was built from, and every text that was not built from names is
refused. -/
theorem identifiers_exact (path : String) :
    (∀ names, identifiers path = .ok names ↔
      ∃ first rest, names = first :: rest ∧ (∀ name ∈ names, IsName name) ∧ path = through first rest) ∧
    ((∃ fault, identifiers path = .error (.invalidItemPath path fault)) ↔
      ¬ ∃ first rest, (∀ name ∈ first :: rest, IsName name) ∧ path = through first rest) := by
  have hbuilt : ∀ {first rest}, (∀ name ∈ first :: rest, IsName name) → path = through first rest →
      identifiers path = .ok (first :: rest) := by
    rintro first rest hnames rfl
    obtain ⟨hfirst, hrest⟩ := List.forall_mem_cons.mp hnames
    exact identifiers_through_of_names hfirst hrest
  refine ⟨fun names => ⟨fun h => ?_, ?_⟩, ?_, fun hother => ?_⟩
  · obtain ⟨first, rest, heq, hpath, hnames⟩ := eq_through_of_identifiers h
    exact ⟨first, rest, heq, hnames, hpath⟩
  · rintro ⟨first, rest, rfl, hnames, hpath⟩
    exact hbuilt hnames hpath
  · rintro ⟨fault, hfault⟩ ⟨first, rest, hnames, hpath⟩
    rw [hbuilt hnames hpath] at hfault
    cases hfault
  · cases h : identifiers path with
    | error error =>
      obtain ⟨fault, rfl⟩ := identifiers_error h
      exact ⟨fault, rfl⟩
    | ok names =>
      obtain ⟨first, rest, rfl, hpath, hnames⟩ := eq_through_of_identifiers h
      exact absurd ⟨first, rest, hnames, hpath⟩ hother

/-- The words of paths are names too, and an end that nothing follows is refused. -/
example : identifiers "schema.schema.children.children" = .ok ["schema", "children"] ∧
    identifiers "schema.schema.children" = .error (.invalidItemPath "schema.schema.children" .noChild) := by
  decide +kernel

theorem isWithinArray_iff {path : String} {names : List String} (h : identifiers path = .ok names) :
    isWithinArray path = decide (Identifier.arrayItem ∈ names) := by
  obtain ⟨first, rest, rfl, hwords, -⟩ := segments_of_identifiers h
  rw [isWithinArray, hwords, List.contains_eq_mem]
  have hschema : Identifier.arrayItem ≠ schemaWord := by decide
  have hchildren : Identifier.arrayItem ≠ childrenWord := by decide
  simp [childWords, hschema, hchildren]

end FormSchema.ItemPath
