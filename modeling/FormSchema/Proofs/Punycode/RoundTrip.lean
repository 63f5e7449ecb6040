import FormSchema.Proofs.Punycode.Decoder

/-!
Encoding and decoding go in step. At every code, the encoder's distance is how far the decoder lies behind, with each
code counted once for each place of the text that is decoded so far; so each integer makes it insert the character at
which the encoder stands.
-/
namespace FormSchema.Punycode

section Codes

private theorem mem_insertAscending {n m : Nat} {l : List Nat} : m ∈ insertAscending n l ↔ m = n ∨ m ∈ l := by
  induction l with
  | nil => simp [insertAscending]
  | cons first rest ih =>
    rw [insertAscending]
    split
    · simp
    · split
      · rename_i heq
        simp [heq]
      · simp [ih, or_left_comm]

private theorem pairwise_insertAscending {n : Nat} {l : List Nat} (h : l.Pairwise (· < ·)) :
    (insertAscending n l).Pairwise (· < ·) := by
  induction l with
  | nil => exact List.pairwise_singleton ..
  | cons first rest ih =>
    obtain ⟨hfirst, hrest⟩ := List.pairwise_cons.mp h
    rw [insertAscending]
    split
    · rename_i hlt
      refine List.pairwise_cons.mpr ⟨fun m hm => ?_, h⟩
      rcases List.mem_cons.mp hm with rfl | hm
      · exact hlt
      · exact Nat.lt_trans hlt (hfirst m hm)
    · split
      · exact h
      · rename_i hge hne
        refine List.pairwise_cons.mpr ⟨fun m hm => ?_, ih hrest⟩
        rcases mem_insertAscending.mp hm with rfl | hm
        · omega
        · exact hfirst m hm

private theorem pairwise_codes (text : List Nat) : (codes text).Pairwise (· < ·) := by
  rw [codes]
  induction text.filter (initialCode ≤ ·) with
  | nil => exact .nil
  | cons code rest ih => exact pairwise_insertAscending ih

private theorem mem_codes {text : List Nat} {code : Nat} : code ∈ codes text ↔ code ∈ text ∧ initialCode ≤ code := by
  have hmem : ∀ l : List Nat, code ∈ l.foldr insertAscending [] ↔ code ∈ l := by
    intro l
    induction l with
    | nil => rfl
    | cons first rest ih => rw [List.foldr_cons, mem_insertAscending, ih, List.mem_cons]
  rw [codes, hmem, List.mem_filter, decide_eq_true_iff]

end Codes

private theorem insertIdx_length_append (before after : List Char) (c : Char) :
    (before ++ after).insertIdx before.length c = before ++ c :: after := by
  induction before with
  | nil => rfl
  | cons first before ih =>
    rw [List.cons_append, List.length_cons, List.insertIdx_succ_cons, ih]
    rfl

private theorem toNat_le (c : Char) : c.toNat ≤ 1114112 := by
  have hvalid : c.toNat.isValidChar := c.valid
  rcases hvalid with hlt | ⟨-, hlt⟩ <;> omega

/-- Where encoder and decoder are when the one walks over a label for the insertions of a code: a part of the label
is walked over, and the rest is ahead. The characters of lesser codes are in place, and those of this code that
were walked over. -/
structure InStep (basic code : Nat) (walked ahead : List Char) (s : State) (d : Decoder) : Prop where
  short : walked.length + ahead.length ≤ 3800
  output : d.output = walked.filter (·.toNat ≤ code) ++ ahead.filter (·.toNat < code)
  placed : s.placed = d.output.length
  bias : s.bias = d.bias
  bias_lt : d.bias < biasBound
  first : d.index = 0 ∧ s.placed = basic ∨ 0 < d.index ∧ basic < s.placed
  initial : initialCode ≤ d.code
  reached : d.code ≤ code
  distance : d.code * (d.output.length + 1) + d.index + s.delta =
    code * (d.output.length + 1) + (walked.filter (·.toNat ≤ code)).length

namespace InStep
variable {basic code : Nat} {walked ahead : List Char} {s : State} {d : Decoder} {c : Char}

private theorem place_le (h : InStep basic code walked ahead s d) :
    (walked.filter (·.toNat ≤ code)).length ≤ d.output.length := by
  rw [h.output, List.length_append]
  exact Nat.le_add_right ..

private theorem index_add_delta (h : InStep basic code walked ahead s d) :
    d.index + s.delta = (code - d.code) * (d.output.length + 1) + (walked.filter (·.toNat ≤ code)).length := by
  have hdistance := h.distance
  obtain ⟨more, rfl⟩ := Nat.exists_eq_add_of_le h.reached
  rw [Nat.add_mul] at hdistance
  rw [Nat.add_sub_cancel_left]
  omega

theorem length_le (h : InStep basic code walked ahead s d) : d.output.length ≤ 3800 := by
  have hwalked := List.length_filter_le (fun c : Char => decide (c.toNat ≤ code)) walked
  have hahead := List.length_filter_le (fun c : Char => decide (c.toNat < code)) ahead
  have hshort := h.short
  rw [h.output, List.length_append]
  omega

private theorem placed_lt (h : InStep basic code walked ahead s d) : s.placed + 1 < UInt32.size := by
  have hlength := h.length_le
  rw [h.placed, UInt32.size]
  omega

/-- All distances are words: there are at most so many codes, and at most so many places. -/
private theorem index_add_delta_lt (h : InStep basic code walked ahead s d) (hcode : code ≤ 1114112) :
    d.index + s.delta + 1 < UInt32.size := by
  have hplace := h.place_le
  have hlength := h.length_le
  have hinitial : 128 ≤ d.code := h.initial
  have hproduct : (code - d.code) * (d.output.length + 1) ≤ 1113984 * 3801 := Nat.mul_le_mul (by omega) (by omega)
  rw [h.index_add_delta, UInt32.size]
  omega

/-- A lesser code is one place more on the way. -/
private theorem lesser (h : InStep basic code walked (c :: ahead) s d) (hc : c.toNat < code) :
    InStep basic code (walked ++ [c]) ahead { s with delta := s.delta + 1 } d where
  short := by simpa [Nat.add_right_comm, Nat.add_assoc] using h.short
  output := by simpa [hc, Nat.le_of_lt hc] using h.output
  placed := h.placed
  bias := h.bias
  bias_lt := h.bias_lt
  first := h.first
  initial := h.initial
  reached := h.reached
  distance := by
    have hdistance := h.distance
    simp only [List.filter_append, List.length_append, List.filter_cons, Nat.le_of_lt hc, decide_true, if_true,
      List.filter_nil, List.length_singleton]
    omega

/-- A greater code is passed over. -/
private theorem greater (h : InStep basic code walked (c :: ahead) s d) (hc : code < c.toNat) :
    InStep basic code (walked ++ [c]) ahead s d where
  short := by simpa [Nat.add_right_comm, Nat.add_assoc] using h.short
  output := by simpa [Nat.not_lt.mpr (Nat.le_of_lt hc), Nat.not_le.mpr hc] using h.output
  placed := h.placed
  bias := h.bias
  bias_lt := h.bias_lt
  first := h.first
  initial := h.initial
  reached := h.reached
  distance := by simpa [Nat.not_le.mpr hc] using h.distance

/-- At the code itself, the integer for the distance makes the decoder insert the character. -/
theorem same (h : InStep basic c.toNat walked (c :: ahead) s d) (tail : List Char) :
    d.run? (integer s.delta base d.bias ++ tail) =
      (d.inserting c (walked.filter (·.toNat ≤ c.toNat)).length s.delta).run? tail := by
  have hfits := h.index_add_delta_lt (toNat_le c)
  apply Decoder.run?_of_step?
  exact Decoder.step?_integer h.bias_lt h.reached h.place_le h.index_add_delta (by omega) tail

private theorem inserted (h : InStep basic c.toNat walked (c :: ahead) s d) :
    InStep basic c.toNat (walked ++ [c]) ahead ⟨0, adapt s.delta (s.placed + 1) (s.placed = basic), s.placed + 1⟩
      (d.inserting c (walked.filter (·.toNat ≤ c.toNat)).length s.delta) := by
  have hfits := h.index_add_delta_lt (toNat_le c)
  have hlength : (d.output.insertIdx (walked.filter (·.toNat ≤ c.toNat)).length c).length = d.output.length + 1 :=
    List.length_insertIdx_of_le_length h.place_le c
  have hwalked : (walked ++ [c]).filter (·.toNat ≤ c.toNat) = walked.filter (·.toNat ≤ c.toNat) ++ [c] := by simp
  have hfirst : decide (d.index = 0) = decide (s.placed = basic) := by
    rcases h.first with ⟨hindex, hplaced⟩ | ⟨hindex, hplaced⟩
    · rw [hindex, hplaced, decide_eq_true rfl, decide_eq_true rfl]
    · rw [decide_eq_false (Nat.ne_of_gt hindex), decide_eq_false (Nat.ne_of_gt hplaced)]
  exact {
    short := by simpa [Nat.add_right_comm, Nat.add_assoc] using h.short
    output := by
      have houtput : d.output = walked.filter (·.toNat ≤ c.toNat) ++ ahead.filter (·.toNat < c.toNat) := by
        simpa using h.output
      rw [hwalked, Decoder.inserting, houtput, insertIdx_length_append, List.append_assoc]
      rfl
    placed := by rw [Decoder.inserting, hlength, h.placed]
    bias := by rw [Decoder.inserting, hfirst, h.placed]
    bias_lt := (adapt?_eq (by omega) ..).2
    first := by
      refine .inr ⟨Nat.succ_pos _, Nat.lt_succ_of_le ?_⟩
      rcases h.first with ⟨-, hplaced⟩ | ⟨-, hplaced⟩
      · exact Nat.le_of_eq hplaced.symm
      · exact Nat.le_of_lt hplaced
    initial := Nat.le_trans h.initial h.reached
    reached := Nat.le_refl _
    distance := by
      rw [Decoder.inserting, hwalked, List.length_append]
      rfl }

/-- After a walk over the whole label, the next code begins at its front. -/
private theorem finished (h : InStep basic code walked [] s d) :
    InStep basic (code + 1) [] walked { s with delta := s.delta + 1 } d where
  short := by simpa using h.short
  output := by simpa [Nat.lt_succ_iff] using h.output
  placed := h.placed
  bias := h.bias
  bias_lt := h.bias_lt
  first := h.first
  initial := h.initial
  reached := Nat.le_succ_of_le h.reached
  distance := by
    have houtput : d.output = walked.filter (·.toNat ≤ code) := by simpa using h.output
    have hdistance := h.distance
    rw [← houtput] at hdistance
    rw [Nat.succ_mul, List.filter_nil, List.length_nil]
    dsimp only
    omega

/-- Codes that the label does not have are passed over, each with all places. -/
private theorem advanced {label : List Char} {least : Nat} (h : InStep basic least [] label s d) (hcode : least ≤ code)
    (hnone : ∀ c ∈ label, c.toNat < least ∨ code ≤ c.toNat) :
    InStep basic code [] label { s with delta := s.delta + (code - least) * (s.placed + 1) } d where
  short := h.short
  output := by
    rw [h.output]
    refine congrArg (List.filter _ [] ++ ·) (List.filter_congr fun c hc => decide_eq_decide.mpr ?_)
    rcases hnone c hc with hlt | hle <;> omega
  placed := h.placed
  bias := h.bias
  bias_lt := h.bias_lt
  first := h.first
  initial := h.initial
  reached := Nat.le_trans h.reached hcode
  distance := by
    have hdistance := h.distance
    obtain ⟨more, rfl⟩ := Nat.exists_eq_add_of_le hcode
    rw [List.filter_nil, List.length_nil] at hdistance ⊢
    rw [Nat.add_sub_cancel_left, h.placed, Nat.add_mul]
    dsimp only
    omega

end InStep

/-- A walk over a text: what is written, which is the same over words, takes the decoder further. -/
structure Walks (basic code : Nat) (text : List Nat) (s last : State) (d next : Decoder) (written : List Char) :
    Prop where
  words : insertAll? basic code text s = some (written, last)
  plain : insertAll basic code text s = (written, last)
  read : ∀ tail, d.run? (written ++ tail) = next.run? tail

namespace InStep
variable {basic code : Nat} {walked ahead : List Char} {s : State} {d : Decoder} {c : Char}

private theorem exists_walks (h : InStep basic code walked ahead s d) (hcode : code ≤ 1114112) :
    ∃ written last next, Walks basic code (ahead.map Char.toNat) s last d next written ∧
      InStep basic code (walked ++ ahead) [] last next := by
  induction ahead generalizing walked s d with
  | nil => exact ⟨[], s, d, ⟨rfl, rfl, fun _ => rfl⟩, by rwa [List.append_nil]⟩
  | cons c ahead ih =>
    have hfits := h.index_add_delta_lt hcode
    have hdelta : s.delta + 1 < UInt32.size := by omega
    rw [List.map_cons, List.append_cons walked c ahead]
    rcases Nat.lt_trichotomy c.toNat code with hlt | rfl | hgt
    · obtain ⟨written, last, next, hwalks, hend⟩ := ih (h.lesser hlt)
      refine ⟨written, last, next, ⟨?_, ?_, hwalks.read⟩, hend⟩
      · rw [insertAll?, if_pos hlt, bind_word? hdelta]
        exact hwalks.words
      · rw [insertAll, if_pos hlt, capped_of_lt hdelta]
        exact hwalks.plain
    · obtain ⟨written, last, next, hwalks, hend⟩ := ih h.inserted
      refine ⟨integer s.delta base s.bias ++ written, last, next, ⟨?_, ?_, fun tail => ?_⟩, hend⟩
      · have hdigits : s.delta < 10 ^ 10 := Nat.lt_trans (Nat.lt_of_succ_lt hdelta) (by decide)
        have hinteger : integer? s.delta base s.bias = some (integer s.delta base s.bias) :=
          integer?_eq hdigits (by decide) (h.bias ▸ h.bias_lt)
        have hadapt := (adapt?_eq (Nat.lt_of_succ_lt hdelta) (s.placed + 1) (s.placed = basic)).1
        rw [insertAll?, if_neg (Nat.lt_irrefl _), if_pos rfl, bind_word? h.placed_lt]
        simp only [hadapt, hinteger, hwalks.words, Option.bind_eq_bind, Option.bind_some]
        rfl
      · rw [insertAll, if_neg (Nat.lt_irrefl _), if_pos rfl]
        dsimp only
        rw [hwalks.plain]
      · rw [List.append_assoc, h.bias, h.same]
        exact hwalks.read tail
    · obtain ⟨written, last, next, hwalks, hend⟩ := ih (h.greater hgt)
      refine ⟨written, last, next, ⟨?_, ?_, hwalks.read⟩, hend⟩
      · rw [insertAll?, if_neg (Nat.not_lt.mpr (Nat.le_of_lt hgt)), if_neg (Nat.ne_of_gt hgt)]
        exact hwalks.words
      · rw [insertAll, if_neg (Nat.not_lt.mpr (Nat.le_of_lt hgt)), if_neg (Nat.ne_of_gt hgt)]
        exact hwalks.plain

private theorem insertCodes_eq {label : List Char} {remaining : List Nat} {least : Nat}
    (h : InStep basic least [] label s d) (hsorted : remaining.Pairwise (· < ·))
    (hleast : ∀ code ∈ remaining, least ≤ code) (hcodes : ∀ code ∈ remaining, code ∈ label.map Char.toNat)
    (hrest : ∀ c ∈ label, c.toNat < least ∨ c.toNat ∈ remaining) :
    insertCodes? basic (label.map Char.toNat) remaining least s =
        some (insertCodes basic (label.map Char.toNat) remaining least s) ∧
      d.run? (insertCodes basic (label.map Char.toNat) remaining least s) = some label := by
  induction remaining generalizing least s d with
  | nil =>
    have hall : d.output = label := by
      rw [h.output, List.filter_nil, List.nil_append, List.filter_eq_self]
      intro c hc
      simpa using hrest c hc
    exact ⟨rfl, (Decoder.run?_nil d).trans (congrArg some hall)⟩
  | cons code remaining ih =>
    obtain ⟨hfirst, hsorted⟩ := List.pairwise_cons.mp hsorted
    obtain ⟨hle, hleast⟩ := List.forall_mem_cons.mp hleast
    have hcode : code ≤ 1114112 := by
      obtain ⟨c, -, rfl⟩ := List.mem_map.mp (hcodes code List.mem_cons_self)
      exact toNat_le c
    have hadvanced := h.advanced hle fun c hc => by
      rcases hrest c hc with hlt | hmem
      · exact .inl hlt
      · rcases List.mem_cons.mp hmem with heq | hmem
        · exact .inr (Nat.le_of_eq heq.symm)
        · exact .inr (Nat.le_of_lt (hfirst _ hmem))
    obtain ⟨written, last, next, hwalks, hend⟩ := hadvanced.exists_walks hcode
    obtain ⟨hwords, hread⟩ := ih hend.finished hsorted hfirst
      (fun code hmem => hcodes code (List.mem_cons_of_mem _ hmem)) fun c hc => by
        rcases hrest c hc with hlt | hmem
        · exact .inl (by omega)
        · rcases List.mem_cons.mp hmem with heq | hmem
          · exact .inl (by omega)
          · exact .inr hmem
    have hcount := h.placed_lt
    have hdelta : s.delta + (code - least) * (s.placed + 1) < UInt32.size := by
      have := hadvanced.index_add_delta_lt hcode
      dsimp only at this
      omega
    have hskipped : (code - least) * (s.placed + 1) < UInt32.size := Nat.lt_of_le_of_lt (Nat.le_add_left ..) hdelta
    have hlast : last.delta + 1 < UInt32.size := by
      have := hend.index_add_delta_lt hcode
      omega
    have hnext : code + 1 < UInt32.size := Nat.lt_of_le_of_lt (Nat.succ_le_succ hcode) (by decide)
    have hwritten : insertCodes basic (label.map Char.toNat) (code :: remaining) least s =
        written ++
          insertCodes basic (label.map Char.toNat) remaining (code + 1) { last with delta := last.delta + 1 } := by
      rw [insertCodes, capped_of_lt hskipped, capped_of_lt hdelta, hwalks.plain]
      dsimp only
      rw [capped_of_lt hlast]
    rw [hwritten]
    constructor
    · rw [insertCodes?, bind_word? hcount, bind_difference? hle, bind_word? hskipped, bind_word? hdelta, hwalks.words,
        Option.bind_eq_bind, Option.bind_some]
      dsimp only
      rw [bind_word? hlast, bind_word? hnext, hwords]
      rfl
    · exact (hwalks.read _).trans hread

end InStep

/-- What the encoding of a label says after the ASCII characters. -/
def insertions (label : List Char) : List Char :=
  insertCodes (label.filter isAscii).length (label.map Char.toNat) (codes (label.map Char.toNat)) initialCode
    ⟨0, initialBias, (label.filter isAscii).length⟩

theorem encode_eq (label : List Char) : encode label = label.filter isAscii ++
    (if (label.filter isAscii).isEmpty then [] else ['-']) ++ insertions label := rfl

private theorem inStep_start {label : List Char} (h : label.length ≤ 3800) :
    InStep (label.filter isAscii).length initialCode [] label ⟨0, initialBias, (label.filter isAscii).length⟩
      { output := label.filter isAscii } where
  short := by rwa [List.length_nil, Nat.zero_add]
  output := rfl
  placed := rfl
  bias := rfl
  bias_lt := show initialBias < biasBound by decide
  first := .inl ⟨rfl, rfl⟩
  initial := Nat.le_refl _
  reached := Nat.le_refl _
  distance := rfl

/-- A label of this length at most is encoded over words, and its insertions are decoded. -/
theorem insertions_eq {label : List Char} (h : label.length ≤ 3800) :
    encode? label = some (encode label) ∧
      Decoder.run? { output := label.filter isAscii } (insertions label) = some label := by
  obtain ⟨hwords, hread⟩ := (inStep_start h).insertCodes_eq (pairwise_codes (label.map Char.toNat))
    (fun code hcode => (mem_codes.mp hcode).2) (fun code hcode => (mem_codes.mp hcode).1) fun c hc => by
      rcases Nat.lt_or_ge c.toNat initialCode with hlt | hge
      · exact .inl hlt
      · exact .inr (mem_codes.mpr ⟨List.mem_map_of_mem hc, hge⟩)
  have hlength : (label.map Char.toNat).length < UInt32.size := by
    rw [List.length_map, UInt32.size]
    omega
  have hcount : (label.filter isAscii).length < UInt32.size := by
    have := List.length_filter_le isAscii label
    rw [UInt32.size]
    omega
  refine ⟨?_, hread⟩
  rw [encode?, bind_word? hlength, bind_word? hcount, hwords]
  rfl

section Digits
variable {p : Char → Prop} (hp : ∀ n < 36, p (digit n))
include hp

private theorem forall_mem_integer (q k bias : Nat) : ∀ c ∈ integer q k bias, p c := by
  have hmost : Punycode.threshold k bias ≤ 26 := threshold_le ..
  fun_induction integer q k bias with
  | case1 q k t hlast => exact List.forall_mem_singleton.mpr (hp q (by omega))
  | case2 q k t hmore ih =>
    have hmod : (q - t) % (36 - t) < 36 - t := Nat.mod_lt _ (by omega)
    exact List.forall_mem_cons.mpr ⟨hp _ (show t + (q - t) % (36 - t) < 36 by omega), ih (threshold_le ..)⟩

private theorem forall_mem_insertAll (basic code : Nat) (text : List Nat) (s : State) :
    ∀ c ∈ (insertAll basic code text s).1, p c := by
  induction text generalizing s with
  | nil => simp [insertAll]
  | cons c rest ih =>
    rw [insertAll]
    split
    · exact ih _
    · split
      · exact List.forall_mem_append.mpr ⟨forall_mem_integer hp s.delta base s.bias, ih _⟩
      · exact ih s

private theorem forall_mem_insertCodes (basic : Nat) (text remaining : List Nat) (least : Nat) (s : State) :
    ∀ c ∈ insertCodes basic text remaining least s, p c := by
  induction remaining generalizing least s with
  | nil => simp [insertCodes]
  | cons code remaining ih =>
    rw [insertCodes]
    exact List.forall_mem_append.mpr ⟨forall_mem_insertAll hp basic code text _, ih _ _⟩

/-- What holds of all digits holds of all that is written after the ASCII characters. -/
theorem forall_mem_insertions (label : List Char) : ∀ c ∈ insertions label, p c :=
  forall_mem_insertCodes hp _ _ _ _ _

end Digits

private theorem digit_isLower_or_isDigit {n : Nat} (h : n < 36) :
    (digit n).isLower = true ∨ (digit n).isDigit = true := by
  have hall : ∀ n ∈ List.range 36, (digit n).isLower = true ∨ (digit n).isDigit = true := by decide +kernel
  exact hall n (List.mem_range.mpr h)

theorem decode?_encode {label : List Char} (h : label.length ≤ 3800) :
    Decoder.decode? (encode label) = some label := by
  have hbasic : (label.filter isAscii).all isAscii = true :=
    List.all_eq_true.mpr fun c hc => (List.mem_filter.mp hc).2
  have hrest : '-' ∉ insertions label := fun hmem =>
    forall_mem_insertions (p := (· ≠ '-')) (by decide +kernel) label '-' hmem rfl
  rw [encode_eq, Decoder.decode?_append hbasic hrest]
  exact (insertions_eq h).2

/-- The encoding of a label of 3800 characters at most is decoded to the label. Over 32-bit words it is the same,
without a result on the way that is none. It consists of the ASCII characters in their order, a hyphen if there are
any, and small letters and decimal digits. -/
theorem encode_decodes {label : List Char} (h : label.length ≤ 3800) :
    Decoder.decode? (encode label) = some label ∧ encode? label = some (encode label) ∧
    ∃ digits, encode label = label.filter (·.toNat < 128) ++
        (if label.any (·.toNat < 128) then ['-'] else []) ++ digits ∧
      ∀ c ∈ digits, c.isLower = true ∨ c.isDigit = true := by
  refine ⟨decode?_encode h, (insertions_eq h).1, insertions label, ?_,
    forall_mem_insertions (fun _ => digit_isLower_or_isDigit) label⟩
  have hempty : (label.filter isAscii).isEmpty = !label.any (·.toNat < 128) := by
    rw [Bool.eq_iff_iff, List.isEmpty_iff, List.filter_eq_nil_iff, Bool.not_eq_true', List.any_eq_false]
    exact Iff.rfl
  rw [encode_eq, hempty]
  cases label.any (·.toNat < 128) <;> rfl

/-- A label with hyphens of its own, and with one character twice. -/
theorem encode_decodes_hyphens : "-ü-€ü".toList.length ≤ 3800 ∧
    Decoder.decode? (encode "-ü-€ü".toList) = some "-ü-€ü".toList ∧
    encode? "-ü-€ü".toList = some (encode "-ü-€ü".toList) := by
  have hlength : "-ü-€ü".toList.length ≤ 3800 := by decide
  obtain ⟨hdecodes, hwords, -⟩ := encode_decodes hlength
  exact ⟨hlength, hdecodes, hwords⟩

end FormSchema.Punycode
