import FormSchema.Text.Punycode
import Mathlib.Tactic.Ring

/-!
The encoding once more, over 32-bit words: it gives up as soon as a sum, a product or a difference is none. Biases
stay small, and the integers have few digits, so that only the distances between insertions can grow too large.
-/
namespace FormSchema.Punycode

def word? (n : Nat) : Option Nat := if n < UInt32.size then some n else none

def difference? (a b : Nat) : Option Nat := if b ≤ a then some (a - b) else none

private theorem word?_of_lt {n : Nat} (h : n < UInt32.size) : word? n = some n := if_pos h

private theorem difference?_of_le {a b : Nat} (h : b ≤ a) : difference? a b = some (a - b) := if_pos h

theorem bind_word? {α : Type} {n : Nat} (h : n < UInt32.size) (next : Nat → Option α) :
    (word? n >>= next) = next n := by
  rw [word?_of_lt h]
  rfl

theorem bind_difference? {α : Type} {a b : Nat} (h : b ≤ a) (next : Nat → Option α) :
    (difference? a b >>= next) = next (a - b) := by
  rw [difference?_of_le h]
  rfl

theorem capped_of_lt {n : Nat} (h : n < UInt32.size) : capped n = n := Nat.min_eq_left (Nat.le_sub_one_of_lt h)

def settle? (delta k : Nat) : Option Nat :=
  if _h : (base - tMin) * tMax / 2 < delta then do
    let k ← word? (k + base)
    settle? (delta / (base - tMin)) k
  else do
    let scaled ← word? ((base - tMin + 1) * delta)
    let skewed ← word? (delta + skew)
    word? (k + scaled / skewed)
termination_by delta
decreasing_by exact Nat.div_lt_self (by omega) (by decide)

/-- Below the bound nothing is divided any more. -/
private theorem settle?_of_le {delta k : Nat} (hdelta : delta ≤ 455) (hk : k + base < UInt32.size) :
    settle? delta k = some (settle delta k) ∧ settle delta k < k + base := by
  have hsmall : ¬ (base - tMin) * tMax / 2 < delta := by
    simp only [base, tMin, tMax]
    omega
  have hscaled : (base - tMin + 1) * delta < UInt32.size := by
    simp only [base, tMin, UInt32.size]
    omega
  have hskewed : delta + skew < UInt32.size := by
    simp only [skew, UInt32.size]
    omega
  have hlast : (base - tMin + 1) * delta / (delta + skew) < base := by
    apply Nat.div_lt_of_lt_mul
    simp only [base, tMin, skew]
    omega
  rw [settle?, settle, dif_neg hsmall, dif_neg hsmall, bind_word? hscaled, bind_word? hskewed]
  exact ⟨word?_of_lt (by omega), by omega⟩

/-- So many divisions bring a number below the bound, and each counts a base. -/
private theorem settle?_eq {delta k divisions : Nat} (hdelta : delta < 456 * 35 ^ divisions)
    (hk : k + base * (divisions + 1) < UInt32.size) :
    settle? delta k = some (settle delta k) ∧ settle delta k < k + base * (divisions + 1) := by
  induction divisions generalizing delta k with
  | zero => exact settle?_of_le (by omega) hk
  | succ divisions ih =>
    have hmul : base * (divisions + 1 + 1) = base + base * (divisions + 1) := by
      rw [Nat.mul_succ, Nat.add_comm]
    rw [hmul, ← Nat.add_assoc] at hk ⊢
    by_cases hlarge : (base - tMin) * tMax / 2 < delta
    · have hquotient : delta / (base - tMin) < 456 * 35 ^ divisions := by
        apply Nat.div_lt_of_lt_mul
        simp only [base, tMin]
        rw [Nat.pow_succ] at hdelta
        omega
      obtain ⟨hsome, hlt⟩ := ih hquotient hk
      rw [settle?, settle, dif_pos hlarge, dif_pos hlarge, bind_word? (by omega)]
      exact ⟨hsome, hlt⟩
    · have hsmall : k + base < UInt32.size := by omega
      obtain ⟨hsome, hlt⟩ := settle?_of_le (Nat.le_of_not_lt hlarge) hsmall
      exact ⟨hsome, by omega⟩

def adapt? (delta count : Nat) (first : Bool) : Option Nat := do
  let delta := if first then delta / damp else delta / 2
  let delta ← word? (delta + delta / count)
  settle? delta 0

def biasBound : Nat := 216

/-- The bias after a distance that is a word. -/
theorem adapt?_eq {delta : Nat} (hdelta : delta < UInt32.size) (count : Nat) (first : Bool) :
    adapt? delta count first = some (adapt delta count first) ∧ adapt delta count first < biasBound := by
  rw [adapt?, adapt]
  have hpart : (if first then delta / damp else delta / 2) ≤ delta / 2 := by
    split
    · exact Nat.div_le_div_left (by decide) (by decide)
    · exact Nat.le_refl _
  generalize (if first then delta / damp else delta / 2) = part at hpart ⊢
  have hquotient := Nat.div_le_self part count
  have hsum : part + part / count < UInt32.size := by omega
  have hfive : part + part / count < 456 * 35 ^ 5 := Nat.lt_trans hsum (by decide)
  rw [bind_word? hsum]
  exact settle?_eq hfive (by decide)

def threshold? (k bias : Nat) : Option Nat :=
  if k ≤ bias then some tMin
  else do
    let bound ← word? (bias + tMax)
    if bound ≤ k then some tMax else difference? k bias

private theorem threshold?_eq {bias : Nat} (h : bias + tMax < UInt32.size) (k : Nat) :
    threshold? k bias = some (threshold k bias) := by
  rw [threshold?, threshold]
  split
  · rfl
  · rename_i hbias
    rw [bind_word? h]
    split
    · rfl
    · exact difference?_of_le (Nat.le_of_not_le hbias)

theorem threshold_le (k bias : Nat) : threshold k bias ≤ tMax := by
  rw [threshold]
  split
  · decide
  · split
    · exact Nat.le_refl _
    · omega

private theorem one_le_of_threshold? {k bias t : Nat} (h : threshold? k bias = some t) : 1 ≤ t := by
  rw [threshold?] at h
  split at h
  · rw [← Option.some.inj h]
    decide
  · rename_i hbias
    obtain ⟨bound, -, h⟩ := Option.bind_eq_some_iff.mp h
    split at h
    · rw [← Option.some.inj h]
      decide
    · rw [difference?_of_le (Nat.le_of_not_le hbias)] at h
      have := Option.some.inj h
      omega

def integer? (q k bias : Nat) : Option (List Char) :=
  match _h : threshold? k bias with
  | none => none
  | some t =>
    if q < t then some [digit q]
    else do
      let range ← difference? base t
      let last ← word? (t + (q - t) % range)
      let next ← word? (k + base)
      return digit last :: (← integer? ((q - t) / range) next bias)
termination_by q
decreasing_by
  have := one_le_of_threshold? _h
  exact Nat.lt_of_le_of_lt (Nat.div_le_self ..) (by omega)

private theorem integer?_of_threshold {q k bias t : Nat} (h : threshold? k bias = some t) : integer? q k bias =
    if q < t then some [digit q]
    else do
      let range ← difference? base t
      let last ← word? (t + (q - t) % range)
      let next ← word? (k + base)
      return digit last :: (← integer? ((q - t) / range) next bias) := by
  rw [integer?]
  split
  · rename_i hnone
    rw [h] at hnone
    cases hnone
  · rename_i hsome
    rw [h] at hsome
    rw [Option.some.inj hsome]

/-- So many digits are enough for an integer below this power, since each takes off a factor of at least ten. -/
theorem integer?_eq {q k bias digits : Nat} (hq : q < 10 ^ digits) (hk : k + base * digits < UInt32.size)
    (hbias : bias < biasBound) : integer? q k bias = some (integer q k bias) := by
  have hbound : bias + tMax < UInt32.size := Nat.lt_trans (Nat.add_lt_add_right hbias tMax) (by decide)
  have hthreshold := threshold?_eq hbound
  induction digits generalizing q k with
  | zero =>
    have hlast : q < threshold k bias := by
      have := one_le_threshold k bias
      omega
    rw [integer?_of_threshold (hthreshold k), if_pos hlast, integer, if_pos hlast]
  | succ digits ih =>
    rw [integer?_of_threshold (hthreshold k), integer]
    split
    · rfl
    · have hrange := threshold_le k bias
      generalize threshold k bias = t at hrange ⊢
      have hbase : t ≤ base := by
        simp only [base, tMax] at hrange ⊢
        omega
      have hten : 10 ≤ base - t := by
        simp only [base, tMax] at hrange ⊢
        omega
      have hdigit : t + (q - t) % (base - t) < base := by
        have := Nat.mod_lt (q - t) (Nat.lt_of_lt_of_le (by decide) hten)
        omega
      have hquotient : (q - t) / (base - t) < 10 ^ digits := by
        apply Nat.div_lt_of_lt_mul
        calc q - t ≤ q := Nat.sub_le ..
          _ < 10 * 10 ^ digits := by rwa [Nat.pow_succ, Nat.mul_comm] at hq
          _ ≤ (base - t) * 10 ^ digits := Nat.mul_le_mul_right _ hten
      rw [Nat.mul_succ, ← Nat.add_assoc, Nat.add_right_comm] at hk
      rw [bind_difference? hbase, bind_word? (Nat.lt_trans hdigit (by decide)), bind_word? (by omega), ih hquotient hk]
      rfl

def insertAll? (basic code : Nat) : List Nat → State → Option (List Char × State)
  | [], state => some ([], state)
  | c :: rest, state =>
    if c < code then do
      let delta ← word? (state.delta + 1)
      insertAll? basic code rest { state with delta }
    else if c = code then do
      let placed ← word? (state.placed + 1)
      let bias ← adapt? state.delta placed (state.placed = basic)
      let digits ← integer? state.delta base state.bias
      let (written, last) ← insertAll? basic code rest ⟨0, bias, placed⟩
      return (digits ++ written, last)
    else insertAll? basic code rest state

def insertCodes? (basic : Nat) (text : List Nat) : List Nat → Nat → State → Option (List Char)
  | [], _, _ => some []
  | code :: codes, least, state => do
    let count ← word? (state.placed + 1)
    let distance ← difference? code least
    let skipped ← word? (distance * count)
    let delta ← word? (state.delta + skipped)
    let (written, state) ← insertAll? basic code text { state with delta }
    let delta ← word? (state.delta + 1)
    let least ← word? (code + 1)
    return written ++ (← insertCodes? basic text codes least { state with delta })

/-- The encoding of a label, if all that it is computed from are words. -/
def encode? (label : List Char) : Option (List Char) := do
  let basic := label.filter isAscii
  let text := label.map Char.toNat
  let _total ← word? text.length
  let count ← word? basic.length
  let written ← insertCodes? count text (codes text) initialCode ⟨0, initialBias, count⟩
  return basic ++ (if basic.isEmpty then [] else ['-']) ++ written

end FormSchema.Punycode
