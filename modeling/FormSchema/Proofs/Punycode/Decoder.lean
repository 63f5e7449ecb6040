import FormSchema.Proofs.Punycode.Checked
import Mathlib.Data.List.TakeWhile

/-!
The decoding of RFC 3492 with the parameters of Punycode, over 32-bit words. It reads an integer, moves on by so
many places, counted over all codes, and inserts a character there; and again, until nothing is left to read.
-/
namespace FormSchema.Punycode

/-- How far decoding has come: the code and the place in the text that come next, the bias, and the text. -/
structure Decoder where
  code : Nat := 128
  index : Nat := 0
  bias : Nat := 72
  output : List Char

namespace Decoder

/-- Letters, of either case, stand for the least values, and then come the decimal digits. -/
def digitValue? (c : Char) : Option Nat :=
  if c.isLower then some (c.toNat - 'a'.toNat)
  else if c.isUpper then some (c.toNat - 'A'.toNat)
  else if c.isDigit then some (c.toNat - '0'.toNat + 26)
  else none

/-- How far the position is beyond the bias, but at least 1 and at most 26. -/
def threshold (k bias : Nat) : Nat := max 1 (min 26 (k - bias))

def settle (delta k : Nat) : Nat :=
  if 455 < delta then settle (delta / 35) (k + 36) else k + 36 * delta / (delta + 38)
termination_by delta
decreasing_by omega

def adapt (delta count : Nat) (first : Bool) : Nat :=
  let delta := if first then delta / 700 else delta / 2
  settle (delta + delta / count) 0

/-- Reads an integer and adds it, with a weight, to an index; fails where the text ends too early. -/
def readInteger? (bias : Nat) : List Char → Nat → Nat → Nat → Option (Nat × List Char)
  | [], _, _, _ => none
  | c :: rest, k, weight, index => do
    let value ← digitValue? c
    let index ← word? (index + value * weight)
    if value < threshold k bias then return (index, rest)
    else
      let weight ← word? (weight * (36 - threshold k bias))
      readInteger? bias rest (k + 36) weight index

def scalar? (code : Nat) : Option Char := if code.isValidChar then some (Char.ofNat code) else none

def step? (d : Decoder) (input : List Char) : Option (Decoder × List Char) := do
  let (reached, rest) ← readInteger? d.bias input 36 1 d.index
  let count := d.output.length + 1
  let code ← word? (d.code + reached / count)
  let c ← scalar? code
  return ({ code, index := reached % count + 1, bias := adapt (reached - d.index) count (d.index = 0),
            output := d.output.insertIdx (reached % count) c }, rest)

private theorem length_lt_of_readInteger? {bias k weight index reached : Nat} {input rest : List Char}
    (h : readInteger? bias input k weight index = some (reached, rest)) : rest.length < input.length := by
  induction input generalizing k weight index with
  | nil => cases h
  | cons c input ih =>
    obtain ⟨value, -, h⟩ := Option.bind_eq_some_iff.mp h
    obtain ⟨next, -, h⟩ := Option.bind_eq_some_iff.mp h
    split at h
    · cases h
      exact Nat.lt_succ_self _
    · obtain ⟨weight, -, h⟩ := Option.bind_eq_some_iff.mp h
      exact Nat.lt_succ_of_lt (ih h)

private theorem length_lt_of_step? {d next : Decoder} {input rest : List Char} (h : d.step? input = some (next, rest)) :
    rest.length < input.length := by
  obtain ⟨⟨reached, left⟩, hread, h⟩ := Option.bind_eq_some_iff.mp h
  obtain ⟨code, -, h⟩ := Option.bind_eq_some_iff.mp h
  obtain ⟨c, -, h⟩ := Option.bind_eq_some_iff.mp h
  cases h
  exact length_lt_of_readInteger? hread

def run? (d : Decoder) (input : List Char) : Option (List Char) :=
  if input.isEmpty then some d.output
  else match _h : d.step? input with
    | none => none
    | some (next, rest) => next.run? rest
termination_by input.length
decreasing_by exact length_lt_of_step? _h

def basicPart (input : List Char) : List Char := ((input.reverse.dropWhile (· ≠ '-')).drop 1).reverse

/-- Decodes a text: the basic characters before the last hyphen are copied, and the hyphen is passed over if there
are any. -/
def decode? (input : List Char) : Option (List Char) :=
  let basic := basicPart input
  if basic.all (·.toNat < 128) then
    run? { output := basic } (if basic.isEmpty then input else input.drop (basic.length + 1))
  else none

example : decode? "3B-ww4c5e180e575a65lsy2b".toList = some "3年B組金八先生".toList := by decide +kernel

private theorem threshold_eq (k bias : Nat) : threshold k bias = Punycode.threshold k bias := by
  show max 1 (min 26 (k - bias)) = if k ≤ bias then 1 else if bias + 26 ≤ k then 26 else k - bias
  split
  · omega
  · split <;> omega

private theorem settle_eq (delta k : Nat) : settle delta k = Punycode.settle delta k := by
  induction delta using Nat.strongRecOn generalizing k with
  | ind delta ih =>
    rw [settle, Punycode.settle]
    by_cases hlarge : 455 < delta
    · rw [if_pos hlarge, dif_pos (show (base - tMin) * tMax / 2 < delta from hlarge)]
      exact ih _ (by omega) _
    · rw [if_neg hlarge, dif_neg (show ¬ (base - tMin) * tMax / 2 < delta from hlarge)]
      rfl

private theorem adapt_eq (delta count : Nat) (first : Bool) :
    adapt delta count first = Punycode.adapt delta count first :=
  settle_eq ..

private theorem digitValue?_digit {n : Nat} (h : n < 36) : digitValue? (digit n) = some n := by
  have hall : ∀ n ∈ List.range 36, digitValue? (digit n) = some n := by decide +kernel
  exact hall n (List.mem_range.mpr h)

private theorem bind_digit {α : Type} {n : Nat} (h : n < 36) (next : Nat → Option α) :
    (digitValue? (digit n) >>= next) = next n := by
  rw [digitValue?_digit h]
  rfl

private theorem scalar?_toNat (c : Char) : scalar? c.toNat = some c := by
  rw [scalar?, if_pos (show c.toNat.isValidChar from c.valid), Char.ofNat_toNat]

/-- From the seventh position on a threshold is the greatest one. -/
private theorem threshold_of_late {bias n : Nat} (hbias : bias < biasBound) (hn : 6 ≤ n) :
    Punycode.threshold (base * (n + 1)) bias = tMax := by
  have hk : bias + tMax ≤ base * (n + 1) := by
    simp only [biasBound, base, tMax] at hbias ⊢
    omega
  have hbelow : ¬ base * (n + 1) ≤ bias := by
    simp only [tMax] at hk
    omega
  rw [Punycode.threshold, if_neg hbelow, if_pos hk]

/-- Weights stay words: up to the sixth position they are powers of 35 at most, and afterwards an integer that goes
on is at least 26 times the weight. -/
private theorem weight_lt {n weight t q : Nat} (hweight : n ≤ 5 → weight ≤ 35 ^ n) (ht : 1 ≤ t)
    (hlate : 6 ≤ n → t = tMax) (hq : t ≤ q) (hfits : q * weight < UInt32.size) :
    weight * (36 - t) < UInt32.size ∧ (n + 1 ≤ 5 → weight * (36 - t) ≤ 35 ^ (n + 1)) := by
  have hgrown : n ≤ 5 → weight * (36 - t) ≤ 35 ^ (n + 1) := by
    intro hn
    rw [Nat.pow_succ]
    exact Nat.mul_le_mul (hweight hn) (by omega)
  refine ⟨?_, fun hn => hgrown (by omega)⟩
  by_cases hn : n ≤ 5
  · calc weight * (36 - t) ≤ 35 ^ (n + 1) := hgrown hn
      _ ≤ 35 ^ 6 := Nat.pow_le_pow_right (by decide) (by omega)
      _ < UInt32.size := by decide
  · have htmax := hlate (by omega)
    calc weight * (36 - t) ≤ weight * q := Nat.mul_le_mul_left _ (by simp only [tMax] at htmax; omega)
      _ = q * weight := Nat.mul_comm ..
      _ < UInt32.size := hfits

/-- A digit and the rest of an integer make up the integer. -/
private theorem digit_add_rest {t q : Nat} (hq : t ≤ q) (weight : Nat) :
    (t + (q - t) % (36 - t)) * weight + (q - t) / (36 - t) * (weight * (36 - t)) = q * weight := by
  calc (t + (q - t) % (36 - t)) * weight + (q - t) / (36 - t) * (weight * (36 - t))
      = (t + ((q - t) % (36 - t) + (36 - t) * ((q - t) / (36 - t)))) * weight := by ring
    _ = (t + (q - t)) * weight := by rw [Nat.mod_add_div]
    _ = q * weight := by rw [Nat.add_sub_cancel' hq]

/-- An integer is read back, whatever follows it. -/
theorem readInteger?_integer {bias : Nat} (hbias : bias < biasBound) {q n weight index : Nat}
    (hweight : n ≤ 5 → weight ≤ 35 ^ n) (hfits : index + q * weight < UInt32.size) (tail : List Char) :
    readInteger? bias (integer q (base * (n + 1)) bias ++ tail) (base * (n + 1)) weight index =
      some (index + q * weight, tail) := by
  induction q using Nat.strongRecOn generalizing n weight index with
  | ind q ih =>
    have hone := one_le_threshold (base * (n + 1)) bias
    have hmost : Punycode.threshold (base * (n + 1)) bias ≤ 26 := threshold_le ..
    have hlate := threshold_of_late (n := n) hbias
    rw [integer]
    generalize hthreshold : Punycode.threshold (base * (n + 1)) bias = t at hone hmost hlate ⊢
    split
    · rename_i hlast
      rw [List.cons_append, List.nil_append, readInteger?, bind_digit (by omega), bind_word? hfits, threshold_eq,
        hthreshold, if_pos hlast]
      rfl
    · rename_i hmore
      have hq : t ≤ q := Nat.le_of_not_lt hmore
      have hmod : (q - t) % (36 - t) < 36 - t := Nat.mod_lt _ (by omega)
      have hsplit := digit_add_rest hq weight
      obtain ⟨hword, hpower⟩ := weight_lt hweight hone hlate hq (Nat.lt_of_le_of_lt (Nat.le_add_left ..) hfits)
      have hrest : (q - t) / (36 - t) < q := Nat.lt_of_le_of_lt (Nat.div_le_self ..) (by omega)
      rw [← hsplit, ← Nat.add_assoc] at hfits
      have hnext := ih _ hrest (n := n + 1) hpower hfits
      rw [show base - t = 36 - t from rfl, List.cons_append, readInteger?, bind_digit (by omega),
        bind_word? (by omega), threshold_eq, hthreshold, if_neg (by omega), bind_word? hword, ← hsplit,
        ← Nat.add_assoc, ← hnext]
      rfl

/-- After an integer for a distance that led to this place for a character. -/
def inserting (d : Decoder) (c : Char) (place delta : Nat) : Decoder where
  code := c.toNat
  index := place + 1
  bias := Punycode.adapt delta (d.output.length + 1) (d.index = 0)
  output := d.output.insertIdx place c

/-- The integer for a distance leads to the character that lies so far, with each code counted once for each place
of the text. -/
theorem step?_integer {d : Decoder} {c : Char} {delta place : Nat} (hbias : d.bias < biasBound)
    (hcode : d.code ≤ c.toNat) (hplace : place ≤ d.output.length)
    (hreached : d.index + delta = (c.toNat - d.code) * (d.output.length + 1) + place)
    (hfits : d.index + delta < UInt32.size) (tail : List Char) :
    d.step? (integer delta base d.bias ++ tail) = some (d.inserting c place delta, tail) := by
  have hread : readInteger? d.bias (integer delta base d.bias ++ tail) base 1 d.index =
      some (d.index + delta, tail) := by
    have hweighted := readInteger?_integer (n := 0) hbias (fun _ => Nat.le_refl 1) (by rwa [Nat.mul_one]) tail
    rwa [Nat.mul_one delta] at hweighted
  have hquotient : (d.index + delta) / (d.output.length + 1) = c.toNat - d.code := by
    rw [hreached, Nat.mul_comm, Nat.mul_add_div (Nat.succ_pos _), Nat.div_eq_of_lt (Nat.lt_succ_of_le hplace)]
    rfl
  have hremainder : (d.index + delta) % (d.output.length + 1) = place := by
    rw [hreached, Nat.mul_comm, Nat.mul_add_mod, Nat.mod_eq_of_lt (Nat.lt_succ_of_le hplace)]
  have hword : c.toNat < UInt32.size := c.val.toNat_lt
  rw [step?, show 36 = base from rfl, hread, Option.bind_eq_bind, Option.bind_some]
  dsimp only
  rw [hquotient, hremainder, Nat.add_sub_cancel' hcode, bind_word? hword, scalar?_toNat, adapt_eq,
    Nat.add_sub_cancel_left]
  rfl

theorem run?_nil (d : Decoder) : d.run? [] = some d.output := by
  rw [run?]
  rfl

theorem run?_of_step? {d next : Decoder} {input rest : List Char} (h : d.step? input = some (next, rest)) :
    d.run? input = next.run? rest := by
  have hne : input.isEmpty = false := by
    cases input with
    | nil => exact absurd (length_lt_of_step? h) (Nat.not_lt_zero _)
    | cons c input => rfl
  rw [run?, hne, if_neg Bool.false_ne_true]
  split
  · rename_i hnone
    rw [h] at hnone
    cases hnone
  · rename_i hsome
    rw [h] at hsome
    cases hsome
    rfl

private theorem basicPart_append {basic rest : List Char} (h : '-' ∉ rest) :
    basicPart (basic ++ '-' :: rest) = basic := by
  have hreverse : (basic ++ '-' :: rest).reverse = rest.reverse ++ '-' :: basic.reverse := by simp
  have hall : ∀ c ∈ rest.reverse, decide (c ≠ '-') = true := by
    intro c hc
    simpa using fun heq : c = '-' => h (heq ▸ List.mem_reverse.mp hc)
  rw [basicPart, hreverse, List.dropWhile_append_of_pos hall, List.dropWhile_cons_of_neg (by decide), List.drop_one,
    List.tail_cons, List.reverse_reverse]

private theorem basicPart_of_notMem {rest : List Char} (h : '-' ∉ rest) : basicPart rest = [] := by
  have hdrop : rest.reverse.dropWhile (· ≠ '-') = [] := by
    apply List.dropWhile_eq_nil_iff.mpr
    intro c hc
    simpa using fun heq : c = '-' => h (heq ▸ List.mem_reverse.mp hc)
  rw [basicPart, hdrop]
  rfl

/-- The basic characters are copied whatever hyphens there are among them, since there are none after them. -/
theorem decode?_append {basic rest : List Char} (hbasic : basic.all isAscii = true) (hrest : '-' ∉ rest) :
    decode? (basic ++ (if basic.isEmpty then [] else ['-']) ++ rest) = run? { output := basic } rest := by
  cases basic with
  | nil =>
    rw [decode?, show [] ++ (if List.isEmpty ([] : List Char) then [] else ['-']) ++ rest = rest from rfl,
      basicPart_of_notMem hrest]
    rfl
  | cons c basic =>
    have hjoin : c :: basic ++ (if (c :: basic).isEmpty then [] else ['-']) ++ rest = (c :: basic) ++ '-' :: rest := by
      simp
    have hdrop : ((c :: basic) ++ '-' :: rest).drop ((c :: basic).length + 1) = rest := by simp
    rw [hjoin, decode?, basicPart_append hrest, hdrop]
    exact if_pos hbasic

end Decoder
end FormSchema.Punycode
