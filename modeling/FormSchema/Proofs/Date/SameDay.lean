import FormSchema.Proofs.Date.Clock

/-!
Whether a date of numbers is the same day with a clock behind it. The two lists of layouts are in different
orders: without a clock the month is tried before the day and a year in front of both, with a clock the day is
tried before the month. So the days differ exactly where a date reads in two ways.
-/
namespace FormSchema
namespace DateText
variable {cs rest : List Char}

private theorem skipBlanks_eq_self_iff : skipBlanks cs = cs ↔ ∀ c ∈ cs.head?, isBlank c = false := by
  cases cs with
  | nil => simp [skipBlanks]
  | cons c cs =>
    rw [skipBlanks, List.dropWhile_eq_self_iff]
    simp

private theorem trimBlanks_eq_self_iff : trimBlanks cs = cs ↔ (∀ c ∈ cs.head?, isBlank c = false) ∧ EndsFull cs := by
  have hlast : skipBlanks cs.reverse = cs.reverse ↔ EndsFull cs := by
    rw [skipBlanks_eq_self_iff, List.head?_reverse, EndsFull]
  rw [← skipBlanks_eq_self_iff, ← hlast]
  constructor
  · intro htrim
    have hfront : skipBlanks cs = cs := by
      refine (takes_skipBlanks cs).suffix.eq_of_length_le ?_
      calc
        cs.length = (trimBlanks cs).length := by rw [htrim]
        _ = (skipBlanks (skipBlanks cs).reverse).length := List.length_reverse
        _ ≤ (skipBlanks cs).reverse.length := (takes_skipBlanks _).suffix.length_le
        _ = (skipBlanks cs).length := List.length_reverse
    rw [trimBlanks, hfront, List.reverse_eq_iff] at htrim
    exact ⟨hfront, htrim⟩
  · rintro ⟨hfront, hback⟩
    rw [trimBlanks, hfront, hback, List.reverse_reverse]

private theorem of?_eq_some_iff {y : Int} {m n : Nat} {d : Date} :
    Date.of? y m n = some d ↔ (Date.mk y m n).isValid = true ∧ Date.mk y m n = d := by
  simp [Date.of?]

private theorem IsClock.endsFull {clock : List Char} (h : IsClock clock) (cs : List Char) :
    EndsFull (cs ++ ' ' :: clock) := by
  have hpair {high : Nat} {pair : List Char} (hpair : IsPair high pair) (front : List Char) : EndsFull (front ++ pair) := by
    obtain ⟨a, b, rfl, -, hb, -⟩ := hpair
    simpa [EndsFull, List.getLast?_append] using not_isBlank_of_isDigit hb
  cases h with
  | @minutes hour minute _ hminute => simpa using hpair hminute (cs ++ ' ' :: (hour ++ [':']))
  | @seconds hour minute second _ _ hsecond => simpa using hpair hsecond (cs ++ ' ' :: (hour ++ ':' :: (minute ++ [':'])))

private theorem trimBlanks_append {clock : List Char} (hne : cs ≠ []) (htrim : trimBlanks cs = cs)
    (hclock : IsClock clock) :
    trimBlanks (cs ++ ' ' :: clock) = cs ++ ' ' :: clock := by
  obtain ⟨c, cs, rfl⟩ := List.exists_cons_of_ne_nil hne
  obtain ⟨hfront, -⟩ := trimBlanks_eq_self_iff.mp htrim
  exact trimBlanks_eq_self_iff.mpr ⟨hfront, hclock.endsFull _⟩

namespace Part
variable {part : Part} {n : Int}

def number? : Part → List Char → Option (Int × List Char)
  | .year, cs => year? cs
  | .month, cs => (bounded? 1 12 cs).map fun (n, rest) => ((n : Int), rest)
  | .day, cs => (bounded? 1 31 cs).map fun (n, rest) => ((n : Int), rest)
  | _, _ => none

def number : Part → Date → Int
  | .month, d => d.month
  | .day, d => d.day
  | _, d => d.year

/-- Whichever part reads a number, a year would read the same one. -/
private theorem year?_of_number? (h : part.number? cs = some (n, rest)) (hrest : Stops rest) :
    year? cs = some (n, rest) := by
  cases part with
  | year => exact h
  | month | day =>
    obtain ⟨m, hbounded, rfl⟩ := exists_of_map_eq_some (fun _ _ => rfl) h
    exact year?_of_bounded? hbounded hrest
  | _ => cases h

end Part

namespace Layout
variable {c : Char} {p q s : Part} {parts : Layout} {r r' : Reading} {d : Date}

private theorem read?_nil_iff : Layout.read? [] r cs = some r' ↔ cs = [] ∧ r = r' := by
  simp [Layout.read?]

private theorem read?_cons_iff : Layout.read? (p :: parts) r cs = some r' ↔
    ∃ r₁ left, p.read? r cs = some (r₁, left) ∧ Layout.read? parts r₁ left = some r' := by
  simp [read?_cons, Option.bind_eq_some_iff]

private theorem read?_char_cons_iff : Layout.read? (.char c :: parts) r cs = some r' ↔
    ∃ left, cs = c :: left ∧ Layout.read? parts r left = some r' := by
  simp [read?_cons_iff, Part.read?, char?_eq_some_iff]

/-- Three parts and what stands between them. -/
private theorem read?_separated_iff : (separated c [p, q, s]).read? r cs = some r' ↔ ∃ r₁ l₁ r₂ l₂,
    p.read? r cs = some (r₁, c :: l₁) ∧ q.read? r₁ l₁ = some (r₂, c :: l₂) ∧ s.read? r₂ l₂ = some (r', []) := by
  rw [separated]
  simp only [List.intersperse, read?_cons_iff (p := p), read?_cons_iff (p := q), read?_cons_iff (p := s),
    read?_char_cons_iff, read?_nil_iff]
  grind

def dateOrders : List (List Part) := [[.year, .month, .day], [.month, .day, .year], [.day, .month, .year]]

/-- In every order the numbers of the day are read from three pieces of the text. -/
private theorem day?_separated_iff (horder : [p, q, s] ∈ dateOrders) : (separated c [p, q, s]).day? cs = some d ↔
    ∃ l₁ l₂, p.number? cs = some (p.number d, c :: l₁) ∧ q.number? l₁ = some (q.number d, c :: l₂) ∧
      s.number? l₂ = some (s.number d, []) ∧ d.isValid = true := by
  simp only [dateOrders, List.mem_cons, List.cons.injEq, and_true, List.not_mem_nil, or_false] at horder
  simp only [day?_eq, Option.bind_eq_some_iff, read?_separated_iff, of?_eq_some_iff]
  rcases horder with ⟨rfl, rfl, rfl⟩ | ⟨rfl, rfl, rfl⟩ | ⟨rfl, rfl, rfl⟩
  all_goals
    simp only [Part.read?, Part.number?, Part.number, Option.map_eq_some_iff, Prod.exists, Prod.mk.injEq, Int.natCast_inj]
    constructor
    · rintro ⟨_, ⟨_, l₁, _, l₂, ⟨_, _, hfirst, rfl, rfl⟩, ⟨_, _, hsecond, rfl, rfl⟩, _, _, hthird, rfl, rfl⟩, hvalid, rfl⟩
      simp [hfirst, hsecond, hthird, hvalid]
    · rintro ⟨l₁, l₂, hfirst, hsecond, hthird, hvalid⟩
      refine ⟨_, ⟨_, l₁, _, l₂, ⟨_, _, ?_, rfl, rfl⟩, ⟨_, _, ?_, rfl, rfl⟩, _, _, ?_, rfl, rfl⟩, hvalid, rfl⟩ <;> grind

end Layout

def IsTriple (cs : List Char) (a b c : Int) : Prop :=
  ∃ l₁ l₂, year? cs = some (a, '/' :: l₁) ∧ year? l₁ = some (b, '/' :: l₂) ∧ year? l₂ = some (c, [])

section Slashes
variable {d y m x : Date} {layout : Layout} {p q s : Part}

private theorem not_isNumeral_slash : ¬ IsNumeral '/' := by
  rintro (h | h | h | h) <;> revert h <;> decide

private theorem stops_slash (cs : List Char) : Stops ('/' :: cs) := stops_cons (by decide) cs

theorem IsTriple.unique {a b c a' b' c' : Int} (h : IsTriple cs a b c) (h' : IsTriple cs a' b' c') :
    a = a' ∧ b = b' ∧ c = c' := by
  obtain ⟨l₁, l₂, hfirst, hsecond, hthird⟩ := h
  obtain ⟨k₁, k₂, hfirst', hsecond', hthird'⟩ := h'
  simp_all

/-- All orders read the same three numbers. -/
private theorem isTriple_of_day? (horder : [p, q, s] ∈ Layout.dateOrders)
    (h : (separated '/' [p, q, s]).day? cs = some d) :
    IsTriple cs (p.number d) (q.number d) (s.number d) := by
  obtain ⟨l₁, l₂, hfirst, hsecond, hthird, -⟩ := (Layout.day?_separated_iff horder).mp h
  exact ⟨l₁, l₂, Part.year?_of_number? hfirst (stops_slash l₁), Part.year?_of_number? hsecond (stops_slash l₂),
    Part.year?_of_number? hthird stops_nil⟩

private theorem yearFirst_eq_dayFirst_iff (hy : (yearFirst '/').day? cs = some y)
    (hx : (dayFirst '/').day? cs = some x) :
    y = x ↔ y.year = y.day := by
  obtain ⟨hfirst, hsecond, hthird⟩ := (isTriple_of_day? (by decide) hy).unique (isTriple_of_day? (by decide) hx)
  simp only [Part.number, Int.natCast_inj] at hfirst hsecond hthird
  cases y
  cases x
  grind

private theorem monthFirst_eq_dayFirst_iff (hm : (monthFirst '/').day? cs = some m)
    (hx : (dayFirst '/').day? cs = some x) :
    m = x ↔ m.month = m.day := by
  obtain ⟨hfirst, hsecond, hthird⟩ := (isTriple_of_day? (by decide) hm).unique (isTriple_of_day? (by decide) hx)
  simp only [Part.number, Int.natCast_inj] at hfirst hsecond hthird
  cases m
  cases x
  grind

private theorem year_eq_day_of_eq (hy : (yearFirst '/').day? cs = some d) (hm : (monthFirst '/').day? cs = some d) :
    d.year = d.day := by
  obtain ⟨hfirst, hsecond, hthird⟩ := (isTriple_of_day? (by decide) hy).unique (isTriple_of_day? (by decide) hm)
  exact hthird.symm

private theorem bounded?_mono {low high high' n : Nat} (h : bounded? low high cs = some (n, rest))
    (hhigh : high ≤ high') :
    bounded? low high' cs = some (n, rest) := by
  obtain ⟨hnumber, hlow, hn⟩ := bounded?_eq_some_iff.mp h
  exact bounded?_eq_some_iff.mpr ⟨hnumber, hlow, hn.trans hhigh⟩

/-- Where year and day are one number, a date that reads with the month in front reads with the day in front too. -/
private theorem dayFirst_of_year_eq_day (hy : (yearFirst '/').day? cs = some y) (hm : (monthFirst '/').day? cs = some m)
    (hsame : y.year = y.day) : (dayFirst '/').day? cs = some y := by
  obtain ⟨l₁, l₂, hyear, hmonth, hday, hvalid⟩ := (Layout.day?_separated_iff (by decide)).mp hy
  obtain ⟨k₁, k₂, hmonth', -, -, -⟩ := (Layout.day?_separated_iff (by decide)).mp hm
  have hfirst : Part.day.number? cs = some (Part.day.number y, '/' :: l₁) := by
    have hyear' := Part.year?_of_number? hmonth' (stops_slash k₁)
    obtain ⟨hnumber, hrest⟩ := Prod.mk.inj (Option.some.inj (hyear.symm.trans hyear'))
    obtain ⟨n, hbounded, hn⟩ := exists_of_map_eq_some (fun _ _ => rfl) hmonth'
    have hday : (n : Int) = y.day := hn.trans (hnumber.symm.trans hsame)
    rw [Part.number?, bounded?_mono hbounded (by decide), hrest]
    exact congrArg (fun n => some (n, _)) hday
  have hthird : Part.year.number? l₂ = some (Part.year.number y, []) := by
    rw [Part.number?, Part.year?_of_number? hday stops_nil]
    exact congrArg (fun n => some (n, [])) hsame.symm
  exact (Layout.day?_separated_iff (by decide)).mpr ⟨l₁, l₂, hfirst, hmonth, hthird, hvalid⟩

private theorem day?_eq_none_of_slash (hlayout : layout ∈ [yearFirst '-', monthFirst '-', dayFirst '-'])
    (hslash : '/' ∈ cs) :
    layout.day? cs = none := by
  have hnumeric : ∀ layout ∈ [yearFirst '-', monthFirst '-', dayFirst '-'],
      (∀ part ∈ layout, part.isNumeric = true) ∧ Part.char '/' ∉ layout := by decide
  obtain ⟨hparts, hchar⟩ := hnumeric layout hlayout
  rw [Option.eq_none_iff_forall_ne_some]
  intro d hd
  obtain ⟨r, hread, -⟩ := Layout.exists_read_of_day? hd
  exact hchar (Layout.char_mem_of_mem hparts hread hslash not_isNumeral_slash)

private theorem day?_eq_none_of_not_slash (hlayout : Part.char '/' ∈ layout) (hslash : '/' ∉ cs) :
    layout.day? cs = none := by
  rw [Layout.day?, Layout.timestamp?_eq_none_of_char hlayout hslash, Option.map_none]

/-- A date that reads with the year in front, against the same date with a clock. -/
private theorem yearFirst_eq_iff (hy : (yearFirst '/').day? cs = some y)
    (hx : [dayFirst '/', monthFirst '/'].findSome? (Layout.day? · cs) = some x) : y = x ↔ y.year = y.day := by
  cases hday : (dayFirst '/').day? cs with
  | some e =>
    obtain rfl : e = x := by simpa [hday] using hx
    exact yearFirst_eq_dayFirst_iff hy hday
  | none =>
    have hm : (monthFirst '/').day? cs = some x := by
      cases hmonth : (monthFirst '/').day? cs with
      | none => simp [hday, hmonth] at hx
      | some m => simpa [hday, hmonth, List.findSome?_cons] using hx
    -- Were year and day one number, the day in front would have been read.
    have hdiffer : y.year ≠ y.day := fun hsame => by simp [dayFirst_of_year_eq_day hy hm hsame] at hday
    refine iff_of_false (fun heq => hdiffer ?_) hdiffer
    exact year_eq_day_of_eq hy (heq ▸ hm)

/-- A date that is tried with the month in front, against the same date with a clock. -/
private theorem monthFirst_eq_iff {others : List Layout}
    (hd : (monthFirst '/' :: dayFirst '/' :: others).findSome? (Layout.day? · cs) = some d)
    (hx : [dayFirst '/', monthFirst '/'].findSome? (Layout.day? · cs) = some x) :
    d = x ↔ ∀ m e, (monthFirst '/').day? cs = some m → (dayFirst '/').day? cs = some e → m.month = m.day := by
  cases hmonth : (monthFirst '/').day? cs with
  | none =>
    cases hday : (dayFirst '/').day? cs with
    | none => simp [hmonth, hday] at hx
    | some e =>
      obtain rfl : e = d := by simpa [hmonth, hday, List.findSome?_cons] using hd
      obtain rfl : e = x := by simpa [hday] using hx
      simp
  | some m =>
    obtain rfl : m = d := by simpa [hmonth] using hd
    cases hday : (dayFirst '/').day? cs with
    | none =>
      obtain rfl : m = x := by simpa [hmonth, hday, List.findSome?_cons] using hx
      simp
    | some e =>
      obtain rfl : e = x := by simpa [hday] using hx
      simpa using monthFirst_eq_dayFirst_iff hmonth hday

/-- A date that means one day, alone or with a clock. With the year in front it reads only where its year and day are
one number, and else both with the month and with the day in front only where these two are. -/
def IsUnambiguous (cs : List Char) : Prop :=
  (∀ y, (yearFirst '/').day? cs = some y → y.year = y.day) ∧
    ((yearFirst '/').day? cs = none → ∀ m x, (monthFirst '/').day? cs = some m → (dayFirst '/').day? cs = some x →
      m.month = m.day)

private theorem isUnambiguous_of_not_slash (hslash : '/' ∉ cs) : IsUnambiguous cs := by
  have hyear : (yearFirst '/').day? cs = none := day?_eq_none_of_not_slash (by decide) hslash
  have hmonth : (monthFirst '/').day? cs = none := day?_eq_none_of_not_slash (by decide) hslash
  simp [IsUnambiguous, hyear, hmonth]

/-- The two orders in which layouts are tried find one day exactly for unambiguous dates. -/
private theorem day_eq_iff_isUnambiguous (hd : numericLayouts.findSome? (Layout.day? · cs) = some d)
    (hx : datesWithClock.findSome? (Layout.day? · cs) = some x) : d = x ↔ IsUnambiguous cs := by
  by_cases hslash : '/' ∈ cs
  · have hnone (layout : Layout) (hlayout : layout ∈ [yearFirst '-', monthFirst '-', dayFirst '-']) :=
      day?_eq_none_of_slash hlayout hslash
    rw [datesWithClock, List.findSome?_cons, hnone (yearFirst '-') (by decide)] at hx
    rw [numericLayouts, List.findSome?_cons, hnone (yearFirst '-') (by decide), List.findSome?_cons] at hd
    cases hyear : (yearFirst '/').day? cs with
    | some y =>
      obtain rfl : y = d := by simpa [hyear] using hd
      rw [yearFirst_eq_iff hyear hx]
      simp [IsUnambiguous, hyear]
    | none =>
      simp only [hyear] at hd
      rw [List.findSome?_cons, hnone (monthFirst '-') (by decide), List.findSome?_cons,
        hnone (dayFirst '-') (by decide)] at hd
      rw [monthFirst_eq_iff hd hx]
      simp [IsUnambiguous, hyear]
  · refine iff_of_true ?_ (isUnambiguous_of_not_slash hslash)
    have hday : (dayFirst '/').day? cs = none := day?_eq_none_of_not_slash (by decide) hslash
    have hmonth : (monthFirst '/').day? cs = none := day?_eq_none_of_not_slash (by decide) hslash
    cases hhyphen : (yearFirst '-').day? cs with
    | none => simp [datesWithClock, hhyphen, hmonth, hday] at hx
    | some e =>
      simp only [numericLayouts, datesWithClock, List.findSome?_cons, hhyphen] at hd hx
      exact Option.some.inj (hd.symm.trans hx)

end Slashes
end DateText

namespace Timestamp
open DateText

/-- A date of numbers is the same day with a clock behind it exactly if it is unambiguous. -/
theorem sameDay_iff {date clock : String} {alone timed : Timestamp} (htrim : trimBlanks date.toList = date.toList)
    (hclock : IsClock clock.toList) (hnumeric : ∃ layout ∈ numericLayouts, (layout.day? date.toList).isSome = true)
    (halone : ofText? date = some alone) (htimed : ofText? (date ++ " " ++ clock) = some timed) :
    alone.date = timed.date ↔ IsUnambiguous date.toList := by
  obtain ⟨layout, hlayout, hday⟩ := hnumeric
  obtain ⟨d, hday⟩ := Option.isSome_iff_exists.mp hday
  have hchars : ∀ c ∈ date.toList, IsDateChar c := fun c hc => isDateChar_of_mem hlayout hday hc
  obtain ⟨hfront, hback⟩ := trimBlanks_eq_self_iff.mp htrim
  have hne : date.toList ≠ [] := by
    intro hempty
    rw [ofText?, hempty] at halone
    cases halone
  have htext : (date ++ " " ++ clock).toList = date.toList ++ ' ' :: clock.toList := by simp
  have hjoined := trimBlanks_append hne htrim hclock
  rw [ofText?, htrim] at halone
  rw [ofText?, htext, hjoined] at htimed
  refine day_eq_iff_isUnambiguous ?_ ?_
  · rw [← date_of_read? hchars, halone, Option.map_some]
  · rw [← date_of_read?_append hchars hback hclock, htimed, Option.map_some]

private theorem isClock_morning : IsClock "10:36".toList :=
  .minutes ⟨'1', '0', rfl, by decide⟩ ⟨'3', '6', rfl, by decide⟩

/-- The twelfth of December is one day in every order. -/
theorem sameDay_iff_december : IsClock "10:36".toList ∧ ∃ alone timed, ofText? "12/12/2021" = some alone ∧
    ofText? "12/12/2021 10:36" = some timed ∧ (alone.date = timed.date ↔ IsUnambiguous "12/12/2021".toList) := by
  refine ⟨isClock_morning, ⟨⟨2021, 12, 12⟩, .midnight⟩, ⟨⟨2021, 12, 12⟩, ⟨10, 36, 0, 0⟩⟩, by decide +kernel,
    by decide +kernel, ?_⟩
  exact @sameDay_iff "12/12/2021" "10:36" _ _ (by decide) isClock_morning
    ⟨monthFirst '/', by decide, by decide +kernel⟩ (by decide +kernel) (by decide +kernel)

/-- The first two days of 2021 whose month and day differ. -/
theorem not_sameDay_january : ¬ ∀ (date clock : String) (alone timed : Timestamp), trimBlanks date.toList = date.toList →
    IsClock clock.toList → (∃ layout ∈ numericLayouts, (layout.day? date.toList).isSome = true) →
    ofText? date = some alone → ofText? (date ++ " " ++ clock) = some timed → alone.date = timed.date := by
  intro h
  have hsame := h "01/02/2021" "10:36" ⟨⟨2021, 1, 2⟩, .midnight⟩ ⟨⟨2021, 2, 1⟩, ⟨10, 36, 0, 0⟩⟩ (by decide) isClock_morning
    ⟨monthFirst '/', by decide, by decide +kernel⟩ (by decide +kernel) (by decide +kernel)
  revert hsame
  decide

end Timestamp
end FormSchema
