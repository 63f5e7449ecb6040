import FormSchema.Date.Internet
import FormSchema.Proofs.Date.Internet
import FormSchema.Proofs.Date.Layout

/-!
A date of numbers with and without a clock behind it. Neither text is an internet timestamp, and of all
layouts only those of numbers can read them: those of a day alone the date, and three dates with a clock the
date that a clock follows.
-/
namespace FormSchema.DateText
variable {cs rest : List Char}

def IsPair (high : Nat) (cs : List Char) : Prop :=
  ∃ a b : Char, cs = [a, b] ∧ a.isDigit = true ∧ b.isDigit = true ∧ digitsValue cs ≤ high

/-- Hours and minutes of a day, and maybe seconds. A leap second is second 60 of its minute. -/
inductive IsClock : List Char → Prop
  | minutes {h m : List Char} (hour : IsPair 23 h) (minute : IsPair 59 m) : IsClock (h ++ ':' :: m)
  | seconds {h m s : List Char} (hour : IsPair 23 h) (minute : IsPair 59 m) (second : IsPair 60 s) :
    IsClock (h ++ ':' :: (m ++ ':' :: s))

section Clock
variable {h m s : List Char} {high : Nat} {layout : Layout}

theorem IsPair.skipBlanks (hpair : IsPair high cs) (rest : List Char) : skipBlanks (cs ++ rest) = cs ++ rest := by
  obtain ⟨a, b, rfl, ha, -⟩ := hpair
  exact skipBlanks_of_head (not_isBlank_of_isDigit ha) _

theorem IsPair.bounded? (hpair : IsPair high cs) (hrest : Stops rest) :
    bounded? 0 high (cs ++ rest) = some (digitsValue cs, rest) := by
  rw [bounded?_eq_some_iff, hpair.skipBlanks]
  obtain ⟨a, b, rfl, ha, hb, hhigh⟩ := hpair
  exact ⟨hrest.number?_digits (by simp [ha, hb]) (by simp) (by simp), Nat.zero_le _, hhigh⟩

private theorem stops_colon (cs : List Char) : Stops (':' :: cs) := stops_cons (by decide) cs

private theorem Layout.read?_afterBlanks (hhour : IsPair 23 h) (hminute : IsPair 59 m) (hrest : Stops rest)
    (more : Layout) (r : Reading) : (afterBlanks (.minute :: more)).read? r (' ' :: (h ++ ':' :: (m ++ rest))) =
      more.read? { r with hour := digitsValue h, minute := digitsValue m } rest := by
  have hblank : skipBlanks (' ' :: (h ++ ':' :: (m ++ rest))) = h ++ ':' :: (m ++ rest) :=
    hhour.skipBlanks _
  simp [afterBlanks, Layout.read?_cons, Part.read?, hblank, hhour.bounded? (stops_colon _), hminute.bounded? hrest, char?]

/-- In front of a clock a layout reads the day that it reads without one, if the rest of the layout reads the rest
of the clock. -/
private theorem Layout.day?_append_afterBlanks (hlayout : ∀ part ∈ layout, part.isNumeric = true) (hcolon : ':' ∉ cs)
    (hcs : EndsFull cs) (hhour : IsPair 23 h) (hminute : IsPair 59 m) (hrest : Stops rest) (more : Layout) :
    (layout ++ afterBlanks (.minute :: more)).day? (cs ++ ' ' :: (h ++ ':' :: (m ++ rest))) =
      (layout.read? {} cs).bind fun r =>
        (more.read? { r with hour := digitsValue h, minute := digitsValue m } rest).bind fun r =>
          Date.of? r.year r.month r.day := by
  rw [day?_eq]
  obtain ⟨a, b, rfl, ha, hb, -⟩ := id hhour
  rw [List.cons_append, List.cons_append, List.nil_append, read?_append_afterBlanks hlayout hcolon hcs ha hb,
    Option.bind_assoc]
  congr 1
  funext r
  rw [← Layout.read?_afterBlanks hhour hminute hrest]
  rfl

/-- A clock without seconds is read by the layout that ends with the minute, and by none that goes on. -/
private theorem Layout.day?_minutes (hlayout : ∀ part ∈ layout, part.isNumeric = true) (hcolon : ':' ∉ cs)
    (hcs : EndsFull cs) (hhour : IsPair 23 h) (hminute : IsPair 59 m) :
    (layout ++ afterBlanks [.minute]).day? (cs ++ ' ' :: (h ++ ':' :: m)) = layout.day? cs ∧
      ∀ more, (layout ++ afterBlanks (.minute :: .char ':' :: more)).day? (cs ++ ' ' :: (h ++ ':' :: m)) = none := by
  have hread := day?_append_afterBlanks hlayout hcolon hcs hhour hminute stops_nil
  rw [List.append_nil] at hread
  exact ⟨(hread []).trans (day?_eq layout cs).symm, fun more => (hread _).trans (Option.bind_fun_none _)⟩

/-- A clock with seconds is read by the layouts that go on with them, with or without a fraction, and not by the one
that ends with the minute. -/
private theorem Layout.day?_seconds (hlayout : ∀ part ∈ layout, part.isNumeric = true) (hcolon : ':' ∉ cs)
    (hcs : EndsFull cs) (hhour : IsPair 23 h) (hminute : IsPair 59 m) (hsecond : IsPair 60 s) :
    (layout ++ afterBlanks [.minute]).day? (cs ++ ' ' :: (h ++ ':' :: (m ++ ':' :: s))) = none ∧
      ∀ more : Layout, more = [] ∨ more = [.fraction] →
        (layout ++ afterBlanks (.minute :: .char ':' :: .second :: more)).day?
          (cs ++ ' ' :: (h ++ ':' :: (m ++ ':' :: s))) = layout.day? cs := by
  have hread := day?_append_afterBlanks hlayout hcolon hcs hhour hminute (stops_colon s)
  have hsecond := hsecond.bounded? stops_nil
  rw [List.append_nil] at hsecond
  refine ⟨(hread []).trans (Option.bind_fun_none _), ?_⟩
  rintro more (rfl | rfl)
  all_goals
    rw [hread, day?_eq]
    congr 1
    funext r
    simp [Layout.read?, Part.read?, char?, hsecond, fraction?]

end Clock

section Texts
variable {clock : List Char} {layout : Layout} {c : Char}

/-- A text without letters and with two colons at most is tried against the layouts only. -/
private theorem read?_eq_of_plain (hdigits : cs.all Char.isDigit = false) (hletters : ∀ c ∈ cs, c.isAlpha = false)
    (hcolons : cs.count ':' < 3) : DateText.read? cs =
      (timedLayouts.findSome? (Layout.timestamp? · cs)).or (dayLayouts.findSome? (Layout.timestamp? · cs)) := by
  have hnone : ¬ ∃ c ∈ cs, c.isAlpha = true := by
    rintro ⟨c, hc, halpha⟩
    rw [hletters c hc] at halpha
    cases halpha
  have hinternet : rfc3339? cs = none := by
    rw [Option.eq_none_iff_forall_ne_some]
    intro t h
    rcases colons_or_letter_of_rfc3339? h with hthree | hletter
    · omega
    · exact hnone hletter
  have hmail : rfc2822? cs = none := by
    rw [Option.eq_none_iff_forall_ne_some]
    intro t h
    exact hnone (exists_letter_of_rfc2822? h)
  rw [DateText.read?, if_neg (by simp [hdigits]), hinternet, hmail]
  simp

private theorem namedLayouts_eq_none (hletters : ∀ c ∈ cs, c.isAlpha = false) :
    namedLayouts.findSome? (Layout.timestamp? · cs) = none := by
  rw [List.findSome?_eq_none_iff]
  intro layout hlayout
  have hname : ∀ layout ∈ namedLayouts, Part.monthName ∈ layout := by decide
  exact Layout.timestamp?_eq_none_of_letters (.inr rfl) (hname layout hlayout) hletters

private theorem numericLayouts_isNumeric :
    ∀ layout ∈ numericLayouts, ∀ part ∈ layout, part.isNumeric = true := by decide

def IsDateChar (c : Char) : Prop := IsNumeral c ∨ c = '/'

private theorem IsDateChar.not_isAlpha (h : IsDateChar c) : c.isAlpha = false := by
  rcases h with (hdigit | hblank | rfl | rfl) | rfl
  · rw [Bool.eq_false_iff, ne_eq, isAlpha_iff]
    have := isDigit_iff.mp hdigit
    omega
  · exact (not_isAlphanum_of_isBlank hblank).2
  all_goals decide

private theorem not_isDateChar_colon : ¬ IsDateChar ':' := by
  rintro ((h | h | h | h) | h) <;> revert h <;> decide

theorem isDateChar_of_mem (hlayout : layout ∈ numericLayouts) {d : Date} (h : layout.day? cs = some d) (hc : c ∈ cs) :
    IsDateChar c := by
  by_cases hnumeral : IsNumeral c
  · exact .inl hnumeral
  · obtain ⟨r, hread, -⟩ := Layout.exists_read_of_day? h
    have hchar := Layout.char_mem_of_mem (numericLayouts_isNumeric layout hlayout) hread hc hnumeral
    have hparts : ∀ layout ∈ numericLayouts, ∀ part ∈ layout,
        part ∈ [.year, .shortYear, .month, .day, .char '-', .char '/'] := by decide
    have hseparator : c = '-' ∨ c = '/' := by simpa using hparts layout hlayout _ hchar
    rcases hseparator with rfl | rfl
    · exact absurd (.inr (.inr (.inr rfl))) hnumeral
    · exact .inr rfl

private theorem colon_not_mem (hchars : ∀ c ∈ cs, IsDateChar c) : ':' ∉ cs := fun h => not_isDateChar_colon (hchars _ h)

/-- The day that a date of numbers states alone. -/
theorem date_of_read? (hchars : ∀ c ∈ cs, IsDateChar c) :
    (DateText.read? cs).map Timestamp.date = numericLayouts.findSome? (Layout.day? · cs) := by
  have hcolon := colon_not_mem hchars
  have hletters : ∀ c ∈ cs, c.isAlpha = false := fun c hc => (hchars c hc).not_isAlpha
  have hdays : numericLayouts.findSome? (Layout.day? · cs) =
      (numericLayouts.findSome? (Layout.timestamp? · cs)).map Timestamp.date := List.map_findSome?.symm
  rw [hdays]
  cases hdigits : cs.all Char.isDigit with
  | true =>
    have hnone : numericLayouts.findSome? (Layout.timestamp? · cs) = none := by
      have hseparated : ∀ layout ∈ numericLayouts, Part.char '-' ∈ layout ∨ Part.char '/' ∈ layout := by decide
      have hnot {c : Char} (hc : c.isDigit = false) : c ∉ cs := fun hmem => by
        simp [List.all_eq_true.mp hdigits c hmem] at hc
      rw [List.findSome?_eq_none_iff]
      intro layout hlayout
      rcases hseparated layout hlayout with hchar | hchar <;>
        exact Layout.timestamp?_eq_none_of_char hchar (hnot (by decide))
    rw [DateText.read?, if_pos hdigits, hnone]
  | false =>
    have htimed : timedLayouts.findSome? (Layout.timestamp? · cs) = none := by
      have hcolons : ∀ layout ∈ timedLayouts, Part.char ':' ∈ layout := by decide
      rw [List.findSome?_eq_none_iff]
      intro layout hlayout
      exact Layout.timestamp?_eq_none_of_char (hcolons layout hlayout) hcolon
    rw [read?_eq_of_plain hdigits hletters (by simp [List.count_eq_zero.mpr hcolon]), htimed, Option.none_or, dayLayouts,
      List.findSome?_append, namedLayouts_eq_none hletters, Option.or_none]

private theorem IsPair.isDigit_of_mem {high : Nat} (h : IsPair high cs) (hc : c ∈ cs) : c.isDigit = true := by
  obtain ⟨a, b, rfl, ha, hb, -⟩ := h
  simp only [List.mem_cons, List.not_mem_nil, or_false] at hc
  rcases hc with rfl | rfl <;> assumption

private theorem IsPair.count_colon {high : Nat} (h : IsPair high cs) : cs.count ':' = 0 :=
  List.count_eq_zero.mpr fun hmem => absurd (h.isDigit_of_mem hmem) (by decide)

private theorem IsClock.chars (h : IsClock clock) : ∀ c ∈ clock, c.isDigit = true ∨ c = ':' := by
  cases h with
  | minutes hour minute =>
    simp only [List.mem_append, List.mem_cons]
    rintro c (hc | rfl | hc)
    exacts [.inl (hour.isDigit_of_mem hc), .inr rfl, .inl (minute.isDigit_of_mem hc)]
  | seconds hour minute second =>
    simp only [List.mem_append, List.mem_cons]
    rintro c (hc | rfl | hc | rfl | hc)
    exacts [.inl (hour.isDigit_of_mem hc), .inr rfl, .inl (minute.isDigit_of_mem hc), .inr rfl,
      .inl (second.isDigit_of_mem hc)]

private theorem IsClock.colons (h : IsClock clock) : ':' ∈ clock ∧ clock.count ':' ≤ 2 := by
  cases h with
  | minutes hour minute => simp [List.count_append, hour.count_colon, minute.count_colon]
  | seconds hour minute second =>
    simp [List.count_append, hour.count_colon, minute.count_colon, second.count_colon]

private theorem findSome?_filter {α β : Type} {l : List α} {f : α → Option β} {p : α → Bool}
    (h : ∀ a ∈ l, p a = false → f a = none) : (l.filter p).findSome? f = l.findSome? f := by
  induction l with
  | nil => rfl
  | cons a l ih =>
    have ih := ih fun b hb => h b (List.mem_cons_of_mem a hb)
    cases hp : p a with
    | true => rw [List.filter_cons_of_pos hp, List.findSome?_cons, List.findSome?_cons, ih]
    | false =>
      rw [List.filter_cons_of_neg (by simp [hp]), ih, List.findSome?_cons, h a List.mem_cons_self hp]

def Layout.isWordless (layout : Layout) : Bool :=
  !(layout.contains .half || layout.contains .monthName || layout.contains (.char 'T'))

def datesWithClock : List Layout := [yearFirst '-', dayFirst '/', monthFirst '/']

private theorem wordless_timedLayouts : timedLayouts.filter Layout.isWordless =
    [yearFirst '-' ++ afterBlanks [.minute, .char ':', .second, .fraction], yearFirst '-' ++ afterBlanks [.minute],
      dayFirst '/' ++ afterBlanks [.minute], monthFirst '/' ++ afterBlanks [.minute],
      dayFirst '/' ++ afterBlanks [.minute, .char ':', .second],
      monthFirst '/' ++ afterBlanks [.minute, .char ':', .second]] := by
  decide

private theorem not_isAlpha_of_mem_append (hchars : ∀ c ∈ cs, IsDateChar c) (hclock : IsClock clock) :
    ∀ c ∈ cs ++ ' ' :: clock, c.isAlpha = false := by
  simp only [List.mem_append, List.mem_cons]
  rintro c (hc | rfl | hc)
  · exact (hchars c hc).not_isAlpha
  · decide
  · rcases hclock.chars c hc with hdigit | rfl
    · exact IsDateChar.not_isAlpha (.inl (.inl hdigit))
    · decide

/-- With a clock the day is that of the first date that reads it. -/
private theorem timedLayouts_append (hchars : ∀ c ∈ cs, IsDateChar c) (hcs : EndsFull cs) (hclock : IsClock clock) :
    timedLayouts.findSome? (Layout.day? · (cs ++ ' ' :: clock)) = datesWithClock.findSome? (Layout.day? · cs) := by
  have hcolon := colon_not_mem hchars
  have hletters := not_isAlpha_of_mem_append hchars hclock
  rw [← findSome?_filter (p := Layout.isWordless), wordless_timedLayouts]
  · have hyear : ∀ part ∈ yearFirst '-', part.isNumeric = true := by decide
    have hday : ∀ part ∈ dayFirst '/', part.isNumeric = true := by decide
    have hmonth : ∀ part ∈ monthFirst '/', part.isNumeric = true := by decide
    cases hclock with
    | minutes hhour hminute =>
      simp only [List.findSome?_cons, List.findSome?_nil, datesWithClock,
        Layout.day?_minutes hyear hcolon hcs hhour hminute, Layout.day?_minutes hday hcolon hcs hhour hminute,
        Layout.day?_minutes hmonth hcolon hcs hhour hminute]
    | seconds hhour hminute hsecond =>
      simp only [List.findSome?_cons, List.findSome?_nil, datesWithClock,
        Layout.day?_seconds hyear hcolon hcs hhour hminute hsecond, Layout.day?_seconds hday hcolon hcs hhour hminute hsecond,
        Layout.day?_seconds hmonth hcolon hcs hhour hminute hsecond, or_true, true_or]
  · intro layout hlayout hwords
    have hnone : layout.timestamp? (cs ++ ' ' :: clock) = none := by
      simp only [Layout.isWordless, Bool.not_eq_false', Bool.or_eq_true, List.contains_iff_mem] at hwords
      rcases hwords with (hhalf | hname) | hchar
      · exact Layout.timestamp?_eq_none_of_letters (.inl rfl) hhalf hletters
      · exact Layout.timestamp?_eq_none_of_letters (.inr rfl) hname hletters
      · exact Layout.timestamp?_eq_none_of_char hchar fun hmem => absurd (hletters 'T' hmem) (by decide)
    rw [Layout.day?, hnone, Option.map_none]

/-- The day that a date of numbers states in front of a clock. -/
theorem date_of_read?_append (hchars : ∀ c ∈ cs, IsDateChar c) (hcs : EndsFull cs) (hclock : IsClock clock) :
    (DateText.read? (cs ++ ' ' :: clock)).map Timestamp.date = datesWithClock.findSome? (Layout.day? · cs) := by
  have hcolon := colon_not_mem hchars
  have hletters := not_isAlpha_of_mem_append hchars hclock
  have hdigits : (cs ++ ' ' :: clock).all Char.isDigit = false := by simp
  have hcount : (cs ++ ' ' :: clock).count ':' < 3 := by
    have := hclock.colons.2
    simp only [List.count_append, List.count_eq_zero.mpr hcolon]
    simp
    omega
  have hnumeric : numericLayouts.findSome? (Layout.timestamp? · (cs ++ ' ' :: clock)) = none := by
    rw [List.findSome?_eq_none_iff]
    intro layout hlayout
    rw [Layout.timestamp?, Option.bind_eq_none_iff]
    intro r hread
    have hnumeric := numericLayouts_isNumeric layout hlayout
    have hchar := Layout.char_mem_of_mem hnumeric hread (by simp [hclock.colons.1]) fun h => not_isDateChar_colon (.inl h)
    exact absurd (hnumeric _ hchar) (by decide)
  rw [read?_eq_of_plain hdigits hletters hcount, dayLayouts, List.findSome?_append, hnumeric,
    namedLayouts_eq_none hletters, Option.none_or, Option.or_none, List.map_findSome?]
  exact timedLayouts_append hchars hcs hclock

end Texts

end FormSchema.DateText
