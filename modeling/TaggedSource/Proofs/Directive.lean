/-
The right side of a rule, read by a grammar.

A right side that begins with `@Random(` is a directive. It asks for a length
(`Asks`) if what follows is a numeral between white space and then a closing
parenthesis, and nothing else. Numerals may have a plus sign and any number of
leading zeros, so there is no end of directives for each length.

# Numbers

The digits of a numeral are read from left to right, and reading is given up
where the number no longer fits in 64 bits. What has been read is never more
than the whole numeral spells (`spelled_le_append`), so a number is given up
exactly if it is too large as a whole (`number?_eq_some_iff`).

# Readings

`Reading` says for every right side how it is read, in terms of the grammar
alone. It is what reading does (`reading_parse`), and nothing else is
(`Reading.parse_eq`).
-/
import Mathlib.Data.List.Induction
import Mathlib.Data.List.TakeWhile
import Mathlib.Data.Nat.Digits.Defs
import TaggedSource.Replacement

namespace TaggedSource

namespace Text

-- =============================================================== numerals

/-- The number that digits spell, the one of most weight first. -/
def spelled (digits : Text) : Nat :=
  Nat.ofDigits 10 (digits.map digitValue).reverse

/-- How numbers are written: digits, and maybe a plus sign before them. -/
inductive Numeral : Text → Nat → Prop where
  /-- Digits alone. -/
  | bare {digits : Text} (hne : digits ≠ []) (h : ∀ c ∈ digits, isDigit c = true) :
      Numeral digits (spelled digits)
  /-- Digits behind a sign. -/
  | signed {digits : Text} (hne : digits ≠ []) (h : ∀ c ∈ digits, isDigit c = true) :
      Numeral ('+' :: digits) (spelled digits)

private theorem spelled_concat (digits : Text) (c : Char) :
    spelled (digits ++ [c]) = 10 * spelled digits + digitValue c := by
  unfold spelled
  rw [List.map_append, List.map_singleton, List.reverse_append, List.reverse_singleton,
    List.singleton_append, Nat.ofDigits_cons, Nat.add_comm]

/-- More digits do not make a number smaller. -/
theorem spelled_le_append (digits more : Text) : spelled digits ≤ spelled (digits ++ more) := by
  induction more using List.reverseRecOn with
  | nil => rw [List.append_nil]
  | append_singleton more c ih =>
      rw [← List.append_assoc, spelled_concat]
      omega

/-- Reading goes on with what the digits so far spell, and comes to the end
if the number that all of them spell fits in. -/
theorem foldlM_pushDigit? {seen digits : Text} {n : Nat} (hseen : spelled seen < UInt64.size) :
    digits.foldlM pushDigit? (spelled seen) = some n ↔
      (∀ c ∈ digits, isDigit c = true) ∧ n = spelled (seen ++ digits) ∧ n < UInt64.size := by
  -- the induction is on what is left to read, and `seen` grows by a digit each time
  induction digits generalizing seen with
  | nil =>
      rw [List.foldlM_nil, List.append_nil]
      constructor
      · intro h
        obtain rfl : spelled seen = n := Option.some.inj h
        exact ⟨fun _ hmem => absurd hmem List.not_mem_nil, rfl, hseen⟩
      · rintro ⟨-, rfl, -⟩
        rfl
  | cons c digits ih =>
      have hall : seen ++ c :: digits = seen ++ [c] ++ digits := by simp
      rw [List.foldlM_cons, pushDigit?, ← spelled_concat, List.forall_mem_cons, hall]
      by_cases hfits : isDigit c = true ∧ spelled (seen ++ [c]) < UInt64.size
      · rw [if_pos hfits]
        show digits.foldlM pushDigit? (spelled (seen ++ [c])) = some n ↔ _
        rw [ih hfits.2]
        simp only [hfits.1, true_and]
      · rw [if_neg hfits]
        constructor
        · intro h
          cases h
        · -- the number is given up here, and it would only grow
          rintro ⟨⟨hc, -⟩, rfl, hn⟩
          have hle := spelled_le_append (seen ++ [c]) digits
          exact absurd ⟨hc, by omega⟩ hfits

private theorem unsigned_of_digits {digits : Text} (h : ∀ c ∈ digits, isDigit c = true) :
    unsigned digits = digits := by
  unfold unsigned
  split
  · exact absurd (h '+' (.head _)) (by decide)
  · rfl

/-- The sign is the only thing that is taken off. -/
theorem unsigned_cases (t : Text) : t = unsigned t ∨ t = '+' :: unsigned t := by
  unfold unsigned
  split
  · exact .inr rfl
  · exact .inl rfl

/-- A numeral is one digit or more, behind a sign or none. -/
private theorem numeral_iff {t : Text} {n : Nat} :
    Numeral t n ↔
      unsigned t ≠ [] ∧ (∀ c ∈ unsigned t, isDigit c = true) ∧ n = spelled (unsigned t) := by
  constructor
  · intro h
    cases h with
    | bare hne h =>
        rw [unsigned_of_digits h]
        exact ⟨hne, h, rfl⟩
    | signed hne h => exact ⟨hne, h, rfl⟩
  · intro ⟨hne, h, hn⟩
    rw [hn]
    rcases unsigned_cases t with ht | ht
    · rw [← ht] at hne h ⊢
      exact .bare hne h
    · have hsigned := Numeral.signed hne h
      rwa [← ht] at hsigned

/-- Numbers are read from numerals, if they fit in 64 bits, and from nothing
else. -/
theorem number?_eq_some_iff {t : Text} {n : Nat} :
    number? t = some n ↔ Numeral t n ∧ n < UInt64.size := by
  unfold number?
  by_cases hne : unsigned t = []
  · rw [if_pos (List.isEmpty_iff.2 hne), numeral_iff]
    constructor
    · intro h
      cases h
    · intro h
      exact absurd hne h.1.1
  · have hread : (unsigned t).foldlM pushDigit? 0 = some n ↔
        (∀ c ∈ unsigned t, isDigit c = true) ∧ n = spelled (unsigned t) ∧ n < UInt64.size :=
      foldlM_pushDigit? (by decide : spelled [] < UInt64.size)
    rw [if_neg (by simpa using hne), hread, numeral_iff]
    constructor
    · intro ⟨h, hn, hsize⟩
      exact ⟨⟨hne, h, hn⟩, hsize⟩
    · intro ⟨⟨_, h, hn⟩, hsize⟩
      exact ⟨h, hn, hsize⟩

/-- Leading zeros go behind the sign and change nothing. The first number of
65 bits is too large. -/
example : number? (text "+0012") = some 12 ∧ number? (text "18446744073709551616") = none := by
  decide

-- ============================================================ white space

/-- A text with white space before and behind it. -/
def Pads (core t : Text) : Prop :=
  ∃ front back, t = front ++ core ++ back ∧
    (∀ c ∈ front, isBlank c = true) ∧ ∀ c ∈ back, isBlank c = true

/-- Trimming takes off white space and nothing else. -/
theorem pads_trim (t : Text) : Pads (trim t) t := by
  refine ⟨t.takeWhile isBlank, ((t.dropWhile isBlank).reverse.takeWhile isBlank).reverse, ?_, ?_, ?_⟩
  · unfold trim
    rw [List.append_assoc, ← List.reverse_append, List.takeWhile_append_dropWhile,
      List.reverse_reverse, List.takeWhile_append_dropWhile]
  · intro c hc
    exact List.mem_takeWhile_imp hc
  · intro c hc
    exact List.mem_takeWhile_imp (List.mem_reverse.1 hc)

/-- Cutting off white space stops where there is none. -/
theorem dropWhile_isBlank {front core : Text} (hfront : ∀ c ∈ front, isBlank c = true)
    (hne : core ≠ []) (hcore : ∀ c ∈ core, isBlank c = false) (back : Text) :
    (front ++ (core ++ back)).dropWhile isBlank = core ++ back := by
  rw [List.dropWhile_append_of_pos hfront]
  cases core with
  | nil => exact absurd rfl hne
  | cons c core =>
      apply List.dropWhile_cons_of_neg
      simp [hcore c (.head _)]

/-- What is without white space is all that is left when white space around
it is cut off. -/
theorem Pads.trim_eq {core t : Text} (h : Pads core t) (hne : core ≠ [])
    (hcore : ∀ c ∈ core, isBlank c = false) : trim t = core := by
  obtain ⟨front, back, rfl, hfront, hback⟩ := h
  have hback : ∀ c ∈ back.reverse, isBlank c = true := fun c hc => hback c (List.mem_reverse.1 hc)
  have hcore' : ∀ c ∈ core.reverse, isBlank c = false := fun c hc => hcore c (List.mem_reverse.1 hc)
  have hend := dropWhile_isBlank hback (by simpa using hne) hcore' []
  rw [List.append_nil] at hend
  unfold trim
  rw [List.append_assoc, dropWhile_isBlank hfront hne hcore, List.reverse_append, hend,
    List.reverse_reverse]

private theorem isBlank_of_isDigit {c : Char} (h : isDigit c = true) : isBlank c = false := by
  have hrange : 48 ≤ c.toNat ∧ c.toNat ≤ 57 := by
    unfold isDigit at h
    simp only [Bool.and_eq_true, decide_eq_true_eq] at h
    exact h
  unfold isBlank blankRanges
  simp only [List.any_cons, List.any_nil, Bool.or_false, Bool.or_eq_false_iff, Bool.and_eq_false_iff,
    decide_eq_false_iff_not]
  omega

/-- There is no white space in a numeral. -/
theorem Numeral.isBlank_eq_false {t : Text} {n : Nat} (h : Numeral t n) :
    ∀ c ∈ t, isBlank c = false := by
  cases h with
  | bare _ h => exact fun c hc => isBlank_of_isDigit (h c hc)
  | signed _ h =>
      exact List.forall_mem_cons.2 ⟨by decide, fun c hc => isBlank_of_isDigit (h c hc)⟩

theorem Numeral.ne_nil {t : Text} {n : Nat} (h : Numeral t n) : t ≠ [] := by
  cases h with
  | bare hne _ => exact hne
  | signed _ _ => exact List.cons_ne_nil _ _

/-- A padded numeral is read as its number, if that fits in 64 bits. -/
private theorem number?_trim_eq_some_iff {t : Text} {n : Nat} :
    number? (trim t) = some n ↔ (∃ core, Pads core t ∧ Numeral core n) ∧ n < UInt64.size := by
  rw [number?_eq_some_iff]
  constructor
  · intro ⟨h, hn⟩
    exact ⟨⟨trim t, pads_trim t, h⟩, hn⟩
  · intro ⟨⟨core, hpads, h⟩, hn⟩
    rw [hpads.trim_eq h.ne_nil h.isBlank_eq_false]
    exact ⟨h, hn⟩

end Text

-- ============================================================= directives

namespace Replacement

/-- A directive that asks for a length: a numeral between the parentheses,
with white space around it. -/
def Asks (value : Text) (n : Nat) : Prop :=
  ∃ inner core, value = text "@Random(" ++ (inner ++ [')']) ∧ Text.Pads core inner ∧
    Text.Numeral core n

/-- How a right side is read. -/
inductive Reading (value : Text) : Except Flaw Replacement → Prop where
  /-- It is no directive, and stands for itself. -/
  | literal (h : ¬ text "@Random(" <+: value) : Reading value (.ok (.literal value))
  /-- It is a directive without an end. -/
  | unclosed (h : text "@Random(" <+: value) (hopen : value.getLast? ≠ some ')') :
      Reading value (.error .unclosed)
  /-- It asks for nothing that fits in 64 bits. -/
  | notNumber (h : text "@Random(" <+: value) (hclosed : value.getLast? = some ')')
      (hnone : ∀ n, Asks value n → UInt64.size ≤ n) : Reading value (.error .notNumber)
  /-- It asks for no characters. -/
  | zero (h : Asks value 0) : Reading value (.error .zero)
  /-- It asks for too many characters. -/
  | tooLarge {n : Nat} (h : Asks value n) (hmax : 1024 < n) (hsize : n < UInt64.size) :
      Reading value (.error .tooLarge)
  /-- It asks for a length that can be had. -/
  | random {n : Nat} (h : Asks value n) (hpos : 1 ≤ n) (hmax : n ≤ 1024) :
      Reading value (.ok (.random n))

/-- What does not begin like a directive is a literal. -/
theorem parse_of_not_lead {value : Text} (h : ¬ text "@Random(" <+: value) :
    parse value = .ok (.literal value) := by
  unfold parse
  cases hlead : Text.dropLead? directiveLead value with
  | none => rfl
  | some argument => exact absurd ⟨argument, (Text.dropLead?_eq_some.1 hlead).symm⟩ h

/-- What begins like a directive is one, or is refused. -/
private theorem parse_lead_append (argument : Text) :
    parse (text "@Random(" ++ argument) = (length? argument).map .random := by
  have hlead : Text.dropLead? directiveLead (text "@Random(" ++ argument) = some argument :=
    Text.dropLead?_eq_some.2 rfl
  rw [parse, hlead]

/-- The parenthesis of the lead closes nothing. -/
theorem getLast?_lead_append {argument : Text} :
    (text "@Random(" ++ argument).getLast? = some ')' ↔ argument.getLast? = some ')' := by
  rw [List.getLast?_append]
  cases argument.getLast? with
  | none => decide
  | some c => rfl

/-- A directive has to end in a parenthesis. -/
private theorem length?_of_open {argument : Text} (h : argument.getLast? ≠ some ')') :
    length? argument = .error .unclosed := by
  unfold length? dropClosing?
  rw [if_neg h]

private theorem dropClosing?_concat (inner : Text) :
    dropClosing? (inner ++ [')']) = some inner := by
  unfold dropClosing?
  rw [if_pos List.getLast?_concat, List.dropLast_concat]

/-- A directive has to hold a number. -/
private theorem length?_of_number?_none {inner : Text} (h : Text.number? (Text.trim inner) = none) :
    length? (inner ++ [')']) = .error .notNumber := by
  unfold length?
  rw [dropClosing?_concat]
  simp only [h]

/-- The number has to be from 1 to 1024. -/
private theorem length?_of_number?_some {inner : Text} {n : Nat}
    (h : Text.number? (Text.trim inner) = some n) :
    length? (inner ++ [')']) =
      if n = 0 then .error .zero else if 1024 < n then .error .tooLarge else .ok n := by
  unfold length?
  rw [dropClosing?_concat]
  simp only [h]
  rfl

/-- What a directive asks for stands between its parentheses. -/
theorem asks_iff {inner : Text} {n : Nat} :
    Asks (text "@Random(" ++ (inner ++ [')'])) n ↔
      ∃ core, Text.Pads core inner ∧ Text.Numeral core n := by
  constructor
  · intro ⟨other, core, heq, hpads, hnumeral⟩
    obtain rfl : inner = other := by simpa using heq
    exact ⟨core, hpads, hnumeral⟩
  · intro ⟨core, hpads, hnumeral⟩
    exact ⟨inner, core, rfl, hpads, hnumeral⟩

/-- The number that is read is the one the directive asks for. -/
private theorem number?_eq_some_iff_asks {inner : Text} {n : Nat} :
    Text.number? (Text.trim inner) = some n ↔
      Asks (text "@Random(" ++ (inner ++ [')'])) n ∧ n < UInt64.size := by
  rw [Text.number?_trim_eq_some_iff, asks_iff]

/-- No number is read where none is asked for, or one of more than 64 bits. -/
private theorem number?_eq_none_iff_asks {inner : Text} :
    Text.number? (Text.trim inner) = none ↔
      ∀ n, Asks (text "@Random(" ++ (inner ++ [')'])) n → UInt64.size ≤ n := by
  rw [Option.eq_none_iff_forall_ne_some]
  apply forall_congr'
  intro n
  rw [ne_eq, number?_eq_some_iff_asks, not_and, Nat.not_lt]

/-- A directive is read by the number it asks for. -/
theorem Asks.parse_eq {value : Text} {n : Nat} (h : Asks value n) (hsize : n < UInt64.size) :
    parse value =
      if n = 0 then .error .zero else if 1024 < n then .error .tooLarge else .ok (.random n) := by
  obtain ⟨inner, _, rfl, -⟩ := id h
  rw [parse_lead_append, length?_of_number?_some (number?_eq_some_iff_asks.2 ⟨h, hsize⟩)]
  by_cases hzero : n = 0
  · rw [if_pos hzero, if_pos hzero]
    rfl
  · rw [if_neg hzero, if_neg hzero]
    by_cases hmax : 1024 < n
    · rw [if_pos hmax, if_pos hmax]
      rfl
    · rw [if_neg hmax, if_neg hmax]
      rfl

/-- Reading a right side gives a reading of it. -/
theorem reading_parse (value : Text) : Reading value (parse value) := by
  by_cases hlead : text "@Random(" <+: value
  · obtain ⟨argument, rfl⟩ := hlead
    have hlead := List.prefix_append (text "@Random(") argument
    by_cases hclosed : argument.getLast? = some ')'
    · obtain ⟨inner, rfl⟩ := List.getLast?_eq_some_iff.1 hclosed
      cases hnumber : Text.number? (Text.trim inner) with
      | none =>
          rw [parse_lead_append, length?_of_number?_none hnumber]
          exact .notNumber hlead (getLast?_lead_append.2 hclosed) (number?_eq_none_iff_asks.1 hnumber)
      | some n =>
          obtain ⟨hasks, hsize⟩ := number?_eq_some_iff_asks.1 hnumber
          rw [hasks.parse_eq hsize]
          split
          · next hzero => exact .zero (hzero ▸ hasks)
          · next hzero =>
            split
            · next hmax => exact .tooLarge hasks hmax hsize
            · next hmax => exact .random hasks (by omega) (by omega)
    · rw [parse_lead_append, length?_of_open hclosed]
      exact .unclosed hlead fun h => hclosed (getLast?_lead_append.1 h)
  · rw [parse_of_not_lead hlead]
    exact .literal hlead

/-- A right side has no other reading. -/
theorem Reading.parse_eq {value : Text} {result : Except Flaw Replacement}
    (h : Reading value result) : parse value = result := by
  cases h with
  | literal h => exact parse_of_not_lead h
  | unclosed h hopen =>
      obtain ⟨argument, rfl⟩ := h
      rw [parse_lead_append, length?_of_open fun h => hopen (getLast?_lead_append.2 h)]
      rfl
  | notNumber h hclosed hnone =>
      obtain ⟨argument, rfl⟩ := h
      obtain ⟨inner, rfl⟩ := List.getLast?_eq_some_iff.1 (getLast?_lead_append.1 hclosed)
      rw [parse_lead_append, length?_of_number?_none (number?_eq_none_iff_asks.2 hnone)]
      rfl
  | zero h => exact h.parse_eq (by decide)
  | @tooLarge n h hmax hsize => rw [h.parse_eq hsize, if_neg (by omega), if_pos hmax]
  | @random n h hpos hmax =>
      have hsize : n < UInt64.size := Nat.lt_of_le_of_lt hmax (by decide)
      rw [h.parse_eq hsize, if_neg (by omega), if_neg (by omega)]

/-- Every text has one reading, and parsing finds it. -/
theorem parse_eq_iff {value : Text} {result : Except Flaw Replacement} :
    parse value = result ↔ Reading value result :=
  ⟨fun h => h ▸ reading_parse value, Reading.parse_eq⟩

/-- White space goes around the numeral, and not between its sign and its
digits. -/
example : parse (text "@Random( +0012\t)") = .ok (.random 12) ∧
    parse (text "@Random(+ 12)") = .error .notNumber := by decide

-- ================================================================ reasons

/-- A right side is refused for a reason, in so many words. -/
def Refused (value : Text) (reason : String) : Prop :=
  ∃ flaw, parse value = .error flaw ∧ flaw.message = reason

private theorem Flaw.message_inj {flaw other : Flaw} (h : flaw.message = other.message) :
    flaw = other := by
  revert h
  cases flaw <;> cases other <;> decide

/-- A directive is refused with a message exactly if that flaw is its
reading. -/
private theorem refused_message_iff {value : Text} {flaw : Flaw} :
    Refused value flaw.message ↔ Reading value (.error flaw) := by
  rw [← parse_eq_iff]
  constructor
  · intro ⟨other, hparse, hmessage⟩
    rw [hparse, Flaw.message_inj hmessage]
  · intro hparse
    exact ⟨flaw, hparse, rfl⟩

/-- Right sides are read by their grammar. A right side is a literal exactly
if it does not begin as a directive does, and then stands for itself. It is a
random identifier exactly if it asks for a length from 1 to 1024. All others
are refused, each for its own reason: a directive that is not closed, one
that asks for no characters, one that asks for more than can be had, and one
that asks for no number of 64 bits. -/
theorem parse_reads_grammar (value : Text) :
    (∀ literal, parse value = .ok (.literal literal) ↔
      literal = value ∧ ¬ text "@Random(" <+: value) ∧
    (∀ n, parse value = .ok (.random n) ↔ Asks value n ∧ 1 ≤ n ∧ n ≤ 1024) ∧
    (Refused value "missing closing parenthesis" ↔
      text "@Random(" <+: value ∧ value.getLast? ≠ some ')') ∧
    (Refused value "length must be at least 1" ↔ Asks value 0) ∧
    (Refused value "length too large" ↔ ∃ n, Asks value n ∧ 1024 < n ∧ n < UInt64.size) ∧
    (Refused value "length is not a positive integer" ↔
      text "@Random(" <+: value ∧ value.getLast? = some ')' ∧
        ∀ n, Asks value n → UInt64.size ≤ n) := by
  refine ⟨fun literal => ?_, fun n => ?_, ?_, ?_, ?_, ?_⟩
  · rw [parse_eq_iff]
    constructor
    · intro h
      cases h with
      | literal h => exact ⟨rfl, h⟩
    · intro ⟨heq, h⟩
      rw [heq]
      exact .literal h
  · rw [parse_eq_iff]
    constructor
    · intro h
      cases h with
      | random h hpos hmax => exact ⟨h, hpos, hmax⟩
    · intro ⟨h, hpos, hmax⟩
      exact .random h hpos hmax
  · show Refused value Flaw.unclosed.message ↔ _
    rw [refused_message_iff]
    constructor
    · intro h
      cases h with
      | unclosed h hopen => exact ⟨h, hopen⟩
    · intro ⟨h, hopen⟩
      exact .unclosed h hopen
  · show Refused value Flaw.zero.message ↔ _
    rw [refused_message_iff]
    constructor
    · intro h
      cases h with
      | zero h => exact h
    · exact .zero
  · show Refused value Flaw.tooLarge.message ↔ _
    rw [refused_message_iff]
    constructor
    · intro h
      cases h with
      | tooLarge h hmax hsize => exact ⟨_, h, hmax, hsize⟩
    · intro ⟨n, h, hmax, hsize⟩
      exact .tooLarge h hmax hsize
  · show Refused value Flaw.notNumber.message ↔ _
    rw [refused_message_iff]
    constructor
    · intro h
      cases h with
      | notNumber h hclosed hnone => exact ⟨h, hclosed, hnone⟩
    · intro ⟨h, hclosed, hnone⟩
      exact .notNumber h hclosed hnone

end Replacement

end TaggedSource
