/-
Random identifiers. A random source yields 32-bit words by number. A letter
is drawn by taking words until one whose top six bits are below 62 turns
up, and reading those bits as an index into the alphabet. An identifier is
an underscore that is filled up with letters.

Drawing would go on for ever if too few of the words to come selected a
letter. So letters are drawn from a supply, a place in the words with a
promise of how many letters can still be drawn; the promise is what `letter`
recurses on, and no bound on the number of rejected words is needed. A word
source promises that the letters never run out, which makes it a supply of
any size (`WordSource.yields`).
-/
import TaggedSource.Text

namespace TaggedSource

/-- The letters of random identifiers, by index. -/
def alphabet : Text :=
  text "ABCDEFGHIJKLMNOPQRSTUVWXYZabcdefghijklmnopqrstuvwxyz0123456789"

/-- What a random identifier begins with. -/
def identifierLead : Text := ['_']

/-- The top six bits of a word. -/
def letterIndex (word : UInt32) : Nat := (word >>> 26).toNat

/-- Whether a word selects a letter. -/
def selectsLetter (word : UInt32) : Bool := letterIndex word < 62

/-- An endless sequence of words, by number. -/
abbrev Words := Nat → UInt32

namespace Words

variable {words : Words} {count n : Nat}

-- =================================================== enough of the words

/-- The next `size` words from place `n` on. -/
def slice (words : Words) (n size : Nat) : List UInt32 := (List.range' n size).map words

@[simp]
theorem slice_zero (words : Words) (n : Nat) : words.slice n 0 = [] := rfl

/-- A slice begins with its first word. -/
theorem slice_succ (words : Words) (n size : Nat) :
    words.slice n (size + 1) = words n :: words.slice (n + 1) size := rfl

/-- A word counts among those that select a letter if it does. -/
theorem countP_slice_succ (words : Words) (n size : Nat) :
    (words.slice n (size + 1)).countP selectsLetter
      = (words.slice (n + 1) size).countP selectsLetter + (selectsLetter (words n)).toNat := by
  rw [slice_succ, List.countP_cons]
  cases selectsLetter (words n) <;> rfl

/-- At least `count` of the words from place `n` on select a letter. -/
def Yields (words : Words) (count n : Nat) : Prop :=
  ∃ size, count ≤ (words.slice n size).countP selectsLetter

namespace Yields

/-- Where some letters can be drawn, fewer can be. -/
theorem of_fewer {fewer : Nat} (h : words.Yields count n) (hle : fewer ≤ count) :
    words.Yields fewer n := by
  obtain ⟨size, hsize⟩ := h
  exact ⟨size, Nat.le_trans hle hsize⟩

/-- Behind a word, all letters are to come but the one that it selects. -/
theorem behind (h : words.Yields count n) :
    words.Yields (count - (selectsLetter (words n)).toNat) (n + 1) := by
  obtain ⟨size, hsize⟩ := h
  cases size with
  | zero =>
    rw [slice_zero, List.countP_nil] at hsize
    exact ⟨0, by omega⟩
  | succ size =>
    rw [countP_slice_succ] at hsize
    exact ⟨size, by omega⟩

/-- Before a word, the letters behind it are to come and the one that it
selects. -/
theorem of_behind (h : words.Yields count (n + 1)) :
    words.Yields (count + (selectsLetter (words n)).toNat) n := by
  obtain ⟨size, hsize⟩ := h
  refine ⟨size + 1, ?_⟩
  rw [countP_slice_succ]
  omega

/-- Letters that can be drawn later can be drawn. -/
theorem of_le {m : Nat} (h : words.Yields count m) (hle : n ≤ m) : words.Yields count n := by
  induction hle with
  | refl => exact h
  | step _ ih => exact ih (h.of_behind.of_fewer (Nat.le_add_right _ _))

end Yields

/-- One place is behind another whose word is rejected. -/
def Rejects (words : Words) (m n : Nat) : Prop :=
  m = n + 1 ∧ selectsLetter (words n) = false

/-- Rejected words come to an end where a letter can be drawn. -/
theorem Yields.acc_rejects (h : words.Yields count n) (hpos : 0 < count) :
    Acc words.Rejects n := by
  obtain ⟨size, hsize⟩ := h
  induction size generalizing n with
  | zero =>
    rw [slice_zero, List.countP_nil] at hsize
    omega
  | succ size ih =>
    refine Acc.intro _ fun m hm => ?_
    obtain ⟨rfl, hrejected⟩ := hm
    rw [countP_slice_succ, hrejected] at hsize
    exact ih hsize

-- ============================================================== drawing

/-- A place in the words from which at least `count` letters can be drawn. -/
structure Supply (words : Words) (count : Nat) where
  /-- The place, which is the number of words taken before it. -/
  taken : Nat
  /-- Enough of the words to come select a letter. -/
  enough : words.Yields count taken

namespace Supply

/-- The word that is taken next. -/
def current (s : words.Supply count) : UInt32 := words s.taken

/-- The supply once its next word is taken. -/
def advance (s : words.Supply count) :
    words.Supply (count - (selectsLetter s.current).toNat) where
  taken := s.taken + 1
  enough := s.enough.behind

/-- The same place as a supply of fewer letters. -/
def ofFewer {fewer : Nat} (s : words.Supply count) (h : fewer ≤ count) : words.Supply fewer where
  taken := s.taken
  enough := s.enough.of_fewer h

@[simp]
theorem taken_advance (s : words.Supply count) : s.advance.taken = s.taken + 1 := rfl

/-- Asking for less does not change what was taken. -/
@[simp]
theorem taken_ofFewer {fewer : Nat} (s : words.Supply count) (h : fewer ≤ count) :
    (s.ofFewer h).taken = s.taken := rfl

/-- Draws a letter. -/
def letter (s : words.Supply count) (hpos : 0 < count) : Char × words.Supply (count - 1) :=
  if h : selectsLetter s.current = true then
    (alphabet.getD (letterIndex s.current) '_', s.advance.ofFewer (by rw [h]; exact Nat.le_refl _))
  else
    letter (s.advance.ofFewer (by rw [Bool.eq_false_iff.2 h]; exact Nat.le_refl _)) hpos
termination_by (⟨s.taken, s.enough.acc_rejects hpos⟩ : { n // Acc words.Rejects n })
decreasing_by
  exact ⟨rfl, Bool.eq_false_iff.2 h⟩

/-- Draws letters behind a text until it has the given length. -/
def fill (length : Nat) (value : Text) (s : words.Supply (length - value.length)) : Text × Nat :=
  if h : value.length < length then
    let (c, s) := s.letter (Nat.sub_pos_of_lt h)
    fill length (value ++ [c]) (s.ofFewer (by rw [List.length_append]; exact Nat.le_refl _))
  else
    (value, s.taken)
termination_by length - value.length
decreasing_by
  rw [List.length_append, List.length_singleton]
  omega

end Supply

/-- Draws an identifier of the given length from the words at place `n` and
on. What is too long already, because no character is asked for, is cut. -/
def identifier (words : Words) (length n : Nat) (h : words.Yields (length - 1) n) : Text × Nat :=
  let (value, n) := Supply.fill length identifierLead ⟨n, h⟩
  (value.take length, n)

end Words

-- =============================================================== sources

/-- An endless sequence of words of which some have been taken. -/
structure WordSource where
  /-- The words by number. -/
  word : Words
  /-- How many words were taken so far. -/
  taken : Nat
  /-- Words that select a letter never run out. -/
  supply : ∀ n, ∃ m, n ≤ m ∧ selectsLetter (word m) = true

namespace WordSource

/-- The source once its next word is taken. -/
def advance (s : WordSource) : WordSource := { s with taken := s.taken + 1 }

/-- Any number of letters can be drawn from a source. -/
theorem yields (s : WordSource) (count n : Nat) : s.word.Yields count n := by
  induction count generalizing n with
  | zero => exact ⟨0, Nat.zero_le _⟩
  | succ count ih =>
    obtain ⟨m, hle, hselects⟩ := s.supply n
    have hlater := (ih (m + 1)).of_behind
    rw [hselects] at hlater
    exact hlater.of_le hle

/-- Draws an identifier of the given length: an underscore, then letters. -/
def identifier (length : Nat) (s : WordSource) : Text × WordSource :=
  let (value, taken) := s.word.identifier length s.taken (s.yields _ _)
  (value, { s with taken := taken })

-- ================================================== sources from a seed

/-- The step of the additive sequence that continues a list of words. -/
def stride : Nat := 2654435761

/-- The stride's inverse modulo 2 ^ 32. -/
def strideInverse : Nat := 244002641

/-- The word at place `n` of the sequence with the given offset. -/
def sequenceWord (offset n : Nat) : UInt32 := UInt32.ofNat (n * stride + offset)

/-- The sequence passes through zero again and again, since its stride is
odd, and zero selects the first letter. -/
theorem sequenceWord_supply (offset n : Nat) :
    ∃ m, n ≤ m ∧ sequenceWord offset m = 0 := by
  refine ⟨(2 ^ 32 - offset % 2 ^ 32) * strideInverse + n * 2 ^ 32, ?_, ?_⟩
  · omega
  · have hd : 2 ^ 32 ∣ ((2 ^ 32 - offset % 2 ^ 32) * strideInverse + n * 2 ^ 32) * stride
        + offset := by
      have hs : strideInverse * stride = 150801925 * 2 ^ 32 + 1 := by decide
      obtain ⟨r, hr⟩ : ∃ r, r = 2 ^ 32 - offset % 2 ^ 32 := ⟨_, rfl⟩
      have hsum : r + offset = 2 ^ 32 * (1 + offset / 2 ^ 32) := by omega
      have hrw : (r * strideInverse + n * 2 ^ 32) * stride + offset
          = r * (strideInverse * stride) + n * 2 ^ 32 * stride + offset := by
        rw [Nat.add_mul, Nat.mul_assoc]
      have hfin : r * (150801925 * 2 ^ 32 + 1) + n * 2 ^ 32 * stride + offset
          = 2 ^ 32 * (r * 150801925 + n * stride + (1 + offset / 2 ^ 32)) := by
        have h1 : r * (150801925 * 2 ^ 32 + 1) = 2 ^ 32 * (r * 150801925) + r := by
          rw [Nat.mul_add, Nat.mul_one, ← Nat.mul_assoc, Nat.mul_comm _ (2 ^ 32)]
        have h2 : n * 2 ^ 32 * stride = 2 ^ 32 * (n * stride) := by
          rw [Nat.mul_comm n, Nat.mul_assoc]
        rw [h1, h2, Nat.mul_add, Nat.mul_add, ← hsum]
        omega
      rw [← hr, hrw, hs, hfin]
      exact Nat.dvd_mul_right _ _
    apply UInt32.toNat_inj.1
    simp only [sequenceWord, UInt32.toNat_ofNat', UInt32.toNat_zero]
    exact Nat.mod_eq_zero_of_dvd hd

/-- The source that yields `words` and then the additive sequence. -/
def ofWords (words : List UInt32) (offset : Nat) : WordSource where
  word n := words.getD n (sequenceWord offset n)
  taken := 0
  supply n := by
    obtain ⟨m, hle, hm⟩ := sequenceWord_supply offset (n + words.length)
    refine ⟨m, by omega, ?_⟩
    rw [List.getD_eq_getElem?_getD, List.getElem?_eq_none (by omega), Option.getD_none, hm]
    decide

end WordSource

end TaggedSource
