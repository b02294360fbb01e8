/-
Stripping resolves the regions of disabled features. A region runs from
the first start marker of a feature to the first end marker after it. A
region without a leave marker is deleted; one with a leave marker shrinks
to its fallback, which is put between the two guard sentinels. Features
are resolved one after the other, each over the whole text and until no
region of it is left.

A start marker without an end marker is an orphan: it is reported with
its byte offset and stops the resolution of its feature.

`Feature.resolve` ends because a splice makes the text shorter: a deletion
drops two tokens, and a guard puts the two sentinels in the place of three
tokens, which are longer by two characters at least.
-/
import TaggedSource.Marker

namespace TaggedSource

/-- What stands before the kept fallback of a region. -/
def guardOpen : Text := text "/*Piranhito?@-@FuncBegin@*/"

/-- What stands after the kept fallback of a region. -/
def guardClose : Text := text "/*Piranhito?@-@FuncEnd@*/"

-- ============================================================ one splice

/-- What the first region of a feature in a text calls for. -/
inductive Splice where
  /-- The text has no start marker. -/
  | none
  /-- The first start marker, at the given byte, has no end marker. -/
  | orphan (offset : Nat)
  /-- The region is deleted, which leaves `text`. -/
  | remove (text : Text)
  /-- The region shrinks to its guarded fallback, which leaves `text`. -/
  | guard (text : Text)
  deriving DecidableEq, Repr

/-- Resolves the first region of a feature. -/
def Feature.splice (feature : Feature) (t : Text) : Splice :=
  match Text.cut? (feature.token .start) t with
  | none => .none
  | some (before, rest) =>
    match Text.cut? (feature.token .finish) rest with
    | none => .orphan (Text.byteSize before)
    | some (body, after) =>
      match Text.cut? (feature.token .leave) body with
      | none => .remove (before ++ after)
      | some (_, fallback) =>
        .guard (before ++ guardOpen ++ fallback ++ guardClose ++ after)

/-- A region that is removed makes the text shorter. -/
theorem Feature.length_of_splice_remove {feature : Feature} {t u : Text}
    (h : feature.splice t = .remove u) : u.length < t.length := by
  unfold splice at h
  split at h
  · cases h
  next before rest hs =>
    split at h
    · cases h
    next body after he =>
      split at h
      · cases h
        have := Text.length_of_cut? hs
        have := Text.length_of_cut? he
        have := feature.length_token .start
        simp only [List.length_append]
        omega
      · cases h

/-- A region that is put in guards makes the text shorter too: the guards are
shorter than the tokens. -/
theorem Feature.length_of_splice_guard {feature : Feature} {t u : Text}
    (h : feature.splice t = .guard u) : u.length < t.length := by
  unfold splice at h
  split at h
  · cases h
  next before rest hs =>
    split at h
    · cases h
    next body after he =>
      split at h
      · cases h
      next gated fallback hl =>
        cases h
        have := Text.length_of_cut? hs
        have := Text.length_of_cut? he
        have := Text.length_of_cut? hl
        have := feature.length_token .start
        have := feature.length_token .leave
        have := feature.length_token .finish
        have : guardOpen.length = 27 := by decide
        have : guardClose.length = 25 := by decide
        simp only [List.length_append]
        omega

-- ============================================================ one feature

/-- A start marker that was left in place for want of an end marker. -/
structure Orphan where
  /-- The id of the marker's feature. -/
  feature : Text
  /-- The marker's byte offset when its feature was resolved. -/
  offset : Nat
  deriving DecidableEq, Repr

/-- What is left of a text, and what was done to it. -/
structure Stripped where
  /-- The resolved text. -/
  text : Text
  /-- How many regions were deleted. -/
  removed : Nat := 0
  /-- How many regions shrank to their fallback. -/
  guarded : Nat := 0
  /-- The start markers without an end marker, in the order of the features. -/
  unbalanced : List Orphan := []
  deriving DecidableEq, Repr

/-- Whether every start marker had its end marker. -/
def Stripped.balanced (s : Stripped) : Bool := s.unbalanced.isEmpty

/-- Resolves the regions of one feature. -/
def Feature.resolve (feature : Feature) (s : Stripped) : Stripped :=
  match _h : feature.splice s.text with
  | .none => s
  | .orphan offset => { s with unbalanced := s.unbalanced ++ [⟨feature.id, offset⟩] }
  | .remove t => feature.resolve { s with text := t, removed := s.removed + 1 }
  | .guard t => feature.resolve { s with text := t, guarded := s.guarded + 1 }
termination_by s.text.length
decreasing_by
  · exact Feature.length_of_splice_remove ‹_›
  · exact Feature.length_of_splice_guard ‹_›

-- ========================================================== all features

/-- Resolves the regions of the features, in their order. -/
def strip (features : List Feature) (t : Text) : Stripped :=
  features.foldl (fun s feature => feature.resolve s) { text := t }

end TaggedSource
