/-
The loops that delete tokens from a line.

Each token has a loop of its own, which deletes all occurrences in a round
and looks again, because what a round leaves may hold the token once more. A
round takes at least one token off the line (`length_replaceAll_add_le`), so a
line has no more rounds than tokens fit into it (`ends_removeToken`). An empty
token would be found for ever, and has no loop.

The loops of later tokens only delete, so they do not put back what an earlier
one took. They may join what was around it, though, and only the last token
is sure to be gone at the end (`deletion_ends_and_only_deletes`).
-/
import TaggedSource.Proofs.Conditions
import TaggedSource.Proofs.Deletion

namespace TaggedSource.Line

open Tidy (Ends)

/-- A round that finds a token makes the line shorter by a token at least. -/
theorem length_replaceAll_add_le {token line : Text} (hne : token ≠ [])
    (h : Text.occursIn token line = true) :
    (Text.replaceAll token [] line).length + token.length ≤ line.length := by
  unfold Text.occursIn at h
  obtain ⟨⟨before, after⟩, hcut⟩ := Option.isSome_iff_exists.1 h
  have hlength := Text.length_of_cut? hcut
  have hafter := (Text.sublist_of_drops (Text.drops_replaceAll token after)).length_le
  rw [Text.replaceAll_of_cut? hne hcut, List.append_nil, List.length_append]
  omega

/-- The loop of a token ends, after rounds that all together take no more
than there is. -/
theorem ends_removeToken {token : Text} (hne : token ≠ []) (line : Text) :
    ∃ rounds, Ends (Text.occursIn token) (Text.replaceAll token []) rounds line
        (removeToken token line) ∧
      (removeToken token line).length + rounds * token.length ≤ line.length := by
  fun_induction removeToken token line with
  | case1 line h ih =>
      obtain ⟨rounds, hends, hlength⟩ := ih
      have hround := length_replaceAll_add_le hne h.2
      refine ⟨rounds + 1, .round h.2 hends, ?_⟩
      rw [Nat.add_mul, Nat.one_mul]
      omega
  | case2 line h =>
      have hstop : Text.occursIn token line = false := by
        cases hoccurs : Text.occursIn token line with
        | false => rfl
        | true => exact absurd ⟨hne, hoccurs⟩ h
      exact ⟨0, .stop hstop, by omega⟩

private theorem edit_concat (tokens : List Text) (token line : Text) :
    edit (tokens ++ [token]) [] line = removeToken token (edit tokens [] line) :=
  edit_append tokens [token] line

/-- Tokens that are all empty delete nothing. -/
theorem edit_of_forall_eq_nil {tokens : List Text} (h : ∀ token ∈ tokens, token = [])
    (line : Text) : edit tokens [] line = line :=
  edit_eq_self_iff.2 fun token hmem hne => absurd (h token hmem) hne

/-- The loop of every token ends, and an empty token has none. What is left
has the characters of the line in their order, and is the whole line exactly
if none of the tokens that are not empty is in it. The last of these is not in
what is left. -/
theorem deletion_ends_and_only_deletes (tokens : List Text) (line : Text) :
    let out := edit tokens [] line
    (∀ before token after, tokens = before ++ token :: after →
      let found := edit before [] line
      let left := edit (before ++ [token]) [] line
      (token = [] → left = found) ∧
      (token ≠ [] → ∃ rounds,
        Ends (Text.occursIn token) (Text.replaceAll token []) rounds found left ∧
          left.length + rounds * token.length ≤ found.length)) ∧
    out.Sublist line ∧
    (out = line ↔ ∀ token ∈ tokens, token ≠ [] → ¬ token <:+: line) ∧
    ∀ before token after, tokens = before ++ token :: after → token ≠ [] →
      (∀ later ∈ after, later = []) → ¬ token <:+: out := by
  intro out
  refine ⟨?_, Text.sublist_of_drops (drops_edit tokens line), edit_eq_self_iff, ?_⟩
  · intro before token after _ found left
    have hleft : left = removeToken token found := edit_concat before token line
    rw [hleft]
    constructor
    · intro hnil
      rw [hnil, removeToken_nil]
    · intro hne
      exact ends_removeToken hne found
  · intro before token after htokens hne hlater
    -- no loop comes behind that of the token
    have hout : out = removeToken token (edit before [] line) := by
      show edit tokens [] line = _
      rw [htokens, List.append_cons, edit_append, edit_of_forall_eq_nil hlater, edit_concat]
    rw [hout]
    exact not_isInfix_removeToken hne (edit before [] line)

/-- A token inside another one is whole again after the first round. -/
theorem deletion_ends_nestedToken :
    let token := text "abc"
    let line := text "xababccy"
    let found := edit [[]] [] line
    let left := edit ([[]] ++ [token]) [] line
    let out := edit [[], token, []] [] line
    token <:+: line ∧
    (∃ rounds, Ends (Text.occursIn token) (Text.replaceAll token []) rounds found left ∧
      left.length + rounds * token.length ≤ found.length) ∧
    out.Sublist line ∧ out ≠ line ∧ ¬ token <:+: out := by
  intro token line found left out
  have hin : token <:+: line := ⟨text "xab", text "cy", by decide⟩
  have hne : token ≠ [] := by decide
  obtain ⟨hloops, hsublist, hkept, hlast⟩ := deletion_ends_and_only_deletes [[], token, []] line
  refine ⟨hin, (hloops [[]] token [[]] rfl).2 hne, hsublist, fun heq => ?_, ?_⟩
  · exact hkept.1 heq token (.tail _ (.head _)) hne hin
  · exact hlast [[]] token [[]] rfl hne (by decide)

end TaggedSource.Line
