/-
Substitution. The rules of a profile are applied one after the other, each
to the whole text; a rule that asks for a random identifier draws one and
puts it in every place of its pattern.
-/
import TaggedSource.Action
import TaggedSource.Random

namespace TaggedSource

/-- Applies one rule. A rule with the empty pattern does nothing, whatever
its right side. -/
def Rule.apply (rule : Rule) (t : Text) : Action WordSource Text :=
  if rule.pattern.isEmpty then
    pure t
  else
    match Replacement.parse rule.replacement with
    | .error flaw => .fail (.badDirective rule flaw)
    | .ok (.literal value) => pure (Text.replaceAll rule.pattern value t)
    | .ok (.random length) => do
      let source ← .get
      let (value, source) := source.identifier length
      .set source
      .log [.generated rule.pattern value]
      pure (Text.replaceAll rule.pattern value t)

/-- Applies rules in their order. -/
def substitute : List Rule → Text → Action WordSource Text
  | [], t => pure t
  | rule :: rules, t => do
    let t ← rule.apply t
    substitute rules t

end TaggedSource
