import GatewayPolicy.Authoring.Scan

/-! # Code without its trivia

  Code that is copied into a document is freed of comments and line breaks:
  its tokens are joined again, with one blank wherever a token starts behind
  the end of the one before it. A text that cannot be cut into tokens is only
  freed of repeated blanks.

  - `joinTokens` joins tokens by their spans.
  - `stripTrivia` does so for the tokens of a text.
-/

namespace GatewayPolicy

/-- The texts of some tokens, with a blank in front of a token that starts behind
    the end of the one before it; `stop` is the end of the token in front. -/
def joinTokens : Option Nat → List Token → List Char
  | _, [] => []
  | stop, t :: ts =>
    (if stop.any (· < t.span.start) then [' '] else []) ++ t.text.toList ++
      joinTokens (some t.span.stop) ts

/-- The words between blanks, each word with a blank in front unless it is the
    first; `gap` says that blanks came since the last word. -/
def joinWords : Bool → List Char → List Char
  | _, [] => []
  | gap, c :: cs =>
    if Text.isBlank c then joinWords true cs
    else if gap then ' ' :: c :: joinWords false cs
    else c :: joinWords false cs

/-- Code without its trivia. -/
def stripTrivia (text : String) : String :=
  match scan text with
  | .ok (tokens, _) => String.ofList (joinTokens none tokens)
  | .error _ => String.ofList (joinWords false (text.toList.dropWhile Text.isBlank))

end GatewayPolicy
