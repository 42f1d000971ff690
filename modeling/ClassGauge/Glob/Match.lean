import ClassGauge.Glob.Pattern

/-! # Matching globs

Tokens are matched from left to right, trying again where a token can stand for runs of different
lengths. An attempt ends in one of three ways, and one of them, running out of text, ends all
longer attempts as well.
-/

namespace ClassGauge.Glob

/-- How an attempt to match ends. -/
inductive Outcome where
  /-- The tokens match the whole text. -/
  | matched
  /-- This attempt fails; a longer run in front may still lead to a match. -/
  | failed
  /-- The text ran out before the tokens did, and a longer run in front would not help. -/
  | exhausted
  deriving DecidableEq, Repr

/-- Whether a token for one character stands for `c`. -/
def Token.accepts : Token → Char → Bool
  | .literal l, c => l = c
  | .anyChar, _ => true
  | .oneOf negated ranges, c => ranges.any (·.contains c) != negated
  | .anySequence, _ | .anyComponents, _ => false

/-- Lets a token swallow characters one by one and tries `next` behind each of them, or with
`slashOnly` behind slashes only, until an attempt does not fail. When the text runs out, `next`
decides. -/
def sweep (slashOnly : Bool) (next : List Char → Outcome) : List Char → Outcome
  | [] => next []
  | c :: cs =>
    if slashOnly && c ≠ '/' then sweep slashOnly next cs
    else
      match next cs with
      | .failed => sweep slashOnly next cs
      | outcome => outcome

/-- Tries `next` on the whole text first, then lets a token swallow some of it. -/
def tryRuns (slashOnly : Bool) (next : List Char → Outcome) (text : List Char) : Outcome :=
  match next text with
  | .failed => sweep slashOnly next text
  | outcome => outcome

/-- Matches tokens against a text. -/
def matchTokens : List Token → List Char → Outcome
  | [], [] => .matched
  | [], _ :: _ => .failed
  | .anySequence :: ts, text => tryRuns false (matchTokens ts) text
  | .anyComponents :: ts, text => tryRuns true (matchTokens ts) text
  | _ :: _, [] => .exhausted
  | t :: ts, c :: cs => if t.accepts c then matchTokens ts cs else .failed

/-- Whether tokens match a text. -/
def isMatch (tokens : List Token) (text : String) : Bool :=
  matchTokens tokens text.toList = .matched

end ClassGauge.Glob
