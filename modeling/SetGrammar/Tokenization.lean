import SetGrammar.Recognition.Recognizer

/-!
# Tokenization

A text is cut into stretches from left to right. At each position every token
rule is tried. The longest match wins, and the earliest rule among those of
equal length. It gives a token or is dropped. Where no rule matches at least one
character, an error covers the text up to the character that stopped the longest
attempt.
-/
namespace SetGrammar

/-- A match of a token rule. -/
structure Candidate where
  rule : CompiledRule
  /-- The index after the match. -/
  stop : Nat
  bindings : List Binding

/-- A piece into which a text is cut. -/
inductive Stretch where
  /-- A token of the result. -/
  | token (t : Token)
  /-- A match that is dropped. -/
  | skipped (rule text : String)
  /-- Text that no rule matches. -/
  | unrecognized (text : String)

/-- The token of a stretch. -/
def Stretch.token? : Stretch → Option Token
  | token t => some t
  | skipped _ _ | unrecognized _ => none

namespace Recognizer

/-- Tries a rule at an index. The bindings of a match are taken out of the log, also if
    it does not count because it has no characters. -/
def candidate? (r : Recognizer) (start : Nat) (rule : CompiledRule) : Run (Option Candidate) := do
  Run.seek start
  if ← r.start rule then
    let stop := (← get).index
    let bindings ← Run.takeBindings
    return if start < stop then some ⟨rule, stop, bindings⟩ else none
  else return none

/-- The longer of two candidates, the first if they are equally long. -/
def longer : Option Candidate → Option Candidate → Option Candidate
  | none, b => b
  | a, none => a
  | some a, some b => if a.stop < b.stop then some b else some a

/-- The best candidate among a given one and those of further rules. -/
def bestCandidate (r : Recognizer) (start : Nat) :
    Option Candidate → List CompiledRule → Run (Option Candidate)
  | best, [] => return best
  | best, rule :: rest => do
    let next ← r.candidate? start rule
    r.bestCandidate start (longer best next) rest

/-- The stretch that a candidate gives. Only a rule with a token type makes
    tokens. -/
def stretchOf (r : Recognizer) (start : Nat) (position : Position) (c : Candidate) : Stretch :=
  let text := r.input.text start c.stop
  match c.rule.tokenType, c.rule.command with
  | some type, none => .token ⟨type, text, position, start, c.stop, c.bindings⟩
  | _, _ => .skipped c.rule.name text

/-- Records a stretch that a rule gives. -/
def emitStretch : Stretch → Run Unit
  | .token t => Run.emit (.token t)
  | .skipped rule text => Run.emit (.skip rule text)
  | .unrecognized _ => return ()

/-- Cuts off one stretch and goes to its end. -/
def stretch (r : Recognizer) (rules : List CompiledRule) (start : Nat) (position : Position) :
    Run Stretch := do
  modify fun s => { s with furthest := start }
  match ← r.bestCandidate start none rules with
  | some c =>
    let found := r.stretchOf start position c
    emitStretch found
    Run.seek c.stop
    return found
  | none =>
    let stop := (← get).furthest + 1
    let text := r.input.text start stop
    Run.report ⟨.unrecognized (Text.escape text), start, position⟩
    Run.seek (r.input.clampIndex stop)
    return .unrecognized text

/-- Cuts the text from the current index, with the stretches so far, the latest
    first. A stretch is never empty, so that as many of them as characters
    suffice. -/
def stretches (r : Recognizer) (rules : List CompiledRule) :
    Nat → Position → List Stretch → Run (List Stretch × Position)
  | 0, position, found => return (found.reverse, position)
  | characters + 1, position, found => do
    let start := (← get).index
    if start < r.input.endIndex then
      let next ← r.stretch rules start position
      let text := (r.input.text start (← get).index).toList
      r.stretches rules characters (position.afterAll text) (next :: found)
    else return (found.reverse, position)

/-- Cuts the whole text and ends it with an end token. -/
def tokens (r : Recognizer) : Run (List Token) := do
  let (found, position) ← r.stretches r.grammar.tokenRules r.input.endIndex .origin []
  let last := Token.endOfInput position r.input.endIndex
  Run.emit (.token last)
  return found.filterMap Stretch.token? ++ [last]

end Recognizer

/-- What became of a text. -/
structure Tokenization where
  /-- The tokens with an end token, unless the run ended early. -/
  result : Except RunError (List Token)
  /-- What was reported until then. -/
  errors : List InputError
  events : List Event

/-- The tokens of a text. -/
def CompiledGrammar.tokenize (g : CompiledGrammar) (limits : Limits) (text : String) :
    Tokenization :=
  let r : Recognizer := ⟨g, .lexer, .ofText text, limits⟩
  match r.tokens.run (.initial limits) with
  | .ok tokens s => ⟨.ok tokens, s.errors.reverse, s.events.reverse⟩
  | .error e s => ⟨.error e, s.errors.reverse, s.events.reverse⟩

end SetGrammar
