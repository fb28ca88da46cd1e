import SetGrammar.Input
import SetGrammar.Symbol.Rendering

/-!
# Traces of runs

The events of a run, and the lines that show them. Rules are indented by how
many are open around them.
-/
namespace SetGrammar

/-- A step of a run. -/
inductive Event where
  /-- A rule begins. -/
  | enter (rule : String)
  /-- A rule ends. -/
  | exit (rule : String) (matched : Bool)
  /-- A set test admits a symbol. -/
  | accept (symbol : Nat) (kind : RuleKind)
  /-- A set test refuses a symbol or the end of the input. -/
  | refuse (symbol : Option Nat) (kind : RuleKind)
  /-- A label is bound. -/
  | bind (label : String) (value : Capture)
  /-- A repeating loop ends. -/
  | loopExit (matched : Nat)
  /-- An alternative is tried. -/
  | branch (alternative : Nat)
  /-- An alternative is given up. -/
  | backtrack
  /-- The lexer makes a token. -/
  | token (t : Token)
  /-- The lexer drops a text. -/
  | skip (rule text : String)

/-- How much a trace shows. -/
inductive Verbosity where
  /-- Rules, branches and tokens. -/
  | brief
  /-- Set tests, bindings and ends of loops, too. -/
  | verbose
  /-- Set tests with symbols as numbers, too. -/
  | veryVerbose
deriving DecidableEq, Repr

namespace Event

/-- How many rules are open after an event. -/
def depthAfter (depth : Nat) : Event → Nat
  | enter _ => depth + 1
  | exit _ _ => depth - 1
  | _ => depth

/-- How many rules an event is indented by. The end of a rule stands below its
    beginning. -/
def indentation (depth : Nat) : Event → Nat
  | exit _ _ => depth - 1
  | _ => depth

/-- Whether an event is shown at a verbosity. -/
def isShown (verbosity : Verbosity) : Event → Bool
  | accept _ _ | refuse _ _ | bind _ _ | loopExit _ => verbosity != .brief
  | _ => true

/-- How a symbol is shown. -/
def symbolText (vocabulary : Vocabulary) (verbosity : Verbosity) (kind : RuleKind) :
    Option Nat → String
  | none => endText
  | some symbol =>
    let shown := (SymbolSet.single symbol).render kind (some vocabulary)
    if verbosity = .veryVerbose then s!"{shown} ({symbol})" else shown

/-- The name and the subject of an event. -/
def parts (vocabulary : Vocabulary) (verbosity : Verbosity) : Event → String × String
  | enter rule => ("enter", rule)
  | exit rule matched => ("exit", if matched then rule else rule ++ " (failed)")
  | accept symbol kind => ("match", symbolText vocabulary verbosity kind (some symbol))
  | refuse symbol kind => ("fail", symbolText vocabulary verbosity kind symbol)
  | bind label value => ("bind", label ++ " = " ++ value.shown)
  | loopExit matched => ("loop-exit", toString matched)
  | branch alternative => ("branch", toString alternative)
  | backtrack => ("backtrack", "")
  | token t =>
    let name := if t.isEnd then "EOF" else vocabulary.shownName t.type
    ("token", name ++ " '" ++ t.shown ++ "' " ++ t.position.render)
  | skip rule text => ("skip", rule ++ " '" ++ Text.escape text ++ "'")

/-- The line of an event. -/
def line (vocabulary : Vocabulary) (verbosity : Verbosity) (depth : Nat) (e : Event) : String :=
  let (name, subject) := e.parts vocabulary verbosity
  let indent := String.ofList (List.replicate (2 * e.indentation depth) ' ')
  indent ++ name ++ (if subject.isEmpty then "" else " " ++ subject)

end Event

/-- A trace that is being shown. -/
structure TraceView where
  /-- How many rules are open. -/
  depth : Nat
  /-- The lines so far, the latest first. -/
  lines : List String

/-- Shows one more event. -/
def TraceView.add (vocabulary : Vocabulary) (verbosity : Verbosity) (v : TraceView) (e : Event) :
    TraceView where
  depth := e.depthAfter v.depth
  lines :=
    if e.isShown verbosity then e.line vocabulary verbosity v.depth :: v.lines else v.lines

/-- The lines of a trace. -/
def traceLines (vocabulary : Vocabulary) (verbosity : Verbosity) (events : List Event) :
    List String :=
  (events.foldl (TraceView.add vocabulary verbosity) ⟨0, []⟩).lines.reverse

end SetGrammar
