import SetGrammar.Compiled
import SetGrammar.Recognition.Repetition
import SetGrammar.Trace

/-!
# Runs

A run is a computation on the state of a recognizer. It can end early, and the
state in which it did so is kept. The logs of a state have the latest entry
first.
-/
namespace SetGrammar

/-- How long a run may be. -/
structure Limits where
  /-- How many steps are allowed. -/
  fuel : Nat := 1000000
  /-- How many calls may be open at once. -/
  depth : Nat := 1024
deriving DecidableEq, Repr, Inhabited

/-- What changes in the course of a run. -/
structure RunState where
  /-- The index of the next symbol. -/
  index : Nat
  /-- How many steps are left. -/
  fuel : Nat
  /-- The largest index that a set test looked at. -/
  furthest : Nat
  bindings : List Binding
  errors : List InputError
  events : List Event

/-- The state at the start of an input. -/
def RunState.initial (limits : Limits) : RunState := ⟨0, limits.fuel, 0, [], [], []⟩

/-- A computation of a recognizer. -/
abbrev Run := EStateM RunError RunState

namespace Run

/-- Records an event. -/
def emit (e : Event) : Run Unit := modify fun s => { s with events := e :: s.events }

/-- Records an error. -/
def report (e : InputError) : Run Unit := modify fun s => { s with errors := e :: s.errors }

/-- Binds a label of a rule. -/
def bind (rule label : String) (value : Capture) : Run Unit := do
  emit (.bind label value)
  modify fun s => { s with bindings := ⟨rule, label, value⟩ :: s.bindings }

/-- Takes all bindings out of the log, in the order in which they were made. -/
def takeBindings : Run (List Binding) :=
  modifyGet fun s => (s.bindings.reverse, { s with bindings := [] })

/-- Uses up one step of those allowed. -/
def tick (limits : Limits) : Run Unit := do
  match (← get).fuel with
  | 0 => throw (.outOfFuel limits.fuel)
  | left + 1 => modify fun s => { s with fuel := left }

/-- Goes to an index. -/
def seek (index : Nat) : Run Unit := modify fun s => { s with index }

/-- Notes that the symbol at the current index is looked at. -/
def look : Run Unit := modify fun s => { s with furthest := max s.furthest s.index }

/-- Goes back to where an action began if the action fails. -/
def attempt (action : Run Bool) : Run Bool := do
  let start ← get
  let matched ← action
  if !matched then
    modify fun s => { s with index := start.index, bindings := start.bindings }
  return matched

end Run

/-- What surrounds a part of a rule while it is matched. -/
structure Scope where
  /-- The innermost rule. -/
  rule : String
  /-- Alternatives are being tried. A failure then only means that the next one
      is tried, so that nothing is reported. -/
  speculative : Bool
  /-- What is left of each sequence around the part, the innermost first. -/
  follow : List CompiledSequence

end SetGrammar
