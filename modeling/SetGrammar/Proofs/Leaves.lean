import SetGrammar.Compiled

/-!
# Leaves of compiled bodies

The leaves of a body are its set tests and calls at any depth. A grammar is
linked if every call has a rule of the caller's kind, and every set test the
domain of that kind.
-/
namespace SetGrammar

mutual

/-- The set tests and calls in a block. -/
def CompiledBlock.leaves : CompiledBlock → List CompiledElement
  | .set t => [.set t]
  | .branches alternatives _ _ _ => leavesOfBranches alternatives

/-- The set tests and calls in an element. -/
def CompiledElement.leaves : CompiledElement → List CompiledElement
  | .set t => [.set t]
  | .call rule => [.call rule]
  | .block b => b.leaves

/-- The set tests and calls in a sequence. -/
def leavesOfSequence : List CompiledElement → List CompiledElement
  | [] => []
  | e :: rest => e.leaves ++ leavesOfSequence rest

/-- The set tests and calls in alternatives. -/
def leavesOfBranches : List (List CompiledElement) → List CompiledElement
  | [] => []
  | alternative :: rest => leavesOfSequence alternative ++ leavesOfBranches rest

end

theorem leavesOfSequence_append (a b : List CompiledElement) :
    leavesOfSequence (a ++ b) = leavesOfSequence a ++ leavesOfSequence b := by
  induction a with
  | nil => rfl
  | cons e rest ih =>
    simp only [List.cons_append, leavesOfSequence, ih, List.append_assoc]

/-- Set tests are over a domain, and what is called may be called. -/
structure LeavesFit (d : Domain) (isCallable : String → Prop) (leaves : List CompiledElement) :
    Prop where
  sets : ∀ t, .set t ∈ leaves → t.domain = d
  calls : ∀ rule, .call rule ∈ leaves → isCallable rule

namespace LeavesFit

variable {d : Domain} {isCallable : String → Prop} {a : List CompiledElement}

theorem imp {isCallable' : String → Prop} (fit : LeavesFit d isCallable a)
    (weaker : ∀ rule, isCallable rule → isCallable' rule) : LeavesFit d isCallable' a :=
  ⟨fit.sets, fun rule member => weaker rule (fit.calls rule member)⟩

end LeavesFit

namespace CompiledGrammar

/-- There is a rule of a name and a kind. -/
def Has (g : CompiledGrammar) (kind : RuleKind) (name : String) : Prop :=
  ∃ called, g.rule? name = some called ∧ called.kind = kind

/-- Every call has a rule of the caller's kind, and every set test the domain of
    that kind. -/
def Linked (g : CompiledGrammar) : Prop :=
  ∀ r ∈ g.rules, LeavesFit (g.domain r.kind) (g.Has r.kind) r.body.leaves

theorem mem_of_rule? {g : CompiledGrammar} {name : String} {called : CompiledRule}
    (found : g.rule? name = some called) : called ∈ g.rules :=
  List.mem_of_find?_eq_some found

end CompiledGrammar

end SetGrammar
