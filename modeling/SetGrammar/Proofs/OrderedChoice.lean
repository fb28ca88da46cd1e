import SetGrammar.Compiled
import SetGrammar.Input

/-!
# Ordered choice

The meaning of compiled rules without fuel, recovery, checkpoints or logs. A set
tests one symbol, a sequence runs from left to right, the first alternative that
matches its whole sequence wins, and repetition is greedy. It stops at the
greatest number of matches and at an iteration that fails or takes nothing. Each
labelled iteration binds what it takes. Nothing of an abandoned alternative is
left but the furthest index that was looked at.
-/
namespace SetGrammar

/-- Whether no further match is allowed after `count` of them. -/
def Quantifier.isReached (q : Quantifier) (count : Nat) : Bool := q.greatest?.any (· ≤ count)

/-- What the symbols from one index to before another are bound as: one symbol as
    such and anything else as text. -/
def Input.captured (input : Input) (start stop : Nat) : Capture :=
  if stop = start + 1 then input.value start else .text (input.text start stop)

/-- The binding of a label to the symbols between two indices, if there is a
    label. -/
def Input.labelled (input : Input) (rule : String) (label : Option String) (start stop : Nat) :
    List Binding :=
  label.toList.map fun name => ⟨rule, name, input.captured start stop⟩

/-- What trying to match something comes to. -/
inductive Trial where
  | failed (reach : Nat)
  /-- A match ends before `stop` and has the bindings, the earliest first. -/
  | matched (stop : Nat) (bindings : List Binding) (reach : Nat)

namespace Trial

/-- A match of nothing at an index, if there is a match. -/
def stay (isMatch : Bool) (i reach : Nat) : Trial :=
  if isMatch then matched i [] reach else failed reach

/-- A test of the symbol at an index. -/
def ofTest (isAdmitted : Bool) (i : Nat) : Trial := if isAdmitted then matched (i + 1) [] i else failed i

/-- A trial that follows what has bound and looked at something. -/
def after (bindings : List Binding) (reach : Nat) : Trial → Trial
  | failed later => failed (max reach later)
  | matched stop more later => matched stop (bindings ++ more) (max reach later)

/-- The furthest index that was looked at. -/
def reach : Trial → Nat
  | failed reach | matched _ _ reach => reach

@[simp] theorem after_failed (bindings : List Binding) (reach later : Nat) :
    (failed later).after bindings reach = failed (max reach later) := rfl

@[simp] theorem after_matched (bindings more : List Binding) (reach stop later : Nat) :
    (matched stop more later).after bindings reach =
      matched stop (bindings ++ more) (max reach later) := rfl

end Trial

/-- What one iteration of a block matches. -/
inductive Body where
  | test (t : SetTest)
  | alternatives (alternatives : List CompiledSequence)

namespace CompiledBlock

/-- What one iteration of the block matches. -/
def body : CompiledBlock → Body
  | set t => .test t.toSetTest
  | branches alternatives _ _ _ => .alternatives alternatives

/-- The label of the block. -/
def label : CompiledBlock → Option String
  | set t => t.label
  | branches _ _ label _ => label

end CompiledBlock

/-- What can be tried at an index. -/
inductive Part where
  | call (rule : String)
  /-- The rest of a repetition after `count` matches. -/
  | loop (body : Body) (quantifier : Quantifier) (label : Option String) (count : Nat)
  /-- One iteration, which the repetition may require. -/
  | body (body : Body) (isRequired : Bool)
  | choice (alternatives : List CompiledSequence)
  | sequence (elements : CompiledSequence)

namespace Part

/-- A set under its quantifier. -/
def ofSet (t : Transition) : Part := loop (.test t.toSetTest) t.quantifier t.label 0

/-- A block under its quantifier. -/
def ofBlock : CompiledBlock → Part
  | .set t => ofSet t
  | .branches alternatives quantifier label _ => loop (.alternatives alternatives) quantifier label 0

theorem ofBlock_eq (b : CompiledBlock) : ofBlock b = loop b.body b.quantifier b.label 0 := by
  cases b <;> rfl

/-- A part of an alternative. -/
def ofElement : CompiledElement → Part
  | .set t => ofSet t
  | .call rule => call rule
  | .block b => ofBlock b

end Part

/-- What the rules of a grammar make of an input. A part is tried inside a rule,
    which its labels belong to. -/
inductive Yields (g : CompiledGrammar) (input : Input) : String → Part → Nat → Trial → Prop where
  | call {rule name : String} {called : CompiledRule} {i : Nat} {o : Trial} :
      g.rule? name = some called → Yields g input called.name (.ofBlock called.body) i o →
      Yields g input rule (.call name) i o
  | full {rule : String} {body : Body} {q : Quantifier} {label : Option String} {count i : Nat} :
      q.isReached count → Yields g input rule (.loop body q label count) i (.matched i [] 0)
  | ends {rule : String} {body : Body} {q : Quantifier} {label : Option String}
      {count i reach : Nat} : q.isReached count = false →
      Yields g input rule (.body body (count < q.least)) i (.failed reach) →
      Yields g input rule (.loop body q label count) i (.stay (q.least ≤ count) i reach)
  | stalls {rule : String} {body : Body} {q : Quantifier} {label : Option String}
      {count i reach : Nat} {bindings : List Binding} : q.isReached count = false →
      Yields g input rule (.body body (count < q.least)) i (.matched i bindings reach) →
      Yields g input rule (.loop body q label count) i
        (.matched i (bindings ++ input.labelled rule label i i) reach)
  | advances {rule : String} {body : Body} {q : Quantifier} {label : Option String}
      {count i stop reach : Nat} {bindings : List Binding} {o : Trial} :
      q.isReached count = false →
      Yields g input rule (.body body (count < q.least)) i (.matched stop bindings reach) →
      stop ≠ i → Yields g input rule (.loop body q label (count + 1)) stop o →
      Yields g input rule (.loop body q label count) i
        (o.after (bindings ++ input.labelled rule label i stop) reach)
  | test {rule : String} {t : SetTest} {isRequired : Bool} {i : Nat} :
      Yields g input rule (.body (.test t) isRequired) i (.ofTest (t.admits (input.symbol? i)) i)
  /-- An alternative without a rival that has to match anyway is no decision. -/
  | only {rule : String} {alternative : CompiledSequence} {i : Nat} {o : Trial} :
      Yields g input rule (.sequence alternative) i o →
      Yields g input rule (.body (.alternatives [alternative]) true) i o
  /-- A decision looks at the symbol where it is made. -/
  | decision {rule : String} {alternatives : List CompiledSequence} {isRequired : Bool} {i : Nat}
      {o : Trial} : (isRequired = false ∨ alternatives.length ≠ 1) →
      Yields g input rule (.choice alternatives) i o →
      Yields g input rule (.body (.alternatives alternatives) isRequired) i (o.after [] i)
  | none {rule : String} {i : Nat} : Yields g input rule (.choice []) i (.failed 0)
  | first {rule : String} {alternative : CompiledSequence} {rest : List CompiledSequence}
      {i stop reach : Nat} {bindings : List Binding} :
      Yields g input rule (.sequence alternative) i (.matched stop bindings reach) →
      Yields g input rule (.choice (alternative :: rest)) i (.matched stop bindings reach)
  | later {rule : String} {alternative : CompiledSequence} {rest : List CompiledSequence}
      {i reach : Nat} {o : Trial} :
      Yields g input rule (.sequence alternative) i (.failed reach) →
      Yields g input rule (.choice rest) i o →
      Yields g input rule (.choice (alternative :: rest)) i (o.after [] reach)
  | done {rule : String} {i : Nat} : Yields g input rule (.sequence []) i (.matched i [] 0)
  | stops {rule : String} {element : CompiledElement} {rest : CompiledSequence} {i reach : Nat} :
      Yields g input rule (.ofElement element) i (.failed reach) →
      Yields g input rule (.sequence (element :: rest)) i (.failed reach)
  | goes {rule : String} {element : CompiledElement} {rest : CompiledSequence}
      {i stop reach : Nat} {bindings : List Binding} {o : Trial} :
      Yields g input rule (.ofElement element) i (.matched stop bindings reach) →
      Yields g input rule (.sequence rest) stop o →
      Yields g input rule (.sequence (element :: rest)) i (o.after bindings reach)

namespace Yields

variable {g : CompiledGrammar} {input : Input} {rule : String}

/-- A part has at most one meaning at an index. -/
theorem unique {part : Part} {i : Nat} {o o' : Trial} (one : Yields g input rule part i o)
    (other : Yields g input rule part i o') : o = o' := by
  induction one generalizing o' with
  | call found _ ih =>
    cases other with
    | call found' called' =>
      cases Option.some.inj (found.symm.trans found')
      exact ih called'
  | full reached =>
    cases other with
    | full => rfl
    | ends open' | stalls open' | advances open' => simp [reached] at open'
  | ends opened _ ih =>
    cases other with
    | full reached => simp [opened] at reached
    | ends _ failed => cases ih failed; rfl
    | stalls _ matched | advances _ matched => cases ih matched
  | stalls opened _ ih =>
    cases other with
    | full reached => simp [opened] at reached
    | ends _ failed => cases ih failed
    | stalls _ matched => cases ih matched; rfl
    | advances _ matched moved => cases ih matched; exact absurd rfl moved
  | advances opened _ moved _ ih ihRest =>
    cases other with
    | full reached => simp [opened] at reached
    | ends _ failed => cases ih failed
    | stalls _ matched => cases ih matched; exact absurd rfl moved
    | advances _ matched _ rest => cases ih matched; rw [ihRest rest]
  | test => cases other; rfl
  | only _ ih =>
    cases other with
    | only alone => exact ih alone
    | decision rivals => simp at rivals
  | decision rivals _ ih =>
    cases other with
    | only => simp at rivals
    | decision _ chosen => rw [ih chosen]
  | none => cases other; rfl
  | first _ ih =>
    cases other with
    | first matched => exact ih matched
    | later failed => cases ih failed
  | later _ _ ih ihRest =>
    cases other with
    | first matched => cases ih matched
    | later failed rest => cases ih failed; rw [ihRest rest]
  | done => cases other; rfl
  | stops _ ih =>
    cases other with
    | stops failed => exact ih failed
    | goes matched => cases ih matched
  | goes _ _ ih ihRest =>
    cases other with
    | stops failed => cases ih failed
    | goes matched rest => cases ih matched; rw [ihRest rest]

theorem admitted {t : SetTest} {isRequired : Bool} {i : Nat}
    (admits : t.admits (input.symbol? i) = true) :
    Yields g input rule (.body (.test t) isRequired) i (.matched (i + 1) [] i) := by
  have yields : Yields g input rule (.body (.test t) isRequired) i _ := .test
  rwa [admits] at yields

theorem refused {t : SetTest} {isRequired : Bool} {i : Nat}
    (refuses : t.admits (input.symbol? i) = false) :
    Yields g input rule (.body (.test t) isRequired) i (.failed i) := by
  have yields : Yields g input rule (.body (.test t) isRequired) i _ := .test
  rwa [refuses] at yields

/-- A repetition that has enough matches does not fail. -/
theorem loop_matches {body : Body} {q : Quantifier} {label : Option String} {count i : Nat}
    {o : Trial} (enough : q.least ≤ count) (yields : Yields g input rule (.loop body q label count) i o) :
    ∃ stop bindings reach, o = .matched stop bindings reach := by
  generalize same : Part.loop body q label count = part at yields
  induction yields generalizing count with
  | full | stalls => exact ⟨_, _, _, rfl⟩
  | ends =>
    cases same
    exact ⟨_, _, _, by rw [Trial.stay, if_pos (by simpa using enough)]⟩
  | advances _ _ _ _ _ ihRest =>
    cases same
    obtain ⟨stop, bindings, reach, rfl⟩ := ihRest (Nat.le_succ_of_le enough) rfl
    exact ⟨_, _, _, rfl⟩
  | call | test | only | decision | none | first | later | done | stops | goes => cases same

end Yields

end SetGrammar
