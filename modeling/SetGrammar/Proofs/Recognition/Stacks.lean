import Mathlib
import SetGrammar.Compilation
import SetGrammar.Proofs.Recognition.Frame

/-!
# Matching with stacks

What surrounds the part at hand can be kept on stacks. A rule is put on them when it
is entered, what is left of a sequence before each of its elements, and a count goes
up while alternatives are tried. A failed attempt cuts the bindings back to as many
as there were. A recognizer that works so does the same as one that hands on what
surrounds a part, and it leaves the stacks as it found them.
-/
namespace SetGrammar

/-- What surrounds the part of a rule that is being matched. -/
structure Stacks where
  /-- How many calls are open. -/
  depth : Nat
  /-- The rules that are open, the innermost first. -/
  rules : List String
  /-- How many choices are being tried. -/
  trying : Nat
  /-- What is left of each sequence that is open, the innermost first. -/
  follow : List CompiledSequence

namespace Stacks

/-- Nothing is open. -/
def empty : Stacks := ⟨0, [], 0, []⟩

/-- What a part of a rule is told about its surroundings. -/
def scope (f : Stacks) : Scope := ⟨f.rules.head?.getD "", 0 < f.trying, f.follow⟩

/-- Enters a rule. -/
def enter (rule : String) (f : Stacks) : Stacks :=
  { f with depth := f.depth + 1, rules := rule :: f.rules }

/-- Leaves the innermost rule. -/
def leave (f : Stacks) : Stacks := { f with depth := f.depth - 1, rules := f.rules.tail }

/-- Begins to try alternatives. -/
def startTrying (f : Stacks) : Stacks := { f with trying := f.trying + 1 }

/-- Ends trying alternatives. -/
def stopTrying (f : Stacks) : Stacks := { f with trying := f.trying - 1 }

/-- Notes what is left of a sequence. -/
def push (rest : CompiledSequence) (f : Stacks) : Stacks := { f with follow := rest :: f.follow }

/-- Forgets what is left of the innermost sequence. -/
def pop (f : Stacks) : Stacks := { f with follow := f.follow.tail }

end Stacks

/-- A computation of a recognizer with stacks. -/
abbrev StackRun := StateT Stacks Run

/-- Where to go back to. -/
structure Checkpoint where
  index : Nat
  /-- How many bindings there are. -/
  bound : Nat

namespace RunState

/-- The state as a place to go back to. -/
def checkpoint (s : RunState) : Checkpoint := ⟨s.index, s.bindings.length⟩

/-- Goes back. Bindings that were made since are cut off. -/
def restore (c : Checkpoint) (s : RunState) : RunState :=
  { s with index := c.index, bindings := s.bindings.drop (s.bindings.length - c.bound) }

theorem restore_checkpoint {s s' : RunState} (later : s.bindings <:+ s'.bindings) :
    s'.restore s.checkpoint = { s' with index := s.index, bindings := s.bindings } := by
  obtain ⟨new, same⟩ := later
  simp [restore, checkpoint, ← same]

end RunState

namespace StackRun

/-- The state of the run. -/
def runState : StackRun RunState := (get : Run RunState)

/-- Changes the state of the run. -/
def modifyRun (f : RunState → RunState) : StackRun Unit := (modify f : Run Unit)

/-- Puts something on the stacks before an action and takes it away after it. -/
def within {α : Type} (put take : Stacks → Stacks) (action : StackRun α) : StackRun α := do
  modify put
  let a ← action
  modify take
  return a

/-- Goes back to where an action began if the action fails. -/
def attempt (action : StackRun Bool) : StackRun Bool := do
  let start := (← runState).checkpoint
  let matched ← action
  if !matched then modifyRun (·.restore start)
  return matched

variable (r : Recognizer)

/-- Matches a set under its quantifier. -/
def set (t : Transition) : StackRun Bool := do r.set (← get).scope t

/-- Tries alternatives, of which one must match if the iteration is mandatory. -/
def decision (isMandatory : Bool) (choice : Checkpoint → StackRun Bool) : StackRun Bool := do
  let start ← runState
  modifyRun fun s => { s with furthest := s.index }
  let matched ← within Stacks.startTrying Stacks.stopTrying (choice start.checkpoint)
  let reached := (← runState).furthest
  modifyRun fun s => { s with furthest := max start.furthest reached }
  if !matched && isMandatory && r.kind = .parser then
    let text := r.input.text start.index (reached + 1)
    let found := if text.isEmpty then endText else Text.escape text
    r.complain (← get).scope (.noViableAlternative found) reached
  return matched

/-- Runs one iteration and binds the label of the block to what it matches. -/
def iterate (label : Option String) (iteration : StackRun Bool) : StackRun Iteration := do
  let start := (← runState).index
  if !(← iteration) then return .failed
  let stop := (← runState).index
  if let some label := label then
    Run.bind (← get).scope.rule label <|
      if stop = start + 1 then r.input.value start else .text (r.input.text start stop)
  return if stop = start then .stalled else .advanced

/-- Runs optional iterations until one fails or stalls. -/
def repeatWhile (iteration : StackRun Iteration) : Nat → StackRun Unit
  | 0 => (throw (.outOfFuel r.limits.fuel) : Run Unit)
  | rounds + 1 => do
    match ← iteration with
    | .failed | .stalled => return ()
    | .advanced => repeatWhile iteration rounds

/-- Runs as many iterations as a quantifier asks for. -/
def repeated (quantifier : Quantifier) (mandatory optional : StackRun Iteration) :
    StackRun Bool := do
  match quantifier with
  | .once => return (← mandatory) != .failed
  | .optional =>
    discard optional
    return true
  | .star =>
    repeatWhile r optional ((← runState).fuel + 1)
    return true
  | .plus =>
    match ← mandatory with
    | .failed => return false
    | .stalled => return true
    | .advanced =>
      repeatWhile r optional ((← runState).fuel + 1)
      return true

mutual

/-- Matches a block. Rules are called through `call`. -/
def block (call : String → StackRun Bool) : CompiledBlock → StackRun Bool
  | .set t => set r t
  | .branches alternatives quantifier label _ =>
    let choice start := choice call start 0 alternatives
    let mandatory := match alternatives with
      | [only] => attempt (sequence call only)
      | _ => decision r true choice
    repeated r quantifier (iterate r label mandatory) (iterate r label (decision r false choice))
termination_by structural x => x

/-- Matches a part of an alternative. -/
def element (call : String → StackRun Bool) : CompiledElement → StackRun Bool
  | .set t => set r t
  | .call rule => call rule
  | .block b => block call b
termination_by structural x => x

/-- Matches elements one after the other. -/
def sequence (call : String → StackRun Bool) : List CompiledElement → StackRun Bool
  | [] => return true
  | e :: rest => do
    if ← within (Stacks.push rest) Stacks.pop (element call e) then sequence call rest
    else return false
termination_by structural x => x

/-- Matches the first of the alternatives that can be matched. Before each the run
    is at the checkpoint. -/
def choice (call : String → StackRun Bool) (start : Checkpoint) (number : Nat) :
    List (List CompiledElement) → StackRun Bool
  | [] => return false
  | alternative :: rest => do
    Run.tick r.limits
    Run.emit (.branch number)
    if ← attempt (sequence call alternative) then return true
    modifyRun (·.restore start)
    Run.emit .backtrack
    choice call start (number + 1) rest
termination_by structural x => x

end

/-- Matches a rule, unless as many calls are open as there may be. No more than
    `calls` are opened. -/
def rule : Nat → CompiledRule → StackRun Bool
  | 0, called => do
    r.checkKind called
    (throw (.tooDeep r.limits.depth) : Run Bool)
  | calls + 1, called => do
    r.checkKind called
    if r.limits.depth ≤ (← get).depth then (throw (.tooDeep r.limits.depth) : Run Bool)
    else
      Run.tick r.limits
      within (Stacks.enter called.name) Stacks.leave do
        Run.emit (.enter called.name)
        let call (name : String) := do
          rule calls (← r.findRule name)
        let matched ← attempt (block r call called.body)
        Run.emit (.exit called.name matched)
        return matched

/-! ## The same without stacks -/

variable {r} {α β : Type} {f : Stacks} {s : RunState}

/-- From a state, a computation does the same as one without stacks, and the stacks are
    then as they were. -/
def MirrorsAt (f : Stacks) (s : RunState) (m : StackRun α) (n : Run α) : Prop :=
  m f s = ((fun a => (a, f)) <$> n) s

/-- A computation does the same from every state. -/
def Mirrors (f : Stacks) (m : StackRun α) (n : Run α) : Prop := ∀ s, MirrorsAt f s m n

theorem mirrors_pure {a : α} : Mirrors f (pure a) (pure a) := fun _ => rfl

theorem mirrorsAt_bind {m : StackRun α} {n : Run α} {k : α → StackRun β} {l : α → Run β}
    (first : MirrorsAt f s m n) (next : ∀ a s', n s = .ok a s' → MirrorsAt f s' (k a) (l a)) :
    MirrorsAt f s (m >>= k) (n >>= l) := by
  have first : m f s = EStateM.map (fun a => (a, f)) n s := first
  show EStateM.bind (m f) (fun p => k p.1 p.2) s = EStateM.map _ (EStateM.bind n l) s
  unfold EStateM.bind
  rw [first]
  unfold EStateM.map
  dsimp only
  cases run : n s with
  | ok a s' => exact next a s' run
  | error => rfl

theorem mirrors_bind {m : StackRun α} {n : Run α} {k : α → StackRun β} {l : α → Run β}
    (first : Mirrors f m n) (next : ∀ a, Mirrors f (k a) (l a)) :
    Mirrors f (m >>= k) (n >>= l) :=
  fun s => mirrorsAt_bind (first s) fun a s' _ => next a s'

theorem mirrors_lift {n : Run α} : Mirrors f (liftM n : StackRun α) n := by
  intro s
  show EStateM.bind n (fun a => pure (a, f)) s = EStateM.map (fun a => (a, f)) n s
  unfold EStateM.bind EStateM.map
  cases n s <;> rfl

theorem mirrors_get {k : Stacks → StackRun β} {n : Run β} (next : Mirrors f (k f) n) :
    Mirrors f (get >>= k) n := next

theorem mirrorsAt_modifyRun {g h : RunState → RunState} (same : g s = h s) :
    MirrorsAt f s (modifyRun g) (modify h) := by
  show EStateM.Result.ok ((), f) (g s) = .ok ((), f) (h s)
  rw [same]

/-- Going back to where a run is changes nothing. -/
theorem mirrorsAt_restore {m : StackRun α} {n : Run α} (next : MirrorsAt f s m n) :
    MirrorsAt f s (do modifyRun (·.restore s.checkpoint); m) n := by
  show m f (s.restore s.checkpoint) = _
  rw [RunState.restore_checkpoint (List.suffix_refl _)]
  exact next

theorem mirrorsAt_ite {p : Prop} [Decidable p] {m m' : StackRun α} {n n' : Run α}
    (yes : p → MirrorsAt f s m n) (no : ¬ p → MirrorsAt f s m' n') :
    MirrorsAt f s (if p then m else m') (if p then n else n') := by
  by_cases holds : p
  · rw [if_pos holds, if_pos holds]
    exact yes holds
  · rw [if_neg holds, if_neg holds]
    exact no holds

theorem mirrors_ite {p : Prop} [Decidable p] {m m' : StackRun α} {n n' : Run α}
    (yes : p → Mirrors f m n) (no : ¬ p → Mirrors f m' n') :
    Mirrors f (if p then m else m') (if p then n else n') :=
  fun s => mirrorsAt_ite (fun holds => yes holds s) fun fails => no fails s

/-- What is put on the stacks for a while is taken away again, since the action leaves
    the stacks as they were. -/
theorem mirrorsAt_within {put take : Stacks → Stacks} (taken : take (put f) = f)
    {m : StackRun α} {n : Run α} (inside : MirrorsAt (put f) s m n) :
    MirrorsAt f s (within put take m) n := by
  have inside : m (put f) s = EStateM.map (fun a => (a, put f)) n s := inside
  show EStateM.bind (m (put f)) (fun p => pure (p.1, take p.2)) s = EStateM.map _ n s
  unfold EStateM.bind
  rw [inside]
  unfold EStateM.map
  cases n s with
  | ok a s' => exact congrArg (fun g => EStateM.Result.ok (a, g) s') taken
  | error => rfl

theorem mirrors_discard {m : StackRun α} {n : Run α} (inside : Mirrors f m n) :
    Mirrors f (discard m) (discard n) := by
  have same : discard n = n >>= fun _ => pure () := (bind_pure_comp _ n).symm
  show Mirrors f (m >>= fun _ => pure ()) _
  rw [same]
  exact mirrors_bind inside fun _ => mirrors_pure

/-- Bindings are only added, so that cutting off the latest takes an attempt back to
    where it began. -/
theorem mirrors_attempt {m : StackRun Bool} {n : Run Bool} {speculative : Bool}
    (later : n.Extends speculative) (inside : Mirrors f m n) :
    Mirrors f (attempt m) (Run.attempt n) := by
  intro s
  refine mirrorsAt_bind (mirrors_lift s) ?_
  rintro start s ⟨⟩
  refine mirrorsAt_bind (inside s) fun matched s₁ run => mirrorsAt_ite (fun _ => ?_) fun _ => ?_
  · exact mirrorsAt_bind
      (mirrorsAt_modifyRun (RunState.restore_checkpoint (later run).bindings))
      fun _ s' _ => mirrors_pure s'
  · exact mirrors_pure s₁

theorem mirrors_set (t : Transition) : Mirrors f (set r t) (r.set f.scope t) :=
  mirrors_get mirrors_lift

/-- Alternatives are tried from the place at which the decision begins. -/
theorem mirrors_decision {isMandatory : Bool} {m : Checkpoint → StackRun Bool} {n : Run Bool}
    (inside : ∀ s : RunState, MirrorsAt f.startTrying s (m s.checkpoint) n) :
    Mirrors f (decision r isMandatory m) (r.decision f.scope isMandatory n) := by
  intro s
  refine mirrorsAt_bind (mirrors_lift s) ?_
  rintro start s ⟨⟩
  refine mirrorsAt_bind (mirrorsAt_modifyRun rfl) ?_
  rintro ⟨⟩ s₁ ⟨⟩
  refine mirrorsAt_bind (mirrorsAt_within rfl (inside { s with furthest := s.index })) ?_
  refine fun matched s₁ _ => mirrors_bind mirrors_lift (fun reached => ?_) s₁
  refine mirrors_bind mirrors_lift fun _ => mirrors_ite (fun _ => ?_) fun _ => mirrors_pure
  exact mirrors_get (mirrors_bind mirrors_lift fun _ => mirrors_pure)

theorem mirrors_iterate {label : Option String} {m : StackRun Bool} {n : Run Bool}
    (inside : Mirrors f m n) : Mirrors f (iterate r label m) (r.iterate f.scope label n) := by
  refine mirrors_bind mirrors_lift fun start => mirrors_bind inside fun matched => ?_
  refine mirrors_ite (fun _ => mirrors_pure) fun _ => mirrors_bind mirrors_lift fun stop => ?_
  cases label with
  | none => exact mirrors_pure
  | some label => exact mirrors_get (mirrors_bind mirrors_lift fun _ => mirrors_pure)

theorem mirrors_repeatWhile {m : StackRun Iteration} {n : Run Iteration} (inside : Mirrors f m n)
    (rounds : Nat) : Mirrors f (repeatWhile r m rounds) (r.repeatWhile n rounds) := by
  induction rounds with
  | zero => exact mirrors_lift
  | succ rounds ih =>
    refine mirrors_bind inside fun outcome => ?_
    cases outcome with
    | failed | stalled => exact mirrors_pure
    | advanced => exact ih

theorem mirrors_repeated {q : Quantifier} {m m' : StackRun Iteration} {n n' : Run Iteration}
    (required : Mirrors f m n) (allowed : Mirrors f m' n') :
    Mirrors f (repeated r q m m') (r.repeated q n n') := by
  have rest : Mirrors f (do repeatWhile r m' ((← runState).fuel + 1); return true)
      (do r.repeatWhile n' ((← get).fuel + 1); return true) :=
    mirrors_bind mirrors_lift fun _ =>
      mirrors_bind (mirrors_repeatWhile allowed _) fun _ => mirrors_pure
  cases q with
  | once => exact mirrors_bind required fun _ => mirrors_pure
  | optional => exact mirrors_bind (mirrors_discard allowed) fun _ => mirrors_pure
  | star => exact rest
  | plus =>
    refine mirrors_bind required fun outcome => ?_
    cases outcome with
    | failed | stalled => exact mirrors_pure
    | advanced => exact rest

theorem mirrors_iterations {q : Quantifier} {label : Option String} {m : StackRun Bool}
    {n choice' : Run Bool} {choice : Checkpoint → StackRun Bool} (required : Mirrors f m n)
    (tried : ∀ s : RunState, MirrorsAt f.startTrying s (choice s.checkpoint) choice') :
    Mirrors f
      (repeated r q (iterate r label m) (iterate r label (decision r false choice)))
      (r.repeated q (r.iterate f.scope label n)
        (r.iterate f.scope label (r.decision f.scope false choice'))) :=
  mirrors_repeated (mirrors_iterate required) (mirrors_iterate (mirrors_decision tried))

/-! ## Bodies of rules -/

section Bodies

variable {call : String → StackRun Bool} {call' : Scope → String → Run Bool} {depth : Nat}

/-- After an alternative that fails the run is at the checkpoint already. -/
theorem mirrors_choice_cons {number : Nat} {alternative : CompiledSequence}
    {rest : List CompiledSequence}
    (later : (r.sequence call' f.scope alternative).Extends true)
    (first : Mirrors f (sequence r call alternative) (r.sequence call' f.scope alternative))
    (others : ∀ s : RunState, MirrorsAt f s (choice r call s.checkpoint (number + 1) rest)
      (r.choice call' f.scope (number + 1) rest)) (s : RunState) :
    MirrorsAt f s (choice r call s.checkpoint number (alternative :: rest))
      (r.choice call' f.scope number (alternative :: rest)) := by
  refine mirrorsAt_bind (mirrors_lift s) fun u s₁ ticked => ?_
  obtain ⟨left, -, rfl⟩ := Run.tick_eq_ok.1 ticked
  refine mirrorsAt_bind (mirrors_lift _) ?_
  rintro ⟨⟩ s₁ ⟨⟩
  refine mirrorsAt_bind (mirrors_attempt later first _) fun matched s₂ run => ?_
  refine mirrorsAt_ite (fun _ => mirrors_pure _) fun fails => ?_
  have failed : matched = false := by simpa using fails
  rw [failed] at run
  have undone := (Run.framed_attempt later).undone run
  have here : s.checkpoint = s₂.checkpoint := by
    rw [RunState.checkpoint, RunState.checkpoint, undone.1, undone.2]
  rw [here]
  refine mirrorsAt_restore (mirrorsAt_bind (mirrors_lift s₂) ?_)
  rintro ⟨⟩ s₃ ⟨⟩
  exact others { s₂ with events := .backtrack :: s₂.events }

mutual

/-- A block matches as without stacks if its calls do. -/
theorem mirrors_block
    (framed : ∀ scope name, (call' scope name).Framed scope.speculative false)
    (calls : ∀ f name, f.depth = depth → Mirrors f (call name) (call' f.scope name))
    (f : Stacks) (here : f.depth = depth) : (b : CompiledBlock) →
    Mirrors f (block r call b) (r.block call' f.scope b)
  | .set t => mirrors_set t
  | .branches [] _ _ _ =>
    have tried := mirrors_choice framed calls f.startTrying here rfl 0 []
    mirrors_iterations (mirrors_decision tried) tried
  | .branches [only] _ _ _ =>
    mirrors_iterations
      (mirrors_attempt (Recognizer.extends_sequence framed f.scope only)
        (mirrors_sequence framed calls f here only))
      (mirrors_choice framed calls f.startTrying here rfl 0 [only])
  | .branches (first :: second :: rest) _ _ _ =>
    have tried := mirrors_choice framed calls f.startTrying here rfl 0 (first :: second :: rest)
    mirrors_iterations (mirrors_decision tried) tried

theorem mirrors_element
    (framed : ∀ scope name, (call' scope name).Framed scope.speculative false)
    (calls : ∀ f name, f.depth = depth → Mirrors f (call name) (call' f.scope name))
    (f : Stacks) (here : f.depth = depth) : (e : CompiledElement) →
    Mirrors f (element r call e) (r.element call' f.scope e)
  | .set t => mirrors_set t
  | .call name => calls f name here
  | .block b => mirrors_block framed calls f here b

theorem mirrors_sequence
    (framed : ∀ scope name, (call' scope name).Framed scope.speculative false)
    (calls : ∀ f name, f.depth = depth → Mirrors f (call name) (call' f.scope name))
    (f : Stacks) (here : f.depth = depth) : (elements : CompiledSequence) →
    Mirrors f (sequence r call elements) (r.sequence call' f.scope elements)
  | [] => mirrors_pure
  | e :: rest =>
    mirrors_bind
      (fun s => mirrorsAt_within rfl (mirrors_element framed calls (f.push rest) here e s))
      fun _ => mirrors_ite (fun _ => mirrors_sequence framed calls f here rest)
        fun _ => mirrors_pure

theorem mirrors_choice
    (framed : ∀ scope name, (call' scope name).Framed scope.speculative false)
    (calls : ∀ f name, f.depth = depth → Mirrors f (call name) (call' f.scope name))
    (f : Stacks) (here : f.depth = depth) (trying : f.scope.speculative = true) :
    (number : Nat) → (alternatives : List CompiledSequence) → (s : RunState) →
    MirrorsAt f s (choice r call s.checkpoint number alternatives)
      (r.choice call' f.scope number alternatives)
  | _, [] => fun _ => rfl
  | number, alternative :: rest =>
    mirrors_choice_cons (trying ▸ Recognizer.extends_sequence framed f.scope alternative)
      (mirrors_sequence framed calls f here alternative)
      (mirrors_choice framed calls f here trying (number + 1) rest)

end

end Bodies

/-! ## Rules -/

/-- How many calls may be opened on top of the stacks. -/
def callsLeft (r : Recognizer) (calls : Nat) (f : Stacks) : Nat :=
  min calls (r.limits.depth - f.depth)

theorem callsLeft_congr {calls : Nat} {f g : Stacks} (depth : f.depth = g.depth) :
    callsLeft r calls f = callsLeft r calls g := by
  rw [callsLeft, callsLeft, depth]

theorem callsLeft_of_full {calls : Nat} (full : r.limits.depth ≤ f.depth) :
    callsLeft r calls f = 0 := by
  rw [callsLeft, Nat.sub_eq_zero_of_le full, Nat.min_zero]

theorem callsLeft_enter {calls : Nat} (room : ¬ r.limits.depth ≤ f.depth) (rule : String) :
    callsLeft r (calls + 1) f = callsLeft r calls (f.enter rule) + 1 := by
  simp only [callsLeft, Stacks.enter]
  omega

/-- A rule matches as without stacks. The calls that are open count towards the limit. -/
theorem mirrors_rule (calls : Nat) (f : Stacks) (called : CompiledRule) :
    Mirrors f (rule r calls called) (r.rule (callsLeft r calls f) f.scope called) := by
  induction calls generalizing f called with
  | zero =>
    rw [callsLeft, Nat.zero_min]
    exact mirrors_bind mirrors_lift fun _ => mirrors_lift
  | succ calls ih =>
    by_cases full : r.limits.depth ≤ f.depth
    · rw [callsLeft_of_full full]
      refine mirrors_bind mirrors_lift fun _ => mirrors_get ?_
      rw [if_pos full]
      exact mirrors_lift
    · let entered := f.enter called.name
      have framed := Recognizer.framed_callAt
        (Recognizer.framed_rule (r := r) (callsLeft r calls entered))
      have calledBy : ∀ g name, g.depth = entered.depth →
          Mirrors g (do rule r calls (← r.findRule name))
            (r.callAt (callsLeft r calls entered) g.scope name) := fun g name depth =>
        mirrors_bind mirrors_lift fun target => callsLeft_congr depth ▸ ih g target
      have body := mirrors_block (r := r) framed calledBy entered rfl called.body
      have attempted := mirrors_attempt
        (Recognizer.framed_block framed entered.scope called.body).later body
      rw [callsLeft_enter full called.name]
      refine mirrors_bind mirrors_lift fun _ => mirrors_get ?_
      rw [if_neg full]
      refine mirrors_bind mirrors_lift fun _ s => mirrorsAt_within rfl ?_
      refine mirrors_bind mirrors_lift (fun _ => ?_) s
      exact mirrors_bind attempted fun _ => mirrors_bind mirrors_lift fun _ => mirrors_pure

/-- Calls a rule by name. -/
def call (r : Recognizer) (calls : Nat) (name : String) : StackRun Bool := do
  rule r calls (← r.findRule name)

theorem mirrors_call {calls : Nat} (f : Stacks) (name : String) :
    Mirrors f (call r calls name) (r.callAt (callsLeft r calls f) f.scope name) :=
  mirrors_bind mirrors_lift fun called => mirrors_rule calls f called

/-- With nothing open a rule matches as a recognizer starts it. -/
theorem mirrors_start (called : CompiledRule) :
    Mirrors .empty (rule r r.limits.depth called) (r.start called) := by
  have all : callsLeft r r.limits.depth .empty = r.limits.depth := Nat.min_self _
  have started := mirrors_rule (r := r) r.limits.depth .empty called
  rwa [all] at started

/-! ## What a match leaves as it was -/

/-- Stacks and a state at the end of a match, and what of those before it they keep. The
    latest bindings come first, so that only those in front may be new. -/
structure Restored (f : Stacks) (s : RunState) (matched : Bool) (f' : Stacks) (s' : RunState) :
    Prop where
  surroundings : f' = f
  bindings : s.bindings <:+ s'.bindings
  furthest : s.furthest ≤ s'.furthest
  undone : matched = false → s'.index = s.index ∧ s'.bindings = s.bindings
  errors : 0 < f.trying → s'.errors = s.errors

/-- A match with stacks does the same as one without, and restores what it should. -/
structure Restores (f : Stacks) (m : StackRun Bool) (n : Run Bool) : Prop where
  mirrors : Mirrors f m n
  restored {s s' : RunState} {matched : Bool} {f' : Stacks} :
    m f s = .ok (matched, f') s' → Restored f s matched f' s'

/-- What a match without stacks keeps, it keeps with stacks. -/
theorem Mirrors.restores {m : StackRun Bool} {n : Run Bool} (mirrors : Mirrors f m n)
    (framed : n.Framed f.scope.speculative false) : Restores f m n := by
  refine ⟨mirrors, fun {s s' matched f'} run => ?_⟩
  have same : m f s = EStateM.map (fun a => (a, f)) n s := mirrors s
  rw [run, EStateM.map] at same
  cases ran : n s with
  | error =>
    rw [ran] at same
    cases same
  | ok a s₁ =>
    rw [ran] at same
    cases same
    have later := framed.later ran
    refine ⟨rfl, later.bindings, later.furthest, ?_, fun trying => ?_⟩
    · rintro rfl
      exact framed.undone ran
    · exact later.errors (decide_eq_true trying)

/-- A recognizer with stacks matches as one without them, on the whole and in every part.
    Whatever it matches, from any state, and also where recovery skipped symbols or took
    some as present: the stacks are then as they were, earlier bindings are kept and the
    furthest index does not go back. If the match fails, the index and the bindings are as
    they were, and while alternatives are being tried nothing is reported. -/
theorem matches_restored (r : Recognizer) :
    (∀ called, Restores .empty (rule r r.limits.depth called) (r.start called)) ∧
    ∀ calls f,
      let left := callsLeft r calls f
      (∀ called, Restores f (rule r calls called) (r.rule left f.scope called)) ∧
      (∀ b, Restores f (block r (call r calls) b) (r.block (r.callAt left) f.scope b)) ∧
      (∀ e, Restores f (element r (call r calls) e) (r.element (r.callAt left) f.scope e)) ∧
      (∀ alternative, Restores f (attempt (sequence r (call r calls) alternative))
        (Run.attempt (r.sequence (r.callAt left) f.scope alternative))) ∧
      (∀ isMandatory alternatives,
        Restores f
          (decision r isMandatory fun start => choice r (call r calls) start 0 alternatives)
          (r.decision f.scope isMandatory
            (r.choice (r.callAt left) { f.scope with speculative := true } 0 alternatives))) ∧
      ∀ t, Restores f (set r t) (r.set f.scope t) := by
  refine ⟨fun called => (mirrors_start called).restores (Recognizer.framed_rule _ _ called),
    fun calls f => ?_⟩
  intro left
  have framed : ∀ scope name, (r.callAt left scope name).Framed scope.speculative false :=
    Recognizer.framed_callAt (Recognizer.framed_rule left)
  have mirrored : ∀ g name, g.depth = f.depth →
      Mirrors g (call r calls name) (r.callAt left g.scope name) := by
    intro g name depth
    have same : callsLeft r calls g = left := callsLeft_congr depth
    exact same ▸ mirrors_call g name
  refine ⟨fun called => ?_, fun b => ?_, fun e => ?_, fun alternative => ?_,
    fun isMandatory alternatives => ?_, fun t => ?_⟩
  · exact (mirrors_rule calls f called).restores (Recognizer.framed_rule _ _ called)
  · exact (mirrors_block framed mirrored f rfl b).restores (Recognizer.framed_block framed _ b)
  · exact (mirrors_element framed mirrored f rfl e).restores (Recognizer.framed_element framed _ e)
  · have later := Recognizer.extends_sequence (r := r) framed f.scope alternative
    exact (mirrors_attempt later (mirrors_sequence framed mirrored f rfl alternative)).restores
      (Run.framed_attempt later)
  · have tried := mirrors_choice (r := r) framed mirrored f.startTrying rfl rfl 0 alternatives
    exact (mirrors_decision tried).restores
      (Recognizer.framed_decision (Recognizer.framed_choice framed _ rfl 0 alternatives))
  · exact (mirrors_set t).restores Recognizer.framed_set

/-- The parser rule `p : x=A B` and its two tokens. -/
def labelledPair : CompiledGrammar :=
  let body : Block :=
    ⟨{}, [.sequence [.block { label := some "x" } [.reference "A"], .reference "B"]]⟩
  let (_, g) := (Grammar.empty "LabelledPair").addToken "A" ⟨{}, [.char 'a']⟩
  let (_, g) := g.addToken "B" ⟨{}, [.char 'b']⟩
  ((g.addParserRule "p" body).compile {}).value

/-- A token is skipped and the next is bound, before the rule fails at the third. It goes
    back all the same, and only the two errors remain. -/
theorem matches_restored_skipped :
    let tokens : List Token := [⟨2, "b", ⟨1, 0⟩, 0, 1, []⟩, ⟨1, "a", ⟨1, 1⟩, 1, 2, []⟩,
      ⟨1, "a", ⟨1, 2⟩, 2, 3, []⟩]
    let r : Recognizer := ⟨labelledPair, .parser, .tokens (.ofList tokens), {}⟩
    let f : Stacks := ⟨1, ["q"], 0, [[.call "p"]]⟩
    ∃ called s', labelledPair.rule? "p" = some called ∧
      rule r 1 called f (.initial {}) = .ok (false, f) s' ∧ s'.errors.length = 2 ∧
      s'.index = 0 ∧ s'.bindings = [] := by
  intro tokens r f
  have ran : ∃ called f' s', labelledPair.rule? "p" = some called ∧
      rule r 1 called f (.initial {}) = .ok (false, f') s' ∧ s'.errors.length = 2 :=
    ⟨_, _, _, rfl, by cbv, by cbv⟩
  obtain ⟨called, f', s', found, run, errors⟩ := ran
  have restored := (((matches_restored r).2 1 f).1 called).restored run
  obtain ⟨index, bindings⟩ := restored.undone rfl
  exact ⟨called, s', found, restored.surroundings ▸ run, errors, index, bindings⟩

end StackRun

end SetGrammar
