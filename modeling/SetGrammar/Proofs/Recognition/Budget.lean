import SetGrammar.Proofs.Recognition.Steps

/-!
# Runs with enough fuel

A bound on the steps that a computation takes, and on how it may end early if
that many steps are left. Steps add up along a run. What neither repeats nor
calls anything has a bound that depends neither on the input nor on the limits.
-/
namespace SetGrammar

namespace Run

variable {α β : Type} {early : RunError → Prop} {n k : Nat}

/-- With a number of steps left a computation ends early by certain errors at most
    and takes no more than these steps. -/
def EndsWithin (early : RunError → Prop) (steps : Nat) (m : Run α) : Prop :=
  ∀ s, steps ≤ s.fuel →
    match m s with
    | .ok _ s' => s.fuel ≤ s'.fuel + steps
    | .error e _ => early e

/-- The same of a computation from one state on. -/
def EndsFrom (early : RunError → Prop) (steps : Nat) (m : Run α) (s : RunState) : Prop :=
  steps ≤ s.fuel →
    match m s with
    | .ok _ s' => s.fuel ≤ s'.fuel + steps
    | .error e _ => early e

theorem EndsWithin.endsFrom {m : Run α} (ends : EndsWithin early n m) (s : RunState) :
    EndsFrom early n m s := ends s

theorem EndsFrom.mono {m : Run α} {s : RunState} (ends : EndsFrom early n m s) (more : n ≤ k) :
    EndsFrom early k m s := by
  intro enough
  have bound := ends (Nat.le_trans more enough)
  cases run : m s with
  | ok a s' =>
    rw [run] at bound
    exact Nat.le_trans bound (Nat.add_le_add_left more _)
  | error e s' =>
    rw [run] at bound
    exact bound

theorem EndsWithin.mono {m : Run α} (ends : EndsWithin early n m) (more : n ≤ k) :
    EndsWithin early k m := fun s => (ends.endsFrom s).mono more

theorem EndsWithin.ok {m : Run α} (ends : EndsWithin (fun _ => False) n m) {s : RunState}
    (enough : n ≤ s.fuel) : ∃ a s', m s = .ok a s' := by
  have bound := ends s enough
  cases run : m s with
  | ok a s' => exact ⟨a, s', rfl⟩
  | error e s' =>
    rw [run] at bound
    exact bound.elim

theorem EndsWithin.error {m : Run α} (ends : EndsWithin early n m) {s s' : RunState}
    {e : RunError} (enough : n ≤ s.fuel) (run : m s = .error e s') : early e := by
  have bound := ends s enough
  rwa [run] at bound

theorem endsWithin_pure {a : α} : EndsWithin early 0 (pure a) := fun _ _ => Nat.le_refl _

theorem endsFrom_pure {a : α} {s : RunState} : EndsFrom early n (pure a) s :=
  fun _ => Nat.le_add_right _ n

theorem endsWithin_throw {e : RunError} (may : early e) :
    EndsWithin early 0 (throw e : Run α) := fun _ _ => may

/-- The steps of two computations add up. The second one starts where the first one
    ended. -/
theorem endsFrom_bind {m : Run α} {f : α → Run β} {s : RunState} (first : EndsFrom early n m s)
    (next : ∀ a s₁, m s = .ok a s₁ → EndsFrom early k (f a) s₁) :
    EndsFrom early (n + k) (m >>= f) s := by
  intro enough
  have began := first (Nat.le_of_add_right_le enough)
  show match EStateM.bind m f s with
    | .ok _ s' => s.fuel ≤ s'.fuel + (n + k)
    | .error e _ => early e
  cases run : m s with
  | error e s₁ =>
    rw [run] at began
    simp only [EStateM.bind, run]
    exact began
  | ok a s₁ =>
    rw [run] at began
    have left : s.fuel ≤ s₁.fuel + n := began
    have ended := next a s₁ run (by omega)
    simp only [EStateM.bind, run]
    cases rest : f a s₁ with
    | error e s₂ =>
      rw [rest] at ended
      exact ended
    | ok b s₂ =>
      rw [rest] at ended
      have later : s₁.fuel ≤ s₂.fuel + k := ended
      show s.fuel ≤ s₂.fuel + (n + k)
      omega

theorem endsWithin_bind {m : Run α} {f : α → Run β} (first : EndsWithin early n m)
    (next : ∀ a, EndsWithin early k (f a)) : EndsWithin early (n + k) (m >>= f) :=
  fun s => endsFrom_bind (first s) fun a s₁ _ => next a s₁

/-- What takes no step may come before. -/
theorem endsWithin_after {m : Run α} {f : α → Run β} (first : EndsWithin early 0 m)
    (next : ∀ a, EndsWithin early n (f a)) : EndsWithin early n (m >>= f) :=
  (endsWithin_bind first next).mono (Nat.le_of_eq (Nat.zero_add n))

/-- What takes no step may come behind. -/
theorem endsWithin_before {m : Run α} {f : α → Run β} (first : EndsWithin early n m)
    (next : ∀ a, EndsWithin early 0 (f a)) : EndsWithin early n (m >>= f) :=
  endsWithin_bind first next

theorem endsWithin_get : EndsWithin early 0 (get : Run RunState) := fun _ _ => Nat.le_refl _

theorem endsWithin_modify {f : RunState → RunState} (keeps : ∀ s, (f s).fuel = s.fuel) :
    EndsWithin early 0 (modify f : Run Unit) := fun s _ => Nat.le_of_eq (keeps s).symm

theorem endsWithin_emit {e : Event} : EndsWithin early 0 (emit e) := endsWithin_modify fun _ => rfl

theorem endsWithin_report {e : InputError} : EndsWithin early 0 (report e) :=
  endsWithin_modify fun _ => rfl

theorem endsWithin_seek {i : Nat} : EndsWithin early 0 (seek i) := endsWithin_modify fun _ => rfl

theorem endsWithin_takeBindings : EndsWithin early 0 takeBindings := fun _ _ => Nat.le_refl _

theorem endsWithin_look : EndsWithin early 0 look := endsWithin_modify fun _ => rfl

theorem endsWithin_bindLabel {rule label : String} {value : Capture} :
    EndsWithin early 0 (Run.bind rule label value) :=
  endsWithin_after endsWithin_emit fun _ => endsWithin_modify fun _ => rfl

theorem endsWithin_tick {limits : Limits} : EndsWithin early 1 (tick limits) := by
  rintro ⟨index, fuel, furthest, bindings, errors, events⟩ enough
  cases fuel with
  | zero => exact absurd enough (Nat.not_succ_le_zero 0)
  | succ left => exact Nat.le_refl (left + 1)

theorem endsWithin_discard {m : Run α} (inner : EndsWithin early n m) :
    EndsWithin early n (discard m) := by
  have same : discard m = m >>= fun _ => (pure () : Run Unit) := by
    funext s
    show EStateM.map _ m s = EStateM.bind m _ s
    unfold EStateM.map EStateM.bind
    cases m s <;> rfl
  rw [same]
  exact endsWithin_before inner fun _ => endsWithin_pure

theorem endsWithin_ite {p : Prop} [Decidable p] {m m' : Run α} (yes : p → EndsWithin early n m)
    (no : ¬ p → EndsWithin early n m') : EndsWithin early n (if p then m else m') := by
  split
  · exact yes ‹p›
  · exact no ‹¬ p›

theorem endsWithin_attempt {m : Run Bool} (inner : EndsWithin early n m) :
    EndsWithin early n (attempt m) := by
  refine endsWithin_after endsWithin_get fun start => endsWithin_before inner fun matched => ?_
  refine endsWithin_ite (fun _ => ?_) fun _ => endsWithin_pure
  exact endsWithin_after (endsWithin_modify fun _ => rfl) fun _ => endsWithin_pure

end Run

namespace Recognizer

open Run

variable {r : Recognizer} {scope : Scope} {early : RunError → Prop} {n k : Nat}
  {call : Scope → String → Run Bool}

theorem endsWithin_complain {complaint : Complaint} {i : Nat} :
    EndsWithin early 0 (r.complain scope complaint i) :=
  endsWithin_ite (fun _ => endsWithin_report) fun _ => endsWithin_pure

theorem endsWithin_recover {t : Transition} : EndsWithin early 0 (r.recover scope t) := by
  refine endsWithin_after endsWithin_get fun s => endsWithin_ite (fun _ => ?_) fun _ =>
    endsWithin_ite (fun _ => ?_) fun _ => ?_
  · refine endsWithin_after endsWithin_complain fun _ => ?_
    refine endsWithin_after endsWithin_seek fun _ => ?_
    cases r.input.symbol? (s.index + 1) with
    | none => exact endsWithin_pure
    | some symbol => exact endsWithin_after endsWithin_emit fun _ => endsWithin_pure
  · exact endsWithin_after endsWithin_complain fun _ => endsWithin_pure
  · exact endsWithin_after endsWithin_report fun _ => endsWithin_pure

theorem endsWithin_testSymbol {t : Transition} {l : Repetition} :
    EndsWithin early 0 (r.testSymbol scope t l) := by
  refine endsWithin_after endsWithin_look fun _ => endsWithin_after endsWithin_get fun s => ?_
  cases tested : t.test r.input s.index with
  | failed =>
    simp only [tested]
    refine endsWithin_after endsWithin_emit fun _ => ?_
    exact endsWithin_ite (fun _ => endsWithin_recover) fun _ => endsWithin_pure
  | matched | conjured =>
    simp only [tested]
    cases r.input.symbol? s.index with
    | none => exact endsWithin_pure
    | some symbol => exact endsWithin_after endsWithin_emit fun _ => endsWithin_pure

theorem endsWithin_bound {rule : String} {label : Option String} {value : Option Capture} :
    EndsWithin early 0 (do
      if let some label := label then
        if let some value := value then
          Run.bind rule label value) := by
  cases label with
  | none => exact endsWithin_pure
  | some label =>
    cases value with
    | none => exact endsWithin_pure
    | some value => exact endsWithin_bindLabel

theorem endsWithin_accept {t : Transition} {outcome : TestResult} :
    EndsWithin early 0 (accept scope t outcome) := by
  unfold accept
  cases outcome.consumes with
  | false => exact endsWithin_bound
  | true =>
    refine endsWithin_after endsWithin_get fun _ => endsWithin_after endsWithin_seek fun _ => ?_
    exact endsWithin_bound

/-- A set without a quantifier takes one step. -/
theorem endsWithin_set {t : Transition} (once : t.quantifier = .once) :
    EndsWithin early 1 (r.set scope t) := by
  refine endsWithin_after endsWithin_get fun s => ?_
  refine endsWithin_before endsWithin_tick fun _ => ?_
  refine endsWithin_after endsWithin_testSymbol fun outcome => ?_
  refine endsWithin_after endsWithin_accept fun _ => ?_
  rw [once]
  cases outcome.succeeds with
  | true | false => exact endsWithin_pure

theorem endsWithin_decision {isMandatory : Bool} {choice : Run Bool}
    (inner : EndsWithin early n choice) :
    EndsWithin early n (r.decision scope isMandatory choice) := by
  refine endsWithin_after endsWithin_get fun start => ?_
  refine endsWithin_after (endsWithin_modify fun _ => rfl) fun _ => ?_
  refine endsWithin_before inner fun matched => endsWithin_after endsWithin_get fun s => ?_
  refine endsWithin_after (endsWithin_modify fun _ => rfl) fun _ => ?_
  refine endsWithin_ite (fun _ => ?_) fun _ => endsWithin_pure
  exact endsWithin_after endsWithin_complain fun _ => endsWithin_pure

theorem endsWithin_iterate {label : Option String} {iteration : Run Bool}
    (inner : EndsWithin early n iteration) :
    EndsWithin early n (r.iterate scope label iteration) := by
  refine endsWithin_after endsWithin_get fun start => endsWithin_before inner fun matched => ?_
  refine endsWithin_ite (fun _ => endsWithin_pure) fun _ => ?_
  refine endsWithin_after endsWithin_get fun s => ?_
  cases label with
  | none => exact endsWithin_pure
  | some label => exact endsWithin_after endsWithin_bindLabel fun _ => endsWithin_pure

theorem endsWithin_sequence_cons {e : CompiledElement} {rest : CompiledSequence}
    (first : EndsWithin early n (r.element call { scope with follow := rest :: scope.follow } e))
    (others : EndsWithin early k (r.sequence call scope rest)) :
    EndsWithin early (n + k) (r.sequence call scope (e :: rest)) :=
  endsWithin_bind first fun _ => endsWithin_ite (fun _ => others) fun _ =>
    endsWithin_pure.mono (Nat.zero_le k)

theorem endsWithin_sequence {elements : CompiledSequence}
    (parts : ∀ e ∈ elements, ∀ scope, EndsWithin early n (r.element call scope e)) :
    EndsWithin early (elements.length * n) (r.sequence call scope elements) := by
  induction elements with
  | nil => exact endsWithin_pure.mono (Nat.zero_le _)
  | cons e rest ih =>
    rw [List.forall_mem_cons] at parts
    refine (endsWithin_sequence_cons (parts.1 _) (ih parts.2)).mono ?_
    rw [List.length_cons, Nat.succ_mul]
    omega

/-- Trying an alternative takes a step for itself. -/
theorem endsWithin_choice_cons {alternative : CompiledSequence} {rest : List CompiledSequence}
    {number : Nat} (first : EndsWithin early n (r.sequence call scope alternative))
    (others : EndsWithin early k (r.choice call scope (number + 1) rest)) :
    EndsWithin early (n + 1 + k) (r.choice call scope number (alternative :: rest)) := by
  have given {matched : Bool} : EndsWithin early k
      (if matched then pure true else do
        Run.emit .backtrack
        r.choice call scope (number + 1) rest) :=
    endsWithin_ite (fun _ => endsWithin_pure.mono (Nat.zero_le k)) fun _ =>
      endsWithin_after endsWithin_emit fun _ => others
  refine (endsWithin_bind endsWithin_tick fun _ => endsWithin_after endsWithin_emit fun _ =>
    endsWithin_bind (endsWithin_attempt first) fun _ => given).mono ?_
  omega

theorem endsWithin_choice {alternatives : List CompiledSequence} {number : Nat}
    (tried : ∀ a ∈ alternatives, EndsWithin early n (r.sequence call scope a)) :
    EndsWithin early (alternatives.length * (n + 1)) (r.choice call scope number alternatives) := by
  induction alternatives generalizing number with
  | nil => exact endsWithin_pure.mono (Nat.zero_le _)
  | cons alternative rest ih =>
    rw [List.forall_mem_cons] at tried
    refine (endsWithin_choice_cons tried.1 (ih tried.2)).mono ?_
    rw [List.length_cons, Nat.succ_mul]
    omega

/-- Branches without a quantifier are tried once each. -/
theorem endsWithin_branches {alternatives : List CompiledSequence} {label : Option String}
    {reason : BranchReason}
    (tried : ∀ a ∈ alternatives, ∀ scope, EndsWithin early n (r.sequence call scope a)) :
    EndsWithin early (alternatives.length * (n + 1))
      (r.block call scope (.branches alternatives .once label reason)) := by
  have decided : EndsWithin early (alternatives.length * (n + 1)) (r.decision scope true
      (r.choice call { scope with speculative := true } 0 alternatives)) :=
    endsWithin_decision (endsWithin_choice fun a member => tried a member _)
  match alternatives with
  | [] | _ :: _ :: _ =>
    exact endsWithin_before (endsWithin_iterate decided) fun _ => endsWithin_pure
  | [only] =>
    -- An only alternative is matched without trying, which saves a step.
    have alone := endsWithin_attempt (tried only (by simp) scope)
    exact endsWithin_before (endsWithin_iterate (alone.mono (by simp))) fun _ => endsWithin_pure

theorem endsWithin_checkKind {called : CompiledRule}
    (fits : called.kind = r.kind ∨ ∀ name kind, early (.wrongKind name kind)) :
    EndsWithin early 0 (r.checkKind called) := by
  refine endsWithin_ite (fun wrong => ?_) fun _ => endsWithin_pure
  rcases fits with kind | may
  · exact absurd kind wrong
  · exact endsWithin_throw (may _ _)

/-- A call takes a step for itself. -/
theorem endsWithin_rule {depth : Nat} {called : CompiledRule}
    (fits : called.kind = r.kind ∨ ∀ name kind, early (.wrongKind name kind))
    (body : ∀ scope, EndsWithin early n (r.block (r.callAt depth) scope called.body)) :
    EndsWithin early (n + 1) (r.rule (depth + 1) scope called) := by
  refine (endsWithin_after (endsWithin_checkKind fits) fun _ => endsWithin_bind endsWithin_tick
    fun _ => endsWithin_after endsWithin_emit fun _ => endsWithin_bind (endsWithin_attempt (body _))
      fun _ => endsWithin_after endsWithin_emit fun _ => endsWithin_pure).mono ?_
  omega

end Recognizer

end SetGrammar
