import SetGrammar.Recognition.Run

/-!
# One run after another

A second run follows a first one if it does the same whenever the first one goes
well. A view says what is compared of their states, how the first one may end
early and what is known of its events. Each step of a run keeps all of this.
-/
namespace SetGrammar

/-- The error is about a limit, not about misuse. -/
def RunError.isLimit : RunError → Bool
  | outOfFuel _ | tooDeep _ => true
  | unknownRule _ | wrongKind _ _ => false

/-- The event is about the end of a stretch. -/
def Event.isCut : Event → Bool
  | token _ | skip _ _ => true
  | enter _ | exit _ _ | accept _ _ | refuse _ _ | bind _ _ | loopExit _ | branch _
  | backtrack => false

/-- What two runs are compared in. Their index and bindings always are. -/
structure View where
  /-- The furthest index and the logs are the same, too. -/
  whole : Bool
  /-- How the first run may end early. -/
  mayEnd : RunError → Prop
  mayEnd_of_isLimit : ∀ e, e.isLimit = true → mayEnd e
  /-- What the events of the first run about stretches are. -/
  cuts : List Event → Prop

namespace View

/-- States that look the same, where the second one has at least as much fuel. -/
structure Sim (v : View) (s t : RunState) : Prop where
  index : s.index = t.index
  bindings : s.bindings = t.bindings
  fuel : s.fuel ≤ t.fuel
  furthest : v.whole = true → s.furthest = t.furthest
  errors : v.whole = true → s.errors = t.errors
  events : v.whole = true → s.events = t.events
  cuts : v.cuts (s.events.filter Event.isCut)

/-- If the first result is good, then the second one is and looks the same. -/
def Ends {α β : Type} (v : View) (R : α → β → Prop) :
    EStateM.Result RunError RunState α → EStateM.Result RunError RunState β → Prop
  | .ok a s, .ok b t => R a b ∧ v.Sim s t
  | .ok _ _, .error _ _ => False
  | .error e _, _ => v.mayEnd e

/-- The second computation does what the first one does when that goes well. -/
def Follows {α β : Type} (v : View) (R : α → β → Prop) (m : Run α) (n : Run β) : Prop :=
  ∀ ⦃s t⦄, v.Sim s t → v.Ends R (m s) (n t)

variable {α β γ δ : Type} {v : View} {R : α → β → Prop} {Q : γ → δ → Prop}

theorem Follows.ok {m : Run α} {n : Run β} {s t s' : RunState} {a : α} (follows : v.Follows R m n)
    (sim : v.Sim s t) (run : m s = .ok a s') :
    ∃ b t', n t = .ok b t' ∧ R a b ∧ v.Sim s' t' := by
  have ends := follows sim
  rw [run] at ends
  cases run' : n t with
  | ok b t' =>
    rw [run'] at ends
    exact ⟨b, t', rfl, ends⟩
  | error e t' =>
    rw [run'] at ends
    exact ends.elim

theorem Follows.error {m : Run α} {n : Run β} {s t s' : RunState} {e : RunError}
    (follows : v.Follows R m n) (sim : v.Sim s t) (run : m s = .error e s') : v.mayEnd e := by
  have ends := follows sim
  rwa [run] at ends

theorem follows_pure {a : α} {b : β} (related : R a b) : v.Follows R (pure a) (pure b) :=
  fun _ _ sim => ⟨related, sim⟩

theorem follows_throw {e : RunError} {n : Run β} (mayEnd : v.mayEnd e) :
    v.Follows R (throw e) n := fun _ _ _ => mayEnd

theorem follows_bind {m : Run α} {n : Run β} {f : α → Run γ} {k : β → Run δ}
    (first : v.Follows R m n) (next : ∀ a b, R a b → v.Follows Q (f a) (k b)) :
    v.Follows Q (m >>= f) (n >>= k) := by
  intro s t sim
  have ends := first sim
  show v.Ends Q (EStateM.bind m f s) (EStateM.bind n k t)
  unfold EStateM.bind
  cases run : m s with
  | error e s' =>
    rw [run] at ends
    exact ends
  | ok a s' =>
    rw [run] at ends
    cases run' : n t with
    | error e t' =>
      rw [run'] at ends
      exact ends.elim
    | ok b t' =>
      rw [run'] at ends
      exact next a b ends.1 ends.2

theorem follows_discard {m : Run α} {n : Run β} (inner : v.Follows R m n) :
    v.Follows Eq (discard m) (discard n) := by
  intro s t sim
  have ends := inner sim
  show v.Ends Eq (EStateM.map _ m s) (EStateM.map _ n t)
  unfold EStateM.map
  cases run : m s with
  | error e s' =>
    rw [run] at ends
    exact ends
  | ok a s' =>
    rw [run] at ends
    cases run' : n t with
    | error e t' =>
      rw [run'] at ends
      exact ends.elim
    | ok b t' =>
      rw [run'] at ends
      exact ⟨rfl, ends.2⟩

theorem follows_ite {p : Prop} [Decidable p] {m m' : Run α} {n n' : Run β}
    (yes : p → v.Follows R m n) (no : ¬p → v.Follows R m' n') :
    v.Follows R (if p then m else m') (if p then n else n') := by
  split
  · exact yes ‹p›
  · exact no ‹¬p›

theorem follows_get : v.Follows v.Sim (get : Run RunState) get := fun _ _ sim => ⟨sim, sim⟩

theorem follows_modify {f k : RunState → RunState} (keeps : ∀ s t, v.Sim s t → v.Sim (f s) (k t)) :
    v.Follows Eq (modify f : Run Unit) (modify k) := fun s t sim => ⟨rfl, keeps s t sim⟩

theorem follows_emit {e : Event} (inside : e.isCut = false) :
    v.Follows Eq (Run.emit e) (Run.emit e) := by
  refine follows_modify fun s t sim => ?_
  refine { sim with events := fun whole => congrArg (e :: ·) (sim.events whole), cuts := ?_ }
  rw [List.filter_cons_of_neg (by simp [inside])]
  exact sim.cuts

theorem follows_emit_cut {e : Event} (silent : ∀ log, v.cuts log) :
    v.Follows Eq (Run.emit e) (Run.emit e) :=
  follows_modify fun _ _ sim =>
    { sim with events := fun whole => congrArg (e :: ·) (sim.events whole), cuts := silent _ }

theorem follows_report {e : InputError} : v.Follows Eq (Run.report e) (Run.report e) :=
  follows_modify fun _ _ sim =>
    { sim with errors := fun whole => congrArg (e :: ·) (sim.errors whole) }

theorem follows_bindLabel {rule label : String} {value : Capture} :
    v.Follows Eq (Run.bind rule label value) (Run.bind rule label value) := by
  refine follows_bind (follows_emit rfl) fun _ _ _ => ?_
  exact follows_modify fun _ _ sim => { sim with bindings := congrArg (_ :: ·) sim.bindings }

theorem follows_seek {i : Nat} : v.Follows Eq (Run.seek i) (Run.seek i) :=
  follows_modify fun _ _ sim => { sim with index := rfl }

theorem follows_takeBindings : v.Follows Eq Run.takeBindings Run.takeBindings :=
  fun _ _ sim => ⟨congrArg List.reverse sim.bindings, { sim with bindings := rfl }⟩

theorem follows_look : v.Follows Eq Run.look Run.look := by
  refine follows_modify fun s t sim => { sim with furthest := fun whole => ?_ }
  show max s.furthest s.index = max t.furthest t.index
  rw [sim.furthest whole, sim.index]

theorem follows_tick {limits limits' : Limits} :
    v.Follows Eq (Run.tick limits) (Run.tick limits') := by
  refine follows_bind follows_get fun s t sim => ?_
  have enough := sim.fuel
  cases fuel : s.fuel with
  | zero => exact follows_throw (v.mayEnd_of_isLimit _ rfl)
  | succ left =>
    cases fuel' : t.fuel with
    | zero => omega
    | succ left' =>
      refine follows_modify fun _ _ sim => { sim with fuel := ?_ }
      show left ≤ left'
      omega

theorem follows_attempt {m n : Run Bool} (inner : v.Follows Eq m n) :
    v.Follows Eq (Run.attempt m) (Run.attempt n) := by
  refine follows_bind follows_get fun start start' began => ?_
  refine follows_bind inner ?_
  rintro matched _ rfl
  cases matched with
  | true => exact follows_pure rfl
  | false =>
    refine follows_bind (follows_modify fun s t sim => ?_) fun _ _ _ => follows_pure rfl
    exact { sim with index := began.index, bindings := began.bindings }

end View

end SetGrammar
