import SetGrammar.Proofs.Recognition.Adequacy
import SetGrammar.Tokenization

/-!
# Runs side by side

Two runs agree if they end with related results in states that show the same,
whenever both end well. Fuel and events play no part. Two tokenizations agree if
the rules that they try agree one by one.
-/
namespace SetGrammar

/-- States that show the same: the index, the furthest index, the bindings and
    the errors. -/
structure RunState.Same (s t : RunState) : Prop where
  index : s.index = t.index
  furthest : s.furthest = t.furthest
  bindings : s.bindings = t.bindings
  errors : s.errors = t.errors

/-- Computations that agree from states that show the same. -/
def Run.Agree {α β : Type} (R : α → β → Prop) (m : Run α) (n : Run β) : Prop :=
  ∀ ⦃s t a s' b t'⦄, s.Same t → m s = .ok a s' → n t = .ok b t' → R a b ∧ s'.Same t'

namespace Run

variable {α β γ δ : Type} {R : α → β → Prop} {Q : γ → δ → Prop}

theorem agree_pure {a : α} {b : β} (related : R a b) : Agree R (pure a) (pure b) := by
  intro s t a' s' b' t' same run run'
  obtain ⟨rfl, rfl⟩ := pure_eq_ok.1 run
  obtain ⟨rfl, rfl⟩ := pure_eq_ok.1 run'
  exact ⟨related, same⟩

theorem agree_bind {m : Run α} {n : Run β} {f : α → Run γ} {k : β → Run δ} (first : Agree R m n)
    (next : ∀ a b, R a b → Agree Q (f a) (k b)) : Agree Q (m >>= f) (n >>= k) := by
  intro s t c s' d t' same run run'
  obtain ⟨a, s₁, began, ended⟩ := bind_eq_ok.1 run
  obtain ⟨b, t₁, began', ended'⟩ := bind_eq_ok.1 run'
  obtain ⟨related, same'⟩ := first same began began'
  exact next a b related same' ended ended'

theorem agree_get : Agree RunState.Same (get : Run RunState) get := by
  intro s t a s' b t' same run run'
  cases run
  cases run'
  exact ⟨same, same⟩

theorem agree_modify {f k : RunState → RunState} (keeps : ∀ s t, s.Same t → (f s).Same (k t)) :
    Agree Eq (modify f : Run Unit) (modify k) := by
  intro s t a s' b t' same run run'
  cases run
  cases run'
  exact ⟨rfl, keeps s t same⟩

theorem agree_emit {e e' : Event} : Agree Eq (emit e) (emit e') :=
  agree_modify fun _ _ same => ⟨same.index, same.furthest, same.bindings, same.errors⟩

theorem agree_seek {i : Nat} : Agree Eq (seek i) (seek i) :=
  agree_modify fun _ _ same => ⟨rfl, same.furthest, same.bindings, same.errors⟩

theorem agree_takeBindings : Agree Eq takeBindings takeBindings := by
  intro s t a s' b t' same run run'
  cases run
  cases run'
  exact ⟨congrArg List.reverse same.bindings, same.index, same.furthest, rfl, same.errors⟩

theorem agree_report {e : InputError} : Agree Eq (report e) (report e) :=
  agree_modify fun _ _ same =>
    ⟨same.index, same.furthest, same.bindings, congrArg (e :: ·) same.errors⟩

end Run

/-- Runs that show one trial from states that show the same end alike. -/
theorem Trial.Shown.same {o : Trial} {s s' t t' : RunState} {matched matched' : Bool}
    (shown : o.Shown s matched s') (shown' : o.Shown t matched' t') (same : s.Same t) :
    matched = matched' ∧ s'.Same t' := by
  have errors : s'.errors = t'.errors := by rw [shown.1, shown'.1, same.errors]
  have furthest : s'.furthest = t'.furthest := by rw [shown.2.1, shown'.2.1, same.furthest]
  cases o with
  | failed =>
    obtain ⟨rfl, index, bindings⟩ := Trial.shown_of_failed shown
    obtain ⟨rfl, index', bindings'⟩ := Trial.shown_of_failed shown'
    refine ⟨rfl, ?_, furthest, ?_, errors⟩
    · rw [index, index', same.index]
    · rw [bindings, bindings', same.bindings]
  | matched =>
    obtain ⟨rfl, index, bindings⟩ := Trial.shown_of_matched shown
    obtain ⟨rfl, index', bindings'⟩ := Trial.shown_of_matched shown'
    refine ⟨rfl, ?_, furthest, ?_, errors⟩
    · rw [index, index']
    · rw [bindings, bindings', same.bindings]

/-- What a stretch takes from a candidate. -/
def Candidate.parts (c : Candidate) :
    String × Option Nat × Option LexerCommand × Nat × List Binding :=
  (c.rule.name, c.rule.tokenType, c.rule.command, c.stop, c.bindings)

/-- Candidates that give the same stretch, if there are any. -/
def SameParts (c c' : Option Candidate) : Prop := c.map Candidate.parts = c'.map Candidate.parts

namespace Recognizer

variable {r r' : Recognizer}

/-- Rules with the same name, token type and command that agree when they are
    tried at any index. -/
structure RulesAgree (r r' : Recognizer) (rule rule' : CompiledRule) : Prop where
  name : rule.name = rule'.name
  tokenType : rule.tokenType = rule'.tokenType
  command : rule.command = rule'.command
  start : Run.Agree Eq (r.start rule) (r'.start rule')

theorem candidate_agree {rule rule' : CompiledRule} (agree : RulesAgree r r' rule rule')
    (start : Nat) :
    Run.Agree SameParts (r.candidate? start rule) (r'.candidate? start rule') := by
  refine Run.agree_bind Run.agree_seek fun _ _ _ => Run.agree_bind agree.start ?_
  rintro matched _ rfl
  cases matched with
  | false => exact Run.agree_pure rfl
  | true =>
    refine Run.agree_bind Run.agree_get fun s t same => ?_
    refine Run.agree_bind Run.agree_takeBindings ?_
    rintro bindings _ rfl
    refine Run.agree_pure ?_
    rw [SameParts, same.index]
    split
    · simp [Candidate.parts, agree.name, agree.tokenType, agree.command]
    · rfl

theorem stop_of_parts {a b : Candidate} (same : a.parts = b.parts) : a.stop = b.stop :=
  congrArg (·.2.2.2.1) same

theorem longer_same {a a' b b' : Option Candidate} (first : SameParts a a')
    (second : SameParts b b') : SameParts (longer a b) (longer a' b') := by
  cases a with
  | none =>
    cases a' with
    | none => exact second
    | some => cases first
  | some a =>
    cases a' with
    | none => cases first
    | some a' =>
      cases b with
      | none =>
        cases b' with
        | none => exact first
        | some => cases second
      | some b =>
        cases b' with
        | none => cases second
        | some b' =>
          have stop := stop_of_parts (Option.some.inj first)
          have stop' := stop_of_parts (Option.some.inj second)
          simp only [longer, stop, stop']
          split
          · exact second
          · exact first

variable {source : Type} {rule rule' : source → CompiledRule}

theorem bestCandidate_agree {rules : List source}
    (agree : ∀ x ∈ rules, RulesAgree r r' (rule x) (rule' x)) (start : Nat)
    {best best' : Option Candidate} (same : SameParts best best') :
    Run.Agree SameParts (r.bestCandidate start best (rules.map rule))
      (r'.bestCandidate start best' (rules.map rule')) := by
  induction rules generalizing best best' with
  | nil => exact Run.agree_pure same
  | cons x rest ih =>
    rw [List.forall_mem_cons] at agree
    exact Run.agree_bind (candidate_agree agree.1 start) fun c c' same' =>
      ih agree.2 (longer_same same same')

theorem stretchOf_same (input : r.input = r'.input) {c c' : Candidate} (same : c.parts = c'.parts)
    (start : Nat) (position : Position) :
    r.stretchOf start position c = r'.stretchOf start position c' := by
  simp only [Candidate.parts, Prod.mk.injEq] at same
  obtain ⟨name, tokenType, command, stop, bindings⟩ := same
  unfold stretchOf
  rw [input, name, tokenType, command, stop, bindings]

theorem emitStretch_agree (found : Stretch) :
    Run.Agree Eq (emitStretch found) (emitStretch found) := by
  cases found with
  | token | skipped => exact Run.agree_emit
  | unrecognized => exact Run.agree_pure rfl

theorem stretch_agree (input : r.input = r'.input) {rules : List source}
    (agree : ∀ x ∈ rules, RulesAgree r r' (rule x) (rule' x)) (start : Nat) (position : Position) :
    Run.Agree Eq (r.stretch (rules.map rule) start position)
      (r'.stretch (rules.map rule') start position) := by
  unfold stretch
  refine Run.agree_bind (Run.agree_modify fun s t same => ?_) fun _ _ _ => ?_
  · exact ⟨same.index, rfl, same.bindings, same.errors⟩
  refine Run.agree_bind (bestCandidate_agree agree start rfl) fun c c' same => ?_
  cases c with
  | none =>
    cases c' with
    | some => cases same
    | none =>
      refine Run.agree_bind Run.agree_get fun s t same => ?_
      rw [input, same.furthest]
      refine Run.agree_bind Run.agree_report fun _ _ _ => ?_
      exact Run.agree_bind Run.agree_seek fun _ _ _ => Run.agree_pure rfl
  | some c =>
    cases c' with
    | none => cases same
    | some c' =>
      have same : c.parts = c'.parts := Option.some.inj same
      simp only [stretchOf_same input same, stop_of_parts same]
      refine Run.agree_bind (emitStretch_agree _) fun _ _ _ => ?_
      exact Run.agree_bind Run.agree_seek fun _ _ _ => Run.agree_pure rfl

theorem stretches_agree (input : r.input = r'.input) {rules : List source}
    (agree : ∀ x ∈ rules, RulesAgree r r' (rule x) (rule' x)) (characters : Nat)
    (position : Position) (found : List Stretch) :
    Run.Agree Eq (r.stretches (rules.map rule) characters position found)
      (r'.stretches (rules.map rule') characters position found) := by
  induction characters generalizing position found with
  | zero => exact Run.agree_pure rfl
  | succ characters ih =>
    refine Run.agree_bind Run.agree_get fun s t same => ?_
    by_cases more : t.index < r'.input.endIndex
    · simp only [input, same.index, more, if_true]
      refine Run.agree_bind (stretch_agree input agree t.index position) ?_
      rintro next _ rfl
      refine Run.agree_bind Run.agree_get fun s' t' same' => ?_
      rw [same'.index]
      exact ih _ _
    · simp only [input, same.index, more, if_false]
      exact Run.agree_pure rfl

/-- Tokenizations agree if the rules that they try do. -/
theorem tokens_agree (input : r.input = r'.input) {rules : List source}
    (tried : r.grammar.tokenRules = rules.map rule)
    (tried' : r'.grammar.tokenRules = rules.map rule')
    (agree : ∀ x ∈ rules, RulesAgree r r' (rule x) (rule' x)) :
    Run.Agree Eq r.tokens r'.tokens := by
  unfold tokens
  rw [tried, tried', input]
  refine Run.agree_bind (stretches_agree input agree _ _ _) ?_
  rintro ⟨found, position⟩ _ rfl
  exact Run.agree_bind Run.agree_emit fun _ _ _ => Run.agree_pure rfl

end Recognizer

theorem tokenize_ok {g : CompiledGrammar} {limits : Limits} {text : String} {tokens : List Token}
    (made : (g.tokenize limits text).result = .ok tokens) :
    ∃ s, Recognizer.tokens ⟨g, .lexer, .ofText text, limits⟩ (.initial limits) = .ok tokens s ∧
      (g.tokenize limits text).errors = s.errors.reverse := by
  cases run : Recognizer.tokens ⟨g, .lexer, .ofText text, limits⟩ (.initial limits) with
  | ok found s =>
    simp only [CompiledGrammar.tokenize, EStateM.run, run, Except.ok.injEq] at made ⊢
    exact ⟨s, by rw [made], rfl⟩
  | error => simp [CompiledGrammar.tokenize, EStateM.run, run] at made

theorem tokenize_eq {g : CompiledGrammar} {limits : Limits} {text : String} {tokens : List Token}
    {s : RunState}
    (run : Recognizer.tokens ⟨g, .lexer, .ofText text, limits⟩ (.initial limits) = .ok tokens s) :
    g.tokenize limits text = ⟨.ok tokens, s.errors.reverse, s.events.reverse⟩ := by
  simp only [CompiledGrammar.tokenize, EStateM.run, run]

end SetGrammar
