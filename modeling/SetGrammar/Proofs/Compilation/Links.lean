import SetGrammar.Proofs.Compilation.Rules
import SetGrammar.Proofs.Leaves

/-!
# Calls and set tests of compiled rules

What a compilation gives is linked, also if alternatives are left out. An
alternative is compiled only after the references outside its nested blocks were
checked, and nested blocks check their own alternatives.
-/
namespace SetGrammar

theorem SetChoice.test_domain {choice : SetChoice} {d : Domain} {t : SetTest}
    (made : choice.test d = .ok t) : t.domain = d := by
  obtain ⟨set, -, same⟩ := except_bind_eq_ok.1 made
  cases except_pure_eq_ok.1 same
  rfl

theorem Element.choice_of_test {e : Element} {d : Domain} {t : SetTest}
    (made : e.test d = .ok t) : ∃ choice : SetChoice, choice.test d = .ok t := by
  cases e with
  | negated | literal | charClass | sequence | reference | block =>
    obtain ⟨sources, -, made⟩ := except_bind_eq_ok.1 made
    exact ⟨_, made⟩

namespace CompileContext

variable {c : CompileContext} {span : Span}

/-- The grammar has a rule of a name that is of the kind being compiled. -/
def MayCall (c : CompileContext) (name : String) : Prop :=
  ∃ target, c.grammar.rule? name = some target ∧ target.kind = c.rule.kind

/-- Leaves that rules of the kind being compiled may have. -/
def Links (c : CompileContext) (leaves : List CompiledElement) : Prop :=
  LeavesFit c.domain c.MayCall leaves

theorem mayCall_of_checkReference {name : String} (checked : c.checkReference name = .ok ()) :
    c.MayCall name := by
  unfold checkReference at checked
  cases found : c.grammar.rule? name with
  | none =>
    rw [found] at checked
    cases checked
  | some target =>
    refine ⟨target, found, ?_⟩
    simp only [found] at checked
    cases kind : c.rule.kind <;> cases kind' : target.kind <;> simp only [kind, kind'] at checked
    · rfl
    · cases checked
    · split at checked <;> cases checked
    · rfl

theorem checkReferences_of_accepts {e : Element} (accepted : c.accepts e = true) :
    c.checkReferences e = .ok () := (accepts_iff.1 accepted).2

/-- A leaf as a compilation makes it: a test of some choice over the domain, or a
    call of a reference that was checked. -/
def Makes (c : CompileContext) : CompiledElement → Prop
  | .set t => ∃ choice : SetChoice, choice.test c.domain = .ok t.toSetTest
  | .call name => c.checkReference name = .ok ()
  | .block _ => False

/-- Leaves as a compilation makes them. -/
def MakesAll (c : CompileContext) (leaves : List CompiledElement) : Prop :=
  ∀ leaf ∈ leaves, c.Makes leaf

theorem MakesAll.nil : c.MakesAll [] := nofun

theorem MakesAll.single {leaf : CompiledElement} (makes : c.Makes leaf) : c.MakesAll [leaf] := by
  intro other member
  rwa [List.mem_singleton.1 member]

theorem MakesAll.append {a b : List CompiledElement} (first : c.MakesAll a)
    (second : c.MakesAll b) : c.MakesAll (a ++ b) :=
  List.forall_mem_append.2 ⟨first, second⟩

theorem MakesAll.links {leaves : List CompiledElement} (made : c.MakesAll leaves) :
    c.Links leaves where
  sets t member := by
    obtain ⟨choice, tested⟩ := made (.set t) member
    exact SetChoice.test_domain tested
  calls name member := mayCall_of_checkReference (made (.call name) member)

theorem block_makes {marks : BlockMarks} {alternatives : List Element}
    {branches : Reported (List CompiledSequence)}
    (made : c.MakesAll (leavesOfBranches branches.value)) :
    c.MakesAll (c.block marks alternatives branches).value.leaves := by
  obtain ⟨choice, t, -, tested, value, -⟩ | ⟨reason, -, value, -⟩ :=
    c.block_outcome marks alternatives branches
  · rw [value]
    exact .single ⟨choice, tested⟩
  · rw [value]
    exact made

theorem symbol_makes {e : Element} :
    c.MakesAll (leavesOfSequence (c.symbol span e).value.toList) := by
  unfold symbol
  cases tested : e.test c.domain with
  | error rejection => exact .nil
  | ok t => exact .append (.single (Element.choice_of_test tested)) .nil

mutual

/-- An element whose references were checked has leaves as a compilation makes
    them. -/
theorem element_makes (span : Span) : (e : Element) → c.checkReferences e = .ok () →
    c.MakesAll (leavesOfSequence (c.element span e).value.toList)
  | .literal _, _ | .charClass _, _ | .negated _, _ => symbol_makes
  | .reference _, checked => .append (.single checked) .nil
  | .sequence items, checked => .append (.append (items_make span items checked) .nil) .nil
  | .block _ alternatives, _ => .append (block_makes (branches_make _ alternatives)) .nil

theorem items_make (span : Span) : (items : List Element) → c.checkReferencesOfAll items = .ok () →
    c.MakesAll (leavesOfSequence (c.items span items).value)
  | [], _ => .nil
  | item :: rest, checked => by
    obtain ⟨first, others⟩ := checkReferencesOfAll_cons checked
    simp only [items, Reported.value_bind, Reported.value_pure, leavesOfSequence_append]
    exact .append (element_makes span item first) (items_make span rest others)

theorem branches_make (span : Span) : (alternatives : List Element) →
    c.MakesAll (leavesOfBranches (c.branches span alternatives).value)
  | [] => .nil
  | e :: rest => by
    unfold branches
    split
    · rename_i accepted
      have checked := checkReferences_of_accepts accepted
      cases e with
      | sequence items => exact .append (items_make span items checked) (branches_make span rest)
      | literal | charClass | negated | reference | block =>
        exact .append (element_makes span _ checked) (branches_make span rest)
    · exact branches_make span rest

end

end CompileContext

namespace Grammar

variable {g : Grammar} {options : CompileOptions}

theorem compile_domain (kind : RuleKind) :
    (g.compile options).value.domain kind = g.domain kind := by
  cases kind <;> rfl

/-- A rule keeps its name and its kind when it is compiled. -/
theorem compile_has {kind : RuleKind} {name : String}
    (callable : ∃ target, g.rule? name = some target ∧ target.kind = kind) :
    (g.compile options).value.Has kind name := by
  obtain ⟨target, found, same⟩ := callable
  exact ⟨g.compiledRule options target, by rw [compile_rule?, found, Option.map_some], same⟩

/-- Each rule was compiled on its own, and its leaves were made there. -/
theorem compile_makes {compiled : CompiledRule}
    (member : compiled ∈ (g.compile options).value.rules) :
    ∃ r ∈ g.rules, compiled.kind = r.kind ∧
      CompileContext.MakesAll ⟨g, options, r⟩ compiled.body.leaves := by
  rw [compile_rules] at member
  obtain ⟨r, inside, rfl⟩ := List.mem_map.1 member
  exact ⟨r, inside, rfl, CompileContext.block_makes (CompileContext.branches_make _ _)⟩

/-- What a compilation gives is linked, whatever was reported. -/
theorem compile_linked (g : Grammar) (options : CompileOptions) :
    (g.compile options).value.Linked := by
  intro compiled member
  obtain ⟨r, -, kind, made⟩ := compile_makes member
  rw [compile_domain, kind]
  exact made.links.imp fun _ => compile_has

/-- The set tests of a rule read symbols of its kind. -/
theorem compile_leaf_kind {r : CompiledRule} (member : r ∈ (g.compile options).value.rules)
    {t : Transition} (leaf : .set t ∈ r.body.leaves) : t.domain.kind = r.kind := by
  rw [(compile_linked g options r member).sets t leaf, compile_domain]
  cases r.kind <;> rfl

end Grammar

end SetGrammar
