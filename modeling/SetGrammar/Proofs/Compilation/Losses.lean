import SetGrammar.Proofs.Compilation.Correspondence
import SetGrammar.Proofs.Compilation.Findings
import SetGrammar.Proofs.Compilation.Links
import SetGrammar.Proofs.Compilation.OneSet

/-!
# What compilation leaves out

The findings in a rule account for all that its body lost: one for each
alternative that is missing from a block, one for each label on a block with
branches that would not have been a set, and one for each negated set that admits
nothing. What is lost is told by the body as it was written. References are replaced
one by one before it is compiled, and nothing is lost there.

An alternative is checked where its block is compiled, and its symbols again when
it is compiled itself. The second time nothing fails. So no item is left out of an
alternative that is kept, and nothing is reported twice.
-/
namespace SetGrammar

/-- One symbol that is not nested in a block. -/
def Element.isSymbol : Element → Bool
  | .literal _ | .charClass _ | .negated _ => true
  | .sequence _ | .reference _ | .block _ _ => false

namespace CompileContext

variable {c : CompileContext}

/-- A literal, a class or a negation that is accepted has its test. -/
theorem test_of_accepted {e : Element} (accepted : c.accepts e = true)
    (symbol : e.isSymbol = true) : ∃ t, e.test c.domain = .ok t := by
  have checked := (accepts_iff.1 accepted).1
  cases e with
  | literal | charClass =>
    obtain ⟨source, found, -⟩ := except_bind_eq_ok.1 checked
    exact test_of_source found
  | negated operand =>
    obtain ⟨sources, found, -⟩ := except_bind_eq_ok.1 checked
    exact test_of_negatedSources found
  | sequence | reference | block => cases symbol

/-- A part of the rule as it is compiled, with the references replaced that can be. -/
def resolve (c : CompileContext) (e : Element) : Element :=
  e.replaceReferences (c.grammar.replacement? (c.grammar.inlineTable c.options).value c.rule.kind)

/-- Whether an alternative of a block is compiled. -/
def keeps (c : CompileContext) (e : Element) : Bool := c.accepts (c.resolve e)

theorem resolvesTo (c : CompileContext) (e : Element) : e.ResolvesTo (c.resolve e) :=
  Element.resolvesTo_replaceReferences (c.grammar.isLeafReplacement_replacement? _ _) e

theorem allResolveTo (c : CompileContext) (elements : List Element) :
    Element.AllResolveTo elements (elements.map c.resolve) := by
  have all := Element.allResolveTo_replaceReferencesInAll
    (c.grammar.isLeafReplacement_replacement? (c.grammar.inlineTable c.options).value c.rule.kind)
    elements
  rw [Element.replaceReferencesInAll_eq_map] at all
  exact all

theorem resolve_sequence (elements : List Element) :
    c.resolve (.sequence elements) = .sequence (elements.map c.resolve) :=
  congrArg Element.sequence (Element.replaceReferencesInAll_eq_map elements)

theorem resolve_block (marks : BlockMarks) (alternatives : List Element) :
    c.resolve (.block marks alternatives) = .block marks (alternatives.map c.resolve) :=
  congrArg (Element.block marks) (Element.replaceReferencesInAll_eq_map alternatives)

theorem keeps_items {elements : List Element} (kept : c.keeps (.sequence elements) = true) :
    ∀ e ∈ elements, c.keeps e = true := by
  rw [keeps, resolve_sequence] at kept
  exact List.forall_mem_map.1 (accepts_items kept)

/-- A reference that is replaced is one symbol. -/
theorem resolve_reference (c : CompileContext) (name : String) :
    c.resolve (.reference name) = .reference name ∨
      (c.resolve (.reference name)).isSymbol = true := by
  have becomes := c.resolvesTo (.reference name)
  generalize c.resolve (.reference name) = resolved at becomes ⊢
  cases becomes with
  | kept => exact .inl rfl
  | toLiteral | toClass => exact .inr rfl

end CompileContext

/-- The findings about an alternative that is left out. -/
def DiagnosticKind.isRejection : DiagnosticKind → Bool
  | .invalidNegationTarget | .inconsistentDomain | .undefinedRule | .unknownTokenType => true
  | .labelOnNonSet | .fragmentCycle | .emptyComplement => false

theorem Diagnostic.isError_of_isRejection {d : Diagnostic} (rejection : d.kind.isRejection = true) :
    d.isError = true := by
  unfold isError severity
  cases kind : d.kind <;> rw [kind] at rejection <;> first | rfl | cases rejection

/-- The set that a negated transition names if it admits nothing. -/
def CompiledElement.hollow? : CompiledElement → Option SymbolSet
  | .set t => if t.negated && t.admissible.isEmpty then some t.named else none
  | .call _ | .block _ => none

namespace BlockPair

/-- How many alternatives are missing. -/
def missing (p : BlockPair) : Nat := p.alternatives.length - p.kept.length

/-- A label on a block with branches that would not have been a set. -/
def losesLabel (p : BlockPair) : Bool :=
  p.marks.label.isSome && p.compiled.reason?.any (· != .disabled)

/-- One finding for each alternative that is rejected. -/
def rejections (c : CompileContext) (p : BlockPair) : List Diagnostic :=
  ((p.alternatives.map c.resolve).filterMap c.rejection?).map
    (c.rejectionDiagnostic p.marks.span)

/-- One finding for a label that is lost. -/
def misplacedLabel (c : CompileContext) (p : BlockPair) : List Diagnostic :=
  p.compiled.reason?.toList.flatMap (c.misplacedLabel p.marks)

/-- A block kept the alternatives that pass the checks, as a set all of them with
    the label, or as branches with one element for each item. -/
structure Exact (c : CompileContext) (p : BlockPair) : Prop where
  kept : p.kept = p.alternatives.filter c.keeps
  set : ∀ t, p.compiled = .set t → p.kept = p.alternatives ∧ t.label = p.marks.label
  branches : ∀ compiled quantifier label reason,
    p.compiled = .branches compiled quantifier label reason →
      List.Forall₂ (fun e sequence => sequence.length = e.items.length) p.kept compiled ∧
        label = if reason = .disabled then p.marks.label else none

end BlockPair

/-- Findings are exactly those about what was left out of blocks and about leaves
    that admit nothing. -/
structure Accounts (c : CompileContext) (found : List Diagnostic) (pairs : List BlockPair)
    (leaves : List CompiledElement) : Prop where
  rejections : found.filter (·.kind.isRejection) = pairs.flatMap (·.rejections c)
  labels : found.filter (·.kind == .labelOnNonSet) = pairs.flatMap (·.misplacedLabel c)
  complements : (found.filter (·.kind == .emptyComplement)).map Diagnostic.detail =
    (leaves.filterMap CompiledElement.hollow?).map fun named =>
      some ("~" ++ named.render c.domain.kind (some c.grammar.vocabulary))
  blocks : ∀ p ∈ pairs, p.Exact c

namespace BlockPair

variable {c : CompileContext} {p : BlockPair} {d : Diagnostic}

@[simp] theorem misplacedLabel_set {marks : BlockMarks} {alternatives kept : List Element}
    {t : Transition} : misplacedLabel c ⟨marks, alternatives, kept, .set t⟩ = [] := rfl

@[simp] theorem misplacedLabel_branches {marks : BlockMarks} {alternatives kept : List Element}
    {compiled : List CompiledSequence} {quantifier : Quantifier} {label : Option String}
    {reason : BranchReason} :
    misplacedLabel c ⟨marks, alternatives, kept, .branches compiled quantifier label reason⟩ =
      c.misplacedLabel marks reason := List.append_nil _

theorem kind_of_mem_rejections (member : d ∈ p.rejections c) : d.kind.isRejection = true := by
  obtain ⟨rejection, -, rfl⟩ := List.mem_map.1 member
  cases rejection <;> rfl

theorem kind_of_mem_misplacedLabel (member : d ∈ p.misplacedLabel c) :
    d.kind = .labelOnNonSet := by
  obtain ⟨reason, -, member⟩ := List.mem_flatMap.1 member
  unfold CompileContext.misplacedLabel at member
  split at member
  · split at member
    · cases member
    · rw [List.mem_singleton.1 member]
      rfl
  · cases member

end BlockPair

namespace Accounts

variable {c : CompileContext} {found found' : List Diagnostic} {pairs pairs' : List BlockPair}
  {leaves leaves' : List CompiledElement}

theorem nil : Accounts c [] [] [] := ⟨rfl, rfl, rfl, nofun⟩

theorem call {name : String} : Accounts c [] [] [.call name] := ⟨rfl, rfl, rfl, nofun⟩

theorem append (first : Accounts c found pairs leaves) (second : Accounts c found' pairs' leaves') :
    Accounts c (found ++ found') (pairs ++ pairs') (leaves ++ leaves') where
  rejections := by
    rw [List.filter_append, List.flatMap_append, first.rejections, second.rejections]
  labels := by rw [List.filter_append, List.flatMap_append, first.labels, second.labels]
  complements := by
    rw [List.filter_append, List.filterMap_append, List.map_append, List.map_append,
      first.complements, second.complements]
  blocks := List.forall_mem_append.2 ⟨first.blocks, second.blocks⟩

/-- What a block reports of its own. -/
theorem head {p : BlockPair} (exact : p.Exact c) :
    Accounts c (p.rejections c ++ p.misplacedLabel c) [p] [] where
  rejections := by
    have rejections : (p.rejections c).filter (·.kind.isRejection) = p.rejections c :=
      List.filter_eq_self.2 fun d member => BlockPair.kind_of_mem_rejections member
    have labels : (p.misplacedLabel c).filter (·.kind.isRejection) = [] :=
      List.filter_eq_nil_iff.2 fun d member => by
        simp [BlockPair.kind_of_mem_misplacedLabel member, DiagnosticKind.isRejection]
    rw [List.filter_append, rejections, labels, List.flatMap_singleton, List.append_nil]
  labels := by
    have rejections : (p.rejections c).filter (·.kind == .labelOnNonSet) = [] :=
      List.filter_eq_nil_iff.2 fun d member same => by
        have rejection := BlockPair.kind_of_mem_rejections member
        rw [eq_of_beq same] at rejection
        cases rejection
    have labels : (p.misplacedLabel c).filter (·.kind == .labelOnNonSet) = p.misplacedLabel c :=
      List.filter_eq_self.2 fun d member => by
        simp [BlockPair.kind_of_mem_misplacedLabel member]
    rw [List.filter_append, rejections, labels, List.flatMap_singleton, List.nil_append]
  complements := by
    have none : (p.rejections c ++ p.misplacedLabel c).filter (·.kind == .emptyComplement) = [] :=
      List.filter_eq_nil_iff.2 fun d member same => by
        rcases List.mem_append.1 member with member | member
        · have rejection := BlockPair.kind_of_mem_rejections member
          rw [eq_of_beq same] at rejection
          cases rejection
        · simp [BlockPair.kind_of_mem_misplacedLabel member] at same
    rw [none]
    rfl
  blocks := List.forall_mem_singleton.2 exact

/-- What a set test reports. -/
theorem test {span : Span} {t : SetTest} {quantifier : Quantifier} {label : Option String} :
    Accounts c (c.emptyComplement span t) [] [.set ⟨t, quantifier, label⟩] := by
  by_cases hollow : (t.negated && t.admissible.isEmpty) = true
  · simp only [CompileContext.emptyComplement, hollow, if_true]
    exact ⟨rfl, rfl, by simp [CompileContext.diagnostic, CompiledElement.hollow?, hollow], nofun⟩
  · simp only [CompileContext.emptyComplement, hollow]
    exact ⟨rfl, rfl, by simp [CompiledElement.hollow?, hollow], nofun⟩

end Accounts

namespace CompileContext

variable {c : CompileContext} {span : Span}

/-- An element of a rule is compiled, and what is reported is what its blocks lose. -/
def ElementAccounts (c : CompileContext) (e : Element)
    (made : Reported (Option CompiledElement)) : Prop :=
  ∃ element pairs, made.value = some element ∧ ItemBecomes c.domain e element pairs ∧
    Accounts c made.diagnostics pairs element.leaves

/-- Each item of an alternative is compiled. -/
def AlternativeAccounts (c : CompileContext) (e : Element) (made : Reported CompiledSequence) :
    Prop :=
  ∃ pairs, ItemsBecome c.domain e.items made.value pairs ∧
    Accounts c made.diagnostics pairs (leavesOfSequence made.value)

/-- Each accepted alternative is compiled. -/
def BranchesAccount (c : CompileContext) (alternatives : List Element)
    (made : Reported (List CompiledSequence)) : Prop :=
  ∃ pairs, AlternativesBecome c.domain (alternatives.filter c.keeps) made.value pairs ∧
    Accounts c made.diagnostics pairs (leavesOfBranches made.value)

theorem element_of_symbol {e : Element} (symbol : e.isSymbol = true) :
    c.element span e = c.symbol span e := by
  cases e with
  | literal | charClass | negated => rfl
  | sequence | reference | block => cases symbol

theorem alternative_of_symbol {e : Element} (symbol : e.isSymbol = true) :
    c.alternative span e = Option.toList <$> c.element span e := by
  cases e with
  | literal | charClass | negated => rfl
  | sequence | reference | block => cases symbol

theorem symbol_accounts {e : Element} (kept : c.keeps e = true)
    (symbol : (c.resolve e).isSymbol = true) :
    ElementAccounts c e (c.element span (c.resolve e)) := by
  obtain ⟨t, made⟩ := test_of_accepted kept symbol
  have found : (c.symbol span (c.resolve e)).diagnostics = c.emptyComplement span t := by
    simp [CompileContext.symbol, made]
  rw [element_of_symbol symbol]
  refine ⟨.set (.ofTest t), [], (symbol_of_test made).2, .symbol (c.resolvesTo e) made, ?_⟩
  rw [found]
  exact .test

theorem single_accounts {e : Element} {made : Reported (Option CompiledElement)}
    (items : e.items = [e]) (accounts : ElementAccounts c e made) :
    AlternativeAccounts c e (Option.toList <$> made) := by
  obtain ⟨element, pairs, value, become, accounts⟩ := accounts
  have sequence : (Option.toList <$> made).value = [element] := by
    rw [Reported.value_map, value]
    rfl
  have found : (Option.toList <$> made).diagnostics = made.diagnostics := List.append_nil _
  have both := accounts.append (.nil (c := c))
  rw [List.append_nil made.diagnostics] at both
  unfold AlternativeAccounts
  rw [items, sequence, found]
  exact ⟨pairs ++ [], .cons become .nil, both⟩

theorem branches_account_cons {e : Element} {rest : List Element}
    {made : Reported CompiledSequence} {others : Reported (List CompiledSequence)}
    (kept : c.keeps e = true) (first : AlternativeAccounts c e made)
    (account : BranchesAccount c rest others) :
    BranchesAccount c (e :: rest) (do
      let first ← made
      return first :: (← others)) := by
  obtain ⟨pairs, become, accounts⟩ := first
  obtain ⟨pairs', become', accounts'⟩ := account
  have both := accounts.append accounts'
  rw [← List.append_nil others.diagnostics] at both
  unfold BranchesAccount
  rw [List.filter_cons_of_pos kept]
  exact ⟨pairs ++ pairs', .cons become become', both⟩

theorem branches_account_nil : BranchesAccount c [] (c.branches span []) := ⟨[], .nil, .nil⟩

/-- A block accounts for its own losses before those in its alternatives. -/
theorem block_accounts (marks : BlockMarks) {alternatives : List Element}
    {branches : Reported (List CompiledSequence)}
    (account : BranchesAccount c alternatives branches) :
    let made := c.block marks (alternatives.map c.resolve) branches
    ∃ pairs, BlockBecomes c.domain marks alternatives made.value pairs ∧
      Accounts c made.diagnostics pairs made.value.leaves := by
  obtain ⟨pairs, become, accounts⟩ := account
  dsimp only
  obtain ⟨choice, t, verdict, tested, value, found⟩ | ⟨reason, -, value, found⟩ :=
    c.block_outcome marks (alternatives.map c.resolve) branches
  · obtain ⟨accepted, formed, -⟩ := of_verdict_eq_set verdict
    have kept : ∀ e ∈ alternatives, c.keeps e = true := List.forall_mem_map.1 accepted
    have exact : BlockPair.Exact c
        ⟨marks, alternatives, alternatives, .set ⟨t, marks.quantifier, marks.label⟩⟩ := by
      refine ⟨(List.filter_eq_self.2 kept).symm, ?_, nofun⟩
      rintro _ ⟨⟩
      exact ⟨rfl, rfl⟩
    have both := (Accounts.head exact).append (.test : Accounts c
      (c.emptyComplement marks.span t) [] [.set ⟨t, marks.quantifier, marks.label⟩])
    rw [BlockPair.misplacedLabel_set, BlockPair.rejections,
      rejections_of_accepted accepted] at both
    rw [value, found]
    exact ⟨_, .set (List.Sublist.refl _) (c.allResolveTo alternatives) formed tested, both⟩
  · have exact : BlockPair.Exact c ⟨marks, alternatives,
        alternatives.filter c.keeps,
        .branches branches.value marks.quantifier
          (if reason = .disabled then marks.label else none) reason⟩ := by
      refine ⟨rfl, nofun, ?_⟩
      rintro _ _ _ _ ⟨⟩
      exact ⟨become.lengths, rfl⟩
    have both := (Accounts.head exact).append accounts
    rw [BlockPair.misplacedLabel_branches, List.append_assoc] at both
    rw [value, found]
    exact ⟨_, .branches List.filter_sublist become, both⟩

/-- A sequence among the items of another is compiled as a block around it. -/
theorem element_sequence {elements : List Element}
    (accepted : c.accepts (.sequence elements) = true) :
    c.element span (.sequence elements) =
      c.element span (.block ⟨.once, none, span⟩ [.sequence elements]) := by
  have all (e) (member : e ∈ [.sequence elements]) : c.accepts e = true := by
    rwa [List.mem_singleton.1 member]
  have kept : c.verdict [.sequence elements] = .branches .multiSymbol := by
    rw [verdict_of_accepted all]
    rfl
  have unlabelled : c.misplacedLabel ⟨.once, none, span⟩ .multiSymbol = [] := rfl
  have branches : c.branches span [.sequence elements] =
      (c.items span elements >>= fun items => return [items]) := by
    rw [branches_cons accepted]
    rfl
  refine Reported.eq_of ?_ ?_
  · simp [element, CompileContext.block, kept, keepBranches, branches]
  · simp [element, CompileContext.block, kept, keepBranches, branches, unlabelled,
      rejections_of_accepted all]

mutual

/-- An element that is accepted is compiled, and all that is lost is in its
    blocks. -/
theorem element_accounts (span : Span) : (e : Element) → c.keeps e = true →
    ElementAccounts c e (c.element span (c.resolve e))
  | .reference name, kept => by
    rcases c.resolve_reference name with same | symbol
    · rw [same]
      exact ⟨.call name, [], rfl, .call, .call⟩
    · exact symbol_accounts kept symbol
  | .literal _, kept | .charClass _, kept | .negated _, kept => symbol_accounts kept rfl
  | .sequence elements, kept => by
    -- `[.sequence elements]` is no part of the sequence, so the branches of the block
    -- around it are put together from the items and not taken from `branches_account`
    have account : BranchesAccount c [.sequence elements]
        (c.branches span [c.resolve (.sequence elements)]) := by
      rw [branches_cons kept, resolve_sequence]
      exact branches_account_cons kept (items_account span elements (keeps_items kept))
        branches_account_nil
    obtain ⟨pairs, become, accounts⟩ := block_accounts ⟨.once, none, span⟩ account
    rw [← List.append_nil (Reported.diagnostics _)] at accounts
    rw [resolve_sequence, element_sequence (resolve_sequence elements ▸ kept), ← resolve_sequence]
    exact ⟨_, pairs, rfl, .sequence become, accounts⟩
  | .block marks alternatives, _ => by
    obtain ⟨pairs, become, accounts⟩ := block_accounts marks
      (branches_account marks.span alternatives)
    rw [← List.append_nil (Reported.diagnostics _)] at accounts
    rw [resolve_block]
    exact ⟨_, pairs, rfl, .block become, accounts⟩

theorem items_account (span : Span) : (elements : List Element) →
    (∀ e ∈ elements, c.keeps e = true) →
    AlternativeAccounts c (.sequence elements) (c.items span (elements.map c.resolve))
  | [], _ => ⟨[], .nil, .nil⟩
  | e :: rest, kept => by
    obtain ⟨first, others⟩ := List.forall_mem_cons.1 kept
    obtain ⟨element, pairs, value, become, accounts⟩ := element_accounts span e first
    obtain ⟨pairs', become', accounts'⟩ := items_account span rest others
    have sequence : (c.items span ((e :: rest).map c.resolve)).value =
        element :: (c.items span (rest.map c.resolve)).value := by
      simp [items, value]
    have found : (c.items span ((e :: rest).map c.resolve)).diagnostics =
        (c.element span (c.resolve e)).diagnostics ++
          (c.items span (rest.map c.resolve)).diagnostics := by
      simp [items]
    unfold AlternativeAccounts
    rw [sequence, found]
    exact ⟨pairs ++ pairs', .cons become become', accounts.append accounts'⟩

theorem branches_account (span : Span) : (alternatives : List Element) →
    BranchesAccount c alternatives (c.branches span (alternatives.map c.resolve))
  | [] => branches_account_nil
  | e :: rest => by
    have others := branches_account span rest
    by_cases kept : c.keeps e = true
    · have first : AlternativeAccounts c e (c.alternative span (c.resolve e)) := by
        cases e with
        | sequence elements =>
          rw [resolve_sequence]
          exact items_account span elements (keeps_items kept)
        | reference name =>
          have own := single_accounts rfl (element_accounts span (.reference name) kept)
          rcases c.resolve_reference name with same | symbol
          · rw [same] at own ⊢
            exact own
          · rw [alternative_of_symbol symbol]
            exact own
        | literal | charClass | negated | block =>
          exact single_accounts rfl (element_accounts span _ kept)
      rw [List.map_cons, branches_cons kept]
      exact branches_account_cons kept first others
    · have refused : ¬ c.accepts (c.resolve e) = true := kept
      unfold BranchesAccount
      rw [List.map_cons, branches, if_neg refused, List.filter_cons_of_neg kept]
      exact others

end

end CompileContext

namespace BlockPair.Exact

variable {c : CompileContext} {p : BlockPair}

theorem length_rejections (exact : p.Exact c) : (p.rejections c).length = p.missing := by
  have split (alternatives : List Element) :
      ((alternatives.map c.resolve).filterMap c.rejection?).length +
        (alternatives.filter c.keeps).length = alternatives.length := by
    induction alternatives with
    | nil => rfl
    | cons e rest ih =>
      cases rejected : c.rejection? (c.resolve e) with
      | none =>
        have kept : c.keeps e = true := CompileContext.rejection?_eq_none_iff.1 rejected
        simp only [List.map_cons, List.filterMap_cons, rejected, List.filter_cons_of_pos kept,
          List.length_cons]
        omega
      | some rejection =>
        have refused : ¬ c.keeps e = true := fun kept => by
          rw [CompileContext.rejection?_eq_none_iff.2 kept] at rejected
          cases rejected
        simp only [List.map_cons, List.filterMap_cons, rejected,
          List.filter_cons_of_neg refused, List.length_cons]
        omega
  have all := split p.alternatives
  rw [rejections, List.length_map, missing, exact.kept]
  omega

/-- A block about which nothing was reported is whole. -/
theorem whole_of_silent (exact : p.Exact c) (rejections : p.rejections c = [])
    (labels : p.misplacedLabel c = []) : p.Whole := by
  have kept : ∀ e ∈ p.alternatives, c.keeps e = true := fun e member =>
    CompileContext.rejection?_eq_none_iff.1 (List.filterMap_eq_nil_iff.1
      (List.map_eq_nil_iff.1 rejections) _ (List.mem_map_of_mem member))
  refine ⟨by rw [exact.kept, List.filter_eq_self.2 kept], ?_⟩
  obtain ⟨marks, alternatives, kept, compiled⟩ := p
  cases compiled with
  | set t => exact (exact.set t rfl).2
  | branches compiled quantifier label reason =>
    obtain ⟨-, same⟩ := exact.branches _ _ _ _ rfl
    rw [misplacedLabel_branches] at labels
    dsimp only [CompiledBlock.label] at same ⊢
    exact same.trans (CompileContext.label_of_placed (c := c) (by rw [labels]; nofun))

end BlockPair.Exact

theorem BlockPair.length_misplacedLabel {c : CompileContext} {p : BlockPair} :
    (p.misplacedLabel c).length = if p.losesLabel then 1 else 0 := by
  obtain ⟨marks, alternatives, kept, compiled⟩ := p
  cases compiled with
  | set t => simp [losesLabel, CompiledBlock.reason?]
  | branches compiled quantifier label reason =>
    rw [misplacedLabel_branches]
    cases named : marks.label with
    | none => simp [CompileContext.misplacedLabel, losesLabel, named]
    | some name =>
      by_cases disabled : reason = .disabled <;>
        simp [CompileContext.misplacedLabel, losesLabel, named, CompiledBlock.reason?, disabled]

namespace Accounts

variable {c : CompileContext} {found : List Diagnostic} {pairs : List BlockPair}
  {leaves : List CompiledElement}

theorem countP_rejections (accounts : Accounts c found pairs leaves) :
    found.countP (·.kind.isRejection) = (pairs.map BlockPair.missing).sum := by
  rw [List.countP_eq_length_filter, accounts.rejections, List.length_flatMap]
  exact congrArg List.sum
    (List.map_congr_left fun p member => (accounts.blocks p member).length_rejections)

theorem countP_labels (accounts : Accounts c found pairs leaves) :
    found.countP (·.kind == .labelOnNonSet) = pairs.countP BlockPair.losesLabel := by
  rw [List.countP_eq_length_filter, accounts.labels]
  clear accounts
  induction pairs with
  | nil => rfl
  | cons p rest ih =>
    rw [List.flatMap_cons, List.length_append, ih, BlockPair.length_misplacedLabel,
      List.countP_cons, Nat.add_comm]

theorem countP_complements (accounts : Accounts c found pairs leaves) :
    found.countP (·.kind == .emptyComplement) = leaves.countP (·.hollow?.isSome) := by
  have same := congrArg List.length accounts.complements
  rw [List.length_map, List.length_map, List.length_filterMap_eq_countP,
    ← List.countP_eq_length_filter] at same
  exact same

theorem nil_of_clean {p : Diagnostic → Bool} {lost : BlockPair → List Diagnostic}
    (same : found.filter p = pairs.flatMap lost) (error : ∀ d, p d = true → d.isError = true)
    (clean : ∀ d ∈ found, d.isError = false) {pair : BlockPair} (member : pair ∈ pairs) :
    lost pair = [] := by
  refine List.eq_nil_iff_forall_not_mem.2 fun d inside => ?_
  have reported : d ∈ found.filter p := same ▸ List.mem_flatMap.2 ⟨pair, member, inside⟩
  obtain ⟨reported, passed⟩ := List.mem_filter.1 reported
  have calm := clean d reported
  rw [error d passed] at calm
  cases calm

/-- Without errors all blocks are whole. -/
theorem whole_of_clean (accounts : Accounts c found pairs leaves)
    (clean : ∀ d ∈ found, d.isError = false) : ∀ p ∈ pairs, p.Whole := by
  intro p member
  have rejections := nil_of_clean accounts.rejections
    (fun d rejection => Diagnostic.isError_of_isRejection rejection) clean member
  have labels := nil_of_clean accounts.labels
    (fun d kind => by rw [Diagnostic.isError, Diagnostic.severity, eq_of_beq kind]; rfl)
    clean member
  exact (accounts.blocks p member).whole_of_silent rejections labels

end Accounts

namespace Grammar

variable {g : Grammar} {options : CompileOptions}

theorem resolved_eq_map (g : Grammar) (options : CompileOptions) (r : Rule) :
    g.resolved options r = r.body.alternatives.map (CompileContext.resolve ⟨g, options, r⟩) :=
  Element.replaceReferencesInAll_eq_map _

/-- What is found in a rule accounts for all that its body lost. -/
theorem compiledBody_accounts (g : Grammar) (options : CompileOptions) (r : Rule) :
    ∃ pairs, BlockBecomes (g.domain r.kind) r.body.marks r.body.alternatives
        (g.compiledRule options r).body pairs ∧
      Accounts ⟨g, options, r⟩ (g.compiledBody options r).diagnostics pairs
        (g.compiledRule options r).body.leaves := by
  rw [compiledRule_body, compiledBody, resolved_eq_map]
  exact CompileContext.block_accounts (c := ⟨g, options, r⟩) r.body.marks
    (CompileContext.branches_account r.body.marks.span r.body.alternatives)

/-- Nothing is lost in silence. Before a rule is compiled, its alternatives and items
    stay what they are except for references. Then there is one rejection for each
    alternative that is missing from a block, one finding for each label that a block
    with branches does not keep, and one for each negated set that admits nothing. A
    block that lost an alternative is no set. A grammar that is not refused keeps all
    alternatives, items and labels. -/
theorem compile_accounts (g : Grammar) (options : CompileOptions) {r : Rule}
    (member : r ∈ g.rules) :
    let found := (g.compile options).diagnostics.filter (·.rule == some r.name)
    ∃ compiled pairs, (g.compile options).value.rule? r.name = some compiled ∧
      Element.AllResolveTo r.body.alternatives (g.resolved options r) ∧
      BlockBecomes (g.domain r.kind) r.body.marks r.body.alternatives compiled.body pairs ∧
      Accounts ⟨g, options, r⟩ found pairs compiled.body.leaves ∧
      found.countP (·.kind.isRejection) = (pairs.map BlockPair.missing).sum ∧
      found.countP (·.kind == .labelOnNonSet) = pairs.countP BlockPair.losesLabel ∧
      found.countP (·.kind == .emptyComplement) =
        compiled.body.leaves.countP (·.hollow?.isSome) ∧
      ∀ strict, g.compileStrict options = .ok strict → strict.rule? r.name = some compiled ∧
        (∀ p ∈ pairs, p.Whole) ∧ compiled.body.labels = r.body.labels := by
  intro found
  obtain ⟨pairs, become, own⟩ := g.compiledBody_accounts options r
  have accounts : Accounts ⟨g, options, r⟩ found pairs (g.compiledRule options r).body.leaves := by
    refine ⟨?_, ?_, ?_, own.blocks⟩
    · refine (findings_of_rule member fun d passed kind => ?_).trans own.rejections
      rw [kind] at passed
      cases passed
    · refine (findings_of_rule member fun d passed kind => ?_).trans own.labels
      rw [kind] at passed
      cases passed
    · refine (congrArg _ (findings_of_rule member fun d passed kind => ?_)).trans own.complements
      rw [kind] at passed
      cases passed
  have named : (g.compile options).value.rule? r.name = some (g.compiledRule options r) := by
    rw [compile_rule?, rule?_eq_some_iff.2 ⟨member, rfl⟩, Option.map_some]
  have resolves : Element.AllResolveTo r.body.alternatives (g.resolved options r) := by
    rw [resolved_eq_map]
    exact CompileContext.allResolveTo ⟨g, options, r⟩ _
  refine ⟨_, pairs, named, resolves, become, accounts, accounts.countP_rejections,
    accounts.countP_labels, accounts.countP_complements, fun strict made => ?_⟩
  obtain ⟨clean, rfl⟩ := compileStrict_eq_ok made
  have whole := accounts.whole_of_clean fun d inside => clean d (List.mem_of_mem_filter inside)
  exact ⟨named, whole, become.labels whole⟩

/-- A token rule with a label on two characters. -/
def labelledLetters : Rule where
  name := "A"
  kind := .lexer
  tokenType := some 2
  body := ⟨{ label := some "letter" }, [.char 'a', .char 'b']⟩

/-- A parser rule with a reference to no rule, a token type that is not defined, a
    label on two tokens, one of them as a reference, and the negation of all tokens. -/
def lossyRule : Rule where
  name := "p"
  kind := .parser
  body := ⟨{}, [
    .sequence [.literal 1, .reference "q"],
    .literal 9,
    .sequence [.literal 1, .sequence [
      .block { label := some "pair" } [.sequence [.literal 1, .reference "A"]],
      .negated (.block {} [.literal 1, .literal 2])]]]⟩

/-- Both losses of alternatives are reported, the label and the negation. The token
    rule alone keeps its label. -/
theorem compile_accounts_lossyRule :
    let tokens := Grammar.add (.empty "Letters") labelledLetters
    let lossy := tokens.add lossyRule
    (∃ compiled pairs, (lossy.compile {}).value.rule? "p" = some compiled ∧
        BlockBecomes (.parser 2) {} lossyRule.body.alternatives compiled.body pairs ∧
        (pairs.map BlockPair.missing).sum = 2 ∧ pairs.countP BlockPair.losesLabel = 1 ∧
        compiled.body.leaves.countP (·.hollow?.isSome) = 1) ∧
      ∃ strict compiled, tokens.compileStrict {} = .ok strict ∧
        strict.rule? "A" = some compiled ∧ compiled.body.labels = ["letter"] := by
  intro tokens lossy
  constructor
  · have member : lossyRule ∈ lossy.rules := List.mem_cons_of_mem _ List.mem_cons_self
    obtain ⟨compiled, pairs, named, -, become, -, rejections, labels, complements, -⟩ :=
      compile_accounts lossy {} member
    refine ⟨compiled, pairs, named, become, rejections.symm.trans ?_, labels.symm.trans ?_,
      complements.symm.trans ?_⟩
    · decide +kernel
    · decide +kernel
    · decide +kernel
  · have member : labelledLetters ∈ tokens.rules := List.mem_cons_self
    obtain ⟨compiled, pairs, -, -, -, -, -, -, -, kept⟩ := compile_accounts tokens {} member
    have silent : (tokens.compile {}).diagnostics = [] := by decide +kernel
    obtain ⟨named, -, labels⟩ := kept _ (compileStrict_of_nil silent)
    exact ⟨_, compiled, compileStrict_of_nil silent, named, labels⟩

end Grammar

end SetGrammar
