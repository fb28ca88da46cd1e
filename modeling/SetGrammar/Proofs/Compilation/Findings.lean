import SetGrammar.Proofs.Compilation.Rules
import SetGrammar.Proofs.Grammar.Cycles

/-!
# The findings of a compilation

A compilation reports the cycles of references first and then what it finds in
each rule. A finding in a rule names the rule, so it is told from those in all
others.
-/
namespace SetGrammar

/-- All findings name a rule, and none is a cycle. -/
def Reported.About {α : Type} (name : String) (x : Reported α) : Prop :=
  ∀ d ∈ x.diagnostics, d.rule = some name ∧ d.kind ≠ .fragmentCycle

namespace Reported

variable {α β : Type} {name : String}

theorem about_pure {a : α} : (pure a : Reported α).About name := fun _ member => by cases member

theorem about_bind {x : Reported α} {f : α → Reported β} :
    (x >>= f).About name ↔ x.About name ∧ (f x.value).About name := by
  rw [About, diagnostics_bind, List.forall_mem_append]
  rfl

theorem about_report {found : List Diagnostic} :
    (report found).About name ↔ ∀ d ∈ found, d.rule = some name ∧ d.kind ≠ .fragmentCycle := by
  rw [About, diagnostics_report]

end Reported

namespace CompileContext

open Reported

variable {c : CompileContext} {span : Span}

theorem rejectionDiagnostic_about {rejection : Rejection} :
    (c.rejectionDiagnostic span rejection).rule = some c.rule.name ∧
      (c.rejectionDiagnostic span rejection).kind ≠ .fragmentCycle := by
  cases rejection <;> exact ⟨rfl, nofun⟩

theorem emptyComplement_about {t : SetTest} :
    ∀ d ∈ c.emptyComplement span t, d.rule = some c.rule.name ∧ d.kind ≠ .fragmentCycle := by
  unfold emptyComplement
  split
  · exact List.forall_mem_singleton.2 ⟨rfl, nofun⟩
  · exact nofun

theorem misplacedLabel_about {marks : BlockMarks} {reason : BranchReason} :
    ∀ d ∈ c.misplacedLabel marks reason,
      d.rule = some c.rule.name ∧ d.kind ≠ .fragmentCycle := by
  unfold misplacedLabel
  split
  · split
    · exact nofun
    · exact List.forall_mem_singleton.2 ⟨rfl, nofun⟩
  · exact nofun

theorem block_about {marks : BlockMarks} {alternatives : List Element}
    {branches : Reported (List CompiledSequence)} (about : branches.About c.rule.name) :
    (c.block marks alternatives branches).About c.rule.name := by
  obtain ⟨choice, t, -, -, -, found⟩ | ⟨reason, -, -, found⟩ :=
    c.block_outcome marks alternatives branches
  · rw [About, found]
    exact emptyComplement_about
  · rw [About, found, List.forall_mem_append, List.forall_mem_append]
    exact ⟨List.forall_mem_map.2 fun _ _ => rejectionDiagnostic_about, misplacedLabel_about, about⟩

theorem symbol_about {e : Element} : (c.symbol span e).About c.rule.name := by
  unfold symbol
  split
  · exact about_bind.2 ⟨about_report.2 emptyComplement_about, about_pure⟩
  · exact about_bind.2 ⟨about_report.2 (List.forall_mem_singleton.2 rejectionDiagnostic_about),
      about_pure⟩

mutual

theorem element_about (span : Span) : (e : Element) → (c.element span e).About c.rule.name
  | .reference _ => about_pure
  | .literal _ | .charClass _ | .negated _ => symbol_about
  | .sequence elements => about_bind.2 ⟨items_about span elements, about_pure⟩
  | .block marks alternatives =>
    about_bind.2 ⟨block_about (branches_about marks.span alternatives), about_pure⟩

theorem items_about (span : Span) : (elements : List Element) →
    (c.items span elements).About c.rule.name
  | [] => about_pure
  | e :: rest =>
    about_bind.2 ⟨element_about span e, about_bind.2 ⟨items_about span rest, about_pure⟩⟩

theorem branches_about (span : Span) : (alternatives : List Element) →
    (c.branches span alternatives).About c.rule.name
  | [] => about_pure
  | e :: rest => by
    have others := branches_about span rest
    by_cases accepted : c.accepts e
    · rw [branches_cons accepted]
      refine about_bind.2 ⟨?_, about_bind.2 ⟨others, about_pure⟩⟩
      cases e with
      | sequence elements => exact items_about span elements
      | literal | charClass | negated | reference | block =>
        exact about_bind.2 ⟨element_about span _, about_pure⟩
    · rw [branches, if_neg accepted]
      exact others

end

end CompileContext

namespace Grammar

variable {g : Grammar} {options : CompileOptions}

/-- Every finding in a rule names it. -/
theorem compiledBody_about (g : Grammar) (options : CompileOptions) (r : Rule) :
    (g.compiledBody options r).About r.name :=
  CompileContext.block_about (c := ⟨g, options, r⟩) (CompileContext.branches_about _ _)

theorem compileRules_diagnostics {table : InlineTable} {rules : List Rule} :
    (compileRules g options table rules).diagnostics =
      rules.flatMap fun r => (CompileContext.compileRule ⟨g, options, r⟩ table).diagnostics := by
  induction rules with
  | nil => rfl
  | cons r rest ih => simp [compileRules, ih]

/-- A compilation reports cycles of references first and then what is wrong with
    each rule. -/
theorem compile_diagnostics :
    (g.compile options).diagnostics = (g.inlineTable options).diagnostics ++
      g.rules.flatMap fun r => (g.compiledBody options r).diagnostics := by
  simp only [compile, Reported.diagnostics_bind, compileRules_diagnostics,
    Reported.diagnostics_pure, List.append_nil]
  congr 2
  funext r
  exact List.append_nil _

theorem inlineTable_kind {d : Diagnostic} (member : d ∈ (g.inlineTable options).diagnostics) :
    d.kind = .fragmentCycle := by
  unfold inlineTable at member
  split at member
  · obtain ⟨r, -, rfl, -⟩ := InlineTable.build_reportsCycles g d member
    rfl
  · cases member

/-- The findings that are no cycles are about one rule each. -/
theorem compile_findings :
    (g.compile options).diagnostics.filter (·.kind != .fragmentCycle) =
      (g.rules.flatMap fun r => (g.compiledBody options r).diagnostics).filter
        (·.kind != .fragmentCycle) := by
  have cycles : (g.inlineTable options).diagnostics.filter (·.kind != .fragmentCycle) = [] :=
    List.filter_eq_nil_iff.2 fun d member => by simp [inlineTable_kind member]
  rw [compile_diagnostics, List.filter_append, cycles, List.nil_append]

theorem filter_flatMap_rules {rules : List Rule} (distinct : (rules.map Rule.name).Nodup)
    {found : Rule → List Diagnostic} (named : ∀ r, ∀ d ∈ found r, d.rule = some r.name) {r : Rule}
    (member : r ∈ rules) : (rules.flatMap found).filter (·.rule == some r.name) = found r := by
  have own (r : Rule) : (found r).filter (·.rule == some r.name) = found r :=
    List.filter_eq_self.2 fun d member => by simp [named r d member]
  have foreign {r other : Rule} (differs : other.name ≠ r.name) :
      (found other).filter (·.rule == some r.name) = [] :=
    List.filter_eq_nil_iff.2 fun d member => by simp [named other d member, differs]
  induction rules with
  | nil => cases member
  | cons first rest ih =>
    obtain ⟨fresh, distinct⟩ := List.nodup_cons.1 distinct
    rw [List.flatMap_cons, List.filter_append]
    rcases List.mem_cons.1 member with rfl | member
    · have others : (rest.flatMap found).filter (·.rule == some r.name) = [] := by
        rw [List.filter_flatMap, List.flatMap_eq_nil_iff]
        exact fun other inside => foreign fun same => fresh (same ▸ List.mem_map_of_mem inside)
      rw [own, others, List.append_nil]
    · have differs : first.name ≠ r.name := fun same => fresh (same ▸ List.mem_map_of_mem member)
      rw [foreign differs, ih distinct member, List.nil_append]

/-- The findings that name a rule and are no cycles are those in the rule. -/
theorem findings_of_rule {r : Rule} (member : r ∈ g.rules) {p : Diagnostic → Bool}
    (calm : ∀ d, p d = true → d.kind ≠ .fragmentCycle) :
    ((g.compile options).diagnostics.filter (·.rule == some r.name)).filter p =
      (g.compiledBody options r).diagnostics.filter p := by
  have cycles :
      ((g.inlineTable options).diagnostics.filter (·.rule == some r.name)).filter p = [] :=
    List.filter_eq_nil_iff.2 fun d member passed =>
      calm d passed (inlineTable_kind (List.mem_of_mem_filter member))
  have named (r : Rule) (d) (inside : d ∈ (g.compiledBody options r).diagnostics) :
      d.rule = some r.name := (g.compiledBody_about options r d inside).1
  rw [compile_diagnostics, List.filter_append, List.filter_append, cycles, List.nil_append,
    filter_flatMap_rules g.distinct named member]

/-- Cycles of references are no errors. -/
theorem compileStrict_isOk_iff :
    (∃ compiled, g.compileStrict options = .ok compiled) ↔
      ∀ d ∈ (g.compile options).diagnostics.filter (·.kind != .fragmentCycle),
        d.isError = false := by
  constructor
  · rintro ⟨compiled, made⟩ d member
    exact (compileStrict_eq_ok made).1 d (List.mem_filter.1 member).1
  · intro calm
    have clean : (g.compile options).Clean := by
      intro d member
      by_cases cycle : d.kind = .fragmentCycle
      · simp [Diagnostic.isError, Diagnostic.severity, cycle, DiagnosticKind.severity]
      · exact calm d (List.mem_filter.2 ⟨member, by simpa using cycle⟩)
    exact ⟨_, compileStrict_of_clean clean⟩

end Grammar

end SetGrammar
