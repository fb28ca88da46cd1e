import SetGrammar.Proofs.Grammar.InlineEntries

/-!
# Cycles of references

The search for the inline table reports a rule that it meets again below itself.
Such a rule lies on a cycle, since all rules on the path lead to the rule that is
visited. A search that reports nothing has grounded every rule it visited: from
there references lead only finitely far. So a cycle anywhere among the rules that
may have an entry is reported, and no rule that leads to one has an entry.
-/
namespace SetGrammar

/-- An element refers to a rule where one symbol can stand for the whole
    alternative: by itself, in a negation or in a plain block. -/
inductive Element.Shows (target : String) : Element → Prop where
  | reference : Shows target (.reference target)
  | negated {operand : Element} : Shows target operand → Shows target (.negated operand)
  | block {marks : BlockMarks} {alternatives : List Element} {e : Element} :
      marks.isPlain = true → e ∈ alternatives → Shows target e →
      Shows target (.block marks alternatives)

namespace Element

variable {target : String}

theorem shows_block {marks : BlockMarks} {alternatives : List Element} :
    (block marks alternatives).Shows target ↔
      marks.isPlain = true ∧ ∃ e ∈ alternatives, e.Shows target := by
  constructor
  · intro shows
    cases shows with
    | block plain member inner => exact ⟨plain, _, member, inner⟩
  · rintro ⟨plain, e, member, inner⟩
    exact .block plain member inner

mutual

theorem mem_exposedReferences : (e : Element) → (target ∈ e.exposedReferences ↔ e.Shows target)
  | .literal _ | .charClass _ | .sequence _ => ⟨nofun, nofun⟩
  | .reference name => by
    rw [exposedReferences, List.mem_singleton]
    constructor
    · rintro rfl
      exact .reference
    · intro shows
      cases shows
      rfl
  | .negated operand => by
    rw [exposedReferences, mem_exposedReferences operand]
    constructor
    · exact .negated
    · intro shows
      cases shows
      assumption
  | .block marks alternatives => by
    rw [shows_block, exposedReferences]
    by_cases plain : marks.isPlain
    · simp [plain, mem_exposedReferencesOfAll alternatives]
    · simp [plain]

theorem mem_exposedReferencesOfAll : (elements : List Element) →
    (target ∈ exposedReferencesOfAll elements ↔ ∃ e ∈ elements, e.Shows target)
  | [] => by simp [exposedReferencesOfAll]
  | e :: rest => by
    rw [exposedReferencesOfAll, List.mem_append, mem_exposedReferences e,
      mem_exposedReferencesOfAll rest]
    simp

end

end Element

namespace Grammar

variable {g : Grammar} {name target : String} {set : SymbolSet}

/-- A rule refers to another or to itself, both of which may have an entry. -/
def RefersTo (g : Grammar) (name target : String) : Prop :=
  ∃ r r', g.rule? name = some r ∧ r.isInlinable = true ∧ g.rule? target = some r' ∧
    r'.isInlinable = true ∧ ∃ e ∈ r.body.alternatives, e.Shows target

theorem refersTo_iff :
    g.RefersTo name target ↔
      g.Exposes name target ∧ ∃ r, g.rule? target = some r ∧ r.isInlinable = true := by
  constructor
  · rintro ⟨r, r', rule, inlinable, rule', inlinable', shows⟩
    exact ⟨⟨r, rule, inlinable, (Element.mem_exposedReferencesOfAll _).2 shows⟩, r', rule',
      inlinable'⟩
  · rintro ⟨⟨r, rule, inlinable, member⟩, r', rule', inlinable'⟩
    exact ⟨r, r', rule, inlinable, rule', inlinable',
      (Element.mem_exposedReferencesOfAll _).1 member⟩

theorem refersTo_le_exposes : g.RefersTo ≤ g.Exposes :=
  fun _ _ refers => (refersTo_iff.1 refers).1

/-- A way between rules that may have an entry leads through such rules only. -/
theorem transGen_refersTo (way : Relation.TransGen g.Exposes name target)
    (ends : ∃ r, g.rule? target = some r ∧ r.isInlinable = true) :
    Relation.TransGen g.RefersTo name target := by
  induction way using Relation.TransGen.head_induction_on with
  | single exposes => exact .single (refersTo_iff.2 ⟨exposes, ends⟩)
  | head exposes way ih =>
    obtain ⟨_, ⟨r, rule, inlinable, -⟩, -⟩ := Relation.TransGen.head'_iff.1 way
    exact .head (refersTo_iff.2 ⟨exposes, r, rule, inlinable⟩) ih

theorem transGen_refersTo_self :
    Relation.TransGen g.RefersTo name name ↔ Relation.TransGen g.Exposes name name := by
  constructor
  · exact Relation.TransGen.mono refersTo_le_exposes name name
  · intro cycle
    obtain ⟨_, ⟨r, rule, inlinable, -⟩, -⟩ := Relation.TransGen.head'_iff.1 cycle
    exact transGen_refersTo cycle ⟨r, rule, inlinable⟩

/-- References lead only finitely far from a rule. -/
def Grounded (g : Grammar) (name : String) : Prop :=
  Acc (fun target name => g.Exposes name target) name

theorem Grounded.intro (targets : ∀ target, g.Exposes name target → g.Grounded target) :
    g.Grounded name := Acc.intro name targets

theorem Grounded.not_cyclic (grounded : g.Grounded name) :
    ¬ Relation.TransGen g.Exposes name name := by
  induction grounded with
  | intro name _ ih =>
    intro cycle
    obtain ⟨target, exposes, back⟩ := Relation.TransGen.head'_iff.1 cycle
    exact ih target exposes (.tail' back exposes)

/-- A rule without references of its own is grounded. -/
theorem Grounded.of_not_inlinable
    (barred : ∀ r, g.rule? name = some r → r.isInlinable = false) : g.Grounded name := by
  refine .intro fun target ⟨r, rule, inlinable, _⟩ => ?_
  rw [barred r rule] at inlinable
  cases inlinable

theorem HasSet.of_exposes (has : g.HasSet name set) (exposes : g.Exposes name target) :
    ∃ set, g.HasSet target set := by
  obtain ⟨r, rule, -, member⟩ := exposes
  obtain ⟨r', sets, rule', -, exposed, -⟩ := has.inv
  obtain rfl : r = r' := Option.some.inj (rule.symm.trans rule')
  exact ⟨_, exposed target member⟩

/-- Every rule that a rule with a set leads to has one too. -/
theorem HasSet.of_leads (has : g.HasSet name set)
    (leads : Relation.ReflTransGen g.Exposes name target) : ∃ set, g.HasSet target set := by
  induction leads with
  | refl => exact ⟨set, has⟩
  | tail _ exposes ih =>
    obtain ⟨_, has⟩ := ih
    exact has.of_exposes exposes

end Grammar

namespace InlineSearch

variable {g : Grammar} {path targets : List String} {name : String} {s s' : InlineSearch}
  {found : Option SymbolSet} {sets : List (String × Option SymbolSet)}

/-- Every report so far is about a rule that leads back to itself. -/
def ReportsCycles (g : Grammar) (s : InlineSearch) : Prop :=
  ∀ d ∈ s.cycles, ∃ r, g.rule? r.name = some r ∧
    d = ⟨.fragmentCycle, some r.name, r.span, some r.name, []⟩ ∧
    Relation.TransGen g.Exposes r.name r.name

theorem ReportsCycles.report {r : Rule} (sound : ReportsCycles g s)
    (rule : g.rule? name = some r) (cycle : Relation.TransGen g.Exposes name name) :
    ReportsCycles g (reportCycle r s) := by
  intro d member
  obtain ⟨-, rfl⟩ := Grammar.rule?_eq_some rule
  rcases List.mem_append.1 member with member | member
  · exact sound d member
  · exact ⟨r, rule, List.mem_singleton.1 member, cycle⟩

mutual

/-- A rule met again below itself is led to by itself. -/
theorem Visits.reportsCycles {path : List String} {name : String} {s s' : InlineSearch}
    {found : Option SymbolSet} : Visits g path name s found s' → Leads g path name →
    ReportsCycles g s → ReportsCycles g s'
  | .known _, _, sound | .undefined _ _, _, sound | .barred _ _ _, _, sound => sound
  | .cycle _ rule _ member, leads, sound => sound.report rule (leads name member)
  | .search _ rule inlinable _ visits _, leads, sound =>
    visits.reportsCycles (fun _ member => leads.cons ⟨_, rule, inlinable, member⟩) sound

theorem VisitsAll.reportsCycles {path targets : List String} {s s' : InlineSearch}
    {sets : List (String × Option SymbolSet)} : VisitsAll g path targets s sets s' →
    (∀ target ∈ targets, Leads g path target) → ReportsCycles g s → ReportsCycles g s'
  | .nil, _, sound => sound
  | .cons visit visits, leads, sound =>
    have ⟨first, others⟩ := List.forall_mem_cons.1 leads
    visits.reportsCycles others (visit.reportsCycles first sound)

end

mutual

/-- Nothing that was reported is taken back. -/
theorem Visits.silent_before {path : List String} {name : String} {s s' : InlineSearch}
    {found : Option SymbolSet} : Visits g path name s found s' → s'.cycles = [] → s.cycles = []
  | .known _, silent | .undefined _ _, silent | .barred _ _ _, silent => silent
  | .cycle _ _ _ _, silent => (List.append_eq_nil_iff.1 silent).1
  | .search _ _ _ _ visits _, silent => visits.silent_before silent

theorem VisitsAll.silent_before {path targets : List String} {s s' : InlineSearch}
    {sets : List (String × Option SymbolSet)} :
    VisitsAll g path targets s sets s' → s'.cycles = [] → s.cycles = []
  | .nil, silent => silent
  | .cons visit visits, silent => visit.silent_before (visits.silent_before silent)

end

/-- Every finished rule is grounded. -/
def AllGrounded (g : Grammar) (s : InlineSearch) : Prop :=
  ∀ name ∈ s.settled.map Prod.fst, g.Grounded name

theorem AllGrounded.settle (all : AllGrounded g s) (grounded : g.Grounded name) :
    AllGrounded g (settle name found s) :=
  List.forall_mem_cons.2 ⟨grounded, all⟩

mutual

/-- A visit that reports nothing grounds the rule: all rules that it exposes were
    grounded before it was finished. -/
theorem Visits.grounded {path : List String} {name : String} {s s' : InlineSearch}
    {found : Option SymbolSet} : Visits g path name s found s' → s'.cycles = [] →
    AllGrounded g s → AllGrounded g s' ∧ g.Grounded name
  | .known known, _, all => by
    obtain ⟨before, after, split, -⟩ := List.lookup_eq_some_iff.1 known
    exact ⟨all, all name (by simp [split])⟩
  | .undefined _ undefined, _, all => by
    refine ⟨all, .of_not_inlinable fun r rule => ?_⟩
    rw [undefined] at rule
    cases rule
  | .barred _ rule barred, _, all => by
    have grounded : g.Grounded name := .of_not_inlinable fun r' rule' => by
      rw [← Option.some.inj (rule.symm.trans rule')]
      exact barred
    exact ⟨all.settle grounded, grounded⟩
  | .cycle _ _ _ _, silent, _ => by simp [reportCycle] at silent
  | .search _ rule _ _ visits _, silent, all => by
    obtain ⟨all', targets⟩ := visits.grounded silent all
    have grounded : g.Grounded name := .intro fun target ⟨r, rule', _, member⟩ => by
      obtain rfl := Option.some.inj (rule.symm.trans rule')
      exact targets target member
    exact ⟨all'.settle grounded, grounded⟩

theorem VisitsAll.grounded {path targets : List String} {s s' : InlineSearch}
    {sets : List (String × Option SymbolSet)} : VisitsAll g path targets s sets s' →
    s'.cycles = [] → AllGrounded g s →
    AllGrounded g s' ∧ ∀ target ∈ targets, g.Grounded target
  | .nil, _, all => ⟨all, nofun⟩
  | .cons visit visits, silent, all => by
    obtain ⟨all, first⟩ := visit.grounded (visits.silent_before silent) all
    obtain ⟨all, others⟩ := visits.grounded silent all
    exact ⟨all, List.forall_mem_cons.2 ⟨first, others⟩⟩

end

end InlineSearch

namespace InlineTable

open InlineSearch

variable {g : Grammar}

theorem build_reportsCycles (g : Grammar) : ReportsCycles g (run g) := by
  obtain ⟨sets, visits⟩ := visitsAll_runOver g ((g.rules.filter Rule.isLexer).map Rule.name)
  exact visits.reportsCycles nofun nofun

/-- If nothing is reported then no rule leads back to itself. -/
theorem not_cyclic_of_silent (silent : (run g).cycles = []) (name : String) :
    ¬ Relation.TransGen g.Exposes name name := by
  intro cycle
  obtain ⟨_, ⟨r, rule, inlinable, -⟩, -⟩ := Relation.TransGen.head'_iff.1 cycle
  obtain ⟨inside, rfl⟩ := Grammar.rule?_eq_some rule
  obtain ⟨sets, visits⟩ := visitsAll_runOver g ((g.rules.filter Rule.isLexer).map Rule.name)
  obtain ⟨-, grounded⟩ := visits.grounded silent nofun
  have lexer := (Rule.isInlinable_iff.1 inlinable).1
  have visited : r.name ∈ (g.rules.filter Rule.isLexer).map Rule.name :=
    List.mem_map_of_mem (List.mem_filter.2 ⟨inside, lexer⟩)
  exact (grounded r.name visited).not_cyclic cycle

/-- A cycle is reported just when the references among the rules that may have an
    entry have one. A report names a rule on a cycle, and no rule that is on a
    cycle or leads to one has an entry. -/
theorem build_reports_iff_cyclic (g : Grammar) :
    ((∃ d ∈ (build g).2, d.kind = .fragmentCycle) ↔
        ∃ name, Relation.TransGen g.RefersTo name name) ∧
      (∀ d ∈ (build g).2, ∃ r, g.rule? r.name = some r ∧
        d = ⟨.fragmentCycle, some r.name, r.span, some r.name, []⟩ ∧
        Relation.TransGen g.RefersTo r.name r.name) ∧
      ∀ name start, Relation.ReflTransGen g.RefersTo name start →
        Relation.TransGen g.RefersTo start start → ∀ set, (name, set) ∉ (build g).1.entries := by
  have reports : ∀ d ∈ (build g).2, ∃ r, g.rule? r.name = some r ∧
      d = ⟨.fragmentCycle, some r.name, r.span, some r.name, []⟩ ∧
      Relation.TransGen g.RefersTo r.name r.name := by
    intro d member
    obtain ⟨r, rule, same, cycle⟩ := build_reportsCycles g d member
    exact ⟨r, rule, same, Grammar.transGen_refersTo_self.2 cycle⟩
  refine ⟨⟨?_, ?_⟩, reports, ?_⟩
  · rintro ⟨d, member, -⟩
    obtain ⟨r, -, -, cycle⟩ := reports d member
    exact ⟨r.name, cycle⟩
  · rintro ⟨name, cycle⟩
    cases silent : (build g).2 with
    | nil =>
      exact absurd (Grammar.transGen_refersTo_self.1 cycle) (not_cyclic_of_silent silent name)
    | cons d rest =>
      obtain ⟨r, -, rfl, -⟩ := reports d (by simp [silent])
      exact ⟨_, List.mem_cons_self, rfl⟩
  · intro name start leads cycle set member
    have has : g.HasSet name set := .of_inlined (run_sound name set (mem_table.1 member))
    obtain ⟨_, has⟩ := has.of_leads
      (Relation.ReflTransGen.mono Grammar.refersTo_le_exposes name start leads)
    exact has.not_cyclic (Grammar.transGen_refersTo_self.1 cycle)

/-- The one report names a rule on the cycle, and the rule that leads to the cycle
    has no entry. -/
theorem build_reports_iff_cyclic_chainAndCycle :
    (build chainAndCycle).2 = [⟨.fragmentCycle, some "D", ⟨0, 0⟩, some "D", []⟩] ∧
      Relation.TransGen chainAndCycle.RefersTo "D" "D" ∧
      Relation.ReflTransGen chainAndCycle.RefersTo "F" "D" ∧
      ∀ set, ("F", set) ∉ (build chainAndCycle).1.entries := by
  obtain ⟨-, reports, missing⟩ := build_reports_iff_cyclic chainAndCycle
  have found : (build chainAndCycle).2 = [⟨.fragmentCycle, some "D", ⟨0, 0⟩, some "D", []⟩] := by
    cbv
  have leads : chainAndCycle.RefersTo "F" "D" :=
    ⟨_, _, by cbv, by decide, by cbv, by decide, _, List.mem_cons_self, .reference⟩
  obtain ⟨r, -, same, cycle⟩ := reports _ (found ▸ List.mem_cons_self)
  have named : some "D" = some r.name := congrArg Diagnostic.rule same
  rw [← Option.some.inj named] at cycle
  exact ⟨found, cycle, .single leads, missing "F" "D" (.single leads) cycle⟩

end InlineTable

end SetGrammar
