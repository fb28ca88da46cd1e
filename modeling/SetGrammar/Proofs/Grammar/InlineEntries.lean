import Mathlib
import SetGrammar.Proofs.Grammar.Exposed
import SetGrammar.Proofs.Grammar.Inlining

/-!
# Which rules have an entry in the inline table

A rule has an entry just when its set can be derived from the sets of the rules
it exposes. The search finishes some rules without a set because it met a rule of
its own path below them. No set is lost by this. All rules on the path lead to the
rule that is visited, so that one of them met again leads back to itself, and
neither such a rule nor any that exposes it has a derivation.
-/
namespace SetGrammar

theorem formedSet?_eq_some_iff {alternatives : List Element} {set : SymbolSet} :
    formedSet? alternatives = some set ↔
      ∃ choice test, Verdict.ofAlternatives alternatives .lexer = .set choice ∧
        choice.test .lexer = .ok test ∧ test.admissible = set := by
  unfold formedSet?
  cases Verdict.ofAlternatives alternatives .lexer with
  | branches => simp
  | set choice => cases made : choice.test .lexer <;> simp [Except.toOption, made]

theorem Rule.isInlinable_iff {r : Rule} :
    r.isInlinable = true ↔
      r.isLexer = true ∧ r.command = none ∧ r.body.marks.isPlain = true := by
  simp [isInlinable, and_assoc]

namespace Grammar

/-- The sets that rules are known to have. A lexer rule without a command and
    with a plain body has a set if every rule it exposes has one and its
    alternatives form the set once these rules are replaced by theirs. -/
inductive HasSet (g : Grammar) : String → SymbolSet → Prop where
  | intro {name : String} {r : Rule} {choice : SetChoice} {test : SetTest}
      (sets : String → SymbolSet) :
      g.rule? name = some r → r.isLexer = true → r.command = none → r.body.marks.isPlain = true →
      (∀ target ∈ Element.exposedReferencesOfAll r.body.alternatives,
        g.HasSet target (sets target)) →
      Verdict.ofAlternatives (Element.replaceExposedInAll
        (fun target => some (.charClass (sets target))) r.body.alternatives) .lexer =
          .set choice →
      choice.test .lexer = .ok test →
      g.HasSet name test.admissible

/-- A rule that may have an entry exposes another. -/
def Exposes (g : Grammar) (name target : String) : Prop :=
  ∃ r, g.rule? name = some r ∧ r.isInlinable = true ∧
    target ∈ Element.exposedReferencesOfAll r.body.alternatives

variable {g : Grammar} {name : String} {set set' : SymbolSet}

/-- What a set was derived from. -/
theorem HasSet.inv (has : g.HasSet name set) :
    ∃ r, ∃ sets : String → SymbolSet, g.rule? name = some r ∧ r.isInlinable = true ∧
      (∀ target ∈ Element.exposedReferencesOfAll r.body.alternatives,
        g.HasSet target (sets target)) ∧
      formedSet? (Element.replaceExposedInAll
        (fun target => some (.charClass (sets target))) r.body.alternatives) = some set := by
  cases has with
  | intro sets rule lexer command plain exposed formed made =>
    exact ⟨_, sets, rule, Rule.isInlinable_iff.2 ⟨lexer, command, plain⟩, exposed,
      formedSet?_eq_some_iff.2 ⟨_, _, formed, made, rfl⟩⟩

theorem HasSet.of_inlined (inlined : g.Inlined name set) : g.HasSet name set := by
  induction inlined with
  | @intro name r set sets rule inlinable _ formed ih =>
    obtain ⟨lexer, command, plain⟩ := Rule.isInlinable_iff.1 inlinable
    obtain ⟨choice, test, verdict, made, rfl⟩ := formedSet?_eq_some_iff.1 formed
    have known (target) (member : target ∈ Element.exposedReferencesOfAll r.body.alternatives) :
        ∃ known, sets target = some known := by
      have replaced := Element.replacement_of_formed verdict target member
      simpa [Element.classes, Element.classOf, Option.isSome_iff_exists] using replaced
    refine .intro (fun target => (sets target).getD .empty) rule lexer command plain
      (fun target member => ?_) ?_ made
    · obtain ⟨found, same⟩ := known target member
      rw [same]
      exact ih target found same
    · rw [← verdict]
      congr 1
      refine Element.replaceExposedInAll_congr _ fun target member => ?_
      obtain ⟨found, same⟩ := known target member
      simp [Element.classes, Element.classOf, same]

theorem HasSet.unique (has : g.HasSet name set) (other : g.HasSet name set') : set = set' := by
  induction has generalizing set' with
  | @intro name r choice test sets rule _ _ _ _ formed made ih =>
    obtain ⟨r', sets', rule', -, exposed, formed'⟩ := other.inv
    obtain rfl : r = r' := Option.some.inj (rule.symm.trans rule')
    have same : Element.replaceExposedInAll (fun target => some (.charClass (sets target)))
          r.body.alternatives =
        Element.replaceExposedInAll (fun target => some (.charClass (sets' target)))
          r.body.alternatives :=
      Element.replaceExposedInAll_congr _ fun target member => by
        rw [ih target member (exposed target member)]
    rw [← same] at formed'
    exact Option.some.inj ((formedSet?_eq_some_iff.2 ⟨_, _, formed, made, rfl⟩).symm.trans formed')

/-- Derivations are finite, so a rule with a set does not lead back to itself. -/
theorem HasSet.not_cyclic (has : g.HasSet name set) :
    ¬ Relation.TransGen g.Exposes name name := by
  induction has with
  | @intro name r _ _ sets rule _ _ _ _ _ _ ih =>
    intro cycle
    obtain ⟨target, exposes, back⟩ := Relation.TransGen.head'_iff.1 cycle
    have ⟨r', rule', _, member⟩ := exposes
    obtain rfl : r = r' := Option.some.inj (rule.symm.trans rule')
    exact ih target member (.tail' back exposes)

end Grammar

namespace InlineSearch

variable {g : Grammar} {path : List String} {name : String} {s s' : InlineSearch}
  {found : Option SymbolSet}

mutual

/-- A visit of a rule that comes to an end, without a bound on its depth. -/
inductive Visits (g : Grammar) :
    List String → String → InlineSearch → Option SymbolSet → InlineSearch → Prop where
  | known {path : List String} {name : String} {s : InlineSearch} {found : Option SymbolSet} :
      s.settled.lookup name = some found → Visits g path name s found s
  | undefined {path : List String} {name : String} {s : InlineSearch} :
      s.settled.lookup name = none → g.rule? name = none → Visits g path name s none s
  | barred {path : List String} {name : String} {s : InlineSearch} {r : Rule} :
      s.settled.lookup name = none → g.rule? name = some r → r.isInlinable = false →
      Visits g path name s none (settle name none s)
  | cycle {path : List String} {name : String} {s : InlineSearch} {r : Rule} :
      s.settled.lookup name = none → g.rule? name = some r → r.isInlinable = true →
      name ∈ path → Visits g path name s none (reportCycle r s)
  | search {path : List String} {name : String} {s s' : InlineSearch} {r : Rule}
      {sets : List (String × Option SymbolSet)} {found : Option SymbolSet} :
      s.settled.lookup name = none → g.rule? name = some r → r.isInlinable = true →
      name ∉ path →
      VisitsAll g (name :: path) (Element.exposedReferencesOfAll r.body.alternatives) s sets s' →
      formedSet? (Element.replaceExposedInAll
        (fun target => Element.classOf (sets.lookup target).join) r.body.alternatives) = found →
      Visits g path name s found (settle name found s')

/-- Visits of several rules in order, with the set found for each. -/
inductive VisitsAll (g : Grammar) :
    List String → List String → InlineSearch → List (String × Option SymbolSet) →
    InlineSearch → Prop where
  | nil {path : List String} {s : InlineSearch} : VisitsAll g path [] s [] s
  | cons {path : List String} {target : String} {rest : List String}
      {s s' s'' : InlineSearch} {found : Option SymbolSet}
      {others : List (String × Option SymbolSet)} :
      Visits g path target s found s' → VisitsAll g path rest s' others s'' →
      VisitsAll g path (target :: rest) s ((target, found) :: others) s''

end

theorem visitsAll_mapM {search : String → StateM InlineSearch (Option SymbolSet)}
    (visits : ∀ target s, Visits g path target s (search target s).1 (search target s).2)
    (targets : List String) (s : InlineSearch) :
    let sets :=
      (targets.mapM fun target => return (target, ← search target) : StateM InlineSearch _) s
    VisitsAll g path targets s sets.1 sets.2 := by
  induction targets generalizing s with
  | nil => exact .nil
  | cons target rest ih =>
    rw [List.mapM_cons]
    exact .cons (visits target s) (ih _)

/-- With a depth for every rule that is not on the path the search comes to an
    end on its own. -/
theorem visits_resolve {depth : Nat} (distinct : path.Nodup)
    (defined : path ⊆ g.rules.map Rule.name) (enough : g.rules.length < depth + path.length)
    (name : String) (s : InlineSearch) :
    Visits g path name s (resolve g depth path name s).1 (resolve g depth path name s).2 := by
  induction depth generalizing path name s with
  | zero =>
    have fits : path.length ≤ (g.rules.map Rule.name).length :=
      (distinct.subperm defined).length_le
    rw [List.length_map] at fits
    omega
  | succ depth ih =>
    simp only [resolve, get_bind_apply]
    cases known : s.settled.lookup name with
    | some found => exact .known known
    | none =>
      cases rule : g.rule? name with
      | none => exact .undefined known rule
      | some r =>
        by_cases inlinable : r.isInlinable = true
        · by_cases member : name ∈ path
          · have met : path.contains name = true := List.contains_iff_mem.2 member
            simp only [inlinable, met, if_true]
            exact .cycle known rule inlinable member
          · have fresh : path.contains name = false := by simpa using member
            obtain ⟨inside, rfl⟩ := Grammar.rule?_eq_some rule
            have visits (target s) := ih (List.nodup_cons.2 ⟨member, distinct⟩)
              (List.cons_subset.2 ⟨List.mem_map_of_mem inside, defined⟩)
              (by simp only [List.length_cons]; omega) target s
            simp only [inlinable, fresh, Bool.not_true, Bool.false_eq_true, if_false]
            exact .search known rule inlinable member (visitsAll_mapM visits _ s) rfl
        · simp only [inlinable]
          exact .barred known rule (Bool.not_eq_true _ ▸ inlinable)

/-- No rule that has a set is finished without it. -/
def Complete (g : Grammar) (s : InlineSearch) : Prop :=
  ∀ name found set, (name, found) ∈ s.settled → g.HasSet name set → found = some set

theorem Complete.settle (complete : Complete g s)
    (right : ∀ set, g.HasSet name set → found = some set) :
    Complete g (settle name found s) := by
  intro other known set member has
  rcases List.mem_cons.1 member with same | member
  · cases same
    exact right set has
  · exact complete other known set member has

/-- All rules on a path lead to a rule. -/
def Leads (g : Grammar) (path : List String) (name : String) : Prop :=
  ∀ start ∈ path, Relation.TransGen g.Exposes start name

theorem Leads.cons {target : String} (leads : Leads g path name)
    (exposes : g.Exposes name target) : Leads g (name :: path) target := by
  intro start member
  rcases List.mem_cons.1 member with rfl | member
  · exact .single exposes
  · exact .tail (leads start member) exposes

mutual

theorem Visits.complete {path : List String} {name : String} {s s' : InlineSearch}
    {found : Option SymbolSet} : Visits g path name s found s' → Leads g path name →
    Complete g s → Complete g s' ∧ ∀ set, g.HasSet name set → found = some set
  | .known known, _, complete => by
    obtain ⟨before, after, split, -⟩ := List.lookup_eq_some_iff.1 known
    exact ⟨complete, fun set => complete _ _ set (by simp [split])⟩
  | .undefined _ undefined, _, complete => by
    refine ⟨complete, fun set has => ?_⟩
    obtain ⟨r, -, rule, -⟩ := has.inv
    rw [undefined] at rule
    cases rule
  | .barred _ rule barred, _, complete => by
    have unset (set) (has : g.HasSet name set) : none = some set := by
      obtain ⟨r, -, rule', inlinable, -⟩ := has.inv
      rw [rule] at rule'
      cases rule'
      rw [barred] at inlinable
      cases inlinable
    exact ⟨complete.settle unset, unset⟩
  | .cycle _ _ _ member, leads, complete =>
    ⟨complete, fun set has => absurd (leads name member) has.not_cyclic⟩
  | .search _ rule inlinable _ visits formed, leads, complete => by
    have ⟨complete', known⟩ := visits.complete
      (fun target member => leads.cons ⟨_, rule, inlinable, member⟩) complete
    have right (set) (has : g.HasSet name set) : found = some set := by
      obtain ⟨r', sets, rule', -, exposed, formed'⟩ := has.inv
      rw [rule] at rule'
      cases rule'
      rw [← formed, ← formed']
      congr 1
      refine Element.replaceExposedInAll_congr _ fun target member => ?_
      rw [known target member _ (exposed target member)]
      rfl
    exact ⟨complete'.settle right, right⟩

theorem VisitsAll.complete {path targets : List String} {s s' : InlineSearch}
    {sets : List (String × Option SymbolSet)} : VisitsAll g path targets s sets s' →
    (∀ target ∈ targets, Leads g path target) → Complete g s →
    Complete g s' ∧
      ∀ target ∈ targets, ∀ set, g.HasSet target set → sets.lookup target = some (some set)
  | .nil, _, complete => ⟨complete, nofun⟩
  | .cons visit visits, leads, complete => by
    obtain ⟨lead, leads⟩ := List.forall_mem_cons.1 leads
    obtain ⟨complete, one⟩ := visit.complete lead complete
    obtain ⟨complete, others⟩ := visits.complete leads complete
    refine ⟨complete, fun target member set has => ?_⟩
    rw [List.lookup_cons]
    split
    · rename_i same
      rw [one set (eq_of_beq same ▸ has)]
    · rename_i differs
      exact others target ((List.mem_cons.1 member).resolve_left (ne_of_beq_false differs)) set has

end

mutual

theorem Visits.grows {path : List String} {name : String} {s s' : InlineSearch}
    {found : Option SymbolSet} : Visits g path name s found s' → s.settled ⊆ s'.settled
  | .known _ | .undefined _ _ | .cycle _ _ _ _ => List.Subset.refl _
  | .barred _ _ _ => List.subset_cons_self _ _
  | .search _ _ _ _ visits _ => List.subset_cons_of_subset _ visits.grows

theorem VisitsAll.grows {path targets : List String} {s s' : InlineSearch}
    {sets : List (String × Option SymbolSet)} :
    VisitsAll g path targets s sets s' → s.settled ⊆ s'.settled
  | .nil => List.Subset.refl _
  | .cons visit visits => List.Subset.trans visit.grows visits.grows

end

/-- A rule that has a set is finished by a visit. -/
theorem Visits.finishes (visit : Visits g path name s found s') (leads : Leads g path name)
    {set : SymbolSet} (has : g.HasSet name set) : ∃ found, (name, found) ∈ s'.settled := by
  cases visit with
  | known known =>
    obtain ⟨before, after, split, -⟩ := List.lookup_eq_some_iff.1 known
    exact ⟨found, by simp [split]⟩
  | undefined _ undefined =>
    obtain ⟨r, -, rule, -⟩ := has.inv
    rw [undefined] at rule
    cases rule
  | barred | search => exact ⟨_, List.mem_cons_self⟩
  | cycle _ _ _ member => exact absurd (leads name member) has.not_cyclic

theorem VisitsAll.finishes {names : List String} {sets : List (String × Option SymbolSet)}
    (visits : VisitsAll g [] names s sets s') {set : SymbolSet} (member : name ∈ names)
    (has : g.HasSet name set) : ∃ found, (name, found) ∈ s'.settled := by
  induction names generalizing s sets with
  | nil => cases member
  | cons first rest ih =>
    cases visits with
    | cons visit visits =>
      rcases List.mem_cons.1 member with rfl | member
      · obtain ⟨found, settled⟩ := visit.finishes nofun has
        exact ⟨found, visits.grows settled⟩
      · exact ih visits member

/-- Finds the sets of rules in a given order. -/
def runOver (g : Grammar) (names : List String) : InlineSearch :=
  ((names.forM fun name => discard (resolve g (g.rules.length + 1) [] name)).run ⟨[], []⟩).2

/-- The table of the sets found. -/
def table (s : InlineSearch) : InlineTable :=
  ⟨s.settled.filterMap fun (name, set) => set.map (name, ·)⟩

theorem visitsAll_forM {search : String → StateM InlineSearch (Option SymbolSet)}
    (visits : ∀ target s, Visits g path target s (search target s).1 (search target s).2)
    (names : List String) (s : InlineSearch) :
    ∃ sets, VisitsAll g path names s sets
      ((names.forM fun name => discard (search name) : StateM InlineSearch Unit) s).2 := by
  induction names generalizing s with
  | nil => exact ⟨[], .nil⟩
  | cons name rest ih =>
    obtain ⟨sets, others⟩ := ih (search name s).2
    exact ⟨_, .cons (visits name s) others⟩

/-- The search comes to an end in every order. -/
theorem visitsAll_runOver (g : Grammar) (names : List String) :
    ∃ sets, VisitsAll g [] names ⟨[], []⟩ sets (runOver g names) :=
  visitsAll_forM (visits_resolve .nil (List.nil_subset _) (by simp)) names ⟨[], []⟩

theorem mem_table {set : SymbolSet} :
    (name, set) ∈ s.table.entries ↔ (name, some set) ∈ s.settled := by
  simp [table, List.mem_filterMap]

/-- Whichever lexer rules come first, the table has the sets that can be derived. -/
theorem find?_runOver {names : List String} {set : SymbolSet}
    (all : ∀ r ∈ g.rules, r.isLexer = true → r.name ∈ names) :
    (runOver g names).table.find? name = some set ↔ g.HasSet name set := by
  have sound {set'} (entry : (runOver g names).table.find? name = some set') :
      g.HasSet name set' := by
    obtain ⟨before, after, split, -⟩ := List.lookup_eq_some_iff.1 entry
    have sound : Sound g (runOver g names) := forM_sound resolve_derives names nofun
    exact .of_inlined (sound name set' (mem_table.1 (by simp [split])))
  refine ⟨sound, fun has => ?_⟩
  obtain ⟨r, -, rule, inlinable, -⟩ := has.inv
  obtain ⟨inside, rfl⟩ := Grammar.rule?_eq_some rule
  obtain ⟨sets, visits⟩ := visitsAll_runOver g names
  obtain ⟨found, settled⟩ :=
    visits.finishes (all r inside (Rule.isInlinable_iff.1 inlinable).1) has
  have complete : Complete g (runOver g names) := (visits.complete nofun nofun).1
  rw [complete _ _ _ settled has] at settled
  cases entry : (runOver g names).table.find? r.name with
  | some other => rw [(sound entry).unique has]
  | none => simpa using List.lookup_eq_none_iff.1 entry _ (mem_table.2 settled)

end InlineSearch

namespace Grammar

variable {g g' : Grammar} {name : String} {set : SymbolSet}

theorem rule?_eq_some_iff {r : Rule} : g.rule? name = some r ↔ r ∈ g.rules ∧ r.name = name := by
  refine ⟨rule?_eq_some, fun ⟨inside, named⟩ => ?_⟩
  cases found : g.rule? name with
  | none => exact absurd named (by simpa using List.find?_eq_none.1 found r inside)
  | some other =>
    obtain ⟨member, same⟩ := rule?_eq_some found
    rw [List.inj_on_of_nodup_map g.distinct member inside (same.trans named.symm)]

theorem rule?_of_perm (perm : g'.rules.Perm g.rules) : g'.rule? = g.rule? := by
  funext name
  ext r
  rw [rule?_eq_some_iff, rule?_eq_some_iff, perm.mem_iff]

/-- A derivation only looks rules up. -/
theorem HasSet.of_rule? (same : g'.rule? = g.rule?) (has : g.HasSet name set) :
    g'.HasSet name set := by
  induction has with
  | intro sets rule lexer command plain _ formed made ih =>
    exact .intro sets (same ▸ rule) lexer command plain ih formed made

end Grammar

namespace InlineTable

open InlineSearch

theorem find?_eq_some_iff {g : Grammar} {name : String} {set : SymbolSet} :
    (build g).1.find? name = some set ↔ g.HasSet name set :=
  find?_runOver fun _ inside lexer => List.mem_map_of_mem (List.mem_filter.2 ⟨inside, lexer⟩)

/-- The search for the entries comes to an end, and a rule has an entry just
    when its set can be derived. It matters neither in which order the rules are
    visited nor in which they were defined. -/
theorem find?_build_iff (g : Grammar) :
    (∀ names, ∃ sets, VisitsAll g [] names ⟨[], []⟩ sets (runOver g names)) ∧
      (build g).1 = (runOver g ((g.rules.filter Rule.isLexer).map Rule.name)).table ∧
      (∀ name set, (name, set) ∈ (build g).1.entries ↔ g.HasSet name set) ∧
      (∀ name set, (build g).1.find? name = some set ↔ g.HasSet name set) ∧
      (∀ names, (∀ r ∈ g.rules, r.isLexer = true → r.name ∈ names) →
        ∀ name, (runOver g names).table.find? name = (build g).1.find? name) ∧
      ∀ g' : Grammar, g'.rules.Perm g.rules →
        ∀ name, (build g').1.find? name = (build g).1.find? name := by
  refine ⟨visitsAll_runOver g, rfl, fun name set => ⟨fun member => ?_, fun has => ?_⟩,
    fun name set => find?_eq_some_iff, fun names all name => ?_, fun g' perm name => ?_⟩
  · exact .of_inlined (run_sound name set (mem_table.1 member))
  · obtain ⟨before, after, split, -⟩ := List.lookup_eq_some_iff.1 (find?_eq_some_iff.2 has)
    rw [split]
    simp
  · ext set
    rw [find?_runOver all, find?_eq_some_iff]
  · ext set
    rw [find?_eq_some_iff, find?_eq_some_iff]
    exact ⟨.of_rule? (Grammar.rule?_of_perm perm).symm, .of_rule? (Grammar.rule?_of_perm perm)⟩

/-- Fragments that lead to `C` through a negation, two that lead to each other
    and one that leads to these. -/
def chainAndCycle : Grammar :=
  let plain (name : String) (alternatives : List Element) (g : Grammar) :=
    g.addFragment name ⟨{}, alternatives⟩
  plain "A" [.block {} [.reference "B"]] <|
    plain "B" [.negated (.block {} [.reference "C", .char 'x'])] <|
    plain "C" [.char 'c'] <| plain "D" [.reference "E"] <|
    plain "E" [.char 'e', .reference "D"] <| plain "F" [.reference "D", .char 'f'] <|
    .empty "ChainAndCycle"

/-- The chain has its sets in every order, and what leads to the cycle has none. -/
theorem find?_build_iff_chainAndCycle :
    (∃ set, chainAndCycle.HasSet "A" set ∧
      set.toIntervals = [⟨0, 98, by decide⟩, ⟨100, 119, by decide⟩, ⟨121, 1114111, by decide⟩]) ∧
      (∀ set, ¬ chainAndCycle.HasSet "F" set) ∧
      (runOver chainAndCycle ["A", "F", "C", "E", "B", "D"]).table.find? "A" =
        (build chainAndCycle).1.find? "A" ∧
      (build { chainAndCycle with
        rules := chainAndCycle.rules.reverse
        distinct := by decide }).1.find? "A" = (build chainAndCycle).1.find? "A" := by
  obtain ⟨-, -, -, entries, visited, defined⟩ := find?_build_iff chainAndCycle
  have found : ∃ set, (build chainAndCycle).1.find? "A" = some set ∧
      set.toIntervals = [⟨0, 98, by decide⟩, ⟨100, 119, by decide⟩, ⟨121, 1114111, by decide⟩] :=
    ⟨_, by cbv, by cbv⟩
  have missing : (build chainAndCycle).1.find? "F" = none := by cbv
  obtain ⟨set, found, intervals⟩ := found
  refine ⟨⟨set, (entries "A" set).1 found, intervals⟩, fun set has => ?_,
    visited _ (by decide) "A", defined _ (List.reverse_perm _) "A"⟩
  rw [(entries "F" set).2 has] at missing
  cases missing

end InlineTable

end SetGrammar
