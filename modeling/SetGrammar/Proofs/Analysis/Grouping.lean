import SetGrammar.Proofs.Analysis.Survey
import SetGrammar.Proofs.Symbol.Complement

/-!
# Verdicts on leaves

Plain blocks only group, so that a verdict is about the leaves that remain when
they are dissolved. Leaves form one set if all of them are accepted symbols or
all of them are negations of such. Any other leaf gives a reason to keep branches,
and the foremost of these reasons is the verdict.
-/
namespace SetGrammar

section Except

variable {ε α β : Type}

theorem mapM_eq_ok_iff {f : α → Except ε β} {as : List α} {bs : List β} :
    as.mapM f = .ok bs ↔ List.Forall₂ (fun a b => f a = .ok b) as bs := by
  induction as generalizing bs with
  | nil => rw [List.mapM_nil, except_pure_eq_ok, List.forall₂_nil_left_iff, eq_comm]
  | cons a rest ih =>
    rw [List.mapM_cons, except_bind_eq_ok]
    constructor
    · rintro ⟨b, first, more⟩
      obtain ⟨others, run, same⟩ := except_bind_eq_ok.1 more
      rw [← except_pure_eq_ok.1 same]
      exact .cons first (ih.1 run)
    · intro all
      cases all with
      | cons first others =>
        exact ⟨_, first, except_bind_eq_ok.2 ⟨_, ih.2 others, rfl⟩⟩

end Except

namespace BranchReason

variable {a b : Option BranchReason} {given : List (Option BranchReason)} {reason : BranchReason}
  {n : Nat}

theorem rank_inj {a b : BranchReason} : a.rank = b.rank ↔ a = b := by
  refine ⟨fun same => ?_, congrArg rank⟩
  cases a <;> cases b <;> first | rfl | cases same

theorem first?_assoc (a b c : Option BranchReason) :
    first? (first? a b) c = first? a (first? b c) := by
  cases a <;> cases b <;> cases c <;> simp only [first?]
  simp only [first]
  split_ifs <;> first | rfl | omega

theorem of_first?_eq_some (found : first? a b = some reason) :
    a = some reason ∨ b = some reason := by
  cases a <;> cases b <;> simp only [first?, first] at found
  · cases found
  · exact .inr found
  · exact .inl found
  · split_ifs at found
    · exact .inl found
    · exact .inr found

/-- No reason has a rank below a bound. -/
def AllFrom (n : Nat) (given : Option BranchReason) : Prop := ∀ other ∈ given, n ≤ other.rank

theorem allFrom_first? : AllFrom n (first? a b) ↔ AllFrom n a ∧ AllFrom n b := by
  cases a <;> cases b <;> simp only [first?, AllFrom, Option.mem_def, reduceCtorEq, false_implies,
    implies_true, true_and, and_true, Option.some.injEq, forall_eq']
  unfold first
  split_ifs <;> omega

/-- The foremost of several reasons. -/
def first?All (given : List (Option BranchReason)) : Option BranchReason := given.foldr first? none

theorem of_first?All_eq_some (found : first?All given = some reason) : some reason ∈ given := by
  induction given with
  | nil => cases found
  | cons a rest ih =>
    rcases of_first?_eq_some found with rfl | found
    · exact List.mem_cons_self
    · exact List.mem_cons_of_mem _ (ih found)

theorem allFrom_first?All : AllFrom n (first?All given) ↔ ∀ a ∈ given, AllFrom n a := by
  induction given with
  | nil => simp [first?All, AllFrom]
  | cons a rest ih =>
    rw [first?All, List.foldr_cons, allFrom_first?, List.forall_mem_cons, ← ih]
    rfl

/-- A reason that is given and that no other precedes. -/
def Foremost (given : List (Option BranchReason)) (reason : BranchReason) : Prop :=
  some reason ∈ given ∧ ∀ other, some other ∈ given → reason.rank ≤ other.rank

theorem first?All_eq_some : first?All given = some reason ↔ Foremost given reason := by
  constructor
  · intro found
    refine ⟨of_first?All_eq_some found, fun other member => ?_⟩
    have least : AllFrom reason.rank (first?All given) := by simp [found, AllFrom]
    exact allFrom_first?All.1 least _ member other rfl
  · rintro ⟨member, least⟩
    cases found : first?All given with
    | none =>
      have above : AllFrom (reason.rank + 1) (first?All given) := by simp [found, AllFrom]
      have := allFrom_first?All.1 above _ member reason rfl
      omega
    | some other =>
      have after := least other (of_first?All_eq_some found)
      have from_other : AllFrom other.rank (first?All given) := by simp [found, AllFrom]
      have before := allFrom_first?All.1 from_other _ member reason rfl
      rw [rank_inj.1 (Nat.le_antisymm before after)]

theorem first?All_eq_none : first?All given = none ↔ ∀ a ∈ given, a = none := by
  induction given with
  | nil => simp [first?All]
  | cons a rest ih =>
    rw [first?All, List.foldr_cons, first?_eq_none, List.forall_mem_cons, ← ih]
    rfl

end BranchReason

namespace Survey

theorem append_assoc (a b c : Survey) : a ++ b ++ c = a ++ (b ++ c) := by
  show append (append a b) c = append a (append b c)
  simp only [append, List.append_assoc, Bool.or_assoc, BranchReason.first?_assoc]

theorem empty_append (a : Survey) : empty ++ a = a := by
  show append empty a = a
  simp [append, empty, BranchReason.first?]

theorem verdict_eq_branches_iff {s : Survey} {reason : BranchReason} :
    s.verdict = .branches reason ↔ s.reason = some reason ∨ s.reason = none ∧
      (s.anyPositive = false ∧ s.anyNegative = false ∧ reason = .empty ∨
        s.anyPositive = true ∧ s.anyNegative = true ∧ reason = .mixedNegation) := by
  unfold verdict
  cases s.reason <;> cases s.anyPositive <;> cases s.anyNegative <;> simp [eq_comm]

end Survey

namespace Element

mutual

/-- The leaves of an alternative, which remain when plain blocks are dissolved. -/
def ungrouped : Element → List Element
  | block marks alternatives =>
    if marks.isPlain then ungroupedAll alternatives else [block marks alternatives]
  | e => [e]

/-- The leaves of several alternatives in order. -/
def ungroupedAll : List Element → List Element
  | [] => []
  | e :: rest => ungrouped e ++ ungroupedAll rest

end

/-- An element is an alternative itself or stands below plain blocks of it. -/
inductive InGroup (e : Element) : Element → Prop where
  | self : InGroup e e
  | block {marks : BlockMarks} {alternatives : List Element} {a : Element} :
      marks.isPlain = true → a ∈ alternatives → InGroup e a → InGroup e (.block marks alternatives)

/-- Whether an element is no plain block. -/
def isLeaf : Element → Bool
  | block marks _ => !marks.isPlain
  | _ => true

/-- Whether an element is a sequence, a reference or a block with a quantifier or
    a label. -/
def isCompound : Element → Bool
  | sequence _ | reference _ => true
  | block marks _ => !marks.isPlain
  | literal _ | charClass _ | negated _ => false

/-- Whether an element is a negation. -/
def isNegation : Element → Bool
  | negated _ => true
  | _ => false

/-- A literal of a domain or a class of lexer symbols in it, with its source. -/
inductive Gives (d : Domain) : Element → SymbolSource → Prop where
  | literal {symbol : Nat} : d.contains symbol = true → Gives d (.literal symbol) (.literal symbol)
  | charClass {set : SymbolSet} : d.kind = .lexer → set.isIn d = true →
      Gives d (.charClass set) (.charClass set)

/-- The reason against a set that something gives which should be one symbol. -/
def symbolObjection? (d : Domain) : Element → Option BranchReason
  | literal symbol => if d.contains symbol then none else some .inconsistentDomain
  | charClass set =>
    if d.kind = .lexer ∧ set.isIn d then none else some .inconsistentDomain
  | sequence _ | reference _ | negated _ | block _ _ => some .invalidNegation

/-- The reason against a set that a leaf gives. A negation gives that of the first
    leaf of its operand that has one. -/
def objection? (d : Domain) : Element → Option BranchReason
  | sequence _ => some .multiSymbol
  | reference _ => some .ruleReference
  | block _ _ => some .nestedBlock
  | negated operand => operand.ungrouped.findSome? (symbolObjection? d)
  | literal symbol => symbolObjection? d (.literal symbol)
  | charClass set => symbolObjection? d (.charClass set)

variable {d : Domain} {leaf : Element}

theorem inGroup_block {marks : BlockMarks} {alternatives : List Element} :
    leaf.InGroup (block marks alternatives) ↔ leaf = block marks alternatives ∨
      marks.isPlain = true ∧ ∃ a ∈ alternatives, leaf.InGroup a := by
  constructor
  · intro inside
    cases inside with
    | self => exact .inl rfl
    | block plain member inside => exact .inr ⟨plain, _, member, inside⟩
  · rintro (rfl | ⟨plain, a, member, inside⟩)
    · exact .self
    · exact .block plain member inside

mutual

theorem mem_ungrouped : (e : Element) →
    (leaf ∈ e.ungrouped ↔ leaf.isLeaf = true ∧ leaf.InGroup e)
  | .literal _ | .charClass _ | .sequence _ | .reference _ | .negated _ => by
    rw [ungrouped, List.mem_singleton]
    · constructor
      · rintro rfl
        exact ⟨rfl, .self⟩
      · rintro ⟨-, inside⟩
        cases inside
        rfl
    all_goals exact nofun
  | .block marks alternatives => by
    rw [ungrouped, inGroup_block]
    by_cases plain : marks.isPlain
    · rw [if_pos plain, mem_ungroupedAll alternatives]
      constructor
      · rintro ⟨isLeaf, inside⟩
        exact ⟨isLeaf, .inr ⟨plain, inside⟩⟩
      · rintro ⟨isLeaf, rfl | ⟨-, inside⟩⟩
        · simp [Element.isLeaf, plain] at isLeaf
        · exact ⟨isLeaf, inside⟩
    · rw [if_neg plain, List.mem_singleton]
      constructor
      · rintro rfl
        exact ⟨by simp [isLeaf, plain], .inl rfl⟩
      · rintro ⟨-, same | ⟨grouping, -⟩⟩
        · exact same
        · exact absurd grouping plain

theorem mem_ungroupedAll : (elements : List Element) →
    (leaf ∈ ungroupedAll elements ↔ leaf.isLeaf = true ∧ ∃ e ∈ elements, leaf.InGroup e)
  | [] => by simp [ungroupedAll]
  | e :: rest => by
    rw [ungroupedAll, List.mem_append, mem_ungrouped e, mem_ungroupedAll rest, ← and_or_left]
    simp

end

/-! ## Sources -/

theorem source_charClass {set : SymbolSet} (kind : d.kind = .lexer) :
    (charClass set).source d =
      (Rejection.ofCheck (d.checkMembers set) >>= fun _ => pure (.charClass set)) := by
  simp only [Element.source, kind, ne_eq, not_true_eq_false, if_false]

theorem source_eq_ok_iff {e : Element} {source : SymbolSource} :
    e.source d = .ok source ↔ e.Gives d source := by
  cases e with
  | literal symbol =>
    rw [Element.source, except_bind_eq_ok]
    constructor
    · rintro ⟨⟨⟩, checked, same⟩
      rw [Rejection.ofCheck_eq_ok_iff, Domain.check_eq_ok_iff] at checked
      rw [← except_pure_eq_ok.1 same]
      exact .literal checked
    · intro gives
      cases gives with
      | literal inside =>
        exact ⟨(), Rejection.ofCheck_eq_ok_iff.2 (Domain.check_eq_ok_iff.2 inside), rfl⟩
  | charClass set =>
    by_cases kind : d.kind = .lexer
    · rw [source_charClass kind, except_bind_eq_ok]
      constructor
      · rintro ⟨⟨⟩, checked, same⟩
        rw [Rejection.ofCheck_eq_ok_iff, Domain.checkMembers_eq_ok_iff] at checked
        rw [← except_pure_eq_ok.1 same]
        exact .charClass kind (SymbolSet.isIn_iff.2 checked)
      · intro gives
        cases gives with
        | charClass _ inside =>
          have checked : d.checkMembers set = .ok () :=
            Domain.checkMembers_eq_ok_iff.2 (SymbolSet.isIn_iff.1 inside)
          exact ⟨(), Rejection.ofCheck_eq_ok_iff.2 checked, rfl⟩
    · simp only [Element.source, ne_eq, kind, not_false_eq_true, if_true]
      constructor
      · intro failed
        cases failed
      · intro gives
        cases gives
        contradiction
  | sequence | reference | negated | block => constructor <;> intro given <;> cases given

/-- The reason that a failed check gives. -/
def objectionOf {α : Type} : Except Rejection α → Option BranchReason
  | .ok _ => none
  | .error rejection => some rejection.reason

theorem objectionOf_checked {checked : Except SymbolError Unit} {source : SymbolSource}
    {inside : Prop} [Decidable inside] (decides : checked = .ok () ↔ inside) :
    objectionOf (Rejection.ofCheck checked >>= fun _ => pure source) =
      if inside then none else some .inconsistentDomain := by
  cases checked with
  | ok => rw [if_pos (decides.1 rfl)]; rfl
  | error => rw [if_neg (mt decides.2 nofun)]; rfl

theorem objectionOf_source (e : Element) : objectionOf (e.source d) = e.symbolObjection? d := by
  cases e with
  | literal symbol => exact objectionOf_checked Domain.check_eq_ok_iff
  | charClass set =>
    by_cases kind : d.kind = .lexer
    · have inside : d.checkMembers set = .ok () ↔ d.kind = .lexer ∧ set.isIn d = true := by
        rw [Domain.checkMembers_eq_ok_iff, SymbolSet.isIn_iff, and_iff_right kind]
      rw [source_charClass kind]
      exact objectionOf_checked inside
    · simp only [Element.source, symbolObjection?, kind, ne_eq, not_false_eq_true, if_true,
        false_and, if_false]
      rfl
  | sequence | reference | negated | block => rfl

theorem objectionOf_mapM {elements : List Element} :
    objectionOf (elements.mapM (·.source d)) = elements.findSome? (symbolObjection? d) := by
  induction elements with
  | nil => rfl
  | cons e rest ih =>
    rw [List.mapM_cons, List.findSome?_cons, ← objectionOf_source]
    cases first : e.source d with
    | error rejection => rfl
    | ok source =>
      show objectionOf (rest.mapM _ >>= _) = _
      rw [← ih]
      cases rest.mapM (·.source d) <;> rfl

mutual

theorem negatedSources_eq_mapM : (e : Element) →
    e.negatedSources d = e.ungrouped.mapM (·.source d)
  | .literal _ | .charClass _ | .sequence _ | .reference _ | .negated _ => by
    simp [negatedSources, ungrouped]
  | .block marks alternatives => by
    rw [negatedSources, ungrouped]
    by_cases plain : marks.isPlain
    · rw [if_pos plain, if_pos plain, negatedSourcesOfAll_eq_mapM alternatives]
    · rw [if_neg plain, if_neg plain]
      simp
      rfl

theorem negatedSourcesOfAll_eq_mapM : (elements : List Element) →
    negatedSourcesOfAll d elements = (ungroupedAll elements).mapM (·.source d)
  | [] => rfl
  | e :: rest => by
    rw [negatedSourcesOfAll, ungroupedAll, List.mapM_append, negatedSources_eq_mapM e,
      negatedSourcesOfAll_eq_mapM rest]

end

/-! ## Surveys -/

theorem surveyAll_append (a b : List Element) :
    surveyAll d (a ++ b) = surveyAll d a ++ surveyAll d b := by
  induction a with
  | nil => exact (Survey.empty_append _).symm
  | cons e rest ih =>
    rw [List.cons_append, surveyAll_cons, surveyAll_cons, ih, Survey.append_assoc]

mutual

theorem survey_eq_ungrouped : (e : Element) → e.survey d = surveyAll d e.ungrouped
  | .literal _ | .charClass _ | .sequence _ | .reference _ | .negated _ => surveyAll_singleton.symm
  | .block marks alternatives => by
    rw [ungrouped]
    by_cases plain : marks.isPlain
    · rw [if_pos plain, ← surveyAll_eq_ungrouped alternatives, survey, if_pos plain]
    · rw [if_neg plain, surveyAll_singleton]

theorem surveyAll_eq_ungrouped : (elements : List Element) →
    surveyAll d elements = surveyAll d (ungroupedAll elements)
  | [] => rfl
  | e :: rest => by
    rw [ungroupedAll, surveyAll_append, surveyAll_cons, survey_eq_ungrouped e,
      surveyAll_eq_ungrouped rest]

end

/-- What a leaf shows. It is an accepted symbol, or the negation of such, or it
    gives a reason to keep branches. -/
inductive LeafSurvey (d : Domain) (e : Element) : Survey → Prop where
  | symbol {source : SymbolSource} : e.Gives d source → e.isNegation = false →
      e.objection? d = none → LeafSurvey d e (.ofSource (.ok source))
  | negation {operand : Element} {sources : List SymbolSource} : e = .negated operand →
      List.Forall₂ (Gives d) operand.ungrouped sources → e.objection? d = none →
      LeafSurvey d e (.ofNegation (.ok sources))
  | against {reason : BranchReason} : e.objection? d = some reason →
      LeafSurvey d e (.against reason)

theorem leafSurvey_source {e : Element} (positive : e.isNegation = false)
    (objects : e.objection? d = e.symbolObjection? d) :
    LeafSurvey d e (.ofSource (e.source d)) := by
  rw [← objectionOf_source] at objects
  cases found : e.source d with
  | ok source =>
    rw [found] at objects
    exact .symbol (source_eq_ok_iff.1 found) positive objects
  | error rejection =>
    rw [found] at objects
    exact .against objects

theorem leafSurvey_negated (operand : Element) :
    LeafSurvey d (.negated operand) (.ofNegation (operand.negatedSources d)) := by
  have objects : (negated operand).objection? d = objectionOf (operand.negatedSources d) := by
    rw [objection?, ← objectionOf_mapM, negatedSources_eq_mapM]
  cases found : operand.negatedSources d with
  | ok sources =>
    rw [found] at objects
    rw [negatedSources_eq_mapM, mapM_eq_ok_iff] at found
    exact .negation rfl (found.imp fun _ _ => source_eq_ok_iff.1) objects
  | error rejection =>
    rw [found] at objects
    exact .against objects

theorem survey_leaf {e : Element} (isLeaf : e.isLeaf = true) : LeafSurvey d e (e.survey d) := by
  cases e with
  | sequence | reference => exact .against rfl
  | block marks alternatives =>
    have marked : marks.isPlain = false := by simpa [Element.isLeaf] using isLeaf
    have shown : (block marks alternatives).survey d = .against .nestedBlock := by
      simp [survey, marked]
    rw [shown]
    exact .against rfl
  | literal | charClass => exact leafSurvey_source rfl rfl
  | negated operand => exact leafSurvey_negated operand

theorem LeafSurvey.reason {e : Element} {s : Survey} (shown : LeafSurvey d e s) :
    s.reason = e.objection? d := by
  cases shown with
  | symbol _ _ objects | negation _ _ objects | against objects => rw [objects]; rfl

theorem LeafSurvey.kind {e : Element} {s : Survey} (shown : LeafSurvey d e s)
    (accepted : s.reason = none) :
    s.anyPositive = !e.isNegation ∧ s.anyNegative = e.isNegation := by
  cases shown with
  | symbol _ positive => rw [positive]; exact ⟨rfl, rfl⟩
  | negation same => rw [same]; exact ⟨rfl, rfl⟩
  | against => cases accepted

/-! ## Lists of leaves -/

section

variable {leaves : List Element} {sources : List SymbolSource}

theorem reason_leaves (all : ∀ e ∈ leaves, e.isLeaf = true) :
    (surveyAll d leaves).reason = BranchReason.first?All (leaves.map (objection? d)) := by
  induction leaves with
  | nil => rfl
  | cons e rest ih =>
    obtain ⟨first, others⟩ := List.forall_mem_cons.1 all
    show BranchReason.first? (e.survey d).reason (surveyAll d rest).reason = _
    rw [ih others, (survey_leaf first).reason]
    rfl

theorem anyPositive_leaves (all : ∀ e ∈ leaves, e.isLeaf = true)
    (accepted : (surveyAll d leaves).reason = none) :
    (surveyAll d leaves).anyPositive = true ↔ ∃ e ∈ leaves, e.isNegation = false := by
  rw [surveyAll_anyPositive]
  refine exists_congr fun e => and_congr_right fun member => ?_
  have kind := (survey_leaf (all e member)).kind (surveyAll_reason.1 accepted e member)
  simp [kind.1]

theorem anyNegative_leaves (all : ∀ e ∈ leaves, e.isLeaf = true)
    (accepted : (surveyAll d leaves).reason = none) :
    (surveyAll d leaves).anyNegative = true ↔ ∃ e ∈ leaves, e.isNegation = true := by
  rw [surveyAll_anyNegative]
  refine exists_congr fun e => and_congr_right fun member => ?_
  have kind := (survey_leaf (all e member)).kind (surveyAll_reason.1 accepted e member)
  rw [kind.2]

theorem survey_of_gives {e : Element} {source : SymbolSource} (gives : e.Gives d source) :
    e.survey d = .ofSource (.ok source) := by
  have found := source_eq_ok_iff.2 gives
  cases gives with
  | literal | charClass => exact congrArg Survey.ofSource found

/-- Leaves that are accepted symbols show their sources. -/
theorem surveyAll_of_gives (gives : List.Forall₂ (Gives d) leaves sources) :
    surveyAll d leaves = ⟨sources, [], !leaves.isEmpty, false, none⟩ := by
  induction gives with
  | nil => rfl
  | cons one _ ih => rw [surveyAll_cons, ih, survey_of_gives one]; rfl

theorem gives_of_surveyAll (all : ∀ e ∈ leaves, e.isLeaf = true)
    (accepted : (surveyAll d leaves).reason = none)
    (positive : (surveyAll d leaves).anyNegative = false) :
    List.Forall₂ (Gives d) leaves (surveyAll d leaves).positive := by
  induction leaves with
  | nil => exact .nil
  | cons e rest ih =>
    obtain ⟨first, others⟩ := List.forall_mem_cons.1 all
    obtain ⟨accepted, acceptedRest⟩ := Survey.reason_append.1 accepted
    obtain ⟨positive, positiveRest⟩ := Bool.or_eq_false_iff.1 positive
    have gives := ih others acceptedRest positiveRest
    have shown := survey_leaf (d := d) first
    show List.Forall₂ _ _ ((e.survey d).positive ++ _)
    generalize e.survey d = s at shown accepted positive ⊢
    cases shown with
    | symbol one => exact .cons one gives
    | negation => cases positive
    | against => cases accepted

theorem negatedSourcesOfAll_eq_ok_iff {operands : List Element} :
    negatedSourcesOfAll d operands = .ok sources ↔
      List.Forall₂ (Gives d) (ungroupedAll operands) sources := by
  rw [negatedSourcesOfAll_eq_mapM, mapM_eq_ok_iff]
  exact ⟨.imp fun _ _ => source_eq_ok_iff.1, .imp fun _ _ => source_eq_ok_iff.2⟩

/-- Negations of accepted symbols show the sources of their operands. -/
theorem surveyAll_of_operands {operands : List Element}
    (found : negatedSourcesOfAll d operands = .ok sources) :
    surveyAll d (operands.map .negated) = ⟨[], sources, false, !operands.isEmpty, none⟩ := by
  induction operands generalizing sources with
  | nil =>
    cases found
    rfl
  | cons operand rest ih =>
    obtain ⟨first, one, more⟩ := except_bind_eq_ok.1 found
    obtain ⟨others, run, same⟩ := except_bind_eq_ok.1 more
    rw [← except_pure_eq_ok.1 same, List.map_cons, surveyAll_cons, ih run, survey, one]
    rfl

theorem operands_of_surveyAll (all : ∀ e ∈ leaves, e.isLeaf = true)
    (accepted : (surveyAll d leaves).reason = none)
    (negative : (surveyAll d leaves).anyPositive = false) :
    ∃ operands, leaves = operands.map .negated ∧
      negatedSourcesOfAll d operands = .ok (surveyAll d leaves).negative := by
  induction leaves with
  | nil => exact ⟨[], rfl, rfl⟩
  | cons e rest ih =>
    obtain ⟨first, others⟩ := List.forall_mem_cons.1 all
    obtain ⟨accepted, acceptedRest⟩ := Survey.reason_append.1 accepted
    obtain ⟨negative, negativeRest⟩ := Bool.or_eq_false_iff.1 negative
    obtain ⟨operands, same, found⟩ := ih others acceptedRest negativeRest
    have shown := survey_leaf (d := d) first
    show ∃ operands, _ ∧ _ = Except.ok ((e.survey d).negative ++ _)
    generalize e.survey d = s at shown accepted negative ⊢
    cases shown with
    | @negation operand sources is gives =>
      have one : operand.negatedSources d = .ok sources := by
        rw [negatedSources_eq_mapM, mapM_eq_ok_iff]
        exact gives.imp fun _ _ => source_eq_ok_iff.2
      refine ⟨operand :: operands, by rw [is, same]; rfl, ?_⟩
      exact except_bind_eq_ok.2 ⟨sources, one, except_bind_eq_ok.2 ⟨_, found, rfl⟩⟩
    | symbol => cases negative
    | against => cases accepted

end

theorem ungroupedAll_leaves (alternatives : List Element) :
    ∀ e ∈ ungroupedAll alternatives, e.isLeaf = true :=
  fun _ member => ((mem_ungroupedAll alternatives).1 member).1

theorem isLeaf_of_isCompound {e : Element} (compound : e.isCompound = true) : e.isLeaf = true := by
  cases e with
  | block => exact compound
  | _ => rfl

theorem objection?_of_isCompound {e : Element} (compound : e.isCompound = true) :
    e.objection? d ≠ none := by
  cases e with
  | literal | charClass | negated => cases compound
  | sequence | reference | block => exact nofun

theorem symbolObjection?_ne_empty (e : Element) : e.symbolObjection? d ≠ some .empty := by
  cases e with
  | literal symbol => by_cases inside : d.contains symbol <;> simp [symbolObjection?, inside]
  | charClass set =>
    by_cases inside : d.kind = .lexer ∧ set.isIn d = true <;> simp [symbolObjection?, inside]
  | sequence | reference | negated | block => exact nofun

theorem objection?_ne_empty (e : Element) : e.objection? d ≠ some .empty := by
  cases e with
  | literal symbol => exact symbolObjection?_ne_empty (literal symbol)
  | charClass set => exact symbolObjection?_ne_empty (charClass set)
  | sequence | reference | block => exact nofun
  | negated operand =>
    intro given
    obtain ⟨leaf, -, empty⟩ := List.exists_of_findSome?_eq_some given
    exact symbolObjection?_ne_empty leaf empty

end Element

namespace Verdict

open Element

variable {alternatives : List Element} {d : Domain}

theorem ofAlternatives_eq_set_iff {choice : SetChoice} :
    ofAlternatives alternatives d = .set choice ↔
      ungroupedAll alternatives ≠ [] ∧
        (choice.negated = false ∧
            List.Forall₂ (Gives d) (ungroupedAll alternatives) choice.sources ∨
          choice.negated = true ∧ ∃ operands,
            ungroupedAll alternatives = operands.map .negated ∧
              List.Forall₂ (Gives d) (ungroupedAll operands) choice.sources) := by
  have all := ungroupedAll_leaves alternatives
  rw [ofAlternatives, surveyAll_eq_ungrouped, Survey.verdict_eq_set_iff]
  generalize ungroupedAll alternatives = leaves at all
  constructor
  · rintro ⟨accepted, ⟨some, none, rfl⟩ | ⟨none, some, rfl⟩⟩
    · have gives := gives_of_surveyAll all accepted none
      rw [surveyAll_of_gives gives] at some
      exact ⟨by simpa using some, .inl ⟨rfl, gives⟩⟩
    · obtain ⟨operands, rfl, found⟩ := operands_of_surveyAll all accepted none
      have gives := negatedSourcesOfAll_eq_ok_iff.1 found
      rw [surveyAll_of_operands found] at some
      exact ⟨by simpa using some, .inr ⟨rfl, operands, rfl, gives⟩⟩
  · obtain ⟨sources, negated⟩ := choice
    rintro ⟨nonempty, ⟨rfl, gives⟩ | ⟨rfl, operands, rfl, gives⟩⟩
    · rw [surveyAll_of_gives gives]
      exact ⟨rfl, .inl ⟨by simpa using nonempty, rfl, rfl⟩⟩
    · rw [surveyAll_of_operands (negatedSourcesOfAll_eq_ok_iff.2 gives)]
      exact ⟨rfl, .inr ⟨rfl, by simpa using nonempty, rfl⟩⟩

theorem ofAlternatives_eq_branches_iff {reason : BranchReason} :
    ofAlternatives alternatives d = .branches reason ↔
      BranchReason.Foremost ((ungroupedAll alternatives).map (objection? d)) reason ∨
        (∀ e ∈ ungroupedAll alternatives, e.objection? d = none) ∧
          (ungroupedAll alternatives = [] ∧ reason = .empty ∨
            (∃ e ∈ ungroupedAll alternatives, e.isNegation = false) ∧
              (∃ e ∈ ungroupedAll alternatives, e.isNegation = true) ∧
              reason = .mixedNegation) := by
  have all := ungroupedAll_leaves alternatives
  rw [ofAlternatives, surveyAll_eq_ungrouped, Survey.verdict_eq_branches_iff]
  generalize ungroupedAll alternatives = leaves at all
  have none_iff : (surveyAll d leaves).reason = none ↔ ∀ e ∈ leaves, e.objection? d = none := by
    rw [reason_leaves all, BranchReason.first?All_eq_none, List.forall_mem_map]
  refine or_congr (by rw [reason_leaves all, BranchReason.first?All_eq_some]) ?_
  rw [none_iff]
  refine and_congr_right fun accepted => ?_
  have accepted := none_iff.2 accepted
  rw [Bool.eq_false_iff, Bool.eq_false_iff, Ne, Ne, anyPositive_leaves all accepted,
    anyNegative_leaves all accepted, ← and_assoc]
  refine or_congr (and_congr_left fun _ => ?_) Iff.rfl
  constructor
  · rintro ⟨noPositive, noNegative⟩
    refine List.eq_nil_iff_forall_not_mem.2 fun e member => ?_
    cases kind : e.isNegation with
    | false => exact noPositive ⟨e, member, kind⟩
    | true => exact noNegative ⟨e, member, kind⟩
  · rintro rfl
    simp

/-- Leaves form one set if all are accepted symbols or all are negations of such,
    and the sources of the set are these symbols in order. Otherwise the verdict is
    the foremost reason that a leaf gives, or that there are leaves of both kinds,
    or that there is none. A compound leaf rules out a set whatever stands beside
    it. -/
theorem ofAlternatives_on_leaves (alternatives : List Element) (d : Domain) :
    let leaves := ungroupedAll alternatives
    (∀ leaf, leaf ∈ leaves ↔ leaf.isLeaf = true ∧ ∃ e ∈ alternatives, leaf.InGroup e) ∧
      (∀ (e : Element) source, e.source d = .ok source ↔ e.Gives d source) ∧
      (∀ choice, ofAlternatives alternatives d = .set choice ↔ leaves ≠ [] ∧
        (choice.negated = false ∧ List.Forall₂ (Gives d) leaves choice.sources ∨
          choice.negated = true ∧ ∃ operands, leaves = operands.map .negated ∧
            List.Forall₂ (Gives d) (ungroupedAll operands) choice.sources)) ∧
      (∀ reason, ofAlternatives alternatives d = .branches reason ↔
        BranchReason.Foremost (leaves.map (objection? d)) reason ∨
          (∀ e ∈ leaves, e.objection? d = none) ∧
            (leaves = [] ∧ reason = .empty ∨
              (∃ e ∈ leaves, e.isNegation = false) ∧ (∃ e ∈ leaves, e.isNegation = true) ∧
                reason = .mixedNegation)) ∧
      (ofAlternatives alternatives d = .branches .empty ↔ leaves = []) ∧
      ∀ e : Element, e.isCompound = true → (∃ a ∈ alternatives, e.InGroup a) →
        ∀ choice, ofAlternatives alternatives d ≠ .set choice := by
  intro leaves
  refine ⟨fun leaf => mem_ungroupedAll alternatives, fun e source => source_eq_ok_iff,
    fun choice => ofAlternatives_eq_set_iff, fun reason => ofAlternatives_eq_branches_iff, ?_, ?_⟩
  · rw [ofAlternatives_eq_branches_iff]
    constructor
    · rintro (⟨given, -⟩ | ⟨-, ⟨nil, -⟩ | ⟨-, -, mixed⟩⟩)
      · obtain ⟨leaf, -, empty⟩ := List.mem_map.1 given
        exact absurd empty (objection?_ne_empty leaf)
      · exact nil
      · cases mixed
    · intro nil
      exact .inr ⟨by simp [leaves, nil], .inl ⟨nil, rfl⟩⟩
  · intro e compound inside choice formed
    have member : e ∈ leaves :=
      (mem_ungroupedAll alternatives).2 ⟨isLeaf_of_isCompound compound, inside⟩
    have all := ungroupedAll_leaves alternatives
    rw [ofAlternatives, surveyAll_eq_ungrouped, Survey.verdict_eq_set_iff, reason_leaves all,
      BranchReason.first?All_eq_none, List.forall_mem_map] at formed
    exact objection?_of_isCompound compound (formed.1 e member)

/-- A sequence two blocks deep forms no set with its siblings, and the symbol outside
    the domain that one of these negates is the foremost reason. Beside a group of
    nothing a negated group forms a set of what it names. -/
theorem ofAlternatives_on_leaves_grouped :
    let deep : List Element := [.literal 97, .block {} [.block {} [.sequence [.literal 98]]],
      .negated (.block {} [.literal 99, .literal 1114112, .reference "x"])]
    let grouped : List Element := [.block {} [],
      .block {} [.negated (.block {} [.literal 97, .block {} [.literal 98]]),
        .negated (.literal 99)]]
    ofAlternatives deep .lexer = .branches .inconsistentDomain ∧
      (∀ choice, ofAlternatives deep .lexer ≠ .set choice) ∧
      ofAlternatives grouped .lexer =
        .set ⟨[.literal 97, .literal 98, .literal 99], true⟩ := by
  intro deep grouped
  obtain ⟨-, -, -, reasons, -, compound⟩ := ofAlternatives_on_leaves deep .lexer
  obtain ⟨-, -, sets, -, -, -⟩ := ofAlternatives_on_leaves grouped .lexer
  have foremost : BranchReason.Foremost ((ungroupedAll deep).map (objection? .lexer))
      .inconsistentDomain := BranchReason.first?All_eq_some.1 (by decide)
  have inside : (Element.sequence [.literal 98]).InGroup
      (.block {} [.block {} [.sequence [.literal 98]]]) :=
    .block rfl List.mem_cons_self (.block rfl List.mem_cons_self .self)
  refine ⟨(reasons _).2 (.inl foremost), compound _ rfl ⟨_, by simp [deep], inside⟩,
    (sets _).2 ⟨by decide, .inr ⟨rfl, [.block {} [.literal 97, .block {} [.literal 98]],
      .literal 99], rfl, ?_⟩⟩⟩
  exact .cons (.literal rfl) (.cons (.literal rfl) (.cons (.literal rfl) .nil))

end Verdict

end SetGrammar
