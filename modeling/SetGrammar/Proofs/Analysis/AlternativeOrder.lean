import SetGrammar.Proofs.Analysis.Grouping

/-!
# The order of alternatives

Whether alternatives form one set, and which set this is, does not depend on their
order, nor on the order inside groups and under negations. Neither does the reason
to keep branches, unless alternatives change places under a negation: there the
first leaf that is no symbol decides, and leaves that are none for different reasons
can give either of them.
-/
namespace SetGrammar

namespace BranchReason

/-- The reason can be that an operand of a negation is no accepted symbol. -/
def isOfOperand : BranchReason → Bool
  | invalidNegation | inconsistentDomain => true
  | multiSymbol | ruleReference | nestedBlock | mixedNegation | empty | disabled => false

/-- Two reasons are the same up to what a negation objects to in its operand. -/
def AlikeForOperands (a b : BranchReason) : Prop :=
  b = a ∨ a.isOfOperand = true ∧ b.isOfOperand = true

variable {reason : BranchReason} {given given' : List (Option BranchReason)}

theorem isOfOperand_iff : reason.isOfOperand = true ↔ reason.rank ≤ 1 := by
  cases reason <;> decide

theorem AlikeForOperands.symm {other : BranchReason} (alike : reason.AlikeForOperands other) :
    other.AlikeForOperands reason := by
  obtain rfl | ⟨first, second⟩ := alike
  · exact .inl rfl
  · exact .inr ⟨second, first⟩

theorem exists_foremost {a : BranchReason} (member : some a ∈ given) :
    ∃ reason, Foremost given reason := by
  cases found : first?All given with
  | none => cases first?All_eq_none.1 found _ member
  | some reason => exact ⟨reason, first?All_eq_some.1 found⟩

theorem Foremost.congr (foremost : Foremost given reason)
    (same : ∀ a, some a ∈ given ↔ some a ∈ given') : Foremost given' reason :=
  ⟨(same reason).1 foremost.1, fun other member => foremost.2 other ((same other).2 member)⟩

/-- What operands object to takes precedence over everything else, so that it also
    is foremost among reasons that are alike. -/
theorem Foremost.alikeForOperands (foremost : Foremost given reason)
    (forth : ∀ a, some a ∈ given → ∃ b, some b ∈ given' ∧ a.AlikeForOperands b)
    (back : ∀ b, some b ∈ given' → ∃ a, some a ∈ given ∧ a.AlikeForOperands b) :
    ∃ reason', Foremost given' reason' ∧ reason.AlikeForOperands reason' := by
  obtain ⟨member, least⟩ := foremost
  obtain ⟨b, member', alike⟩ := forth reason member
  obtain ⟨reason', foremost'⟩ := exists_foremost member'
  refine ⟨reason', foremost', ?_⟩
  have before := foremost'.2 b member'
  by_cases operand : reason.isOfOperand = true
  · have near : b.isOfOperand = true := by
      rcases alike with rfl | ⟨-, near⟩
      · exact operand
      · exact near
    rw [isOfOperand_iff] at near
    exact .inr ⟨operand, isOfOperand_iff.2 (by omega)⟩
  · -- nothing that is given comes from an operand, so the same reasons are given
    have kept {a c : BranchReason} (inside : some a ∈ given) (alike : a.AlikeForOperands c) :
        c = a := by
      rcases alike with same | ⟨near, -⟩
      · exact same
      · rw [isOfOperand_iff] at operand near
        have := least a inside
        omega
    obtain ⟨a, inside, alike'⟩ := back reason' foremost'.1
    have after := least a inside
    rw [← kept inside alike'] at after
    rw [kept member alike] at before
    exact .inl (rank_inj.1 (Nat.le_antisymm before after))

end BranchReason

namespace Element

/-- Alternatives that differ by the order in which alternatives stand: in the list
    itself, in plain blocks, and in operands of negations that may be reordered. -/
inductive Reordered (mayReorder : Element → Prop) : List Element → List Element → Prop where
  | nil : Reordered mayReorder [] []
  | cons (e : Element) {a b : List Element} :
      Reordered mayReorder a b → Reordered mayReorder (e :: a) (e :: b)
  | swap (e e' : Element) (rest : List Element) :
      Reordered mayReorder (e :: e' :: rest) (e' :: e :: rest)
  | block {marks : BlockMarks} {a b rest rest' : List Element} : marks.isPlain = true →
      Reordered mayReorder a b → Reordered mayReorder rest rest' →
      Reordered mayReorder (.block marks a :: rest) (.block marks b :: rest')
  | negated {operand operand' : Element} {rest rest' : List Element} :
      mayReorder operand → mayReorder operand' → Reordered mayReorder [operand] [operand'] →
      Reordered mayReorder rest rest' →
      Reordered mayReorder (.negated operand :: rest) (.negated operand' :: rest')
  | trans {a b c : List Element} :
      Reordered mayReorder a b → Reordered mayReorder b c → Reordered mayReorder a c

/-- Leaves of reordered alternatives. They are the same but for what stands under a
    negation. -/
inductive LeafReordered (mayReorder : Element → Prop) : Element → Element → Prop where
  | same (e : Element) : LeafReordered mayReorder e e
  | negated {operand operand' : Element} : mayReorder operand → mayReorder operand' →
      Reordered mayReorder [operand] [operand'] →
      LeafReordered mayReorder (.negated operand) (.negated operand')

/-- All leaves of an operand that are no accepted symbols give the same reason. -/
def OneObjection (d : Domain) (operand : Element) : Prop :=
  ∀ leaf ∈ operand.ungrouped, ∀ leaf' ∈ operand.ungrouped, ∀ reason reason',
    leaf.symbolObjection? d = some reason → leaf'.symbolObjection? d = some reason' →
    reason' = reason

/-- A leaf adds a source to a set, as a symbol or as the negation of some. -/
inductive Adds (d : Domain) : Element → SymbolSource → Prop where
  | symbol {e : Element} {source : SymbolSource} : Gives d e source → Adds d e source
  | negated {operand leaf : Element} {source : SymbolSource} : leaf ∈ operand.ungrouped →
      Gives d leaf source → Adds d (.negated operand) source

variable {mayReorder : Element → Prop} {d : Domain} {a b : List Element} {leaf leaf' : Element}

theorem Reordered.symm (reordered : Reordered mayReorder a b) : Reordered mayReorder b a := by
  induction reordered with
  | nil => exact .nil
  | cons e _ ih => exact .cons e ih
  | swap e e' rest => exact .swap e' e rest
  | block plain _ _ ih ihRest => exact .block plain ih ihRest
  | negated may may' _ _ ih ihRest => exact .negated may' may ih ihRest
  | trans _ _ ih ih' => exact ih'.trans ih

theorem LeafReordered.trans {leaf'' : Element} (first : LeafReordered mayReorder leaf leaf')
    (second : LeafReordered mayReorder leaf' leaf'') : LeafReordered mayReorder leaf leaf'' := by
  cases first with
  | same => exact second
  | negated may may' reordered =>
    cases second with
    | same => exact .negated may may' reordered
    | negated _ may'' reordered' => exact .negated may may'' (reordered.trans reordered')

/-- Each leaf has its place among the leaves of the reordered alternatives. -/
theorem Reordered.leaves (reordered : Reordered mayReorder a b) (member : leaf ∈ ungroupedAll a) :
    ∃ leaf' ∈ ungroupedAll b, LeafReordered mayReorder leaf leaf' := by
  induction reordered generalizing leaf with
  | nil => exact ⟨leaf, member, .same leaf⟩
  | cons e _ ih =>
    rcases List.mem_append.1 member with first | later
    · exact ⟨leaf, List.mem_append_left _ first, .same leaf⟩
    · obtain ⟨leaf', inside, related⟩ := ih later
      exact ⟨leaf', List.mem_append_right _ inside, related⟩
  | swap e e' rest =>
    refine ⟨leaf, ?_, .same leaf⟩
    simp only [ungroupedAll, List.mem_append] at member ⊢
    exact or_left_comm.1 member
  | block plain _ _ ih ihRest =>
    simp only [ungroupedAll, ungrouped, plain, if_true, List.mem_append] at member ⊢
    rcases member with inside | later
    · obtain ⟨leaf', inside, related⟩ := ih inside
      exact ⟨leaf', .inl inside, related⟩
    · obtain ⟨leaf', inside, related⟩ := ihRest later
      exact ⟨leaf', .inr inside, related⟩
  | @negated operand operand' _ _ may may' inner _ _ ihRest =>
    simp only [ungroupedAll, ungrouped, List.singleton_append, List.mem_cons] at member ⊢
    rcases member with rfl | later
    · exact ⟨.negated operand', .inl rfl, .negated may may' inner⟩
    · obtain ⟨leaf', inside, related⟩ := ihRest later
      exact ⟨leaf', .inr inside, related⟩
  | trans _ _ ih ih' =>
    obtain ⟨leaf', inside, related⟩ := ih member
    obtain ⟨leaf'', inside', related'⟩ := ih' inside
    exact ⟨leaf'', inside', related.trans related'⟩

theorem Reordered.operandLeaves {operand operand' : Element}
    (reordered : Reordered mayReorder [operand] [operand']) (member : leaf ∈ operand.ungrouped) :
    ∃ leaf' ∈ operand'.ungrouped, LeafReordered mayReorder leaf leaf' := by
  obtain ⟨leaf', inside, related⟩ := reordered.leaves (List.mem_append_left _ member)
  rw [ungroupedAll, ungroupedAll, List.append_nil] at inside
  exact ⟨leaf', inside, related⟩

/-! ## What leaves object to -/

theorem LeafReordered.isNegation (related : LeafReordered mayReorder leaf leaf') :
    leaf'.isNegation = leaf.isNegation := by
  cases related <;> rfl

theorem LeafReordered.symbolObjection? (related : LeafReordered mayReorder leaf leaf') :
    leaf'.symbolObjection? d = leaf.symbolObjection? d := by
  cases related <;> rfl

theorem isOfOperand_symbolObjection? {reason : BranchReason}
    (objects : leaf.symbolObjection? d = some reason) : reason.isOfOperand = true := by
  cases leaf with
  | literal symbol =>
    by_cases inside : d.contains symbol <;> simp [Element.symbolObjection?, inside] at objects
    subst objects
    rfl
  | charClass set =>
    by_cases inside : d.kind = .lexer ∧ set.isIn d = true <;>
      simp [Element.symbolObjection?, inside] at objects
    subst objects
    rfl
  | sequence | reference | negated | block =>
    cases objects
    rfl

/-- Where a negation objects, the reordered one does so too, and for the same reason
    if there is only one. -/
theorem Reordered.objection?_negated {operand operand' : Element}
    (reordered : Reordered mayReorder [operand] [operand']) {reason : BranchReason}
    (objects : (Element.negated operand).objection? d = some reason) :
    ∃ reason', (Element.negated operand').objection? d = some reason' ∧
      reason.AlikeForOperands reason' ∧ (operand.OneObjection d → reason' = reason) := by
  obtain ⟨leaf, member, given⟩ := List.exists_of_findSome?_eq_some objects
  obtain ⟨leaf', member', related⟩ := reordered.operandLeaves member
  cases objects' : (Element.negated operand').objection? d with
  | none =>
    have silent := List.findSome?_eq_none_iff.1 objects' leaf' member'
    rw [related.symbolObjection?, given] at silent
    cases silent
  | some reason' =>
    obtain ⟨other', inside', given'⟩ := List.exists_of_findSome?_eq_some objects'
    obtain ⟨other, inside, related'⟩ := reordered.symm.operandLeaves inside'
    refine ⟨reason', rfl, .inr ⟨isOfOperand_symbolObjection? given,
      isOfOperand_symbolObjection? given'⟩, fun one => ?_⟩
    exact one leaf member other inside reason reason' given (related'.symbolObjection?.trans given')

theorem LeafReordered.objection? (related : LeafReordered mayReorder leaf leaf')
    {reason : BranchReason} (objects : leaf.objection? d = some reason) :
    ∃ reason', leaf'.objection? d = some reason' ∧ reason.AlikeForOperands reason' ∧
      ((∀ operand, mayReorder operand → operand.OneObjection d) → reason' = reason) := by
  cases related with
  | same => exact ⟨reason, objects, .inl rfl, fun _ => rfl⟩
  | negated may _ reordered =>
    obtain ⟨reason', objects', alike, same⟩ := reordered.objection?_negated objects
    exact ⟨reason', objects', alike, fun one => same (one _ may)⟩

/-- What is objected to some leaf is objected to a leaf of the reordered
    alternatives. -/
theorem Reordered.objections (reordered : Reordered mayReorder a b) {reason : BranchReason}
    (given : some reason ∈ (ungroupedAll a).map (Element.objection? d)) :
    ∃ reason', some reason' ∈ (ungroupedAll b).map (Element.objection? d) ∧
      reason.AlikeForOperands reason' ∧
      ((∀ operand, mayReorder operand → operand.OneObjection d) → reason' = reason) := by
  obtain ⟨leaf, member, objects⟩ := List.mem_map.1 given
  obtain ⟨leaf', member', related⟩ := reordered.leaves member
  obtain ⟨reason', objects', alike, same⟩ := related.objection? objects
  exact ⟨reason', List.mem_map.2 ⟨leaf', member', objects'⟩, alike, same⟩

theorem Reordered.silent (reordered : Reordered mayReorder a b)
    (silent : ∀ e ∈ ungroupedAll a, e.objection? d = none) :
    ∀ e ∈ ungroupedAll b, e.objection? d = none := by
  intro e member
  cases objects : e.objection? d with
  | none => rfl
  | some reason =>
    obtain ⟨reason', given, -⟩ :=
      reordered.symm.objections (List.mem_map.2 ⟨e, member, objects⟩)
    obtain ⟨leaf, inside, objects'⟩ := List.mem_map.1 given
    cases objects'.symm.trans (silent leaf inside)

theorem Reordered.exists_isNegation (reordered : Reordered mayReorder a b) {isNegation : Bool}
    (found : ∃ e ∈ ungroupedAll a, e.isNegation = isNegation) :
    ∃ e ∈ ungroupedAll b, e.isNegation = isNegation := by
  obtain ⟨leaf, member, kind⟩ := found
  obtain ⟨leaf', member', related⟩ := reordered.leaves member
  exact ⟨leaf', member', related.isNegation.trans kind⟩

theorem Reordered.leaves_eq_nil (reordered : Reordered mayReorder a b)
    (nil : ungroupedAll a = []) : ungroupedAll b = [] := by
  refine List.eq_nil_iff_forall_not_mem.2 fun leaf member => ?_
  obtain ⟨leaf', member', -⟩ := reordered.symm.leaves member
  rw [nil] at member'
  cases member'

/-! ## What leaves add -/

theorem LeafReordered.adds (related : LeafReordered mayReorder leaf leaf') {source : SymbolSource}
    (adds : Adds d leaf source) : Adds d leaf' source := by
  cases related with
  | same => exact adds
  | negated _ _ reordered =>
    cases adds with
    | symbol gives => cases gives
    | negated member gives =>
      obtain ⟨leaf', member', related⟩ := reordered.operandLeaves member
      cases related with
      | same => exact .negated member' gives
      | negated => cases gives

/-- Of accepted symbols each gives one source, and there are no other sources. -/
theorem mem_of_gives {leaves : List Element} {sources : List SymbolSource}
    (gives : List.Forall₂ (Gives d) leaves sources) :
    (∀ leaf ∈ leaves, leaf.isNegation = false) ∧
      ∀ source, source ∈ sources ↔ ∃ leaf ∈ leaves, Gives d leaf source := by
  induction gives with
  | nil => exact ⟨nofun, by simp⟩
  | @cons leaf first _ _ one _ ih =>
    obtain ⟨symbols, ih⟩ := ih
    have symbol : leaf.isNegation = false := by cases one <;> rfl
    refine ⟨List.forall_mem_cons.2 ⟨symbol, symbols⟩, fun source => ?_⟩
    have own : Gives d leaf source ↔ source = first := by
      rw [← source_eq_ok_iff, source_eq_ok_iff.2 one, Except.ok.injEq, eq_comm]
    rw [List.mem_cons, ih, ← own]
    simp

theorem mem_ungroupedAll_iff {elements : List Element} :
    leaf ∈ ungroupedAll elements ↔ ∃ e ∈ elements, leaf ∈ e.ungrouped := by
  induction elements with
  | nil => simp [ungroupedAll]
  | cons e rest ih => rw [ungroupedAll, List.mem_append, ih]; simp

end Element

namespace Verdict

open Element

variable {mayReorder : Element → Prop} {d : Domain} {a b : List Element} {choice : SetChoice}

/-- All leaves of one set are accepted and are of its kind. -/
theorem leaves_of_set (formed : ofAlternatives a d = .set choice) :
    ungroupedAll a ≠ [] ∧ (∀ e ∈ ungroupedAll a, e.objection? d = none) ∧
      ∀ e ∈ ungroupedAll a, e.isNegation = choice.negated := by
  obtain ⟨nonempty, kind⟩ := ofAlternatives_eq_set_iff.1 formed
  rw [ofAlternatives, surveyAll_eq_ungrouped, Survey.verdict_eq_set_iff,
    reason_leaves (ungroupedAll_leaves a), BranchReason.first?All_eq_none,
    List.forall_mem_map] at formed
  refine ⟨nonempty, formed.1, ?_⟩
  rcases kind with ⟨negated, gives⟩ | ⟨negated, operands, leaves, -⟩
  · rw [negated]
    exact (mem_of_gives gives).1
  · rw [negated, leaves]
    exact List.forall_mem_map.2 fun _ _ => rfl

/-- The sources of one set are what the leaves add. -/
theorem mem_sources_iff (formed : ofAlternatives a d = .set choice) {source : SymbolSource} :
    source ∈ choice.sources ↔ ∃ leaf ∈ ungroupedAll a, Adds d leaf source := by
  obtain ⟨-, ⟨-, gives⟩ | ⟨-, operands, leaves, gives⟩⟩ := ofAlternatives_eq_set_iff.1 formed
  · obtain ⟨symbols, sources⟩ := mem_of_gives gives
    rw [sources]
    refine exists_congr fun leaf => and_congr_right fun member => ⟨.symbol, fun adds => ?_⟩
    cases adds with
    | symbol one => exact one
    | negated => cases symbols _ member
  · rw [(mem_of_gives gives).2, leaves]
    simp only [mem_ungroupedAll_iff, List.mem_map]
    constructor
    · rintro ⟨leaf, ⟨operand, member, inside⟩, one⟩
      exact ⟨_, ⟨operand, member, rfl⟩, .negated inside one⟩
    · rintro ⟨_, ⟨operand, member, rfl⟩, adds⟩
      cases adds with
      | symbol one => cases one
      | negated inside one => exact ⟨_, ⟨operand, member, inside⟩, one⟩

/-- Reordered alternatives that form one set form the same one. -/
theorem set_reordered (reordered : Reordered mayReorder a b)
    (formed : ofAlternatives a d = .set choice) :
    ∃ choice' t, ofAlternatives b d = .set choice' ∧ choice'.negated = choice.negated ∧
      choice.test d = .ok t ∧ choice'.test d = .ok t := by
  obtain ⟨nonempty, silent, kind⟩ := leaves_of_set formed
  obtain ⟨choice', formed', negated⟩ : ∃ choice', ofAlternatives b d = .set choice' ∧
      choice'.negated = choice.negated := by
    cases verdict : ofAlternatives b d with
    | set choice' =>
      obtain ⟨nonempty', -, kind'⟩ := leaves_of_set verdict
      obtain ⟨leaf, member⟩ := List.exists_mem_of_ne_nil _ nonempty
      obtain ⟨leaf', member', related⟩ := reordered.leaves member
      refine ⟨choice', rfl, ?_⟩
      rw [← kind leaf member, ← kind' leaf' member', related.isNegation]
    | branches reason =>
      rcases ofAlternatives_eq_branches_iff.1 verdict with
        ⟨given, -⟩ | ⟨-, ⟨nil, -⟩ | ⟨⟨e, member, symbol⟩, ⟨e', member', negation⟩, -⟩⟩
      · obtain ⟨leaf, member, objects⟩ := List.mem_map.1 given
        cases objects.symm.trans (reordered.silent silent leaf member)
      · exact absurd (reordered.symm.leaves_eq_nil nil) nonempty
      · obtain ⟨leaf, inside, own⟩ := reordered.symm.exists_isNegation ⟨e, member, symbol⟩
        obtain ⟨leaf', inside', own'⟩ := reordered.symm.exists_isNegation ⟨e', member', negation⟩
        cases ((own.symm.trans (kind leaf inside)).trans (kind leaf' inside').symm).trans own'
  obtain ⟨set, made, names⟩ := (surveyAll_sound a).test_ok formed
  obtain ⟨set', made', names'⟩ := (surveyAll_sound b).test_ok formed'
  have same : set' = set := by
    refine SymbolSet.eq_of_contains_iff fun s => ?_
    rw [names, names']
    refine exists_congr fun source => and_congr_left fun _ => ?_
    rw [mem_sources_iff formed, mem_sources_iff formed']
    constructor
    · rintro ⟨leaf, member, adds⟩
      obtain ⟨leaf', member', related⟩ := reordered.symm.leaves member
      exact ⟨leaf', member', related.adds adds⟩
    · rintro ⟨leaf, member, adds⟩
      obtain ⟨leaf', member', related⟩ := reordered.leaves member
      exact ⟨leaf', member', related.adds adds⟩
  rw [same, negated] at made'
  exact ⟨choice', _, formed', negated, made, made'⟩

/-- Reordered alternatives that keep their branches do so for the same reason, up to
    what a reordered operand of a negation gives. -/
theorem branches_reordered (reordered : Reordered mayReorder a b) {reason : BranchReason}
    (kept : ofAlternatives a d = .branches reason) :
    ∃ reason', ofAlternatives b d = .branches reason' ∧ reason.AlikeForOperands reason' ∧
      ((∀ operand, mayReorder operand → operand.OneObjection d) → reason' = reason) := by
  rcases ofAlternatives_eq_branches_iff.1 kept with
    foremost | ⟨silent, ⟨nil, rfl⟩ | ⟨symbol, negation, rfl⟩⟩
  · have forth (x : BranchReason) (given : some x ∈ (ungroupedAll a).map (objection? d)) :=
      reordered.objections given
    have back (x : BranchReason) (given : some x ∈ (ungroupedAll b).map (objection? d)) :=
      reordered.symm.objections given
    obtain ⟨reason', foremost', alike⟩ := foremost.alikeForOperands
      (fun x given => (forth x given).imp fun _ found => ⟨found.1, found.2.1⟩)
      (fun x given => (back x given).imp fun _ found => ⟨found.1, found.2.1.symm⟩)
    refine ⟨reason', ofAlternatives_eq_branches_iff.2 (.inl foremost'), alike, fun one => ?_⟩
    have same : BranchReason.Foremost ((ungroupedAll b).map (objection? d)) reason := by
      refine foremost.congr fun x => ⟨fun given => ?_, fun given => ?_⟩
      · obtain ⟨x', given', -, equal⟩ := forth x given
        rwa [← equal one]
      · obtain ⟨x', given', -, equal⟩ := back x given
        rwa [← equal one]
    exact BranchReason.rank_inj.1
      (Nat.le_antisymm (foremost'.2 _ same.1) (same.2 _ foremost'.1))
  · exact ⟨.empty, ofAlternatives_eq_branches_iff.2
      (.inr ⟨reordered.silent silent, .inl ⟨reordered.leaves_eq_nil nil, rfl⟩⟩), .inl rfl,
      fun _ => rfl⟩
  · exact ⟨.mixedNegation, ofAlternatives_eq_branches_iff.2 (.inr ⟨reordered.silent silent,
      .inr ⟨reordered.exists_isNegation symbol, reordered.exists_isNegation negation, rfl⟩⟩),
      .inl rfl, fun _ => rfl⟩

/-- The verdict on reordered alternatives. They form one set or keep their branches
    alike, the set has the same test, and the reason is the same unless it is what a
    reordered operand gives. It is the same in any case if no such operand has two
    objections to choose from. -/
theorem ofAlternatives_reordered (d : Domain) (reordered : Reordered mayReorder a b) :
    (∀ choice, ofAlternatives a d = .set choice → ∃ choice' t,
      ofAlternatives b d = .set choice' ∧ choice'.negated = choice.negated ∧
        choice.test d = .ok t ∧ choice'.test d = .ok t) ∧
    ∀ reason, ofAlternatives a d = .branches reason → ∃ reason',
      ofAlternatives b d = .branches reason' ∧ reason.AlikeForOperands reason' ∧
        ((∀ operand, mayReorder operand → operand.OneObjection d) → reason' = reason) :=
  ⟨fun _ => set_reordered reordered, fun _ => branches_reordered reordered⟩

/-- A negated group may change its order together with the whole list. -/
theorem ofAlternatives_reordered_negated :
    ∃ choice t, ofAlternatives [.negated (.literal 99),
        .negated (.block {} [.literal 98, .literal 97])] .lexer = .set choice ∧
      choice.negated = true ∧ choice.test .lexer = .ok t := by
  have inner : Reordered (fun _ => True) [.block {} [.literal 97, .literal 98]]
      [.block {} [.literal 98, .literal 97]] := .block rfl (.swap _ _ _) .nil
  have reordered : Reordered (fun _ => True)
      [.negated (.block {} [.literal 97, .literal 98]), .negated (.literal 99)]
      [.negated (.literal 99), .negated (.block {} [.literal 98, .literal 97])] :=
    .trans (.negated trivial trivial inner (.cons _ .nil)) (.swap _ _ _)
  obtain ⟨sets, -⟩ := ofAlternatives_reordered .lexer reordered
  obtain ⟨choice, t, formed, negated, -, made⟩ :=
    sets ⟨[.literal 97, .literal 98, .literal 99], true⟩ (by decide)
  exact ⟨choice, t, formed, negated, made⟩

/-- Under a negation the first of two leaves that are no symbols gives the reason. -/
theorem not_ofAlternatives_reordered_same :
    ¬ ∀ (a b : List Element) (d : Domain) (reason reason' : BranchReason),
      Reordered (fun _ => True) a b → ofAlternatives a d = .branches reason →
      ofAlternatives b d = .branches reason' → reason' = reason := by
  intro all
  have inner : Reordered (fun _ => True)
      [.block {} [.literal 1114112, .sequence [.literal 112, .literal 113]]]
      [.block {} [.sequence [.literal 112, .literal 113], .literal 1114112]] :=
    .block rfl (.swap _ _ _) .nil
  have same := all _ _ .lexer .inconsistentDomain .invalidNegation
    (.negated trivial trivial inner .nil) (by decide) (by decide)
  cases same

end Verdict

end SetGrammar
