import Mathlib.Data.List.Forall2
import SetGrammar.Proofs.Compilation.Labels

/-!
# Compiled bodies beside their sources

A compiled body is read beside the body of the rule as it was written, block by
block. In a block that keeps branches there is one sequence for each alternative that
was kept, and in it one element for each item. So all that can be missing is whole
alternatives, and labels of blocks. Of references only this is known here, that at most
one symbol took the place of each.
-/
namespace SetGrammar

/-- A block with its alternatives, those of them that were kept, and what the
    block became. -/
structure BlockPair where
  marks : BlockMarks
  alternatives : List Element
  kept : List Element
  compiled : CompiledBlock

mutual

/-- A block of a rule became a compiled block, with the pairs of all blocks on the
    way. A block that is one set has no blocks of its own. -/
inductive BlockBecomes (d : Domain) :
    BlockMarks → List Element → CompiledBlock → List BlockPair → Prop where
  | set {marks : BlockMarks} {alternatives kept resolved : List Element} {choice : SetChoice}
      {t : SetTest} :
      kept.Sublist alternatives → Element.AllResolveTo kept resolved →
      Verdict.ofAlternatives resolved d = .set choice → choice.test d = .ok t →
      BlockBecomes d marks alternatives (.set ⟨t, marks.quantifier, marks.label⟩)
        [⟨marks, alternatives, kept, .set ⟨t, marks.quantifier, marks.label⟩⟩]
  | branches {marks : BlockMarks} {alternatives kept : List Element}
      {compiled : List CompiledSequence} {label : Option String} {reason : BranchReason}
      {pairs : List BlockPair} :
      kept.Sublist alternatives → AlternativesBecome d kept compiled pairs →
      BlockBecomes d marks alternatives (.branches compiled marks.quantifier label reason)
        (⟨marks, alternatives, kept, .branches compiled marks.quantifier label reason⟩ :: pairs)

/-- Each alternative became a sequence. -/
inductive AlternativesBecome (d : Domain) :
    List Element → List CompiledSequence → List BlockPair → Prop where
  | nil : AlternativesBecome d [] [] []
  | cons {e : Element} {rest : List Element} {sequence : CompiledSequence}
      {compiled : List CompiledSequence} {pairs others : List BlockPair} :
      ItemsBecome d e.items sequence pairs → AlternativesBecome d rest compiled others →
      AlternativesBecome d (e :: rest) (sequence :: compiled) (pairs ++ others)

/-- Each item became an element. -/
inductive ItemsBecome (d : Domain) :
    List Element → CompiledSequence → List BlockPair → Prop where
  | nil : ItemsBecome d [] [] []
  | cons {e : Element} {rest : List Element} {element : CompiledElement}
      {sequence : CompiledSequence} {pairs others : List BlockPair} :
      ItemBecomes d e element pairs → ItemsBecome d rest sequence others →
      ItemsBecome d (e :: rest) (element :: sequence) (pairs ++ others)

/-- An item became an element, a reference either a call or the symbol that took its
    place. A sequence among the items is a block with one alternative. -/
inductive ItemBecomes (d : Domain) : Element → CompiledElement → List BlockPair → Prop where
  | symbol {e resolved : Element} {t : SetTest} :
      e.ResolvesTo resolved → resolved.test d = .ok t → ItemBecomes d e (.set (.ofTest t)) []
  | call {name : String} : ItemBecomes d (.reference name) (.call name) []
  | block {marks : BlockMarks} {alternatives : List Element} {compiled : CompiledBlock}
      {pairs : List BlockPair} :
      BlockBecomes d marks alternatives compiled pairs →
      ItemBecomes d (.block marks alternatives) (.block compiled) pairs
  | sequence {span : Span} {items : List Element} {compiled : CompiledBlock}
      {pairs : List BlockPair} :
      BlockBecomes d ⟨.once, none, span⟩ [.sequence items] compiled pairs →
      ItemBecomes d (.sequence items) (.block compiled) pairs

end

theorem ItemsBecome.length {d : Domain} {elements : List Element} {sequence : CompiledSequence}
    {pairs : List BlockPair} : ItemsBecome d elements sequence pairs →
    sequence.length = elements.length
  | .nil => rfl
  | .cons _ rest => by rw [List.length_cons, List.length_cons, rest.length]

theorem AlternativesBecome.lengths {d : Domain} {kept : List Element}
    {compiled : List CompiledSequence} {pairs : List BlockPair} :
    AlternativesBecome d kept compiled pairs →
    List.Forall₂ (fun e sequence => sequence.length = e.items.length) kept compiled
  | .nil => .nil
  | .cons items rest => .cons items.length rest.lengths

/-- A block kept its alternatives and its label. -/
def BlockPair.Whole (p : BlockPair) : Prop :=
  p.kept = p.alternatives ∧ p.compiled.label = p.marks.label

mutual

/-- Where all blocks are whole no label is missing. -/
theorem BlockBecomes.labels {d : Domain} {marks : BlockMarks} {alternatives : List Element}
    {compiled : CompiledBlock} {pairs : List BlockPair} :
    BlockBecomes d marks alternatives compiled pairs → (∀ p ∈ pairs, p.Whole) →
    compiled.labels = Block.labels ⟨marks, alternatives⟩
  | .set _ resolved formed _, whole => by
    obtain ⟨same, label⟩ := List.forall_mem_singleton.1 whole
    dsimp only at same label
    rw [Block.labels, ← same, ← resolved.labels, Element.labelsOfAll_of_set formed,
      List.append_nil, ← label]
    rfl
  | .branches _ become, whole => by
    obtain ⟨⟨same, label⟩, inner⟩ := List.forall_mem_cons.1 whole
    dsimp only at same label
    rw [Block.labels, ← same, ← become.labels inner, ← label]
    rfl

theorem AlternativesBecome.labels {d : Domain} {kept : List Element}
    {compiled : List CompiledSequence} {pairs : List BlockPair} :
    AlternativesBecome d kept compiled pairs → (∀ p ∈ pairs, p.Whole) →
    labelsOfBranches compiled = Element.labelsOfAll kept
  | .nil, _ => rfl
  | .cons items rest, whole => by
    obtain ⟨first, others⟩ := List.forall_mem_append.1 whole
    rw [labelsOfBranches, Element.labelsOfAll, items.labels first, rest.labels others,
      Element.labelsOfAll_items]

theorem ItemsBecome.labels {d : Domain} {elements : List Element} {sequence : CompiledSequence}
    {pairs : List BlockPair} : ItemsBecome d elements sequence pairs → (∀ p ∈ pairs, p.Whole) →
    labelsOfSequence sequence = Element.labelsOfAll elements
  | .nil, _ => rfl
  | .cons item rest, whole => by
    obtain ⟨first, others⟩ := List.forall_mem_append.1 whole
    rw [labelsOfSequence, Element.labelsOfAll, item.labels first, rest.labels others]

theorem ItemBecomes.labels {d : Domain} {e : Element} {element : CompiledElement}
    {pairs : List BlockPair} : ItemBecomes d e element pairs → (∀ p ∈ pairs, p.Whole) →
    element.labels = e.labels
  | .symbol resolved made, _ => (Element.labels_of_test made).symm.trans resolved.labels
  | .call, _ => rfl
  | .block become, whole => become.labels whole
  | .sequence become, whole => by
    rw [CompiledElement.labels, become.labels whole]
    exact List.append_nil _

end

end SetGrammar
