import SetGrammar.Compilation

/-!
# Precedence among findings

Of the findings about one range of one rule, those of the kind that takes precedence
are kept, in the order in which they were found. Kinds are in a linear order, so there
is always such a kind. If it was found more than once at a place, each of these findings
is kept.
-/
namespace SetGrammar

theorem DiagnosticKind.rank_inj {a b : DiagnosticKind} : a.rank = b.rank ↔ a = b := by
  constructor
  · intro same
    cases a <;> cases b <;> first | rfl | cases same
  · rintro rfl
    rfl

namespace Diagnostic

theorem SamePlace.refl (d : Diagnostic) : d.SamePlace d := ⟨rfl, rfl⟩

theorem SamePlace.symm {d e : Diagnostic} (same : d.SamePlace e) : e.SamePlace d :=
  ⟨same.1.symm, same.2.symm⟩

theorem SamePlace.trans {d e f : Diagnostic} (same : d.SamePlace e) (next : e.SamePlace f) :
    d.SamePlace f :=
  ⟨same.1.trans next.1, same.2.trans next.2⟩

end Diagnostic

variable {found : List Diagnostic} {d e : Diagnostic}

/-- No finding at its place is of an earlier kind than one that is kept. -/
theorem mem_foremost :
    d ∈ foremost found ↔
      d ∈ found ∧ ∀ e ∈ found, e.SamePlace d → d.kind.rank ≤ e.kind.rank := by
  simp [foremost]

/-- Going from a finding to one of an earlier kind at its place ends at one that is kept. -/
theorem exists_mem_foremost (member : d ∈ found) : ∃ e ∈ foremost found, e.SamePlace d := by
  induction rank : d.kind.rank using Nat.strongRecOn generalizing d with
  | ind n ih =>
    by_cases first : ∀ e ∈ found, e.SamePlace d → d.kind.rank ≤ e.kind.rank
    · exact ⟨d, mem_foremost.2 ⟨member, first⟩, .refl d⟩
    · simp only [Classical.not_forall, Nat.not_le] at first
      obtain ⟨e, others, place, earlier⟩ := first
      obtain ⟨f, kept, same⟩ := ih e.kind.rank (by omega) others rfl
      exact ⟨f, kept, same.trans place⟩

/-- Two findings that are kept at one place are of the same kind. -/
theorem kind_eq_of_mem_foremost (kept : d ∈ foremost found) (kept' : e ∈ foremost found)
    (place : e.SamePlace d) : e.kind = d.kind := by
  obtain ⟨member, first⟩ := mem_foremost.1 kept
  obtain ⟨member', first'⟩ := mem_foremost.1 kept'
  have below := first e member' place
  have above := first' d member place.symm
  exact DiagnosticKind.rank_inj.1 (by omega)

/-- All findings of the kind that takes precedence are kept at their place, and no
    others. -/
theorem filter_foremost (kept : d ∈ foremost found) :
    (foremost found).filter (·.SamePlace d) =
      found.filter fun e => e.SamePlace d ∧ e.kind = d.kind := by
  have kept_iff (e : Diagnostic) (member : e ∈ found) (place : e.SamePlace d) :
      e ∈ foremost found ↔ e.kind = d.kind := by
    constructor
    · intro kept'
      exact kind_eq_of_mem_foremost kept kept' place
    · intro same
      refine mem_foremost.2 ⟨member, fun f other there => ?_⟩
      rw [same]
      exact (mem_foremost.1 kept).2 f other (there.trans place)
  rw [foremost, List.filter_filter]
  refine List.filter_congr fun e member => ?_
  by_cases place : e.SamePlace d
  · have same := kept_iff e member place
    rw [foremost, List.mem_filter] at same
    rw [Bool.eq_iff_iff]
    simpa [place, member] using same
  · simp [place]

/-- If no kind was found twice at one place, one finding is kept there. -/
theorem filter_foremost_eq_singleton (kept : d ∈ foremost found)
    (distinct : found.Pairwise fun e f => e.SamePlace f → e.kind ≠ f.kind) :
    (foremost found).filter (·.SamePlace d) = [d] := by
  have there : d ∈ (foremost found).filter (·.SamePlace d) := by
    simp [kept, Diagnostic.SamePlace.refl]
  have alone : ((foremost found).filter (·.SamePlace d)).Pairwise fun _ _ => False := by
    rw [filter_foremost kept]
    refine (distinct.filter _).imp_of_mem fun {e f} left right differ => ?_
    simp only [List.mem_filter, decide_eq_true_eq] at left right
    obtain ⟨-, place, kind⟩ := left
    obtain ⟨-, place', kind'⟩ := right
    exact differ (place.trans place'.symm) (kind.trans kind'.symm)
  cases same : (foremost found).filter (·.SamePlace d) with
  | nil =>
    rw [same] at there
    cases there
  | cons e rest =>
    rw [same] at there alone
    cases rest with
    | nil => rw [List.mem_singleton.1 there]
    | cons f rest => exact ((List.pairwise_cons.1 alone).1 f List.mem_cons_self).elim

/-- What is kept is in the order of the findings. For each place at which something was
    found, one kind takes precedence there, and exactly the findings of this kind are
    kept. It is one finding if no kind was found twice at one place. -/
theorem foremost_at_places (found : List Diagnostic) :
    (foremost found).Sublist found ∧ ∀ d ∈ found, ∃ kind : DiagnosticKind,
      (∃ e ∈ found, e.SamePlace d ∧ e.kind = kind) ∧
      (∀ e ∈ found, e.SamePlace d → kind.rank ≤ e.kind.rank) ∧
      ((foremost found).filter (·.SamePlace d) =
        found.filter fun e => e.SamePlace d ∧ e.kind = kind) ∧
      ((found.Pairwise fun e f => e.SamePlace f → e.kind ≠ f.kind) →
        ∃ e, (foremost found).filter (·.SamePlace d) = [e] ∧ e.kind = kind) := by
  refine ⟨List.filter_sublist, fun d member => ?_⟩
  obtain ⟨e, kept, place⟩ := exists_mem_foremost member
  obtain ⟨found_e, first⟩ := mem_foremost.1 kept
  have at_place (f : Diagnostic) : f.SamePlace e ↔ f.SamePlace d :=
    ⟨fun same => same.trans place, fun same => same.trans place.symm⟩
  have same := filter_foremost kept
  simp only [at_place] at same
  refine ⟨e.kind, ⟨e, found_e, place, rfl⟩, ?_, same, ?_⟩
  · intro f other there
    exact first f other ((at_place f).2 there)
  · intro distinct
    have one := filter_foremost_eq_singleton kept distinct
    simp only [at_place] at one
    exact ⟨e, one, rfl⟩

/-- A negated sequence after an undefined rule in one block, and another undefined rule
    elsewhere. -/
def mixedFindings : List Diagnostic :=
  [⟨.undefinedRule, some "a", ⟨0, 3⟩, some "x", []⟩,
    ⟨.invalidNegationTarget, some "a", ⟨0, 3⟩, none, []⟩,
    ⟨.undefinedRule, some "a", ⟨4, 6⟩, some "y", []⟩]

/-- The negated sequence takes precedence over the undefined rule before it. -/
theorem foremost_at_places_mixed :
    ∃ d ∈ mixedFindings, d.kind = .undefinedRule ∧
      (mixedFindings.Pairwise fun e f => e.SamePlace f → e.kind ≠ f.kind) ∧
      ∃ e, (foremost mixedFindings).filter (·.SamePlace d) = [e] ∧
        e.kind = .invalidNegationTarget := by
  obtain ⟨-, each⟩ := foremost_at_places mixedFindings
  have distinct : mixedFindings.Pairwise fun e f => e.SamePlace f → e.kind ≠ f.kind := by decide
  refine ⟨_, List.mem_cons_self, rfl, distinct, ?_⟩
  obtain ⟨kind, -, least, -, one⟩ := each _ List.mem_cons_self
  obtain ⟨e, alone, same⟩ := one distinct
  refine ⟨e, alone, DiagnosticKind.rank_inj.1 ?_⟩
  have below := least ⟨.invalidNegationTarget, some "a", ⟨0, 3⟩, none, []⟩ (by decide) (by decide)
  rw [same]
  exact Nat.le_zero.1 below

/-- The rule `A : ~ab | ~cd`, neither alternative of which can be compiled. -/
def negatedTexts : Grammar :=
  ((Grammar.empty "T").addToken "A" ⟨{ span := ⟨4, 16⟩ },
    [.negated (.text ['a', 'b']), .negated (.text ['c', 'd'])]⟩).2

/-- Both alternatives are reported at their block, and both findings are kept. -/
theorem not_foremost_once :
    ¬ ∀ found : List Diagnostic, (foremost found).Sublist found ∧ ∀ d ∈ found,
      ∃ e, (foremost found).filter (·.SamePlace d) = [e] ∧
        ∀ f ∈ found, f.SamePlace d → e.kind.rank ≤ f.kind.rank := by
  intro all
  let slip : Diagnostic :=
    ⟨.invalidNegationTarget, some "A", ⟨4, 16⟩, some "cannot negate a sequence", []⟩
  have reported : (negatedTexts.compile {}).diagnostics = [slip, slip] := by decide +kernel
  obtain ⟨-, each⟩ := all (negatedTexts.compile {}).diagnostics
  rw [reported] at each
  obtain ⟨e, one, -⟩ := each slip List.mem_cons_self
  have both : (foremost [slip, slip]).filter (·.SamePlace slip) = [slip, slip] := by decide
  rw [both] at one
  cases one

end SetGrammar
