import SetGrammar.Compiled.Transition
import SetGrammar.Proofs.Symbol.Membership

/-!
# What a survey names

The sources that a survey collects pass the checks of their domain again, so
that alternatives of one set always have a test. The test of a whole list names
just what the alternatives name.
-/
namespace SetGrammar

open SetGrammar.Interval

section Except

variable {ε α β : Type}

theorem except_bind_eq_ok {x : Except ε α} {f : α → Except ε β} {b : β} :
    x >>= f = .ok b ↔ ∃ a, x = .ok a ∧ f a = .ok b := by
  cases x with
  | error => exact ⟨nofun, fun ⟨_, failed, _⟩ => by cases failed⟩
  | ok a => exact ⟨fun run => ⟨a, rfl, run⟩, fun ⟨_, same, run⟩ => by cases same; exact run⟩

theorem except_pure_eq_ok {a b : α} : (pure a : Except ε α) = .ok b ↔ a = b := by
  constructor
  · intro same
    cases same
    rfl
  · rintro rfl
    rfl

end Except

theorem Rejection.ofCheck_eq_ok_iff {α : Type} {checked : Except SymbolError α} {a : α} :
    ofCheck checked = .ok a ↔ checked = .ok a := by
  cases checked <;> constructor <;> intro same <;> cases same <;> rfl

namespace SymbolSource

/-- A symbol is named by a source. -/
def Names (s : Nat) : SymbolSource → Prop
  | literal symbol => s = symbol
  | charClass set => set.contains s

/-- A source that is accepted over a domain. -/
def Fits (d : Domain) (source : SymbolSource) : Prop := ∃ row, source.intervals d = .ok row

theorem covered_intervals {d : Domain} {source : SymbolSource} {row : List Interval}
    (made : source.intervals d = .ok row) {s : Nat} : Covered row s ↔ source.Names s := by
  cases source with
  | literal symbol =>
    obtain ⟨-, -, same⟩ := except_bind_eq_ok.1 made
    cases same
    simp [covered_cons, covered_nil, contains_single, Names]
  | charClass set =>
    obtain ⟨-, -, same⟩ := except_bind_eq_ok.1 made
    cases same
    exact SymbolSet.contains_iff_covered.symm

theorem mapM_intervals {d : Domain} {sources : List SymbolSource}
    (fit : ∀ source ∈ sources, source.Fits d) :
    ∃ rows, sources.mapM (·.intervals d) = .ok rows ∧
      ∀ s, Covered rows.flatten s ↔ ∃ source ∈ sources, source.Names s := by
  induction sources with
  | nil => exact ⟨[], rfl, fun s => by simp [covered_nil]⟩
  | cons source rest ih =>
    obtain ⟨row, made⟩ := fit source (by simp)
    obtain ⟨rows, others, names⟩ := ih fun other member => fit other (by simp [member])
    refine ⟨row :: rows, ?_, fun s => ?_⟩
    · rw [List.mapM_cons, made]
      exact except_bind_eq_ok.2 ⟨row, rfl, except_bind_eq_ok.2 ⟨rows, others, rfl⟩⟩
    · rw [List.flatten_cons, covered_append, covered_intervals made, names]
      simp

theorem union_contains {d : Domain} {sources : List SymbolSource}
    (fit : ∀ source ∈ sources, source.Fits d) :
    ∃ set, union sources d = .ok set ∧
      ∀ s, set.contains s ↔ ∃ source ∈ sources, source.Names s := by
  obtain ⟨rows, made, names⟩ := mapM_intervals fit
  refine ⟨.ofIntervals rows.flatten, except_bind_eq_ok.2 ⟨rows, made, rfl⟩, fun s => ?_⟩
  rw [SymbolSet.contains_ofIntervals, names]

end SymbolSource

namespace Element

theorem source_fits {d : Domain} {e : Element} {source : SymbolSource}
    (found : e.source d = .ok source) : source.Fits d := by
  cases e with
  | literal symbol =>
    obtain ⟨u, checked, same⟩ := except_bind_eq_ok.1 found
    cases same
    exact ⟨_, except_bind_eq_ok.2 ⟨u, checked, rfl⟩⟩
  | charClass set =>
    by_cases kind : d.kind = .lexer
    · simp only [Element.source, kind, ne_eq, not_true_eq_false, if_false] at found
      obtain ⟨u, checked, same⟩ := except_bind_eq_ok.1 found
      cases same
      exact ⟨_, except_bind_eq_ok.2 ⟨u, checked, rfl⟩⟩
    · simp only [Element.source, ne_eq, kind, not_false_eq_true, if_true] at found
      cases found
  | sequence | reference | negated | block => cases found

mutual

theorem negatedSources_fit {d : Domain} : (e : Element) → {sources : List SymbolSource} →
    e.negatedSources d = .ok sources → ∀ source ∈ sources, source.Fits d
  | .block marks alternatives, sources, found => by
    unfold negatedSources at found
    split at found
    · exact negatedSourcesOfAll_fit alternatives found
    · cases found
  | .literal _, sources, found | .charClass _, sources, found | .sequence _, sources, found
  | .reference _, sources, found | .negated _, sources, found => by
    obtain ⟨source, single, same⟩ := except_bind_eq_ok.1 found
    cases same
    intro other member
    rw [List.mem_singleton.1 member]
    exact source_fits single

theorem negatedSourcesOfAll_fit {d : Domain} : (elements : List Element) →
    {sources : List SymbolSource} → negatedSourcesOfAll d elements = .ok sources →
    ∀ source ∈ sources, source.Fits d
  | [], sources, found => by
    cases found
    simp
  | e :: rest, sources, found => by
    obtain ⟨first, one, found⟩ := except_bind_eq_ok.1 found
    obtain ⟨others, all, same⟩ := except_bind_eq_ok.1 found
    cases same
    intro source member
    rcases List.mem_append.1 member with member | member
    · exact negatedSources_fit e one source member
    · exact negatedSourcesOfAll_fit rest all source member

end

end Element

namespace Survey

/-- A survey whose sources are accepted, with sources of a kind only if an
    alternative of the kind was seen. -/
structure Sound (d : Domain) (s : Survey) : Prop where
  positive : ∀ source ∈ s.positive, source.Fits d
  negative : ∀ source ∈ s.negative, source.Fits d
  anyPositive : s.anyPositive = false → s.positive = []
  anyNegative : s.anyNegative = false → s.negative = []

theorem sound_empty {d : Domain} : Sound d .empty := ⟨nofun, nofun, fun _ => rfl, fun _ => rfl⟩

theorem sound_against {d : Domain} {reason : BranchReason} : Sound d (.against reason) :=
  ⟨nofun, nofun, fun _ => rfl, fun _ => rfl⟩

theorem Sound.append {d : Domain} {a b : Survey} (first : Sound d a) (second : Sound d b) :
    Sound d (a ++ b) where
  positive source member := by
    rcases List.mem_append.1 member with member | member
    · exact first.positive source member
    · exact second.positive source member
  negative source member := by
    rcases List.mem_append.1 member with member | member
    · exact first.negative source member
    · exact second.negative source member
  anyPositive none := by
    obtain ⟨left, right⟩ := Bool.or_eq_false_iff.1 none
    show a.positive ++ b.positive = []
    rw [first.anyPositive left, second.anyPositive right, List.append_nil]
  anyNegative none := by
    obtain ⟨left, right⟩ := Bool.or_eq_false_iff.1 none
    show a.negative ++ b.negative = []
    rw [first.anyNegative left, second.anyNegative right, List.append_nil]

theorem sound_ofSource {d : Domain} {e : Element} : Sound d (.ofSource (e.source d)) := by
  cases found : e.source d with
  | error => exact sound_against
  | ok source =>
    refine ⟨fun other member => ?_, nofun, nofun, fun _ => rfl⟩
    rw [List.mem_singleton.1 member]
    exact Element.source_fits found

theorem sound_ofNegation {d : Domain} {e : Element} :
    Sound d (.ofNegation (e.negatedSources d)) := by
  cases found : e.negatedSources d with
  | error => exact sound_against
  | ok sources => exact ⟨nofun, Element.negatedSources_fit e found, fun _ => rfl, nofun⟩

end Survey

namespace Element

mutual

theorem survey_sound {d : Domain} : (e : Element) → (e.survey d).Sound d
  | .block marks alternatives => by
    unfold survey
    split
    · exact surveyAll_sound alternatives
    · exact Survey.sound_against
  | .sequence _ | .reference _ => Survey.sound_against
  | .negated _ => Survey.sound_ofNegation
  | .literal _ | .charClass _ => Survey.sound_ofSource

theorem surveyAll_sound {d : Domain} : (elements : List Element) → (surveyAll d elements).Sound d
  | [] => Survey.sound_empty
  | e :: rest => (survey_sound e).append (surveyAll_sound rest)

end

end Element

theorem BranchReason.first?_eq_none {a b : Option BranchReason} :
    first? a b = none ↔ a = none ∧ b = none := by
  cases a <;> cases b <;> simp [first?]

namespace Survey

theorem reason_append {a b : Survey} : (a ++ b).reason = none ↔ a.reason = none ∧ b.reason = none :=
  BranchReason.first?_eq_none

theorem verdict_eq_set_iff {s : Survey} {choice : SetChoice} :
    s.verdict = .set choice ↔ s.reason = none ∧
      (s.anyPositive = true ∧ s.anyNegative = false ∧ choice = ⟨s.positive, false⟩ ∨
        s.anyPositive = false ∧ s.anyNegative = true ∧ choice = ⟨s.negative, true⟩) := by
  unfold verdict
  cases s.reason <;> cases s.anyPositive <;> cases s.anyNegative <;> simp [eq_comm]

/-- Alternatives that form one set have a test, and it names what they name. -/
theorem Sound.test_ok {d : Domain} {s : Survey} {choice : SetChoice} (sound : Sound d s)
    (formed : s.verdict = .set choice) :
    ∃ set, choice.test d = .ok ⟨set, choice.negated, d⟩ ∧
      ∀ x, set.contains x ↔ ∃ source ∈ choice.sources, source.Names x := by
  have fit : ∀ source ∈ choice.sources, source.Fits d := by
    obtain ⟨-, ⟨-, -, rfl⟩ | ⟨-, -, rfl⟩⟩ := verdict_eq_set_iff.1 formed
    · exact sound.positive
    · exact sound.negative
  obtain ⟨set, made, names⟩ := SymbolSource.union_contains fit
  exact ⟨set, except_bind_eq_ok.2 ⟨set, made, rfl⟩, names⟩

end Survey

namespace Element

variable {d : Domain} {elements : List Element}

theorem surveyAll_cons {e : Element} :
    surveyAll d (e :: elements) = e.survey d ++ surveyAll d elements := rfl

theorem surveyAll_reason :
    (surveyAll d elements).reason = none ↔ ∀ e ∈ elements, (e.survey d).reason = none := by
  induction elements with
  | nil => simp [surveyAll, Survey.empty]
  | cons e rest ih => rw [surveyAll_cons, Survey.reason_append, ih, List.forall_mem_cons]

theorem surveyAll_anyPositive :
    (surveyAll d elements).anyPositive ↔ ∃ e ∈ elements, (e.survey d).anyPositive := by
  induction elements with
  | nil => simp [surveyAll, Survey.empty]
  | cons e rest ih =>
    show ((e.survey d).anyPositive || (surveyAll d rest).anyPositive) = true ↔ _
    rw [Bool.or_eq_true, ih]
    simp

theorem surveyAll_anyNegative :
    (surveyAll d elements).anyNegative ↔ ∃ e ∈ elements, (e.survey d).anyNegative := by
  induction elements with
  | nil => simp [surveyAll, Survey.empty]
  | cons e rest ih =>
    show ((e.survey d).anyNegative || (surveyAll d rest).anyNegative) = true ↔ _
    rw [Bool.or_eq_true, ih]
    simp

theorem mem_surveyAll_positive {source : SymbolSource} :
    source ∈ (surveyAll d elements).positive ↔ ∃ e ∈ elements, source ∈ (e.survey d).positive := by
  induction elements with
  | nil => simp [surveyAll, Survey.empty]
  | cons e rest ih =>
    show source ∈ (e.survey d).positive ++ (surveyAll d rest).positive ↔ _
    rw [List.mem_append, ih]
    simp

theorem mem_surveyAll_negative {source : SymbolSource} :
    source ∈ (surveyAll d elements).negative ↔ ∃ e ∈ elements, source ∈ (e.survey d).negative := by
  induction elements with
  | nil => simp [surveyAll, Survey.empty]
  | cons e rest ih =>
    show source ∈ (e.survey d).negative ++ (surveyAll d rest).negative ↔ _
    rw [List.mem_append, ih]
    simp

theorem surveyAll_singleton {e : Element} : surveyAll d [e] = e.survey d := by
  show Survey.append (e.survey d) .empty = e.survey d
  cases survey : e.survey d with
  | mk positive negative anyPositive anyNegative reason =>
    cases reason <;> simp [Survey.append, Survey.empty, BranchReason.first?]

end Element

theorem SetTest.admits_some {t : SetTest} {s : Nat} :
    t.admits (some s) ↔
      t.domain.contains s ∧ if t.negated then ¬ t.named.contains s else t.named.contains s := by
  rw [admits, Bool.and_eq_true]
  cases t.negated <;> simp

end SetGrammar
