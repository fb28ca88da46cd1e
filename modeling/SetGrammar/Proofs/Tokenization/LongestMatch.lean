import SetGrammar.Proofs.Tokenization.OwnMatch

/-!
# Longest matches

Among the rules tried at an index, the candidate kept is the own match of the rule
with the longest one, the earliest of them. Nothing is kept just when all own
matches are empty or absent.
-/
namespace SetGrammar

namespace CompiledGrammar

/-- Own matches of rules end before an index. -/
def EndBefore (g : CompiledGrammar) (text : String) (start : Nat) (rules : List CompiledRule)
    (last : Nat) : Prop :=
  ∀ called ∈ rules, ∀ stop bindings, g.Finds text called start (some (stop, bindings)) → stop < last

/-- A rule has the longest own match among rules, and it is not empty. Rules before
    it have shorter ones. -/
structure Wins (g : CompiledGrammar) (text : String) (start : Nat) (rules : List CompiledRule)
    (winner : CompiledRule) (stop : Nat) (bindings : List Binding) : Prop where
  finds : g.Finds text winner start (some (stop, bindings))
  advances : start < stop
  longest : ∃ before after, rules = before ++ winner :: after ∧
    g.EndBefore text start before stop ∧ g.EndBefore text start after (stop + 1)

/-- What is kept after rules were tried. -/
def Leads (g : CompiledGrammar) (text : String) (start : Nat) (tried : List CompiledRule) :
    Option Candidate → Prop
  | some c => g.Wins text start tried c.rule c.stop c.bindings
  | none => g.EndBefore text start tried (start + 1)

variable {g : CompiledGrammar} {text : String} {start : Nat} {tried : List CompiledRule}
  {called : CompiledRule}

namespace EndBefore

theorem nil {last : Nat} : g.EndBefore text start [] last := nofun

theorem append {others : List CompiledRule} {last : Nat} (first : g.EndBefore text start tried last)
    (second : g.EndBefore text start others last) :
    g.EndBefore text start (tried ++ others) last := by
  intro called member
  rcases List.mem_append.1 member with member | member
  · exact first called member
  · exact second called member

theorem mono {last last' : Nat} (ends : g.EndBefore text start tried last) (more : last ≤ last') :
    g.EndBefore text start tried last' :=
  fun called member stop bindings finds =>
    Nat.lt_of_lt_of_le (ends called member stop bindings finds) more

theorem of_none (finds : g.Finds text called start none) {last : Nat} :
    g.EndBefore text start [called] last := by
  intro other member stop bindings finds'
  cases List.mem_singleton.1 member
  cases finds.unique finds'

theorem of_some {stop last : Nat} {bindings : List Binding}
    (finds : g.Finds text called start (some (stop, bindings))) (before : stop < last) :
    g.EndBefore text start [called] last := by
  intro other member stop' bindings' finds'
  cases List.mem_singleton.1 member
  cases finds.unique finds'
  exact before

end EndBefore

namespace Wins

variable {winner : CompiledRule} {stop : Nat} {bindings : List Binding}

theorem mem (wins : g.Wins text start tried winner stop bindings) : winner ∈ tried := by
  obtain ⟨before, after, rfl, -⟩ := wins.longest
  simp

/-- No own match is longer. -/
theorem endBefore (wins : g.Wins text start tried winner stop bindings) :
    g.EndBefore text start tried (stop + 1) := by
  obtain ⟨before, after, rfl, shorter, longest⟩ := wins.longest
  have own : g.EndBefore text start [winner] (stop + 1) := .of_some wins.finds (Nat.lt_succ_self _)
  exact (shorter.mono (Nat.le_succ _)).append (own.append longest)

/-- A rule that does not match more wins no later. -/
theorem append (wins : g.Wins text start tried winner stop bindings)
    (ends : g.EndBefore text start [called] (stop + 1)) :
    g.Wins text start (tried ++ [called]) winner stop bindings := by
  obtain ⟨before, after, rfl, shorter, longest⟩ := wins.longest
  exact ⟨wins.finds, wins.advances, before, after ++ [called], by simp, shorter,
    longest.append ends⟩

/-- A rule that matches more than all before it wins. -/
theorem last (finds : g.Finds text called start (some (stop, bindings))) (advances : start < stop)
    (shorter : g.EndBefore text start tried stop) :
    g.Wins text start (tried ++ [called]) called stop bindings :=
  ⟨finds, advances, tried, [], rfl, shorter, .nil⟩

end Wins

/-- One more rule is tried. -/
theorem Leads.longer {best : Option Candidate} {own : Found} (leads : g.Leads text start tried best)
    (finds : g.Finds text called start own) :
    g.Leads text start (tried ++ [called])
      (Recognizer.longer best (Candidate.ofOwn? start called own)) := by
  -- without a candidate of the rule the best one stays
  have stays (ends : g.EndBefore text start [called] (start + 1)) :
      g.Leads text start (tried ++ [called]) (Recognizer.longer best none) := by
    cases best with
    | none => exact EndBefore.append leads ends
    | some c =>
      have advances := leads.advances
      exact Wins.append leads (ends.mono (by omega))
  cases own with
  | none => exact stays (.of_none finds)
  | some found =>
    obtain ⟨stop, bindings⟩ := found
    simp only [Candidate.ofOwn?]
    by_cases advances : start < stop
    · rw [if_pos advances]
      cases best with
      | none => exact Wins.last finds advances (leads.mono advances)
      | some c =>
        simp only [Recognizer.longer]
        by_cases more : c.stop < stop
        · rw [if_pos more]
          exact Wins.last finds advances (leads.endBefore.mono more)
        · rw [if_neg more]
          exact Wins.append leads (.of_some finds (by omega))
    · rw [if_neg advances]
      exact stays (.of_some finds (by omega))

end CompiledGrammar

namespace Recognizer

variable {g : CompiledGrammar} {text : String} {limits : Limits} {start : Nat}

/-- After all rules were tried, each of them has an own match to be compared. Every
    trial leaves the log empty for the next one. -/
theorem bestCandidate_ok {tried rules : List CompiledRule} {best c : Option Candidate}
    {s s' : RunState} (unbound : s.bindings = []) (leads : g.Leads text start tried best)
    (run : Recognizer.bestCandidate ⟨g, .lexer, .ofText text, limits⟩ start best rules s =
      .ok c s') :
    s.Tries s' ∧ g.Leads text start (tried ++ rules) c ∧
      ∀ called ∈ rules, ∃ own, g.Finds text called start own := by
  induction rules generalizing tried best s with
  | nil =>
    obtain ⟨rfl, rfl⟩ := Run.pure_eq_ok.1 run
    rw [List.append_nil]
    exact ⟨.refl s, leads, nofun⟩
  | cons called rest ih =>
    unfold bestCandidate at run
    obtain ⟨next, s₁, trying, others⟩ := Run.bind_eq_ok.1 run
    obtain ⟨tries, own, finds, rfl⟩ := candidate_ok unbound trying
    obtain ⟨tries', leads', found⟩ := ih (tries.bindings.trans unbound) (leads.longer finds) others
    rw [List.append_assoc, List.singleton_append] at leads'
    exact ⟨tries.trans tries', leads', List.forall_mem_cons.2 ⟨⟨own, finds⟩, found⟩⟩

end Recognizer

end SetGrammar
