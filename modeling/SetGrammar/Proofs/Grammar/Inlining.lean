import SetGrammar.Proofs.Grammar.Replacement

/-!
# Entries of the inline table

Every entry of the table has a derivation: the rule may be inlined, and its
alternatives form the set of the entry once the rules they expose are replaced
by sets that have derivations themselves.
-/
namespace SetGrammar

/-- The set of a rule with derivations for all sets that it is made with. -/
inductive Grammar.Inlined (g : Grammar) : String → SymbolSet → Prop where
  | intro {name : String} {r : Rule} {set : SymbolSet} (sets : String → Option SymbolSet) :
      g.rule? name = some r → r.isInlinable = true →
      (∀ target known, sets target = some known → g.Inlined target known) →
      formedSet? (Element.replaceExposedInAll (Element.classes sets) r.body.alternatives) =
        some set →
      g.Inlined name set

namespace InlineSearch

variable {g : Grammar}

/-- Every set found so far has a derivation. -/
def Sound (g : Grammar) (s : InlineSearch) : Prop :=
  ∀ name set, (name, some set) ∈ s.settled → g.Inlined name set

theorem Sound.settle {s : InlineSearch} {name : String} {found : Option SymbolSet}
    (sound : Sound g s) (derived : ∀ set, found = some set → g.Inlined name set) :
    Sound g (settle name found s) := by
  intro other set member
  rcases List.mem_cons.1 member with same | member
  · cases same
    exact derived set rfl
  · exact sound other set member

theorem Sound.of_lookup {s : InlineSearch} {name : String} {set : SymbolSet} (sound : Sound g s)
    (found : s.settled.lookup name = some (some set)) : g.Inlined name set := by
  obtain ⟨before, after, split, -⟩ := List.lookup_eq_some_iff.1 found
  exact sound name set (by simp [split])

/-- A search that returns a derived set and keeps all sets derived. -/
def Derives (g : Grammar) (search : String → StateM InlineSearch (Option SymbolSet)) : Prop :=
  ∀ name s, Sound g s →
    (∀ set, (search name s).1 = some set → g.Inlined name set) ∧ Sound g (search name s).2

theorem mapM_sound {search : String → StateM InlineSearch (Option SymbolSet)}
    (derives : Derives g search) (names : List String) {s : InlineSearch} (sound : Sound g s) :
    let pairs :=
      (names.mapM fun target => return (target, ← search target) : StateM InlineSearch _) s
    (∀ target set, (target, some set) ∈ pairs.1 → g.Inlined target set) ∧ Sound g pairs.2 := by
  induction names generalizing s with
  | nil => exact ⟨nofun, sound⟩
  | cons name rest ih =>
    obtain ⟨derived, kept⟩ := derives name s sound
    obtain ⟨others, sound'⟩ := ih kept
    rw [List.mapM_cons]
    refine ⟨fun target set member => ?_, sound'⟩
    rcases List.mem_cons.1 member with same | member
    · obtain ⟨rfl, found⟩ := Prod.mk.inj same
      exact derived set found.symm
    · exact others target set member

/-- The sets found for the exposed rules give a derivation for the rule. -/
theorem inlined_of_pairs {pairs : List (String × Option SymbolSet)} {name : String} {r : Rule}
    {set : SymbolSet} (derived : ∀ target set, (target, some set) ∈ pairs → g.Inlined target set)
    (found : g.rule? name = some r) (inlinable : r.isInlinable = true)
    (formed : formedSet? (Element.replaceExposedInAll
      (fun target => Element.classOf (pairs.lookup target).join) r.body.alternatives) = some set) :
    g.Inlined name set := by
  refine .intro (fun target => (pairs.lookup target).join) found inlinable ?_ formed
  intro target known joined
  obtain ⟨before, after, split, -⟩ :=
    List.lookup_eq_some_iff.1 (Option.join_eq_some_iff.1 joined)
  exact derived target known (by simp [split])

theorem get_bind_apply {α : Type} {f : InlineSearch → StateM InlineSearch α} {s : InlineSearch} :
    ((get : StateM InlineSearch InlineSearch) >>= f) s = f s s := rfl

theorem resolve_derives {depth : Nat} {path : List String} : Derives g (resolve g depth path) := by
  induction depth generalizing path with
  | zero => exact fun name s sound => ⟨nofun, sound⟩
  | succ depth ih =>
    intro name s sound
    simp only [resolve, get_bind_apply]
    cases known : s.settled.lookup name with
    | some found =>
      refine ⟨fun set same => ?_, sound⟩
      have same : found = some set := same
      rw [same] at known
      exact sound.of_lookup known
    | none =>
      cases rule : g.rule? name with
      | none => exact ⟨nofun, sound⟩
      | some r =>
        by_cases inlinable : r.isInlinable = true
        · by_cases cycle : path.contains name = true
          · simp only [inlinable, cycle, if_true]
            exact ⟨nofun, sound⟩
          · have derives : Derives g (resolve g depth (name :: path)) := ih
            obtain ⟨derived, sound'⟩ :=
              mapM_sound derives (Element.exposedReferencesOfAll r.body.alternatives) sound
            simp only [inlinable, cycle, Bool.not_true, Bool.false_eq_true, if_false]
            exact ⟨fun set => inlined_of_pairs derived rule inlinable,
              sound'.settle fun set => inlined_of_pairs derived rule inlinable⟩
        · simp only [inlinable]
          exact ⟨nofun, sound.settle nofun⟩

theorem forM_sound {search : String → StateM InlineSearch (Option SymbolSet)}
    (derives : Derives g search) (names : List String) {s : InlineSearch} (sound : Sound g s) :
    Sound g ((names.forM fun name => discard (search name) : StateM InlineSearch Unit) s).2 := by
  induction names generalizing s with
  | nil => exact sound
  | cons name rest ih => exact ih (derives name s sound).2

theorem run_sound : Sound g (run g) := forM_sound resolve_derives _ nofun

end InlineSearch

theorem InlineTable.inlined_of_find? {g : Grammar} {name : String} {set : SymbolSet}
    (found : (InlineTable.build g).1.find? name = some set) : g.Inlined name set := by
  obtain ⟨before, after, split, -⟩ := List.lookup_eq_some_iff.1 found
  have member : (name, set) ∈ (InlineTable.build g).1.entries := by
    rw [split]
    simp
  obtain ⟨⟨_, result⟩, settled, entry⟩ := List.mem_filterMap.1 member
  obtain ⟨known, rfl, same⟩ := Option.map_eq_some_iff.1 entry
  cases same
  exact InlineSearch.run_sound name set settled

end SetGrammar
