import SetGrammar.Proofs.OrderedChoice

/-!
# How far trials go

Only a test uses up a symbol, and no test admits the end of the input. So a match
ends where it begins or later, it stays inside of the input, and nothing behind the
end is looked at.
-/
namespace SetGrammar

/-- There are no symbols from an index on. -/
def Input.EndsBy (input : Input) (last : Nat) : Prop := ∀ i, last ≤ i → input.symbol? i = none

namespace Input

variable {input : Input} {last i : Nat}

theorem EndsBy.mono (ends : input.EndsBy last) {later : Nat} (le : last ≤ later) :
    input.EndsBy later := fun i behind => ends i (Nat.le_trans le behind)

theorem EndsBy.lt_of_admits (ends : input.EndsBy last) {t : SetTest}
    (admits : t.admits (input.symbol? i) = true) : i < last := by
  refine Nat.lt_of_not_le fun behind => ?_
  rw [ends i behind] at admits
  cases admits

theorem endsBy_characters (text : Array Char) : (characters text).EndsBy text.size := by
  intro i behind
  simp only [symbol?, Array.getElem?_eq_none behind, Option.map_none]

theorem endIndex_ofText (text : String) : (ofText text).endIndex = text.length := by
  simp only [ofText, endIndex, List.size_toArray, String.length_toList]

theorem endsBy_ofText (text : String) : (ofText text).EndsBy text.length := by
  rw [← endIndex_ofText]
  exact endsBy_characters _

end Input

/-- A stream of tokens is always closed by an end token. -/
theorem TokenStream.isEnd_last (tokens : List Token) : (ofList tokens).last.isEnd = true := by
  unfold ofList endAfter
  cases tokens.getLast? with
  | none => rfl
  | some t =>
    by_cases closed : t.isEnd
    · simp [closed]
    · simp [closed]
      rfl

theorem Input.endsBy_ofList (tokens : List Token) :
    (Input.tokens (.ofList tokens)).EndsBy (TokenStream.ofList tokens).tokens.size := by
  intro i behind
  have last : (TokenStream.ofList tokens).token i = (TokenStream.ofList tokens).last := by
    rw [TokenStream.token, Array.getElem?_eq_none behind, Option.getD_none]
  simp only [symbol?, last, TokenStream.isEnd_last, if_true]

/-- The end of a match and its bindings, if there is a match. -/
abbrev Found := Option (Nat × List Binding)

/-- What a trial finds. -/
def Trial.found : Trial → Found
  | failed _ => none
  | matched stop bindings _ => some (stop, bindings)

/-- A match ends where it begins or later, but not after the end. -/
def Trial.EndsWithin (o : Trial) (start last : Nat) : Prop :=
  ∀ stop bindings, o.found = some (stop, bindings) → start ≤ stop ∧ (start ≤ last → stop ≤ last)

namespace Trial.EndsWithin

variable {o : Trial} {start stop last reach : Nat} {bindings : List Binding}

theorem failed : (Trial.failed reach).EndsWithin start last := nofun

theorem matched (forward : start ≤ stop) (within : start ≤ last → stop ≤ last) :
    (Trial.matched stop bindings reach).EndsWithin start last := by
  intro stop' bindings' same
  cases same
  exact ⟨forward, within⟩

theorem after (first : (Trial.matched stop bindings reach).EndsWithin start last)
    {more : List Binding} {later : Nat} (second : o.EndsWithin stop last) :
    (o.after more later).EndsWithin start last := by
  obtain ⟨forward, within⟩ := first stop bindings rfl
  cases o with
  | failed => exact .failed
  | matched stop' bindings' =>
    obtain ⟨forward', within'⟩ := second stop' bindings' rfl
    exact .matched (Nat.le_trans forward forward') fun inside => within' (within inside)

/-- What was looked at before does not matter. -/
theorem after_nil (ends : o.EndsWithin start last) : (o.after [] reach).EndsWithin start last := by
  have stays : (Trial.matched start [] 0).EndsWithin start last := matched (Nat.le_refl _) id
  exact stays.after ends

end Trial.EndsWithin

namespace Yields

variable {g : CompiledGrammar} {input : Input} {rule : String} {part : Part} {i last : Nat}
  {o : Trial}

theorem endsWithin (ends : input.EndsBy last) (yields : Yields g input rule part i o) :
    o.EndsWithin i last := by
  induction yields with
  | call _ _ ih | only _ ih | stops _ ih | first _ ih => exact ih
  | full | done => exact .matched (Nat.le_refl _) id
  | none => exact .failed
  | stalls _ _ ih =>
    obtain ⟨forward, within⟩ := ih _ _ rfl
    exact .matched forward within
  | ends =>
    unfold Trial.stay
    split
    · exact .matched (Nat.le_refl _) id
    · exact .failed
  | advances _ _ _ _ ih ihRest | goes _ _ ih ihRest => exact ih.after ihRest
  | decision _ _ ih | later _ _ _ ih => exact ih.after_nil
  | @test _ t _ i =>
    unfold Trial.ofTest
    split
    · rename_i admits
      exact .matched (Nat.le_succ i) fun _ => ends.lt_of_admits admits
    · exact .failed

/-- Wherever a match begins, it goes on before the end only. -/
theorem stop_le {stop reach : Nat} {bindings : List Binding} (ends : input.EndsBy last)
    (yields : Yields g input rule part i (.matched stop bindings reach)) :
    i ≤ stop ∧ stop ≤ max i last := by
  obtain ⟨forward, within⟩ :=
    yields.endsWithin (ends.mono (Nat.le_max_right i last)) stop bindings rfl
  exact ⟨forward, within (Nat.le_max_left i last)⟩

/-- A trial looks at the end of the input at most. -/
theorem reach_le (ends : input.EndsBy last) (yields : Yields g input rule part i o)
    (inside : i ≤ last) : o.reach ≤ last := by
  have after_le {o : Trial} {bindings : List Binding} {reach : Nat} (before : reach ≤ last)
      (later : o.reach ≤ last) : (o.after bindings reach).reach ≤ last := by
    cases o <;> exact Nat.max_le.2 ⟨before, later⟩
  induction yields with
  | call _ _ ih | only _ ih | stops _ ih | first _ ih | stalls _ _ ih => exact ih inside
  | full | done | none => exact Nat.zero_le last
  | ends _ _ ih =>
    unfold Trial.stay
    split <;> exact ih inside
  | advances _ body _ _ ih ihRest =>
    exact after_le (ih inside) (ihRest ((body.endsWithin ends _ _ rfl).2 inside))
  | goes first _ ih ihRest =>
    exact after_le (ih inside) (ihRest ((first.endsWithin ends _ _ rfl).2 inside))
  | decision _ _ ih => exact after_le inside (ih inside)
  | later _ _ ih ihRest => exact after_le (ih inside) (ihRest inside)
  | test =>
    unfold Trial.ofTest
    split <;> exact inside

end Yields

end SetGrammar
