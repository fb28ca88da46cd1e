import SetGrammar.Proofs.Tokenization.Cutting

/-!
# End tokens that are added

The tokens of a text can be read again without their end token. The end token that is
then added follows the last of them on its line, so that it is the one of the text if
the last token comes to the end of the text and has no line feed.
-/
namespace SetGrammar

/-! ## Positions after a text -/

namespace Position

theorem afterAll_line (p : Position) (characters : List Char) :
    (p.afterAll characters).line = p.line + characters.count '\n' := by
  induction characters generalizing p with
  | nil => rfl
  | cons c rest ih =>
    show ((p.after c).afterAll rest).line = _
    rw [ih]
    by_cases feed : c = '\n'
    · simp [after, feed]
      omega
    · simp [after, feed]

theorem afterAll_of_notMem {p : Position} {characters : List Char} (one : '\n' ∉ characters) :
    p.afterAll characters = ⟨p.line, p.column + characters.length⟩ := by
  induction characters generalizing p with
  | nil => rfl
  | cons c rest ih =>
    simp only [List.mem_cons, not_or] at one
    obtain ⟨other, later⟩ := one
    show (p.after c).afterAll rest = _
    rw [ih later]
    simp [after, Ne.symm other]
    omega

/-- A text stays on its line just if it has no line feed. -/
theorem afterAll_eq_iff {p : Position} {characters : List Char} :
    p.afterAll characters = ⟨p.line, p.column + characters.length⟩ ↔ '\n' ∉ characters := by
  constructor
  · intro same
    have line : (p.afterAll characters).line = p.line := by rw [same]
    rw [afterAll_line] at line
    exact List.count_eq_zero.1 (by omega)
  · intro one
    exact afterAll_of_notMem one

end Position

/-! ## Adding an end token -/

theorem TokenStream.toList_ofList {tokens : List Token} {t : Token} (ordinary : t.isEnd = false) :
    (ofList (tokens ++ [t])).toList = tokens ++ [t, .endOfInput
      ⟨t.position.line, t.position.column + t.text.toList.length⟩ t.stop] := by
  rw [String.length_toList]
  simp [ofList, endAfter, toList, ordinary]

section Tokenize

variable {g : CompiledGrammar} {limits : Limits} {text : String} {before : List Token}
  {t last : Token}

/-- A last token that comes to the end of the text is followed by its end token. -/
theorem tokenize_last (made : (g.tokenize limits text).result = .ok (before ++ [t, last]))
    (reaches : t.stop = text.length) :
    last = .endOfInput (t.position.afterAll t.text.toList) t.stop := by
  have split : before ++ [t, last] = (before ++ [t]) ++ [last] := by simp
  rw [split] at made
  obtain ⟨pieces, cuts⟩ := tokenize_cuts made
  have listed : t ∈ before ++ [t] := List.mem_append_right before List.mem_cons_self
  obtain ⟨p, member, stretch, -, stop⟩ := cuts.exists_piece made listed
  have fits := cuts.fits p member
  rw [Piece.Fits, stretch] at fits
  obtain ⟨own, place, -, -⟩ := fits
  have forward : p.start ≤ p.stop := Nat.le_of_lt (cuts.tiles.advances p member)
  have same := Except.ok.inj (made.symm.trans cuts.result)
  obtain ⟨-, ends⟩ := List.append_inj' same rfl
  rw [own, place, place_afterAll forward, stop, reaches]
  exact (List.cons.inj ends).1

/-- The end token that is added differs from the one of the text at most in its
    position, which is on the line where the last token begins. It is the one of the
    text just if the last token has no line feed. -/
theorem tokenize_ofList (made : (g.tokenize limits text).result = .ok (before ++ [t, last]))
    (ordinary : t.isEnd = false) (reaches : t.stop = text.length) :
    ∃ added, (TokenStream.ofList (before ++ [t])).toList = before ++ [t, added] ∧
      added = { last with position := added.position } ∧
      added.position.line = t.position.line ∧
      ((TokenStream.ofList (before ++ [t])).toList = before ++ [t, last] ↔
        '\n' ∉ t.text.toList) := by
  rw [TokenStream.toList_ofList ordinary, tokenize_last made reaches]
  refine ⟨_, rfl, rfl, rfl, ?_⟩
  rw [← Position.afterAll_eq_iff (p := t.position), eq_comm]
  simp [Token.endOfInput]

/-- The token `Letter : 'a' | '\n'`. -/
def letters : CompiledGrammar :=
  let (_, g) := (Grammar.empty "Letters").addToken "Letter" ⟨{}, [.char 'a', .char '\n']⟩
  (g.compile {}).value

/-- The text is restored where a line feed is followed by a letter. -/
theorem tokenize_ofList_letters :
    ∃ feed a last, (letters.tokenize {} "\na").result = .ok [feed, a, last] ∧
      a.isEnd = false ∧ a.stop = "\na".length ∧
      (TokenStream.ofList [feed, a]).toList = [feed, a, last] := by
  have ran : ∃ feed a last, (letters.tokenize {} "\na").result = .ok [feed, a, last] ∧
      a.isEnd = false ∧ a.stop = "\na".length ∧ '\n' ∉ a.text.toList :=
    ⟨_, _, _, by cbv, by cbv, by cbv, by decide⟩
  obtain ⟨feed, a, last, made, ordinary, reaches, one⟩ := ran
  have made' : (letters.tokenize {} "\na").result = .ok ([feed] ++ [a, last]) := made
  obtain ⟨-, -, -, -, restored⟩ := tokenize_ofList made' ordinary reaches
  exact ⟨feed, a, last, made, ordinary, reaches, restored.2 one⟩

/-- After a line feed the end token of a text begins a line, and the one that is added
    does not. -/
theorem not_ofList_restores :
    ¬ ∀ (g : CompiledGrammar) (limits : Limits) (text : String) (before : List Token)
      (t last : Token), (g.tokenize limits text).result = .ok (before ++ [t, last]) →
      t.isEnd = false → t.stop = text.length →
      (TokenStream.ofList (before ++ [t])).toList = before ++ [t, last] := by
  intro all
  have ran : ∃ feed last, (letters.tokenize {} "\n").result = .ok [feed, last] ∧
      feed.isEnd = false ∧ feed.stop = "\n".length ∧ last.position = ⟨2, 0⟩ ∧
      feed.position = ⟨1, 0⟩ ∧ feed.text = "\n" :=
    ⟨_, _, by cbv, by cbv, by cbv, by cbv, by cbv, by cbv⟩
  obtain ⟨feed, last, made, ordinary, reaches, after, first, own⟩ := ran
  have restored := all letters {} "\n" [] feed last made ordinary reaches
  rw [TokenStream.toList_ofList ordinary, first, own] at restored
  have same : Token.endOfInput ⟨1, 1⟩ feed.stop = last := by simpa using restored
  rw [← same] at after
  cases after

end Tokenize

end SetGrammar
