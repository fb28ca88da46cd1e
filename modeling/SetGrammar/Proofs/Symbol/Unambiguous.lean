import SetGrammar.Proofs.Symbol.UniqueForm
import SetGrammar.Proofs.Text.Reading
import SetGrammar.Symbol.Rendering

/-!
# The text of a set is unambiguous

No text of a code point is the start of another one, although quotes and backslashes
are not escaped. What follows a member in a list begins with a comma, a closing
brace or, within a run of code points, a dot. So a list can be read from left to
right in one way only, and the braces tell a list from a single symbol.
-/
namespace SetGrammar

namespace Text

/-- Up to the quote after it, a character can be read in one way. -/
theorem escapeChar_quote_inj {c d : Char} {rest rest' : List Char}
    (same : escapeChar c ++ '\'' :: rest = escapeChar d ++ '\'' :: rest') :
    c = d ∧ rest = rest' := by
  unfold escapeChar at same
  split at same <;> split at same <;> simp_all

/-- No character is shown like a code point in hexadecimal. -/
theorem escapeChar_quote_ne {c : Char} {rest rest' : List Char} :
    escapeChar c ++ '\'' :: rest ≠ '\\' :: 'u' :: rest' := by
  unfold escapeChar
  split <;> simp

end Text

/-- Two texts without stops are the same if the same text begins with them and goes on
    with a stop after each. -/
theorem append_inj_of_stop {IsStop : Char → Prop} {xs ys rest rest' : List Char} {c d : Char}
    (inside : ∀ e ∈ xs, ¬ IsStop e) (inside' : ∀ e ∈ ys, ¬ IsStop e) (stop : IsStop c)
    (stop' : IsStop d) (same : xs ++ c :: rest = ys ++ d :: rest') :
    xs = ys ∧ c :: rest = d :: rest' := by
  induction xs generalizing ys with
  | nil =>
    cases ys with
    | nil => exact ⟨rfl, same⟩
    | cons e ys => exact (inside' e List.mem_cons_self ((List.cons.inj same).1 ▸ stop)).elim
  | cons e xs ih =>
    obtain ⟨first, others⟩ := List.forall_mem_cons.1 inside
    cases ys with
    | nil => exact (first ((List.cons.inj same).1 ▸ stop')).elim
    | cons e' ys =>
      obtain ⟨rfl, later⟩ := List.cons.inj same
      obtain ⟨rfl, after⟩ := ih others (List.forall_mem_cons.1 inside').2 later
      exact ⟨rfl, after⟩

/-! ## Hexadecimal numerals -/

theorem digitChar_inj {a b : Nat} (small : a < 16) (small' : b < 16)
    (same : a.digitChar = b.digitChar) : a = b := by
  have all : ∀ a < 16, ∀ b < 16, a.digitChar = b.digitChar → a = b := by decide
  exact all a small b small' same

theorem digitChar_ne_brace {n : Nat} (small : n < 16) : n.digitChar ≠ '\x7d' := by
  have all : ∀ n < 16, n.digitChar ≠ '\x7d' := by decide
  exact all n small

theorem toDigits_inj {a b : Nat} : Nat.toDigits 16 a = Nat.toDigits 16 b ↔ a = b := by
  refine ⟨fun same => ?_, congrArg _⟩
  induction a using Nat.strongRecOn generalizing b with
  | ind a ih =>
    have alone (n : Nat) (c d : Char) : [c] ≠ Nat.toDigits 16 n ++ [d] := by
      intro same
      have same : [] ++ [c] = Nat.toDigits 16 n ++ [d] := same
      exact Nat.toDigits_ne_nil (List.append_inj' same rfl).1.symm
    rw [Nat.toDigits_eq_if (by decide), Nat.toDigits_eq_if (n := b) (by decide)] at same
    split at same <;> split at same
    · exact digitChar_inj ‹_› ‹_› (List.singleton_inj.1 same)
    · exact (alone _ _ _ same).elim
    · exact (alone _ _ _ same.symm).elim
    · obtain ⟨higher, last⟩ := List.append_inj' same rfl
      have := ih (a / 16) (by omega) higher
      have := digitChar_inj (by omega) (by omega) (List.singleton_inj.1 last)
      omega

theorem brace_notMem_toDigits (n : Nat) : '\x7d' ∉ Nat.toDigits 16 n := by
  induction n using Nat.strongRecOn with
  | ind n ih =>
    rw [Nat.toDigits_eq_if (by decide)]
    split
    · rename_i small
      exact fun member => digitChar_ne_brace small (List.mem_singleton.1 member).symm
    · rw [List.mem_append, not_or]
      refine ⟨ih (n / 16) (by omega), fun member => ?_⟩
      exact digitChar_ne_brace (Nat.mod_lt n (by decide)) (List.mem_singleton.1 member).symm

/-! ## Code points -/

theorem character?_eq_some {s : Nat} {c : Char} (shown : character? s = some c) : c.toNat = s := by
  by_cases valid : s.isValidChar
  · rw [character?, dif_pos valid] at shown
    cases shown
    rfl
  · rw [character?, dif_neg valid] at shown
    cases shown

/-- Between quotes stands the character, or the number in hexadecimal. -/
theorem toList_renderCodePoint (s : Nat) :
    (∃ c : Char, c.toNat = s ∧
      (renderCodePoint s).toList = '\'' :: (Text.escapeChar c ++ ['\''])) ∨
    (renderCodePoint s).toList =
      '\'' :: '\\' :: 'u' :: '\x7b' :: (Nat.toDigits 16 s ++ ['\x7d', '\'']) := by
  unfold renderCodePoint
  cases shown : character? s with
  | some c => exact .inl ⟨c, character?_eq_some shown, by simp⟩
  | none => exact .inr (by simp)

/-- No text of a code point is the start of another one. -/
theorem renderCodePoint_append_inj {a b : Nat} {rest rest' : List Char}
    (same : (renderCodePoint a).toList ++ rest = (renderCodePoint b).toList ++ rest') :
    a = b ∧ rest = rest' := by
  rcases toList_renderCodePoint a with ⟨c, rfl, shown⟩ | shown <;>
    rcases toList_renderCodePoint b with ⟨d, rfl, shown'⟩ | shown' <;>
    simp only [shown, shown', List.cons_append, List.append_assoc, List.nil_append,
      List.cons.injEq, true_and] at same
  · obtain ⟨rfl, rest⟩ := Text.escapeChar_quote_inj same
    exact ⟨rfl, rest⟩
  · exact (Text.escapeChar_quote_ne same).elim
  · exact (Text.escapeChar_quote_ne same.symm).elim
  · have numeral (n : Nat) : ∀ c ∈ Nat.toDigits 16 n, ¬ c = '\x7d' :=
      fun c member brace => brace_notMem_toDigits n (brace ▸ member)
    obtain ⟨digits, after⟩ := append_inj_of_stop (numeral a) (numeral b) rfl rfl same
    exact ⟨toDigits_inj.1 digits, (List.cons.inj (List.cons.inj after).2).2⟩

/-! ## Lists of members -/

/-- What follows a member of a list that is closed by a brace. -/
def EndsMember (rest : List Char) : Prop := ∃ c more, rest = c :: more ∧ (c = ',' ∨ c = '\x7d')

/-- Texts of members that can be told apart in a list. None of them begins like a
    brace. -/
structure Delimited {α : Type} (text : α → List Char) : Prop where
  begins : ∀ a, ∃ c more, text a = c :: more ∧ c ≠ '\x7b' ∧ c ≠ '\x7d'
  ends : ∀ ⦃a b rest rest'⦄, EndsMember rest → EndsMember rest' →
    text a ++ rest = text b ++ rest' → a = b ∧ rest = rest'

/-- The texts of members with commas between them. -/
def listed {α : Type} (text : α → List Char) (members : List α) : List Char :=
  [',', ' '].intercalate (members.map text)

/-- The members after another one, and the brace that closes the list. -/
def continued {α : Type} (text : α → List Char) : List α → List Char
  | [] => ['\x7d']
  | a :: rest => ',' :: ' ' :: (text a ++ continued text rest)

section

variable {α : Type} {text : α → List Char}

theorem listed_map {β : Type} (f : β → String) (members : List β) :
    listed String.toList (members.map f) = listed (fun b => (f b).toList) members := by
  rw [listed, List.map_map]
  rfl

theorem listed_cons (a : α) (rest : List α) :
    listed text (a :: rest) ++ ['\x7d'] = text a ++ continued text rest := by
  induction rest generalizing a with
  | nil => simp [listed, continued]
  | cons b rest ih =>
    have joined : listed text (a :: b :: rest) = text a ++ [',', ' '] ++ listed text (b :: rest) :=
      List.intercalate_cons_cons
    rw [joined, List.append_assoc, ih, List.append_assoc]
    rfl

theorem endsMember_continued (rest : List α) : EndsMember (continued text rest) := by
  cases rest with
  | nil => exact ⟨_, _, rfl, .inr rfl⟩
  | cons a rest => exact ⟨_, _, rfl, .inl rfl⟩

namespace Delimited

theorem continued_inj (delimited : Delimited text) {xs ys : List α}
    (same : continued text xs = continued text ys) : xs = ys := by
  induction xs generalizing ys with
  | nil =>
    cases ys with
    | nil => rfl
    | cons b ys => cases same
  | cons a xs ih =>
    cases ys with
    | nil => cases same
    | cons b ys =>
      simp only [continued, List.cons.injEq, true_and] at same
      obtain ⟨rfl, rest⟩ :=
        delimited.ends (endsMember_continued xs) (endsMember_continued ys) same
      rw [ih rest]

/-- A closed list can be read in one way. -/
theorem listed_inj (delimited : Delimited text) {xs ys : List α}
    (same : listed text xs ++ ['\x7d'] = listed text ys ++ ['\x7d']) : xs = ys := by
  -- the brace that closes an empty list begins no member
  have filled (b : α) (ys : List α) :
      listed text [] ++ ['\x7d'] ≠ listed text (b :: ys) ++ ['\x7d'] := by
    obtain ⟨c, more, begins, -, closed⟩ := delimited.begins b
    rw [listed_cons, begins]
    exact fun same => closed (List.cons.inj same).1.symm
  cases xs with
  | nil =>
    cases ys with
    | nil => rfl
    | cons b ys => exact (filled b ys same).elim
  | cons a xs =>
    cases ys with
    | nil => exact (filled a xs same.symm).elim
    | cons b ys =>
      rw [listed_cons, listed_cons] at same
      obtain ⟨rfl, rest⟩ :=
        delimited.ends (endsMember_continued xs) (endsMember_continued ys) same
      rw [delimited.continued_inj rest]

/-- A list without braces is not taken for one with braces. -/
theorem braced_inj (delimited : Delimited text) {bare bare' : Prop} [Decidable bare]
    [Decidable bare'] {xs ys : List α} (some : bare → xs ≠ []) (some' : bare' → ys ≠ [])
    (same : (if bare then listed text xs else '\x7b' :: (listed text xs ++ ['\x7d'])) =
      if bare' then listed text ys else '\x7b' :: (listed text ys ++ ['\x7d'])) : xs = ys := by
  have opened (members : List α) (others : members ≠ []) (more : List Char) :
      listed text members ≠ '\x7b' :: more := by
    intro brace
    obtain ⟨a, rest, rfl⟩ := List.exists_cons_of_ne_nil others
    obtain ⟨c, tail, begins, plain, -⟩ := delimited.begins a
    have closed : listed text (a :: rest) ++ ['\x7d'] = text a ++ continued text rest :=
      listed_cons a rest
    rw [brace, begins] at closed
    exact plain (List.cons.inj closed).1.symm
  split at same <;> split at same
  · exact delimited.listed_inj (congrArg (· ++ ['\x7d']) same)
  · exact (opened xs (some ‹_›) _ same).elim
  · exact (opened ys (some' ‹_›) _ same.symm).elim
  · exact delimited.listed_inj (List.cons.inj same).2

end Delimited

end

/-! ## Runs of code points and token types -/

theorem Interval.eq_of_bounds {i j : Interval} (low : i.low = j.low) (high : i.high = j.high) :
    i = j := by
  cases i
  cases j
  simp_all

theorem toList_renderCodePoints (i : Interval) :
    i.renderCodePoints.toList = (renderCodePoint i.low).toList ++
      if i.low = i.high then [] else '.' :: '.' :: (renderCodePoint i.high).toList := by
  unfold Interval.renderCodePoints Interval.isSingle
  by_cases single : i.low = i.high <;> simp [single]

theorem renderCodePoint_begins (s : Nat) : ∃ more, (renderCodePoint s).toList = '\'' :: more := by
  rcases toList_renderCodePoint s with ⟨c, -, shown⟩ | shown <;> exact ⟨_, shown⟩

theorem delimited_renderCodePoints :
    Delimited fun i : Interval => i.renderCodePoints.toList where
  begins i := by
    obtain ⟨more, begins⟩ := renderCodePoint_begins i.low
    exact ⟨_, _, by rw [toList_renderCodePoints, begins]; rfl, by decide, by decide⟩
  ends i j rest rest' ended ended' same := by
    -- after the first code point the run is over or goes on with a dot
    have undotted {rest more : List Char} (ended : EndsMember rest) : rest ≠ '.' :: more := by
      obtain ⟨c, others, rfl, rfl | rfl⟩ := ended <;> simp
    simp only [toList_renderCodePoints, List.append_assoc] at same
    obtain ⟨low, after⟩ := renderCodePoint_append_inj same
    split at after <;> split at after
    · rename_i single single'
      exact ⟨Interval.eq_of_bounds low (single.symm.trans (low.trans single')), after⟩
    · exact (undotted ended after).elim
    · exact (undotted ended' after.symm).elim
    · simp only [List.cons_append, List.cons.injEq, true_and] at after
      obtain ⟨high, after⟩ := renderCodePoint_append_inj after
      exact ⟨Interval.eq_of_bounds low high, after⟩

theorem toList_renderTokenType (tokenType : Nat) :
    (renderTokenType none tokenType).toList = Nat.toDigits 10 tokenType := by
  simp [renderTokenType]

/-- Up to a character that is no digit, a numeral can be read in one way. -/
theorem numeral_append_inj {a b : Nat} {c d : Char} {rest rest' : List Char}
    (stop : c.isDigit = false) (stop' : d.isDigit = false)
    (same : Nat.toDigits 10 a ++ c :: rest = Nat.toDigits 10 b ++ d :: rest') :
    a = b ∧ c :: rest = d :: rest' := by
  have numeral (n : Nat) : ∀ e ∈ Nat.toDigits 10 n, ¬ e.isDigit = false :=
    fun e member => by simp [Text.isDigit_of_mem_toDigits member]
  obtain ⟨digits, after⟩ := append_inj_of_stop (numeral a) (numeral b) stop stop' same
  have values := congrArg (Nat.ofDigitChars 10 · 0) digits
  simp only [Nat.ofDigitChars_ten_toDigits] at values
  exact ⟨values, after⟩

theorem delimited_renderTokenType :
    Delimited fun tokenType => (renderTokenType none tokenType).toList where
  begins tokenType := by
    rw [toList_renderTokenType]
    obtain ⟨c, more, digits, digit⟩ := Text.toDigits_begins tokenType
    refine ⟨c, more, digits, ?_, ?_⟩ <;> rintro rfl <;> cases digit
  ends a b rest rest' ended ended' same := by
    have stops {rest : List Char} (ended : EndsMember rest) :
        ∃ c more, rest = c :: more ∧ c.isDigit = false := by
      obtain ⟨c, more, rfl, rfl | rfl⟩ := ended <;> exact ⟨_, more, rfl, rfl⟩
    obtain ⟨c, more, rfl, stop⟩ := stops ended
    obtain ⟨d, more', rfl, stop'⟩ := stops ended'
    simp only [toList_renderTokenType] at same
    exact numeral_append_inj stop stop' same

namespace SymbolSet

theorem toIntervals_inj {a b : SymbolSet} : a.toIntervals = b.toIntervals ↔ a = b :=
  ⟨fun same => eq_of_contains_iff (toIntervals_eq_iff.1 same), congrArg _⟩

/-- The list of its symbols tells a set. -/
theorem symbols_inj {a b : SymbolSet} : a.symbols = b.symbols ↔ a = b :=
  ⟨fun same => eq_of_contains_iff fun s => by rw [← mem_symbols, ← mem_symbols, same], congrArg _⟩

theorem toIntervals_ne_nil {a : SymbolSet} (one : a.size = 1) : a.toIntervals ≠ [] := by
  intro none
  rw [size, none] at one
  cases one

theorem symbols_ne_nil {a : SymbolSet} (one : a.size = 1) : a.symbols ≠ [] := by
  intro none
  rw [← length_symbols, none] at one
  cases one

/-- A set is shown as the list of its parts, in braces unless it has one symbol. -/
theorem toList_render (a : SymbolSet) (kind : RuleKind) (names : Option Vocabulary) :
    (a.render kind names).toList =
      if a.size = 1 then listed String.toList (a.renderParts kind names)
      else '\x7b' :: (listed String.toList (a.renderParts kind names) ++ ['\x7d']) := by
  unfold render listed
  split <;> simp

/-- The text of a set tells the set, whether it shows characters or the numbers of
    token types. -/
theorem render_eq_iff {a b : SymbolSet} :
    (∀ names names', a.render .lexer names = b.render .lexer names' ↔ a = b) ∧
      (a.render .parser none = b.render .parser none ↔ a = b) := by
  refine ⟨fun names names' => ⟨fun same => ?_, ?_⟩, fun same => ?_, ?_⟩
  · have shown := congrArg String.toList same
    simp only [toList_render, renderParts, listed_map] at shown
    exact toIntervals_inj.1 (delimited_renderCodePoints.braced_inj toIntervals_ne_nil
      toIntervals_ne_nil shown)
  · rintro rfl
    rfl
  · have shown := congrArg String.toList same
    simp only [toList_render, renderParts, listed_map] at shown
    exact symbols_inj.1 (delimited_renderTokenType.braced_inj symbols_ne_nil symbols_ne_nil shown)
  · rintro rfl
    rfl

-- neither quotes nor backslashes are escaped
example : (ofChars [',', '\'', '\\']).render .lexer none = "\x7b''', ',', '\\'\x7d" := by decide

end SymbolSet

end SetGrammar
