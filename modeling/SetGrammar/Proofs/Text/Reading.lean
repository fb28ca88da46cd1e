import Mathlib.Data.List.DropRight
import SetGrammar.Text.Blank
import SetGrammar.Text.Lines
import SetGrammar.Text.Numeral

/-!
# Reading a text

A text of lines that are joined by line feeds has these lines. Trimming on both sides
of a character that is not blank goes on separately. A numeral is read as the number
that its digits denote, and no other text is read.
-/
namespace SetGrammar.Text

/-! ## Lines -/

theorem lines_of_notMem {text : List Char} (one : '\n' ∉ text) : lines text = [text] := by
  induction text with
  | nil => rfl
  | cons c rest ih =>
    simp only [List.mem_cons, not_or] at one
    obtain ⟨other, later⟩ := one
    simp [lines, Ne.symm other, ih later]

theorem lines_append {line : List Char} (one : '\n' ∉ line) (rest : List Char) :
    lines (line ++ '\n' :: rest) = line :: lines rest := by
  induction line with
  | nil => simp [lines]
  | cons c line ih =>
    simp only [List.mem_cons, not_or] at one
    obtain ⟨other, later⟩ := one
    simp [lines, Ne.symm other, ih later]

/-- Joining lines and cutting the text again gives the lines. -/
theorem lines_intercalate {parts : List (List Char)} (filled : parts ≠ [])
    (each : ∀ line ∈ parts, '\n' ∉ line) : lines (['\n'].intercalate parts) = parts := by
  induction parts with
  | nil => exact absurd rfl filled
  | cons line rest ih =>
    obtain ⟨one, others⟩ := List.forall_mem_cons.1 each
    cases rest with
    | nil => simp [lines_of_notMem one]
    | cons next rest =>
      rw [List.intercalate_cons_cons, List.append_assoc, List.singleton_append, lines_append one,
        ih (List.cons_ne_nil next rest) others]

/-! ## Blanks -/

theorem dropWhile_append_cons {before after : List Char} {c : Char} (solid : isBlank c = false) :
    (before ++ c :: after).dropWhile isBlank = before.dropWhile isBlank ++ c :: after := by
  induction before with
  | nil => simp [solid]
  | cons d before ih =>
    by_cases blank : isBlank d = true
    · simp [blank, ih]
    · simp [blank]

theorem trimEnd_append_cons {before after : List Char} {c : Char} (solid : isBlank c = false) :
    trimEnd (before ++ c :: after) = before ++ c :: trimEnd after := by
  have flipped : (before ++ c :: after).reverse = after.reverse ++ c :: before.reverse := by simp
  rw [trimEnd, flipped, dropWhile_append_cons solid, trimEnd]
  simp

/-- What is not blank parts the blanks at the start from those at the end. -/
theorem trim_append_cons {before after : List Char} {c : Char} (solid : isBlank c = false) :
    trim (before ++ c :: after) = before.dropWhile isBlank ++ c :: trimEnd after := by
  rw [trim, dropWhile_append_cons solid, trimEnd_append_cons solid]

theorem trimEnd_of_blank {text : List Char} (blank : ∀ c ∈ text, isBlank c = true) :
    trimEnd text = [] :=
  List.rdropWhile_eq_nil_iff.2 blank

theorem trimEnd_trimEnd (text : List Char) : trimEnd (trimEnd text) = trimEnd text :=
  List.rdropWhile_idempotent isBlank text

theorem trimEnd_append_of_blank {text blanks : List Char}
    (blank : ∀ c ∈ blanks, isBlank c = true) : trimEnd (text ++ blanks) = trimEnd text := by
  have dropped : blanks.reverse.dropWhile isBlank = [] :=
    List.dropWhile_eq_nil_iff.2 fun c member => blank c (List.mem_reverse.1 member)
  rw [trimEnd, trimEnd, List.reverse_append, List.dropWhile_append, dropped]
  rfl

/-- Trimming the end first makes no difference. -/
theorem trim_trimEnd (text : List Char) : trim (trimEnd text) = trim text := by
  by_cases blank : ∀ c ∈ text, isBlank c = true
  · rw [trimEnd_of_blank blank, trim, trim, List.dropWhile_eq_nil_iff.2 blank]
    rfl
  · simp only [not_forall, Bool.not_eq_true] at blank
    obtain ⟨c, member, solid⟩ := blank
    obtain ⟨before, after, rfl⟩ := List.append_of_mem member
    rw [trimEnd_append_cons solid, trim_append_cons solid, trim_append_cons solid,
      trimEnd_trimEnd]

/-- Blanks after a text that begins and ends with other characters are trimmed. -/
theorem trim_append_of_blank {text blanks : List Char} (solid : ∀ c ∈ text, isBlank c = false)
    (blank : ∀ c ∈ blanks, isBlank c = true) : trim (text ++ blanks) = text := by
  cases text with
  | nil =>
    rw [List.nil_append, trim, List.dropWhile_eq_nil_iff.2 blank]
    rfl
  | cons c rest =>
    obtain ⟨first, later⟩ := List.forall_mem_cons.1 solid
    have whole : trimEnd rest = rest := by
      refine List.rdropWhile_eq_self_iff.2 fun filled => ?_
      simp [later _ (List.getLast_mem filled)]
    have split : trim ([] ++ c :: (rest ++ blanks)) = _ := trim_append_cons first
    rw [trimEnd_append_of_blank blank, whole] at split
    exact split

/-! ## Numerals -/

/-- A text denotes a number up to a limit: digits, of which there is at least one, after
    a plus sign or without one. -/
def Denotes (limit : Nat) (text : List Char) (n : Nat) : Prop :=
  ∃ digits, (text = digits ∨ text = '+' :: digits) ∧ digits ≠ [] ∧
    (∀ c ∈ digits, c.isDigit = true) ∧ Nat.ofDigitChars 10 digits 0 = n ∧ n ≤ limit

theorem digitValue?_eq (c : Char) :
    digitValue? c = if c.isDigit then some (c.toNat - '0'.toNat) else none := by
  have digit : ('0' ≤ c ∧ c ≤ '9') ↔ c.isDigit = true := by
    simp [Char.isDigit, Char.le_def]
  simp [digitValue?, digit]

theorem readDigits_eq_some_iff {number n : Nat} {text : List Char} :
    readDigits number text = some n ↔
      (∀ c ∈ text, c.isDigit = true) ∧ Nat.ofDigitChars 10 text number = n := by
  induction text generalizing number with
  | nil => simp [readDigits, Nat.ofDigitChars]
  | cons c rest ih =>
    rw [readDigits, digitValue?_eq]
    by_cases digit : c.isDigit = true
    · simp [digit, ih, Nat.ofDigitChars]
    · simp [digit]

theorem readUnsigned_eq_some_iff {n : Nat} {text : List Char} :
    readUnsigned text = some n ↔
      text ≠ [] ∧ (∀ c ∈ text, c.isDigit = true) ∧ Nat.ofDigitChars 10 text 0 = n := by
  cases text with
  | nil => simp [readUnsigned]
  | cons c rest => simp [readUnsigned, readDigits_eq_some_iff]

/-- A text is read as the number that it denotes. -/
theorem readNumeral_eq_some_iff {limit n : Nat} {text : List Char} :
    readNumeral limit text = some n ↔ Denotes limit text n := by
  unfold readNumeral
  rw [Option.filter_eq_some_iff, readUnsigned_eq_some_iff]
  split
  · rename_i digits
    constructor
    · rintro ⟨⟨filled, all, value⟩, within⟩
      exact ⟨digits, .inr rfl, filled, all, value, by simpa using within⟩
    · rintro ⟨digits', same | same, filled, all, value, within⟩
      · -- a plus sign is no digit
        exact absurd (all '+' (same ▸ List.mem_cons_self)) (by decide)
      · rw [(List.cons.inj same).2]
        exact ⟨⟨filled, all, value⟩, by simpa using within⟩
  · rename_i unsigned
    constructor
    · rintro ⟨⟨filled, all, value⟩, within⟩
      exact ⟨text, .inl rfl, filled, all, value, by simpa using within⟩
    · rintro ⟨digits, same | same, filled, all, value, within⟩
      · rw [same]
        exact ⟨⟨filled, all, value⟩, by simpa using within⟩
      · exact (unsigned digits same).elim

theorem isDigit_of_mem_toDigits {n : Nat} {c : Char} (member : c ∈ Nat.toDigits 10 n) :
    c.isDigit = true :=
  Nat.isDigit_of_mem_toDigits (by decide) (by decide) member

theorem toDigits_begins (n : Nat) :
    ∃ c more, Nat.toDigits 10 n = c :: more ∧ c.isDigit = true := by
  obtain ⟨c, more, digits⟩ := List.exists_cons_of_ne_nil (Nat.toDigits_ne_nil (b := 10) (n := n))
  exact ⟨c, more, digits, isDigit_of_mem_toDigits (digits ▸ List.mem_cons_self)⟩

theorem denotes_toDigits {limit n : Nat} (within : n ≤ limit) :
    Denotes limit (Nat.toDigits 10 n) n :=
  ⟨_, .inl rfl, Nat.toDigits_ne_nil, fun _ => isDigit_of_mem_toDigits,
    Nat.ofDigitChars_ten_toDigits, within⟩

theorem isBlank_of_isDigit {c : Char} (digit : c.isDigit = true) : isBlank c = false := by
  have bounds : 48 ≤ c.toNat ∧ c.toNat ≤ 57 := by
    rw [Char.isDigit, Bool.and_eq_true, decide_eq_true_eq, decide_eq_true_eq] at digit
    exact digit
  simp [isBlank, blankRanges]
  omega

end SetGrammar.Text
