import SetGrammar.Proofs.Text.Reading
import SetGrammar.Vocabulary.Listing

/-!
# Listings define names

A listing is read line by line. A line of the form `name=type` defines its name, and
malformed lines are the lines that define nothing. So a listing gives the vocabulary
that its lines define one after the other, also where a later line overrides an
earlier one.
-/
namespace SetGrammar.Vocabulary

/-! ## The last occurrence of a character -/

theorem splitAtLast_of_notMem {c : Char} {text : List Char} (missing : c ∉ text) :
    splitAtLast c text = none := by
  induction text with
  | nil => rfl
  | cons d rest ih =>
    simp only [List.mem_cons, not_or] at missing
    obtain ⟨other, later⟩ := missing
    simp [splitAtLast, ih later, Ne.symm other]

theorem splitAtLast_append_cons {c : Char} {before after : List Char} (last : c ∉ after) :
    splitAtLast c (before ++ c :: after) = some (before, after) := by
  induction before with
  | nil => simp [splitAtLast, splitAtLast_of_notMem last]
  | cons d before ih => simp [splitAtLast, ih]

/-- A text has a last occurrence of each of its characters. -/
theorem exists_last {c : Char} {text : List Char} (member : c ∈ text) :
    ∃ before after, text = before ++ c :: after ∧ c ∉ after := by
  obtain ⟨after, before, flipped, last⟩ :=
    List.eq_append_cons_of_mem (List.mem_reverse.2 member)
  refine ⟨before.reverse, after.reverse, ?_, by simpa using last⟩
  rw [← List.reverse_reverse text, flipped]
  simp

/-! ## One line -/

theorem equals_not_blank : Text.isBlank '=' = false := by decide

theorem mem_of_mem_trimEnd {c : Char} {text : List Char} (member : c ∈ Text.trimEnd text) :
    c ∈ text :=
  (List.rdropWhile_prefix Text.isBlank text).subset member

/-- What a name and a value without blanks at its ends define. -/
def defined? (name value : List Char) : Option TokenNames := do
  let tokenType ← Text.readNumeral maxListedType value
  if isQuoted name then some ⟨tokenType, some (.ofList name), none⟩
  else if name.isEmpty then none
  else some ⟨tokenType, none, some (.ofList name)⟩

/-- The last equals sign of a line stays the last one when the blanks at the ends of the
    line are left out. -/
theorem ofLine?_append_cons {before after : List Char} (last : '=' ∉ after) :
    ofLine? (before ++ '=' :: after) =
      defined? (before.dropWhile Text.isBlank) (Text.trim after) := by
  have last : '=' ∉ Text.trimEnd after := fun member => last (mem_of_mem_trimEnd member)
  rw [ofLine?, Text.trim_append_cons equals_not_blank, splitAtLast_append_cons last]
  simp [defined?, Text.trim_trimEnd]

theorem ofLine?_of_notMem {line : List Char} (missing : '=' ∉ line) : ofLine? line = none := by
  have missing : '=' ∉ Text.trim line := by
    intro member
    exact missing ((List.dropWhile_suffix Text.isBlank).subset (mem_of_mem_trimEnd member))
  rw [ofLine?, splitAtLast_of_notMem missing]
  rfl

/-- A line without an equals sign, with something else than a token type after the last
    one, or with nothing before it. Blanks around the line and the token type do not
    count. -/
def IsMalformed (line : List Char) : Prop :=
  '=' ∉ line ∨ ∃ before after, line = before ++ '=' :: after ∧ '=' ∉ after ∧
    ((∀ n, ¬ Text.Denotes maxListedType (Text.trim after) n) ∨
      ∀ c ∈ before, Text.isBlank c = true)

theorem defined?_eq_none_iff {name value : List Char} :
    defined? name value = none ↔
      (∀ n, ¬ Text.Denotes maxListedType value n) ∨ name = [] := by
  simp only [← Text.readNumeral_eq_some_iff, ← Option.eq_none_iff_forall_ne_some]
  cases read : Text.readNumeral maxListedType value with
  | none => simp [defined?, read]
  | some tokenType =>
    by_cases quoted : isQuoted name = true
    · have filled : name ≠ [] := by
        rintro rfl
        cases quoted
      simp [defined?, read, quoted, filled]
    · simp [defined?, read, quoted]

/-- Malformed lines are the lines that define nothing. -/
theorem ofLine?_eq_none_iff {line : List Char} : ofLine? line = none ↔ IsMalformed line := by
  by_cases separated : '=' ∈ line
  · obtain ⟨before, after, rfl, last⟩ := exists_last separated
    rw [ofLine?_append_cons last, defined?_eq_none_iff, List.dropWhile_eq_nil_iff]
    constructor
    · intro nothing
      exact .inr ⟨before, after, rfl, last, nothing⟩
    · rintro (missing | ⟨before', after', same, last', nothing⟩)
      · exact (missing separated).elim
      · have parts : splitAtLast '=' (before ++ '=' :: after) = some (before, after) :=
          splitAtLast_append_cons last
        rw [same, splitAtLast_append_cons last'] at parts
        obtain ⟨rfl, rfl⟩ := Prod.mk.inj (Option.some.inj parts)
        exact nothing
  · simp [ofLine?_of_notMem separated, IsMalformed, separated]

/-! ## Lines of a listing -/

/-- A line of a listing. -/
inductive ListingLine where
  /-- The name, an equals sign, the token type in decimal and blanks, such as the
      carriage return of a line end. -/
  | entry (name : String) (tokenType : Nat) (blanks : String)
  /-- Any other text. -/
  | other (text : String)

namespace ListingLine

/-- The text of a line. -/
def text : ListingLine → String
  | entry name tokenType blanks => name ++ "=" ++ toString tokenType ++ blanks
  | other text => text

/-- An entry has a name that does not begin with a blank, and every other line is
    malformed. No line has a line feed. -/
def WellFormed : ListingLine → Prop
  | entry name tokenType blanks =>
    name ≠ "" ∧ '\n' ∉ name.toList ∧ (∀ c ∈ name.toList.head?, Text.isBlank c = false) ∧
      tokenType ≤ maxListedType ∧ ∀ c ∈ blanks.toList, Text.isBlank c = true ∧ c ≠ '\n'
  | other text => IsMalformed text.toList ∧ '\n' ∉ text.toList

/-- The vocabulary after a line. A name of at least two bytes that begins and ends with a
    single quote is a literal name, every other name is symbolic. -/
def define (v : Vocabulary) : ListingLine → Vocabulary
  | entry name tokenType _ =>
    if 2 ≤ name.utf8ByteSize ∧ name.toList.head? = some '\x27' ∧
        name.toList.getLast? = some '\x27' then
      v.define tokenType (some name) none
    else v.define tokenType none (some name)
  | other _ => v

end ListingLine

theorem utf8ByteSize_cons (c : Char) (rest : List Char) :
    (String.ofList (c :: rest)).utf8ByteSize =
      c.utf8Size + (String.ofList rest).utf8ByteSize := by
  rw [String.ofList_cons, String.utf8ByteSize_append, String.utf8ByteSize_singleton]

/-- A quote alone takes one byte, and two characters take at least two. -/
theorem isQuoted_iff {name : String} :
    isQuoted name.toList = true ↔ 2 ≤ name.utf8ByteSize ∧ name.toList.head? = some '\x27' ∧
      name.toList.getLast? = some '\x27' := by
  obtain ⟨characters, rfl⟩ : ∃ characters, name = String.ofList characters :=
    ⟨name.toList, String.ofList_toList.symm⟩
  rw [String.toList_ofList]
  cases characters with
  | nil => simp [isQuoted]
  | cons c rest =>
    cases rest with
    | nil =>
      constructor
      · intro quoted
        simp [isQuoted] at quoted
      · rintro ⟨long, first, -⟩
        cases Option.some.inj first
        exact absurd long (by decide)
    | cons d rest =>
      have count : 2 ≤ (c :: d :: rest).length := by simp
      have long : 2 ≤ (String.ofList (c :: d :: rest)).utf8ByteSize := by
        have first := c.utf8Size_pos
        have second := d.utf8Size_pos
        rw [utf8ByteSize_cons, utf8ByteSize_cons]
        omega
      simp only [isQuoted, count, long, decide_true, Bool.true_and, Bool.and_eq_true, beq_iff_eq,
        true_and]

theorem read_toDigits {tokenType : Nat} (within : tokenType ≤ maxListedType) :
    Text.readNumeral maxListedType (Nat.toDigits 10 tokenType) = some tokenType :=
  Text.readNumeral_eq_some_iff.2 (Text.denotes_toDigits within)

namespace ListingLine

theorem toList_text_entry (name : String) (tokenType : Nat) (blanks : String) :
    (entry name tokenType blanks).text.toList =
      name.toList ++ '=' :: (Nat.toDigits 10 tokenType ++ blanks.toList) := by
  simp [text]

variable {line : ListingLine}

theorem WellFormed.lineFeed_notMem (formed : line.WellFormed) : '\n' ∉ line.text.toList := by
  cases line with
  | entry name tokenType blanks =>
    obtain ⟨-, one, -, -, blank⟩ := formed
    rw [toList_text_entry]
    simp only [List.mem_append, List.mem_cons, not_or]
    refine ⟨one, by decide, fun member => ?_, fun member => (blank _ member).2 rfl⟩
    exact absurd (Text.isDigit_of_mem_toDigits member) (by decide)
  | other text => exact formed.2

/-- A line defines what reading it gives. -/
theorem WellFormed.define_eq (formed : line.WellFormed) (v : Vocabulary) :
    line.define v = ⟨(ofLine? line.text.toList).toList ++ v.definitions⟩ := by
  cases line with
  | entry name tokenType blanks =>
    obtain ⟨filled, -, solid, within, blank⟩ := formed
    have last : '=' ∉ Nat.toDigits 10 tokenType ++ blanks.toList := by
      rw [List.mem_append, not_or]
      refine ⟨fun member => ?_, fun member => ?_⟩
      · exact absurd (Text.isDigit_of_mem_toDigits member) (by decide)
      · exact absurd (blank _ member).1 (by decide)
    have value : Text.trim (Nat.toDigits 10 tokenType ++ blanks.toList) =
        Nat.toDigits 10 tokenType :=
      Text.trim_append_of_blank
        (fun c member => Text.isBlank_of_isDigit (Text.isDigit_of_mem_toDigits member))
        (fun c member => (blank c member).1)
    have whole : name.toList.dropWhile Text.isBlank = name.toList := by
      refine List.dropWhile_eq_self_iff.2 fun long => ?_
      rw [solid _ (List.head?_eq_getElem? ▸ List.getElem?_eq_getElem long)]
      exact Bool.false_ne_true
    rw [toList_text_entry, ofLine?_append_cons last, value, whole]
    have filled : name.toList.isEmpty = false := by simpa using filled
    by_cases quoted : isQuoted name.toList = true
    · rw [define, if_pos (isQuoted_iff.1 quoted)]
      simp [defined?, read_toDigits within, quoted, Vocabulary.define]
    · rw [define, if_neg (isQuoted_iff.not.1 quoted)]
      simp [defined?, read_toDigits within, quoted, filled, Vocabulary.define]
  | other text =>
    rw [ListingLine.text, ofLine?_eq_none_iff.2 formed.1]
    rfl

/-- Lines that are read one after the other are defined in order. -/
theorem foldl_define {lines : List ListingLine} (formed : ∀ line ∈ lines, line.WellFormed)
    (v : Vocabulary) :
    lines.foldl define v =
      ⟨(lines.filterMap fun line => ofLine? line.text.toList).reverse ++ v.definitions⟩ := by
  induction lines generalizing v with
  | nil => rfl
  | cons line rest ih =>
    obtain ⟨first, later⟩ := List.forall_mem_cons.1 formed
    rw [List.foldl_cons, ih later, first.define_eq]
    cases read : ofLine? line.text.toList <;> simp [read]

end ListingLine

/-- A listing gives the vocabulary that its lines define in order. -/
theorem ofListing_lines {lines : List ListingLine} (formed : ∀ line ∈ lines, line.WellFormed) :
    ofListing ("\n".intercalate (lines.map ListingLine.text)) =
      lines.foldl ListingLine.define empty := by
  rw [ListingLine.foldl_define formed, ofListing, String.toList_intercalate, List.map_map]
  by_cases blank : lines = []
  · subst blank
    rfl
  · have each : ∀ text ∈ lines.map (String.toList ∘ ListingLine.text), '\n' ∉ text := by
      intro text member
      obtain ⟨line, listed, rfl⟩ := List.mem_map.1 member
      exact (formed line listed).lineFeed_notMem
    have cut := Text.lines_intercalate (by simpa using blank) each
    change Vocabulary.mk ((Text.lines (['\n'].intercalate _)).filterMap ofLine?).reverse = _
    rw [cut, List.filterMap_map, empty, List.append_nil]
    rfl

/-- Names with separators and quotes, names and token types that are given again, and a
    malformed line of each form between them. -/
def overridingLines : List ListingLine :=
  [.entry "'='" 1 "\r", .other "no separator", .entry "A=B" 2 "", .other "BAD=x", .other " =5",
    .entry "'" 2 " ", .other "C=4294967296", .other "", .entry "'='" 4294967295 "",
    .entry "D " 1 ""]

theorem ofListing_overridingLines :
    (∀ line ∈ overridingLines, line.WellFormed) ∧
      ofListing ("\n".intercalate ["'='=1\r", "no separator", "A=B=2", "BAD=x", " =5", "'=2 ",
        "C=4294967296", "", "'='=4294967295", "D =1"]) =
        ((((empty.define 1 (some "'='") none).define 2 none (some "A=B")).define 2 none
          (some "'")).define 4294967295 (some "'='") none).define 1 none (some "D ") := by
  have malformed (text : String) (nothing : ofLine? text.toList = none)
      (one : '\n' ∉ text.toList) : (ListingLine.other text).WellFormed :=
    ⟨ofLine?_eq_none_iff.1 nothing, one⟩
  have formed : ∀ line ∈ overridingLines, line.WellFormed := by
    simp only [overridingLines, List.forall_mem_cons]
    refine ⟨?_, malformed _ (by decide +kernel) (by decide), ?_,
      malformed _ (by decide +kernel) (by decide), malformed _ (by decide +kernel) (by decide), ?_,
      malformed _ (by decide +kernel) (by decide), malformed _ (by decide +kernel) (by decide),
      ?_, ?_, nofun⟩
    all_goals simp [ListingLine.WellFormed]
    all_goals decide
  have texts : overridingLines.map ListingLine.text = ["'='=1\r", "no separator", "A=B=2", "BAD=x",
      " =5", "'=2 ", "C=4294967296", "", "'='=4294967295", "D =1"] := by
    decide +kernel
  refine ⟨formed, ?_⟩
  rw [← texts, ofListing_lines formed]
  decide +kernel

end SetGrammar.Vocabulary
