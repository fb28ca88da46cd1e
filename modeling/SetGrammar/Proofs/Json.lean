import SetGrammar.Json
import SetGrammar.Proofs.Symbol.Unambiguous

/-!
# The text of a JSON value is unambiguous

The first character of a text tells what kind of value it is. A string ends at the
first quote that no backslash precedes, since quotes and backslashes are escaped. A
number ends before a comma or a line feed, and of these two a comma follows a member
of an array or an object just when there is another one. So different values have
different texts, although an array and an object have members of any depth.
-/
namespace SetGrammar.JsonValue

/-! ## Strings -/

/-- The characters that are escaped with a letter, and the letters. -/
def letterEscapes : List (Char × Char) :=
  [('"', '"'), ('\\', '\\'), ('\n', 'n'), ('\r', 'r'), ('\t', 't'), ('\x08', 'b'), ('\x0c', 'f')]

theorem letterEscapes_inj : ∀ e ∈ letterEscapes, ∀ f ∈ letterEscapes, e.2 = f.2 → e = f := by
  decide

theorem letterEscapes_ne_u : ∀ e ∈ letterEscapes, e.2 ≠ 'u' := by decide

/-- A character is escaped with a letter or, if it is a control character, with its
    code. Every other one stands for itself. -/
theorem escapeChar_cases (c : Char) :
    (∃ letter, (c, letter) ∈ letterEscapes ∧ escapeChar c = ['\\', letter]) ∨
    (c.toNat < 32 ∧ escapeChar c =
      ['\\', 'u', '0', '0', hexDigit (c.toNat / 16), hexDigit c.toNat]) ∨
    (c ≠ '"' ∧ c ≠ '\\' ∧ escapeChar c = [c]) := by
  unfold escapeChar
  split
  · exact .inl ⟨_, by decide, rfl⟩
  · exact .inl ⟨_, by decide, rfl⟩
  · exact .inl ⟨_, by decide, rfl⟩
  · exact .inl ⟨_, by decide, rfl⟩
  · exact .inl ⟨_, by decide, rfl⟩
  · rename_i quote backslash _ _ _
    have same {d : Char} (code : c.toNat = d.toNat) : c = d := Char.toNat_inj.1 code
    by_cases back : c.toNat = 8
    · rw [if_pos back, same (d := '\x08') back]
      exact .inl ⟨_, by decide, rfl⟩
    · by_cases page : c.toNat = 12
      · rw [if_neg back, if_pos page, same (d := '\x0c') page]
        exact .inl ⟨_, by decide, rfl⟩
      · rw [if_neg back, if_neg page]
        by_cases control : c.toNat < 32
        · rw [if_pos control]
          exact .inr (.inl ⟨control, rfl⟩)
        · rw [if_neg control]
          exact .inr (.inr ⟨quote, backslash, rfl⟩)

theorem hexDigit_inj {a b : Nat} (same : hexDigit a = hexDigit b) : a % 16 = b % 16 :=
  digitChar_inj (Nat.mod_lt a (by decide)) (Nat.mod_lt b (by decide)) same

/-- No text of a character is the start of another one. -/
theorem escapeChar_append_inj {c d : Char} {rest rest' : List Char}
    (same : escapeChar c ++ rest = escapeChar d ++ rest') : c = d ∧ rest = rest' := by
  rcases escapeChar_cases c with ⟨letter, mem, text⟩ | ⟨small, text⟩ | ⟨-, plain, text⟩ <;>
    rcases escapeChar_cases d with ⟨letter', mem', text'⟩ | ⟨small', text'⟩ | ⟨-, plain', text'⟩ <;>
    simp only [text, text', List.cons_append, List.nil_append, List.cons.injEq, true_and] at same
  · obtain ⟨letters, after⟩ := same
    exact ⟨congrArg Prod.fst (letterEscapes_inj _ mem _ mem' letters), after⟩
  · exact (letterEscapes_ne_u _ mem same.1).elim
  · exact (plain' same.1.symm).elim
  · exact (letterEscapes_ne_u _ mem' same.1.symm).elim
  · obtain ⟨high, low, after⟩ := same
    have high := hexDigit_inj high
    have low := hexDigit_inj low
    exact ⟨Char.toNat_inj.1 (by omega), after⟩
  · exact (plain' same.1.symm).elim
  · exact (plain same.1).elim
  · exact (plain same.1).elim
  · exact same

/-- The text of a character does not begin like the end of a string. -/
theorem escapeChar_ne_quote (c : Char) (rest rest' : List Char) :
    escapeChar c ++ rest ≠ '"' :: rest' := by
  intro same
  rcases escapeChar_cases c with ⟨letter, -, text⟩ | ⟨-, text⟩ | ⟨unquoted, -, text⟩ <;>
    simp only [text, List.cons_append, List.nil_append, List.cons.injEq] at same
  · exact absurd same.1 (by decide)
  · exact absurd same.1 (by decide)
  · exact unquoted same.1

theorem escaped_append_inj {xs ys rest rest' : List Char}
    (same : xs.flatMap escapeChar ++ '"' :: rest = ys.flatMap escapeChar ++ '"' :: rest') :
    xs = ys ∧ rest = rest' := by
  induction xs generalizing ys with
  | nil =>
    cases ys with
    | nil => exact ⟨rfl, (List.cons.inj same).2⟩
    | cons d ys =>
      rw [List.flatMap_cons, List.append_assoc] at same
      exact (escapeChar_ne_quote d _ _ same.symm).elim
  | cons c xs ih =>
    rw [List.flatMap_cons, List.append_assoc] at same
    cases ys with
    | nil => exact (escapeChar_ne_quote c _ _ same).elim
    | cons d ys =>
      rw [List.flatMap_cons, List.append_assoc] at same
      obtain ⟨rfl, others⟩ := escapeChar_append_inj same
      obtain ⟨rfl, after⟩ := ih others
      exact ⟨rfl, after⟩

/-- A string ends at its closing quote, whatever follows. -/
theorem quote_append_inj {a b : String} {rest rest' : List Char}
    (same : quote a ++ rest = quote b ++ rest') : a = b ∧ rest = rest' := by
  simp only [quote, List.cons_append, List.append_assoc, List.cons.injEq, true_and,
    List.nil_append] at same
  obtain ⟨characters, after⟩ := escaped_append_inj same
  exact ⟨String.toList_inj.1 characters, after⟩

/-! ## Members on lines of their own -/

/-- What follows a value inside an array or an object. -/
def EndsValue (rest : List Char) : Prop := ∃ c more, rest = c :: more ∧ (c = ',' ∨ c = '\n')

/-- Before a comma or a line feed, the text of a member is that of no other one. -/
def Recognizable {α : Type} (text : α → List Char) (a : α) : Prop :=
  ∀ ⦃b rest rest'⦄, EndsValue rest → EndsValue rest' → text a ++ rest = text b ++ rest' →
    a = b ∧ rest = rest'

/-- Members on lines of their own with commas between them. -/
def lined {α : Type} (level : Nat) (text : α → List Char) : List α → List Char
  | [] => []
  | a :: rest => newLine level ++ text a ++ comma rest ++ lined level text rest

/-- Members between two brackets, and nothing between them if there is no member. -/
def bracketed {α : Type} (opening closing : Char) (level : Nat) (text : α → List Char) :
    List α → List Char
  | [] => [opening, closing]
  | a :: rest => opening :: lined (level + 1) text (a :: rest) ++ newLine level ++ [closing]

section

variable {α : Type} {text : α → List Char} {level : Nat}

theorem endsValue_lined (members : List α) (rest : List Char) :
    EndsValue (comma members ++ (lined level text members ++ '\n' :: rest)) := by
  cases members with
  | nil => exact ⟨_, _, rfl, .inr rfl⟩
  | cons a members => exact ⟨_, _, rfl, .inl rfl⟩

theorem lined_cons_append (a : α) (members : List α) (rest : List Char) :
    lined level text (a :: members) ++ rest =
      newLine level ++ (text a ++ (comma members ++ (lined level text members ++ rest))) := by
  simp only [lined, List.append_assoc]

/-- The first character after a member tells whether there is another one. -/
theorem lined_append_inj {a b : α} {xs ys : List α} {rest rest' : List Char}
    (each : ∀ m ∈ a :: xs, Recognizable text m)
    (same : lined level text (a :: xs) ++ '\n' :: rest =
      lined level text (b :: ys) ++ '\n' :: rest') : a :: xs = b :: ys ∧ rest = rest' := by
  induction xs generalizing a b ys with
  | nil =>
    rw [lined_cons_append a, lined_cons_append b, List.append_cancel_left_eq] at same
    obtain ⟨rfl, after⟩ := each a List.mem_cons_self (endsValue_lined [] rest)
      (endsValue_lined ys rest') same
    cases ys with
    | nil => exact ⟨rfl, (List.cons.inj after).2⟩
    | cons y ys => exact absurd (List.cons.inj after).1 (by decide)
  | cons x xs ih =>
    rw [lined_cons_append a, lined_cons_append b, List.append_cancel_left_eq] at same
    obtain ⟨rfl, after⟩ := each a List.mem_cons_self (endsValue_lined (x :: xs) rest)
      (endsValue_lined ys rest') same
    cases ys with
    | nil => exact absurd (List.cons.inj after).1 (by decide)
    | cons y ys =>
      have later : ∀ m ∈ x :: xs, Recognizable text m := by
        intro m member
        exact each m (List.mem_cons_of_mem a member)
      obtain ⟨others, after⟩ := ih later (List.cons.inj after).2
      rw [others]
      exact ⟨rfl, after⟩

theorem bracketed_append_inj {opening closing : Char} {xs ys : List α} {rest rest' : List Char}
    (visible : closing ≠ '\n') (each : ∀ m ∈ xs, Recognizable text m)
    (same : bracketed opening closing level text xs ++ rest =
      bracketed opening closing level text ys ++ rest') : xs = ys ∧ rest = rest' := by
  -- a line feed follows the opening bracket if there is a member
  have filled (b : α) (ys : List α) (rest rest' : List Char) :
      bracketed opening closing level text [] ++ rest ≠
        bracketed opening closing level text (b :: ys) ++ rest' := by
    intro same
    have second := (List.cons.inj (List.cons.inj same).2).1
    exact visible second
  cases xs with
  | nil =>
    cases ys with
    | nil => exact ⟨rfl, (List.cons.inj (List.cons.inj same).2).2⟩
    | cons b ys => exact (filled b ys _ _ same).elim
  | cons a xs =>
    cases ys with
    | nil => exact (filled a xs _ _ same.symm).elim
    | cons b ys =>
      simp only [bracketed, newLine, List.cons_append, List.append_assoc, List.cons.injEq,
        true_and] at same
      obtain ⟨members, after⟩ := lined_append_inj each same
      exact ⟨members, (List.cons.inj (List.append_cancel_left after)).2⟩

end

/-! ## Values -/

theorem itemCharacters_eq (level : Nat) (items : List JsonValue) :
    itemCharacters level items = lined level (characters level) items := by
  induction items with
  | nil => rfl
  | cons item rest ih => rw [itemCharacters, lined, ih]

theorem memberCharacters_eq (level : Nat) (members : List (String × JsonValue)) :
    memberCharacters level members = lined level (memberText level) members := by
  induction members with
  | nil => rfl
  | cons member rest ih => rw [memberCharacters, lined, ih]

theorem characters_array (level : Nat) (items : List JsonValue) :
    (array items).characters level =
      bracketed '[' ']' level (characters (level + 1)) items := by
  cases items with
  | nil => rfl
  | cons item rest => simp [characters, itemCharacters_eq, bracketed]

theorem characters_object (level : Nat) (members : List (String × JsonValue)) :
    (object members).characters level =
      bracketed '\x7b' '\x7d' level (memberText (level + 1)) members := by
  cases members with
  | nil => rfl
  | cons member rest => simp [characters, memberCharacters_eq, bracketed]

theorem recognizable_memberText {level : Nat} {name : String} {value : JsonValue}
    (inner : Recognizable (characters level) value) :
    Recognizable (memberText level) (name, value) := by
  rintro ⟨name', value'⟩ rest rest' ended ended' same
  simp only [memberText, List.append_assoc] at same
  obtain ⟨rfl, colon⟩ := quote_append_inj same
  obtain ⟨rfl, after⟩ := inner ended ended' (List.append_cancel_left colon)
  exact ⟨rfl, after⟩

/-- What kind of value begins with a character, as its place among the constructors. -/
def kindOf (c : Char) : Nat :=
  if c = 'n' then 0
  else if c = 't' ∨ c = 'f' then 1
  else if c.isDigit then 2
  else if c = '"' then 3
  else if c = '[' then 4
  else 5

theorem kindOf_digit {c : Char} (digit : c.isDigit = true) : kindOf c = 2 := by
  have others : ∀ d ∈ ['n', 't', 'f'], c ≠ d := by
    rintro d member rfl
    simp only [List.mem_cons, List.not_mem_nil, or_false] at member
    rcases member with rfl | rfl | rfl <;> cases digit
  simp only [List.forall_mem_cons] at others
  obtain ⟨n, t, f, -⟩ := others
  simp [kindOf, n, t, f, digit]

/-- The first character of a text tells the kind of the value. -/
theorem characters_begins (level : Nat) (value : JsonValue) :
    ∃ c more, value.characters level = c :: more ∧ kindOf c = value.ctorIdx := by
  cases value with
  | null => exact ⟨_, _, rfl, by decide⟩
  | bool value => cases value <;> exact ⟨_, _, rfl, by decide⟩
  | number n =>
    obtain ⟨c, more, digits, digit⟩ := Text.toDigits_begins n
    exact ⟨c, more, digits, kindOf_digit digit⟩
  | string text => exact ⟨_, _, rfl, rfl⟩
  | array items =>
    rw [characters_array]
    cases items <;> exact ⟨_, _, rfl, rfl⟩
  | object members =>
    rw [characters_object]
    cases members <;> exact ⟨_, _, rfl, rfl⟩

theorem ctorIdx_eq_of_append {level : Nat} {v w : JsonValue} {rest rest' : List Char}
    (same : v.characters level ++ rest = w.characters level ++ rest') :
    v.ctorIdx = w.ctorIdx := by
  obtain ⟨c, more, begins, kind⟩ := characters_begins level v
  obtain ⟨d, more', begins', kind'⟩ := characters_begins level w
  rw [begins, begins'] at same
  rw [← kind, ← kind', (List.cons.inj same).1]

theorem recognizable_null (level : Nat) : Recognizable (characters level) null := by
  intro w rest rest' ended ended' same
  have kind := ctorIdx_eq_of_append same
  cases w with
  | null => exact ⟨rfl, List.append_cancel_left same⟩
  | _ => cases kind

theorem recognizable_bool (level : Nat) (a : Bool) : Recognizable (characters level) (bool a) := by
  intro w rest rest' ended ended' same
  have kind := ctorIdx_eq_of_append same
  cases w with
  | bool b =>
    by_cases agree : a = b
    · subst agree
      exact ⟨rfl, List.append_cancel_left same⟩
    · -- the two words begin differently
      cases a <;> cases b
      · exact absurd rfl agree
      · exact absurd (List.cons.inj same).1 (by decide)
      · exact absurd (List.cons.inj same).1 (by decide)
      · exact absurd rfl agree
  | _ => cases kind

theorem recognizable_number (level : Nat) (a : Nat) :
    Recognizable (characters level) (number a) := by
  intro w rest rest' ended ended' same
  have kind := ctorIdx_eq_of_append same
  cases w with
  | number b =>
    have stops {rest : List Char} (ended : EndsValue rest) :
        ∃ c more, rest = c :: more ∧ c.isDigit = false := by
      obtain ⟨c, more, rfl, rfl | rfl⟩ := ended <;> exact ⟨_, more, rfl, rfl⟩
    obtain ⟨c, more, rfl, stop⟩ := stops ended
    obtain ⟨d, more', rfl, stop'⟩ := stops ended'
    obtain ⟨rfl, after⟩ := numeral_append_inj stop stop' same
    exact ⟨rfl, after⟩
  | _ => cases kind

theorem recognizable_string (level : Nat) (a : String) :
    Recognizable (characters level) (string a) := by
  intro w rest rest' ended ended' same
  have kind := ctorIdx_eq_of_append same
  cases w with
  | string b =>
    obtain ⟨rfl, after⟩ := quote_append_inj same
    exact ⟨rfl, after⟩
  | _ => cases kind

theorem recognizable_array {level : Nat} {items : List JsonValue}
    (each : ∀ item ∈ items, Recognizable (characters (level + 1)) item) :
    Recognizable (characters level) (array items) := by
  intro w rest rest' ended ended' same
  have kind := ctorIdx_eq_of_append same
  cases w with
  | array items' =>
    rw [characters_array, characters_array] at same
    obtain ⟨rfl, after⟩ := bracketed_append_inj (by decide) each same
    exact ⟨rfl, after⟩
  | _ => cases kind

theorem recognizable_object {level : Nat} {members : List (String × JsonValue)}
    (each : ∀ m ∈ members, Recognizable (memberText (level + 1)) m) :
    Recognizable (characters level) (object members) := by
  intro w rest rest' ended ended' same
  have kind := ctorIdx_eq_of_append same
  cases w with
  | object members' =>
    rw [characters_object, characters_object] at same
    obtain ⟨rfl, after⟩ := bracketed_append_inj (by decide) each same
    exact ⟨rfl, after⟩
  | _ => cases kind

mutual

/-- Before a comma or a line feed, the text of a value is that of no other one. -/
theorem recognizable (level : Nat) : (v : JsonValue) → Recognizable (characters level) v
  | null => recognizable_null level
  | bool a => recognizable_bool level a
  | number a => recognizable_number level a
  | string a => recognizable_string level a
  | array items => recognizable_array (recognizable_items (level + 1) items)
  | object members => recognizable_object (recognizable_members (level + 1) members)

theorem recognizable_items (level : Nat) :
    (items : List JsonValue) → ∀ item ∈ items, Recognizable (characters level) item
  | [] => nofun
  | item :: rest =>
    List.forall_mem_cons.2 ⟨recognizable level item, recognizable_items level rest⟩

theorem recognizable_members (level : Nat) :
    (members : List (String × JsonValue)) → ∀ m ∈ members, Recognizable (memberText level) m
  | [] => nofun
  | (_, value) :: rest =>
    List.forall_mem_cons.2
      ⟨recognizable_memberText (recognizable level value), recognizable_members level rest⟩

end

/-- The text of a value tells the value. -/
theorem pretty_inj {v w : JsonValue} : v.pretty = w.pretty ↔ v = w := by
  constructor
  · intro same
    have texts : v.characters 0 = w.characters 0 := by simpa [pretty, String.ofList_inj] using same
    have ended : EndsValue ['\n'] := ⟨_, _, rfl, .inr rfl⟩
    exact (recognizable 0 v ended ended (congrArg (· ++ ['\n']) texts)).1
  · rintro rfl
    rfl

end SetGrammar.JsonValue
