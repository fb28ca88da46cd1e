import SetGrammar.Proofs.Tokenization.LongestMatch

/-!
# Pieces of a text

A tokenization cuts a text into pieces without gaps. Each of them is a token, a
match that is dropped or an error, and it is told where it is in the text and by
line and column.
-/
namespace SetGrammar

/-! ## Places in a text -/

/-- The characters of a text from one index to before another. -/
def slice (text : String) (start stop : Nat) : String :=
  .ofList ((text.toList.take stop).drop start)

/-- The line feeds before an index are counted from 1, and the characters since the
    last of them from 0. -/
def place (text : String) (i : Nat) : Position :=
  ⟨1 + (text.toList.take i).count '\n',
    ((text.toList.take i).reverse.takeWhile (· ≠ '\n')).length⟩

theorem Position.origin_afterAll (characters : List Char) :
    Position.origin.afterAll characters =
      ⟨1 + characters.count '\n', (characters.reverse.takeWhile (· ≠ '\n')).length⟩ := by
  induction characters using List.reverseRecOn with
  | nil => rfl
  | append_singleton before c ih =>
    rw [afterAll_append, ih]
    show Position.after _ c = _
    by_cases feed : c = '\n'
    · simp [after, feed, Nat.add_assoc]
    · simp [after, feed]

theorem place_eq (text : String) (i : Nat) :
    place text i = Position.origin.afterAll (text.toList.take i) :=
  (Position.origin_afterAll _).symm

/-- The place after a piece follows from its text. -/
theorem place_afterAll {text : String} {start stop : Nat} (forward : start ≤ stop) :
    (place text start).afterAll (slice text start stop).toList = place text stop := by
  have split : text.toList.take stop =
      text.toList.take start ++ (text.toList.take stop).drop start := by
    have before : text.toList.take start = (text.toList.take stop).take start := by
      rw [List.take_take, Nat.min_eq_left forward]
    rw [before, List.take_append_drop]
  rw [place_eq, place_eq, slice, String.toList_ofList, ← Position.afterAll_append, ← split]

/-- An index past the end stands for the end. -/
theorem Input.text_ofText (text : String) (start stop : Nat) :
    (Input.ofText text).text start stop = slice text start (min stop text.length) := by
  have clamped : text.toList.take (min stop text.length) = text.toList.take stop := by
    rw [List.take_eq_take_iff, String.length_toList, Nat.min_assoc, Nat.min_self]
  simp [Input.ofText, Input.text, slice, clamped, List.drop_take]

/-! ## Pieces -/

/-- The event of a stretch. An error has none. -/
def Stretch.event? : Stretch → Option Event
  | token t => some (.token t)
  | skipped rule text => some (.skip rule text)
  | unrecognized _ => none

theorem Stretch.token?_eq_some {found : Stretch} {t : Token} (made : found.token? = some t) :
    found = .token t := by
  cases found with
  | token => rw [Option.some.inj made]
  | skipped | unrecognized => cases made

/-- A piece of a text with what was made of it. -/
structure Piece where
  start : Nat
  stop : Nat
  stretch : Stretch

/-- Pieces follow one another from one index to another, and none is empty. -/
inductive Tiles : Nat → List Piece → Nat → Prop where
  | nil (i : Nat) : Tiles i [] i
  | cons {p : Piece} {rest : List Piece} {last : Nat} :
      p.start < p.stop → Tiles p.stop rest last → Tiles p.start (p :: rest) last

theorem Tiles.advances {pieces : List Piece} {first last : Nat} (tiles : Tiles first pieces last) :
    ∀ p ∈ pieces, p.start < p.stop := by
  induction tiles with
  | nil => nofun
  | cons advances _ ih => exact List.forall_mem_cons.2 ⟨advances, ih⟩

namespace Piece

/-- What was made of a piece has its text and its place. What was dropped is a match
    of a rule. -/
def Fits (g : CompiledGrammar) (text : String) (p : Piece) : Prop :=
  match p.stretch with
  | .token t =>
    t.text = slice text p.start p.stop ∧ t.position = place text p.start ∧
      t.start = p.start ∧ t.stop = p.stop
  | .skipped rule dropped =>
    dropped = slice text p.start p.stop ∧ ∃ called ∈ g.tokenRules, called.name = rule ∧
      ∃ bindings, g.Finds text called p.start (some (p.stop, bindings))
  | .unrecognized unknown => unknown = slice text p.start p.stop

/-- The error about a piece. -/
def error? (text : String) (p : Piece) : Option InputError :=
  match p.stretch with
  | .unrecognized _ =>
    some ⟨.unrecognized (Text.escape (slice text p.start p.stop)), p.start, place text p.start⟩
  | .token _ | .skipped _ _ => none

/-- No rule matches the piece. -/
def isError (p : Piece) : Bool :=
  match p.stretch with
  | .unrecognized _ => true
  | .token _ | .skipped _ _ => false

/-- A piece is what a rule matched and bound. Only a rule with a token type and
    without a command makes tokens. -/
structure BelongsTo (p : Piece) (called : CompiledRule) (stop : Nat) (bindings : List Binding) :
    Prop where
  stop : p.stop = stop
  stretch : match p.stretch with
    | .token t => called.tokenType = some t.type ∧ called.command = none ∧ t.bindings = bindings
    | .skipped rule _ => called.name = rule ∧ (called.tokenType = none ∨ called.command ≠ none)
    | .unrecognized _ => False

theorem BelongsTo.not_isError {p : Piece} {called : CompiledRule} {stop : Nat}
    {bindings : List Binding} (belongs : p.BelongsTo called stop bindings) : ¬p.isError = true := by
  have made := belongs.stretch
  unfold isError
  cases stretch : p.stretch with
  | token | skipped => simp
  | unrecognized =>
    rw [stretch] at made
    exact made.elim

/-- What becomes of a piece depends on the own matches of rules alone. -/
def Decided (g : CompiledGrammar) (text : String) (p : Piece) : Prop :=
  (∃ called stop bindings, g.Wins text p.start g.tokenRules called stop bindings ∧
    p.BelongsTo called stop bindings) ∨
  p.isError = true ∧ g.EndBefore text p.start g.tokenRules (p.start + 1)

end Piece

/-- The result, the errors and the events of a tokenization are those of pieces that
    make up the text, in order. At the end stands a token without text. -/
structure Tokenization.Cuts (o : Tokenization) (g : CompiledGrammar) (text : String)
    (pieces : List Piece) : Prop where
  tiles : Tiles 0 pieces text.length
  fits : ∀ p ∈ pieces, p.Fits g text
  result : o.result = .ok (pieces.filterMap (·.stretch.token?) ++
    [.endOfInput (place text text.length) text.length])
  errors : o.errors = pieces.filterMap (·.error? text)
  events : o.events.filter Event.isCut = pieces.filterMap (·.stretch.event?) ++
    [.token (.endOfInput (place text text.length) text.length)]

/-- Every token but the last one is a piece. -/
theorem Tokenization.Cuts.exists_piece {o : Tokenization} {g : CompiledGrammar} {text : String}
    {pieces : List Piece} (cuts : o.Cuts g text pieces) {tokens : List Token} {t last : Token}
    (made : o.result = .ok (tokens ++ [last])) (member : t ∈ tokens) :
    ∃ p ∈ pieces, p.stretch = .token t ∧ p.start = t.start ∧ p.stop = t.stop := by
  have same := Except.ok.inj (made.symm.trans cuts.result)
  obtain ⟨rfl, -⟩ := List.append_inj' same rfl
  obtain ⟨p, member, token⟩ := List.mem_filterMap.1 member
  have stretch := Stretch.token?_eq_some token
  have fits := cuts.fits p member
  rw [Piece.Fits, stretch] at fits
  obtain ⟨-, -, start, stop⟩ := fits
  exact ⟨p, member, stretch, start.symm, stop.symm⟩

end SetGrammar
