import SetGrammar.Proofs.Compilation.Findings

/-!
# The order of the rules

Compiling a rule looks other rules up by their names and asks for the names of
token types, and the inline table has the same entries however the rules are
ordered. So rules in another order compile to the same rules, with the same
findings about them. Only the cycles may be reported at other rules.
-/
namespace SetGrammar

/-- Two vocabularies have the same token types with the same names. -/
structure Vocabulary.Alike (v w : Vocabulary) : Prop where
  largestType : v.largestType = w.largestType
  literalName? : ∀ tokenType, v.literalName? tokenType = w.literalName? tokenType
  symbolicName? : ∀ tokenType, v.symbolicName? tokenType = w.symbolicName? tokenType

theorem Vocabulary.Alike.refl (v : Vocabulary) : v.Alike v := ⟨rfl, fun _ => rfl, fun _ => rfl⟩

theorem Vocabulary.Alike.shownName {v w : Vocabulary} (alike : v.Alike w) (tokenType : Nat) :
    v.shownName tokenType = w.shownName tokenType := by
  rw [Vocabulary.shownName, alike.literalName?, alike.symbolicName?]
  rfl

theorem SymbolSet.render_alike {v w : Vocabulary} (alike : v.Alike w) (a : SymbolSet)
    (kind : RuleKind) : a.render kind (some v) = a.render kind (some w) := by
  have names : renderTokenType (some v) = renderTokenType (some w) := funext alike.shownName
  cases kind <;> simp only [render, renderParts, names]

/-- Two grammars have the same rules and the same token names. The order of the
    rules is left open. -/
structure Grammar.Alike (g g' : Grammar) : Prop where
  rule? : ∀ name, g.rule? name = g'.rule? name
  vocabulary : g.vocabulary.Alike g'.vocabulary

theorem Grammar.Alike.refl (g : Grammar) : g.Alike g := ⟨fun _ => rfl, .refl g.vocabulary⟩

namespace CompileContext

variable {g g' : Grammar} {options options' : CompileOptions} {r : Rule}

/-! ## Checks, which ask for no options -/

theorem domain_alike (alike : g.Alike g') :
    domain ⟨g, options, r⟩ = domain ⟨g', options', r⟩ := by
  simp only [domain]
  cases r.kind with
  | lexer => rfl
  | parser => exact congrArg Domain.parser alike.vocabulary.largestType

theorem checkReference_alike (alike : g.Alike g') (name : String) :
    checkReference ⟨g, options, r⟩ name = checkReference ⟨g', options', r⟩ name := by
  simp only [checkReference, alike.rule?]

mutual

theorem checkReferences_alike (alike : g.Alike g') : (e : Element) →
    checkReferences ⟨g, options, r⟩ e = checkReferences ⟨g', options', r⟩ e
  | .reference name => checkReference_alike alike name
  | .sequence items => checkReferencesOfAll_alike alike items
  | .literal _ | .charClass _ | .negated _ | .block _ _ => rfl

theorem checkReferencesOfAll_alike (alike : g.Alike g') : (elements : List Element) →
    checkReferencesOfAll ⟨g, options, r⟩ elements =
      checkReferencesOfAll ⟨g', options', r⟩ elements
  | [] => rfl
  | e :: rest => by
    rw [checkReferencesOfAll, checkReferencesOfAll, checkReferences_alike alike e,
      checkReferencesOfAll_alike alike rest]

end

theorem check_alike (alike : g.Alike g') :
    check ⟨g, options, r⟩ = check ⟨g', options', r⟩ := by
  funext e
  rw [check, check, domain_alike alike, checkReferences_alike alike]

theorem accepts_alike (alike : g.Alike g') :
    accepts ⟨g, options, r⟩ = accepts ⟨g', options', r⟩ := by
  funext e
  rw [accepts, accepts, check_alike alike]

theorem rejection?_alike (alike : g.Alike g') :
    rejection? ⟨g, options, r⟩ = rejection? ⟨g', options', r⟩ := by
  funext e
  rw [rejection?, rejection?, check_alike alike]

theorem emptyComplement_alike (alike : g.Alike g') :
    emptyComplement ⟨g, options, r⟩ = emptyComplement ⟨g', options', r⟩ := by
  have domains : domain ⟨g, options, r⟩ = domain ⟨g', options', r⟩ := domain_alike alike
  funext span t
  simp only [emptyComplement, domains, SymbolSet.render_alike alike.vocabulary]
  rfl

theorem symbol_alike (alike : g.Alike g') (span : Span) (e : Element) :
    symbol ⟨g, options, r⟩ span e = symbol ⟨g', options', r⟩ span e := by
  have domains : domain ⟨g, options, r⟩ = domain ⟨g', options', r⟩ := domain_alike alike
  have warnings : emptyComplement ⟨g, options, r⟩ = emptyComplement ⟨g', options', r⟩ :=
    emptyComplement_alike alike
  simp only [symbol, domains, warnings]
  rfl

/-! ## Blocks -/

theorem verdict_alike (alike : g.Alike g') :
    verdict ⟨g, options, r⟩ = verdict ⟨g', options, r⟩ := by
  have rejections : rejection? ⟨g, options, r⟩ = rejection? ⟨g', options, r⟩ :=
    rejection?_alike alike
  have domains : domain ⟨g, options, r⟩ = domain ⟨g', options, r⟩ := domain_alike alike
  funext alternatives
  rw [verdict, verdict, rejections, domains]

theorem block_alike (alike : g.Alike g') (marks : BlockMarks) (alternatives : List Element)
    (branches : Reported (List CompiledSequence)) :
    block ⟨g, options, r⟩ marks alternatives branches =
      block ⟨g', options, r⟩ marks alternatives branches := by
  have rejections : rejection? ⟨g, options, r⟩ = rejection? ⟨g', options, r⟩ :=
    rejection?_alike alike
  have domains : domain ⟨g, options, r⟩ = domain ⟨g', options, r⟩ := domain_alike alike
  have warnings : emptyComplement ⟨g, options, r⟩ = emptyComplement ⟨g', options, r⟩ :=
    emptyComplement_alike alike
  simp only [block, rejections, verdict_alike alike, domains, warnings]
  rfl

mutual

theorem element_alike (alike : g.Alike g') (span : Span) : (e : Element) →
    element ⟨g, options, r⟩ span e = element ⟨g', options, r⟩ span e
  | .reference _ => rfl
  | .literal _ | .charClass _ | .negated _ => symbol_alike alike span _
  | .sequence items => by rw [element, element, items_alike alike span items]
  | .block marks alternatives => by
    rw [element, element, block_alike alike, branches_alike alike marks.span alternatives]

theorem items_alike (alike : g.Alike g') (span : Span) : (elements : List Element) →
    items ⟨g, options, r⟩ span elements = items ⟨g', options, r⟩ span elements
  | [] => rfl
  | e :: rest => by rw [items, items, element_alike alike span e, items_alike alike span rest]

theorem branches_alike (alike : g.Alike g') (span : Span) : (alternatives : List Element) →
    branches ⟨g, options, r⟩ span alternatives = branches ⟨g', options, r⟩ span alternatives
  | [] => rfl
  | e :: rest => by
    have others := branches_alike alike span rest
    have one : alternative ⟨g, options, r⟩ span e = alternative ⟨g', options, r⟩ span e := by
      cases e with
      | sequence elements => exact items_alike alike span elements
      | literal | charClass | negated | reference | block =>
        exact congrArg (Option.toList <$> ·) (element_alike alike span _)
    by_cases accepted : accepts ⟨g, options, r⟩ e
    · rw [branches_cons accepted, branches_cons (accepts_alike alike ▸ accepted), one, others]
    · rw [branches, branches, if_neg accepted, if_neg (accepts_alike alike ▸ accepted), others]

end

end CompileContext

namespace Grammar

variable {g g' : Grammar} {options : CompileOptions}

/-- The entries of the inline table are what can be derived from the rules. -/
theorem Alike.find?_inlineTable (alike : g.Alike g') (name : String) :
    (g.inlineTable options).value.find? name = (g'.inlineTable options).value.find? name := by
  have same : g.rule? = g'.rule? := funext alike.rule?
  unfold inlineTable
  split
  · ext set
    exact InlineTable.find?_eq_some_iff.trans
      (Iff.trans ⟨.of_rule? same.symm, .of_rule? same⟩ InlineTable.find?_eq_some_iff.symm)
  · rfl

theorem Alike.resolved (alike : g.Alike g') (r : Rule) :
    g.resolved options r = g'.resolved options r := by
  have same : g.replacement? (g.inlineTable options).value r.kind =
      g'.replacement? (g'.inlineTable options).value r.kind := by
    funext name
    simp only [replacement?, alike.find?_inlineTable name, alike.rule?]
  rw [Grammar.resolved, Grammar.resolved, same]

theorem Alike.compiledBody (alike : g.Alike g') (r : Rule) :
    g.compiledBody options r = g'.compiledBody options r := by
  simp only [Grammar.compiledBody, alike.resolved r, CompileContext.branches_alike alike,
    CompileContext.block_alike alike]

theorem Alike.compiledRule (alike : g.Alike g') :
    g.compiledRule options = g'.compiledRule options := by
  funext r
  rw [compiledRule_eq, compiledRule_eq, alike.compiledBody]

/-- Names tell the rules of a grammar apart, so the same look-ups find the same rules. -/
theorem Alike.rules_perm (alike : g.Alike g') : g.rules.Perm g'.rules := by
  refine (List.perm_ext_iff_of_nodup (.of_map _ g.distinct) (.of_map _ g'.distinct)).2 fun r => ?_
  have member (grammar : Grammar) : r ∈ grammar.rules ↔ grammar.rule? r.name = some r := by
    rw [rule?_eq_some_iff, and_iff_left rfl]
  rw [member, member, alike.rule?]

/-- Rules in another order compile to the same rules with the same findings about
    them, and one order is refused just when the other is. -/
theorem compile_of_alike (g g' : Grammar) (options : CompileOptions) (alike : g.Alike g') :
    (∀ name, (g.compile options).value.rule? name = (g'.compile options).value.rule? name) ∧
      ((g.compile options).diagnostics.filter (·.kind != .fragmentCycle)).Perm
        ((g'.compile options).diagnostics.filter (·.kind != .fragmentCycle)) ∧
      ((∃ compiled, g.compileStrict options = .ok compiled) ↔
        ∃ compiled, g'.compileStrict options = .ok compiled) := by
  have findings : ((g.compile options).diagnostics.filter (·.kind != .fragmentCycle)).Perm
      ((g'.compile options).diagnostics.filter (·.kind != .fragmentCycle)) := by
    rw [compile_findings, compile_findings, ← funext fun r => congrArg _ (alike.compiledBody r)]
    exact (alike.rules_perm.flatMap_right _).filter _
  refine ⟨fun name => ?_, findings, ?_⟩
  · rw [compile_rule?, compile_rule?, alike.rule?, alike.compiledRule]
  · rw [compileStrict_isOk_iff, compileStrict_isOk_iff]
    exact forall_congr' fun d => imp_congr_left findings.mem_iff

/-- Two tokens, two fragments that lead to each other, and a parser rule with a
    reference to no rule. -/
def mutualFragments : List Rule :=
  [{ name := "A", kind := .lexer, tokenType := some 1, body := ⟨{}, [.reference "D", .char 'a']⟩ },
    { name := "B", kind := .lexer, tokenType := some 2, body := ⟨{}, [.char 'b']⟩ },
    { name := "D", kind := .lexer, isFragment := true, body := ⟨{}, [.reference "E"]⟩ },
    { name := "E", kind := .lexer, isFragment := true,
      body := ⟨{}, [.reference "D", .negated (.char 'e')]⟩ },
    { name := "p", kind := .parser,
      body := ⟨{}, [.reference "A", .sequence [.negated (.reference "B"), .reference "q"]]⟩ }]

/-- The fragment that is visited first is the one that is reported. All else is
    the same from the last rule to the first. -/
theorem compile_of_alike_mutualFragments :
    let first := mutualFragments.foldl add (.empty "MutualFragments")
    let last := mutualFragments.reverse.foldl add (.empty "MutualFragments")
    first.Alike last ∧
      (∀ name, (first.compile {}).value.rule? name = (last.compile {}).value.rule? name) ∧
      (first.compile {}).diagnostics.map Diagnostic.rule = [some "D", some "p"] ∧
      (last.compile {}).diagnostics.map Diagnostic.rule = [some "E", some "p"] ∧
      ¬ ∃ compiled, last.compileStrict {} = .ok compiled := by
  intro first last
  have alike : first.Alike last := by
    -- the definitions of the two token types are in the opposite order too
    refine ⟨congrFun (rule?_of_perm (List.reverse_perm last.rules)), rfl, fun _ => ?_, fun t => ?_⟩
    · simp [Vocabulary.literalName?, first, last, mutualFragments, add, Grammar.empty,
        Vocabulary.define, Vocabulary.empty]
    · by_cases one : 1 = t
      · subst one
        rfl
      · by_cases two : 2 = t <;>
          simp [Vocabulary.symbolicName?, first, last, mutualFragments, add, Grammar.empty,
            Vocabulary.define, Vocabulary.empty, one, two]
  obtain ⟨rules, -, strict⟩ := compile_of_alike first last {} alike
  have refused : ¬ ∃ compiled, first.compileStrict {} = .ok compiled := by
    rintro ⟨compiled, made⟩
    have calm : ((first.compile {}).diagnostics.any Diagnostic.isError) = true := by decide +kernel
    rw [compileStrict, if_pos calm] at made
    cases made
  exact ⟨alike, rules, by decide +kernel, by decide +kernel, fun made => refused (strict.2 made)⟩

end Grammar

end SetGrammar
