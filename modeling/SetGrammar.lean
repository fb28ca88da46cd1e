import SetGrammar.Compilation
import SetGrammar.Compiled.Rendering
import SetGrammar.Compiled.Export
import SetGrammar.Diagnostic.Snippet
import SetGrammar.Parse
import SetGrammar.Tokenization
import SetGrammar.Vocabulary.Listing
import SetGrammar.Proofs.Symbol.UniqueForm
import SetGrammar.Proofs.Symbol.Merging
import SetGrammar.Proofs.Symbol.Complement
import SetGrammar.Proofs.Analysis.Alternatives
import SetGrammar.Proofs.Compilation.KeptBranches
import SetGrammar.Proofs.Recognition.Adequacy
import SetGrammar.Proofs.Compilation.Rules
import SetGrammar.Proofs.Compilation.Refinement
import SetGrammar.Proofs.Recognition.Agreement
import SetGrammar.Proofs.Compilation.Options
import SetGrammar.Proofs.Compilation.Links
import SetGrammar.Proofs.Recognition.Simulation
import SetGrammar.Proofs.Recognition.Misuse
import SetGrammar.Proofs.Recognition.ExpectedSymbols
import SetGrammar.Proofs.Recognition.InlinedRules
import SetGrammar.Proofs.Tokenization.LongestMatch
import SetGrammar.Proofs.Tokenization.Pieces
import SetGrammar.Proofs.Tokenization.Cutting
import SetGrammar.Proofs.Recognition.StepBound
import SetGrammar.Proofs.Recognition.Limits
import SetGrammar.Proofs.Recognition.Repairs
import SetGrammar.Proofs.Recognition.ParseErrors
import SetGrammar.Proofs.Analysis.Grouping
import SetGrammar.Proofs.Grammar.Cycles
import SetGrammar.Proofs.Compilation.RuleOrder
import SetGrammar.Proofs.Compilation.Labels
import SetGrammar.Proofs.Compilation.Losses
import SetGrammar.Proofs.Analysis.AlternativeOrder
import SetGrammar.Proofs.Compilation.FormedSets
import SetGrammar.Proofs.Tokenization.Lookahead
import SetGrammar.Proofs.Grammar.Building
import SetGrammar.Proofs.Symbol.Unambiguous
import SetGrammar.Proofs.Recognition.Passage
import SetGrammar.Proofs.Grammar.TokenTypes
import SetGrammar.Proofs.Tokenization.EndTokens
import SetGrammar.Proofs.Json
import SetGrammar.Proofs.Compiled.Export
import SetGrammar.Proofs.Diagnostic.Precedence
import SetGrammar.Proofs.Text.Reading
import SetGrammar.Proofs.Vocabulary.Listing
import SetGrammar.Proofs.Tokenization.AddedEnd
import SetGrammar.Proofs.Symbol.Offender
import SetGrammar.Proofs.Recognition.OneCharacter
import SetGrammar.Proofs.Compilation.Regrouping
import SetGrammar.Proofs.Recognition.Stacks
