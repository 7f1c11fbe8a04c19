import CodeSearch.Main
import CodeSearch.Config.Json
import CodeSearch.Proofs.Agreement
import CodeSearch.Proofs.Attempts
import CodeSearch.Proofs.Soundness
import CodeSearch.Proofs.Literals
import CodeSearch.Proofs.Questions
import CodeSearch.Proofs.TokenFilter
import CodeSearch.Proofs.Conversion
import CodeSearch.Proofs.SourceText
import CodeSearch.Proofs.Rules
import CodeSearch.Proofs.LanguageFilter
import CodeSearch.Proofs.EcmaQuestions
import CodeSearch.Proofs.AliasRoutes
import CodeSearch.Proofs.LanguageAliases
import CodeSearch.Proofs.ExtraCode
import CodeSearch.Proofs.NormalForm
import CodeSearch.Proofs.ModeInclusion
import CodeSearch.Proofs.Visits
import CodeSearch.Proofs.SearchRun
import CodeSearch.Proofs.Attachment
import CodeSearch.Proofs.Accounting
import CodeSearch.Proofs.Placeholders
import CodeSearch.Proofs.LanguageSelfMatch
import CodeSearch.Proofs.LanguageLikeness
import CodeSearch.Proofs.PairedKeys
import CodeSearch.Proofs.QueryOrder
import CodeSearch.Proofs.ExitStatus
import CodeSearch.Proofs.GreedyClaims
import CodeSearch.Proofs.AliasUses
import CodeSearch.Proofs.AliasConstraints
import CodeSearch.Proofs.IgnoredNodes
import CodeSearch.Proofs.Narrowing
import CodeSearch.Proofs.SideBySide
import CodeSearch.Proofs.DefaultValues
import CodeSearch.Proofs.Fillings
import CodeSearch.Proofs.RepeatedAliases
import CodeSearch.Proofs.CaseFilter
import CodeSearch.Proofs.QueryReading
import CodeSearch.Proofs.StatementBlocks
import CodeSearch.Proofs.FailurePlaces
import CodeSearch.Proofs.MetUses
import CodeSearch.Proofs.PropertyComparison
import CodeSearch.Proofs.PropertyForms
import CodeSearch.Proofs.PassingRules
import CodeSearch.Proofs.OptionalChains
import CodeSearch.Proofs.SelfClosing
import CodeSearch.Proofs.WildcardSpellings
import CodeSearch.Proofs.AliasRenaming
import CodeSearch.Proofs.RenamedQueries
import CodeSearch.Proofs.Templates
import CodeSearch.Proofs.Finishing
import CodeSearch.Proofs.AcceptedTrees
import CodeSearch.Proofs.SourcePlaces
import CodeSearch.Proofs.Dimensions
import CodeSearch.Proofs.Picks
import CodeSearch.Proofs.CodeFrames
import CodeSearch.Proofs.PrintedLines
import CodeSearch.Proofs.BuiltTrees
import CodeSearch.Proofs.WriteOnce
import CodeSearch.Proofs.ScannedTexts
import CodeSearch.Proofs.SpoiledQueries
