import PddlOutline.Main
import PddlOutline.Reading.Session
import PddlOutline.Files.FileTree
import PddlOutline.Proofs.Nesting.Forest
import PddlOutline.Proofs.Nesting.Matching
import PddlOutline.Proofs.Nesting.Balance
import PddlOutline.Proofs.Expressions
import PddlOutline.Proofs.Outermost
import PddlOutline.Proofs.Keyword
import PddlOutline.Proofs.Outcome
import PddlOutline.Proofs.NameMap
import PddlOutline.Proofs.Text.Runs
import PddlOutline.Proofs.Text.Lines
import PddlOutline.Proofs.TokenLists
import PddlOutline.Proofs.TypedList.Splitting
import PddlOutline.Proofs.TypedList.Grouping
import PddlOutline.Proofs.TypedList.Labels
import PddlOutline.Proofs.TypedList.ReadBack
import PddlOutline.Proofs.Parameters.Grammar
import PddlOutline.Proofs.Parameters.Offence
import PddlOutline.Proofs.Parameters.Dashed
import PddlOutline.Proofs.Section
import PddlOutline.Proofs.Action
import PddlOutline.Proofs.Locality
import PddlOutline.Proofs.Layout.Items
import PddlOutline.Proofs.Layout.Blocks
import PddlOutline.Proofs.Layout.Sections
import PddlOutline.Proofs.Layout.Action
import PddlOutline.Proofs.Layout.Header
import PddlOutline.Proofs.Layout.Domain
import PddlOutline.Proofs.Layout.Problem
import PddlOutline.Proofs.Parts
import PddlOutline.Proofs.Nesting.Counts
import PddlOutline.Proofs.Nesting.Pairs
import PddlOutline.Proofs.Nesting.Restart
import PddlOutline.Proofs.Children
import PddlOutline.Proofs.Failure
import PddlOutline.Proofs.Success
import PddlOutline.Proofs.DefinedActions
import PddlOutline.Proofs.Located
import PddlOutline.Proofs.Parentheses
import PddlOutline.Proofs.Ranges
import PddlOutline.Proofs.Session
import PddlOutline.Proofs.Log
import PddlOutline.Proofs.Names
import PddlOutline.Proofs.WellFormed
import PddlOutline.Proofs.LetterCase.Text
import PddlOutline.Proofs.LetterCase.Section
import PddlOutline.Proofs.LetterCase.Document
import PddlOutline.Proofs.ActionName
import PddlOutline.Proofs.HeadSymbols
import PddlOutline.Proofs.Normalization.Words
import PddlOutline.Proofs.Normalization.NormalForm
import PddlOutline.Proofs.Json.Lexeme
import PddlOutline.Proofs.Json.Reader
import PddlOutline.Proofs.Json.Codec
import PddlOutline.Proofs.Files
import PddlOutline.Proofs.CommandLine
import PddlOutline.Proofs.Text.FirstMatch
import PddlOutline.Proofs.Text.Respacing
import PddlOutline.Proofs.Header
import PddlOutline.Proofs.Discovery.Conventions
import PddlOutline.Proofs.Discovery.Preference
import PddlOutline.Proofs.PathSteps
import PddlOutline.Proofs.Discovery.Spelling
import PddlOutline.Proofs.Tokens
import PddlOutline.Proofs.Nesting.Endings
import PddlOutline.Proofs.Offsets
import PddlOutline.Proofs.SectionSearch
import PddlOutline.Proofs.Scans
import PddlOutline.Proofs.Text.Display
import PddlOutline.Proofs.Text.Position
import PddlOutline.Proofs.Passage
import PddlOutline.Proofs.Diagnostic
