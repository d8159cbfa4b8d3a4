import KeyedPaths.CharacterClass
import KeyedPaths.WhiteSpace
import KeyedPaths.UnassignedCharacter
import KeyedPaths.CombiningMark
import KeyedPaths.QuotedText
import KeyedPaths.StringMap
import KeyedPaths.StructuralPath
import KeyedPaths.Schema
import KeyedPaths.NodeDefinition
import KeyedPaths.RuleTable
import KeyedPaths.PathElement
import KeyedPaths.Resolution
import KeyedPaths.PathText
import KeyedPaths.Json
import KeyedPaths.JsonFault
import KeyedPaths.JsonString
import KeyedPaths.JsonNumber
import KeyedPaths.JsonText
import KeyedPaths.JsonReader
import KeyedPaths.ShortestDecimal
import KeyedPaths.ShapeFault
import KeyedPaths.SchemaDocument
import KeyedPaths.PathDocument
import KeyedPaths.CommandLine
import KeyedPaths.Main
import KeyedPaths.Proofs.BindingLists
import KeyedPaths.Proofs.Words
import KeyedPaths.Proofs.ByteOrder
import KeyedPaths.Proofs.NameLists
import KeyedPaths.Proofs.Outcomes
import KeyedPaths.Proofs.SegmentBlocks
import KeyedPaths.Proofs.RoundTrip
import KeyedPaths.Proofs.KeySpecification
import KeyedPaths.Proofs.EntryRules
import KeyedPaths.Proofs.NameMatching
import KeyedPaths.Proofs.Recognition
import KeyedPaths.Proofs.PathReading
import KeyedPaths.Proofs.EntryPaths
import KeyedPaths.Proofs.TableConstruction
import KeyedPaths.Proofs.ListedEntries
import KeyedPaths.Proofs.DocumentRules
import KeyedPaths.Proofs.SegmentRecovery
import KeyedPaths.Proofs.Annotation
import KeyedPaths.Proofs.WildcardExpansion
import KeyedPaths.Proofs.Ancestry
import KeyedPaths.Proofs.DefinitionSweep
import KeyedPaths.Proofs.Preorder
import KeyedPaths.Proofs.DocumentEntries
import KeyedPaths.Proofs.Restoration
import KeyedPaths.Proofs.Rebuilding
import KeyedPaths.Proofs.JsonNormalForm
import KeyedPaths.Proofs.Heights
import KeyedPaths.Proofs.DocumentTexts
import KeyedPaths.Proofs.Growth
import KeyedPaths.Proofs.EntryOrder
import KeyedPaths.Proofs.SegmentCuts
import KeyedPaths.Proofs.FurtherSegments
import KeyedPaths.Proofs.DocumentGrammar
import KeyedPaths.Proofs.Arguments
import KeyedPaths.Proofs.Answers
import KeyedPaths.Proofs.PathDocuments
import KeyedPaths.Proofs.JsonTokens
import KeyedPaths.Proofs.JsonGrammar
import KeyedPaths.Proofs.JsonAcceptance
import KeyedPaths.Proofs.MemberOrder
import KeyedPaths.Proofs.RuleListing
import KeyedPaths.Proofs.PendingNodes
import KeyedPaths.Proofs.DocumentOrder
import KeyedPaths.Proofs.Forest
import KeyedPaths.Proofs.StructuralPaths
import KeyedPaths.Proofs.KeyedEntries
