import Relocate.Main
import Relocate.Proofs.Form.Lexemes
import Relocate.Proofs.Form.Spelling
import Relocate.Proofs.Form.Rendering
import Relocate.Proofs.Declaration.SourceText
import Relocate.Proofs.Form.Names
import Relocate.Proofs.Declaration.Libspecs
import Relocate.Proofs.Declaration.Requirements
import Relocate.Proofs.Declaration.Imports
import Relocate.Proofs.Declaration.Sections
import Relocate.Proofs.Declaration.Codec
import Relocate.Proofs.Disk.Trees
import Relocate.Proofs.Disk.Changes
import Relocate.Proofs.Disk.Moves
import Relocate.Proofs.Actions
import Relocate.Proofs.Graph
import Relocate.Proofs.Scan
import Relocate.Proofs.Rename.Effect
import Relocate.Proofs.Rename.Moves
import Relocate.Proofs.Declaration.OwnName
import Relocate.Proofs.Disk.Locations
import Relocate.Proofs.Rename.OwnName
import Relocate.Proofs.SourceFiles
import Relocate.Proofs.Declaration.References
import Relocate.Proofs.Rename.Consistency
import Relocate.Proofs.Form.Layouts
import Relocate.Proofs.Dependents
import Relocate.Proofs.Declaration.Rewriting
import Relocate.Proofs.Rename.Listing
import Relocate.Proofs.Rename.Steps
import Relocate.Proofs.Rename.References
import Relocate.Proofs.Rename.Substitution
import Relocate.Proofs.SourceNames
import Relocate.Proofs.Rename.Contents
import Relocate.Proofs.BodyReferences
import Relocate.Proofs.BodyRenaming
import Relocate.Proofs.ModulePaths
import Relocate.Proofs.RootLists
import Relocate.Proofs.DeepestRoot
import Relocate.Proofs.Outcomes
import Relocate.Proofs.Rename.Refusals
import Relocate.Proofs.Rename.Frame
import Relocate.Proofs.Declaration.Following
import Relocate.Proofs.Declaration.ImportedClasses
import Relocate.Proofs.Rename.MovedText
import Relocate.Proofs.Rename.Transfers
import Relocate.Proofs.Rename.Accounting
import Relocate.Proofs.Form.Progress
import Relocate.Proofs.Form.Tiling
import Relocate.Proofs.Declaration.Splitting
import Relocate.Proofs.Rename.Pruning
import Relocate.Proofs.Converses
import Relocate.Proofs.Declaration.WholeNames
import Relocate.Proofs.Declaration.PrefixLists
import Relocate.Proofs.Form.LineEnds
import Relocate.Proofs.DependentsByPath
import Relocate.Proofs.Normalizing
