import Upkeep.Codemod.Idempotence
import Upkeep.Main
import Upkeep.Proofs.Overlay.Flush
import Upkeep.Proofs.Overlay.History
import Upkeep.Proofs.Overlay.InPlace
import Upkeep.Proofs.Overlay.Listing
import Upkeep.Proofs.Overlay.TouchOrder
import Upkeep.Proofs.Pipeline.Prefix
import Upkeep.Proofs.Pipeline.Formatting
import Upkeep.Proofs.Pipeline.Jobs
import Upkeep.Proofs.Pipeline.Installing
import Upkeep.Proofs.Pipeline.BestEffort
import Upkeep.Proofs.Pipeline.EventOrder
import Upkeep.Proofs.Pipeline.FlagRecord
import Upkeep.Proofs.Catalog.BuildMetadata
import Upkeep.Proofs.Codemod.Idempotence
import Upkeep.Proofs.Settings.Reload
import Upkeep.Proofs.Entries
import Upkeep.Proofs.Text.Utf8
import Upkeep.Proofs.Json.Edit
import Upkeep.Proofs.Manifest.Removal
import Upkeep.Proofs.Registry.CommentLines
import Upkeep.Proofs.Registry.EslintDeprecation
import Upkeep.Proofs.Registry.ManifestMigrations
import Upkeep.Proofs.Registry.Rerun
import Upkeep.Proofs.Options.FieldWise
import Upkeep.Proofs.Settings.Keeping
import Upkeep.Proofs.Pipeline.Confinement
import Upkeep.Proofs.Pipeline.WrittenBack
import Upkeep.Proofs.Manifest.Ranges
import Upkeep.Proofs.Manifest.Raising
import Upkeep.Proofs.Registry.StrandedRule
import Upkeep.Proofs.Console.EarlyFailure
import Upkeep.Proofs.Registry.RevisedConfig
import Upkeep.Proofs.Registry.ExternalsEdit
import Upkeep.Proofs.Registry.BundledUi
import Upkeep.Proofs.Registry.CollidingFeature
import Upkeep.Proofs.Options.Projection
import Upkeep.Proofs.Console.WrittenOptions
import Upkeep.Proofs.Settings.Overwriting
import Upkeep.Proofs.Spelling
import Upkeep.Proofs.Version.Readers
import Upkeep.Proofs.Version.Comparison
import Upkeep.Proofs.Manifest.Lookup
import Upkeep.Proofs.Manifest.Remaining
import Upkeep.Proofs.Overlay.WrittenDocument
import Upkeep.Proofs.PackageManager
