import OsmPolygonWikidata.LinkMigration.Rollback
import OsmPolygonWikidata.Publication.Serial
import OsmPolygonWikidata.Extraction.Failures
import OsmPolygonWikidata.Statistics.ColumnCounters
import OsmPolygonWikidata.Sentences.Segmentation
import OsmPolygonWikidata.Sentences.Provenance
import OsmPolygonWikidata.Direct.CheckpointReuse
import OsmPolygonWikidata.Direct.FetchErrors
import OsmPolygonWikidata.Direct.SectionHistory
import OsmPolygonWikidata.Scheduler.ReservedStarts
import OsmPolygonWikidata.Scheduler.HostPacing
import OsmPolygonWikidata.Scheduler.GlobalCooldowns
import OsmPolygonWikidata.UploadQueue.LegacyUpgrade
import OsmPolygonWikidata.UploadQueue.Queue
import OsmPolygonWikidata.UploadQueue.RoundTrip
import OsmPolygonWikidata.Integrity.LedgerMerge
import OsmPolygonWikidata.Integrity.PolygonArticlesIntegrity
import OsmPolygonWikidata.LinkMigration.Conversion
import OsmPolygonWikidata.Storage.StagedInstall
import OsmPolygonWikidata.Storage.RegionTables
import OsmPolygonWikidata.Storage.Persistence
import OsmPolygonWikidata.Storage.JsonFileCache
import OsmPolygonWikidata.V2.StoredReferences
import OsmPolygonWikidata.V2.Runner
import OsmPolygonWikidata.Containment.LinkIntegrity
import OsmPolygonWikidata.Containment.Interruption
import OsmPolygonWikidata.Grid5000.Resumption
import OsmPolygonWikidata.Grid5000.BatchImport
import OsmPolygonWikidata.Grid5000.SentenceBatches
import OsmPolygonWikidata.Augmentation.Orchestrator
import OsmPolygonWikidata.Augmentation.WikidataFacts
import OsmPolygonWikidata.Augmentation.MigrationApply
import OsmPolygonWikidata.LanguageSplits.ReleasePlan
import OsmPolygonWikidata.Pipeline.RowConstruction
import OsmPolygonWikidata.Pipeline.SyncRunner
import OsmPolygonWikidata.WikidataRecovery.Recoverability
import OsmPolygonWikidata.WikidataRecovery.RepairSoundness
import OsmPolygonWikidata.WikidataRecovery.Receipts
