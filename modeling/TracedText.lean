import TracedText.Proofs.Edits
import TracedText.Session.Run
import TracedText.Proofs.SessionRuns
import TracedText.Proofs.Tracking
import TracedText.Proofs.Messages
import TracedText.Proofs.Quantities
import TracedText.Proofs.Mappings
import TracedText.Proofs.Coordinates
import TracedText.Proofs.JsonTokens
import TracedText.Proofs.Markers
import TracedText.Proofs.JsonDocuments
import TracedText.Proofs.Encodings
import TracedText.Proofs.Files
import TracedText.Proofs.Storage
import TracedText.Proofs.Batches
import TracedText.Proofs.Acceptance
import TracedText.Proofs.Rejections
import TracedText.Proofs.Lookups
import TracedText.Proofs.NormalForms
import TracedText.Proofs.Origins
import TracedText.Proofs.Compositions
import TracedText.Proofs.Loaders
import TracedText.Proofs.StoredLookups
import TracedText.Proofs.CacheHistories
import TracedText.Proofs.JsonReorderings
import TracedText.Proofs.Slices
import TracedText.Proofs.Splices
import TracedText.Proofs.SlicedBatches
import TracedText.Proofs.Placements
import TracedText.Proofs.DocumentShapes
import TracedText.Proofs.OffsetLookups
import TracedText.Proofs.Runs
import TracedText.Proofs.Positions
import TracedText.Proofs.Spellings
import TracedText.Proofs.MapPlaces
import TracedText.Proofs.Parts
import TracedText.Proofs.Plans
import TracedText.Proofs.Seams
import TracedText.Proofs.FirstMarkers
import TracedText.Proofs.PointOrders
import TracedText.Proofs.Saves
import TracedText.Proofs.SourcePlaces
