import BucketStore.Engine.Request
import BucketStore.LogFilter
import BucketStore.Record
import BucketStore.UploadId
import BucketStore.Proofs.Blank
import BucketStore.Proofs.CanonicalTokens
import BucketStore.Proofs.ContinuationToken
import BucketStore.Proofs.Decimal
import BucketStore.Proofs.EntityTag
import BucketStore.Proofs.Instant
import BucketStore.Proofs.LogFilter
import BucketStore.Proofs.NamedPage
import BucketStore.Proofs.PartPage
import BucketStore.Proofs.Pattern
import BucketStore.Proofs.Settings
import BucketStore.Proofs.Utf8
import BucketStore.Proofs.VersionId
import BucketStore.Proofs.Listing.EmptyMarker
import BucketStore.Proofs.Listing.FirstOccurrence
import BucketStore.Proofs.Listing.ItemOrder
import BucketStore.Proofs.Listing.Items
import BucketStore.Proofs.Listing.Pages
import BucketStore.Proofs.Listing.Resume
import BucketStore.Proofs.Store.Agreement
import BucketStore.Proofs.Store.Draining
import BucketStore.Proofs.Store.Dropping
import BucketStore.Proofs.Store.Histories
import BucketStore.Proofs.Store.KeyEdits
import BucketStore.Proofs.Store.Live
import BucketStore.Proofs.Store.Migration
import BucketStore.Proofs.Store.ObjectPage
import BucketStore.Proofs.Store.Sound
import BucketStore.Proofs.Store.Thinning
import BucketStore.Proofs.Store.Unversioned
import BucketStore.Proofs.Store.Versions
import BucketStore.Proofs.Store.Writing
import BucketStore.Proofs.Engine.Assembly
import BucketStore.Proofs.Engine.CancelledWrite
import BucketStore.Proofs.Engine.Change
import BucketStore.Proofs.Engine.Commuting
import BucketStore.Proofs.Engine.Completion
import BucketStore.Proofs.Engine.Content
import BucketStore.Proofs.Engine.DeletingReading
import BucketStore.Proofs.Engine.Draining
import BucketStore.Proofs.Engine.GeneratedVersions
import BucketStore.Proofs.Engine.InPlace
import BucketStore.Proofs.Engine.Invariant
import BucketStore.Proofs.Engine.Isolation
import BucketStore.Proofs.Engine.IssuedIds
import BucketStore.Proofs.Engine.Locality
import BucketStore.Proofs.Engine.MarkerFollowing
import BucketStore.Proofs.Engine.Moments
import BucketStore.Proofs.Engine.NamedListings
import BucketStore.Proofs.Engine.ObjectReading
import BucketStore.Proofs.Engine.PagingEnds
import BucketStore.Proofs.Engine.PartReading
import BucketStore.Proofs.Engine.ReadPaths
import BucketStore.Proofs.Engine.Reading
import BucketStore.Proofs.Engine.Representation
import BucketStore.Proofs.Engine.SurvivingWrites
import BucketStore.Proofs.Engine.TokenFollowing
import BucketStore.Proofs.Engine.TokenReading
import BucketStore.Proofs.Engine.Unversioned
import BucketStore.Proofs.Engine.UploadLife
import BucketStore.Proofs.Engine.VersionReading
import BucketStore.Proofs.Json.RoundTrip
import BucketStore.Proofs.Json.Text
import BucketStore.Proofs.Record.Fields
import BucketStore.Proofs.Record.RoundTrip
