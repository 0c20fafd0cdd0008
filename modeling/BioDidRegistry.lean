import BioDidRegistry.Properties.AccountSize
import BioDidRegistry.Properties.Authority
import BioDidRegistry.Properties.Availability
import BioDidRegistry.Properties.Builders
import BioDidRegistry.Properties.ChunkedPath
import BioDidRegistry.Properties.Containment
import BioDidRegistry.Properties.Deactivation
import BioDidRegistry.Properties.DefaultMethod
import BioDidRegistry.Properties.Deprecated
import BioDidRegistry.Properties.Events
import BioDidRegistry.Properties.ExternalControllers
import BioDidRegistry.Properties.FailingCalls
import BioDidRegistry.Properties.Followers
import BioDidRegistry.Properties.Founding
import BioDidRegistry.Properties.Interleavings
import BioDidRegistry.Properties.Lamports
import BioDidRegistry.Properties.OffsetReads
import BioDidRegistry.Properties.OwnKey
import BioDidRegistry.Properties.ParsedLayout
import BioDidRegistry.Properties.Prefunding
import BioDidRegistry.Properties.ReachedDocuments
import BioDidRegistry.Properties.Reads
import BioDidRegistry.Properties.Refinement
import BioDidRegistry.Properties.ResumedUploads
import BioDidRegistry.Properties.Retries
import BioDidRegistry.Properties.TypedAccounts
import BioDidRegistry.Properties.UploadKey
import BioDidRegistry.Properties.Uploads
import BioDidRegistry.Properties.Versions
import BioDidRegistry.Properties.WholeRegistry
import BioDidRegistry.Properties.WindingDown
