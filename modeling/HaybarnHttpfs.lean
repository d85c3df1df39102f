import HaybarnHttpfs.Foundation.TransitionRuns
import HaybarnHttpfs.CurlMultiDispatcher
import HaybarnHttpfs.S3ClientCache
import HaybarnHttpfs.ReadCursor
import HaybarnHttpfs.ConditionalReads
import HaybarnHttpfs.Foundation.Refinement
import HaybarnHttpfs.MultipartCommit
import HaybarnHttpfs.Partitioning
import HaybarnHttpfs.Foundation.Blocks
import HaybarnHttpfs.UploadData
import HaybarnHttpfs.S3RequestLoop
import HaybarnHttpfs.RangeExactness
import HaybarnHttpfs.HTTPExchange
import HaybarnHttpfs.VersionPinning
import HaybarnHttpfs.CredentialRefresh
import HaybarnHttpfs.MetadataCache
import HaybarnHttpfs.S3Glob
import HaybarnHttpfs.GlobUrls
import HaybarnHttpfs.Foundation.XmlReader
import HaybarnHttpfs.Foundation.Exceptions
import HaybarnHttpfs.BulkDelete
import HaybarnHttpfs.HuggingFaceFileSystem
import HaybarnHttpfs.HuggingFacePages
import HaybarnHttpfs.HuggingFaceTree
import HaybarnHttpfs.HuggingFaceGlob
import HaybarnHttpfs.CredentialReload
import HaybarnHttpfs.MultipartCompletion
import HaybarnHttpfs.PartSizing
import HaybarnHttpfs.PathMatching
import HaybarnHttpfs.UploadSlots
import HaybarnHttpfs.ListRequestLoop
import HaybarnHttpfs.DeleteBatchKeys
import HaybarnHttpfs.FileInfo
import HaybarnHttpfs.ListPages
import HaybarnHttpfs.BucketListing
import HaybarnHttpfs.GlobTraversal
import HaybarnHttpfs.RemoveDirectory
import HaybarnHttpfs.HandleSettings
import HaybarnHttpfs.CachedFileLock
import HaybarnHttpfs.ConnectionSharing
import HaybarnHttpfs.CurlHandleReuse
import HaybarnHttpfs.CurlHeaders
import HaybarnHttpfs.CurlResponses
import HaybarnHttpfs.RequestAcceptance
import HaybarnHttpfs.SecretOptions
import HaybarnHttpfs.AuthParamsRuns
import HaybarnHttpfs.RegionEndpoint
import HaybarnHttpfs.QueryOverrides
import HaybarnHttpfs.LengthGuard
import HaybarnHttpfs.FailedDownload
import HaybarnHttpfs.UrlParts
import HaybarnHttpfs.HuggingFaceUrls
import HaybarnHttpfs.LinkHeader
import HaybarnHttpfs.SequentialRead
import HaybarnHttpfs.SecretOrder
import HaybarnHttpfs.SecretRefresh
import HaybarnHttpfs.Crypto
import HaybarnHttpfs.HuggingFaceJson
import HaybarnHttpfs.DirectoryListing
import HaybarnHttpfs.FileOpening
