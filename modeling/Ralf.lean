import Ralf.Archive.Completeness
import Ralf.Archive.Confinement
import Ralf.Archive.Entries
import Ralf.Archive.FileRead
import Ralf.Archive.Order
import Ralf.Archive.PathSafety
import Ralf.Archive.ReadSessions
import Ralf.Archive.Reader
import Ralf.Archive.SignedReads
import Ralf.Archive.TreeLimit
import Ralf.Archive.Turns
import Ralf.Archive.WrittenFile
import Ralf.Core.Error
import Ralf.Core.Extraction
import Ralf.Core.Json
import Ralf.Core.JsonAccess
import Ralf.Core.JsonValue
import Ralf.Core.NetworkService
import Ralf.Core.VersionConstraint
import Ralf.Core.VersionForms
import Ralf.Core.VersionNumber
import Ralf.Core.VersionOrder
import Ralf.Core.VersionTexts
import Ralf.Crypto.CertificateChain
import Ralf.Crypto.XmlSignature
import Ralf.DmVerity.AllOrNothing
import Ralf.DmVerity.Binding
import Ralf.DmVerity.Builder
import Ralf.DmVerity.Caches
import Ralf.DmVerity.DeviceList
import Ralf.DmVerity.DeviceName
import Ralf.DmVerity.HashArea
import Ralf.DmVerity.KernelObjects
import Ralf.DmVerity.LiveFile
import Ralf.DmVerity.LiveRead
import Ralf.DmVerity.MountLifetime
import Ralf.DmVerity.MountObject
import Ralf.DmVerity.MountScript
import Ralf.DmVerity.MountSpecs
import Ralf.DmVerity.MountSteps
import Ralf.DmVerity.Mounter
import Ralf.DmVerity.Opening
import Ralf.DmVerity.Ownership
import Ralf.DmVerity.ProtectedFile
import Ralf.DmVerity.ProtectedRead
import Ralf.DmVerity.SignedBlocks
import Ralf.DmVerity.Stateless
import Ralf.DmVerity.SuperBlock
import Ralf.DmVerity.TargetParams
import Ralf.DmVerity.VerifiedMount
import Ralf.DmVerity.Verifier
import Ralf.Erofs.BlockNames
import Ralf.Erofs.Checksum
import Ralf.Erofs.ClusterEncoding
import Ralf.Erofs.CompactAgreement
import Ralf.Erofs.CompactHeads
import Ralf.Erofs.CompressedReads
import Ralf.Erofs.DirectoryBlocks
import Ralf.Erofs.DirectoryData
import Ralf.Erofs.DirectoryReads
import Ralf.Erofs.Ending
import Ralf.Erofs.EntryPaths
import Ralf.Erofs.Enumeration
import Ralf.Erofs.ExtentMap
import Ralf.Erofs.ExtentTiling
import Ralf.Erofs.FileMaps
import Ralf.Erofs.HeadExtents
import Ralf.Erofs.HostileImage
import Ralf.Erofs.ImageFile
import Ralf.Erofs.ImageFiles
import Ralf.Erofs.InlineReads
import Ralf.Erofs.Inode
import Ralf.Erofs.InodeContents
import Ralf.Erofs.InodeData
import Ralf.Erofs.Listing
import Ralf.Erofs.NamedEntries
import Ralf.Erofs.PackTrace
import Ralf.Erofs.ReadFailures
import Ralf.Erofs.Reader
import Ralf.Erofs.RepeatedRuns
import Ralf.Erofs.SuperBlock
import Ralf.Erofs.UnreadableBlocks
import Ralf.Lib.AuthTree
import Ralf.Lib.Bytes
import Ralf.Lib.CString
import Ralf.Lib.CallParts
import Ralf.Lib.Calls
import Ralf.Lib.Crc
import Ralf.Lib.FallibleLoop
import Ralf.Lib.Fields
import Ralf.Lib.Intervals
import Ralf.Lib.KeyedMap
import Ralf.Lib.Numeral
import Ralf.Lib.OrderedMap
import Ralf.Lib.PackedBits
import Ralf.Lib.PartialSequence
import Ralf.Lib.Path
import Ralf.Lib.Positional
import Ralf.Lib.Posix
import Ralf.Lib.PosixFresh
import Ralf.Lib.Transcript
import Ralf.Lib.Walk
import Ralf.Oci.ArchiveBackingStore
import Ralf.Oci.ArchiveImageLayerReader
import Ralf.Oci.CacheBounds
import Ralf.Oci.ConfigJson
import Ralf.Oci.ConfigRead
import Ralf.Oci.Descriptor
import Ralf.Oci.DmVerityAnnotations
import Ralf.Oci.EndOfLayer
import Ralf.Oci.ErofsEntryContents
import Ralf.Oci.ErofsImageEntry
import Ralf.Oci.ErofsImageExtraction
import Ralf.Oci.ErofsImageLayerReader
import Ralf.Oci.Mount
import Ralf.Oci.Package
import Ralf.Oci.Packaging
import Ralf.Oci.PublishedAnnotations
import Ralf.Oci.PublishedLayer
import Ralf.Oci.ServedConfig
import Ralf.Oci.Settings
import Ralf.Oci.SignedManifest
import Ralf.Oci.Stores
import Ralf.Oci.TarHeaders
import Ralf.Oci.VerifyPackage
import Ralf.Package.EntryContents
import Ralf.Package.ExtractTo
import Ralf.Package.Limits
import Ralf.Package.Options
import Ralf.Package.Settings
import Ralf.Package.WrittenEntries
import Ralf.W3c.Agreement
import Ralf.W3c.Completeness
import Ralf.W3c.Package
import Ralf.W3c.Settings
import Ralf.W3c.SignedWidget
import Ralf.W3c.WidgetLife
