import DroidPlatform.Region.Canonical
import DroidPlatform.BufferQueue.FrameOrder
import DroidPlatform.BufferQueue.StaleRelease
import DroidPlatform.Parcel.Cursor
import DroidPlatform.Parcel.RoundTrip
import DroidPlatform.Parcel.ObjectTable
import DroidPlatform.MemoryDealer.HeapPartition
import DroidPlatform.Hashtable.Clear
import DroidPlatform.Vector.ListRefinement
import DroidPlatform.Vector.KeyedVector
import DroidPlatform.Vector.SortedMerge
import DroidPlatform.BlobCache.ReadBounds
import DroidPlatform.BlobCache.RoundTrip
import DroidPlatform.Unicode.RoundTrip
import DroidPlatform.Unicode.Measure
import DroidPlatform.Looper.WakeUp
import DroidPlatform.ZipFile.EntryData
import DroidPlatform.Ext4.Sparse.RoundTrip
import DroidPlatform.Ext4.Sparse.RangeChecks
import DroidPlatform.Ext4.Sparse.RawOutput
import DroidPlatform.Ext4.Allocator.Shortage
import DroidPlatform.Ext4.Directory.LinearDirectory
import DroidPlatform.Bionic.SemaphoreWakeups
import DroidPlatform.Resolv.RefusedAdd
import DroidPlatform.Resolv.QueryGrammar
import DroidPlatform.Linker.Reservation
import DroidPlatform.LinearTransform
import DroidPlatform.Linker.RefCounts
import DroidPlatform.Lk.BootLikeImage
import DroidPlatform.Lk.Streaming
import DroidPlatform.Lk.DualCacheDelivery
import DroidPlatform.Region.SweepTermination
import DroidPlatform.Region.RectOperations
import DroidPlatform.BufferQueue.ClientBufferCount
import DroidPlatform.BufferQueue.FailedCalls
