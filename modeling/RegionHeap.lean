import RegionHeap.AlignmentRecords
import RegionHeap.Blocks.Defects
import RegionHeap.Blocks.Entry
import RegionHeap.Blocks.Table
import RegionHeap.Bytes
import RegionHeap.Failure
import RegionHeap.Fragments.BusyMap
import RegionHeap.Fragments.Link
import RegionHeap.Geometry
import RegionHeap.Heap.Aligned
import RegionHeap.Heap.Basic
import RegionHeap.Heap.Defects
import RegionHeap.Heap.Fragments
import RegionHeap.Heap.Named
import RegionHeap.Heap.Objects
import RegionHeap.Heap.Open
import RegionHeap.Heap.Usage
import RegionHeap.Image.Codec
import RegionHeap.Image.Load
import RegionHeap.Image.Save
import RegionHeap.Names
import RegionHeap.Operation
import RegionHeap.OrderedMap
import RegionHeap.Proofs.AlignmentTable
import RegionHeap.Proofs.Blocks.Accepting
import RegionHeap.Proofs.Blocks.Bins
import RegionHeap.Proofs.Blocks.Claiming
import RegionHeap.Proofs.Blocks.Gaps
import RegionHeap.Proofs.Blocks.InRange
import RegionHeap.Proofs.Blocks.InUse
import RegionHeap.Proofs.Blocks.Layout
import RegionHeap.Proofs.Blocks.Occupancy
import RegionHeap.Proofs.Blocks.Rebuilding
import RegionHeap.Proofs.Blocks.Refinement
import RegionHeap.Proofs.Blocks.Releasing
import RegionHeap.Proofs.Blocks.Taking
import RegionHeap.Proofs.Blocks.Walking
import RegionHeap.Proofs.Fragments.Bits
import RegionHeap.Proofs.Fragments.IndexSets
import RegionHeap.Proofs.Heap.Accepting
import RegionHeap.Proofs.Heap.Aligning
import RegionHeap.Proofs.Heap.Alike
import RegionHeap.Proofs.Heap.AnyImage
import RegionHeap.Proofs.Heap.ArenaEnd
import RegionHeap.Proofs.Heap.Attaching
import RegionHeap.Proofs.Heap.BlockSteps
import RegionHeap.Proofs.Heap.Census
import RegionHeap.Proofs.Heap.Checking
import RegionHeap.Proofs.Heap.Clients
import RegionHeap.Proofs.Heap.Consistency
import RegionHeap.Proofs.Heap.Creation
import RegionHeap.Proofs.Heap.Custody
import RegionHeap.Proofs.Heap.Cuts
import RegionHeap.Proofs.Heap.Draining
import RegionHeap.Proofs.Heap.Effects
import RegionHeap.Proofs.Heap.Figures
import RegionHeap.Proofs.Heap.FirstTries
import RegionHeap.Proofs.Heap.FragmentCheck
import RegionHeap.Proofs.Heap.FragmentLists
import RegionHeap.Proofs.Heap.FragmentSteps
import RegionHeap.Proofs.Heap.Frugality
import RegionHeap.Proofs.Heap.Handles
import RegionHeap.Proofs.Heap.Histories
import RegionHeap.Proofs.Heap.Images
import RegionHeap.Proofs.Heap.Indifference
import RegionHeap.Proofs.Heap.Isolation
import RegionHeap.Proofs.Heap.Lengths
import RegionHeap.Proofs.Heap.Loading
import RegionHeap.Proofs.Heap.Lockstep
import RegionHeap.Proofs.Heap.ObjectSteps
import RegionHeap.Proofs.Heap.Opening
import RegionHeap.Proofs.Heap.Outcome
import RegionHeap.Proofs.Heap.Persistence
import RegionHeap.Proofs.Heap.Placing
import RegionHeap.Proofs.Heap.Reallocating
import RegionHeap.Proofs.Heap.Reckoning
import RegionHeap.Proofs.Heap.Recording
import RegionHeap.Proofs.Heap.Refusing
import RegionHeap.Proofs.Heap.Registering
import RegionHeap.Proofs.Heap.Releasing
import RegionHeap.Proofs.Heap.Reloading
import RegionHeap.Proofs.Heap.Remembering
import RegionHeap.Proofs.Heap.Replaying
import RegionHeap.Proofs.Heap.Resizing
import RegionHeap.Proofs.Heap.Resolution
import RegionHeap.Proofs.Heap.Resuming
import RegionHeap.Proofs.Heap.Running
import RegionHeap.Proofs.Heap.SameArena
import RegionHeap.Proofs.Heap.SharedLinks
import RegionHeap.Proofs.Heap.Steady
import RegionHeap.Proofs.Heap.Stores
import RegionHeap.Proofs.Heap.Syncing
import RegionHeap.Proofs.Heap.Tending
import RegionHeap.Proofs.Heap.Totality
import RegionHeap.Proofs.Heap.Turns
import RegionHeap.Proofs.Heap.Undoing
import RegionHeap.Proofs.Heap.WellFormed
import RegionHeap.Proofs.Image.AnyBytes
import RegionHeap.Proofs.Image.Holding
import RegionHeap.Proofs.Image.Reading
import RegionHeap.Proofs.Image.Restoring
import RegionHeap.Proofs.Image.Saving
import RegionHeap.Proofs.Image.Sharing
import RegionHeap.Proofs.Image.Sizing
import RegionHeap.Proofs.NameMap
import RegionHeap.Proofs.Region.Growable
import RegionHeap.Proofs.Region.Sizes
import RegionHeap.Proofs.Region.Words
import RegionHeap.Proofs.Registry
import RegionHeap.Proofs.Renumbering
import RegionHeap.Proofs.Requests
import RegionHeap.Proofs.Sequencing
import RegionHeap.Proofs.Session.Family
import RegionHeap.Proofs.Session.Interleaving
import RegionHeap.Proofs.Session.Slots
import RegionHeap.Proofs.Threads
import RegionHeap.Region.Basic
import RegionHeap.Region.Directory
import RegionHeap.Session
import RegionHeap.Size
import RegionHeap.Text.CharRanges
import RegionHeap.Text.Quoted
