import FexTestBins.Library.Copies
import FexTestBins.Library.Interrupts
import FexTestBins.Library.IntervalGaps
import FexTestBins.Library.IntervalOverlay
import FexTestBins.Library.Transition
import FexTestBins.Library.Words
import FexTestBins.Library.X86
import FexTestBins.Proof.BoundedBuckets
import FexTestBins.Proof.BucketChain
import FexTestBins.Proof.FailedMmaps
import FexTestBins.Proof.Fibers
import FexTestBins.Proof.LiveMaps
import FexTestBins.Proof.Nested2Endings
import FexTestBins.Proof.NestedEndings
import FexTestBins.Proof.ParserSafety
import FexTestBins.Proof.PthreadCancel
import FexTestBins.Proof.ReaderBounds
import FexTestBins.Proof.ReserveAddressSpace
import FexTestBins.Proof.RoundRobin
import FexTestBins.Proof.Seccomp
import FexTestBins.Proof.SigtestNoDefer
import FexTestBins.Proof.SigtestSamask
import FexTestBins.Proof.Smc2
import FexTestBins.Proof.SmcDelivery
import FexTestBins.Proof.SmcFailureSet
import FexTestBins.Proof.SmcMt
import FexTestBins.Proof.SmcMt2
import FexTestBins.Proof.SmcShared2
import FexTestBins.Proof.Trampolines
