import TlbAnalyzer.Math.Contracts
import TlbAnalyzer.Math.Histories
import TlbAnalyzer.Math.Recency
import TlbAnalyzer.Math.Scripts
import TlbAnalyzer.Math.StampedSlots
import TlbAnalyzer.Math.Invalidation
import TlbAnalyzer.Cache.Table
import TlbAnalyzer.Cache.Geometry
import TlbAnalyzer.Cache.Partition
import TlbAnalyzer.TraceFile.Format
import TlbAnalyzer.Simulator.Program
import TlbAnalyzer.Simulator.Lookup
import TlbAnalyzer.Simulator.Accounting
import TlbAnalyzer.Simulator.Refinement
import TlbAnalyzer.Simulator.Inclusion
import TlbAnalyzer.Simulator.StackDistance
import TlbAnalyzer.Simulator.Folder
import TlbAnalyzer.Simulator.Emulation
import TlbAnalyzer.Simulator.Independence
import TlbAnalyzer.Simulator.Runs
import TlbAnalyzer.Simulator.Limits
import TlbAnalyzer.Simulator.Bounds
import TlbAnalyzer.Simulator.Descriptors
import TlbAnalyzer.Simulator.Selection
import TlbAnalyzer.Tracer.Program
import TlbAnalyzer.Tracer.Steps
import TlbAnalyzer.Tracer.Placement
import TlbAnalyzer.Tracer.FastPath
import TlbAnalyzer.Tracer.Freshness
import TlbAnalyzer.Tracer.Recording
import TlbAnalyzer.Tracer.Lifecycle
import TlbAnalyzer.Tracer.LongRuns
import TlbAnalyzer.Tracer.Sessions
import TlbAnalyzer.Tracer.Limit
import TlbAnalyzer.Tracer.Completeness
import TlbAnalyzer.Tracer.Replacement
import TlbAnalyzer.Tracer.Recordings
import TlbAnalyzer.Tracer.Interrupted
import TlbAnalyzer.Simulator.Pipeline
import TlbAnalyzer.Simulator.Report
import TlbAnalyzer.Emulator.Program
import TlbAnalyzer.Emulator.TableWalk
import TlbAnalyzer.Emulator.Maintenance
import TlbAnalyzer.Emulator.WalkRecord
import TlbAnalyzer.Emulator.Softmmu
import TlbAnalyzer.Emulator.DataTracing
import TlbAnalyzer.Emulator.Translation
import TlbAnalyzer.Emulator.SoftTlb
import TlbAnalyzer.Emulator.TlbSteps
import TlbAnalyzer.Emulator.Coherence
import TlbAnalyzer.Emulator.TableAddress
import TlbAnalyzer.Emulator.PageFlush
import TlbAnalyzer.Emulator.Accesses
import TlbAnalyzer.Emulator.TracedPages
import TlbAnalyzer.Emulator.RecordedPages
import TlbAnalyzer.Emulator.Blocks
