import CacheNoise.General.Iteration
import CacheNoise.General.Lru
import CacheNoise.General.Separators
import CacheNoise.General.Slices
import CacheNoise.General.Summary
import CacheNoise.General.Grouping
import CacheNoise.General.Attempts
import CacheNoise.General.Numbers
import CacheNoise.General.Related
import CacheNoise.General.Sorting
import CacheNoise.General.Interaction
import CacheNoise.General.Ledger
import CacheNoise.General.Until
import CacheNoise.General.Options
import CacheNoise.General.Server
import CacheNoise.Error
import CacheNoise.SysInfo
import CacheNoise.SysInfo.CacheFiles
import CacheNoise.SysInfo.CacheInfoNew
import CacheNoise.SysInfo.PagemapEntry
import CacheNoise.SysInfo.PhysicalAddress
import CacheNoise.SysInfo.Hugepagesize
import CacheNoise.SysInfo.Stdio
import CacheNoise.SysInfo.Files
import CacheNoise.System
import CacheNoise.Machine
import CacheNoise.SysAction
import CacheNoise.SysAction.Arguments
import CacheNoise.SysAction.Interrupts
import CacheNoise.Alloc.Alignment
import CacheNoise.Alloc.Rejection
import CacheNoise.Alloc.Lookup
import CacheNoise.SysInfo.Streams
import CacheNoise.Alloc.Search
import CacheNoise.Alloc.Outcome
import CacheNoise.Alloc.Stepping
import CacheNoise.Alloc.Contract
import CacheNoise.Output
import CacheNoise.Profile.Run
import CacheNoise.Profile.Assembly
import CacheNoise.Profile.Measurement
import CacheNoise.Profile.Coverage
import CacheNoise.Profile.Benchmark
import CacheNoise.Main
import CacheNoise.Main.Frames
import CacheNoise.Profile.Iterations
import CacheNoise.Profile.Text
import CacheNoise.Profile.Counter
import CacheNoise.Profile.Noise
import CacheNoise.Main.Steps
import CacheNoise.Main.Status
import CacheNoise.Main.Cores
import CacheNoise.Main.Outputs
import CacheNoise.Main.Openings
import CacheNoise.Main.Processes
import CacheNoise.Main.Children
import CacheNoise.Main.DataSets
import CacheNoise.Main.Mappings
import CacheNoise.Main.Buffers
import CacheNoise.ToggleSmt
import CacheNoise.ToggleSmt.Disable
import CacheNoise.ToggleSmt.Order
import CacheNoise.ToggleSmt.Runs
import CacheNoise.Visualize
import CacheNoise.Visualize.Frames
import CacheNoise.Visualize.Combine
import CacheNoise.Visualize.Iterate
import CacheNoise.Visualize.Image
import CacheNoise.Visualize.RowSums
import CacheNoise.Visualize.Widths
import CacheNoise.Visualize.RoundTrip
import CacheNoise.Visualize.Video
import CacheNoise.Visualize.Statistics
import CacheNoise.Visualize.Recording
import CacheNoise.Main.Pipeline
import CacheNoise.Main.Hangs
import CacheNoise.Main.Guarded
import CacheNoise.Main.CommandLine
import CacheNoise.Profile.Report
import CacheNoise.Main.Messages
import CacheNoise.Main.Benchmarks
import CacheNoise.Visualize.ParallelSum
import CacheNoise.Visualize.Plots
