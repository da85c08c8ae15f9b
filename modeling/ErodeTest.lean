import ErodeTest.Foundation.Accesses
import ErodeTest.Foundation.AsyncLogic
import ErodeTest.Foundation.AsyncSteps
import ErodeTest.Foundation.Interleaving
import ErodeTest.Foundation.Word
import ErodeTest.Gl.Erode
import ErodeTest.Main.Compare
import ErodeTest.Main.Run
import ErodeTest.Neon.Erode
import ErodeTest.OpenCl.Erode
import ErodeTest.OpenCl.Host
import ErodeTest.Rs.Erode
import ErodeTest.Scalar.Bounds
import ErodeTest.Scalar.Erode
import ErodeTest.Sse.Erode
import ErodeTest.TiDsp.ColumnLoop
import ErodeTest.TiDsp.Erode
import ErodeTest.TiDsp.Handles
import ErodeTest.TiDsp.Host
import ErodeTest.TiDsp.Rows
import ErodeTest.TiDsp.Timing
import ErodeTest.Foundation.Squares
import ErodeTest.Halide.Erode
import ErodeTest.Main.BackEnds
import ErodeTest.Main.Conformance
import ErodeTest.Main.Pipelines
import ErodeTest.Foundation.SharedMemory
import ErodeTest.TiDsp.Destination
import ErodeTest.Foundation.Fallible
import ErodeTest.OpenCl.History
import ErodeTest.Pmu.Calls
import ErodeTest.Pmu.Runs
import ErodeTest.Foundation.Parallel
import ErodeTest.Foundation.References
import ErodeTest.OpenCl.Lifetimes
import ErodeTest.OpenCl.Parallel
import ErodeTest.TiDsp.History
