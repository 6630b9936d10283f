import EdgeVision.Lib.Reach
import EdgeVision.Lib.Deframe
import EdgeVision.Stream.Wire
import EdgeVision.Stream.FramedTcpClient
import EdgeVision.Gateway.AnnexB
import EdgeVision.Gateway.Viewer
import EdgeVision.Gateway.TcpServer
import EdgeVision.Gateway.Threads
import EdgeVision.Verify.Intake
import EdgeVision.Verify.Framing
import EdgeVision.Camera.H264Encoder
import EdgeVision.Verify.PacketSize
import EdgeVision.Verify.NalScan
import EdgeVision.Verify.Bootstrap
import EdgeVision.Verify.ViewerStream
import EdgeVision.Verify.Removal
import EdgeVision.Verify.ConnectionTable
import EdgeVision.Verify.Bounds
import EdgeVision.Verify.Refinement
import EdgeVision.Verify.Rescan
import EdgeVision.Ai.Letterbox
import EdgeVision.Lib.Greedy
import EdgeVision.Ai.RknnDetector
import EdgeVision.Verify.TensorLayout
import EdgeVision.Verify.Nms
import EdgeVision.Verify.Detections
import EdgeVision.Lib.StrictWeak
import EdgeVision.Verify.Candidates
import EdgeVision.Camera.VencChannel
import EdgeVision.Verify.EncodePairing
import EdgeVision.Camera.CameraDevice
import EdgeVision.Verify.CompactNv12
import EdgeVision.Verify.Letterbox
import EdgeVision.Camera.DetectionOverlay
import EdgeVision.Verify.OverlayPixels
import EdgeVision.Camera.Pipeline
import EdgeVision.Lib.DropOldest
import EdgeVision.Verify.QueueFlow
import EdgeVision.Verify.OverlayFrames
import EdgeVision.Gateway.EventLoop
import EdgeVision.Verify.OrderlyClose
import EdgeVision.Lib.IStream
import EdgeVision.Metrics.ProcSample
import EdgeVision.Metrics.MetricsCollector
import EdgeVision.Verify.Rates
import EdgeVision.Metrics.MetricsThreads
import EdgeVision.Verify.Averages
import EdgeVision.Verify.ProcSample
import EdgeVision.Lib.Ring
import EdgeVision.Lib.Lockstep
import EdgeVision.Camera.RingBuffer
import EdgeVision.Verify.RingQueue
import EdgeVision.Verify.CapturedBytes
import EdgeVision.Lib.FileSystem
import EdgeVision.Common.FileUtils
import EdgeVision.Verify.EnsureDirectory
import EdgeVision.Lib.Utf8
import EdgeVision.Lib.Json
import EdgeVision.Lib.JsonText
import EdgeVision.Lib.GeneralFormat
import EdgeVision.Common.TimeUtils
import EdgeVision.Ai.Labels
import EdgeVision.Event.EventLogger
import EdgeVision.Verify.EventJson
import EdgeVision.Lib.Rectangle
import EdgeVision.Lib.RectangleMeasure
import EdgeVision.Verify.Overlap
import EdgeVision.Lib.CString
import EdgeVision.Camera.AppConfig
import EdgeVision.Camera.Startup
import EdgeVision.Verify.Configuration
import EdgeVision.Gateway.History
import EdgeVision.Verify.Relay
import EdgeVision.Verify.Delivery
import EdgeVision.Camera.Process
import EdgeVision.Lib.Halting
import EdgeVision.Verify.Shutdown
import EdgeVision.Stream.Deployment
import EdgeVision.Verify.EndToEnd
import EdgeVision.Camera.Hardware
import EdgeVision.Verify.Hardware
import EdgeVision.Camera.BufferExchange
import EdgeVision.Verify.BufferExchange
import EdgeVision.Lib.LineLog
import EdgeVision.Metrics.MetricsWriter
import EdgeVision.Verify.LogFiles
import EdgeVision.Lib.Monitor
import EdgeVision.Verify.QueueMonitor
import EdgeVision.Camera.Recording
import EdgeVision.Verify.Recording
import EdgeVision.Ai.FloatLetterbox
import EdgeVision.Verify.SampledBytes
