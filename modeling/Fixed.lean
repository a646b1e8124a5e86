import Fixed.Runs
import Fixed.ByteFile
import Fixed.LastWriter
import Fixed.BinderParcel
import Fixed.NvramTable
import Fixed.NvramDevice
import Fixed.NvramService
import Fixed.NvramClient
import Fixed.BackupProtocol
import Fixed.RecordStore
import Fixed.ChunkedTransfer
import Fixed.ReplyContent
import Fixed.WriteConfinement
import Fixed.StreamServer
import Fixed.WorkerIsolation
import Fixed.HeaderFraming
import Fixed.StreamClient
import Fixed.StreamHandshake
import Fixed.LoopbackGadget
import Fixed.RequestOwnership
import Fixed.AndroidFunction
import Fixed.FunctionBalance
import Fixed.TempTelemetry
import Fixed.CameraPipeline
import Fixed.TempSampling
import Fixed.CaptureFlag
import Fixed.FrameReturn
import Fixed.WriteAtomicity
import Fixed.EnableAtomicity
import Fixed.NameResolution
import Fixed.CompletionRoles
import Fixed.BufferFile
import Fixed.KernelLog
import Fixed.BufferSave
import Fixed.BufferRoundTrip
import Fixed.SensorCali
import Fixed.CalibrationCommit
import Fixed.TruncatedMean
import Fixed.Recalibration
import Fixed.SensorMerge
import Fixed.CameraCount
import Fixed.ClientAdmission
import Fixed.CommandLine
import Fixed.SurfacePattern
import Fixed.ThroughputCount
import Fixed.TransferResult
import Fixed.FunctionsRoundTrip
import Fixed.ConfigNumbers
import Fixed.DoubledFfs
import Fixed.BindBalance
import Fixed.PmQosVotes
import Fixed.AcmPorts
import Fixed.SerialPorts
import Fixed.DequeNodes
import Fixed.Pass2Queue
import Fixed.FunctionInit
import Fixed.BurstTables
import Fixed.EventThread
import Fixed.IspShell
