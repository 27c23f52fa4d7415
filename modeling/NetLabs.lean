import NetLabs.Rtp.EndToEnd
import NetLabs.Rtp.Progress
import NetLabs.Rtp.WindowSizes
import NetLabs.Rtp.Completion
import NetLabs.Rtp.Datagrams
import NetLabs.Rtp.Mismatch
import NetLabs.Rtp.RetryRun
import NetLabs.Rtp.Segmentation
import NetLabs.Rtp.Rejection
import NetLabs.Rtp.Retransmit
import NetLabs.Rtp.SenderBounds
import NetLabs.Rtp.ReceiverBounds
import NetLabs.Rtp.Written
import NetLabs.Rtp.Corruption
import NetLabs.Rtp.Teardown
import NetLabs.Ftp.Accepted
import NetLabs.Ftp.Transport
import NetLabs.Ftp.Complete
import NetLabs.Ftp.MainLoop
import NetLabs.Ftp.Arrival
import NetLabs.Ftp.Release
import NetLabs.Ftp.Workdir
import NetLabs.Ftp.Dispatch
import NetLabs.Ftp.Usable
import NetLabs.Ftp.Slots
import NetLabs.Ftp.Serial
import NetLabs.Ftp.SystemCalls
import NetLabs.Ftp.FileStore
import NetLabs.Ftp.ShaCommand
import NetLabs.Lib.Mail
import NetLabs.Rtp.Captured
import NetLabs.Rtp.ListenPort
