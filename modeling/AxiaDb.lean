import AxiaDb.Basic
import AxiaDb.Overlay
import AxiaDb.Log
import AxiaDb.State
import AxiaDb.Step
import AxiaDb.Threads
import AxiaDb.Pipeline
import AxiaDb.Refinement
import AxiaDb.CommitOrder
import AxiaDb.CommitOverlay
import AxiaDb.ReadYourWrites
import AxiaDb.LogWorker
import AxiaDb.KillLogs
import AxiaDb.CommitQueue
import AxiaDb.BackgroundError
import AxiaDb.LogAccount
import AxiaDb.GetSize
import AxiaDb.Replay
import AxiaDb.Wakeups
import AxiaDb.RecordIds
