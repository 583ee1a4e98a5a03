import ByteborneWorld.TimerRun
import ByteborneWorld.RecvModel
import ByteborneWorld.SendModel
import ByteborneWorld.WireRun
import ByteborneWorld.StopRun
import ByteborneWorld.CloseRun
import ByteborneWorld.ResponseSize
import ByteborneWorld.WorldRun
import ByteborneWorld.BroadcastRun
import ByteborneWorld.PendingRun
import ByteborneWorld.AckRun
import ByteborneWorld.UpdateRun
import ByteborneWorld.ChunkRun
import ByteborneWorld.FrameRun
import ByteborneWorld.RoomRun
import ByteborneWorld.WriteRun
import ByteborneWorld.LifeRun
import ByteborneWorld.ShutdownRun
import ByteborneWorld.DisplayRun
import ByteborneWorld.RecvRun
import ByteborneWorld.HistoryRun
import ByteborneWorld.ClientRun
import ByteborneWorld.ServiceRun
import ByteborneWorld.InboundRun
import ByteborneWorld.OutboundRun
import ByteborneWorld.LinkRun
import ByteborneWorld.NetRun
import ByteborneWorld.TerminationRun
import ByteborneWorld.EagerTimer
import ByteborneWorld.ScreenNet
import ByteborneWorld.LockQueueModel
import ByteborneWorld.NeverStuck
import ByteborneWorld.InputModel
import ByteborneWorld.InputRun
