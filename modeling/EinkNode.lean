import EinkNode.Lib.Decimal
import EinkNode.Lib.Latest
import EinkNode.Lib.Runs
import EinkNode.Lib.CInt
import EinkNode.Lib.Wp
import EinkNode.Lib.Disk
import EinkNode.Lib.Wire
import EinkNode.Scheduler.Core
import EinkNode.Scheduler.Service
import EinkNode.Scheduler.Daily
import EinkNode.Frame
import EinkNode.Build
import EinkNode.Store.Images
import EinkNode.Store.Accept
import EinkNode.Store.ContentHash
import EinkNode.Http.Download
import EinkNode.Store.Names
import EinkNode.Http.Truthful
import EinkNode.Store.Meta
import EinkNode.Http.WallClock
import EinkNode.Http.Plan
import EinkNode.Http.PlanAgree
import EinkNode.Scheduler.Paint
import EinkNode.Http.SyncV2
import EinkNode.Http.Converge
import EinkNode.Http.SyncV0
import EinkNode.Http.Fresh
import EinkNode.Display.Service
import EinkNode.Display.Orders
import EinkNode.Scheduler.Await
import EinkNode.Display.El133
import EinkNode.Display.Panel
import EinkNode.Display.Glass
import EinkNode.Lib.RingBuffer
import EinkNode.Log.Ring
import EinkNode.Log.Redact
import EinkNode.Log.Secrets
import EinkNode.Log.Upload
import EinkNode.Scheduler.Ticks
import EinkNode.Scheduler.Agree
import EinkNode.Scheduler.Unset
import EinkNode.Lib.Sim
import EinkNode.Lib.Alike
import EinkNode.Store.Valid
import EinkNode.Http.Radio
import EinkNode.Http.Redirect
import EinkNode.Http.Bearer
import EinkNode.Http.Bridge
import EinkNode.Ota.Stage
import EinkNode.Ota.Invalidate
import EinkNode.Http.CjsonHooks
import EinkNode.Http.ConfigCache
import EinkNode.Http.DebugLog
import EinkNode.Http.Transparent
import EinkNode.Lib.Quoted
import EinkNode.Store.Reboot
import EinkNode.Frame.Verdict
import EinkNode.Frame.Build
import EinkNode.Store.Put
import EinkNode.Store.Visible
import EinkNode.Display.Preview
import EinkNode.Lib.Escape
import EinkNode.Store.Creds
import EinkNode.Store.Saves
import EinkNode.Scheduler.Exact
import EinkNode.Scheduler.Wakeup
import EinkNode.Http.Apart
import EinkNode.Power.Wake
import EinkNode.Power.NextWake
import EinkNode.Power.Rtc
import EinkNode.Power.Snvs
import EinkNode.Power.Sleep
import EinkNode.Http.Deferred
import EinkNode.Lib.Cleanup
import EinkNode.Http.Leftovers
import EinkNode.Http.HdrScan
import EinkNode.Store.Pump
import EinkNode.Store.FrameEnd
import EinkNode.Log.Window
import EinkNode.Display.Write
import EinkNode.Display.Bursts
import EinkNode.Display.Mixed
import EinkNode.Log.InPlace
import EinkNode.Log.Masked
import EinkNode.Lib.Scan
import EinkNode.Store.Scanned
import EinkNode.Lib.Chunks
import EinkNode.Improv.Framing
import EinkNode.T2000.Proto
import EinkNode.T2000.Completion
import EinkNode.Lib.Calendar
import EinkNode.Scheduler.Civil
import EinkNode.Http.Iso8601
import EinkNode.T2000.Fill
import EinkNode.Store.Intact
import EinkNode.Display.Picture
import EinkNode.Display.Memory
import EinkNode.Display.Lcd
import EinkNode.Display.System
import EinkNode.Http.PowerCuts
import EinkNode.Http.Arrive
import EinkNode.Http.Durable
import EinkNode.Http.Gallery
