import SaiyuanClock.CommandSlot
import SaiyuanClock.AlarmStore
import SaiyuanClock.Dismissal
import SaiyuanClock.Snooze
import SaiyuanClock.ClockLoop
import SaiyuanClock.Transmission
import SaiyuanClock.DataSync
import SaiyuanClock.TcpClient
import SaiyuanClock.TimeSync
import SaiyuanClock.Receiving
import SaiyuanClock.StoreSearch
import SaiyuanClock.Editor
import SaiyuanClock.AlarmText
import SaiyuanClock.Ringing
import SaiyuanClock.NullPointers
import SaiyuanClock.StartUp
import SaiyuanClock.KeyScan
import SaiyuanClock.ReplyParsing
import SaiyuanClock.Sockets
import SaiyuanClock.AlarmSetting
import SaiyuanClock.KeyDispatch
import SaiyuanClock.Library.Canvas
import SaiyuanClock.Library.BoundingBox
import SaiyuanClock.Library.WindowedMemory
import SaiyuanClock.Display
import SaiyuanClock.Refresh
import SaiyuanClock.Panel
import SaiyuanClock.Strokes
import SaiyuanClock.Glyphs
import SaiyuanClock.Lettering
import SaiyuanClock.ClockTexts
import SaiyuanClock.Library.Simulation
import SaiyuanClock.Fonts
import SaiyuanClock.Screens
import SaiyuanClock.ShownScreens
import SaiyuanClock.Library.DigitalLine
import SaiyuanClock.Lines
import SaiyuanClock.Library.Recurrence
import SaiyuanClock.Returning
import SaiyuanClock.Heard
import SaiyuanClock.AlarmRing
import SaiyuanClock.Library.DigitalCircle
import SaiyuanClock.Circles
import SaiyuanClock.LogBuffer
import SaiyuanClock.LogScreen
