import SparkleWayland.Lib.Fifo
import SparkleWayland.Were.UploadPairs
import SparkleWayland.Were.UploadFrame
import SparkleWayland.Were.X11Surface
import SparkleWayland.Were.RefCount
import SparkleWayland.Were.Pointer
import SparkleWayland.Audio.Control
import SparkleWayland.Sparkle.Surface
import SparkleWayland.Were.Handler
import SparkleWayland.Were.Connect
import SparkleWayland.Were.Collapse
import SparkleWayland.Were.Thread
import SparkleWayland.Were.Timer
import SparkleWayland.Audio.Service
import SparkleWayland.Were.UploadPixels
import SparkleWayland.Were.Damage
import SparkleWayland.Were.Window
import SparkleWayland.Were.DoubleBuffer
import SparkleWayland.Android.View
import SparkleWayland.Lib.Regex
import SparkleWayland.Were.Settings
import SparkleWayland.Were.SettingsLock
import SparkleWayland.Sparkle.Release
import SparkleWayland.Were.Connections
import SparkleWayland.Sparkle.Input
import SparkleWayland.Sparkle.Routing
import SparkleWayland.Audio.Check
import SparkleWayland.Were.UnixSocket
import SparkleWayland.Audio.Channel
import SparkleWayland.Audio.Hangup
import SparkleWayland.Were.DamageCover
import SparkleWayland.Sparkle.Frames
import SparkleWayland.Were.Reentry
import SparkleWayland.Sparkle.Teardown
import SparkleWayland.Were.X11Compositor
import SparkleWayland.Lib.Sessions
import SparkleWayland.Android.Gestures
import SparkleWayland.Sparkle.PointerTrace
import SparkleWayland.Audio.Alignment
import SparkleWayland.Audio.Notifications
import SparkleWayland.Sparkle.Sending
import SparkleWayland.Lib.Checked
import SparkleWayland.Sparkle.Output
import SparkleWayland.Lib.Family
import SparkleWayland.Were.Registration
import SparkleWayland.Audio.Completions
import SparkleWayland.Lib.ParameterList
import SparkleWayland.Scanner.Protocol
import SparkleWayland.Scanner.ServerHeader
import SparkleWayland.Scanner.Classes
import SparkleWayland.Scanner.Agreement
import SparkleWayland.Lib.CircularList
import SparkleWayland.Scanner.WlList
import SparkleWayland.Scanner.Tree
import SparkleWayland.Scanner.Freeing
import SparkleWayland.Sparkle.Desk
import SparkleWayland.Sparkle.Hearing
import SparkleWayland.Android.Native
import SparkleWayland.Android.Delivery
import SparkleWayland.Sparkle.Windows
import SparkleWayland.Lib.Holdings
import SparkleWayland.Audio.Opening
import SparkleWayland.Lib.Locked
import SparkleWayland.Were.Slot
import SparkleWayland.Were.Deadline
