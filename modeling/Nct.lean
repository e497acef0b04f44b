import Nct.AllocWait
import Nct.Atomic
import Nct.Attributes
import Nct.Brackets
import Nct.BreakBounds
import Nct.Breakargs
import Nct.Convert
import Nct.Drain
import Nct.EmptyWords
import Nct.Exclusion
import Nct.FailedReads
import Nct.FlushTimes
import Nct.Fragments
import Nct.Handle
import Nct.Latencies
import Nct.Joined
import Nct.LineExtremes
import Nct.LineTotals
import Nct.LineUnits
import Nct.LongOpts
import Nct.MountCall
import Nct.MountNames
import Nct.MountReply
import Nct.Numbers
import Nct.Offset
import Nct.Oversleep
import Nct.Params
import Nct.Positional
import Nct.RawTimes
import Nct.ReadReply
import Nct.Reads
import Nct.Reconnect
import Nct.Records
import Nct.RecvBounds
import Nct.RecvLoop
import Nct.Reparse
import Nct.SendAtomic
import Nct.SendCheck
import Nct.Shell
import Nct.Shutdown
import Nct.Slots
import Nct.Stamps
import Nct.Stats
import Nct.Strtold
import Nct.Subcmd
import Nct.TakeUp
import Nct.Wait
import Nct.Windows
import Nct.Xids
import Nct.Umount
import Nct.Callbacks
import Nct.Lexing
