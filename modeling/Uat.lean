import Uat.TwoParty
import Uat.NodeReplay
import Uat.RateLimit
import Uat.CalleeRun
import Uat.CallerTrace
import Uat.SpentHistory
import Uat.Decision
import Uat.Admission
import Uat.CallerRun
import Uat.Incoming
import Uat.Audit
import Uat.Inbox
import Uat.SockFile
import Uat.CallRun
import Uat.RateResidue
import Uat.UnusedHook
import Uat.LostVerdict
import Uat.RecordSink
import Uat.LossClass
import Uat.LocalCodec
import Uat.EncodeBounds
import Uat.LocalClient
import Uat.CalleeWins
import Uat.CloseCodes
import Uat.Identity
import Uat.Shutdown
import Uat.CallRefines
import Uat.OpenVerdicts
import Uat.HeldBytes
import Uat.Cli
import Uat.LocalAnswered
