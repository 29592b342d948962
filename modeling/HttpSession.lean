import HttpSession.Client.Settlement
import HttpSession.Proofs.Client.Handles
import HttpSession.Proofs.Connection.Alarm
import HttpSession.Proofs.Connection.Answers
import HttpSession.Proofs.Connection.Backlog
import HttpSession.Proofs.Connection.Draining
import HttpSession.Proofs.Connection.Flag
import HttpSession.Proofs.Connection.Numbering
import HttpSession.Proofs.Connection.Rejection
import HttpSession.Proofs.Connection.TimerLoop
import HttpSession.Proofs.Connection.Unfinished
import HttpSession.Proofs.Connection.Untimed
import HttpSession.Proofs.Http1.Framing
import HttpSession.Proofs.Http1.Head
import HttpSession.Proofs.Http1.Written
import HttpSession.Proofs.Http2.Hop
import HttpSession.Proofs.Http2.Remainder
import HttpSession.Proofs.Pipeline.Distrust
import HttpSession.Proofs.Pipeline.Sealed
import HttpSession.Proofs.Session.Conclusion
import HttpSession.Proofs.Session.Failure
import HttpSession.Proofs.Session.Success
import HttpSession.Proofs.Streams.Demultiplexing
import HttpSession.Proofs.Streams.PeerReset
import HttpSession.Proofs.Text.Quoted
import HttpSession.Proofs.Writer.Conveyance
import HttpSession.Proofs.Writer.Progress
