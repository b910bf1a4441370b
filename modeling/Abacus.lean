import Abacus.Peer.ProbBounds
import Abacus.Replication.Bookkeeping
import Abacus.Convergence.Mark
import Abacus.Recovery.Replay
import Abacus.Replication.Resend
import Abacus.Replication.Delivery
import Abacus.Client.Replica
import Abacus.Server.Ownership
import Abacus.Support.Notification
import Abacus.Client.Privacy
import Abacus.Marking.Authority
import Abacus.Marking.Judges
import Abacus.Client.Numbering
import Abacus.Client.Admission
import Abacus.Client.Reading
import Abacus.Client.Registry
import Abacus.Messenger.Reassembly
import Abacus.Messenger.Retriever
import Abacus.Client.Slices
import Abacus.Client.ProblemUpdate
import Abacus.Description.Agreement
import Abacus.Standings.Blinds
import Abacus.Client.Lists
import Abacus.Standings.Balloons
import Abacus.Client.Deadline
import Abacus.Client.Receive
import Abacus.Messenger.Transmit
import Abacus.Server.Output
import Abacus.Server.Timed
import Abacus.Webapp.Agreement
import Abacus.Marker.Limits
import Abacus.Marker.RunInfo
import Abacus.Messenger.Backoff
import Abacus.Marker.Checker
import Abacus.Config
import Abacus.Description.Arguments
