import RaftRs.Library.Fallible
import RaftRs.Library.KeyMap
import RaftRs.Library.Ring
import RaftRs.Library.History
import RaftRs.Library.Completeness
import RaftRs.Library.Extension
import RaftRs.Library.Replica
import RaftRs.Library.LiveStep
import RaftRs.Library.NodeStep
import RaftRs.Library.Persist
import RaftRs.Library.Leadership
import RaftRs.Library.LeaderStep
import RaftRs.Library.World
import RaftRs.Model.Proto
import RaftRs.Model.Storage
import RaftRs.Model.LogUnstable
import RaftRs.Model.RaftLog
import RaftRs.Model.Quorum
import RaftRs.Model.Progress
import RaftRs.Model.Tracker
import RaftRs.Model.ConfChange
import RaftRs.Model.ReadOnly
import RaftRs.Model.Raft
import RaftRs.Model.Election
import RaftRs.Model.Replication
import RaftRs.Model.Step
import RaftRs.Model.RawNode
import RaftRs.Model.Host
import RaftRs.Model.Cluster
import RaftRs.Model.Play
import RaftRs.Log.Contiguous
import RaftRs.Log.Stored
import RaftRs.Log.Window
import RaftRs.Log.Append
import RaftRs.Log.Read
import RaftRs.Log.Page
import RaftRs.Log.Shows
import RaftRs.Log.Probe
import RaftRs.Log.Write
import RaftRs.Log.Plain
import RaftRs.Log.Refine
import RaftRs.Log.Contract
import RaftRs.Act.Core
import RaftRs.Act.Agreement
import RaftRs.Act.Act
import RaftRs.Act.Emit
import RaftRs.Act.Turn
import RaftRs.Act.Run
import RaftRs.Act.Quiet
import RaftRs.Act.Send
import RaftRs.Act.Append
import RaftRs.Act.Lead
import RaftRs.Act.Replicate
import RaftRs.Act.Reads
import RaftRs.Act.Elect
import RaftRs.Act.Follow
import RaftRs.Act.Step
import RaftRs.Act.Host
import RaftRs.Act.HostStep
import RaftRs.Conf.Roster
import RaftRs.Conf.Membership
import RaftRs.Conf.Reconfigure
import RaftRs.Conf.Quorums
import RaftRs.Conf.Decide
import RaftRs.Conf.Group
import RaftRs.Conf.Restore
import RaftRs.Node.Ready
import RaftRs.Node.Tidy
import RaftRs.Node.Runs
import RaftRs.Node.Forward
import RaftRs.Node.InFlight
import RaftRs.Node.Propose
import RaftRs.Peer.Advance
import RaftRs.Peer.Reject
import RaftRs.Peer.Reorder
import RaftRs.Peer.Pending
import RaftRs.Conf.Retain
import RaftRs.Node.Elected
import RaftRs.Node.Saved
import RaftRs.Node.Pace
import RaftRs.Node.Uniform
import RaftRs.Node.Marked
import RaftRs.Node.Termed
import RaftRs.Node.Sworn
import RaftRs.Node.Ledger
import RaftRs.Node.Unique
import RaftRs.Node.PreVote
import RaftRs.Conf.Branch
import RaftRs.Node.Admit
import RaftRs.Peer.Inflights
import RaftRs.Peer.Flow
import RaftRs.Track.Serve
import RaftRs.Track.Answer
import RaftRs.Track.Lead
import RaftRs.Track.Elect
import RaftRs.Track.Call
import RaftRs.Track.Host
import RaftRs.Track.Drive
import RaftRs.Track.Formed
import RaftRs.Track.Prudent
import RaftRs.Track.Release
import RaftRs.Track.Hear
import RaftRs.Track.Count
import RaftRs.Node.Seated
import RaftRs.Track.Scan
import RaftRs.Track.Deliver
import RaftRs.Track.Notice
import RaftRs.Log.Limit
import RaftRs.Track.Drain
import RaftRs.Safe.Act
import RaftRs.Safe.Chain
import RaftRs.Safe.Write
import RaftRs.Safe.Host
import RaftRs.Safe.Cluster
import RaftRs.Safe.Safety
import RaftRs.Safe.Panic
