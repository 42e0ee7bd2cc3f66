import Swayclip.Library.Ranking
import Swayclip.Library.Runs
import Swayclip.Common.Sha256
import Swayclip.Database.History
import Swayclip.Database.Store
import Swayclip.Database.Trim
import Swayclip.Wayland.Offer
import Swayclip.Daemon.Outcomes
import Swayclip.Daemon.Reachability
import Swayclip.Daemon.TrimOrder
import Swayclip.Daemon.NullTimer
import Swayclip.Daemon.CurrentEntry
import Swayclip.Daemon.Sources
import Swayclip.Daemon.Mirror
import Swayclip.Daemon.CurrentMirror
import Swayclip.Daemon.Integrity
import Swayclip.Daemon.Dedup
import Swayclip.Daemon.DedupPrev
import Swayclip.Ipc.EndOfStream
import Swayclip.Ipc.RoundTrip
import Swayclip.Event.Registration
import Swayclip.Event.Removal
import Swayclip.Daemon.Holding
import Swayclip.Daemon.Atomicity
import Swayclip.Daemon.Paste
import Swayclip.Daemon.LastEntry
import Swayclip.Daemon.Focus
import Swayclip.Daemon.Leaks
import Swayclip.Daemon.Clearing
import Swayclip.Daemon.HistoryReply
import Swayclip.Daemon.Refusals
import Swayclip.Cli.Listing
import Swayclip.Cli.Events
import Swayclip.Ipc.Ownership
import Swayclip.Daemon.Receiving
import Swayclip.Daemon.WholePaste
import Swayclip.Wayland.Flush
import Swayclip.Library.Spelling
import Swayclip.Daemon.EntryHash
import Swayclip.Daemon.Preview
import Swayclip.Daemon.EventRows
import Swayclip.Ipc.Server
import Swayclip.Ipc.Wakeup
import Swayclip.Library.Paging
import Swayclip.Cli.Paging
import Swayclip.Cli.Escape
import Swayclip.Common.Padding
import Swayclip.Wayland.Reading
import Swayclip.Daemon.SeatObjects
import Swayclip.Cli.Control
import Swayclip.Daemon.Settings
import Swayclip.Daemon.Pinned
import Swayclip.Daemon.Refinement
