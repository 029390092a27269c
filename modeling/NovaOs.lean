import NovaOs.Fat32.Copies
import NovaOs.Fat32.Extent
import NovaOs.Fat32.Failure
import NovaOs.Fat32.Hostile
import NovaOs.Fat32.Integrity
import NovaOs.Firewall.Baseline
import NovaOs.Firewall.DryRun
import NovaOs.Firewall.HalfOpen
import NovaOs.Ipc.Frame
import NovaOs.Ipc.Mail
import NovaOs.Journal.Transaction
import NovaOs.Limits.Accounts
import NovaOs.Limits.Quota
import NovaOs.Limits.Tighten
import NovaOs.Mac.Confinement
import NovaOs.Mac.Programs
import NovaOs.Memory.AddressSpace
import NovaOs.Memory.Map
import NovaOs.Packages.Delivery
import NovaOs.Partition.Reported
import NovaOs.Pipe.Queue
import NovaOs.Printf.Expansion
import NovaOs.Shm.Handles
import NovaOs.Shm.Provenance
import NovaOs.Sound.Playback
import NovaOs.Tcp.Answers
import NovaOs.Tcp.Backlog
import NovaOs.Tcp.Flow
import NovaOs.Tcp.Send
import NovaOs.Update.Keeps
import NovaOs.Users.Lockout
import NovaOs.Video.Geometry
