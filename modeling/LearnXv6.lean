import LearnXv6.Fs.Mkfs.Root
import LearnXv6.Log.Overflow
import LearnXv6.Sched.StrideShare
import LearnXv6.Sched.O1Bypass
import LearnXv6.Paging.Recycle
import LearnXv6.Paging.Coherence
import LearnXv6.Icache.Machine
import LearnXv6.Mailbox.Capacity
import LearnXv6.Semaphore.Value
import LearnXv6.Thread.Memory
import LearnXv6.Shm.Agree
import LearnXv6.Links.Runs
import LearnXv6.Lazy.Fork
import LearnXv6.Sched.Runtime
import LearnXv6.Sched.DmlQuantum
import LearnXv6.Sched.DmlPriority
import LearnXv6.Checksum.Read
import LearnXv6.Checksum.Truncate
import LearnXv6.Checksum.Reload
import LearnXv6.Checksum.Crash
import LearnXv6.Sched.Priority
import LearnXv6.Sched.Fairness
import LearnXv6.Sched.Waits
import LearnXv6.Sched.Getptable
import LearnXv6.Pipe.Sleepers
import LearnXv6.Console.Unread
import LearnXv6.Fs.Stats
import LearnXv6.Fs.Files
import LearnXv6.Exec.Failure
import LearnXv6.Clock.Date
import LearnXv6.Commands
