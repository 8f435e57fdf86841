import Checkc.Rust.Outcome
import Checkc.Rust.Session
import Checkc.Rust.Collections
import Checkc.Rust.Enumeration
import Checkc.Rust.Text
import Checkc.Rust.Words
import Checkc.Rust.Path
import Checkc.Regex.Basic
import Checkc.Regex.Greedy
import Checkc.Forest.Basic
import Checkc.Forest.Paths
import Checkc.Forest.UpToOrder
import Checkc.Patterns.Uuid
import Checkc.Patterns.Mounts
import Checkc.Patterns.Mountinfo
import Checkc.Patterns.MountsLine
import Checkc.CConfig.Basic
import Checkc.CConfig.Ns
import Checkc.CConfig.Caps
import Checkc.CConfig.Config
import Checkc.CConfig.Hierarchy
import Checkc.CConfig.Populate
import Checkc.CConfig.HierarchyMessage
import Checkc.CConfig.Descriptors
import Checkc.CConfig.UserNs
import Checkc.CConfig.NsSession
import Checkc.CConfig.PidList
import Checkc.CConfig.Device
import Checkc.CConfig.Mknod
import Checkc.Patterns.ProcStat
import Checkc.CConfig.ContainerPids
import Checkc.CConfig.Vanishing
import Checkc.Kernel.Escape
import Checkc.CConfig.Status
import Checkc.CConfig.Seccomp
import Checkc.Config.Lists
import Checkc.CConfig.Fs
import Checkc.CConfig.MountInfos
import Checkc.CConfig.MountPoints
import Checkc.CConfig.HostSearch
import Checkc.CConfig.FlagFiles
import Checkc.CConfig.MountSession
import Checkc.CConfig.Cgroup
import Checkc.CConfig.CgroupLayouts
import Checkc.Config.CapSec
import Checkc.Evaluation.Message
import Checkc.Evaluation.Devices
import Checkc.Evaluation.Flags
import Checkc.Evaluation.Leaks
import Checkc.Evaluation.Categories
import Checkc.Evaluation.Limits
import Checkc.Evaluation.FromConfig
import Checkc.Assessment.Message
import Checkc.Assessment.Assess
import Checkc.Assessment.Findings
import Checkc.Assessment.Report
import Checkc.Assessment.Complete
import Checkc.Assessment.Order
import Checkc.Assessment.Criteria
import Checkc.Pipeline.Posture
import Checkc.Pipeline.Refinement
import Checkc.Pipeline.Verdicts
import Checkc.Pipeline.Capabilities
import Checkc.Pipeline.Namespaces
import Checkc.Pipeline.Tests
import Checkc.Pipeline.Collected
import Checkc.Main.Commands
import Checkc.Main.Runs
import Checkc.Main.Goals
import Checkc.Main.Influence
import Checkc.Main.StoreReport
