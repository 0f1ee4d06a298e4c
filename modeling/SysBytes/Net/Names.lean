import SysBytes.Net.Errno
import SysBytes.Path.Component

/-!
Where a local socket name leads, resolved as the system resolves paths: from the private
directory the sockets are bound in, or from the root through fixed tables of standard entries.
Connecting needs write permission on the name; a writable name that is not a bound socket refuses.
-/
namespace SysBytes.Net.Local

/-- Where a walk along a path stands. -/
inductive Spot where
  | home
  | directory (parts : List (List UInt8))
  | descriptors
  | file (refusal : Errno)
  | socket (n : Nat)
  deriving DecidableEq, Repr

/-- What a walk sees of the program: the names bound in its private directory and its open
descriptors. -/
structure Host where
  bound : List (List UInt8 × Nat)
  descriptors : List Nat

def partsOf (path : String) : List (List UInt8) :=
  (path.toUTF8.toList.splitOn Path.separator).filter fun p => !p.isEmpty

def openDirectories : List (List (List UInt8)) :=
  ["", "boot", "dev", "dev/mqueue", "dev/pts", "dev/shm", "etc", "home", "media", "mnt", "opt",
    "root", "run", "run/lock", "srv", "tmp", "usr", "usr/bin", "usr/include", "usr/lib",
    "usr/lib64", "usr/libexec", "usr/local", "usr/local/bin", "usr/local/lib", "usr/sbin",
    "usr/share", "usr/src", "var", "var/cache", "var/lib", "var/local", "var/log", "var/mail",
    "var/opt", "var/spool", "var/tmp", "sys/block", "sys/bus", "sys/class", "sys/dev",
    "sys/devices", "sys/firmware", "sys/fs", "sys/kernel", "sys/module", "sys/power",
    "proc/self/map_files"].map partsOf

def closedDirectories : List (List (List UInt8)) :=
  ["proc", "sys", "proc/acpi", "proc/bus", "proc/driver", "proc/fs", "proc/irq", "proc/pressure",
    "proc/sys", "proc/sys/fs", "proc/sys/kernel", "proc/sys/net", "proc/sys/vm", "proc/sysvipc",
    "proc/tty", "proc/self/attr", "proc/self/fdinfo", "proc/self/net", "proc/self/ns",
    "proc/self/task"].map partsOf

def processParts : List (List UInt8) := partsOf "proc/self"

def openFiles : List (List (List UInt8)) :=
  ["dev/console", "dev/full", "dev/null", "dev/ptmx", "dev/random", "dev/tty", "dev/urandom",
    "dev/zero", "etc/group", "etc/hostname", "etc/hosts", "etc/passwd", "etc/resolv.conf",
    "etc/shadow", "usr/bin/env", "usr/bin/sh", "proc/sys/kernel/hostname", "proc/self/autogroup",
    "proc/self/clear_refs", "proc/self/comm", "proc/self/coredump_filter", "proc/self/exe",
    "proc/self/gid_map", "proc/self/loginuid", "proc/self/mem", "proc/self/oom_adj",
    "proc/self/oom_score_adj", "proc/self/projid_map", "proc/self/sched", "proc/self/setgroups",
    "proc/self/timens_offsets", "proc/self/timerslack_ns", "proc/self/uid_map"].map partsOf

def closedFiles : List (List (List UInt8)) :=
  ["proc/buddyinfo", "proc/cgroups", "proc/cmdline", "proc/consoles", "proc/cpuinfo",
    "proc/crypto", "proc/devices", "proc/diskstats", "proc/dma", "proc/execdomains",
    "proc/filesystems", "proc/interrupts", "proc/iomem", "proc/ioports", "proc/kallsyms",
    "proc/key-users", "proc/keys", "proc/kmsg", "proc/kpagecgroup", "proc/kpagecount",
    "proc/kpageflags", "proc/loadavg", "proc/locks", "proc/meminfo", "proc/misc",
    "proc/pagetypeinfo", "proc/partitions", "proc/slabinfo", "proc/softirqs", "proc/stat",
    "proc/swaps", "proc/timer_list", "proc/uptime", "proc/version", "proc/vmallocinfo",
    "proc/vmstat", "proc/zoneinfo", "proc/self/auxv", "proc/self/cgroup", "proc/self/cmdline",
    "proc/self/cpuset", "proc/self/environ", "proc/self/io", "proc/self/limits", "proc/self/maps",
    "proc/self/mountinfo", "proc/self/mounts", "proc/self/mountstats", "proc/self/numa_maps",
    "proc/self/oom_score", "proc/self/pagemap", "proc/self/personality", "proc/self/schedstat",
    "proc/self/sessionid", "proc/self/smaps", "proc/self/smaps_rollup", "proc/self/stack",
    "proc/self/stat", "proc/self/statm", "proc/self/status", "proc/self/syscall",
    "proc/self/timers", "proc/self/wchan"].map partsOf

def systemLinks : List (List (List UInt8) × List (List UInt8)) :=
  [("bin", "usr/bin"), ("lib", "usr/lib"), ("lib64", "usr/lib64"), ("sbin", "usr/sbin"),
    ("var/run", "run"), ("var/lock", "run/lock"), ("dev/fd", "proc/self/fd"),
    ("dev/stdin", "proc/self/fd/0"), ("dev/stdout", "proc/self/fd/1"),
    ("dev/stderr", "proc/self/fd/2"), ("etc/mtab", "proc/self/mounts"),
    ("proc/mounts", "proc/self/mounts"), ("proc/net", "proc/self/net"),
    ("proc/thread-self", "proc/self")].map fun l => (partsOf l.1, partsOf l.2)

def temporaryParts : List (List UInt8) := partsOf "tmp"

def boundTo (names : List (List UInt8 × Nat)) (name : List UInt8) : Option Nat :=
  (names.find? fun f => f.1 == name).map Prod.snd

def selfName : List UInt8 := [46]

def parentName : List UInt8 := [46, 46]

def decimalName (c : List UInt8) : Option Nat :=
  if !c.isEmpty && c.all (fun b => 48 ≤ b && b ≤ 57) && (c.length = 1 || c.head? != some 48) then
    some (c.foldl (fun acc b => 10 * acc + (b - 48).toNat) 0)
  else none

/-- The machine entry with these names, not following a symbolic link at its end. -/
def machineEntry (q : List (List UInt8)) : Option Spot :=
  if q == processParts ++ [[99, 119, 100]] then some .home
  else if q == processParts ++ [[114, 111, 111, 116]] then some (.directory [])
  else if q == processParts ++ [[102, 100]] then some .descriptors
  else if q == processParts || openDirectories.contains q || closedDirectories.contains q then
    some (.directory q)
  else if openFiles.contains q then some (.file .connectionRefused)
  else if closedFiles.contains q then some (.file .accessDenied)
  else none

def Spot.stepPlain (host : Host) (s : Spot) (c : List UInt8) : Except Errno Spot :=
  match s with
  | .file _ | .socket _ => .error .notDirectory
  | .home =>
    if c == selfName then .ok .home
    else if c == parentName then .ok (.directory temporaryParts)
    else match boundTo host.bound c with
      | some n => .ok (.socket n)
      | none => .error .noEntry
  | .descriptors =>
    if c == selfName then .ok .descriptors
    else if c == parentName then .ok (.directory processParts)
    else match decimalName c with
      | some fd => if host.descriptors.contains fd then .ok (.file .connectionRefused) else .error .noEntry
      | none => .error .noEntry
  | .directory ps =>
    if c == selfName then .ok s
    else if c == parentName then .ok (.directory ps.dropLast)
    else match machineEntry (ps ++ [c]) with
      | some t => .ok t
      | none => .error .noEntry

def walkPlain (host : Host) : Spot → List (List UInt8) → Except Errno Spot
  | s, [] => .ok s
  | s, c :: rest =>
    match s.stepPlain host c with
    | .ok s => walkPlain host s rest
    | .error e => .error e

def Spot.step (host : Host) (s : Spot) (c : List UInt8) : Except Errno Spot :=
  match s with
  | .directory ps =>
    match systemLinks.find? fun l => l.1 == ps ++ [c] with
    | some l => walkPlain host (.directory []) l.2
    | none => s.stepPlain host c
  | _ => s.stepPlain host c

def walk (host : Host) : Spot → List (List UInt8) → Except Errno Spot
  | s, [] => .ok s
  | s, c :: rest =>
    match s.step host c with
    | .ok s => walk host s rest
    | .error e => .error e

/-- Where a path leads; a trailing separator asks for a directory. -/
def locate (host : Host) (path : List UInt8) : Except Errno Spot :=
  let parts := (path.splitOn Path.separator).filter fun p => !p.isEmpty
  let parts := if path.getLast? == some Path.separator then parts ++ [selfName] else parts
  walk host (if path.head? == some Path.separator then .directory [] else .home) parts

/-- The error a connection to a spot that is not a bound socket gets. -/
def Spot.refusal : Spot → Errno
  | .directory ps =>
    if ps == processParts then .notPermitted
    else if closedDirectories.contains ps then .accessDenied
    else .connectionRefused
  | .file e => e
  | _ => .connectionRefused

end SysBytes.Net.Local
