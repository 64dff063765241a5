/-!
Paths as a run in a folder of its own sees them. In the folder there are files only. Around it
stands the usual tree of the system: folders, some of which take new files that nobody asks for,
links between folders, and files that hold no document but may take text.
-/

namespace Entitlement.CommandLine

/-- What a file of the system does with text written to it. -/
inductive Sink where
  /-- Does not open to be written. -/
  | closed
  /-- Opens, but takes no text. -/
  | refusing
  /-- Takes any text and keeps nothing of it. -/
  | swallowing
  | standardOutput
  | standardError
deriving DecidableEq

/-- What a path may lead to. -/
inductive Place where
  /-- The folder of the run. -/
  | here
  /-- A folder of the system, by the names on the way to it from the root. -/
  | system (names : List String)
  /-- A file in the folder of the run, which may be there or not. -/
  | file (name : String)
  /-- A new file in a folder of the system. -/
  | stray
  /-- A file of the system. -/
  | sink (sink : Sink)
deriving DecidableEq

/-- The folders of the system that take new files. The folder of the run is in the first one. -/
def openFolders : List (List String) :=
  [["tmp"], ["var", "tmp"], ["dev", "shm"]]

/-- The other folders of the system. -/
def closedFolders : List (List String) :=
  [["boot"], ["dev"], ["dev", "pts"], ["etc"], ["home"], ["media"], ["mnt"], ["opt"], ["proc"],
    ["proc", "1"], ["proc", "self"], ["proc", "self", "fd"], ["proc", "self", "fdinfo"],
    ["proc", "self", "task"], ["proc", "sys"], ["proc", "sys", "kernel"], ["root"], ["run"],
    ["run", "lock"], ["srv"], ["sys"], ["usr"], ["usr", "bin"], ["usr", "lib"], ["usr", "lib64"],
    ["usr", "local"], ["usr", "local", "bin"], ["usr", "local", "lib"], ["usr", "sbin"],
    ["usr", "share"], ["var"], ["var", "cache"], ["var", "lib"], ["var", "log"], ["var", "spool"]]

/-- Links of the system, with the folders they lead to. -/
def links : List (List String × Place) :=
  [(["bin"], .system ["usr", "bin"]), (["lib"], .system ["usr", "lib"]),
    (["lib64"], .system ["usr", "lib64"]), (["sbin"], .system ["usr", "sbin"]),
    (["var", "lock"], .system ["run", "lock"]), (["var", "run"], .system ["run"]),
    (["dev", "fd"], .system ["proc", "self", "fd"]),
    (["proc", "thread-self"], .system ["proc", "self"]), (["proc", "self", "root"], .system []),
    (["proc", "self", "cwd"], .here)]

/-- The files that tell about a process. -/
def processFiles : List (String × Sink) :=
  ("comm", .swallowing) :: ("oom_score_adj", .refusing) ::
    ["cgroup", "cmdline", "environ", "gid_map", "io", "limits", "loginuid", "maps", "mountinfo",
      "mounts", "oom_score", "sched", "schedstat", "smaps", "stat", "statm", "status",
      "uid_map"].map fun name => (name, .closed)

/-- Files of the system by their folder. -/
def systemFiles : List (List String × List (String × Sink)) :=
  [(["dev"],
      [("full", .refusing), ("null", .swallowing), ("random", .swallowing),
        ("stderr", .standardError), ("stdin", .swallowing), ("stdout", .standardOutput),
        ("urandom", .swallowing), ("zero", .swallowing)]),
    (["proc", "self", "fd"],
      [("0", .swallowing), ("1", .standardOutput), ("2", .standardError)]),
    (["proc", "self", "fdinfo"], ["0", "1", "2"].map fun name => (name, .closed)),
    (["proc", "self"], processFiles),
    (["proc", "1"], processFiles),
    (["proc"],
      ["cmdline", "cpuinfo", "devices", "filesystems", "loadavg", "meminfo", "mounts", "stat",
        "swaps", "uptime", "version"].map fun name => (name, .closed)),
    (["proc", "sys", "kernel"],
      ["hostname", "osrelease", "ostype", "pid_max", "version"].map fun name => (name, .closed)),
    (["etc"],
      ["group", "hostname", "hosts", "nsswitch.conf", "os-release", "passwd", "profile",
        "resolv.conf", "shells"].map fun name => (name, .closed))]

namespace Place

def isFolder : Place → Bool
  | here | system _ => true
  | file _ | stray | sink _ => false

/-- The folder around a folder. The root is around itself. -/
def parent? : Place → Option Place
  | here => openFolders.head?.map system
  | system names => some (system names.dropLast)
  | _ => none

/-- What stands under a name in a folder of the system. -/
def inSystem? (names : List String) (name : String) : Option Place :=
  let inner := names ++ [name]
  match links.lookup inner, (systemFiles.lookup names).bind (List.lookup name) with
  | some place, _ => some place
  | none, some target => some (sink target)
  | none, none =>
    if openFolders.contains inner || closedFolders.contains inner then some (system inner)
    else if openFolders.contains names then some stray
    else none

/-- One step of a path. Names have at most 255 bytes. -/
def enter? (place : Place) (part : String) : Option Place :=
  if part = "" || part = "." then if place.isFolder then some place else none
  else if part = ".." then place.parent?
  else if 255 < part.utf8ByteSize then none
  else match place with
    | here => some (file part)
    | system names => inSystem? names part
    | _ => none

/-- What a path leads to. Paths have less than 4096 bytes. -/
def ofPath? (path : String) : Option Place :=
  if 4096 ≤ path.utf8ByteSize then none
  else (path.splitOn "/").foldlM enter? (if path.startsWith "/" then system [] else here)

end Place

end Entitlement.CommandLine
