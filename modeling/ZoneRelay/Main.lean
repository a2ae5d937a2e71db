import ZoneRelay.Application.Advance
import ZoneRelay.Settings.Layers

/-!
# The command line

The program reads its settings, starts an application and lets it run in real time. After every step
it brings the snapshot files up to date.

* `usage`: the help text.
* `main`: the program.
-/

namespace ZoneRelay

/-- The help text. -/
def usage : String :=
  "Zone and firewall change distribution for authoritative DNS resolvers\n\n" ++
  "Usage: zonesyncd [OPTIONS]\n\n" ++
  "Options:\n" ++
  "  -c, --config <FILE>          Path to the TOML configuration file\n" ++
  "      --server-id <ID>         This node's server ID\n" ++
  "      --role <ROLE>            Process role: control, resolver or standalone\n" ++
  "      --store-path <FILE>      Snapshot file for the resolver's authoritative store\n" ++
  "      --poll-interval-ms <MS>  Outbox poll interval in milliseconds\n" ++
  "      --log-level <LEVEL>      Log level filter\n" ++
  "      --metrics-addr <ADDR>    Address to serve Prometheus metrics on\n" ++
  "  -h, --help                   Print help\n" ++
  "  -V, --version                Print version\n"

/-- The version text. -/
def version : String := "zonesync 0.1.0\n"

/-- The settings file that is read when none is named. -/
def defaultFile : String := "zonesync.toml"

/-- How long the program sleeps between two steps, in milliseconds. -/
def pause : Nat := 10

/-- What is wrong with a command line. -/
def OptionsError.message : OptionsError → String
  | unknownArgument => "unexpected argument found"
  | invalidValue => "a value is required"
  | argumentConflict => "an argument cannot be used multiple times"
  | valueValidation => "invalid value"
  | tooManyValues => "unexpected value found"
  | displayHelp => usage
  | displayVersion => version

/-- The environment variables that a setting can be given in. -/
def settingVariables : List String :=
  let groups : List (String × List String) :=
    [("NODE", ["SERVER_ID", "ROLE"]),
      ("DISTRIBUTOR", ["POLL_INTERVAL_MS", "BATCH_SIZE", "PUBLISH_TIMEOUT_MS", "ACK_QUEUE",
        "ROUTE_PREFIX", "REDELIVERY_DELAY_MS"]),
      ("RESOLVER", ["STORE_PATH", "FIREWALL_ORDER", "APPLIED_CACHE_SIZE",
        "APPLIED_CACHE_TTL_SECONDS"]),
      ("LEDGER", ["SERVERS", "PURGE_INTERVAL_SECONDS", "RETAIN_SYNCED_SECONDS"]),
      ("METRICS", ["LISTEN_ADDR"])]
  "ZONESYNC_LOG_LEVEL" :: groups.flatMap fun g =>
    ("ZONESYNC_" ++ g.1) :: g.2.map fun name => "ZONESYNC_" ++ g.1 ++ "__" ++ name

/-- The environment variables that are set. -/
def readEnvironment : IO (List (String × String)) :=
  settingVariables.filterMapM fun name => do
    let value ← IO.getEnv name
    return value.map fun v => (name, v)

/-- The octets of a file, if it exists. -/
def readOctets? (path : String) : IO (Option Octets) := do
  try
    let file ← IO.FS.readBinFile path
    return some file.toList
  catch
    | .noFileOrDirectory .. => return none
    | e => throw e

/-- What there is of the settings file. -/
def readSettingsFile (path : String) : IO Settings.File := do
  try
    match ← readOctets? path with
    | none => return .missing
    | some file => return (file.text?.map Settings.File.ofText).getD .garbled
  catch _ => return .garbled

/-- The snapshot files of an application. -/
def snapshots (s : Settings) : List String :=
  s.hosted.filterMap s.storePath?

/-- The snapshot files as they are now. -/
def readDisk (s : Settings) : IO Disk := do
  let files ← (snapshots s).filterMapM fun path => do
    let file ← readOctets? path
    return file.map fun f => (path, f)
  return { Disk.empty with files := .ofList files }

/-- Writes a snapshot file under another name and renames it. -/
def writeSnapshot (path : String) (file : Octets) : IO Unit := do
  let temporary := FilePath.withExtension path Disk.temporaryExtension
  IO.FS.writeBinFile temporary ⟨file.toArray⟩
  IO.FS.rename temporary path

/-- Writes the snapshot files that have changed. -/
def writeDisk (old new : Disk) (paths : List String) : IO Unit := do
  for path in paths do
    match new.files.get? path with
    | some file => if old.files.get? path != some file then writeSnapshot path file
    | none => pure ()

/-- Lets an application run from a time on. -/
partial def runFrom (a : Application) (started : Nat) : IO Unit := do
  IO.sleep (UInt32.ofNat pause)
  let elapsed := (← IO.monoMsNow) - started
  let b := a.advance (elapsed - a.relay.now)
  writeDisk a.disk b.disk (snapshots a.settings)
  runFrom b started

/-- Runs the program with options. -/
def runWith (o : Options) : IO UInt32 := do
  let file ← readSettingsFile (o.config.getD defaultFile)
  match Settings.load o file (← readEnvironment) with
  | .error e =>
    IO.eprintln ("Error: " ++ e.message?.getD "failed to load configuration")
    return 1
  | .ok s =>
    match Application.start s .empty (← readDisk s) [] 0 with
    | .error e =>
      IO.eprintln ("Error: " ++ e.message)
      return 1
    | .ok a =>
      runFrom a (← IO.monoMsNow)
      return 0

/-- Runs the program with a command line. -/
def run (args : List String) : IO UInt32 := do
  match Options.parse args with
  | .ok o => runWith o
  | .error .displayHelp =>
    IO.print usage
    return 0
  | .error .displayVersion =>
    IO.print version
    return 0
  | .error e =>
    IO.eprintln ("error: " ++ e.message)
    return 2

end ZoneRelay

/-- The program. -/
def main (args : List String) : IO UInt32 :=
  ZoneRelay.run args
