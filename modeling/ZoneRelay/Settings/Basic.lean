import ZoneRelay.Address.Socket
import ZoneRelay.Resolver.Query
import ZoneRelay.Store.FilePath
import ZoneRelay.Text.Basic

/-!
# Settings

* `Settings`: what a process is told about its role and its parts.
* `Settings.default`: what holds where nothing is said.
* `Settings.validate`: whether the settings go together.
* `Settings.storePath?`: where a node keeps its snapshot.
-/

namespace ZoneRelay

/-- Which parts a process runs. -/
inductive Role
  /-- The ledger's side: the outbox and the acknowledgments. -/
  | control
  /-- A single resolver. -/
  | resolver
  /-- Both, with a resolver for every server. -/
  | standalone
  deriving DecidableEq, Repr

/-- Who the process is. -/
structure NodeSettings where
  serverId : String
  role : Role
  deriving DecidableEq, Repr

/-- How changes are sent. Times are in milliseconds. -/
structure DistributorSettings where
  pollInterval : UInt64
  /-- How many messages a pass over the outbox takes at most. -/
  batchSize : UInt64
  publishTimeout : UInt64
  /-- The queue for acknowledgments. -/
  ackQueue : String
  /-- What the queue of a server starts with. -/
  routePrefix : String
  redeliveryDelay : UInt64
  deriving DecidableEq, Repr

/-- How resolvers work. -/
structure ResolverSettings where
  /-- The snapshot file, if there is one. -/
  storePath : Option String
  firewallOrder : FirewallOrder
  /-- How many applied changes a receiver remembers. -/
  appliedCacheSize : UInt64
  /-- For how many seconds it does. -/
  appliedCacheTtl : UInt64
  deriving DecidableEq, Repr

/-- What the ledger knows and keeps. Times are in seconds. -/
structure LedgerSettings where
  servers : List String
  purgeInterval : UInt64
  /-- How long changes are kept that all targets have acknowledged. -/
  retainSynced : UInt64
  deriving DecidableEq, Repr

/-- Where counters can be read. -/
structure MetricsSettings where
  listenAddress : Option SocketAddress
  deriving DecidableEq, Repr

/-- All settings. -/
structure Settings where
  logLevel : String
  node : NodeSettings
  distributor : DistributorSettings
  resolver : ResolverSettings
  ledger : LedgerSettings
  metrics : MetricsSettings
  deriving DecidableEq, Repr

/-- Why settings do not go together. -/
inductive SettingsError
  | emptyServerId
  | zeroBatchSize
  | zeroPollInterval
  | noServers (role : Role)
  | repeatedServer (serverId : String)
  | zeroCacheSize
  deriving DecidableEq, Repr

/-- A role as it is named in a message. -/
def Role.title : Role → String
  | control => "Control"
  | resolver => "Resolver"
  | standalone => "Standalone"

/-- The wording of an error. -/
def SettingsError.message : SettingsError → String
  | emptyServerId => "node.server_id must not be empty"
  | zeroBatchSize => "distributor.batch_size must be greater than zero"
  | zeroPollInterval => "distributor.poll_interval_ms must be greater than zero"
  | noServers role =>
    "ledger.servers must list at least one resolver for the " ++ role.title ++ " role"
  | repeatedServer serverId => "ledger.servers lists '" ++ serverId ++ "' more than once"
  | zeroCacheSize => "resolver.applied_cache_size must be greater than zero"

namespace Settings

/-- The settings where nothing is said: one process that does everything. -/
def default : Settings where
  logLevel := "info"
  node := { serverId := "local", role := .standalone }
  distributor :=
    { pollInterval := 1000, batchSize := 100, publishTimeout := 5000, ackQueue := "zonesync.acks",
      routePrefix := "zonesync.node.", redeliveryDelay := 250 }
  resolver :=
    { storePath := none, firewallOrder := .beforeZone, appliedCacheSize := 10000,
      appliedCacheTtl := 3600 }
  ledger := { servers := ["local"], purgeInterval := 300, retainSynced := 86400 }
  metrics := { listenAddress := none }

/-- The first item that is the second of its kind, `seen` being the items before. -/
def firstRepeated? (seen : List String) : List String → Option String
  | [] => none
  | s :: r => if seen.contains s then some s else firstRepeated? (s :: seen) r

/-- Checks that the settings go together. -/
def validate (s : Settings) : Except SettingsError Unit :=
  if (Text.trim s.node.serverId.toList).isEmpty then .error .emptyServerId
  else if s.distributor.batchSize = 0 then .error .zeroBatchSize
  else if s.distributor.pollInterval = 0 then .error .zeroPollInterval
  else if s.node.role ≠ .resolver ∧ s.ledger.servers.isEmpty then .error (.noServers s.node.role)
  else
    match firstRepeated? [] s.ledger.servers with
    | some serverId => .error (.repeatedServer serverId)
    | none => if s.resolver.appliedCacheSize = 0 then .error .zeroCacheSize else .ok ()

/-- The servers whose resolvers the process runs. -/
def hosted (s : Settings) : List String :=
  match s.node.role with
  | .control => []
  | .resolver => [s.node.serverId]
  | .standalone => s.ledger.servers

/-- The snapshot file of one of several nodes: its name goes before the extension. -/
def nodePath (path serverId : String) : String :=
  FilePath.withExtension path <|
    match FilePath.extension? path with
    | some extension => serverId ++ "." ++ String.ofList extension
    | none => serverId

/-- Where a node keeps its snapshot, if anywhere. -/
def storePath? (s : Settings) (serverId : String) : Option String :=
  s.resolver.storePath.map fun path =>
    if s.node.role = .standalone then nodePath path serverId else path

end Settings

end ZoneRelay
