import ZoneRelay.Json.Shape
import ZoneRelay.Json.Value
import ZoneRelay.Settings.Basic

/-!
# Settings as JSON

* `Settings.toJson`, `Settings.ofJson?`: settings as JSON and back.
* `Settings.override?`: the default settings with some of them changed.
-/

namespace ZoneRelay

/-- The name of a role. -/
def Role.wireName : Role → String
  | control => "control"
  | resolver => "resolver"
  | standalone => "standalone"

/-- The role with a name. -/
def Role.ofWireName? (s : String) : Option Role :=
  if s = "control" then some .control
  else if s = "resolver" then some .resolver
  else if s = "standalone" then some .standalone
  else none

/-- The name of an order. -/
def FirewallOrder.wireName : FirewallOrder → String
  | beforeZone => "before_zone"
  | afterZone => "after_zone"

/-- The order with a name. -/
def FirewallOrder.ofWireName? (s : String) : Option FirewallOrder :=
  if s = "before_zone" then some .beforeZone
  else if s = "after_zone" then some .afterZone
  else none

namespace NodeSettings

/-- These settings as JSON. -/
def toJson (s : NodeSettings) : Json :=
  .object [("server_id", .string s.serverId), ("role", .string s.role.wireName)]

/-- Reads these settings. -/
def ofJson? (j : Json) : Option NodeSettings :=
  match j.fields? ["server_id", "role"] with
  | some [some serverId, some role] => do
    let serverId ← serverId.string?
    let role ← (role.symbol? false).bind Role.ofWireName?
    some { serverId, role }
  | _ => none

end NodeSettings

namespace DistributorSettings

/-- The names of these settings. -/
def names : List String :=
  ["poll_interval_ms", "batch_size", "publish_timeout_ms", "ack_queue", "route_prefix",
    "redelivery_delay_ms"]

/-- These settings as JSON. -/
def toJson (s : DistributorSettings) : Json :=
  .object (names.zip
    [.nat s.pollInterval.toNat, .nat s.batchSize.toNat, .nat s.publishTimeout.toNat,
      .string s.ackQueue, .string s.routePrefix, .nat s.redeliveryDelay.toNat])

/-- Reads these settings. -/
def ofJson? (j : Json) : Option DistributorSettings :=
  match j.fields? names with
  | some [some interval, some size, some timeout, some ackQueue, some routePrefix, some delay] => do
    let pollInterval ← interval.uint64?
    let batchSize ← size.uint64?
    let publishTimeout ← timeout.uint64?
    let ackQueue ← ackQueue.string?
    let routePrefix ← routePrefix.string?
    let redeliveryDelay ← delay.uint64?
    some { pollInterval, batchSize, publishTimeout, ackQueue, routePrefix, redeliveryDelay }
  | _ => none

end DistributorSettings

namespace ResolverSettings

/-- The names of these settings. -/
def names : List String :=
  ["store_path", "firewall_order", "applied_cache_size", "applied_cache_ttl_seconds"]

/-- These settings as JSON. -/
def toJson (s : ResolverSettings) : Json :=
  .object (names.zip
    [Json.ofOption .string s.storePath, .string s.firewallOrder.wireName,
      .nat s.appliedCacheSize.toNat, .nat s.appliedCacheTtl.toNat])

/-- Reads these settings. -/
def ofJson? (j : Json) : Option ResolverSettings :=
  match j.fields? names with
  | some [path, some order, some size, some ttl] => do
    let storePath ← Json.optional? Json.string? path
    let firewallOrder ← (order.symbol? false).bind FirewallOrder.ofWireName?
    let appliedCacheSize ← size.uint64?
    let appliedCacheTtl ← ttl.uint64?
    some { storePath, firewallOrder, appliedCacheSize, appliedCacheTtl }
  | _ => none

end ResolverSettings

namespace LedgerSettings

/-- The names of these settings. -/
def names : List String :=
  ["servers", "purge_interval_seconds", "retain_synced_seconds"]

/-- These settings as JSON. -/
def toJson (s : LedgerSettings) : Json :=
  .object (names.zip
    [.array (s.servers.map .string), .nat s.purgeInterval.toNat, .nat s.retainSynced.toNat])

/-- Reads these settings. -/
def ofJson? (j : Json) : Option LedgerSettings :=
  match j.fields? names with
  | some [some servers, some interval, some retain] => do
    let servers ← servers.list? Json.string?
    let purgeInterval ← interval.uint64?
    let retainSynced ← retain.uint64?
    some { servers, purgeInterval, retainSynced }
  | _ => none

end LedgerSettings

namespace MetricsSettings

/-- These settings as JSON. -/
def toJson (s : MetricsSettings) : Json :=
  .object [("listen_addr", Json.ofOption (fun a => .string a.render) s.listenAddress)]

/-- Reads these settings. In an array the address may not be left out. -/
def ofJson? (j : Json) : Option MetricsSettings :=
  match j, j.fields? ["listen_addr"] with
  | .array [], _ => none
  | _, some [address] => do
    let listenAddress ← Json.optional? (fun a => a.string?.bind SocketAddress.parse?) address
    some { listenAddress }
  | _, _ => none

end MetricsSettings

namespace Settings

/-- The names of the groups of settings. -/
def names : List String :=
  ["log_level", "node", "distributor", "resolver", "ledger", "metrics"]

/-- All settings as JSON. -/
def toJson (s : Settings) : Json :=
  .object (names.zip
    [.string s.logLevel, s.node.toJson, s.distributor.toJson, s.resolver.toJson, s.ledger.toJson,
      s.metrics.toJson])

/-- Reads all settings. Those of the counters may be left out. -/
def ofJson? (j : Json) : Option Settings :=
  match j.fields? names with
  | some [some logLevel, some node, some distributor, some resolver, some ledger, metrics] => do
    let logLevel ← logLevel.string?
    let node ← NodeSettings.ofJson? node
    let distributor ← DistributorSettings.ofJson? distributor
    let resolver ← ResolverSettings.ofJson? resolver
    let ledger ← LedgerSettings.ofJson? ledger
    let metrics ← match metrics with
      | some m => MetricsSettings.ofJson? m
      | none => some default.metrics
    some { logLevel, node, distributor, resolver, ledger, metrics }
  | _ => none

end Settings

/-- The default settings with those changed that `j` gives. -/
def Settings.override? (j : Json) : Option Settings :=
  Settings.ofJson? (Settings.default.toJson.overlay j)

end ZoneRelay
