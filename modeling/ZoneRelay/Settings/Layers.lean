import ZoneRelay.Settings.Environment
import ZoneRelay.Settings.Form
import ZoneRelay.Settings.Options
import ZoneRelay.Toml.Document

/-!
# Settings from layers

The settings file goes over the defaults, the environment over the file, and the command line over
all of them.

* `Settings.ofTree?`: the settings that a layer gives in full.
* `Settings.load`, `Settings.loadFile`: the settings of a process.
-/

namespace ZoneRelay

namespace Tree

/-- The value of a number in JSON. -/
def ofNumber : Json.Number → Tree
  | .nat n => if n < 1 <<< 63 then .integer n else .fraction
  | .scaled negative m e =>
    if negative && e == 0 && 0 < m && m ≤ 1 <<< 63 then .integer (-m) else .fraction

mutual

/-- The values of a JSON document, what is `null` being left out. -/
def ofJson? : Json → Option Tree
  | .null | .garbled => none
  | .bool b => some (.bool b)
  | .number n => some (ofNumber n)
  | .string s => some (.text s)
  | .array items => some (.list (ofItems items))
  | .object members => some (.table (ofMembers members))

/-- The values of items. -/
def ofItems : List Json → List Tree
  | [] => []
  | j :: r => (ofJson? j).toList ++ ofItems r

/-- The values of members. -/
def ofMembers : List (String × Json) → List (String × Tree)
  | [] => []
  | (k, j) :: r =>
    match ofJson? j with
    | some v => set k v (ofMembers r)
    | none => ofMembers r

end

/-- The values of the settings in a group, given by name or, in a list, in order. -/
def fields? (names : List String) : Tree → Option (List (Option Tree))
  | .table members => some (names.map (members.lookup ·))
  | .list items => some ((items.take names.length).map some ++
      List.replicate (names.length - items.length) none)
  | _ => none

/-- A text. -/
def text? : Tree → Option String
  | .text s => some s
  | .letter c => some (String.singleton c)
  | _ => none

/-- A number of 64 bits, without a sign. -/
def uint64? : Tree → Option UInt64
  | .integer n => if 0 ≤ n ∧ n < UInt64.size then some (UInt64.ofNat n.toNat) else none
  | _ => none

/-- One of several names. -/
def name? : Tree → Option String
  | .text s => some s
  | _ => none

/-- Texts. -/
def texts? : Tree → Option (List String)
  | .list items => items.mapM text?
  | _ => none

/-- A value that may be missing. -/
def optional? (read : Tree → Option α) : Option Tree → Option (Option α)
  | none => some none
  | some v => (read v).map some

end Tree

/-- Reads the settings of a node. -/
def NodeSettings.ofTree? (t : Tree) : Option NodeSettings :=
  match t.fields? ["server_id", "role"] with
  | some [some serverId, some role] => do
    let serverId ← serverId.text?
    let role ← role.name?.bind Role.ofWireName?
    some { serverId, role }
  | _ => none

/-- Reads how changes are sent. -/
def DistributorSettings.ofTree? (t : Tree) : Option DistributorSettings :=
  match t.fields? names with
  | some [some interval, some size, some timeout, some ackQueue, some routePrefix, some delay] => do
    let pollInterval ← interval.uint64?
    let batchSize ← size.uint64?
    let publishTimeout ← timeout.uint64?
    let ackQueue ← ackQueue.text?
    let routePrefix ← routePrefix.text?
    let redeliveryDelay ← delay.uint64?
    some { pollInterval, batchSize, publishTimeout, ackQueue, routePrefix, redeliveryDelay }
  | _ => none

/-- Reads how resolvers work. -/
def ResolverSettings.ofTree? (t : Tree) : Option ResolverSettings :=
  match t.fields? names with
  | some [path, some order, some size, some ttl] => do
    let storePath ← Tree.optional? Tree.text? path
    let firewallOrder ← order.name?.bind FirewallOrder.ofWireName?
    let appliedCacheSize ← size.uint64?
    let appliedCacheTtl ← ttl.uint64?
    some { storePath, firewallOrder, appliedCacheSize, appliedCacheTtl }
  | _ => none

/-- Reads what the ledger knows and keeps. -/
def LedgerSettings.ofTree? (t : Tree) : Option LedgerSettings :=
  match t.fields? names with
  | some [some servers, some interval, some retain] => do
    let servers ← servers.texts?
    let purgeInterval ← interval.uint64?
    let retainSynced ← retain.uint64?
    some { servers, purgeInterval, retainSynced }
  | _ => none

/-- Reads where counters can be read. In a list the address may not be left out. -/
def MetricsSettings.ofTree? (t : Tree) : Option MetricsSettings :=
  match t, t.fields? ["listen_addr"] with
  | .list [], _ => none
  | _, some [address] => do
    let listenAddress ← Tree.optional? (fun a => a.text?.bind SocketAddress.parse?) address
    some { listenAddress }
  | _, _ => none

namespace Settings

/-- The settings that a layer gives in full. -/
def ofTree? (t : Tree) : Option Settings :=
  match t.fields? names with
  | some [some level, some node, some distributor, some resolver, some ledger, some metrics] => do
    let logLevel ← level.text?
    let node ← NodeSettings.ofTree? node
    let distributor ← DistributorSettings.ofTree? distributor
    let resolver ← ResolverSettings.ofTree? resolver
    let ledger ← LedgerSettings.ofTree? ledger
    let metrics ← MetricsSettings.ofTree? metrics
    some { logLevel, node, distributor, resolver, ledger, metrics }
  | _ => none

/-- The default settings as a layer. -/
def defaultTree : Tree :=
  (Tree.ofJson? default.toJson).getD .empty

/-- What there is of a settings file. -/
inductive File
  | missing
  /-- It could not be read. -/
  | garbled
  | values (t : Tree)

/-- A settings file with this text. -/
def File.ofText (s : String) : File :=
  match Toml.parse? s with
  | some t => .values t
  | none => .garbled

/-- Why there are no settings. -/
inductive LoadError
  /-- The named file does not exist. -/
  | missingFile (path : String)
  /-- A layer could not be read, or has a value that is none. -/
  | unreadable
  | invalid (cause : SettingsError)
  deriving DecidableEq, Repr

/-- The wording of an error, where it is this library's own. -/
def LoadError.message? : LoadError → Option String
  | missingFile path => some ("configuration file " ++ path ++ " does not exist")
  | unreadable => none
  | invalid cause => some cause.message

/-- The settings of layers that go over the defaults. -/
def ofLayers (layers : List Tree) : Except LoadError Settings :=
  match ofTree? (Tree.layer (defaultTree :: layers)) with
  | none => .error .unreadable
  | some s =>
    match s.validate with
    | .ok () => .ok s
    | .error e => .error (.invalid e)

/-- The settings in a file and in environment variables. A missing file gives none. -/
def loadFile (file : File) (given : List (String × String)) (more : List Tree) :
    Except LoadError Settings :=
  match file with
  | .missing => ofLayers (Environment.tree given :: more)
  | .garbled => .error .unreadable
  | .values t => ofLayers (t :: Environment.tree given :: more)

/-- The settings of a process. A file that the command line names has to be there. -/
def load (o : Options) (file : File) (given : List (String × String)) :
    Except LoadError Settings :=
  match o.config, file with
  | some path, .missing => .error (.missingFile path)
  | _, _ => loadFile file given [o.tree]

end Settings

end ZoneRelay
