import ZoneRelay.Resolver.Basic

/-!
# Applying changes

A change is applied at most once: each zone and each rule remembers the last change applied to it,
and a change that is not newer is stale. Creating a record set that exists replaces it, and deleting
one that does not exist does nothing, so that a change may come again.

* `Table.plan`: what a change would write, decided before anything is written.
* `Resolver.apply`: writes it in one commit, then brings the tries up to date.
-/

namespace ZoneRelay

/-- A part of a change that this resolver does not know. -/
inductive Unsupported
  | changeType
  | recordType
  | recordSetAction
  | zoneAction
  | ruleAction
  | firewallAction
  deriving DecidableEq, Repr

/-- The wording for an unknown part. -/
def Unsupported.message : Unsupported → String
  | changeType => "change type"
  | recordType => "record type"
  | recordSetAction => "record set action"
  | zoneAction => "zone action"
  | ruleAction => "rule action"
  | firewallAction => "firewall action"

/-- Why a change was not applied. -/
inductive ApplyError
  | store (cause : StoreError)
  | record (cause : RecordError)
  | outOfZone (name zone : String)
  | unsupported (part : Unsupported)
  | missingPayload (id : ChangeId)
  deriving DecidableEq, Repr

namespace ApplyError

/-- The wording of an error, where it is this library's own. -/
def message? : ApplyError → Option String
  | store cause => cause.message?.map ("store commit failed: " ++ ·)
  | record cause => some ("invalid record data: " ++ cause.message)
  | outOfZone name zone => some ("'" ++ name ++ "' is outside zone '" ++ zone ++ "'")
  | unsupported part => some ("unsupported " ++ part.message)
  | missingPayload id =>
    some ("change " ++ String.ofList (Text.decimal id.toNat) ++ " carries no payload for its type")

/-- Whether the same change may be applied later: only if the store let it down. -/
def isRetryable : ApplyError → Bool
  | store cause => cause.isTransient
  | record _ | outOfZone .. | unsupported _ | missingPayload _ => false

end ApplyError

/-- What a change would do. -/
inductive Plan
  /-- Nothing, because a change that is no older has been applied. -/
  | stale (last : ChangeId)
  /-- One commit, and then an edit of the tries. -/
  | write (ops : List Op) (edit : IndexEdit)
  deriving DecidableEq, Repr

/-- What became of a change. -/
inductive ApplyOutcome
  | applied
  | stale (last : ChangeId)
  deriving DecidableEq, Repr

/-- Takes a failure to read the store as a failure to apply. -/
def liftStore (r : Except StoreError α) : Except ApplyError α :=
  r.mapError .store

/-- Takes a fault of a record as a failure to apply. -/
def liftRecord (r : Except RecordError α) : Except ApplyError α :=
  r.mapError .record

namespace RecordSetChange

/-- The write for one step of a change to `zone`. -/
def op (zone : String) (c : RecordSetChange) : Except ApplyError Op := do
  let name ← liftRecord (Name.validate c.recordSet.name)
  if !Name.isWithin name zone then .error (.outOfZone name zone)
  else
    match c.action with
    | .create | .upsert => do
      let records ← liftRecord c.recordSet.encode
      .ok (.put (Key.recordSet zone name c.recordSet.type) (encodeRecords records))
    | .delete =>
      if c.recordSet.type = .unspecified then .error (.unsupported .recordType)
      else .ok (.delete (Key.recordSet zone name c.recordSet.type))
    | .unspecified => .error (.unsupported .recordSetAction)

end RecordSetChange

namespace Table

/-- `plan` if the change is newer than `last`. -/
def unlessStale (id : ChangeId) (last : Option ChangeId) (plan : Except ApplyError Plan) :
    Except ApplyError Plan :=
  match last with
  | some l => if id ≤ l then .ok (.stale l) else plan
  | none => plan

/-- The writes of a change that creates or updates a zone. -/
def zoneOps (id : ChangeId) (zone : String) (creates : Bool) (changes : List RecordSetChange) :
    Except ApplyError (List Op) := do
  let steps ← changes.mapM (RecordSetChange.op zone)
  .ok (.put (Key.appliedZone zone) (encodeChangeId id) ::
    ((if creates then [.put (Key.zoneMarker zone) []] else []) ++ steps))

/-- What a change to a zone would do. -/
def planZone (t : Table) (id : ChangeId) (c : ZoneChange) : Except ApplyError Plan := do
  let zone ← liftRecord (Name.validate c.zoneName)
  let last ← liftStore (t.lastAppliedToZone zone)
  unlessStale id last <|
    match c.action with
    | .create => (zoneOps id zone true c.changes).map (.write · (.addZone zone))
    | .update => (zoneOps id zone false c.changes).map (.write · .keep)
    | .delete => .ok (.write (Op.deleteZone zone id) (.dropZone zone))
    | .unspecified => .error (.unsupported .zoneAction)

/-- The domains of a rule that was kept before. -/
def domainsOf (previous : Option StoredRule) : List String :=
  (previous.map (·.rule.normalizedDomains)).getD []

/-- What putting a rule in place would do. -/
def planPut (t : Table) (id : ChangeId) (r : Rule) : Except ApplyError Plan := do
  if r.action = .unspecified then .error (.unsupported .ruleAction)
  else
    let _ ← r.domains.mapM fun d => liftRecord (Name.validate d)
    let stored ← liftRecord r.compile
    let previous ← liftStore (t.rule r.id)
    .ok (.write (Op.putRule previous stored id)
      (.moveRule r.id (domainsOf previous) r.normalizedDomains))

/-- What a change to a rule would do. -/
def planFirewall (t : Table) (id : ChangeId) (c : FirewallChange) : Except ApplyError Plan := do
  let last ← liftStore (t.lastAppliedToRule c.rule.id)
  unlessStale id last <|
    match c.action with
    | .upsert => t.planPut id c.rule
    | .delete => do
      let previous ← liftStore (t.rule c.rule.id)
      .ok (.write (Op.deleteRule previous c.rule.id id)
        (.moveRule c.rule.id (domainsOf previous) []))
    | .unspecified => .error (.unsupported .firewallAction)

/-- What a change would do to a resolver with this table. -/
def plan (t : Table) (c : Change) : Except ApplyError Plan :=
  match c.type, c.zone, c.firewall with
  | .zone, some z, _ => t.planZone c.id z
  | .firewall, _, some f => t.planFirewall c.id f
  | .zone, none, _ | .firewall, _, none => .error (.missingPayload c.id)
  | .unspecified, _, _ => .error (.unsupported .changeType)

end Table

namespace Resolver

/-- Applies a change. The tries follow only after the store has committed. -/
def apply (r : Resolver) (c : Change) : Except ApplyError ApplyOutcome × Resolver :=
  match r.store.table.plan c with
  | .error e => (.error e, r)
  | .ok (.stale last) => (.ok (.stale last), r)
  | .ok (.write ops edit) =>
    match r.store.commit ops with
    | (.ok (), store) => (.ok .applied, { store, index := r.index.edit edit })
    | (.error e, store) => (.error (.store e), { r with store })

end Resolver

end ZoneRelay
