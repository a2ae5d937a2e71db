import ZoneRelay.Store.Basic
import ZoneRelay.Store.Contents
import ZoneRelay.Trie.Basic

/-!
# Resolvers

A resolver has a store and, built from it, two tries: the zones it holds and the domains of its
firewall rules.

* `Index.ofTable`: the tries of a table.
* `Resolver.load`: the resolver over a store.
-/

namespace ZoneRelay

/-- The tries of a resolver. -/
structure Index where
  /-- Each zone under its own name. -/
  zones : Trie String
  /-- The rules under the domains they name. -/
  rules : Trie RuleId
  deriving DecidableEq, Repr

/-- What an applied change does to the tries. -/
inductive IndexEdit
  | keep
  | addZone (zone : String)
  | dropZone (zone : String)
  /-- Takes a rule from the domains it named and puts it under those it names now. -/
  | moveRule (id : RuleId) (old new : List String)
  deriving DecidableEq, Repr

namespace Index

/-- The tries without any name. In the trie of rules, `*` stands for any label. -/
def empty : Index :=
  { zones := .empty ⟨false, false⟩, rules := .empty ⟨true, true⟩ }

/-- Puts a rule under several domains. -/
def addRule (rules : Trie RuleId) (id : RuleId) (domains : List String) : Trie RuleId :=
  domains.foldl (fun t d => t.insert d id) rules

/-- Takes a rule from several domains. -/
def dropRule (rules : Trie RuleId) (id : RuleId) (domains : List String) : Trie RuleId :=
  domains.foldl (fun t d => (t.removeValue d id).2) rules

/-- The tries after an edit. -/
def edit (i : Index) : IndexEdit → Index
  | .keep => i
  | .addZone zone => { i with zones := i.zones.insert zone zone }
  | .dropZone zone => { i with zones := (i.zones.remove zone).2 }
  | .moveRule id old new => { i with rules := addRule (dropRule i.rules id old) id new }

/-- The tries of a table. -/
def ofTable (t : Table) : Except StoreError Index := do
  let rules ← t.rules
  .ok {
    zones := t.zones.foldl (fun z zone => z.insert zone zone) empty.zones
    rules := rules.foldl (fun r s => addRule r s.rule.id s.rule.normalizedDomains) empty.rules }

end Index

/-- A resolver. -/
structure Resolver where
  store : Store
  index : Index

namespace Resolver

/-- A resolver over an empty store without a file. -/
def inMemory : Resolver :=
  { store := .inMemory, index := .empty }

/-- The resolver over a store. -/
def load (s : Store) : Except StoreError Resolver := do
  let index ← Index.ofTable s.table
  .ok { store := s, index }

end Resolver

end ZoneRelay
