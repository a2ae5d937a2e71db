import ZoneRelay.Bus.Basic

/-!
# Faulty routes

A route may be made to fail, so that it can be seen how the others fare.

* `RouteMode`: what happens to a message on its way.
* `Attempt`: how publishing went.
* `Bus.attempt`: publishes over a route with its mode.
-/

namespace ZoneRelay

/-- What happens to the messages on one route. -/
inductive RouteMode
  | normal
  /-- Publishing fails. -/
  | fail
  /-- Publishing fails once. -/
  | failOnce
  /-- Publishing never ends. -/
  | hang
  /-- Every message is published twice. -/
  | twice
  deriving DecidableEq, Repr

/-- How publishing went. -/
inductive Attempt
  | confirmed
  | failed (cause : BusError)
  | hanging
  deriving DecidableEq, Repr

/-- The modes of the routes that do not work normally. -/
abbrev RouteModes := List (String × RouteMode)

namespace RouteModes

/-- The mode of a route. -/
def mode (m : RouteModes) (route : String) : RouteMode :=
  (m.lookup route).getD .normal

/-- Gives a route a mode. -/
def set (m : RouteModes) (route : String) (mode : RouteMode) : RouteModes :=
  (route, mode) :: m.filter (·.1 != route)

end RouteModes

/-- Publishes as the bus does. -/
def Bus.attemptPlain (b : Bus) (route : String) (headers : Headers) (payload : Octets) :
    Attempt × Bus :=
  match b.publish route headers payload with
  | .ok b => (.confirmed, b)
  | .error e => (.failed e, b)

/-- Publishes over a route with its mode. -/
def Bus.attempt (b : Bus) (m : RouteModes) (route : String) (headers : Headers)
    (payload : Octets) : Attempt × Bus × RouteModes :=
  match m.mode route with
  | .normal =>
    let (a, b) := b.attemptPlain route headers payload
    (a, b, m)
  | .fail => (.failed .reset, b, m)
  | .failOnce => (.failed .reset, b, m.set route .normal)
  | .hang => (.hanging, b, m)
  | .twice =>
    match b.attemptPlain route headers payload with
    | (.confirmed, b) =>
      let (a, b) := b.attemptPlain route headers payload
      (a, b, m)
    | (a, b) => (a, b, m)

end ZoneRelay
