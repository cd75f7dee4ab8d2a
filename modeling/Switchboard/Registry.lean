import Switchboard.Descriptor
import Switchboard.WriteQueue

/-!
# The settings registry

The registry holds the value of every switch for the lifetime of the client. Setting a switch
assigns the value, submits it to be saved, and announces a change to the listeners in the order in
which they were connected. A listener may set switches itself; it does so before the listeners after
it hear of the change that moved it. What becomes of a failure of a listener is the affair of the
signal that the registry has been given for its announcements.
-/

namespace Switchboard

structure Setting where
  descriptor : Descriptor
  value : Json

/-- A change as a recording listener heard it. -/
structure Heard where
  tag : Text
  id : Text
  value : Bool
  deriving DecidableEq, Repr

/-- What a listener does about a change: it sets switches one after another, learning each time how
that ended, where the switches are and what has been heard. In the end it may fail itself. -/
inductive Reaction
  | finish
  | fail (e : Failure)
  | set (id : Text) (value : Json)
      (next : Except Failure Unit → List Setting → List Heard → Reaction)

inductive Listener
  /-- Records what it hears, under a tag. -/
  | recorder (tag : Text)
  /-- Sets a switch when another one changes to a given value. -/
  | rule (whenId : Text) (whenValue : Json) (thenId : Text) (thenValue : Json)
  /-- Reacts by where the switches are and what has been heard. Behind a recorder it can tell each
  call from every other, so that it may go by anything that it remembers. -/
  | program (react : Text → Bool → List Setting → List Heard → Reaction)

/-- What carries announcements to the listeners. -/
structure Signal where
  /-- Whether a failure of a listener ends the announcement and comes back to whoever has made the
  change. Otherwise it is reported and the announcement goes on. -/
  passes : Failure → Bool := fun _ => false

/-- No failure of a listener comes back. -/
def Signal.Contains (s : Signal) : Prop :=
  ∀ e, s.passes e = false

structure Registry where
  settings : List Setting
  queue : Option WriteQueue := none
  signal : Signal := {}
  listeners : List Listener := []
  heard : List Heard := []
  /-- The assignments made so far, oldest first. -/
  assigned : List SaveRequest := []

namespace Registry

def ids (r : Registry) : List Text :=
  r.settings.map fun s => s.descriptor.id

/-- The identifier that a value gives. A value that is no text names no setting, and a container
cannot even be looked up. -/
def identifier : Json → Except Failure Text
  | .str id => .ok id
  | .arr _ => .error (.uncomparableToken .array)
  | .obj _ => .error (.uncomparableToken .object)
  | other => .error (.unknownSetting other)

def setting? (r : Registry) (id : Text) : Option Setting :=
  r.settings.find? fun s => s.descriptor.id = id

def descriptor (r : Registry) (id : Text) : Except Failure Descriptor :=
  match r.setting? id with
  | some s => .ok s.descriptor
  | none => .error (.unknownSetting (.str id))

def get (r : Registry) (id : Text) : Except Failure Json :=
  match r.setting? id with
  | some s => .ok s.value
  | none => .error (.unknownSetting (.str id))

def isOn (r : Registry) (id : Text) : Except Failure Bool :=
  match r.get id with
  | .ok value => .ok value.isTruthy
  | .error e => .error e

structure Entry where
  id : Text
  value : Json
  help : Json
  requiresRestart : Json

def list (r : Registry) : List Entry :=
  r.settings.map fun s =>
    ⟨s.descriptor.id, s.value, s.descriptor.help, s.descriptor.requiresRestart⟩

/-! ## Starting -/

def defaultsAfter (e : Failure) : Bool :=
  e.isPersistence || e.isFromSystem || e.isAboutValue

def loadSetting (d : Descriptor) (backend : Backend) (host : Host) :
    Except Failure Setting × Backend × Host :=
  match backend.load d.id host with
  | (.ok .null, backend, host) => (.ok ⟨d, d.default⟩, backend, host)
  | (.ok value, backend, host) => (.ok ⟨d, value⟩, backend, host)
  | (.error e, backend, host) =>
    if defaultsAfter e then
      (.ok ⟨d, d.default⟩, backend,
        host.note .error .registry
          ("Failed to load " ++ d.id ++ ": " ++ e.message ++ ", using default"))
    else
      (.error e, backend, host)

def loadSettings : List Descriptor → Backend → Host →
    Except Failure (List Setting) × Backend × Host
  | [], backend, host => (.ok [], backend, host)
  | d :: rest, backend, host =>
    match loadSetting d backend host with
    | (.error e, backend, host) => (.error e, backend, host)
    | (.ok s, backend, host) =>
      match loadSettings rest backend host with
      | (.error e, backend, host) => (.error e, backend, host)
      | (.ok others, backend, host) => (.ok (s :: others), backend, host)

/-- A registry over an index, with the values that its backend has stored. Without a backend every
switch is at its default. -/
def start (index : DescriptorIndex) (backend : Option Backend) (host : Host) :
    Except Failure Registry × Host :=
  match backend with
  | none => (.ok { settings := index.descriptors.map fun d => ⟨d, d.default⟩ }, host)
  | some backend =>
    match loadSettings index.descriptors backend host with
    | (.error e, _, host) => (.error e, host)
    | (.ok settings, backend, host) => (.ok { settings, queue := some { backend } }, host)

/-! ## Setting -/

def assign (id : Text) (value : Bool) (r : Registry) : Registry :=
  { r with
    settings := r.settings.map fun s =>
      if s.descriptor.id = id then { s with value := .bool value } else s
    assigned := r.assigned ++ [⟨id, .bool value⟩] }

def submit (id : Text) (value : Bool) (r : Registry) (host : Host) : Registry × Host :=
  match r.queue with
  | none => (r, host)
  | some q =>
    let (q, host) := q.submit ⟨id, .bool value⟩ host
    ({ r with queue := some q }, host)

abbrev Setter := Text → Json → Registry → Host → Except Failure Unit × Registry × Host

def perform (set : Setter) : Reaction → Registry → Host → Except Failure Unit × Registry × Host
  | .finish, r, host => (.ok (), r, host)
  | .fail e, r, host => (.error e, r, host)
  | .set id value next, r, host =>
    let (result, r, host) := set id value r host
    perform set (next result r.settings r.heard) r host

def answer (set : Setter) (id : Text) (value : Bool) :
    Listener → Registry → Host → Except Failure Unit × Registry × Host
  | .recorder tag, r, host => (.ok (), { r with heard := r.heard ++ [⟨tag, id, value⟩] }, host)
  | .rule whenId whenValue thenId thenValue, r, host =>
    if whenId = id ∧ whenValue.equalsBool value then set thenId thenValue r host
    else (.ok (), r, host)
  | .program react, r, host => perform set (react id value r.settings r.heard) r host

def announce (signal : Signal) (set : Setter) (id : Text) (value : Bool) :
    List Listener → Registry → Host → Except Failure Unit × Registry × Host
  | [], r, host => (.ok (), r, host)
  | listener :: rest, r, host =>
    match answer set id value listener r host with
    | (.ok (), r, host) => announce signal set id value rest r host
    | (.error e, r, host) =>
      if signal.passes e then (.error e, r, host)
      else announce signal set id value rest r host

def noteChange (d : Descriptor) (value : Bool) (host : Host) : Host :=
  let host := host.note .info .registry
    ("Setting " ++ d.id ++ " changed to " ++ Json.displayBool value)
  if d.requiresRestart.isTruthy then
    host.note .info .registry (d.id ++ " will take effect after restart")
  else host

/-- Sets a switch, where listeners set switches by the given means. -/
def setWith (nested : Setter) : Setter := fun id value r host =>
  match r.setting? id, value with
  | none, _ => (.error (.unknownSetting (.str id)), r, host)
  | some s, .bool b =>
    let (r, host) := (r.assign id b).submit id b host
    if s.value.equalsBool b then (.ok (), r, host)
    else announce r.signal nested id b r.listeners r (noteChange s.descriptor b host)
  | some _, value => (.error (.notBool id value), r, host)

/-- Sets a switch, with announcements nested no deeper than a given depth. At that depth a set fails
before it does anything; a stack that runs out may let the set get further. -/
def setWithin : Nat → Setter
  | 0 => fun _ _ r host => (.error .cascadeTooDeep, r, host)
  | depth + 1 => setWith (setWithin depth)

def cascadeLimit : Nat := 325

def set : Setter := setWithin cascadeLimit

def connect (listener : Listener) (r : Registry) : Registry :=
  { r with listeners := r.listeners ++ [listener] }

/-! ## Saving -/

def overQueue (act : WriteQueue → Host → WriteQueue × Host) (r : Registry) (host : Host) :
    Registry × Host :=
  match r.queue with
  | none => (r, host)
  | some q =>
    let (q, host) := act q host
    ({ r with queue := some q }, host)

def flush : Registry → Host → Registry × Host :=
  overQueue WriteQueue.drain

def close : Registry → Host → Registry × Host :=
  overQueue WriteQueue.close

def lastError (r : Registry) : Option Failure :=
  r.queue.bind WriteQueue.lastError

def attempts (r : Registry) : List SaveRequest :=
  (r.queue.map WriteQueue.attempts).getD []

end Registry

end Switchboard
