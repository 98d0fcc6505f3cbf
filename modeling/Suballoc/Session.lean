import Suballoc.Engine.Report
import Suballoc.Session.Request
import Suballoc.Session.Window

/-!
# Sessions

A session is a row of engines and a list of requests to them, answered one after the other. It
remembers what requests can refer to later: the addresses that allocations were given, in the order
in which they were asked for, and the markers that were taken.

A fault does not end a session. The engine stays in use, in the state that the fault left it in.
-/

namespace Suballoc

/-- The state of a session. -/
structure Session where
  build : Build
  /-- The engines by number; none where construction failed or the engine was dropped. -/
  engines : Array (Option Engine)
  /-- What each allocation was given. -/
  grants : Array (Option Nat)
  markers : Array Marker

namespace Session

/-- A session without engines. -/
def start (build : Build) : Session where
  build
  engines := #[]
  grants := #[]
  markers := #[]

/-- The engine of a number. -/
def engine? (session : Session) (number : Nat) : Option Engine := session.engines[number]?.join

/-! ## Addresses -/

/-- An address moved by a distance, going round at the ends of the address space. -/
def moved (address : Nat) (distance : Int) : Nat := ((address + distance) % Word.limit).toNat

/-- The address that an operand names when it is given to an engine with this base. -/
def resolve (session : Session) (base : Nat) : Operand → Nat
  | .null => 0
  | .grant number plus =>
    match session.grants[number]? with
    | some (some address) => moved address plus
    | _ => 0
  | .offset distance => moved base distance

/-- The number of the engine whose region holds so many bytes from an address on. -/
def holder? (session : Session) (address length : Nat) : Option Nat :=
  session.engines.findIdx? fun
    | some engine => engine.memory.base ≤ address && address + length ≤ engine.memory.stop
    | none => false

/-! ## Requests to one engine -/

/-- What a request does to its engine and to the session. -/
structure Effect where
  reply : Reply
  /-- The engine as it is left, unless it is gone. -/
  engine : Option Engine
  /-- What allocations were given. -/
  grants : List (Option Nat) := []
  /-- A marker that was taken. -/
  marker : Option Marker := none
  events : List Event := []

/-- What one allocation comes to; the outcome is none if the engine has nothing to give. -/
structure Allocation where
  outcome : Option (Except Fault (Option Nat))
  events : List Event := []

namespace Allocation

/-- The address that an allocation was given. -/
def grant (allocation : Allocation) : Option Nat :=
  match allocation.outcome with
  | some (.ok address) => address
  | some (.error _) | none => none

/-- The reply to an allocation. -/
def reply (base : Nat) (allocation : Allocation) : Reply :=
  .ofOutcome (.address base) allocation.outcome

end Allocation

/-- Take memory once, and fill it. -/
def allocateOnce (build : Build) (size alignment : Nat) (fill : Option UInt8) (engine : Engine) :
    Allocation × Engine :=
  match engine.allocate build size alignment with
  | (some (.ok none), engine) =>
    let events := engine.exhaustedEvents build size alignment
    ({ outcome := some (.ok none), events }, engine)
  | (some (.ok (some address)), engine) =>
    let allocation : Allocation := { outcome := some (.ok (some address)) }
    match fill with
    | none => (allocation, engine)
    | some byte =>
      let offset := Word.sub address engine.memory.base
      let payload := List.replicate (engine.payloadSize size) byte
      (allocation, engine.write offset payload)
  | (outcome, engine) => ({ outcome }, engine)

/-- Take memory so many times. -/
def allocateTimes (build : Build) (size alignment : Nat) (fill : Option UInt8) :
    (count : Nat) → Engine → List Allocation × Engine
  | 0, engine => ([], engine)
  | count + 1, engine =>
    let (first, engine) := allocateOnce build size alignment fill engine
    let (others, engine) := allocateTimes build size alignment fill count engine
    (first :: others, engine)

/-- A question that leaves the engine alone. -/
def observe (engine : Engine) (reply : Reply) : Effect := { reply, engine := some engine }

/-- The effect of a call. -/
def called {Answer : Type} (reply : Answer → Reply) :
    Option (Except Fault Answer) × Engine → Effect
  | (outcome, engine) => observe engine (.ofOutcome reply outcome)

/-- Requests that only stacks answer. -/
def askStack (session : Session) (state : ScopedStack) : Request → Effect
  | .mark =>
    let marker := state.stack.mark
    { reply := .marked marker.offset (session.markers.back? = some marker)
      engine := some (.stack state)
      marker := some marker }
  | .reset => observe (.stack { state with stack := state.stack.reset }) .done
  | .rewind number =>
    match session.markers[number]? with
    | none => observe (.stack state) .unsupported
    | some marker =>
      let call := ScopedStack.within (Stack.rewind session.build marker)
      called (fun _ ↦ .done) (Engine.settle .stack (call state))
  | .openScope =>
    called (fun marker ↦ .number marker.offset) (Engine.settle .stack (ScopedStack.openScope state))
  | .endScope =>
    match state.endScope? with
    | none => observe (.stack state) (.flag false)
    | some state => observe (.stack state) (.flag true)
  | _ => observe (.stack state) .unsupported

/-- Requests that only regions answer. -/
def askRegion (session : Session) (region : Region) : Request → Reply
  | .contains operand => .flag (region.contains (session.resolve region.base operand))
  | .offsetOf operand =>
    match region.offsetOf? (session.resolve region.base operand) with
    | none => .nothing
    | some offset => .number offset
  | .addressAt offset =>
    .ofExcept (fun address ↦ .address region.base (some address))
      (region.address session.build offset)
  | _ => .unsupported

/-- A request to an engine. -/
def ask (session : Session) (engine : Engine) (request : Request) : Effect :=
  let build := session.build
  let base := engine.memory.base
  match request with
  | .allocate size alignment fill =>
    let (allocation, engine) := allocateOnce build size alignment fill engine
    { reply := allocation.reply base
      engine := some engine
      grants := [allocation.grant]
      events := allocation.events }
  | .allocateMany count size alignment fill =>
    let (allocations, engine) := allocateTimes build size alignment fill count engine
    { reply := .many (allocations.map (Allocation.reply base))
      engine := some engine
      grants := allocations.map Allocation.grant
      events := allocations.flatMap Allocation.events }
  | .release operand =>
    called (fun _ ↦ .done) (engine.release build (session.resolve base operand))
  | .owns operand =>
    let address := session.resolve base operand
    match if address = 0 then none else engine.owns? address with
    | none => observe engine .nothing
    | some owned => observe engine (.flag owned)
  | .canHold bytes =>
    match engine.usage? build with
    | none => observe engine .unsupported
    | some usage =>
      observe engine (.ofExcept .flag (usage.bind fun usage ↦ usage.canHold build bytes))
  | .drop => { reply := .done, engine := none, events := engine.droppedEvents }
  | .report => observe engine (.ofExcept .report (engine.report build))
  | request =>
    match engine with
    | .stack state => session.askStack state request
    | .region region => observe (.region region) (session.askRegion region request)
    | .pool _ | .sharedPool _ | .freeList _ => observe engine .unsupported

/-! ## The course of a session -/

/-- The step that a reply ends. -/
def finish (session : Session) (number : Nat) (reply : Reply) (events : List Event) :
    Step × Session :=
  let summary := (session.engine? number).map (Engine.summary session.build)
  ({ reply, summary, events }, session)

/-- Build the next engine. A failure takes a number as well. -/
def construct (session : Session) (recipe : Recipe) (skew : Nat) : Step × Session :=
  let number := session.engines.size
  match Engine.new session.build (Window.platform number skew) recipe with
  | .ok engine =>
    let session := { session with engines := session.engines.push (some engine) }
    session.finish number .done (engine.builtEvents recipe)
  | .error problem =>
    let session := { session with engines := session.engines.push none }
    session.finish number (.refused problem) []

/-- Read bytes of any engine. -/
def read (session : Session) (address length : Nat) : Reply :=
  match (session.holder? address length).bind session.engine? with
  | none => .outOfRegion
  | some engine => .bytes (engine.memory.read (address - engine.memory.base) length)

/-- Write to the engine whose region holds the bytes. -/
def write (session : Session) (holder address : Nat) (values : List UInt8) : Session :=
  let engines := session.engines.modify holder fun slot ↦
    slot.map fun engine ↦ engine.write (address - engine.memory.base) values
  { session with engines }

/-- What the allocations of a request are given when there is no engine to ask. They count all the
same, so that later requests can be numbered without knowing which engines could be built. -/
def lostGrants : Request → List (Option Nat)
  | .allocate .. => [none]
  | .allocateMany count .. => List.replicate count none
  | _ => []

/-- Answer a request to the engine of a number. -/
def perform (session : Session) (number : Nat) (request : Request) : Step × Session :=
  match request with
  | .construct recipe skew => session.construct recipe skew
  | request =>
    match session.engine? number with
    | none =>
      { session with grants := session.grants ++ lostGrants request }.finish number .noEngine []
    | some engine =>
      match request with
      | .read operand length =>
        let address := session.resolve engine.memory.base operand
        let reply := session.read address length
        session.finish number reply []
      | .write operand values =>
        let address := session.resolve engine.memory.base operand
        match session.holder? address values.length with
        | none => session.finish number .outOfRegion []
        | some holder => (session.write holder address values).finish number .done []
      | request =>
        -- The engine is taken out of the row while it works, so that it has a single owner.
        let session := { session with engines := session.engines.setIfInBounds number none }
        let effect := session.ask engine request
        let session :=
          { session with
            engines := session.engines.setIfInBounds number effect.engine
            grants := session.grants ++ effect.grants
            markers := session.markers ++ effect.marker.toList }
        session.finish number effect.reply effect.events

/-- Answer requests in order. -/
def answer (session : Session) : List (Nat × Request) → List Step × Session
  | [] => ([], session)
  | (number, request) :: rest =>
    let (step, session) := session.perform number request
    let (steps, session) := session.answer rest
    (step :: steps, session)

/-- The events of the end of a session: the engines that are left are dropped in order. -/
def closingEvents (session : Session) : List Event :=
  session.engines.toList.flatMap fun slot ↦ (slot.map Engine.droppedEvents).getD []

/-- A whole session: its steps, and the events of its end. -/
def run (build : Build) (requests : List (Nat × Request)) : List Step × List Event :=
  let (steps, session) := (start build).answer requests
  (steps, session.closingEvents)

end Session

end Suballoc
