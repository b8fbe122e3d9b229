import Parley.Server.Service
import Parley.Transport.Setup

/-!
# The threads of a server

A server listens in an accept loop. Each connection that it accepts gets a number, is entered
in a registry under a lock, and is served by a worker of its own, which takes the connection
out of the registry again when it exits, however it exits. The loop keeps the handles of its
workers and forgets those of finished ones. When the system refuses the loop what it asks for, be
it the next connection, a second handle of one for the registry, or a thread, the loop goes on with
the next connection; the number of a connection that it gave up is in the registry no more.

**Stopping.** Under the lock, stopping is announced and every connection in the registry is
shut down. The stopping thread then wakes the loop with a connection of its own and waits for
it; the loop, once it finds that stopping was announced, turns the connection it has just
accepted away and waits for all its workers. If the loop cannot be woken it is left alone.

**Moves.** A `Move` is one turn of one thread, with the lock held or not, or something that
the other end of a connection does. A run is any list of moves.
-/

namespace Parley.Server

/-- How far a connection has come. -/
inductive Stage
  /-- Accepted, and not yet in the registry. -/
  | accepted
  /-- In the registry, without a worker yet. -/
  | registered
  | serving
  /-- The worker is about to take the connection out of the registry. -/
  | leaving (status : ServiceStatus)
  /-- The connection is out of the registry, and the worker is about to exit. -/
  | exiting (status : ServiceStatus)
  | finished (status : ServiceStatus)
  /-- Given up without a worker, because the server was stopping or the system refused something. -/
  | turnedAway
  deriving DecidableEq, Repr

/-- A connection that the server has accepted. -/
structure Link where
  stage : Stage := .accepted
  /-- What the worker is sent. -/
  receiver : Receiver
  /-- What the worker has sent. -/
  sent : List UInt8 := []
  /-- The requests that were handed to the handler. -/
  requests : List Message := []
  /-- The connection has been shut down by the server. -/
  shut : Bool := false

/-- Where the accept loop stands. A connection is named by its number. -/
inductive Acceptor
  | listening
  /-- It is about to take the lock for a new connection. -/
  | admitting (id : Nat)
  /-- It is about to start the worker of a connection. -/
  | starting (id : Nat)
  /-- It is about to keep the handle of a worker and to forget those of finished ones. -/
  | keeping (id : Nat)
  /-- It waits for the workers whose handles it has. -/
  | joining
  | finished
  deriving DecidableEq, Repr

/-- Where the stopping of the server stands. -/
inductive Stopper
  | absent
  /-- Stopping has been announced, and the accept loop is to be woken. -/
  | waking
  /-- It waits for the accept loop. -/
  | joining
  | returned
  /-- The accept loop could not be woken. -/
  | detached
  deriving DecidableEq, Repr

/-- A server with its threads. -/
structure Threads (σ : Type) where
  config : Config
  handler : Handler σ
  /-- What the handler keeps. -/
  state : σ
  /-- Connections that have not been accepted. -/
  backlog : Nat := 0
  /-- All connections accepted so far, by number. -/
  links : List Link := []
  /-- The numbers of the connections in the registry. -/
  registry : List Nat := []
  acceptor : Acceptor := .listening
  /-- The numbers of the connections whose workers the accept loop has handles of. -/
  handles : List Nat := []
  stopping : Bool := false
  stopper : Stopper := .absent

inductive Move
  /-- Somebody connects. -/
  | connect
  /-- The accept loop takes its next turn. -/
  | acceptor
  /-- The system refuses the accept loop what it asks for. -/
  | acceptorFails
  /-- A read of a connection brings bytes, its end as no bytes, or a failure. -/
  | arrive (id : Nat) (arrival : Except Failure (List UInt8))
  /-- The worker of a connection takes its next turn. -/
  | worker (id : Nat)
  /-- The same, but the socket takes only so many bytes of a response before a write of it fails. -/
  | workerFails (id taken : Nat) (failure : Failure)
  /-- The server is stopped. -/
  | stop
  /-- The accept loop is woken, or cannot be. -/
  | wake (succeeds : Bool)
  /-- The stopping thread returns. -/
  | stopped

namespace Link

/-- The worker has exited. -/
def isFinished (link : Link) : Bool := link.stage matches .finished _

/-- The connection is shut down: nothing more arrives. -/
def shutDown (link : Link) : Link :=
  { link with shut := true, receiver := link.receiver.stop .ended }

/-- The worker starts: its service ends at once if the socket refuses the settings. -/
def start (config : Config) (link : Link) : Link :=
  match Transport.setUp config with
  | .ok () => { link with stage := .serving }
  | .error error => { link with stage := .leaving (.dropped error) }

/-- The failure of a write of so many bytes, behind the bytes that the socket still takes; one that
was shut down takes none. -/
def writeFailure? (link : Link) (refusal : Option (Nat × Failure)) (size : Nat) :
    Option (Nat × Failure) :=
  if link.shut then some (0, .brokenPipe) else refusal.filter fun (taken, _) => taken < size

/-- The worker reads a request and answers it, or comes to the end of its service. It has
nothing to do as long as the request may still be on its way. A socket may refuse what is behind
the bytes of a response that it still takes. -/
def serveNext {σ : Type} (handler : Handler σ) (state : σ) (refusal : Option (Nat × Failure))
    (link : Link) : Option (Link × σ) :=
  match link.receiver.read with
  | (none, _) => none
  | (some (.error error), receiver) =>
    some ({ link with receiver, stage := .leaving (.dropped error) }, state)
  | (some (.ok none), receiver) => some ({ link with receiver, stage := .leaving .closed }, state)
  | (some (.ok (some request)), receiver) =>
    let (reply, state) := handler state request
    let link := { link with receiver, requests := link.requests ++ [request] }
    match reply with
    | .refusal text => some ({ link with stage := .leaving (.dropped (.handler text)) }, state)
    | .crash => some ({ link with stage := .leaving .crashed }, state)
    | .response response =>
      match response.frame receiver.max with
      | .error error => some ({ link with stage := .leaving (.dropped error) }, state)
      | .ok frame =>
        match link.writeFailure? refusal frame.length with
        | some (taken, failure) => some ({ link with
            sent := link.sent ++ frame.take taken
            stage := .leaving (.dropped (.frame (.failed failure))) }, state)
        | none => some ({ link with sent := link.sent ++ frame }, state)

end Link

namespace Threads

variable {σ : Type}

/-- A server that has just started. -/
def start (config : Config) (handler : Handler σ) (state : σ) : Threads σ :=
  { config, handler, state }

def setLink (threads : Threads σ) (id : Nat) (link : Link) : Threads σ :=
  { threads with links := threads.links.set id link }

/-- The workers of which the accept loop has handles have all exited. -/
def allJoined (threads : Threads σ) : Bool :=
  threads.handles.all fun id => (threads.links[id]?.map Link.isFinished).getD true

/-- The connections whose workers have not exited. -/
def unfinished (threads : Threads σ) (ids : List Nat) : List Nat :=
  ids.filter fun id => !(threads.links[id]?.map Link.isFinished).getD true

/-- The accept loop takes its next turn. -/
def acceptorTurn (threads : Threads σ) : Option (Threads σ) :=
  match threads.acceptor with
  | .listening =>
    if threads.backlog = 0 then none
    else
      let link : Link := { receiver := { max := threads.config.maxFrameSize } }
      some { threads with
        backlog := threads.backlog - 1
        links := threads.links ++ [link]
        acceptor := .admitting threads.links.length }
  | .admitting id => do
    let link ← threads.links[id]?
    if threads.stopping then
      some { threads.setLink id { link with stage := .turnedAway } with acceptor := .joining }
    else
      some { threads.setLink id { link with stage := .registered } with
        registry := id :: threads.registry
        acceptor := .starting id }
  | .starting id => do
    let link ← threads.links[id]?
    some { threads.setLink id (link.start threads.config) with acceptor := .keeping id }
  | .keeping id =>
    some { threads with
      handles := threads.unfinished (threads.handles ++ [id]), acceptor := .listening }
  | .joining => if threads.allJoined then some { threads with acceptor := .finished } else none
  | .finished => none

/-- Where the accept loop goes on without the connection that it asked for. -/
def afterFailure (threads : Threads σ) : Acceptor :=
  if threads.stopping then .joining else .listening

/-- The system refuses the accept loop a connection, a second handle of the one that it has in
hand, or a worker's thread. A worker that cannot be started takes its connection out of the registry
at once. -/
def acceptorFailure (threads : Threads σ) : Option (Threads σ) :=
  match threads.acceptor with
  | .listening => some { threads with acceptor := threads.afterFailure }
  | .admitting id => do
    let link ← threads.links[id]?
    some { threads.setLink id { link with stage := .turnedAway } with
      acceptor := threads.afterFailure }
  | .starting id => do
    let link ← threads.links[id]?
    some { threads.setLink id { link with stage := .turnedAway } with
      registry := threads.registry.erase id
      handles := threads.unfinished threads.handles
      acceptor := .listening }
  | .keeping _ | .joining | .finished => none

/-- The worker of a connection takes its next turn. -/
def workerTurn (threads : Threads σ) (id : Nat) : Option (Threads σ) := do
  let link ← threads.links[id]?
  match link.stage with
  | .serving =>
    let (link, state) ← link.serveNext threads.handler threads.state none
    some { threads.setLink id link with state }
  | .leaving status =>
    some { threads.setLink id { link with stage := .exiting status } with
      registry := threads.registry.erase id }
  | .exiting status => some (threads.setLink id { link with stage := .finished status })
  | _ => none

/-- The worker of a connection in service takes its next turn at a socket that fails; a write that
is interrupted does not. -/
def workerFailure (threads : Threads σ) (id taken : Nat) (failure : Failure) :
    Option (Threads σ) := do
  let link ← threads.links[id]?
  if link.stage = .serving ∧ failure.kind ≠ .interrupted then
    let (link, state) ← link.serveNext threads.handler threads.state (some (taken, failure))
    some { threads.setLink id link with state }
  else none

/-- Stopping is announced, and every connection in the registry is shut down. -/
def announceStop (threads : Threads σ) : Threads σ :=
  let links := threads.links.mapIdx fun id link =>
    if id ∈ threads.registry then link.shutDown else link
  { threads with links, stopping := true, stopper := .waking }

/-- The move of a party that can make it. -/
def step (threads : Threads σ) : Move → Option (Threads σ)
  | .connect => some { threads with backlog := threads.backlog + 1 }
  | .acceptor => threads.acceptorTurn
  | .acceptorFails => threads.acceptorFailure
  | .arrive id arrival => do
    let link ← threads.links[id]?
    some (threads.setLink id { link with receiver := link.receiver.arrive arrival })
  | .worker id => threads.workerTurn id
  | .workerFails id taken failure => threads.workerFailure id taken failure
  | .stop =>
    match threads.stopper with
    | .absent => some threads.announceStop
    | _ => none
  | .wake succeeds =>
    match threads.stopper with
    | .waking => some (
        if succeeds then { threads with backlog := threads.backlog + 1, stopper := .joining }
        else { threads with stopper := .detached })
    | _ => none
  | .stopped =>
    match threads.stopper, threads.acceptor with
    | .joining, .finished => some { threads with stopper := .returned }
    | _, _ => none

/-- A run of moves, each of which its party can make. -/
def run (threads : Threads σ) (moves : List Move) : Option (Threads σ) :=
  moves.foldlM step threads

end Threads

end Parley.Server
