import Parley.Server.Threads
import Parley.Server.Worker

/-!
# A server with its workers at their turns

The workers of a server run at the same time, each with a pump of its own. They have the handler
and what it keeps in common, and the registry; everything else of a connection is its worker's
alone. Here the threads of a server go on as before, but a worker in service is taken turn by turn
and byte by byte.

**Other ends.** What a worker meets at its socket is the `Peer` of the connection: what the reads
bring, whether the socket can be set up at all, and after how many bytes it takes no more.

**Moves.** A `Crew.Move` is a turn of the server's own threads or something that happens at one
connection in service. A run is any list of moves.
-/

namespace Parley.Server

/-- The other end of a connection, as the server meets it. -/
structure Peer where
  /-- What the reads of the socket bring: bytes, its end as no bytes, or a failure. -/
  script : List (Except Failure (List UInt8))
  /-- The failure of a socket that cannot be set up. -/
  opening : Option Failure := none
  /-- How many bytes the socket takes before its writes fail, and the failure. -/
  refusal : Option (Nat × Failure) := none
  feasible : ∀ chunk, .ok chunk ∈ script → chunk.length ≤ Transport.pumpSize
  /-- An interrupted write is made again. -/
  lasting : ∀ limit failure, refusal = some (limit, failure) → failure.kind ≠ .interrupted

/-- A worker in service, with what the reads of its socket have still to bring. -/
structure Post (σ : Type) where
  worker : Worker σ
  script : List (Except Failure (List UInt8))

/-- What happens at a connection in service. -/
inductive Deed
  /-- The worker sets the connection up. -/
  | begin
  /-- A read of the socket comes to its end. -/
  | read
  /-- A read of a socket that was shut down finds the end. -/
  | readEnd
  | pump
  | owner
  /-- The socket takes up to so many bytes, or refuses them. -/
  | push (n : Nat)
  deriving DecidableEq, Repr

/-- How many bytes the socket of a connection still takes before its writes fail, and the failure;
the writes of one that was shut down fail at once. -/
def Link.room (link : Link) (peer : Peer) : Option (Nat × Failure) :=
  if link.shut then some (0, .brokenPipe)
  else peer.refusal.map fun (limit, failure) => (limit - link.sent.length, failure)

/-- What has become of a connection with what its worker did. -/
def Link.follow {σ : Type} (link : Link) (worker : Worker σ) (bytes : List UInt8) : Link :=
  { link with
    stage := match worker.serving with
      | .done status => .leaving status
      | _ => .serving
    sent := link.sent ++ bytes
    requests := worker.handled.map Prod.fst }

/-- The thread of a deed does not wait, or no longer. -/
def Deed.awake {σ : Type} (worker : Worker σ) : Deed → Bool
  | pump => worker.awake .pump
  | owner => worker.awake .owner
  | begin | read | readEnd | push _ => true

namespace Post

variable {σ : Type}

/-- The worker goes on with what the handler keeps by now. -/
def resume (post : Post σ) (state : σ) : Post σ :=
  { post with worker := { post.worker with state } }

/-- The worker, its pump or its socket makes a move. -/
def move (post : Post σ) (move : Worker.Move) : Option (Post σ × List UInt8) :=
  (post.worker.step move).map fun (worker, bytes) => ({ post with worker }, bytes)

/-- The socket takes up to `n` bytes of a response, as many as it has room for. Without room it
refuses them. -/
def push (post : Post σ) (room : Option (Nat × Failure)) (n : Nat) : Option (Post σ × List UInt8) :=
  match room, post.worker.serving with
  | some (0, failure), .writing (_ :: _) =>
    (post.worker.breakOff failure).map fun worker => ({ post with worker }, [])
  | some (room, _), _ => post.move (.push (min n room))
  | none, _ => post.move (.push n)

/-- What a deed makes of a worker that can do it, and the bytes that the socket takes. -/
def step (post : Post σ) (shut : Bool) (room : Option (Nat × Failure)) :
    Deed → Option (Post σ × List UInt8)
  | .begin => none
  | .read =>
    match post.script with
    | [] => none
    | arrival :: script => { post with script }.move (.arrive arrival)
  | .readEnd => if shut || post.worker.intake.shut then post.move (.arrive (.ok [])) else none
  | .pump => post.move .pump
  | .owner => post.move .owner
  | .push n => post.push room n

end Post

/-- A server with its workers at their turns. -/
structure Crew (σ : Type) where
  threads : Threads σ
  /-- The other ends of the connections, by number. -/
  peers : Nat → Peer
  /-- The workers that have set their connections up, by number. -/
  posts : Nat → Option (Post σ) := fun _ => none

namespace Crew

inductive Move
  /-- The server's own threads take a turn. -/
  | turn (move : Server.Move)
  /-- Something happens at a connection in service. -/
  | work (id : Nat) (deed : Deed)

variable {σ : Type}

/-- A server that has just started, and the other ends that it is going to meet. -/
def start (config : Config) (handler : Handler σ) (state : σ) (peers : Nat → Peer) : Crew σ :=
  { threads := .start config handler state, peers }

def setPost (crew : Crew σ) (id : Nat) (post : Post σ) : Crew σ :=
  { crew with posts := fun other => if other = id then some post else crew.posts other }

/-- A turn that leaves the workers in service alone. -/
def spares (crew : Crew σ) : Server.Move → Bool
  | .arrive .. | .workerFails .. => false
  | .worker id => (crew.threads.links[id]?.map Link.stage) != some .serving
  | _ => true

/-- The worker of a connection sets it up, unless the socket cannot be. -/
def begin (crew : Crew σ) (id : Nat) (link : Link) : Option (Crew σ) :=
  let threads := crew.threads
  match (crew.peers id).opening with
  | some failure =>
    let link := { link with stage := .leaving (.dropped (.failed failure)) }
    some { crew with threads := threads.setLink id link }
  | none =>
    (Worker.ofConfig? threads.handler threads.state threads.config).map fun worker =>
      crew.setPost id { worker, script := (crew.peers id).script }

/-- Something happens at a connection in service. What the handler keeps is what all workers have
made of it. -/
def work (crew : Crew σ) (id : Nat) (deed : Deed) : Option (Crew σ) := do
  let threads := crew.threads
  let link ← threads.links[id]?
  if link.stage = .serving then
    match crew.posts id, deed with
    | none, .begin => crew.begin id link
    | none, _ => none
    | some post, deed =>
      let (post, bytes) ←
        (post.resume threads.state).step link.shut (link.room (crew.peers id)) deed
      let threads := threads.setLink id (link.follow post.worker bytes)
      some { crew.setPost id post with threads := { threads with state := post.worker.state } }
  else none

/-- The move of a party that can make it. -/
def step (crew : Crew σ) : Move → Option (Crew σ)
  | .turn move =>
    if crew.spares move then (crew.threads.step move).map fun threads => { crew with threads }
    else none
  | .work id deed => crew.work id deed

/-- A run of moves, each of which its party can make. -/
def run (crew : Crew σ) (moves : List Move) : Option (Crew σ) :=
  moves.foldlM step crew

end Crew

end Parley.Server
