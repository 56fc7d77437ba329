import Injector.System
/-!
# Sessions

A session starts with one container and performs operations, each of which is
followed by whatever it set going. At its end all names are forgotten, the newest
first.
-/
namespace Injector

/-- A session between two operations: no task is left. -/
structure Session where
  program : Program
  world : World
  deriving Inhabited

namespace Session

/-- A session with one container of that name. -/
def start (program : Program) (name : String) : Session := ⟨program, ({} : World).openRoot name⟩

/-- Lets tasks run until none can go on, for at most `fuel` steps. Gives the tasks, what was
told meanwhile, and the session after it. -/
def settle (s : Session) (fuel : Nat) (tasks : List Task) : List Task × List Event × Session :=
  let system := System.settle s.program fuel (({ world := s.world } : System).release.start tasks)
  (system.tasks, system.world.log, { s with world := { system.world with log := [] } })

/-- Performs an operation and all it sets going. There is no reply if that takes more than
`fuel` steps or waits forever. -/
def perform (s : Session) (fuel : Nat) (o : Op) : Option Reply × List Event × Session :=
  let (tasks, events, s) := s.settle fuel [.ofOp {} o]
  ((tasks.head?).bind Task.reply?, events, s)

/-- Forgets all names, the newest first, and waits after each for what that sets going. Names
given meanwhile are forgotten as well; `count` bounds how many are. -/
def finish (fuel : Nat) : Nat → Session → List Event
  | 0, _ => []
  | count + 1, s =>
    match s.world.names.getLast? with
    | none => []
    | some (name, _) =>
      let (_, events, s) := { s with world := s.world.forget name }.settle fuel []
      events ++ finish fuel count s

end Session

end Injector
