import Maestro.Lineage

/-! A concrete supervisor, and the vocabulary of the schedules it runs. -/
namespace Maestro.Session
open Interleaving

/-- Its decoder reads the compact text of the given frames. -/
def plain (frames : List Value) : Supervisor where
  limits := .default
  toVec value := some value.encode
  fromSlice bytes := frames.find? (fun value => value.encode == bytes)
  redactJson := id
  pipeCapacity := 65536
  stdinBuffer := 8192

section Schedules
variable {sup : Supervisor}

def initially (sup : Supervisor) : Config (machine sup) := ⟨.initial, []⟩

theorem initiallyHolds : (lineage sup).Holds (initially sup) :=
  Outline.holdsEmpty ⟨by simp [Memory.ledger, Memory.initial], by simp [Memory.ledger, Memory.initial],
    by simp [Memory.ledger, Memory.initial], by simp [Memory.ledger, Memory.initial],
    by simp [Memory.ledger, Memory.initial], by simp [Memory.ledger, Memory.initial],
    by simp [Memory.ledger, Memory.initial], by simp [Memory.ledger, Memory.initial],
    by simp [Memory.ledger, Memory.initial]⟩

theorem reachLineage {Good : Config (machine sup) → Event (machine sup) → Prop} {c}
    (h : Reach Good (initially sup) c) : (lineage sup).Holds c :=
  Outline.reachHolds rolesSound lineageValid initiallyHolds (fun _ _ _ _ => trivial) h

theorem spawnsUnknown {c : Config (machine sup)} (holds : (lineage sup).Holds c)
    {index choice t session run token binding capture spec answer memory next}
    (performs : Performs c index choice t (.spawnStructured session run token binding capture spec)
      answer memory next) : c.memory.runs run = none := by
  have obeys := Protocol.performsObeys rolesSound holds.placed performs
  have backs : c.memory.ledger.Backs ((roles sup).place t) := holds.here performs.present
  have reserved : (roles sup).place t = .reserved run := obeys.allowed
  rw [reserved] at backs
  simpa [Memory.ledger] using backs.2

theorem reachWellformed {c : Config (machine sup)} (h : Reach Always (initially sup) c) {run control}
    (found : c.memory.runs run = some control) : control.pending.Wellformed := by
  induction h generalizing run control with
  | start => cases found
  | step before _ moves ih =>
    cases moves with
    | call allowed => exact ih found
    | act performs =>
      rcases controlCases performs.effect found with old | ⟨call, control₁, answer, _, old, performed⟩ |
        ⟨_, _, _, _, _, _, rfl⟩
      · exact ih old
      · by_cases tracker : ∃ call', call = .tracker call'
        · obtain ⟨call, rfl⟩ := tracker
          cases Option.some.inj performed
          exact PendingTracker.performWellformed (ih old) _ call
        · rw [pendingKept performed fun call' same => tracker ⟨call', same⟩]
          exact ih old
      · exact PendingTracker.newWellformed _
    | outside effect =>
      rcases outsideCases effect with ⟨_, _, rfl⟩ | ⟨_, _, _, _, old, _, rfl⟩
      · exact ih found
      · rcases updatedControl found with ⟨rfl, rfl⟩ | ⟨_, old'⟩
        · have kept := ih old
          exact kept
        · exact ih old'

def turns (index count : Nat) : List (Event (machine sup)) :=
  List.replicate count (.run index .go)

def turn (index : Nat) (choice : Choice) : List (Event (machine sup)) := [.run index choice]

def request : LaunchRequest where
  executable := "fake-agent"
  scenario := "structured/demo"
  cwd := "/work"
  binding := none
  volume := none
  captureRawProtocol := false

def permissionFrame : Value :=
  .object [("request_id", .string "p1"), ("type", .string "permission_request")]
def inputRequest : Value := .object [("request_id", .string "u1"), ("type", .string "user_input_request")]
def inputResult : Value := .object [("request_id", .string "u1"), ("type", .string "user_input_result")]

def launchTurns (index : Nat) : List (Event (machine sup)) :=
  turns index 6 ++ turn index (.pid 7) ++ turn index (.io true) ++ turn index (.io true) ++
    turns index 5 ++ turn index (.io true) ++ turns index 2

def startTurns (index : Nat) : List (Event (machine sup)) :=
  [.call (.start request)] ++ turns index 1 ++ launchTurns index

def resumeTurns (index : Nat) (session : SessionId) : List (Event (machine sup)) :=
  [.call (.resume session request)] ++ turns index 4 ++ launchTurns index

def readTurn (index : Nat) (frame : Value) : List (Event (machine sup)) :=
  turn index (.stream (.data (frame.encode ++ [10])))

def endTurns (reader stderrReader : Nat) (run : RunId) : List (Event (machine sup)) :=
  turn reader (.stream (.data [])) ++ turn stderrReader (.stream (.data [])) ++
    turns stderrReader 1 ++ turns reader 2 ++ [.outside (.childExits run (.ok (.exited 0)))] ++
    turns reader 2

def finalizeTurns (reader : Nat) : List (Event (machine sup)) := turns reader 7

end Schedules
end Maestro.Session
