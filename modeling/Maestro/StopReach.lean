import Maestro.HandlerDrop

/-! A stop call reaches the child. The flag of a live child belongs to a stop call that is
still under way, and whoever holds the lock of its process does not wait for it. -/
namespace Maestro.Session
open Interleaving Prog Protocol

/-! What a holder of the lock waits for. -/

def Process.Roomy (sup : Supervisor) (p : Process) : Prop := p.readEndOpen = true →
  ∀ stdin, p.stdin = some stdin → stdin.unsent.length ≤ stdin.free sup.pipeCapacity

/-- The action ends only when the child reads or exits by itself. -/
def Process.Starves (sup : Supervisor) (p : Process) : Act → Prop
  | .run _ .awaitFlush => ¬ p.Roomy sup
  | .run _ .waitExit => p.outcome = none ∧ p.sealed = false
  | _ => False

structure StopReaches {sup : Supervisor} (c : Config (machine sup)) (run : RunId) : Prop where
  accepted : ∀ {control}, c.memory.runs run = some control → control.process.outcome = none →
    control.stopRequested = true → ∃ t ∈ c.tasks, Swaps run ∈ t.past ∧ ¬ t.Ended
  unblocked : ∀ {control}, c.memory.runs run = some control → control.process.outcome = none →
    ∀ t ∈ c.tasks, ((locks sup).place t).holds = some run → ∀ o, t.next = some o →
    ¬ control.process.Starves sup o

/-- A line is written when the pipe has room for it, the last wait begins when the child has
exited, and no stop call fails between its flag and the child's end. -/
def Grip.clear (sup : Supervisor) (q : Grip) (choice : Choice) (m : Memory) : Act → Bool
  | .run run (.stdinWrite bytes _) => (m.runs run).all fun control =>
      !control.process.readEndOpen || control.process.stdin.all fun stdin =>
        decide (stdin.unsent.length + bytes.length ≤ stdin.free sup.pipeCapacity)
  | .run run (.lock .wait) => (m.runs run).all fun control => control.process.outcome.isSome
  | .run _ .signalGroup | .run _ .sealGroup =>
      q.stops == none || (match choice with | .io true => true | _ => false)
  | .session session (.publish run source event) => q.stops == none ||
      (m.sessions session).all fun record =>
        (record.events.publish sup.limits.replayEvents session run source event).isSome
  | _ => true

def StopsClear {sup : Supervisor} (c : Config (machine sup)) : Event (machine sup) → Prop
  | .run index choice => (c.tasks[index]?).all (fun t =>
      t.next.all fun o => ((locks sup).place t).clear sup choice c.memory o) = true
  | _ => True
instance {sup : Supervisor} (c : Config (machine sup)) (e) : Decidable (StopsClear c e) :=
  match e with
  | .run _ _ => inferInstanceAs (Decidable (_ = true))
  | .call _ | .outside _ => .isTrue trivial

namespace Grip

def about : Grip → Option RunId
  | .free => none
  | .stopping run | .holding run _ | .flushing run _ | .killed run _ | .exited run _ | .failed run _
  | .stopped run => some run

def Ready (sup : Supervisor) (q : Grip) (p : Process) : Prop :=
  match q with
  | .flushing .. => p.Roomy sup
  | .killed .. => p.sealed = true
  | .exited .. | .holding _ .wait => p.outcome ≠ none
  | _ => True

end Grip

def ReadyHere (sup : Supervisor) (q : Grip) (m : Memory) : Prop := ∀ run, q.about = some run →
  ∃ control, m.runs run = some control ∧ q.Ready sup control.process

def reaching (sup : Supervisor) : Outline (locks sup) where
  Inv := (locking sup).Inv
  Here q m := (locking sup).Here q m ∧ ReadyHere sup q m
  Apart := (locking sup).Apart

def Clears (sup : Supervisor) (q : Grip) : Act → Memory → Prop
  | .run run (.stdinWrite bytes _), m => ∀ control, m.runs run = some control →
      control.process.readEndOpen = true → ∀ stdin, control.process.stdin = some stdin →
      stdin.unsent.length + bytes.length ≤ stdin.free sup.pipeCapacity
  | .run run (.lock .wait), m => ∀ control, m.runs run = some control →
      control.process.outcome ≠ none
  | o, m => Unknown q o m

section Reaching
variable {sup : Supervisor} {q : Grip} {m m' : Memory} {run : RunId}

structure Lasts (p p' : Process) : Prop where
  ended : p.outcome ≠ none → p'.outcome ≠ none
  sealed : p.sealed = true → p'.sealed = true

theorem readyLasts {p p' : Process} (lasts : Lasts p p') (room : p.Roomy sup → q.writes ≠ none → p'.Roomy sup)
    (ready : q.Ready sup p) : q.Ready sup p' := by
  cases q with
  | flushing run bytes => exact room ready (by simp [Grip.writes])
  | killed => exact lasts.sealed ready
  | exited => exact lasts.ended ready
  | holding run use => cases use <;> first | exact lasts.ended ready | trivial
  | _ => trivial

theorem performLasts {now choice call} {c c' : RunControl} {answer : RunCall.Answer call}
    (h : c.perform sup now choice call = some (answer, c')) : Lasts c.process c'.process := by
  cases call <;> simp only [RunControl.perform] at h <;> (repeat' split at h) <;>
    first
    | contradiction
    | (cases Option.some.inj h; exact ⟨id, id⟩)
    | (cases Option.some.inj h; exact ⟨id, fun _ => rfl⟩)

theorem performRoomy {now choice call} {c c' : RunControl} {answer : RunCall.Answer call}
    (h : c.perform sup now choice call = some (answer, c'))
    (unwritten : ∀ bytes purpose, call ≠ .stdinWrite bytes purpose) (room : c.process.Roomy sup) :
    c'.process.Roomy sup := by
  cases call with
  | stdinWrite bytes purpose => exact absurd rfl (unwritten bytes purpose)
  | awaitFlush =>
    simp only [RunControl.perform] at h
    split at h
    · contradiction
    · split at h
      · cases Option.some.inj h
        exact room
      · split at h
        · contradiction
        · rename_i closed
          cases Option.some.inj h
          exact fun reads => absurd reads closed
  | _ =>
    simp only [RunControl.perform] at h
    repeat' split at h
    all_goals first | contradiction | (cases Option.some.inj h; exact room)

theorem clearsUnknown {session token binding capture spec}
    (clears : Clears sup q (.spawnStructured session run token binding capture spec) m) :
    m.runs run = none := clears

theorem runLasts {o : Act} {choice} {answer : o.Answer} (effect : apply sup o choice m = some (answer, m'))
    (clears : Clears sup q o m) {control} (found : m.runs run = some control) :
    ∃ control', m'.runs run = some control' ∧ Lasts control.process control'.process ∧
      ((∀ bytes purpose, o ≠ .run run (.stdinWrite bytes purpose)) →
        control.process.Roomy sup → control'.process.Roomy sup) := by
  by_cases here : ∃ call, o = .run run call
  · obtain ⟨call, rfl⟩ := here
    obtain ⟨old, control', found', performed, rfl⟩ := applyRun effect
    cases Option.some.inj (found.symm.trans found')
    refine ⟨control', Function.update_self .., performLasts performed, fun unwritten room => ?_⟩
    exact performRoomy performed (fun bytes purpose same => unwritten bytes purpose (by rw [same])) room
  · refine ⟨control, ?_, ⟨id, id⟩, fun _ => id⟩
    rw [runsKept effect ?_ fun call same => here ⟨call, same⟩]
    · exact found
    · rintro session token binding capture spec rfl
      rw [clearsUnknown clears] at found
      cases found

theorem hereLasts {o : Act} {choice} {answer : o.Answer} {q q' other : Grip}
    (effect : apply sup o choice m = some (answer, m')) (clears : Clears sup q o m)
    (here : ReadyHere sup other m) (about : ∀ run, q'.about = some run → other.about = some run)
    (ready : ∀ p, other.Ready sup p → q'.Ready sup p)
    (unwritten : ∀ run bytes purpose, o = .run run (.stdinWrite bytes purpose) →
      q'.about = some run → q'.writes = none) : ReadyHere sup q' m' := by
  intro run same
  obtain ⟨control, found, before⟩ := here run (about run same)
  obtain ⟨control', found', lasts, room⟩ := runLasts effect clears found
  refine ⟨control', found', readyLasts lasts (fun roomy writes => ?_) (ready _ before)⟩
  exact room (fun bytes purpose eq => writes (unwritten run bytes purpose eq same)) roomy

theorem stillReady {o : Act} {choice} {answer : o.Answer} (effect : apply sup o choice m = some (answer, m'))
    (clears : Clears sup q o m) (here : ReadyHere sup q m)
    (unwritten : ∀ run bytes purpose, o ≠ .run run (.stdinWrite bytes purpose)) : ReadyHere sup q m' :=
  hereLasts effect clears here (fun _ => id) (fun _ => id) fun run bytes purpose same =>
    absurd same (unwritten run bytes purpose)

theorem failReady {p : Process} (ready : q.Ready sup p) : q.fail.Ready sup p := by
  cases q <;> first | exact ready | trivial

theorem aboutFail {r : RunId} (h : q.fail.about = some r) : q.about = some r := by
  cases q <;> exact h

theorem offerConsumed {buffer : Nat} {s : Stdin} {bytes : Bytes} :
    (s.offer buffer bytes).consumed = s.consumed := by
  unfold Stdin.offer Stdin.settle
  repeat' split
  all_goals rfl

theorem callReady {call : RunCall} {choice} {answer : call.Answer} (inv : (locking sup).Inv m)
    (here : (reaching sup).Here q m) (may : q.mayCall sup run call)
    (clears : Clears sup q (.run run call) m)
    (effect : apply sup (.run run call) choice m = some (answer, m')) :
    ReadyHere sup (q.afterCall run call answer) m' := by
  obtain ⟨control, control', found, performed, rfl⟩ := applyRun effect
  have found' : Function.update m.runs run (some control') run = some control' := Function.update_self ..
  have only : ∀ {q' : Grip}, q'.about = some run → q'.Ready sup control'.process →
      ReadyHere sup q' { m with runs := Function.update m.runs run (some control') } := by
    intro q' about ready r same
    cases Option.some.inj (about.symm.trans same)
    exact ⟨control', found', ready⟩
  have free : ∀ {m}, ReadyHere sup .free m := by rintro m r ⟨⟩
  have still := fun unwritten => stillReady effect clears here.2 unwritten
  have ended : ∀ {result}, control.process.outcome = some result → control'.process.outcome ≠ none := by
    intro result exited
    refine (performLasts performed).ended ?_
    rw [exited]
    exact Option.some_ne_none _
  have finished : q.Ends run → control'.process.outcome ≠ none → ReadyHere sup q.finish
      { m with runs := Function.update m.runs run (some control') } := by
    rintro (rfl | ⟨use, rfl⟩) exited
    · exact free
    · exact only rfl exited
  cases call with
  | swapStopRequested =>
    cases answer with
    | true => exact still (by simp)
    | false => exact only rfl trivial
  | lock use =>
    refine only rfl ?_
    cases use with
    | wait =>
      have ended : control.process.outcome ≠ none := clears control found
      exact (performLasts performed).ended ended
    | _ => trivial
  | unlock =>
    rcases may with rfl | ⟨use, rfl | rfl⟩
    · exact free
    · cases use <;> first | exact free | exact only rfl trivial
    · cases use <;> first | exact free | exact only rfl trivial
  | stdinWrite bytes purpose =>
    obtain ⟨rfl, _⟩ := may
    cases answer with
    | false => exact only rfl trivial
    | true =>
      refine only rfl ?_
      obtain ⟨hold, same, held⟩ := here.1 run rfl
      have sane := inv run hold same
      rw [holdFound found] at same
      cases Option.some.inj same
      simp only [RunControl.perform] at performed
      split at performed
      · cases performed
      · rename_i stdin present
        cases performed
        rintro reads _ ⟨⟩
        have drained := sane.drained held.flushing stdin present
        rw [offerUnsent drained, List.length_append]
        have room : stdin.unsent.length + bytes.length ≤ stdin.free sup.pipeCapacity :=
          clears control found reads stdin present
        have sent : (stdin.offer sup.stdinBuffer bytes).free sup.pipeCapacity =
            stdin.free sup.pipeCapacity := by
          unfold Stdin.free
          rw [offerSent, offerConsumed]
        rw [sent]
        exact room
  | awaitFlush => 
    obtain ⟨bytes, rfl⟩ := may
    exact only rfl trivial
  | completedResult =>
    cases answer with
    | none => exact still (by simp)
    | some result => exact finished may (ended (congrArg Prod.fst (Option.some.inj performed)))
  | waitWithin =>
    cases answer with
    | none => exact still (by simp)
    | some result => exact finished may (ended (congrArg Prod.fst (Option.some.inj performed)))
  | waitExit =>
    simp only [RunControl.perform] at performed
    split at performed
    · contradiction
    · rename_i result exited
      cases Option.some.inj performed
      have exited : control.process.outcome ≠ none := by
        rw [exited]
        exact Option.some_ne_none _
      rcases may with rfl | rfl | ⟨use, rfl⟩
      · exact free
      · exact only rfl exited
      · exact only rfl exited
  | signalGroup =>
    cases answer with
    | ok => exact still (by simp)
    | error error =>
      exact hereLasts effect clears here.2 (fun _ => aboutFail) (fun _ => failReady) (by simp)
  | sealGroup =>
    cases answer with
    | error error =>
      exact hereLasts effect clears here.2 (fun _ => aboutFail) (fun _ => failReady) (by simp)
    | ok =>
      have sealed : control'.process.sealed = true := by
        simp only [RunControl.perform] at performed
        split at performed <;> cases performed
        rfl
      rcases may with rfl | ⟨use, rfl⟩
      · exact free
      · exact only rfl sealed
  | _ => exact still (by simp)

theorem clearsKnown {o : Act} (clears : Clears sup q o m) : Unknown q o m := by
  cases o <;> trivial

theorem actReady {o : Act} {choice} {answer : o.Answer} (inv : (locking sup).Inv m)
    (here : (reaching sup).Here q m) (may : q.may sup o) (clears : Clears sup q o m)
    (effect : apply sup o choice m = some (answer, m')) : ReadyHere sup (q.after o answer) m' := by
  cases o with
  | run run call => exact callReady inv here may clears effect
  | session session call =>
    cases call with
    | publish =>
      cases answer with
      | error error =>
        exact hereLasts effect clears here.2 (fun _ => aboutFail) (fun _ => failReady) (by simp)
      | ok _ => exact stillReady effect clears here.2 (by simp)
    | _ => exact stillReady effect clears here.2 (by simp)
  | _ => exact stillReady effect clears here.2 (by simp)

theorem pumpConsumed {capacity buffer count : Nat} {s s' : Stdin}
    (h : s.pump capacity buffer count = some s') : s'.consumed = s.consumed := by
  simp only [Stdin.pump] at h
  split at h
  · cases Option.some.inj h
    unfold Stdin.settle
    split <;> rfl
  · contradiction

theorem outsideLasts {x} {p p' : Process} (h : p.outside sup x = some p') :
    Lasts p p' ∧ (p.Roomy sup → p'.Roomy sup) := by
  cases x with
  | tick => cases h
  | pump r count =>
    simp only [Process.outside] at h
    split at h
    · obtain ⟨stdin, present, rest⟩ := Option.bind_eq_some_iff.mp h
      obtain ⟨pumped, pump, last⟩ := Option.bind_eq_some_iff.mp rest
      cases Option.some.inj last
      refine ⟨⟨id, id⟩, fun room reads => ?_⟩
      rintro _ ⟨⟩
      have fits : stdin.unsent.length ≤ stdin.free sup.pipeCapacity := room reads stdin present
      obtain ⟨sent, unsent⟩ := pumpSent pump
      have consumed := pumpConsumed pump
      simp only [Stdin.free] at fits ⊢
      rw [unsent, sent, consumed, List.length_drop, List.length_append, List.length_take]
      omega
    · contradiction
  | childReads r count =>
    simp only [Process.outside] at h
    obtain ⟨stdin, present, rest⟩ := Option.bind_eq_some_iff.mp h
    split at rest
    · cases Option.some.inj rest
      refine ⟨⟨id, id⟩, fun room reads => ?_⟩
      rintro _ ⟨⟩
      have fits : stdin.unsent.length ≤ stdin.free sup.pipeCapacity := room reads stdin present
      simp only [Stdin.free, Stdin.unsent] at fits ⊢
      omega
    · contradiction
  | childClosesStdin r =>
    cases Option.some.inj h
    exact ⟨⟨id, id⟩, fun _ reads => by cases reads⟩
  | childExits r outcome =>
    simp only [Process.outside] at h
    split at h
    · contradiction
    · cases Option.some.inj h
      exact ⟨⟨fun _ => Option.some_ne_none _, id⟩, fun _ reads => by cases reads⟩

theorem outsideReady {x} (effect : outside sup x m = some m') (here : ReadyHere sup q m) :
    ReadyHere sup q m' := by
  rcases outsideCases effect with ⟨_, _, rfl⟩ | ⟨r, control, process, _, found, stepped, rfl⟩
  · exact here
  · intro run about
    obtain ⟨old, found', ready⟩ := here run about
    by_cases same : run = r
    · subst same
      cases Option.some.inj (found.symm.trans found')
      have kept := outsideLasts stepped
      exact ⟨_, Function.update_self .., readyLasts kept.1 (fun room _ => kept.2 room) ready⟩
    · exact ⟨old, (Function.update_of_ne same ..).trans found', ready⟩

theorem reachingValid : (reaching sup).Valid (Clears sup) where
  symm := lockingValid.symm
  call callable inv := by
    have entered := lockingValid.call callable inv
    exact ⟨⟨entered.1, by rintro run ⟨⟩⟩, fun other here => entered.2 other here.1⟩
  outside inv effect := by
    have kept := outsideHold inv effect
    exact ⟨kept.1, fun q here => ⟨kept.2 q here.1, outsideReady effect here.2⟩⟩
  act := by
    intro q o choice m answer m' inv here may clears effect
    have kept := lockingValid.act inv here.1 may (clearsKnown clears) effect
    refine ⟨kept.inv, ⟨kept.here, actReady inv here may clears effect⟩, ?_, ?_⟩
    · intro e spawns
      have entered := kept.entered e spawns
      exact ⟨⟨entered.1, by rintro run ⟨⟩⟩, entered.2⟩
    · intro other otherHere apart
      have others := kept.others other otherHere.1 apart
      refine ⟨⟨others.1, ?_⟩, others.2⟩
      refine hereLasts effect clears otherHere.2 (fun _ => id) (fun _ => id) ?_
      rintro run bytes purpose rfl about
      obtain ⟨rfl, _⟩ := may
      by_contra writes
      have holds : other.about = other.holds := by
        cases other <;> first | rfl | exact absurd rfl writes
      exact apart run rfl (holds.symm.trans about)

abbrev ClearRun (sup : Supervisor) : Config (machine sup) → Prop := Reach StopsClear (initially sup)

theorem performsClear {c : Config (machine sup)} {index choice t o answer memory next}
    (good : StopsClear c (.run index choice))
    (performs : Performs c index choice t o answer memory next) :
    ((locks sup).place t).clear sup choice c.memory o = true := by
  unfold StopsClear at good
  simpa [performs.present, performsNext performs] using good

theorem reachStoppable {Good : Config (machine sup) → Event (machine sup) → Prop} {c}
    (h : Reach Good (initially sup) c) : Stoppable c := by
  induction h with
  | start =>
    intro run control found
    cases found
  | step before _ moves ih =>
    exact movesStoppable ih (reachPlaced locksSound (by simp [initially]) before) moves

def Act.Fails : (o : Act) → o.Answer → Prop
  | .run _ .signalGroup, .error _ | .run _ .sealGroup, .error _ | .session _ (.publish ..), .error _ => True
  | _, _ => False

def Grip.Done (run : RunId) (q : Grip) : Prop := q = .failed run .stop ∨ q = .stopped run

theorem doneSource {o : Act} {answer : o.Answer} (may : q.may sup o) (done : (q.after o answer).Done run) :
    q.Done run ∨ q = .exited run .stop ∨ (q.stops ≠ none ∧ o.Fails answer) := by
  have failed : q.fail.Done run → q.Done run ∨ q.stops ≠ none := by
    intro done
    cases q with
    | holding r use => cases use <;> first | exact .inr (Option.some_ne_none _) | exact .inl done | skip
                       all_goals rcases done with same | same <;> cases same
    | stopping r => exact .inr (Option.some_ne_none _)
    | _ => exact .inl done
  have finished : q.finish.Done run → q.Done run := by
    intro done
    cases q <;> first | exact done | (rcases done with same | same <;> cases same)
  have killed : q.kill.Done run → q.Done run := by
    intro done
    cases q <;> first | exact done | (rcases done with same | same <;> cases same)
  cases o with
  | session s call =>
    cases call with
    | publish =>
      cases answer with
      | error => exact (failed done).imp_right fun stops => .inr ⟨stops, trivial⟩
      | ok => exact .inl done
    | _ => exact .inl done
  | run r call =>
    cases call with
    | swapStopRequested =>
      cases answer with
      | true => exact .inl done
      | false => rcases done with same | same <;> cases same
    | lock use => rcases done with same | same <;> cases same
    | unlock =>
      rcases may with rfl | ⟨use, rfl | rfl⟩
      · rcases done with same | same <;> cases same
      · cases use <;> rcases done with same | same <;> cases same
        exact .inr (.inl rfl)
      · cases use <;> rcases done with same | same <;> cases same
        exact .inl (.inl rfl)
    | stdinWrite =>
      cases answer with
      | true => rcases done with same | same <;> cases same
      | false => exact .inl done
    | awaitFlush => rcases done with same | same <;> cases same
    | completedResult => cases answer <;> first | exact .inl done | exact .inl (finished done)
    | waitWithin => cases answer <;> first | exact .inl done | exact .inl (finished done)
    | waitExit => exact .inl (finished done)
    | signalGroup =>
      cases answer with
      | error => exact (failed done).imp_right fun stops => .inr ⟨stops, trivial⟩
      | ok => exact .inl done
    | sealGroup =>
      cases answer with
      | error => exact (failed done).imp_right fun stops => .inr ⟨stops, trivial⟩
      | ok => exact .inl (killed done)
    | _ => exact .inl done
  | _ => exact .inl done

theorem clearSucceeds {o : Act} {choice} {answer : o.Answer} (clear : q.clear sup choice m o = true)
    (stops : q.stops ≠ none) (effect : apply sup o choice m = some (answer, m')) : ¬ o.Fails answer := by
  intro fails
  cases o with
  | session s call =>
    cases call with
    | publish run source event =>
      cases answer with
      | ok => exact fails
      | error error =>
        obtain ⟨record, record', found, performed, _⟩ := applySession effect
        simp only [Grip.clear, found, Option.all_some, Bool.or_eq_true, beq_iff_eq, stops, false_or] at clear
        simp only [SessionRecord.perform] at performed
        split at performed
        · rename_i exhausted
          rw [exhausted] at clear
          cases clear
        · cases performed
    | _ => exact fails
  | run r call =>
    obtain ⟨control, control', found, performed, _⟩ := applyRun effect
    cases call with
    | signalGroup =>
      simp only [Grip.clear, Bool.or_eq_true, beq_iff_eq, stops, false_or] at clear
      simp only [RunControl.perform] at performed
      split at performed
      · cases performed
        exact fails
      · cases clear
      · cases performed
    | sealGroup =>
      simp only [Grip.clear, Bool.or_eq_true, beq_iff_eq, stops, false_or] at clear
      simp only [RunControl.perform] at performed
      split at performed
      · cases performed
        exact fails
      · cases clear
      · cases performed
    | _ => exact fails
  | _ => exact fails

def Exited (c : Config (machine sup)) (run : RunId) : Prop :=
  ∃ control, c.memory.runs run = some control ∧ control.process.outcome ≠ none

theorem exitedMoves {c : Config (machine sup)} {e c'} (moves : Moves c e c')
    (clears : ∀ {index choice t o answer memory next}, e = .run index choice →
      Performs c index choice t o answer memory next → Clears sup ((locks sup).place t) o c.memory)
    (exited : Exited c run) : Exited c' run := by
  obtain ⟨control, found, ended⟩ := exited
  cases moves with
  | call => exact ⟨control, found, ended⟩
  | act performs =>
    obtain ⟨control', found', lasts, _⟩ := runLasts performs.effect (clears rfl performs) found
    exact ⟨control', found', lasts.ended ended⟩
  | outside effect =>
    rcases outsideCases effect with ⟨_, _, rfl⟩ | ⟨r, old, process, _, found', stepped, rfl⟩
    · exact ⟨control, found, ended⟩
    · by_cases same : run = r
      · subst same
        cases Option.some.inj (found.symm.trans found')
        exact ⟨_, Function.update_self .., (outsideLasts stepped).1.ended ended⟩
      · exact ⟨control, (Function.update_of_ne same ..).trans found, ended⟩

theorem clearClears {c : Config (machine sup)} {index choice t o answer memory next}
    (before : ClearRun sup c) (good : StopsClear c (.run index choice))
    (performs : Performs c index choice t o answer memory next) :
    Clears sup ((locks sup).place t) o c.memory := by
  have clear := performsClear good performs
  cases o with
  | spawnStructured => exact spawnsUnknown (reachLineage before) performs
  | run run call =>
    cases call with
    | stdinWrite bytes purpose =>
      intro control found reads stdin present
      simpa [Grip.clear, found, reads, present] using clear
    | lock use =>
      cases use with
      | wait =>
        intro control found
        simp only [Grip.clear, found, Option.all_some] at clear
        exact Option.isSome_iff_ne_none.mp clear
      | _ => trivial
    | _ => trivial
  | _ => trivial

theorem reachReaching {c} (h : ClearRun sup c) : (reaching sup).Holds c := by
  have first : (reaching sup).Holds (initially sup) :=
    Outline.holdsEmpty fun run hold found => by cases found
  exact Outline.reachHolds locksSound reachingValid first
    (fun before _ good performs => clearClears before good performs) h

theorem reachDone {c} (h : ClearRun sup c) {run} : ∀ t ∈ c.tasks, ((locks sup).place t).Done run →
    Exited c run := by
  induction h with
  | start => simp [initially]
  | @step c e c' before good moves ih =>
    have lasts : Exited c run → Exited c' run := exitedMoves moves fun same performs =>
      clearClears before (same ▸ good) performs
    have free : ∀ {e}, ((locks sup).place (Task.enter e)).Done run → Exited c' run := by
      rintro e (same | same) <;> cases same
    intro t member done
    cases moves with
    | call allowed =>
      rcases List.mem_append.mp member with old | new
      · exact lasts (ih t old done)
      · cases List.mem_singleton.mp new
        exact free done
    | @act index choice u o answer memory next performs =>
      obtain ⟨j, found⟩ := List.getElem?_of_mem member
      rcases taskCases found with ⟨_, rfl⟩ | ⟨_, old⟩ | ⟨_, e, _, rfl⟩
      · have holds := reachReaching before
        have obeys := performsObeys locksSound holds.placed performs
        rw [obeys.reached] at done
        rcases doneSource obeys.allowed done with still | exited | ⟨stops, fails⟩
        · exact lasts (ih u (List.mem_of_getElem? performs.present) still)
        · have here := (holds.here performs.present).2
          rw [exited] at here
          exact lasts (here run rfl)
        · exact absurd fails (clearSucceeds (performsClear good performs) stops performs.effect)
      · exact lasts (ih t (List.mem_of_getElem? old) done)
      · exact free done
    | outside => exact lasts (ih t member done)

theorem endedGrip {t : Task (machine sup)} (placed : (locks sup).Placed t) (ended : t.Ended) :
    (locks sup).place t = .free ∨ ∃ run, (locks sup).place t = .stopped run := by
  obtain ⟨last, rest⟩ := ended
  unfold Placed at placed
  rw [rest] at placed
  cases last with
  | none => exact placed
  | some e => exact .inl placed

end Reaching

section Starved

/-! The child closes both of its outputs and lives on: its supervisor waits for its exit
with the lock of the process. -/

def closedTurns : List (Event (machine (plain []))) :=
  startTurns 0 ++ turns 1 1 ++ turn 1 (.stream (.data [])) ++ turn 3 (.stream (.data [])) ++
    turns 3 1 ++ turns 1 2

def waitsHere (t : Task (machine (plain []))) : Bool :=
  ((locks _).place t).holds == some 2 && (match t.next with
    | some (.run 2 .waitExit) => true
    | _ => false)

theorem waitsHereWaits {t} (h : waitsHere t = true) :
    ((locks _).place t).holds = some 2 ∧ t.next = some (.run 2 .waitExit) := by
  simp only [waitsHere, Bool.and_eq_true, beq_iff_eq] at h
  refine ⟨h.1, ?_⟩
  have next := h.2
  split at next
  · assumption
  · cases next

def aliveHere (c : Config (machine (plain []))) : Bool := (c.memory.runs 2).any fun control =>
  control.process.outcome.isNone && !control.process.sealed

theorem closedRun : (runFrom (initially _) closedTurns).map (fun c =>
    aliveHere c && c.tasks.any waitsHere) = some true := by decide +kernel

def stoppingTurns : List (Event (machine (plain []))) :=
  startTurns 0 ++ [.call (.stop 0 2)] ++ turns 3 6

def stoppingView (c : Config (machine (plain []))) : Bool := (c.memory.runs 2).any fun control =>
  control.process.outcome.isNone && control.stopRequested

theorem stoppingRun : (goodRun StopsClear (initially _) stoppingTurns).map stoppingView =
    some true := by decide +kernel

end Starved
end Maestro.Session
