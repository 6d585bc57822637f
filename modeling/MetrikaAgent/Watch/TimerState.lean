/-
The timer loop against the specification's watcher machine.

`run_state` shows that a run of calls on a `Watch` refines the machine.  A started
`TimerWatch` is two threads, its timer goroutine and the user calling `Stop()`, and the
theorem this file exists for is `timerLoop_state`: every interleaving of the two refines
the machine too.  The goroutine's own steps (the timer firing, the `select`, each send of
`Emit`, taking the stop value) are stuttering steps that leave the state alone, the loop
going round completes one `Emit(0)` call, and `Stop()` is the machine's `stop`; the
machine starts from the `Start` that launched the goroutine.
-/
import MetrikaAgent.Watch.TimerLoop
import MetrikaAgent.Watch.Lifecycle

namespace MetrikaAgent
namespace Watch

variable {χ : Type}

/-- The call of the machine a step completes, if any. -/
def Step.call? : Step → Option (Call χ Nat)
  | .stop => some .stop
  | .loopBack => some (.emit 0)
  | _ => none

/-- One step moves the machine as the call it completes does. -/
theorem step_state {s s' : Loop χ} {e : List (Event χ Nat)} {l : Step}
    (h : step s l = some (s', e)) :
    s'.tw.toWatch.state = ((l.call? : Option (Call χ Nat)).toList.foldl WatcherState.next
      s.tw.toWatch.state) := by
  by_cases hl : l = .stop
  · subst hl
    simp only [step, Watcher.stop, Watch.stop, Option.map_map] at h
    split_ifs at h with hrun
    · cases h
      simp only [Bool.not_eq_eq_eq_not, Bool.not_true] at hrun
      cases hos : s.tw.startOnce <;> simp [Step.call?, state, hrun, hos, WatcherState.next]
    · cases h
      simp only [Bool.not_eq_true', Bool.not_eq_false] at hrun
      cases hos : s.tw.startOnce <;> simp [Step.call?, state, hrun, hos, WatcherState.next]
    · simp at h
  · have hsame : s'.tw.toWatch.state = s.tw.toWatch.state := by
      rw [(step_frame hl h).1]
      rfl
    cases l <;> first | exact absurd rfl hl | simp [Step.call?, hsame, WatcherState.next_emit]

theorem started_state (conf : TimerWatchConf) (ls : List χ) :
    (started conf ls).tw.toWatch.state = .running := by
  simp [state]

/-- Every interleaving of a started `TimerWatch`'s timer loop with `Stop()` refines the
specification's watcher machine: its state is the machine's after `Start`, then, in order,
one `Emit(0)` for each time the loop went round and one `stop` for each `Stop()`. -/
theorem timerLoop_state {conf : TimerWatchConf} {ls : List χ} {labels : List Step}
    {s : Loop χ} {evs : List (Event χ Nat)}
    (h : runSteps step (started conf ls) labels = some (s, evs)) :
    s.tw.toWatch.state =
      ((.start : Call χ Nat) :: labels.filterMap Step.call?).foldl WatcherState.next .created :=
  runSteps_induction
    (fun labels s _ => s.tw.toWatch.state =
      ((.start : Call χ Nat) :: labels.filterMap Step.call?).foldl WatcherState.next .created)
    (started_state conf ls)
    (fun _ _ _ l _ _ ih hs => by
      dsimp only at ih ⊢
      rw [step_state hs, ih, List.filterMap_append, List.foldl_cons, List.foldl_cons,
        List.foldl_append]
      cases l <;> rfl)
    h

theorem timerLoop_state_round_then_stop :
    ∃ s evs, runSteps step (started ⟨TimerWatch.second⟩ [()])
        [.fire, .takeTimer, .send, .loopBack, .stop, .takeStop] = some (s, evs) ∧
      s.tw.toWatch.state =
        ((.start : Call Unit Nat) :: [Step.fire, .takeTimer, .send, .loopBack, .stop,
          .takeStop].filterMap Step.call?).foldl WatcherState.next .created :=
  ⟨_, _, rfl, @timerLoop_state Unit ⟨TimerWatch.second⟩ [()]
    [.fire, .takeTimer, .send, .loopBack, .stop, .takeStop] _ _ rfl⟩

end Watch
end MetrikaAgent
