/-
The `watch` package: a `Watch` with a start/stop lifecycle and a list of listeners, and the
`TimerWatch` built on it.

A watcher's fields are the state.  What a call does beyond them is an event: a hook called
(`StartFn`, `StopFn`), a value sent on `StopKey` or to a listener, the timer goroutine
started.  A call returns the watcher after it and its events, or `none` where it blocks
forever, which is a send on a full `StopKey`.  The hooks are arbitrary functions, so only
their calls are modelled.  `χ` identifies a listener, a `chan<- interface{}`, and `μ` is
what is sent to it.
-/
import MetrikaAgent.Run

namespace MetrikaAgent

/-- A `Watch`.  `startOnce` is its `sync.Once`, as whether `Do` has run. -/
structure Watch (χ μ : Type) where
  running : Bool
  stopKey : List Bool
  startOnce : Bool
  listeners : List χ

namespace Watch

variable {χ μ : Type}

/-- What a watcher call does outside the watcher's fields: the body of `StartUnsafe` running,
a hook called, a send on or a receive from `StopKey`, the timer goroutine launched, or
`handler <- message` to the listener at index `slot`. -/
inductive Event (χ μ : Type) where
  | startUnsafe
  | startFn
  | stopFn
  | stopKeySend
  | stopKeyRecv
  | timerLoop
  | send (slot : Nat) (handler : χ) (message : μ)
  deriving DecidableEq

def stopKeyCap : Nat := 1

/-- `NewWatch()`; the hooks are no-ops there, and any hooks are allowed here. -/
def newWatch : Watch χ μ := ⟨false, [], false, []⟩

def startUnsafe (w : Watch χ μ) : Watch χ μ × List (Event χ μ) :=
  ({ w with running := true }, [.startUnsafe])

/-- `Stop`: nothing unless running; otherwise clear `Running`, call `StopFn`, and send on
`StopKey`, which blocks for good when the buffer is full. -/
def stop (w : Watch χ μ) : Option (Watch χ μ × List (Event χ μ)) :=
  if !w.running then some (w, [])
  else if w.stopKey.length < stopKeyCap then
    some ({ w with running := false, stopKey := w.stopKey ++ [true] }, [.stopFn, .stopKeySend])
  else none

def subscribe (w : Watch χ μ) (handler : χ) : Watch χ μ :=
  { w with listeners := w.listeners ++ [handler] }

/-- `Emit`: one send per listener, in order, each of which completes. -/
def emit (w : Watch χ μ) (message : μ) : List (Event χ μ) :=
  w.listeners.enum.map fun p => .send p.1 p.2 message

end Watch

/-- `TimerWatchConf`; `Interval` is a `time.Duration` in nanoseconds. -/
structure TimerWatchConf where
  interval : Int

structure TimerWatch (χ μ : Type) extends TimerWatchConf, Watch χ μ

namespace TimerWatch

open Watch

variable {χ μ : Type}

def second : Int := 1000000000

/-- `NewTimerWatch`: a non-positive interval becomes one second. -/
def newTimerWatch (conf : TimerWatchConf) : TimerWatch χ μ :=
  let w : TimerWatch χ μ := { toTimerWatchConf := conf, toWatch := newWatch }
  if w.interval < 1 then { w with interval := second } else w

/-- `StartUnsafe`: the `Watch`'s, then `go w.timerLoop()`. -/
def startUnsafe (w : TimerWatch χ μ) : TimerWatch χ μ × List (Event χ μ) :=
  let r := w.toWatch.startUnsafe
  ({ w with toWatch := r.1 }, r.2 ++ [.timerLoop])

end TimerWatch

/-- The `Watcher` interface, and `Emit`, which both watchers have through `Watch`.  `once`
is whether the `sync.Once` that `once()` returns has run, `markOnce` marks it. -/
class Watcher (τ : Type) (χ μ : outParam Type) where
  startUnsafe : τ → τ × List (Watch.Event χ μ)
  stop : τ → Option (τ × List (Watch.Event χ μ))
  subscribe : τ → χ → τ
  emit : τ → μ → List (Watch.Event χ μ)
  once : τ → Bool
  markOnce : τ → τ

namespace Watch

variable {τ χ μ : Type}

instance : Watcher (Watch χ μ) χ μ where
  startUnsafe := Watch.startUnsafe
  stop := Watch.stop
  subscribe := Watch.subscribe
  emit := Watch.emit
  once w := w.startOnce
  markOnce w := { w with startOnce := true }

instance : Watcher (TimerWatch χ μ) χ μ where
  startUnsafe := TimerWatch.startUnsafe
  stop w := w.toWatch.stop.map fun r => ({ w with toWatch := r.1 }, r.2)
  subscribe w h := { w with toWatch := w.toWatch.subscribe h }
  emit w := w.toWatch.emit
  once w := w.startOnce
  markOnce w := { w with startOnce := true }

/-- `Start`: `watcher.once().Do(watcher.StartUnsafe)`. -/
def start [Watcher τ χ μ] (w : τ) : τ × List (Event χ μ) :=
  if Watcher.once w then (w, [])
  else
    let r := Watcher.startUnsafe w
    (Watcher.markOnce r.1, r.2)

inductive Call (χ μ : Type) where
  | start
  | stop
  | subscribe (handler : χ)
  | emit (message : μ)
  deriving DecidableEq

def exec [Watcher τ χ μ] (w : τ) : Call χ μ → Option (τ × List (Event χ μ))
  | .start => some (start w)
  | .stop => Watcher.stop w
  | .subscribe h => some (Watcher.subscribe w h, [])
  | .emit m => some (w, Watcher.emit w m)

/-- The calls made one at a time, each returning before the next. -/
def run [Watcher τ χ μ] (w : τ) (calls : List (Call χ μ)) : Option (τ × List (Event χ μ)) :=
  runSteps exec w calls

/-! ## A `TimerWatch` runs as its `Watch`

Every call but `Start` goes to the embedded `Watch`, and `StartUnsafe` only adds the timer
goroutine; so a run of calls on a `TimerWatch` is the run on its `Watch`, with the
`timerLoop` event besides. -/

def notTimerLoop (e : Event χ μ) : Bool := !(e matches .timerLoop)

theorem exec_toWatch (w : TimerWatch χ μ) (c : Call χ μ) :
    (exec w c).map (fun r => (r.1.toWatch, r.2.filter notTimerLoop)) = exec w.toWatch c := by
  cases c with
  | start =>
    simp only [exec, start, Watcher.once, Watcher.startUnsafe, Watcher.markOnce,
      TimerWatch.startUnsafe, Watch.startUnsafe]
    split <;> simp [notTimerLoop]
  | stop =>
    simp only [exec, Watcher.stop, Option.map_map, Watch.stop]
    split_ifs <;> simp [notTimerLoop]
  | subscribe h => rfl
  | emit m =>
    simp only [exec, Watcher.emit, Option.map_some', Watch.emit, Option.some.injEq,
      Prod.mk.injEq, true_and]
    exact List.filter_eq_self.2 fun e he => by obtain ⟨_, _, rfl⟩ := List.mem_map.1 he; rfl

/-- A run of calls on a `TimerWatch` is the run on its `Watch`, less the `timerLoop` event. -/
theorem run_toWatch (w : TimerWatch χ μ) (calls : List (Call χ μ)) :
    (run w calls).map (fun r => (r.1.toWatch, r.2.filter notTimerLoop)) = run w.toWatch calls :=
  runSteps_map _ _ exec_toWatch w calls

@[simp] theorem newTimerWatch_toWatch (conf : TimerWatchConf) :
    (TimerWatch.newTimerWatch conf : TimerWatch χ μ).toWatch = newWatch := by
  simp only [TimerWatch.newTimerWatch]
  split <;> rfl

/-! ## One call on a `Watch` -/

section Exec

variable (w : Watch χ μ)

theorem exec_start_of_once (h : w.startOnce = true) : exec w .start = some (w, []) := by
  simp [exec, start, Watcher.once, h]

theorem exec_start_of_not_once (h : w.startOnce = false) :
    exec w .start = some ({ w with running := true, startOnce := true }, [.startUnsafe]) := by
  simp [exec, start, Watcher.once, Watcher.startUnsafe, Watcher.markOnce, Watch.startUnsafe, h]

theorem exec_stop_of_not_running (h : w.running = false) : exec w .stop = some (w, []) := by
  simp [exec, Watcher.stop, Watch.stop, h]

theorem exec_stop_of_running (h : w.running = true) (hk : w.stopKey = []) :
    exec w .stop = some ({ w with running := false, stopKey := [true] },
      [.stopFn, .stopKeySend]) := by
  simp [exec, Watcher.stop, Watch.stop, h, hk, stopKeyCap]

theorem exec_subscribe (h : χ) : exec w (.subscribe h) = some (w.subscribe h, []) := rfl

theorem exec_emit (m : μ) : exec w (.emit m) = some (w, w.emit m) := rfl

theorem mem_emit {m : μ} {e : Event χ μ} (he : e ∈ w.emit m) : ∃ k h, e = .send k h m := by
  obtain ⟨p, -, rfl⟩ := List.mem_map.1 he
  exact ⟨p.1, p.2, rfl⟩

end Exec

end Watch
end MetrikaAgent
