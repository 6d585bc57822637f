/-
The timer goroutine of a started `TimerWatch`, interleaved with the user's `Stop()`.

`timerLoop` waits in a `select` for the interval to elapse or for a value on `StopKey`.  On
the interval it calls `Emit(0)`, which sends to each listener in turn, then loops with a
fresh `time.After`; on `StopKey` it returns.  The state is the `TimerWatch` and where the
goroutine is, and a step is one atomic action of either thread: the timer firing, the
`select` taking a ready case, one send of `Emit` completing (its listener receiving), the
loop going round, or `Stop()`.

Go's `select` takes a random case among those ready when it runs.  A `select` blocked with
no case ready is woken by the first that becomes ready; the steps below let it take either
ready case later as well, so they allow every run Go allows, and more.  The safety results
hold for all of them: the sends come in whole rounds of `Emit(0)` (`timerLoop_rounds`), and
none follows the loop taking the stop value (`timerLoop_stop`).  The run
`fire_takeTimer_stop_send` that refutes "no send after `Stop`" is one Go takes when `Stop()`
is called while `Emit` waits on a slow listener.
-/
import MetrikaAgent.Watch.Basic

namespace MetrikaAgent
namespace Watch

variable {χ : Type}

/-- Where the timer goroutine is: in the `select` (`fired` once `time.After` has delivered),
in `Emit(0)` with the send to listener `slot` next, or returned. -/
inductive Pc where
  | select (fired : Bool)
  | emit (slot : Nat)
  | exited
  deriving DecidableEq

/-- A started `TimerWatch` and its timer goroutine.  `Emit(0)` sends the `int` zero. -/
structure Loop (χ : Type) where
  tw : TimerWatch χ Nat
  pc : Pc

/-- The atomic actions of the timer goroutine and of the user; `loopBack` is `Emit` returning
after its last send, back to the `select` with a new timer. -/
inductive Step where
  | fire
  | takeTimer
  | takeStop
  | send
  | loopBack
  | stop
  deriving DecidableEq

def step (s : Loop χ) : Step → Option (Loop χ × List (Event χ Nat))
  | .fire =>
    match s.pc with
    | .select false => some ({ s with pc := .select true }, [])
    | _ => none
  | .takeTimer =>
    match s.pc with
    | .select true => some ({ s with pc := .emit 0 }, [])
    | _ => none
  | .takeStop =>
    match s.pc, s.tw.stopKey with
    | .select _, _ :: rest =>
      some (⟨{ s.tw with stopKey := rest }, .exited⟩, [.stopKeyRecv])
    | _, _ => none
  | .send =>
    match s.pc with
    | .emit k =>
      match s.tw.listeners[k]? with
      | some h => some ({ s with pc := .emit (k + 1) }, [.send k h 0])
      | none => none
    | _ => none
  | .loopBack =>
    match s.pc with
    | .emit k => if s.tw.listeners.length ≤ k then some ({ s with pc := .select false }, []) else none
    | _ => none
  | .stop => (Watcher.stop s.tw).map fun r => ({ s with tw := r.1 }, r.2)

/-- A `TimerWatch` made by `NewTimerWatch(conf)` with the listeners `ls` subscribed, then
started: its timer goroutine is at the `select`. -/
def started (conf : TimerWatchConf) (ls : List χ) : Loop χ :=
  ⟨(start (ls.foldl Watcher.subscribe (TimerWatch.newTimerWatch conf : TimerWatch χ Nat))).1,
    .select false⟩

theorem foldl_subscribe_toWatch (ls : List χ) (w : TimerWatch χ Nat) :
    (ls.foldl Watcher.subscribe w).toWatch = { w.toWatch with listeners := w.listeners ++ ls } := by
  induction ls generalizing w with
  | nil => simp
  | cons h ls ih =>
    simp only [List.foldl_cons, ih]
    simp [Watcher.subscribe, Watch.subscribe]

@[simp] theorem started_toWatch (conf : TimerWatchConf) (ls : List χ) :
    (started conf ls).tw.toWatch = ⟨true, [], true, ls⟩ := by
  have h := foldl_subscribe_toWatch ls (TimerWatch.newTimerWatch conf : TimerWatch χ Nat)
  rw [newTimerWatch_toWatch] at h
  simp only [started, start, Watcher.once, Watcher.startUnsafe, Watcher.markOnce,
    TimerWatch.startUnsafe, Watch.startUnsafe]
  simp [h, newWatch]

@[simp] theorem started_running (conf : TimerWatchConf) (ls : List χ) :
    (started conf ls).tw.running = true := congrArg Watch.running (started_toWatch conf ls)

@[simp] theorem started_stopKey (conf : TimerWatchConf) (ls : List χ) :
    (started conf ls).tw.stopKey = [] := congrArg Watch.stopKey (started_toWatch conf ls)

@[simp] theorem started_pc (conf : TimerWatchConf) (ls : List χ) :
    (started conf ls).pc = .select false := rfl

/-! ## `Emit` step by step is `Emit` -/

theorem sends_from (s : Loop χ) (j k : Nat) (hjk : k + j = s.tw.listeners.length) :
    runSteps step { s with pc := .emit k } (List.replicate j .send) =
      some ({ s with pc := .emit s.tw.listeners.length },
        (s.tw.listeners.enum.drop k).map fun p => .send p.1 p.2 0) := by
  induction j generalizing k with
  | zero =>
    obtain rfl : k = s.tw.listeners.length := by omega
    simp [List.enum]
  | succ j ih =>
    have hk : k < s.tw.listeners.length := by omega
    rw [List.replicate_succ, ← List.singleton_append, runSteps_append]
    have h₁ : runSteps step { s with pc := .emit k } [.send] =
        some ({ s with pc := .emit (k + 1) }, [.send k s.tw.listeners[k] 0]) := by
      simp only [runSteps_singleton, step, List.getElem?_eq_getElem hk]
    rw [h₁, Option.some_bind]
    simp only
    rw [ih (k + 1) (by omega)]
    simp [List.drop_eq_getElem_cons (by simpa using hk : k < s.tw.listeners.enum.length)]

/-- Run with no other step in between, the sends of `Emit(0)` are those of the atomic
`Watch.emit`, and the loop is back at its `select`. -/
theorem emit_steps (s : Loop χ) (hs : s.pc = .emit 0) :
    runSteps step s (List.replicate s.tw.listeners.length .send ++ [.loopBack]) =
      some ({ s with pc := .select false }, s.tw.toWatch.emit 0) := by
  have hs' : s = { s with pc := .emit 0 } := by cases s; cases hs; rfl
  rw [runSteps_append, hs', sends_from _ _ 0 (by simp)]
  simp [step, Watch.emit]

theorem emit_steps_one_listener :
    let s : Loop Unit := { started ⟨TimerWatch.second⟩ [()] with pc := .emit 0 }
    s.pc = .emit 0 ∧
      runSteps step s (List.replicate s.tw.listeners.length .send ++ [.loopBack]) =
        some ({ s with pc := .select false }, s.tw.toWatch.emit 0) :=
  ⟨rfl, emit_steps _ rfl⟩

/-! ## Triggers go out in rounds

Only `send` sends, to the listener after the last one sent to, and only `loopBack` starts a
new round, once every listener has been sent to.  So the sends of any interleaving are whole
rounds of `Emit(0)`, then the first listeners of the round in progress. -/

def Event.isSend {μ : Type} : Event χ μ → Bool
  | .send .. => true
  | _ => false

/-- The sends of one `Emit(0)` to the listeners `ls`, in subscription order. -/
def round (ls : List χ) : List (Event χ Nat) := ls.enum.map fun p => .send p.1 p.2 0

def Pc.sent : Pc → Nat
  | .emit k => k
  | _ => 0

structure Rounds (ls : List χ) (s : Loop χ) (evs : List (Event χ Nat)) : Prop where
  listeners_eq : s.tw.listeners = ls
  sent_le : s.pc.sent ≤ ls.length
  sends_eq : ∃ r, evs.filter Event.isSend =
    (List.replicate r (round ls)).flatten ++ (round ls).take s.pc.sent

theorem rounds_started (conf : TimerWatchConf) (ls : List χ) : Rounds ls (started conf ls) [] :=
  ⟨congrArg Watch.listeners (started_toWatch conf ls), by simp [Pc.sent], ⟨0, by simp [Pc.sent]⟩⟩

/-- A step that sends nothing and leaves the listeners and the round in progress alone. -/
theorem Rounds.quiet {ls : List χ} {s s' : Loop χ} {evs e : List (Event χ Nat)}
    (hi : Rounds ls s evs) (hl : s'.tw.listeners = s.tw.listeners) (hpc : s'.pc.sent = s.pc.sent)
    (he : e.filter Event.isSend = []) : Rounds ls s' (evs ++ e) := by
  obtain ⟨r, hr⟩ := hi.sends_eq
  exact ⟨hl.trans hi.listeners_eq, hpc ▸ hi.sent_le, r, by
    rw [List.filter_append, he, List.append_nil, hr, hpc]⟩

theorem step_rounds {ls : List χ} {s s' : Loop χ} {evs e : List (Event χ Nat)}
    (hi : Rounds ls s evs) {l : Step} (h : step s l = some (s', e)) : Rounds ls s' (evs ++ e) := by
  cases l with
  | fire =>
    simp only [step] at h; split at h <;> cases h
    exact hi.quiet rfl (by simp_all [Pc.sent]) rfl
  | takeTimer =>
    simp only [step] at h; split at h <;> cases h
    exact hi.quiet rfl (by simp_all [Pc.sent]) rfl
  | takeStop =>
    simp only [step] at h; split at h <;> cases h
    exact hi.quiet rfl (by simp_all [Pc.sent]) rfl
  | stop =>
    simp only [step, Watcher.stop, Watch.stop, Option.map_map] at h
    split_ifs at h <;> cases h
    · simpa using hi
    · exact hi.quiet rfl rfl rfl
  | send =>
    simp only [step] at h; split at h <;> try cases h
    rename_i k hpc
    split at h <;> cases h
    rename_i v hv
    obtain ⟨r, hr⟩ := hi.sends_eq
    have hk : k < ls.length := by
      rw [← hi.listeners_eq]; exact (List.getElem?_eq_some_iff.1 hv).1
    have hnext : (round ls)[k]? = some (.send k v 0) := by
      rw [← hi.listeners_eq] at hk ⊢
      simp [round, List.getElem?_enum, hv]
    refine ⟨hi.listeners_eq, by simpa [Pc.sent] using hk, r, ?_⟩
    rw [List.filter_append, hr, hpc]
    simp [Pc.sent, Event.isSend, List.take_succ, hnext]
  | loopBack =>
    simp only [step] at h; split at h <;> try cases h
    rename_i k hpc
    split at h <;> cases h
    rename_i hlen
    obtain ⟨r, hr⟩ := hi.sends_eq
    have hk : k = ls.length := by
      have hle := hi.sent_le
      rw [hpc] at hle
      rw [hi.listeners_eq] at hlen
      exact Nat.le_antisymm hle hlen
    refine ⟨hi.listeners_eq, by simp [Pc.sent], r + 1, ?_⟩
    rw [List.append_nil, hr, hpc]
    simp [Pc.sent, List.replicate_succ', hk, List.take_of_length_le, round]

/-- Every interleaving of the timer loop with `Stop()` sends the triggers in rounds: some
number of whole `Emit(0)`s, each to every listener in subscription order, then the first
listeners of the `Emit` in progress. -/
theorem timerLoop_rounds {conf : TimerWatchConf} {ls : List χ} {labels : List Step}
    {s : Loop χ} {evs : List (Event χ Nat)}
    (h : runSteps step (started conf ls) labels = some (s, evs)) :
    ∃ r, evs.filter Event.isSend =
      (List.replicate r (round ls)).flatten ++ (round ls).take s.pc.sent :=
  (runSteps_induction (fun _ s evs => Rounds ls s evs) (rounds_started conf ls)
    (fun _ _ _ _ _ _ hi hs => step_rounds hi hs) h).sends_eq

theorem timerLoop_rounds_two_listeners :
    ∃ s evs, runSteps step (started ⟨TimerWatch.second⟩ [(), ()])
        [.fire, .takeTimer, .send, .send, .loopBack, .fire, .takeTimer, .send] = some (s, evs) ∧
      ∃ r, evs.filter Event.isSend =
        (List.replicate r (round [(), ()])).flatten ++ (round [(), ()]).take s.pc.sent :=
  ⟨_, _, rfl, @timerLoop_rounds Unit ⟨TimerWatch.second⟩ [(), ()]
    [.fire, .takeTimer, .send, .send, .loopBack, .fire, .takeTimer, .send] _ _ rfl⟩

/-! ## Stopping the loop -/

/-- At the `select`, a value on `StopKey` makes the stop case ready: the loop takes it
and returns. -/
theorem step_takeStop {s : Loop χ} {fired v : Bool} {rest : List Bool}
    (hpc : s.pc = .select fired) (hk : s.tw.stopKey = v :: rest) :
    step s .takeStop = some (⟨{ s.tw with stopKey := rest }, .exited⟩, [.stopKeyRecv]) := by
  simp [step, hpc, hk]

variable [DecidableEq χ]

/-- What holds of the system and its trace after any interleaving from `started`. -/
structure LoopInv (s : Loop χ) (evs : List (Event χ Nat)) : Prop where
  exited_iff : s.pc = .exited ↔ .stopKeyRecv ∈ evs
  running_iff : s.tw.running = true ↔ .stopKeySend ∉ evs
  stopKey_eq : s.tw.stopKey = if .stopKeySend ∈ evs ∧ .stopKeyRecv ∉ evs then [true] else []
  recv_after_send : Precedes .stopKeySend .stopKeyRecv evs
  no_send_after_recv : NoneAfter .stopKeyRecv Event.isSend evs

theorem loopInv_started (conf : TimerWatchConf) (ls : List χ) : LoopInv (started conf ls) [] :=
  ⟨by simp, by simp, by simp, precedes_nil _ _,
    noneAfter_of_not_mem (List.not_mem_nil _)⟩

theorem LoopInv.recv_not_mem {s : Loop χ} {evs : List (Event χ Nat)} (hi : LoopInv s evs)
    (hpc : s.pc ≠ .exited) : Event.stopKeyRecv ∉ evs :=
  fun h => hpc (hi.exited_iff.2 h)

/-- A step of the loop that changes only where it is, and emits what has no stop in it. -/
theorem LoopInv.move {s : Loop χ} {evs e : List (Event χ Nat)} (hi : LoopInv s evs)
    (hpc : s.pc ≠ .exited) (pc : Pc) (hpc' : pc ≠ .exited)
    (he : ∀ x ∈ e, x ≠ .stopKeyRecv ∧ x ≠ .stopKeySend) :
    LoopInv { s with pc := pc } (evs ++ e) := by
  have hr := hi.recv_not_mem hpc
  have hnr : Event.stopKeyRecv ∉ e := fun h => (he _ h).1 rfl
  have hns : Event.stopKeySend ∉ e := fun h => (he _ h).2 rfl
  refine ⟨by simp [hpc', hr, hnr], by simpa [hns] using hi.running_iff,
    by simpa [hns, hnr] using hi.stopKey_eq, hi.recv_after_send.append fun h => absurd h hnr,
    hi.no_send_after_recv.append (noneAfter_of_not_mem hnr) fun h => absurd h hr⟩

theorem step_loopInv {s s' : Loop χ} {evs e : List (Event χ Nat)} (hi : LoopInv s evs)
    {l : Step} (h : step s l = some (s', e)) : LoopInv s' (evs ++ e) := by
  cases l with
  | fire =>
    simp only [step] at h; split at h <;> cases h
    exact hi.move (by simp_all) _ (by simp) (by simp)
  | takeTimer =>
    simp only [step] at h; split at h <;> cases h
    exact hi.move (by simp_all) _ (by simp) (by simp)
  | send =>
    simp only [step] at h; split at h <;> try cases h
    split at h <;> cases h
    exact hi.move (by simp_all) _ (by simp) (by simp)
  | loopBack =>
    simp only [step] at h; split at h <;> try cases h
    split at h <;> cases h
    exact hi.move (by simp_all) _ (by simp) (by simp)
  | takeStop =>
    simp only [step] at h; split at h <;> cases h
    rename_i fired v rest hpc hk
    have hr := hi.recv_not_mem (by simp [hpc])
    have hcond : Event.stopKeySend ∈ evs ∧ Event.stopKeyRecv ∉ evs := by
      by_contra hc; have := hi.stopKey_eq; simp [hk, hc] at this
    have hrest : rest = [] := by have := hi.stopKey_eq; simp [hk, hcond] at this; exact this.2
    refine ⟨by simp, by simpa using hi.running_iff, by simp [hrest], ?_, ?_⟩
    · exact hi.recv_after_send.append fun _ => hcond.1
    · exact hi.no_send_after_recv.append (noneAfter_singleton _ _) fun h => absurd h hr
  | stop =>
    simp only [step, Watcher.stop, Watch.stop, Option.map_map] at h
    split_ifs at h with hrun hcap
    · cases h; simpa using hi
    · cases h
      have hs : Event.stopKeySend ∉ evs := hi.running_iff.1 (by simpa using hrun)
      have hr : Event.stopKeyRecv ∉ evs := fun h => hs (by
        obtain ⟨pre, post, rfl⟩ := List.append_of_mem h
        exact List.mem_append_left _ (hi.recv_after_send pre post rfl))
      have hk : s.tw.stopKey = [] := by simpa [hs] using hi.stopKey_eq
      refine ⟨by simpa using hi.exited_iff, by simp, by simp [hr, hk], ?_, ?_⟩
      · exact hi.recv_after_send.append fun h => by simp at h
      · exact hi.no_send_after_recv.append (noneAfter_of_not_mem (by simp)) fun h => absurd h hr
    · simp at h

theorem run_loopInv {conf : TimerWatchConf} {ls : List χ} {labels : List Step} {s : Loop χ}
    {evs : List (Event χ Nat)} (h : runSteps step (started conf ls) labels = some (s, evs)) :
    LoopInv s evs :=
  runSteps_induction (fun _ s evs => LoopInv s evs) (loopInv_started conf ls)
    (fun _ _ _ _ _ _ hi hs => step_loopInv hi hs) h

/-- What the code guarantees about stopping a started `TimerWatch`, over every interleaving:
once the loop has taken the stop value no listener is sent anything; it takes that value only
after `Stop()` has put it on `StopKey`; and from then until it is taken the value waits there.
Sends may still happen between `Stop()` and the loop taking the value. -/
theorem timerLoop_stop {conf : TimerWatchConf} {ls : List χ} {labels : List Step}
    {s : Loop χ} {evs : List (Event χ Nat)}
    (h : runSteps step (started conf ls) labels = some (s, evs)) :
    NoneAfter .stopKeyRecv Event.isSend evs ∧ Precedes .stopKeySend .stopKeyRecv evs ∧
      (.stopKeySend ∈ evs → .stopKeyRecv ∉ evs → s.tw.stopKey = [true]) := by
  have hi := run_loopInv h
  exact ⟨hi.no_send_after_recv, hi.recv_after_send, fun hs hr => by simp [hi.stopKey_eq, hs, hr]⟩

/-- The timer fires, the `select` takes it, `Stop()` returns while `Emit` waits on its
listener, and then the listener receives: a trigger is sent after `Stop()`. -/
theorem fire_takeTimer_stop_send :
    (runSteps step (started ⟨TimerWatch.second⟩ [()]) [.fire, .takeTimer, .stop, .send]).map
        Prod.snd = some [.stopFn, .stopKeySend, .send 0 () 0] ∧
      ¬ NoneAfter (.stopKeySend : Event Unit Nat) Event.isSend
        [.stopFn, .stopKeySend, .send 0 () 0] :=
  ⟨rfl, fun h => absurd (h [.stopFn] [.send 0 () 0] rfl _ (List.mem_singleton_self _)) (by decide)⟩

theorem timerLoop_stop_after_send :
    ∃ s evs, runSteps step (started ⟨TimerWatch.second⟩ [()])
        [.fire, .takeTimer, .stop, .send, .loopBack, .takeStop] = some (s, evs) ∧
      NoneAfter .stopKeyRecv Event.isSend evs ∧ Precedes .stopKeySend .stopKeyRecv evs ∧
      (.stopKeySend ∈ evs → .stopKeyRecv ∉ evs → s.tw.stopKey = [true]) :=
  ⟨_, _, rfl, @timerLoop_stop Unit _ ⟨TimerWatch.second⟩ [()]
    [.fire, .takeTimer, .stop, .send, .loopBack, .takeStop] _ _ rfl⟩

/-- In every interleaving, once `Stop()` has been called the stop case is ready whenever the
loop is at its `select`: taking it returns from `timerLoop` and empties `StopKey`. -/
theorem timerLoop_stop_ready {conf : TimerWatchConf} {ls : List χ} {labels : List Step}
    {s : Loop χ} {evs : List (Event χ Nat)} {fired : Bool}
    (h : runSteps step (started conf ls) labels = some (s, evs)) (hpc : s.pc = .select fired)
    (hs : .stopKeySend ∈ evs) :
    runSteps step (started conf ls) (labels ++ [.takeStop]) =
      some (⟨{ s.tw with stopKey := [] }, .exited⟩, evs ++ [.stopKeyRecv]) := by
  have hi := run_loopInv h
  have hk : s.tw.stopKey = [true] := by
    simp [hi.stopKey_eq, hs, hi.recv_not_mem (by simp [hpc])]
  rw [runSteps_snoc, h, Option.some_bind, step_takeStop hpc hk]
  rfl

theorem timerLoop_stop_ready_after_round :
    ∃ s evs, runSteps step (started ⟨TimerWatch.second⟩ [()])
        [.fire, .takeTimer, .stop, .send, .loopBack] = some (s, evs) ∧ s.pc = .select false ∧
      .stopKeySend ∈ evs ∧
      runSteps step (started ⟨TimerWatch.second⟩ [()])
          ([.fire, .takeTimer, .stop, .send, .loopBack] ++ [.takeStop]) =
        some (⟨{ s.tw with stopKey := [] }, .exited⟩, evs ++ [.stopKeyRecv]) :=
  ⟨_, _, rfl, rfl, by decide, @timerLoop_stop_ready Unit _ ⟨TimerWatch.second⟩ [()]
    [.fire, .takeTimer, .stop, .send, .loopBack] _ _ false rfl rfl (by decide)⟩

/-! ## Every `Stop()` returns, and `StopFn` runs once

`StopKey` has room for one value, only a `Stop()` that finds the watch running sends one,
and it sets `Running` to false first.  So in every interleaving with the loop, a `Stop()`
call returns whenever it comes, and `StopFn` has run, once, exactly when the watch has
stopped running. -/

omit [DecidableEq χ] in
/-- A step other than `Stop()` changes nothing of the watch but `StopKey`, and neither calls
`StopFn` nor sends on `StopKey`. -/
theorem step_frame {s s' : Loop χ} {e : List (Event χ Nat)} {l : Step} (hl : l ≠ .stop)
    (h : step s l = some (s', e)) :
    s'.tw = { s.tw with stopKey := s'.tw.stopKey } ∧ Event.stopFn ∉ e ∧ Event.stopKeySend ∉ e := by
  cases l with
  | stop => exact absurd rfl hl
  | fire | takeTimer | takeStop =>
    simp only [step] at h; split at h <;> cases h
    simp
  | send | loopBack =>
    simp only [step] at h; split at h <;> try cases h
    split at h <;> cases h
    simp

/-- `StopFn` and the send on `StopKey` have each run once if the watch has stopped running,
and not at all while it runs. -/
def StopCount (s : Loop χ) (evs : List (Event χ Nat)) : Prop :=
  evs.count .stopFn = evs.count .stopKeySend ∧
    evs.count .stopKeySend = if s.tw.running then 0 else 1

theorem step_stopCount {s s' : Loop χ} {evs e : List (Event χ Nat)} (hc : StopCount s evs)
    {l : Step} (h : step s l = some (s', e)) : StopCount s' (evs ++ e) := by
  by_cases hl : l = .stop
  · subst hl
    simp only [step, Watcher.stop, Watch.stop, Option.map_map] at h
    split_ifs at h with hrun hcap
    · cases h
      simpa using hc
    · cases h
      simp only [Bool.not_eq_true', Bool.not_eq_false] at hrun
      simp only [StopCount, hrun, if_true] at hc
      simp [StopCount, List.count_append, hc]
    · cases h
  · obtain ⟨htw, hf, hs⟩ := step_frame hl h
    have hr : s'.tw.running = s.tw.running := by rw [htw]
    simpa only [StopCount, List.count_append, List.count_eq_zero_of_not_mem hf,
      List.count_eq_zero_of_not_mem hs, hr, Nat.add_zero] using hc

/-- A `Stop()` at a point where the invariant holds is possible: a running watch has an
empty `StopKey`. -/
theorem LoopInv.stop_isSome {s : Loop χ} {evs : List (Event χ Nat)} (hi : LoopInv s evs) :
    (step s .stop).isSome := by
  by_cases hr : s.tw.running = true
  · have hk : s.tw.stopKey = [] := by simpa [hi.running_iff.1 hr] using hi.stopKey_eq
    simp [step, Watcher.stop, Watch.stop, hr, hk, stopKeyCap]
  · simp [step, Watcher.stop, Watch.stop, hr]

/-- In every interleaving of a started `TimerWatch`'s loop with `Stop()` calls, one more
`Stop()` returns, wherever it comes; and `StopFn` has been called, and `true` sent on
`StopKey`, once if the watch has stopped running and never while it runs, however many
times `Stop()` was called. -/
theorem timerLoop_stop_returns {conf : TimerWatchConf} {ls : List χ} {labels : List Step}
    {s : Loop χ} {evs : List (Event χ Nat)}
    (h : runSteps step (started conf ls) labels = some (s, evs)) :
    (step s .stop).isSome ∧ evs.count .stopFn = evs.count .stopKeySend ∧
      evs.count .stopKeySend = if s.tw.running then 0 else 1 :=
  ⟨(run_loopInv h).stop_isSome,
    runSteps_induction (fun _ s evs => StopCount s evs) (by simp [StopCount])
      (fun _ _ _ _ _ _ hc hs => step_stopCount hc hs) h⟩

theorem timerLoop_stop_returns_twice :
    ∃ s evs, runSteps step (started ⟨TimerWatch.second⟩ [()])
        [.stop, .fire, .takeTimer, .stop, .send] = some (s, evs) ∧
      (step s .stop).isSome ∧ evs.count .stopFn = evs.count .stopKeySend ∧
      evs.count .stopKeySend = if s.tw.running then 0 else 1 :=
  ⟨_, _, rfl, @timerLoop_stop_returns Unit _ ⟨TimerWatch.second⟩ [()]
    [.stop, .fire, .takeTimer, .stop, .send] _ _ rfl⟩

end Watch
end MetrikaAgent
