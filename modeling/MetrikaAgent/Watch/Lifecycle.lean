/-
The lifecycle of a watcher, against the three-state machine of the specification.

A watcher is `Created`, then `Running` once, then `Stopped`, with no way back.
`WatcherState.next` is that machine on the four calls and `Watch.state` reads it off a
`Watch`: created until the `sync.Once` has run, then running or stopped as `Running` says.
`exec_inv` is the step lemma: from a watch satisfying `Inv` every call returns, keeps
`Inv` and moves the abstract state as `next` does.  `run_inv` is its run form from
`NewWatch`, so a run of the code refines a run of the machine, and the facts about hooks
and `StopKey` are read off `Inv`.  A `TimerWatch` gets them through `run_toWatch`.
-/
import MetrikaAgent.Watch.Basic

namespace MetrikaAgent
namespace Watch

inductive WatcherState where
  | created
  | running
  | stopped
  deriving DecidableEq

variable {χ μ : Type}

namespace WatcherState

/-- Start moves `Created` to `Running`, stop moves `Running` to `Stopped`; nothing else
changes the state. -/
def next : WatcherState → Call χ μ → WatcherState
  | .created, .start => .running
  | .running, .stop => .stopped
  | s, _ => s

theorem foldl_next_stopped (cs : List (Call χ μ)) : cs.foldl next .stopped = .stopped := by
  induction cs with
  | nil => rfl
  | cons c cs ih => cases c <;> exact ih

theorem next_subscribe (s : WatcherState) (h : χ) : s.next (.subscribe h : Call χ μ) = s := by
  cases s <;> rfl

theorem next_emit (s : WatcherState) (m : μ) : s.next (.emit m : Call χ μ) = s := by
  cases s <;> rfl

theorem foldl_next_running_of_not_mem {cs : List (Call χ μ)} (h : .stop ∉ cs) :
    cs.foldl next .running = .running := by
  induction cs with
  | nil => rfl
  | cons c cs ih =>
    cases c with
    | stop => exact absurd (List.mem_cons_self _ _) h
    | _ => exact ih fun hm => h (List.mem_cons_of_mem _ hm)

theorem foldl_next_running_of_mem {cs : List (Call χ μ)} (h : .stop ∈ cs) :
    cs.foldl next .running = .stopped := by
  induction cs with
  | nil => exact absurd h (List.not_mem_nil _)
  | cons c cs ih =>
    cases c with
    | stop => exact foldl_next_stopped cs
    | _ => exact ih (by simpa using h)

theorem foldl_next_created_eq_created_iff (cs : List (Call χ μ)) :
    cs.foldl next .created = .created ↔ .start ∉ cs := by
  induction cs with
  | nil => simp
  | cons c cs ih =>
    cases c with
    | start =>
      simp only [List.foldl_cons, next, List.mem_cons_self, not_true_eq_false, iff_false]
      by_cases hs : Call.stop ∈ cs
      · simp [foldl_next_running_of_mem hs]
      · simp [foldl_next_running_of_not_mem hs]
    | _ => simpa [next] using ih

/-- The machine is running after a run exactly when a first start occurred and no stop
after it. -/
theorem foldl_next_created_eq_running_iff (cs : List (Call χ μ)) :
    cs.foldl next .created = .running ↔
      ∃ pre post, cs = pre ++ .start :: post ∧ .start ∉ pre ∧ .stop ∉ post := by
  induction cs with
  | nil => simp
  | cons c cs ih =>
    by_cases hc : c = .start
    · subst hc
      simp only [List.foldl_cons, next]
      constructor
      · intro h
        refine ⟨[], cs, rfl, List.not_mem_nil _, fun hs => ?_⟩
        rw [foldl_next_running_of_mem hs] at h
        cases h
      · rintro ⟨pre, post, h, hpre, hpost⟩
        cases pre with
        | nil =>
          obtain ⟨-, rfl⟩ := List.cons.inj h
          exact foldl_next_running_of_not_mem hpost
        | cons x pre =>
          obtain ⟨rfl, -⟩ := List.cons.inj h
          exact absurd (List.mem_cons_self _ _) hpre
    · have hnext : next .created c = .created := by cases c <;> simp_all [next]
      rw [List.foldl_cons, hnext, ih]
      constructor
      · rintro ⟨pre, post, rfl, hpre, hpost⟩
        exact ⟨c :: pre, post, rfl, by simp [hpre, Ne.symm hc], hpost⟩
      · rintro ⟨pre, post, h, hpre, hpost⟩
        cases pre with
        | nil => exact absurd (List.cons.inj h).1 hc
        | cons x pre =>
          obtain ⟨rfl, rfl⟩ := List.cons.inj h
          exact ⟨pre, post, rfl, fun hm => hpre (List.mem_cons_of_mem _ hm), hpost⟩

end WatcherState

open WatcherState

def state (w : Watch χ μ) : WatcherState :=
  if !w.startOnce then .created else if w.running then .running else .stopped

theorem state_eq_created_iff (w : Watch χ μ) : w.state = .created ↔ w.startOnce = false := by
  unfold state
  cases w.startOnce <;> cases w.running <;> simp

variable [DecidableEq χ] [DecidableEq μ]

/-- What holds of a watch reached from `NewWatch` and the events of the calls that made it. -/
structure Inv (w : Watch χ μ) (evs : List (Event χ μ)) : Prop where
  running_startOnce : w.running = true → w.startOnce = true
  stopKey_eq : w.stopKey = if w.state = .stopped then [true] else []
  count_startUnsafe : evs.count .startUnsafe = if w.startOnce then 1 else 0
  count_stopFn : evs.count .stopFn = w.stopKey.length
  count_stopKeySend : evs.count .stopKeySend = w.stopKey.length
  stopFn_after_start : Precedes .startUnsafe .stopFn evs
  stopKeySend_after_start : Precedes .startUnsafe .stopKeySend evs

theorem inv_newWatch : Inv (newWatch : Watch χ μ) [] :=
  ⟨by simp [newWatch], by simp [newWatch, state], rfl, rfl, rfl, precedes_nil _ _,
    precedes_nil _ _⟩

theorem Inv.subscribe {w : Watch χ μ} {evs : List (Event χ μ)} (hi : Inv w evs) (h : χ) :
    Inv (w.subscribe h) evs :=
  ⟨hi.1, hi.2, hi.3, hi.4, hi.5, hi.6, hi.7⟩

theorem count_emit (w : Watch χ μ) (m : μ) {x : Event χ μ} (hx : ∀ k h, x ≠ .send k h m) :
    (w.emit m).count x = 0 :=
  List.count_eq_zero.2 fun hm => by obtain ⟨k, h, rfl⟩ := mem_emit w hm; exact hx k h rfl

/-- The step lemma: every call returns, keeps `Inv` and moves the state as `next`. -/
theorem exec_inv {w : Watch χ μ} {evs : List (Event χ μ)} (hi : Inv w evs) (c : Call χ μ) :
    ∃ w' e, exec w c = some (w', e) ∧ Inv w' (evs ++ e) ∧ w'.state = w.state.next c := by
  cases c with
  | start =>
    cases ho : w.startOnce
    · have hr : w.running = false := by
        cases h : w.running; rfl; exact absurd (hi.running_startOnce h) (by simp [ho])
      have hk : w.stopKey = [] := by simpa [state, ho] using hi.stopKey_eq
      refine ⟨_, _, exec_start_of_not_once w ho, ⟨fun _ => rfl, by simp [state, hk], ?_, ?_, ?_,
        hi.stopFn_after_start.append (by simp), hi.stopKeySend_after_start.append (by simp)⟩,
        by simp [state, ho, next]⟩
      · simpa [ho] using hi.count_startUnsafe
      · simpa [hk] using hi.count_stopFn
      · simpa [hk] using hi.count_stopKeySend
    · refine ⟨w, [], exec_start_of_once w ho, by simpa using hi, ?_⟩
      cases hr : w.running <;> simp [state, ho, hr, next]
  | stop =>
    cases hr : w.running
    · refine ⟨w, [], exec_stop_of_not_running w hr, by simpa using hi, ?_⟩
      cases ho : w.startOnce <;> simp [state, ho, hr, next]
    · have ho := hi.running_startOnce hr
      have hk : w.stopKey = [] := by simpa [state, ho, hr] using hi.stopKey_eq
      have hs : Event.startUnsafe ∈ evs :=
        List.count_pos_iff.1 (by rw [hi.count_startUnsafe, ho]; decide)
      refine ⟨_, _, exec_stop_of_running w hr hk, ⟨by simp, by simp [state, ho], ?_, ?_, ?_,
        hi.stopFn_after_start.append fun _ => hs, hi.stopKeySend_after_start.append fun _ => hs⟩,
        by simp [state, ho, hr, next]⟩
      · simpa [ho] using hi.count_startUnsafe
      · simpa [hk] using hi.count_stopFn
      · simpa [hk] using hi.count_stopKeySend
  | subscribe h =>
    exact ⟨_, _, exec_subscribe w h, by simpa using hi.subscribe h, by rw [next_subscribe]; rfl⟩
  | emit m =>
    have hnone : ∀ x : Event χ μ, (∀ k h, x ≠ .send k h m) → x ∉ w.emit m :=
      fun x hx hm => by obtain ⟨k, h, rfl⟩ := mem_emit w hm; exact hx k h rfl
    refine ⟨w, _, exec_emit w m, ⟨hi.running_startOnce, hi.stopKey_eq, ?_, ?_, ?_,
      hi.stopFn_after_start.append fun h => absurd h (hnone _ (by simp)),
      hi.stopKeySend_after_start.append fun h => absurd h (hnone _ (by simp))⟩, ?_⟩
    · rw [List.count_append, count_emit w m (by simp), hi.count_startUnsafe, Nat.add_zero]
    · rw [List.count_append, count_emit w m (by simp), hi.count_stopFn, Nat.add_zero]
    · rw [List.count_append, count_emit w m (by simp), hi.count_stopKeySend, Nat.add_zero]
    · rw [next_emit]

/-- Every run of calls from `NewWatch` returns, and the watch it ends in satisfies `Inv` and
is in the state the specification's machine reaches on the same calls. -/
theorem run_inv (calls : List (Call χ μ)) :
    ∃ w evs, run (newWatch : Watch χ μ) calls = some (w, evs) ∧ Inv w evs ∧
      w.state = calls.foldl next .created :=
  runSteps_total (fun cs w evs => Inv w evs ∧ w.state = cs.foldl next .created)
    ⟨inv_newWatch, rfl⟩
    (fun cs w evs c ⟨hi, hs⟩ => by
      obtain ⟨w', e, hexec, hi', hs'⟩ := exec_inv hi c
      exact ⟨w', e, hexec, hi', by rw [hs', hs, List.foldl_append]; rfl⟩)
    calls

/-- The code refines the specification's machine: after every run of calls from `NewWatch`
the watch is in the state the machine reaches on the same calls. -/
theorem run_state (calls : List (Call χ μ)) :
    ∃ w evs, run (newWatch : Watch χ μ) calls = some (w, evs) ∧
      w.state = calls.foldl next .created :=
  let ⟨w, evs, h, _, hs⟩ := run_inv calls
  ⟨w, evs, h, hs⟩

/-! ## Starting and stopping -/

theorem Inv.state_eq_running_iff {w : Watch χ μ} {evs : List (Event χ μ)} (hi : Inv w evs) :
    w.state = .running ↔ w.running = true := by
  have := hi.running_startOnce
  unfold state
  cases ho : w.startOnce <;> cases hr : w.running <;> simp_all

/-- What a run of `calls` from a new watcher gives: `StartUnsafe` ran once exactly when a
`Start` was made, and never otherwise; `Running` holds exactly when a first `Start` was
followed by no `Stop`; `StopFn` and the send on `StopKey` ran at most once each, and only
after `StartUnsafe`. -/
def LifecycleOk (calls : List (Call χ μ)) (running : Bool) (evs : List (Event χ μ)) : Prop :=
  evs.count .startUnsafe = (if .start ∈ calls then 1 else 0) ∧
  (running = true ↔ ∃ pre post, calls = pre ++ .start :: post ∧ .start ∉ pre ∧ .stop ∉ post) ∧
  evs.count .stopFn ≤ 1 ∧ evs.count .stopKeySend ≤ 1 ∧
  Precedes .startUnsafe .stopFn evs ∧ Precedes .startUnsafe .stopKeySend evs

theorem Inv.lifecycleOk {w : Watch χ μ} {evs : List (Event χ μ)} {calls : List (Call χ μ)}
    (hi : Inv w evs) (hs : w.state = calls.foldl next .created) :
    LifecycleOk calls w.running evs := by
  have hk : w.stopKey.length ≤ 1 := by rw [hi.stopKey_eq]; split <;> simp
  refine ⟨?_, ?_, hi.count_stopFn ▸ hk, hi.count_stopKeySend ▸ hk, hi.stopFn_after_start,
    hi.stopKeySend_after_start⟩
  · have h := (state_eq_created_iff w).symm.trans
      (hs ▸ foldl_next_created_eq_created_iff calls)
    rw [hi.count_startUnsafe]
    by_cases hm : Call.start ∈ calls <;> simp_all
  · rw [← hi.state_eq_running_iff, hs, foldl_next_created_eq_running_iff]

theorem LifecycleOk.of_filter {calls : List (Call χ μ)} {running : Bool}
    {evs : List (Event χ μ)} (h : LifecycleOk calls running (evs.filter notTimerLoop)) :
    LifecycleOk calls running evs := by
  obtain ⟨h₁, h₂, h₃, h₄, h₅, h₆⟩ := h
  rw [List.count_filter (show notTimerLoop (Event.startUnsafe : Event χ μ) = true from rfl)] at h₁
  rw [List.count_filter (show notTimerLoop (Event.stopFn : Event χ μ) = true from rfl)] at h₃
  rw [List.count_filter (show notTimerLoop (Event.stopKeySend : Event χ μ) = true from rfl)] at h₄
  exact ⟨h₁, h₂, h₃, h₄, h₅.of_filter rfl, h₆.of_filter rfl⟩

theorem watcher_lifecycle (calls : List (Call χ μ)) :
    (∃ w evs, run (newWatch : Watch χ μ) calls = some (w, evs) ∧
      LifecycleOk calls w.running evs) ∧
    ∀ conf, ∃ w evs, run (TimerWatch.newTimerWatch conf : TimerWatch χ μ) calls = some (w, evs) ∧
      LifecycleOk calls w.running evs := by
  obtain ⟨w, evs, hrun, hi, hs⟩ := run_inv calls
  refine ⟨⟨w, evs, hrun, hi.lifecycleOk hs⟩, fun conf => ?_⟩
  have h := run_toWatch (TimerWatch.newTimerWatch conf : TimerWatch χ μ) calls
  rw [newTimerWatch_toWatch, hrun] at h
  obtain ⟨⟨tw, tevs⟩, htrun, hproj⟩ := Option.map_eq_some'.1 h
  obtain ⟨rfl, rfl⟩ := Prod.mk.inj hproj
  exact ⟨tw, tevs, htrun, (hi.lifecycleOk hs).of_filter⟩

/-- `StartFn` is never called: after `Start` and then `Stop` on a new watch, `StopFn` has run
and `StartFn` has not. -/
theorem run_start_stop_hooks :
    run (newWatch : Watch Unit Unit) [.start, .stop] =
      some (⟨false, [true], true, []⟩, [.startUnsafe, .stopFn, .stopKeySend]) := rfl

end Watch
end MetrikaAgent
