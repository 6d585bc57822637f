/-
Delivery through `Subscribe` and `Emit`.

`Emit` sends to `w.listeners` in order, and `Subscribe` appends to that list, so over a run
of calls the listeners are what was subscribed, in order (`listeners_run`).  Hence each
`Emit(m)` sends `m` once to each listener subscribed before it, and the listener at index
`k` receives exactly the messages emitted after it was subscribed (`sendsTo_run_of_getElem`),
and nothing before (`sendsTo_run_of_le`).  A listener subscribed twice has two indices and
receives each later message twice.
-/
import MetrikaAgent.Watch.Basic

namespace MetrikaAgent
namespace Watch

variable {τ χ μ : Type}

def Call.handler? : Call χ μ → Option χ
  | .subscribe h => some h
  | _ => none

def Call.message? : Call χ μ → Option μ
  | .emit m => some m
  | _ => none

def subscribed (cs : List (Call χ μ)) : List χ := cs.filterMap Call.handler?

def emitted (cs : List (Call χ μ)) : List μ := cs.filterMap Call.message?

def Event.sentTo (slot : Nat) : Event χ μ → Option (χ × μ)
  | .send k h m => if k = slot then some (h, m) else none
  | _ => none

/-- What the listener at index `slot` receives in a trace, in order. -/
def sendsTo (slot : Nat) (evs : List (Event χ μ)) : List (χ × μ) := evs.filterMap (Event.sentTo slot)

@[simp] theorem sendsTo_append (slot : Nat) (e e' : List (Event χ μ)) :
    sendsTo slot (e ++ e') = sendsTo slot e ++ sendsTo slot e' := List.filterMap_append _ _ _

@[simp] theorem subscribed_append (cs cs' : List (Call χ μ)) :
    subscribed (cs ++ cs') = subscribed cs ++ subscribed cs' := List.filterMap_append _ _ _

@[simp] theorem emitted_append (cs cs' : List (Call χ μ)) :
    emitted (cs ++ cs') = emitted cs ++ emitted cs' := List.filterMap_append _ _ _

/-! ## One call -/

theorem sendsTo_enumFrom (m : μ) (k : Nat) (l : List χ) (n : Nat) :
    sendsTo k ((l.enumFrom n).map fun p => Event.send p.1 p.2 m) =
      if n ≤ k then (l[k - n]?.map (·, m)).toList else [] := by
  induction l generalizing n with
  | nil => simp [sendsTo]
  | cons h l ih =>
    simp only [List.enumFrom_cons, List.map_cons, sendsTo, List.filterMap_cons, Event.sentTo]
    rw [← sendsTo, ih]
    rcases Nat.lt_trichotomy n k with hnk | rfl | hnk
    · have : k - n = k - (n + 1) + 1 := by omega
      simp [Nat.ne_of_lt hnk, Nat.le_of_lt hnk, Nat.succ_le_of_lt hnk, this]
    · simp
    · simp [Nat.ne_of_gt hnk, Nat.not_le_of_gt hnk, Nat.not_le_of_gt (Nat.lt_succ_of_lt hnk)]

/-- `Emit` sends to the listener at index `k` once if there is one, and never otherwise. -/
theorem sendsTo_emit (w : Watch χ μ) (m : μ) (k : Nat) :
    sendsTo k (w.emit m) = (w.listeners[k]?.map (·, m)).toList := by
  simp [Watch.emit, List.enum, sendsTo_enumFrom]

theorem exec_listeners {w w' : Watch χ μ} {c : Call χ μ} {e : List (Event χ μ)}
    (h : exec w c = some (w', e)) : w'.listeners = w.listeners ++ subscribed [c] := by
  cases c with
  | start =>
    simp only [exec, start, Watcher.once, Watcher.startUnsafe, Watcher.markOnce,
      Watch.startUnsafe] at h
    split at h <;> cases h <;> simp [subscribed, Call.handler?]
  | stop =>
    simp only [exec, Watcher.stop, Watch.stop] at h
    split_ifs at h <;> cases h <;> simp [subscribed, Call.handler?]
  | subscribe h' => cases h; rfl
  | emit m => cases h; simp [subscribed, Call.handler?]

theorem sendsTo_exec {w w' : Watch χ μ} {c : Call χ μ} {e : List (Event χ μ)}
    (h : exec w c = some (w', e)) (k : Nat) :
    sendsTo k e = (c.message?.bind fun m => w.listeners[k]?.map (·, m)).toList := by
  cases c with
  | start =>
    simp only [exec, start, Watcher.once, Watcher.startUnsafe, Watcher.markOnce,
      Watch.startUnsafe] at h
    split at h <;> cases h <;> rfl
  | stop =>
    simp only [exec, Watcher.stop, Watch.stop] at h
    split_ifs at h <;> cases h <;> rfl
  | subscribe h' => cases h; rfl
  | emit m =>
    cases h
    simp only [Call.message?, Option.some_bind]
    exact sendsTo_emit w m k

/-! ## Runs -/

/-- Over a run the listeners are those there were, then what the calls subscribed. -/
theorem listeners_run {w₀ w : Watch χ μ} {calls : List (Call χ μ)} {evs : List (Event χ μ)}
    (h : run w₀ calls = some (w, evs)) : w.listeners = w₀.listeners ++ subscribed calls :=
  runSteps_induction (fun cs w _ => w.listeners = w₀.listeners ++ subscribed cs)
    (by simp [subscribed])
    (fun _ _ _ _ _ _ hl hexec => by
      dsimp only at hl ⊢
      rw [exec_listeners hexec, hl, subscribed_append, List.append_assoc])
    h

/-- An index no listener holds by the end of a run receives nothing during it. -/
theorem sendsTo_run_of_le {w₀ w : Watch χ μ} {calls : List (Call χ μ)}
    {evs : List (Event χ μ)} (h : run w₀ calls = some (w, evs)) {k : Nat}
    (hk : w.listeners.length ≤ k) : sendsTo k evs = [] :=
  (runSteps_induction (fun _ w evs => w.listeners.length ≤ k → sendsTo k evs = [])
    (fun _ => rfl)
    (fun _ t _ c _ _ hP hexec hk' => by
      dsimp only at hP hk' ⊢
      have hle : t.listeners.length ≤ k := by
        have := congrArg List.length (exec_listeners hexec); simp at this; omega
      rw [sendsTo_append, hP hle, sendsTo_exec hexec, List.getElem?_eq_none hle]
      cases c.message? <;> rfl)
    h) hk

/-- The listener at index `k` receives, in order, exactly the messages emitted during a run,
once each. -/
theorem sendsTo_run_of_getElem {w₀ w : Watch χ μ} {calls : List (Call χ μ)}
    {evs : List (Event χ μ)} (h : run w₀ calls = some (w, evs)) {k : Nat} {handler : χ}
    (hk : w₀.listeners[k]? = some handler) :
    sendsTo k evs = (emitted calls).map (handler, ·) :=
  (runSteps_induction (fun cs t evs => t.listeners = w₀.listeners ++ subscribed cs ∧
      sendsTo k evs = (emitted cs).map (handler, ·))
    ⟨by simp [subscribed], rfl⟩
    (fun _ t _ c _ _ ⟨hl, hs⟩ hexec => by
      dsimp only at hl hs ⊢
      refine ⟨by rw [exec_listeners hexec, hl, subscribed_append, List.append_assoc], ?_⟩
      rw [sendsTo_append, hs, sendsTo_exec hexec, hl, List.getElem?_append_left
        (List.getElem?_eq_some.1 hk).1, hk, emitted_append, List.map_append]
      cases c <;> rfl)
    h).2

theorem sendsTo_filter_notTimerLoop (k : Nat) (evs : List (Event χ μ)) :
    sendsTo k (evs.filter notTimerLoop) = sendsTo k evs := by
  induction evs with
  | nil => rfl
  | cons e evs ih =>
    simp only [sendsTo] at ih ⊢
    cases e <;> simp [List.filter_cons, notTimerLoop, List.filterMap_cons, Event.sentTo, ih]

/-! ## The delivery property -/

/-- Each `Emit(m)` after the calls `pre` adds to the events exactly one send of `m` to each
listener `pre` subscribed, in subscription order, and nothing else; and the listener the
`Subscribe(h)` after `pre` registered receives exactly the messages emitted after it, in
order, each once. -/
def Delivers [Watcher τ χ μ] (w₀ : τ) : Prop :=
  (∀ pre m, run w₀ (pre ++ [.emit m]) =
      (run w₀ pre).map fun r => (r.1, r.2 ++ (subscribed pre).enum.map fun p => .send p.1 p.2 m)) ∧
  (∀ pre h post w evs, run w₀ (pre ++ .subscribe h :: post) = some (w, evs) →
      sendsTo (subscribed pre).length evs = (emitted post).map (h, ·))

theorem delivers_newWatch : Delivers (newWatch : Watch χ μ) := by
  refine ⟨fun pre m => ?_, fun pre h post w evs hrun => ?_⟩
  · simp only [run, runSteps_snoc]
    cases hr : runSteps exec newWatch pre with
    | none => rfl
    | some r =>
      have hl : r.1.listeners = subscribed pre := by simpa [newWatch] using listeners_run hr
      simp [exec_emit, Watch.emit, hl]
  · obtain ⟨w₁, e₁, e₂, h₁, h₂, rfl⟩ := runSteps_append_eq_some hrun
    rw [← List.singleton_append] at h₂
    obtain ⟨w₂, e₃, e₄, h₃, h₄, rfl⟩ := runSteps_append_eq_some h₂
    obtain ⟨rfl, rfl⟩ := Prod.mk.inj (Option.some.inj h₃.symm)
    have hl : w₁.listeners = subscribed pre := by simpa [newWatch] using listeners_run h₁
    have hk : (w₁.subscribe h).listeners[(subscribed pre).length]? = some h := by
      simp [Watch.subscribe, hl]
    rw [sendsTo_append, sendsTo_append, sendsTo_run_of_le h₁ (congrArg List.length hl).le, sendsTo_run_of_getElem h₄ hk]
    rfl

theorem delivers_newTimerWatch (conf : TimerWatchConf) :
    Delivers (TimerWatch.newTimerWatch conf : TimerWatch χ μ) := by
  have hproj (cs : List (Call χ μ)) {tw : TimerWatch χ μ} {evs}
      (h : run (TimerWatch.newTimerWatch conf) cs = some (tw, evs)) :
      run newWatch cs = some (tw.toWatch, evs.filter notTimerLoop) := by
    rw [← newTimerWatch_toWatch conf, ← run_toWatch, h]
    rfl
  refine ⟨fun pre m => ?_, fun pre h post w evs hrun => ?_⟩
  · simp only [run, runSteps_snoc]
    cases hr : runSteps exec (TimerWatch.newTimerWatch conf) pre with
    | none => rfl
    | some r =>
      have hl : r.1.toWatch.listeners = subscribed pre := by
        simpa [newWatch] using listeners_run (hproj pre hr)
      simp [exec, Watcher.emit, Watch.emit, hl]
  · rw [← sendsTo_filter_notTimerLoop]
    exact delivers_newWatch.2 pre h post _ _ (hproj _ hrun)

/-- Both watchers deliver.  A run of calls leaves out a started `TimerWatch`'s timer
goroutine: each trigger it sends is, here, an `Emit(0)` call of the run, placed where the
loop makes its sends. -/
theorem watcher_delivers :
    Delivers (newWatch : Watch χ μ) ∧
      ∀ conf, Delivers (TimerWatch.newTimerWatch conf : TimerWatch χ μ) :=
  ⟨delivers_newWatch, delivers_newTimerWatch⟩

/-- Subscribe 1, emit 10, subscribe 2 and 3, emit 20: the first listener receives both
messages, the second only the one emitted after it subscribed. -/
theorem watcher_delivers_run :
    ∃ w evs, run (newWatch : Watch Nat Nat)
        [.subscribe 1, .emit 10, .subscribe 2, .subscribe 3, .emit 20] = some (w, evs) ∧
      sendsTo 0 evs = [(1, 10), (1, 20)] ∧ sendsTo 1 evs = [(2, 20)] :=
  ⟨_, _, rfl, watcher_delivers.1.2 [] 1 [.emit 10, .subscribe 2, .subscribe 3, .emit 20] _ _ rfl,
    watcher_delivers.1.2 [.subscribe 1, .emit 10] 2 [.subscribe 3, .emit 20] _ _ rfl⟩

end Watch
end MetrikaAgent
