/-
The stream registry of the `global` package, and the streams it starts reading the one
channel it hands them.

`Register` appends streams and `Start` calls each stream's `Start(ctx, wg, ch)`, in order,
with the same `ch`; both return a nil error.  What a stream does with `ch` is its own (the
exporters are not in this repository), and the property at stake is about streams that keep
receiving from the channel they were handed.  A Go channel is a queue: a receive takes the
oldest value, and each value is received once, by one receiver.  So after `Start` the state
is the samples the producer has not sent yet and the values in the channel, and a step is
the producer's send, one stream's receive, or both at once (a send on a channel with no
value in it while a receiver waits hands the value over directly).  The receives made,
`(stream index, sample)`, are the events.
-/
import MetrikaAgent.Run

namespace MetrikaAgent
namespace Global

variable {σ κ ω α : Type}

abbrev ChanId := Nat

structure StreamRegisterer (σ : Type) where
  streams : List σ

def newRegisterer : StreamRegisterer σ := ⟨[]⟩

/-- `Register(w...)`: the streams appended, in order; its error is always nil. -/
def StreamRegisterer.register (r : StreamRegisterer σ) (w : List σ) : StreamRegisterer σ :=
  ⟨r.streams ++ w⟩

/-- `Start(ctx, wg, ch)`: the `Start` calls it makes on the registered streams, in order,
each with `ctx`, `wg` and `ch`; its error is always nil. -/
def StreamRegisterer.start (r : StreamRegisterer σ) (ctx : κ) (wg : ω) (ch : ChanId) :
    List (σ × κ × ω × ChanId) :=
  r.streams.map fun s => (s, ctx, wg, ch)

def handed (calls : List (σ × κ × ω × ChanId)) : List ChanId := calls.map fun c => c.2.2.2

/-- `Start` hands every registered stream the one channel `ch`. -/
theorem handed_start (r : StreamRegisterer σ) (ctx : κ) (wg : ω) (ch : ChanId) :
    handed (r.start ctx wg ch) = List.replicate r.streams.length ch := by
  simp [handed, StreamRegisterer.start, Function.comp_def, List.map_const']

/-- The samples the producer has not sent yet, and the values in the channel, oldest first. -/
structure Pipe (α : Type) where
  pending : List α
  buf : List α

/-- One action: the producer's send into the buffer, stream `i` receiving the oldest value, or
the producer's next sample going straight to stream `i`, waiting on an empty channel. -/
inductive Action where
  | send
  | recv (i : Nat)
  | handoff (i : Nat)
  deriving DecidableEq

/-- A step, for streams reading the channels `hs` and a producer sending on `ch` of
capacity `cap`; a stream whose channel is not `ch` never receives. -/
def step (hs : List ChanId) (ch : ChanId) (cap : Nat) (p : Pipe α) :
    Action → Option (Pipe α × List (Nat × α))
  | .send =>
    match p.pending with
    | x :: rest => if p.buf.length < cap then some (⟨rest, p.buf ++ [x]⟩, []) else none
    | [] => none
  | .recv i =>
    match p.buf with
    | x :: rest => if hs[i]? = some ch then some (⟨p.pending, rest⟩, [(i, x)]) else none
    | [] => none
  | .handoff i =>
    match p.pending, p.buf with
    | x :: rest, [] => if hs[i]? = some ch then some (⟨rest, []⟩, [(i, x)]) else none
    | _, _ => none

def received (i : Nat) (got : List (Nat × α)) : List α :=
  got.filterMap fun r => if r.1 = i then some r.2 else none

def Pipe.Drained (p : Pipe α) : Prop := p.pending = [] ∧ p.buf = []

/-- Received, in the channel, or still to send, the samples are those of `samples` in order;
and only streams reading `ch` have received. -/
def PipeInv (hs : List ChanId) (ch : ChanId) (samples : List α) (p : Pipe α)
    (got : List (Nat × α)) : Prop :=
  got.map Prod.snd ++ p.buf ++ p.pending = samples ∧ ∀ r ∈ got, hs[r.1]? = some ch

theorem step_pipeInv {hs : List ChanId} {ch : ChanId} {cap : Nat} {samples : List α}
    {p p' : Pipe α} {got e : List (Nat × α)} (hi : PipeInv hs ch samples p got) {a : Action}
    (h : step hs ch cap p a = some (p', e)) : PipeInv hs ch samples p' (got ++ e) := by
  obtain ⟨hq, hr⟩ := hi
  cases a with
  | send =>
    simp only [step] at h; split at h <;> try split_ifs at h
    all_goals cases h
    rename_i x rest hp _
    exact ⟨by simp [← hq, hp], by simpa using hr⟩
  | recv i =>
    simp only [step] at h; split at h <;> try split_ifs at h
    all_goals cases h
    rename_i x rest hb hc
    refine ⟨by simp [← hq, hb], fun r hm => ?_⟩
    rcases List.mem_append.1 hm with hm | hm
    · exact hr r hm
    · rw [List.mem_singleton.1 hm]; exact hc
  | handoff i =>
    simp only [step] at h; split at h <;> try split_ifs at h
    all_goals cases h
    rename_i x rest hp hb hc
    refine ⟨by simp [← hq, hp, hb], fun r hm => ?_⟩
    rcases List.mem_append.1 hm with hm | hm
    · exact hr r hm
    · rw [List.mem_singleton.1 hm]; exact hc

/-- Two streams, one sample, handed to the first: the run drains the sample, and the
second stream has received nothing. -/
theorem second_stream_misses_sample :
    runSteps (step (handed ((newRegisterer.register [(), ()]).start () () 0)) 0 0) ⟨[7], []⟩
        [.handoff 0] = some (⟨[], []⟩, [(0, 7)]) ∧
      (⟨[], []⟩ : Pipe Nat).Drained ∧ received 1 [(0, 7)] ≠ [7] :=
  ⟨rfl, ⟨rfl, rfl⟩, by decide⟩

/-! ## The channel at every point of a run

At every point of every interleaving the channel is a bounded FIFO queue: the values
received so far, over all streams and in the order received, are the first samples, the
channel and the producer hold the rest in order, and the channel never holds more than its
capacity.  From any such point one stream can take everything left: the values in the
channel, then each remaining sample as the producer sends it, which needs no buffer at all.
Since each value is received once, two streams together receive no more than was sent, so
once two streams are registered no interleaving gives every stream every sample. -/

theorem step_buf_le {hs : List ChanId} {ch : ChanId} {cap : Nat} {p p' : Pipe α}
    {e : List (Nat × α)} (hb : p.buf.length ≤ cap) {a : Action}
    (h : step hs ch cap p a = some (p', e)) : p'.buf.length ≤ cap := by
  cases a with
  | send =>
    simp only [step] at h; split at h <;> try split_ifs at h
    all_goals cases h
    rename_i hlt
    simpa using hlt
  | recv i =>
    simp only [step] at h; split at h <;> try split_ifs at h
    all_goals cases h
    rename_i x rest hbuf _
    rw [hbuf, List.length_cons] at hb
    exact Nat.le_of_succ_le hb
  | handoff i =>
    simp only [step] at h; split at h <;> try split_ifs at h
    all_goals cases h
    exact Nat.zero_le _

/-- At every point of every interleaving, the values received are the first samples in the
order sent, the channel and the producer hold the rest in order, the channel holds at most
its capacity, and only streams reading `ch` have received. -/
theorem run_fifo {hs : List ChanId} {ch : ChanId} {cap : Nat} {samples : List α}
    {acts : List Action} {p : Pipe α} {got : List (Nat × α)}
    (h : runSteps (step hs ch cap) ⟨samples, []⟩ acts = some (p, got)) :
    got.map Prod.snd = samples.take got.length ∧ p.buf ++ p.pending = samples.drop got.length ∧
      p.buf.length ≤ cap ∧ ∀ x ∈ got, hs[x.1]? = some ch := by
  obtain ⟨⟨hq, hr⟩, hb⟩ := runSteps_induction
    (fun _ p got => PipeInv hs ch samples p got ∧ p.buf.length ≤ cap)
    ⟨⟨by simp, by simp⟩, Nat.zero_le _⟩
    (fun _ _ _ _ _ _ hi hs => ⟨step_pipeInv hi.1 hs, step_buf_le hi.2 hs⟩) h
  have hlen : (got.map Prod.snd).length = got.length := List.length_map _ _
  rw [List.append_assoc] at hq
  exact ⟨by rw [← hq, List.take_left' hlen], by rw [← hq, List.drop_left' hlen], hb, hr⟩

/-- At every point of every interleaving after `Start`, the samples received so far are the
first ones, in the order sent, each by a registered stream; the rest wait in the channel or
at the producer, in order; and the channel holds at most its capacity. -/
theorem registry_fifo (r : StreamRegisterer σ) (ctx : κ) (wg : ω) (ch : ChanId) (cap : Nat)
    {samples : List α} {acts : List Action} {p : Pipe α} {got : List (Nat × α)}
    (h : runSteps (step (handed (r.start ctx wg ch)) ch cap) ⟨samples, []⟩ acts = some (p, got)) :
    got.map Prod.snd = samples.take got.length ∧ p.buf ++ p.pending = samples.drop got.length ∧
      p.buf.length ≤ cap ∧ ∀ x ∈ got, x.1 < r.streams.length := by
  obtain ⟨hq, hrest, hb, hr⟩ := run_fifo h
  refine ⟨hq, hrest, hb, fun x hx => ?_⟩
  have := hr x hx
  rw [handed_start, List.getElem?_replicate] at this
  split_ifs at this with hlt
  exact hlt

theorem registry_fifo_midway :
    ∃ p got, runSteps (step (handed ((newRegisterer.register [(), ()]).start () () 0)) 0 1)
        ⟨[7, 8], []⟩ [.send, .recv 1] = some (p, got) ∧
      got.map Prod.snd = [7, 8].take got.length ∧ p.buf ++ p.pending = [7, 8].drop got.length ∧
      p.buf.length ≤ 1 ∧ ∀ x ∈ got, x.1 < (newRegisterer.register [(), ()]).streams.length :=
  ⟨_, _, rfl, @registry_fifo Unit Unit Unit Nat (newRegisterer.register [(), ()]) () () 0 1
    [7, 8] [.send, .recv 1] _ _ rfl⟩

/-- Stream `i`, reading `ch`, receives the values in the channel, oldest first. -/
theorem recv_all {hs : List ChanId} {ch : ChanId} {cap : Nat} {i : Nat} (hi : hs[i]? = some ch)
    (pending buf : List α) :
    runSteps (step hs ch cap) ⟨pending, buf⟩ (List.replicate buf.length (.recv i)) =
      some (⟨pending, []⟩, buf.map (i, ·)) := by
  induction buf with
  | nil => rfl
  | cons x rest ih =>
    rw [List.length_cons, List.replicate_succ, runSteps_cons]
    simp [step, hi, ih]

/-- Then, the channel empty, stream `i` takes each remaining sample as it is sent. -/
theorem handoff_all {hs : List ChanId} {ch : ChanId} {cap : Nat} {i : Nat}
    (hi : hs[i]? = some ch) (pending : List α) :
    runSteps (step hs ch cap) ⟨pending, []⟩ (List.replicate pending.length (.handoff i)) =
      some (⟨[], []⟩, pending.map (i, ·)) := by
  induction pending with
  | nil => rfl
  | cons x rest ih =>
    rw [List.length_cons, List.replicate_succ, runSteps_cons]
    simp [step, hi, ih]

/-- No interleaving gets stuck while a stream is registered: from every point the first
stream can receive everything left, in the order sent, whatever the capacity. -/
theorem registry_drains (r : StreamRegisterer σ) (ctx : κ) (wg : ω) (ch : ChanId) (cap : Nat)
    (hn : 0 < r.streams.length) {samples : List α} {acts : List Action} {p : Pipe α}
    {got : List (Nat × α)}
    (h : runSteps (step (handed (r.start ctx wg ch)) ch cap) ⟨samples, []⟩ acts = some (p, got)) :
    runSteps (step (handed (r.start ctx wg ch)) ch cap) ⟨samples, []⟩
        (acts ++ List.replicate p.buf.length (.recv 0) ++ List.replicate p.pending.length (.handoff 0)) =
      some (⟨[], []⟩, got ++ (samples.drop got.length).map (0, ·)) := by
  have h0 : (handed (r.start ctx wg ch))[0]? = some ch := by
    rw [handed_start, List.getElem?_replicate, if_pos hn]
  rw [List.append_assoc, runSteps_append, h, Option.some_bind, runSteps_append, recv_all h0,
    Option.some_bind, handoff_all h0, ← (run_fifo h).2.1]
  simp

theorem registry_drains_midway :
    0 < (newRegisterer.register [(), ()]).streams.length ∧
      ∃ p got, runSteps (step (handed ((newRegisterer.register [(), ()]).start () () 0)) 0 1)
          ⟨[7, 8], []⟩ [.send, .recv 1] = some (p, got) ∧
        runSteps (step (handed ((newRegisterer.register [(), ()]).start () () 0)) 0 1)
            ⟨[7, 8], []⟩ ([.send, .recv 1] ++ List.replicate p.buf.length (.recv 0) ++
              List.replicate p.pending.length (.handoff 0)) =
          some (⟨[], []⟩, got ++ ([7, 8].drop got.length).map (0, ·)) :=
  ⟨by decide, _, _, rfl, @registry_drains Unit Unit Unit Nat (newRegisterer.register [(), ()])
    () () 0 1 (by decide) [7, 8] [.send, .recv 1] _ _ rfl⟩

end Global
end MetrikaAgent
