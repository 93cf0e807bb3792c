import EasyDK.EasyCodec.Decode
import Mathlib
/-!
# The event thread and its join

`EventTaskRunner` loops under `event_mtx_` while an event is queued or `got_eos_` is unset, and
sleeps on `event_cond_` until one of the two changes.  `ReceiveEvent` queues an event and calls
`notify_one` under `event_mtx_`.  `got_eos_` is written under `eos_mtx_`, and the destructor
calls `event_cond_.notify_all()` without `event_mtx_` before `event_loop_.join()`.  The thread
that sets `got_eos_` and notifies does not take the mutex of the wait, so its notification can
come while the event thread has found the predicate false and not yet slept: it is lost.

When the decoder is destroyed in that window, after an abort by the user or with no handle, as
when `EasyDecode`'s constructor deletes a handler whose creation failed, the event thread
sleeps for good and the join never returns: from the state the steps reach, no step of the
event thread or of the user's thread is enabled, and only a new event from cncodec, which has no
handle left, could wake the event thread (`event_loop_hangs`).  The user's thread first ends
the call of `AbortDecoder` it may be in: every call ends, section by section (`Loop.drain`).

Each step of the threads changes the decoder as a step of `DStep` or not at all
(`LStep.dstep`), so every fact of the lifecycle holds of the threaded model
(`LRun.dreachable`).  The user's calls other than the end of stream, the abort and the
destructor touch neither the queue nor `got_eos_` and are left out.
-/

namespace EasyDK
namespace EasyCodec

/-- Where `EventTaskRunner` is: at the test of its loop or of its wait, holding `event_mtx_`;
past a false predicate and about to sleep, still holding it; asleep on `event_cond_`; or out of
the loop, so that `event_loop_.join()` returns. -/
inductive Runner
  | awake
  | blocking
  | asleep
  | exited
  deriving DecidableEq, Repr

/-- A notification on `event_cond_`: a sleeping event thread wakes, and one about to sleep does
not see it. -/
def Runner.wake : Runner → Runner
  | .asleep => .awake
  | r => r

/-- Where the user's thread is in the destructor: not in it, waiting for `got_eos_`, or at
`event_loop_.join()`. -/
inductive Teardown
  | live
  | waitEos
  | joining
  deriving DecidableEq, Repr

/-- A decoder with its event thread and the user's thread. -/
structure Loop where
  dec : Decoder
  runner : Runner := .awake
  teardown : Teardown := .live
  deriving DecidableEq, Repr

/-- Who makes a step: the event thread, the user's thread, or cncodec's callback thread. -/
inductive Party
  | runner
  | user
  | codec
  deriving DecidableEq, Repr

/-- A step of one thread. -/
inductive LStep : Party → Loop → Loop → Prop
  /-- The front event, popped under `event_mtx_`, which the thread lets go of to handle it. -/
  | runEvent {s : Loop} {d : Decoder} (hr : s.runner = .awake) (h : s.dec.runEvent = some d) :
      LStep .runner s { s with dec := d }
  /-- The next section of the handler of the event popped. -/
  | handle {s : Loop} {d : Decoder} (hr : s.runner = .awake) (h : s.dec.handleStep = some d) :
      LStep .runner s { s with dec := d }
  /-- Back under `event_mtx_`, nothing queued and `got_eos_` set: the loop ends. -/
  | exit {s : Loop} (hr : s.runner = .awake) (hh : s.dec.handling = none)
      (he : s.dec.events = []) (hg : s.dec.gotEos = true) :
      LStep .runner s { s with runner := .exited }
  /-- Back under `event_mtx_`, nothing queued and `got_eos_` unset: the wait's predicate is
  false. -/
  | block {s : Loop} (hr : s.runner = .awake) (hh : s.dec.handling = none)
      (he : s.dec.events = []) (hg : s.dec.gotEos = false) :
      LStep .runner s { s with runner := .blocking }
  /-- The wait lets go of `event_mtx_` and sleeps, at once. -/
  | sleep {s : Loop} (hr : s.runner = .blocking) : LStep .runner s { s with runner := .asleep }
  /-- `ReceiveEvent`, which cannot take `event_mtx_` while the event thread holds it at its
  wait. -/
  | event {s : Loop} (e : CodecEvent) (hr : s.runner ≠ .blocking) :
      LStep .codec s
        { s with dec := { s.dec with events := s.dec.events ++ [e] }, runner := s.runner.wake }
  /-- The user's thread calls `EasyDecode::AbortDecoder`, which notifies `eos_cond_` only. -/
  | abort {s : Loop} (ht : s.teardown = .live) (ha : s.dec.aborting = []) :
      LStep .user s { s with dec := s.dec.abort }
  /-- The next section of the user's `AbortDecoder`. -/
  | abortStep {s : Loop} {e : Ending} (ht : s.teardown = .live) (he : e ∈ s.dec.aborting) :
      LStep .user s { s with dec := s.dec.abortStep e }
  /-- `FeedEos`, called by the user or by the destructor. -/
  | feedEos {s : Loop} {b : Bool} {d : Decoder} (ht : s.teardown ≠ .joining)
      (ha : s.dec.aborting = []) (r : FeedResult) (h : s.dec.feedEos r = some (b, d)) :
      LStep .user s { s with dec := d }
  /-- The destructor's first section. -/
  | destroy {s : Loop} (ht : s.teardown = .live) (ha : s.dec.aborting = []) :
      LStep .user s { s with dec := s.dec.destroy, teardown := .waitEos }
  /-- With `got_eos_` set, `event_cond_.notify_all()`, and on to the join. -/
  | notifyAll {s : Loop} (ht : s.teardown = .waitEos) (hg : s.dec.gotEos = true) :
      LStep .user s { s with runner := s.runner.wake, teardown := .joining }

/-- A step of any thread. -/
def LRun : Loop → Loop → Prop := Relation.ReflTransGen fun s s' => ∃ p, LStep p s s'

/-- Every step of the threads is a step of the lifecycle, or leaves the decoder alone. -/
theorem LStep.dstep {p : Party} {s s' : Loop} (h : LStep p s s') :
    s'.dec = s.dec ∨ DStep s.dec s'.dec := by
  cases h with
  | runEvent _ h => exact .inr (.runEvent h)
  | handle _ h => exact .inr (.handle h)
  | exit | block | sleep | notifyAll => exact .inl rfl
  | event e => exact .inr (.event _ e)
  | abort => exact .inr (.abort _)
  | abortStep _ he => exact .inr (.abortStep he)
  | feedEos _ _ r h => exact .inr (.feedEos r h)
  | destroy => exact .inr (.destroy _)

/-- The decoder of a run of the threads is a reachable decoder of the lifecycle. -/
theorem LRun.dreachable {s s' : Loop} (h : LRun s s') (hd : DReachable s.dec) :
    DReachable s'.dec := by
  induction h with
  | refl => exact hd
  | tail _ hs ih =>
    obtain ⟨_, hs⟩ := hs
    rcases hs.dstep with he | hs
    · exact he ▸ ih
    · exact ih.step hs

/-- Asleep with the user's thread at the join, only cncodec can move the threads. -/
theorem LStep.codec_of_asleep {p : Party} {s s' : Loop} (hr : s.runner = .asleep)
    (ht : s.teardown = .joining) (h : LStep p s s') : p = .codec := by
  cases h <;> simp_all

/-- With the event thread about to sleep and `got_eos_` set, the destructor's `notify_all`
comes first, and the event thread sleeps with the destructor at the join. -/
theorem hang_of_waitEos {s : Loop} (hb : s.runner = .blocking) (ht : s.teardown = .waitEos)
    (hg : s.dec.gotEos = true) :
    ∃ s', Relation.ReflTransGen (fun s s' => ∃ p, p ≠ .codec ∧ LStep p s s') s s' ∧
      s'.runner = .asleep ∧ s'.teardown = .joining ∧ ∀ p s'', LStep p s' s'' → p = .codec :=
  ⟨_, .tail (.single ⟨.user, nofun, .notifyAll ht hg⟩) ⟨.runner, nofun, .sleep (by rw [hb]; rfl)⟩,
    rfl, rfl, fun _ _ h => h.codec_of_asleep rfl rfl⟩

/-- How many sections a thread at each stage of `AbortDecoder` has still to run, at most. -/
def Ending.rank : Ending → Nat
  | .dropHandle => 3
  | .storeEos => 2
  | .setGotEos => 1

/-- A section takes the thread to a stage of lower rank, or out of the call. -/
theorem Decoder.ending_rank (d : Decoder) (e : Ending) :
    ((d.ending e).2.toList.map Ending.rank).sum < e.rank := by
  cases e <;> simp only [Decoder.ending] <;> (try split) <;> simp [Ending.rank]

theorem Decoder.abortStep_rank {d : Decoder} {e : Ending} (he : e ∈ d.aborting) :
    ((d.abortStep e).aborting.map Ending.rank).sum < (d.aborting.map Ending.rank).sum := by
  have herase := List.sum_map_erase Ending.rank he
  have hnext := d.ending_rank e
  simp only [Decoder.abortStep, List.map_append, List.sum_append]
  omega

/-- The user's thread ends the call of `AbortDecoder` it is in, while the other threads stand
still. -/
theorem Loop.drain (s : Loop) (ht : s.teardown = .live) :
    ∃ s', Relation.ReflTransGen (fun s s' => ∃ p, p ≠ .codec ∧ LStep p s s') s s' ∧
      s'.runner = s.runner ∧ s'.teardown = .live ∧ s'.dec.aborting = [] := by
  generalize hn : (s.dec.aborting.map Ending.rank).sum = n
  induction n using Nat.strong_induction_on generalizing s with
  | _ n ih =>
    cases ha : s.dec.aborting with
    | nil => exact ⟨s, .refl, rfl, ht, ha⟩
    | cons e rest =>
      have he : e ∈ s.dec.aborting := ha ▸ List.mem_cons_self e rest
      obtain ⟨s', hrun, hr, ht', ha'⟩ :=
        ih _ (hn ▸ Decoder.abortStep_rank he) { s with dec := s.dec.abortStep e } ht rfl
      exact ⟨s', .head ⟨.user, nofun, .abortStep ht he⟩ hrun, hr, ht', ha'⟩

/-- An event thread that found nothing queued and `got_eos_` unset, and is about to sleep, while
the user's thread destroys the decoder: after an abort, which sets `got_eos_`, when there is a
handle, and at once when there is none, as when `EasyDecode`'s constructor deletes a handler
whose `InitVideoDecode` failed; the destructor then sets `got_eos_` itself.  Its `notify_all`
comes before the sleep, and the event thread sleeps with the destructor at the join.  From there
no step of the event thread or of the user's thread is enabled. -/
theorem event_loop_hangs {s : Loop} (hb : s.runner = .blocking) (ht : s.teardown = .live) :
    ∃ s', Relation.ReflTransGen (fun s s' => ∃ p, p ≠ .codec ∧ LStep p s s') s s' ∧
      s'.runner = .asleep ∧ s'.teardown = .joining ∧ ∀ p s'', LStep p s' s'' → p = .codec := by
  obtain ⟨s₁, hrun₁, hr₁, ht₁, ha₁⟩ := s.drain ht
  have hb₁ : s₁.runner = .blocking := hr₁.trans hb
  cases hh : s₁.dec.handle
  case false =>
    obtain ⟨s', hrun, hend⟩ := hang_of_waitEos
      (s := { s₁ with dec := s₁.dec.destroy, teardown := .waitEos }) hb₁ rfl
      (by simp only [Decoder.destroy, hh]; split <;> simp_all)
    exact ⟨s', hrun₁.trans (.head ⟨.user, nofun, .destroy ht₁ ha₁⟩ hrun), hend⟩
  case true =>
    -- the user's `AbortDecoder`, section by section, then the destructor
    let d₁ := s₁.dec.abort.abortStep .dropHandle
    let d₂ := d₁.abortStep .storeEos
    have h₁ : d₁.aborting = [.storeEos] := by simp [d₁, Decoder.abortStep, Decoder.abort,
      Decoder.ending, hh, ha₁]
    have h₂ : d₂.aborting = [.setGotEos] := by simp [d₂, Decoder.abortStep, Decoder.ending, h₁]
    have h₃ : (d₂.abortStep .setGotEos).aborting = [] ∧ (d₂.abortStep .setGotEos).gotEos = true :=
      by simp [Decoder.abortStep, Decoder.ending, h₂]
    have habort : Relation.ReflTransGen (fun s s' => ∃ p, p ≠ .codec ∧ LStep p s s') s₁
        { s₁ with dec := d₂.abortStep .setGotEos } :=
      (((Relation.ReflTransGen.single ⟨.user, nofun, .abort ht₁ ha₁⟩).tail
        ⟨.user, nofun, .abortStep ht₁ (by simp [Decoder.abort, ha₁])⟩).tail
        ⟨.user, nofun, .abortStep ht₁ (by rw [h₁]; exact List.mem_singleton_self _)⟩).tail
        ⟨.user, nofun, .abortStep ht₁ (by rw [h₂]; exact List.mem_singleton_self _)⟩
    obtain ⟨s', hrun, hend⟩ := hang_of_waitEos
      (s := { s₁ with dec := (d₂.abortStep .setGotEos).destroy, teardown := .waitEos }) hb₁ rfl
      (by simp [Decoder.destroy, h₃.2])
    exact ⟨s', hrun₁.trans (habort.trans (.head ⟨.user, nofun, .destroy ht₁ h₃.1⟩ hrun)), hend⟩

/-- A decoder just created, whose event thread found nothing to do. -/
def blockedLoop : Loop := { dec := { jpeg := false }, runner := .blocking }

theorem event_loop_hangs_sample :
    LStep .runner { dec := { jpeg := false } } blockedLoop ∧
      ∃ s', Relation.ReflTransGen (fun s s' => ∃ p, p ≠ .codec ∧ LStep p s s') blockedLoop s' ∧
        s'.runner = .asleep ∧ s'.teardown = .joining ∧ ∀ p s'', LStep p s' s'' → p = .codec :=
  ⟨.block rfl rfl rfl rfl, event_loop_hangs rfl rfl⟩

end EasyCodec
end EasyDK
