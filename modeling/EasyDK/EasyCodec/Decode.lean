import Mathlib.Logic.Relation
import Mathlib.Data.List.Basic
/-!
# The decoder's lifecycle

`easy_decode.cpp`.  A `DecodeHandler` owns a cncodec handle, the atomic `status_`, the flags
`send_eos_` and `got_eos_` under `eos_mtx_`, and a queue of codec events that its own thread,
`EventTaskRunner`, handles one by one.  The user's thread feeds packets (`FeedData`) and the
end of stream (`FeedEos`), pauses and resumes, aborts, and at last destroys the decoder;
cncodec's callback thread queues events.  Each section under a lock, and each access to an
atomic, is one step; `FeedData` checks the flags and then feeds, two steps, so a `FeedEos` can
run between them.  `AbortDecoder` and `ReceiveEOS` run in sections (`Ending`): the test and
drop of `handle_`, the store of `EOS` with `eos_callback`, and `got_eos_` under `eos_mtx_`.

Two things hold under every interleaving.  `FeedEos` checks and sets `send_eos_` under
`eos_mtx_`, so cncodec is handed the end of stream at most once (`eos_fed_once`).  And the
status follows a small automaton, `RUNNING` and `PAUSED` swapped by `Pause` and `Resume` until
the decoder ends in `EOS` or `STOP` for good (`DStep.refines`, `ended_stays`); once it has seen
its end of stream, it has ended, and a decoder without its handle has seen it or has a thread
between the drop of the handle and the store of `got_eos_` (`lifecycle_ended`).  What the
two-step `FeedData` does not give: a `FeedEos` or an abort between its checks and its feed hands
cncodec the packet after the end of stream, or with the handle dropped (`checked_feed_races`).

What `CheckProgressiveMode` returns is the `mode` argument of a step; the progressive path
decodes on the CPU and leaves the lifecycle alone.  The timestamps `FeedVideoData` maps to
cncodec's 32-bit keys, and the frames cncodec returns, are the subject of `Timestamps`: no
lifecycle fact reads them.
-/

namespace EasyDK
namespace EasyCodec

/-- `EasyDecode::Status`. -/
inductive Status
  | running
  | paused
  | eos
  | stop
  deriving DecidableEq, Repr

/-- The events cncodec's callback hands `ReceiveEvent`, which `EventTaskRunner` handles. -/
inductive CodecEvent
  | eos
  | swReset
  | hwReset
  | outOfMemory
  | abortError
  | streamCorrupt
  | unknown
  deriving DecidableEq, Repr

/-- What `FeedData` reads of a `CnPacket`: whether `data` is set, and `length`. -/
structure Packet where
  hasData : Bool
  length : Nat
  deriving DecidableEq, Repr

/-- What the decoder handed cncodec's `FeedData`: a packet, or the end of stream. -/
inductive Input
  | packet
  | eos
  deriving DecidableEq, Repr

/-- How a call of cncodec's `FeedData` ends: accepted, timed out, or failed with another code.
Either failure throws. -/
inductive FeedResult
  | success
  | timeout
  | error
  deriving DecidableEq, Repr

/-- Where a thread is in `AbortDecoder` or `ReceiveEOS`: about to test and drop `handle_`, about
to store `EOS` and call `eos_callback`, or about to set `got_eos_` under `eos_mtx_`. -/
inductive Ending
  | dropHandle
  | storeEos
  | setGotEos
  deriving DecidableEq, Repr

/-- A `DecodeHandler`: whether it decodes JPEG, whether `handle_` is set, `status_`,
`send_eos_`, `got_eos_`, `event_queue_`, where the event thread is in the handler of the event
it popped, where each of the user's calls of `AbortDecoder` is, what cncodec accepted, how many
times `eos_callback` ran, and the packets a `FeedData` has checked and is feeding. -/
structure Decoder where
  jpeg : Bool
  handle : Bool := true
  status : Status := .running
  sendEos : Bool := false
  gotEos : Bool := false
  events : List CodecEvent := []
  handling : Option Ending := none
  aborting : List Ending := []
  fed : List Input := []
  eosCallbacks : Nat := 0
  feeding : List Packet := []
  deriving DecidableEq, Repr

namespace Decoder

/-- `EasyDecode::Pause`: `RUNNING` to `PAUSED` by compare-and-swap. -/
def pause (d : Decoder) : Bool × Decoder :=
  if d.status = .running then (true, { d with status := .paused }) else (false, d)

/-- `EasyDecode::Resume`: `PAUSED` to `RUNNING` by compare-and-swap. -/
def resume (d : Decoder) : Bool × Decoder :=
  if d.status = .paused then (true, { d with status := .running }) else (false, d)

/-- The section of `AbortDecoder` or `ReceiveEOS` that a thread at stage `e` runs: the decoder
after it, and the thread's next stage, `none` once the call returns.  `AbortDecoder` tests
`handle_` and, with a handle, aborts it and drops it, or else only logs; then it stores `EOS`
and calls `eos_callback`, and last sets `got_eos_` under `eos_mtx_`.  `ReceiveEOS` starts at
the store. -/
def ending (d : Decoder) : Ending → Decoder × Option Ending
  | .dropHandle => if d.handle then ({ d with handle := false }, some .storeEos) else (d, none)
  | .storeEos => ({ d with status := .eos, eosCallbacks := d.eosCallbacks + 1 }, some .setGotEos)
  | .setGotEos => ({ d with gotEos := true }, none)

/-- `EasyDecode::AbortDecoder`: the user's thread enters `AbortDecoder`. -/
def abort (d : Decoder) : Decoder := { d with aborting := d.aborting ++ [.dropHandle] }

/-- The next section of a call of `AbortDecoder` of the user's, at stage `e`. -/
def abortStep (d : Decoder) (e : Ending) : Decoder :=
  { (d.ending e).1 with aborting := d.aborting.erase e ++ (d.ending e).2.toList }

/-- How `EventTaskRunner` handles an event it popped: `ReceiveEOS` for the end of stream, nothing
for a corrupt stream, and `AbortDecoder` for every other event. -/
def handleEvent : CodecEvent → Option Ending
  | .eos => some .storeEos
  | .streamCorrupt => none
  | _ => some .dropHandle

/-- One turn of `EventTaskRunner` at its loop: the front event, popped under `event_mtx_`; on an
empty queue, or while it is still in the handler of the last one, it pops nothing. -/
def runEvent (d : Decoder) : Option Decoder :=
  match d.handling, d.events with
  | none, e :: rest => some { d with events := rest, handling := handleEvent e }
  | _, _ => none

/-- The next section of the event thread's handler. -/
def handleStep (d : Decoder) : Option Decoder :=
  d.handling.map fun e => { (d.ending e).1 with handling := (d.ending e).2 }

/-- The checks of `EasyDecode::FeedData`: what it returns at once, or `none` when it goes on to
feed cncodec.  `mode` is what `CheckProgressiveMode` returned for a JPEG packet; a progressive
JPEG is decoded on the CPU and returns `true`. -/
def feedCheck (d : Decoder) (pkt : Packet) (mode : Int) : Option Bool :=
  if !d.handle then some false
  else if d.sendEos then some false
  else if d.status = .paused then some false
  else if pkt.length = 0 ∨ !pkt.hasData then some false
  else if !d.jpeg then none
  else if mode < 0 then some false
  else if mode = 0 then none
  else some true

/-- `FeedVideoData` or `FeedJpegData` once the checks passed: cncodec accepts the packet, or
the feed throws. -/
def feed (d : Decoder) (pkt : Packet) (r : FeedResult) : Decoder :=
  let d := { d with feeding := d.feeding.erase pkt }
  match r with
  | .success => { d with fed := d.fed ++ [.packet] }
  | _ => d

/-- `DecodeHandler::FeedEos`, under `eos_mtx_` throughout: `false` when the end of stream was
fed already; `none` when cncodec's feed fails and the call throws. -/
def feedEos (d : Decoder) (r : FeedResult) : Option (Bool × Decoder) :=
  if d.sendEos then some (false, d)
  else
    match r with
    | .success => some (true, { d with fed := d.fed ++ [.eos], sendEos := true })
    | _ => none

/-- The destructor's first section: `STOP`, and, with no end of stream seen and no handle,
`got_eos_`.  With a handle and no end of stream fed, it goes on to `FeedEos`. -/
def destroy (d : Decoder) : Decoder :=
  let d := { d with status := .stop }
  if !d.gotEos && !d.handle then { d with gotEos := true } else d

theorem feedEos_eq {d d' : Decoder} {r : FeedResult} {b : Bool}
    (h : d.feedEos r = some (b, d')) :
    (d.sendEos = true ∧ d' = d) ∨
      (d.sendEos = false ∧ d' = { d with fed := d.fed ++ [.eos], sendEos := true }) := by
  unfold feedEos at h
  split at h
  · cases h; exact .inl ⟨‹_›, rfl⟩
  · rename_i hs
    cases r <;> cases h
    exact .inr ⟨by simpa using hs, rfl⟩

theorem runEvent_eq {d d' : Decoder} (h : d.runEvent = some d') :
    ∃ e rest, d.handling = none ∧ d.events = e :: rest ∧
      d' = { d with events := rest, handling := handleEvent e } := by
  unfold runEvent at h
  split at h
  · cases h; exact ⟨_, _, ‹_›, ‹_›, rfl⟩
  · cases h

theorem handleStep_eq {d d' : Decoder} (h : d.handleStep = some d') :
    ∃ e, d.handling = some e ∧ d' = { (d.ending e).1 with handling := (d.ending e).2 } := by
  obtain ⟨e, he, rfl⟩ := Option.map_eq_some'.1 h
  exact ⟨e, he, rfl⟩

/-- A section of an ending touches neither what was fed nor where the threads are. -/
@[simp] theorem ending_fed (d : Decoder) (e : Ending) : (d.ending e).1.fed = d.fed := by
  unfold ending; split <;> (try split) <;> rfl

@[simp] theorem ending_sendEos (d : Decoder) (e : Ending) :
    (d.ending e).1.sendEos = d.sendEos := by
  unfold ending; split <;> (try split) <;> rfl

@[simp] theorem ending_feeding (d : Decoder) (e : Ending) :
    (d.ending e).1.feeding = d.feeding := by
  unfold ending; split <;> (try split) <;> rfl

@[simp] theorem ending_handling (d : Decoder) (e : Ending) :
    (d.ending e).1.handling = d.handling := by
  unfold ending; split <;> (try split) <;> rfl

@[simp] theorem ending_aborting (d : Decoder) (e : Ending) :
    (d.ending e).1.aborting = d.aborting := by
  unfold ending; split <;> (try split) <;> rfl

end Decoder

/-- One step of a decoder: a call of the user's thread, an event queued by cncodec's callback,
or a turn of the event thread.  A `FeedData` that returns at once changes nothing. -/
inductive DStep : Decoder → Decoder → Prop
  | pause (d : Decoder) : DStep d d.pause.2
  | resume (d : Decoder) : DStep d d.resume.2
  | feedCheck (d : Decoder) (pkt : Packet) (mode : Int) (h : d.feedCheck pkt mode = none) :
      DStep d { d with feeding := d.feeding ++ [pkt] }
  | feed {d : Decoder} {pkt : Packet} (h : pkt ∈ d.feeding) (r : FeedResult) :
      DStep d (d.feed pkt r)
  | feedEos {d d' : Decoder} {b : Bool} (r : FeedResult) (h : d.feedEos r = some (b, d')) :
      DStep d d'
  | event (d : Decoder) (e : CodecEvent) : DStep d { d with events := d.events ++ [e] }
  | runEvent {d d' : Decoder} (h : d.runEvent = some d') : DStep d d'
  | handle {d d' : Decoder} (h : d.handleStep = some d') : DStep d d'
  | abort (d : Decoder) : DStep d d.abort
  | abortStep {d : Decoder} {e : Ending} (h : e ∈ d.aborting) : DStep d (d.abortStep e)
  | destroy (d : Decoder) : DStep d d.destroy

/-- The states of a decoder built by `EasyDecode`, whose init created its handle. -/
inductive DReachable : Decoder → Prop
  | init (jpeg : Bool) : DReachable { jpeg }
  | step {d d' : Decoder} : DReachable d → DStep d d' → DReachable d'

/-! ## The end of stream is fed once -/

namespace Decoder

/-- cncodec has been handed the end of stream once if `send_eos_` is set, and never
otherwise. -/
def EosOnce (d : Decoder) : Prop := d.fed.count .eos = if d.sendEos then 1 else 0

/-- A section of an ending feeds nothing. -/
theorem EosOnce.ending {d : Decoder} (hd : d.EosOnce) (e : Ending) (d' : Decoder)
    (h : d'.fed = (d.ending e).1.fed) (hs : d'.sendEos = (d.ending e).1.sendEos) : d'.EosOnce := by
  simpa [EosOnce, h, hs] using hd

theorem EosOnce.step {d d' : Decoder} (h : DStep d d') (hd : d.EosOnce) : d'.EosOnce := by
  cases h with
  | pause | resume =>
    simp only [pause, resume]
    split <;> exact hd
  | feedCheck | event => exact hd
  | feed _ r => cases r <;> simpa [feed, EosOnce, List.count_append] using hd
  | feedEos r h =>
    rcases feedEos_eq h with ⟨-, rfl⟩ | ⟨hs, rfl⟩
    · exact hd
    · simp only [EosOnce, hs, List.count_append, List.count_singleton_self] at hd ⊢
      simp [hd]
  | runEvent h =>
    obtain ⟨e, rest, -, -, rfl⟩ := runEvent_eq h
    exact hd
  | handle h =>
    obtain ⟨e, -, rfl⟩ := handleStep_eq h
    exact hd.ending e _ rfl rfl
  | abort => exact hd
  | abortStep => exact hd.ending _ _ rfl rfl
  | destroy =>
    dsimp only [destroy]
    split <;> exact hd

end Decoder

/-- Whatever the user's and the event thread's calls and the destructor interleave, and however
cncodec's feeds end, cncodec is handed the end of stream at most once, exactly when
`send_eos_` is set. -/
theorem eos_fed_once {d : Decoder} (h : DReachable d) :
    d.fed.count .eos ≤ 1 ∧ (d.sendEos = true ↔ Input.eos ∈ d.fed) := by
  have hd : d.EosOnce := by
    induction h with
    | init => rfl
    | step _ hs ih => exact ih.step hs
  unfold Decoder.EosOnce at hd
  rw [← List.count_pos_iff, hd]
  cases d.sendEos <;> simp

/-- `eos_fed_once` once the user fed the end of stream and destroyed the decoder, whose
destructor's `FeedEos` found it fed. -/
theorem eos_fed_once_sample :
    ∃ d, DReachable d ∧ d.status = .stop ∧ Input.eos ∈ d.fed ∧
      (d.fed.count .eos ≤ 1 ∧ (d.sendEos = true ↔ Input.eos ∈ d.fed)) := by
  have h := ((DReachable.init false).step (.feedEos .success rfl)).step (.destroy _)
  have h := h.step (.feedEos .success rfl)
  exact ⟨_, h, rfl, by decide, eos_fed_once h⟩

/-! ## A checked feed races the end of stream and an abort -/

/-- The user's `AbortDecoder` past its test of the handle leaves the decoder without one,
whether it had one or not. -/
theorem Decoder.abort_handle (d : Decoder) : (d.abort.abortStep .dropHandle).handle = false := by
  simp only [Decoder.abortStep, Decoder.abort, Decoder.ending]
  split <;> simp_all

theorem Decoder.abort_feeding (d : Decoder) :
    (d.abort.abortStep .dropHandle).feeding = d.feeding := by
  simp [Decoder.abortStep, Decoder.abort]

/-- The user's call of `AbortDecoder`, from its start past its test of the handle. -/
theorem Decoder.abort_run (d : Decoder) :
    Relation.ReflTransGen DStep d (d.abort.abortStep .dropHandle) :=
  .tail (.single (.abort d)) (.abortStep (List.mem_append_right _ (List.mem_singleton_self _)))

/-- `FeedData` checks `send_eos_` and `handle_` without `eos_mtx_` and then feeds.  From any
state where a `FeedData` has passed its checks and no end of stream was fed, a `FeedEos` can run
in between, and cncodec is then handed the packet after the end of stream; or an `AbortDecoder`
can run in between, and the feed then goes to cncodec with the handle dropped. -/
theorem checked_feed_races {d : Decoder} {pkt : Packet} (hp : pkt ∈ d.feeding)
    (hs : d.sendEos = false) :
    (∃ d', Relation.ReflTransGen DStep d d' ∧ d'.fed = d.fed ++ [.eos, .packet]) ∧
      ∃ d', Relation.ReflTransGen DStep d d' ∧ d'.handle = false ∧ pkt ∈ d'.feeding := by
  have heos : d.feedEos .success =
      some (true, { d with fed := d.fed ++ [.eos], sendEos := true }) := by
    simp [Decoder.feedEos, hs]
  have hfeed := DStep.feed (d := { d with fed := d.fed ++ [.eos], sendEos := true }) hp .success
  exact ⟨⟨_, .tail (.single (.feedEos .success heos)) hfeed, by simp [Decoder.feed]⟩,
    _, d.abort_run, d.abort_handle, by rw [d.abort_feeding]; exact hp⟩

/-- A video decoder whose `FeedData` of a one-byte packet has passed its checks. -/
def racingFeed : Decoder := { jpeg := false, feeding := [⟨true, 1⟩] }

theorem checked_feed_races_sample :
    DReachable racingFeed ∧ ⟨true, 1⟩ ∈ racingFeed.feeding ∧ racingFeed.sendEos = false ∧
      ((∃ d', Relation.ReflTransGen DStep racingFeed d' ∧
          d'.fed = racingFeed.fed ++ [.eos, .packet]) ∧
        ∃ d', Relation.ReflTransGen DStep racingFeed d' ∧
          d'.handle = false ∧ ⟨true, 1⟩ ∈ d'.feeding) :=
  ⟨(DReachable.init false).step (.feedCheck _ ⟨true, 1⟩ 0 rfl), by decide, rfl,
    checked_feed_races (by decide) rfl⟩

/-! ## The lifecycle -/

/-- The decoder's lifecycle as its users see it. -/
inductive Phase
  | running
  | paused
  | ended
  deriving DecidableEq, Repr

/-- `Pause` and `Resume` swap a running and a paused decoder, which may end from any phase and
then stays ended. -/
inductive PhaseStep : Phase → Phase → Prop
  | pause : PhaseStep .running .paused
  | resume : PhaseStep .paused .running
  | finish (p : Phase) : PhaseStep p .ended

theorem PhaseStep.of_ended {p : Phase} (h : PhaseStep .ended p) : p = .ended := by
  cases h; rfl

theorem PhaseStep.stays_ended {p q : Phase} (h : Relation.ReflTransGen PhaseStep p q)
    (hp : p = .ended) : q = .ended := by
  induction h with
  | refl => exact hp
  | tail _ hs ih => exact (ih ▸ hs).of_ended

/-- The phase of a status: `EOS` and `STOP` have ended. -/
def Status.phase : Status → Phase
  | .running => .running
  | .paused => .paused
  | .eos | .stop => .ended

namespace Decoder

theorem phase_pause (d : Decoder) :
    d.pause.2.status.phase = d.status.phase ∨
      PhaseStep d.status.phase d.pause.2.status.phase := by
  unfold pause
  split
  · rename_i h; rw [h]; exact .inr .pause
  · exact .inl rfl

theorem phase_resume (d : Decoder) :
    d.resume.2.status.phase = d.status.phase ∨
      PhaseStep d.status.phase d.resume.2.status.phase := by
  unfold resume
  split
  · rename_i h; rw [h]; exact .inr .resume
  · exact .inl rfl

/-- Only the store of `EOS` moves the phase: to its end. -/
theorem phase_ending (d : Decoder) (e : Ending) :
    (d.ending e).1.status.phase = d.status.phase ∨
      PhaseStep d.status.phase (d.ending e).1.status.phase := by
  cases e with
  | dropHandle => left; simp only [ending]; split <;> rfl
  | storeEos => exact .inr (.finish _)
  | setGotEos => exact .inl rfl

theorem phase_destroy (d : Decoder) : PhaseStep d.status.phase d.destroy.status.phase := by
  dsimp only [destroy]
  split <;> exact .finish _

end Decoder

/-- Every step of the decoder is a step of its lifecycle, or leaves the phase alone. -/
theorem DStep.refines {d d' : Decoder} (h : DStep d d') :
    d'.status.phase = d.status.phase ∨ PhaseStep d.status.phase d'.status.phase := by
  cases h with
  | pause => exact d.phase_pause
  | resume => exact d.phase_resume
  | feedCheck | event => exact .inl rfl
  | feed _ r => cases r <;> exact .inl rfl
  | feedEos r h =>
    rcases Decoder.feedEos_eq h with ⟨-, rfl⟩ | ⟨-, rfl⟩ <;> exact .inl rfl
  | runEvent h =>
    obtain ⟨e, rest, -, -, rfl⟩ := Decoder.runEvent_eq h
    exact .inl rfl
  | handle h =>
    obtain ⟨e, -, rfl⟩ := Decoder.handleStep_eq h
    exact d.phase_ending e
  | abort => exact .inl rfl
  | abortStep => exact d.phase_ending _
  | destroy => exact .inr d.phase_destroy

theorem DStep.refines_run {d d' : Decoder} (h : Relation.ReflTransGen DStep d d') :
    Relation.ReflTransGen PhaseStep d.status.phase d'.status.phase := by
  induction h with
  | refl => exact .refl
  | tail _ hs ih =>
    rcases hs.refines with he | hs
    · exact he ▸ ih
    · exact ih.tail hs

/-- A decoder in `EOS` or `STOP` stays there, whatever runs: neither `Resume` nor `Pause` brings
it back. -/
theorem ended_stays {d d' : Decoder} (h : Relation.ReflTransGen DStep d d')
    (hd : d.status.phase = .ended) : d'.status.phase = .ended :=
  PhaseStep.stays_ended (DStep.refines_run h) hd

/-- A video decoder whose user's `AbortDecoder` has dropped the handle and stored `EOS`. -/
def abortedDecoder : Decoder :=
  ((({ jpeg := false } : Decoder).abort.abortStep .dropHandle).abortStep .storeEos)

/-- `ended_stays` for an aborted decoder that is then resumed. -/
theorem ended_stays_sample :
    Relation.ReflTransGen DStep abortedDecoder abortedDecoder.resume.2 ∧
      abortedDecoder.status.phase = .ended ∧ abortedDecoder.resume.2.status.phase = .ended :=
  have h : Relation.ReflTransGen DStep abortedDecoder abortedDecoder.resume.2 := .single (.resume _)
  ⟨h, rfl, ended_stays h rfl⟩

namespace Decoder

/-- The stages of the threads inside `AbortDecoder` or `ReceiveEOS`: the event thread's, and
those of the user's calls. -/
def stages (d : Decoder) : List Ending := d.handling.toList ++ d.aborting

/-- A decoder without its handle has seen its end of stream, or a thread is between its drop of
the handle and its store of `got_eos_`; a decoder that has seen its end of stream, or whose
`got_eos_` a thread is about to set, has ended. -/
def Lifecycle (d : Decoder) : Prop :=
  (d.handle = false → d.gotEos = true ∨ .storeEos ∈ d.stages ∨ .setGotEos ∈ d.stages) ∧
    (d.gotEos = true → d.status.phase = .ended) ∧
    (.setGotEos ∈ d.stages → d.status.phase = .ended)

/-- A thread at stage `e` runs its section and goes on to its next stage: the other threads
stay where they were, and no thread comes. -/
theorem Lifecycle.ending {d d' : Decoder} {e : Ending} (hd : d.Lifecycle) (he : e ∈ d.stages)
    (hhandle : d'.handle = (d.ending e).1.handle) (hgot : d'.gotEos = (d.ending e).1.gotEos)
    (hstatus : d'.status = (d.ending e).1.status)
    (hin : ∀ x ∈ d'.stages, x ∈ d.stages ∨ (d.ending e).2 = some x)
    (hkeep : ∀ x ∈ d.stages, x ≠ e → x ∈ d'.stages)
    (hnext : ∀ x, (d.ending e).2 = some x → x ∈ d'.stages) : d'.Lifecycle := by
  obtain ⟨hh, hg, hs⟩ := hd
  cases e with
  | dropHandle =>
    have hset : Ending.setGotEos ∈ d'.stages → d.status.phase = .ended := fun h' => by
      rcases hin _ h' with h' | h'
      · exact hs h'
      · simp only [Decoder.ending] at h'; split at h' <;> cases h'
    cases hdh : d.handle
    case true =>
      simp only [Decoder.ending, hdh, if_true] at hgot hstatus hnext
      exact ⟨fun _ => .inr (.inl (hnext _ rfl)), fun h' => hstatus ▸ hg (hgot ▸ h'),
        fun h' => hstatus ▸ hset h'⟩
    case false =>
      simp only [Decoder.ending, hdh, Bool.false_eq_true, if_false] at hgot hstatus
      refine ⟨fun _ => ?_, fun h' => hstatus ▸ hg (hgot ▸ h'), fun h' => hstatus ▸ hset h'⟩
      rcases hh hdh with h' | h' | h'
      · exact .inl (hgot ▸ h')
      · exact .inr (.inl (hkeep _ h' nofun))
      · exact .inr (.inr (hkeep _ h' nofun))
  | storeEos =>
    have hend : d'.status.phase = .ended := by rw [hstatus]; rfl
    exact ⟨fun _ => .inr (.inr (hnext _ rfl)), fun _ => hend, fun _ => hend⟩
  | setGotEos =>
    have hend : d'.status.phase = .ended := hstatus ▸ hs he
    exact ⟨fun _ => .inl hgot, fun _ => hend, fun _ => hend⟩

/-- A thread that enters `AbortDecoder` or `ReceiveEOS` at its first section. -/
theorem Lifecycle.enter {d d' : Decoder} (hd : d.Lifecycle) (hhandle : d'.handle = d.handle)
    (hgot : d'.gotEos = d.gotEos) (hstatus : d'.status = d.status)
    (hin : ∀ x ∈ d'.stages, x ∈ d.stages ∨ x ≠ .setGotEos)
    (hkeep : ∀ x ∈ d.stages, x ∈ d'.stages) : d'.Lifecycle := by
  obtain ⟨hh, hg, hs⟩ := hd
  refine ⟨fun h' => ?_, fun h' => hstatus ▸ hg (hgot ▸ h'), fun h' => hstatus ▸ ?_⟩
  · rcases hh (hhandle ▸ h') with h' | h' | h'
    · exact .inl (hgot ▸ h')
    · exact .inr (.inl (hkeep _ h'))
    · exact .inr (.inr (hkeep _ h'))
  · rcases hin _ h' with h' | h'
    · exact hs h'
    · exact absurd rfl h'

/-- A decoder that has not ended has not seen its end of stream, so its status may change. -/
theorem Lifecycle.with_status {d : Decoder} (hd : d.Lifecycle) (hs : d.status.phase ≠ .ended)
    (s : Status) : { d with status := s }.Lifecycle :=
  ⟨hd.1, fun hg => absurd (hd.2.1 hg) hs, fun h => absurd (hd.2.2 h) hs⟩

theorem Lifecycle.step {d d' : Decoder} (h : DStep d d') (hd : d.Lifecycle) : d'.Lifecycle := by
  cases h with
  | pause | resume =>
    simp only [pause, resume]
    split
    · exact hd.with_status (by simp [*, Status.phase]) _
    · exact hd
  | feedCheck | event => exact hd
  | feed _ r => cases r <;> exact hd
  | feedEos r h => rcases feedEos_eq h with ⟨-, rfl⟩ | ⟨-, rfl⟩ <;> exact hd
  | runEvent h =>
    obtain ⟨e, rest, hn, -, rfl⟩ := runEvent_eq h
    have hst : d.stages = d.aborting := by simp [stages, hn]
    refine hd.enter rfl rfl rfl (fun x hx => ?_) (fun x hx => List.mem_append_right _ (hst ▸ hx))
    rcases List.mem_append.1 hx with hx | hx
    · exact .inr (by cases e <;> simp_all [handleEvent])
    · exact .inl (hst ▸ hx)
  | handle h =>
    obtain ⟨e, he, rfl⟩ := handleStep_eq h
    refine hd.ending (by simp [stages, he]) rfl rfl rfl (fun x hx => ?_) (fun x hx hne => ?_)
      (fun x hx => by simp [stages, hx])
    · simp only [stages, ending_aborting, List.mem_append, Option.mem_toList] at hx
      exact hx.symm.imp (fun hx => by simp [stages, hx]) id
    · simp_all [stages]
  | abort =>
    have hst : d.abort.stages = d.stages ++ [.dropHandle] := by simp [stages, abort]
    refine hd.enter rfl rfl rfl (fun x hx => ?_) (fun x hx => hst ▸ List.mem_append_left _ hx)
    exact (List.mem_append.1 (hst ▸ hx)).imp_right fun h => by rw [List.mem_singleton.1 h]; nofun
  | @abortStep e he =>
    refine hd.ending (by simp [stages, he]) rfl rfl rfl (fun x hx => ?_) (fun x hx hne => ?_)
      (fun x hx => by simp [stages, abortStep, hx])
    · simp only [stages, abortStep, ending_handling, List.mem_append, Option.mem_toList] at hx
      rcases hx with hx | hx | hx
      · exact .inl (by simp [stages, hx])
      · exact .inl (by simp [stages, List.mem_of_mem_erase hx])
      · exact .inr hx
    · simp only [stages, abortStep, ending_handling, List.mem_append,
        List.mem_erase_of_ne hne] at hx ⊢
      exact hx.imp_right .inl
  | destroy =>
    dsimp only [destroy]
    split
    · exact ⟨fun _ => .inl rfl, fun _ => rfl, fun _ => rfl⟩
    · rename_i hg
      refine ⟨fun hh => .inl ?_, fun _ => rfl, fun _ => rfl⟩
      simp only at hh
      simpa [hh] using hg

end Decoder

/-- Under every interleaving, a decoder that has lost its handle has seen its end of stream, or
a thread is inside `AbortDecoder` or `ReceiveEOS` between its drop of the handle and its store of
`got_eos_`; and a decoder that has seen its end of stream, or whose `got_eos_` a thread is about
to set, is in `EOS` or `STOP`. -/
theorem lifecycle_ended {d : Decoder} (h : DReachable d) :
    (d.handle = false → d.gotEos = true ∨ .storeEos ∈ d.stages ∨ .setGotEos ∈ d.stages) ∧
      (d.gotEos = true → d.status.phase = .ended) ∧
      (.setGotEos ∈ d.stages → d.status.phase = .ended) := by
  induction h with
  | init => exact ⟨nofun, nofun, nofun⟩
  | step _ hs ih => exact Decoder.Lifecycle.step hs ih

/-- `lifecycle_ended` once the event thread's handler of a hardware reset has dropped the handle:
the decoder has no handle and has not seen its end of stream, and the handler is about to store
`EOS`. -/
theorem lifecycle_ended_sample :
    ∃ d, DReachable d ∧ d.handle = false ∧ d.gotEos = false ∧
      ((d.handle = false → d.gotEos = true ∨ .storeEos ∈ d.stages ∨ .setGotEos ∈ d.stages) ∧
        (d.gotEos = true → d.status.phase = .ended) ∧
        (.setGotEos ∈ d.stages → d.status.phase = .ended)) := by
  have h := (((DReachable.init true).step (.event _ .hwReset)).step (.runEvent rfl)).step
    (.handle rfl)
  exact ⟨_, h, rfl, rfl, lifecycle_ended h⟩

end EasyCodec
end EasyDK
