import EasyDK.EasyCodec.Decode
import Mathlib.Data.List.Nodup
import Mathlib.Logic.Relation
/-!
# Timestamps of a video decoder

The m200 video codec carries 32-bit timestamps only, so `FeedVideoData` does not hand cncodec
the user's 64-bit pts.  `SetVpuTimestamp` files the pts in `vpu_pts_map_` under the key
`pts_key_++`, a `uint32_t` that wraps, and the packet goes to cncodec with that key;
`ReceiveFrame` hands the key cncodec returns with a frame to `GetVpuTimestamp`, which yields the
pts and erases the record.  A feed that throws, after three timeouts or at an error, first erases
its record with `GetVpuTimestamp(key, nullptr)`.

The round trip holds whatever order cncodec returns its frames in and whichever feeds fail, as
long as no packet stays with cncodec while `2^32` more are fed: each frame gets the pts its
packet was fed with, and the map holds a record for exactly the packets cncodec holds, so
neither a failed feed nor a returned frame leaves one behind (`pts_round_trip`).  The bound is
needed: feeds that bring `pts_key_` round to a held packet's key file the next packet's pts over
the held one's (`pts_key_wrap`).

Besides `pts_key_` and `vpu_pts_map_`, a `PtsRun` keeps ghost state: how many keys have been
handed out, unwrapped, and the packets cncodec holds, each with the number of its key and the
user's pts.  cncodec returns a frame with the timestamp it was fed, in any order.
-/

namespace EasyDK
namespace EasyCodec

/-- A handful of keys handed out in a row, fewer than `2^32`, are distinct. -/
theorem key_ne {a b : Nat} (hab : a < b) (hb : b < a + UInt32.size) :
    a % UInt32.size ≠ b % UInt32.size := by
  simp only [UInt32.size] at *; omega

/-- `pts_key_` and `vpu_pts_map_`, each key with the pts filed under it. -/
structure PtsMap where
  key : Nat := 0
  records : Nat → Option Nat := fun _ => none

namespace PtsMap

/-- `SetVpuTimestamp(pts)`: the key `pts_key_++` hands out, with the pts filed under it. -/
def setVpuTimestamp (m : PtsMap) (pts : Nat) : Nat × PtsMap :=
  (m.key, { key := (m.key + 1) % UInt32.size,
            records := fun k => if k = m.key then some pts else m.records k })

/-- `GetVpuTimestamp(key, pts)`, `out` saying whether `pts` is set: the value written to `*pts`,
present exactly when the call returns `true`.  A record found is erased either way. -/
def getVpuTimestamp (m : PtsMap) (key : Nat) (out : Bool) : Option Nat × PtsMap :=
  match m.records key with
  | some pts =>
    (if out then some pts else none,
      { m with records := fun k => if k = key then none else m.records k })
  | none => (none, m)

/-- The pts `ReceiveFrame` gives a video frame that cncodec returned with timestamp `vpuPts`: the
one `GetVpuTimestamp` finds under its low 32 bits, or none, when the frame keeps cncodec's. -/
def receiveFramePts (m : PtsMap) (vpuPts : Nat) : Option Nat × PtsMap :=
  m.getVpuTimestamp (vpuPts % UInt32.size) true

@[simp] theorem setVpuTimestamp_records (m : PtsMap) (pts k : Nat) :
    (m.setVpuTimestamp pts).2.records k = if k = m.key then some pts else m.records k := rfl

/-- A lookup that finds a record returns it and erases it, and only it. -/
theorem getVpuTimestamp_some {m : PtsMap} {key pts : Nat} (h : m.records key = some pts)
    (out : Bool) :
    (m.getVpuTimestamp key out).1 = (if out then some pts else none) ∧
      ∀ k, (m.getVpuTimestamp key out).2.records k = if k = key then none else m.records k := by
  simp [getVpuTimestamp, h]

end PtsMap

/-! ## Feeding a packet -/

/-- How the retry loop of `FeedVideoData` ends: cncodec took the packet, the loop ran out of
tries (it never does, `feedRetry_ne_fellThrough`), or the call throws after its third timeout
or at an error. -/
inductive FeedEnd
  | fed
  | fellThrough
  | timedOut
  | failed
  deriving DecidableEq, Repr

/-- `while (retry_time--)` around `cnvideoDecFeedData`, with `retry_time` tries left; `ecode i`
answers the call made after `i` others. -/
def feedRetry (ecode : Nat → FeedResult) : Nat → Nat → FeedEnd
  | 0, _ => .fellThrough
  | r + 1, i =>
    match ecode i with
    | .success => .fed
    | .timeout => if r = 0 then .timedOut else feedRetry ecode r (i + 1)
    | .error => .failed

/-- How the loop ends when its last call of cncodec answers so. -/
def FeedEnd.ofResult : FeedResult → FeedEnd
  | .success => .fed
  | .timeout => .timedOut
  | .error => .failed

/-- With `r + 1` tries left from call `i`, the loop calls again only after a timeout, and ends as
its last call answers: the first answer that is not a timeout, or the last try's. -/
theorem feedRetry_first (ecode : Nat → FeedResult) (r : Nat) : ∀ i, ∃ k ≤ r,
    (∀ j < k, ecode (i + j) = .timeout) ∧ (ecode (i + k) ≠ .timeout ∨ k = r) ∧
      feedRetry ecode (r + 1) i = .ofResult (ecode (i + k)) := by
  induction r with
  | zero =>
    intro i
    refine ⟨0, le_rfl, nofun, .inr rfl, ?_⟩
    cases h : ecode i <;> simp [feedRetry, h, FeedEnd.ofResult]
  | succ r ih =>
    intro i
    cases h : ecode i with
    | timeout =>
      obtain ⟨k, hk, hbefore, hstop, heq⟩ := ih (i + 1)
      have hshift : ∀ j, i + (j + 1) = i + 1 + j := fun j => by omega
      refine ⟨k + 1, by omega, fun j hj => ?_,
        by rw [hshift]; exact hstop.imp id (by omega), ?_⟩
      · cases j with
        | zero => exact h
        | succ j => rw [hshift]; exact hbefore j (by omega)
      · rw [hshift, ← heq]; simp [feedRetry, h]
    | success | error =>
      exact ⟨0, Nat.zero_le _, nofun, by simp [h], by simp [feedRetry, h, FeedEnd.ofResult]⟩

/-- The loop ends in an answer of cncodec or an exception: the third timeout throws before the
loop condition fails. -/
theorem feedRetry_ne_fellThrough (ecode : Nat → FeedResult) (r i : Nat) :
    feedRetry ecode (r + 1) i ≠ .fellThrough := by
  obtain ⟨k, -, -, -, heq⟩ := feedRetry_first ecode r i
  rw [heq]; cases ecode (i + k) <;> nofun

/-- `FeedVideoData` on the timestamp map, `ecode` answering its calls of `cnvideoDecFeedData`:
the key the packet went to cncodec with, how the feed ended, and the map after it.  A feed that
throws has erased its record. -/
def PtsMap.feedVideoData (m : PtsMap) (pts : Nat) (ecode : Nat → FeedResult) :
    Nat × FeedEnd × PtsMap :=
  let (key, m) := m.setVpuTimestamp pts
  match feedRetry ecode 3 0 with
  | .timedOut => (key, .timedOut, (m.getVpuTimestamp key false).2)
  | .failed => (key, .failed, (m.getVpuTimestamp key false).2)
  | e => (key, e, m)

/-- `FeedVideoData` calls `cnvideoDecFeedData` at most three times, again only after a timeout,
and ends as the last call answers: a success feeds the packet, a third timeout throws
`TIMEOUT`, and an error throws `INTERNAL`. -/
theorem feedVideoData_retry (m : PtsMap) (pts : Nat) (ecode : Nat → FeedResult) :
    ∃ k < 3, (∀ j < k, ecode j = .timeout) ∧ (ecode k ≠ .timeout ∨ k = 2) ∧
      (m.feedVideoData pts ecode).2.1 = .ofResult (ecode k) := by
  obtain ⟨k, hk, hbefore, hstop, heq⟩ := feedRetry_first ecode 2 0
  simp only [Nat.zero_add] at hbefore heq
  refine ⟨k, by omega, hbefore, by simpa using hstop, ?_⟩
  unfold PtsMap.feedVideoData
  rw [heq]
  cases ecode k <;> rfl

/-! ## Runs -/

/-- The timestamp side of a video decoder and cncodec: the map, how many keys
`SetVpuTimestamp` has handed out, unwrapped, and the packets cncodec holds, each with the number
of its key and the user's pts. -/
structure PtsRun where
  map : PtsMap := {}
  issued : Nat := 0
  held : List (Nat × Nat) := []

namespace PtsRun

/-- `FeedVideoData` of a packet with the user's `pts`: cncodec holds the packet once it took it. -/
def feed (s : PtsRun) (pts : Nat) (ecode : Nat → FeedResult) : PtsRun :=
  let r := s.map.feedVideoData pts ecode
  { map := r.2.2, issued := s.issued + 1,
    held := if r.2.1 = .fed then s.held ++ [(s.issued, pts)] else s.held }

/-- cncodec returns the frame of the packet that got key number `n`, with that key as its
timestamp, and `ReceiveFrame` looks the pts up. -/
def frame (s : PtsRun) (n pts : Nat) : PtsRun :=
  { s with map := (s.map.receiveFramePts (n % UInt32.size)).2, held := s.held.erase (n, pts) }

end PtsRun

/-- What a feed leaves: the next key, and the pts filed under the key it used when cncodec took
the packet; when the call threw, no record under that key. -/
theorem PtsRun.feed_eq (s : PtsRun) (pts : Nat) (ecode : Nat → FeedResult) :
    ∃ taken : Bool, s.feed pts ecode =
      { map := { key := (s.map.key + 1) % UInt32.size,
                 records := fun k =>
                   if k = s.map.key then (if taken then some pts else none) else s.map.records k },
        issued := s.issued + 1,
        held := if taken then s.held ++ [(s.issued, pts)] else s.held } := by
  have hret := feedRetry_ne_fellThrough ecode 2 0
  unfold PtsRun.feed PtsMap.feedVideoData
  rcases h : feedRetry ecode 3 0 with _ | _ | _ | _
  · exact ⟨true, by simp [h, PtsMap.setVpuTimestamp]⟩
  · exact absurd h hret
  all_goals
    refine ⟨false, ?_⟩
    simp only [h, PtsMap.setVpuTimestamp, PtsMap.getVpuTimestamp, if_true, Bool.false_eq_true,
      if_false, reduceCtorEq]
    congr 2; funext k; split_ifs <;> rfl

/-- A step of the decoder's timestamps: a feed, or a frame of a packet cncodec holds. -/
inductive PtsStep : PtsRun → PtsRun → Prop
  | feed (s : PtsRun) (pts : Nat) (ecode : Nat → FeedResult) : PtsStep s (s.feed pts ecode)
  | frame {s : PtsRun} {n pts : Nat} (h : (n, pts) ∈ s.held) : PtsStep s (s.frame n pts)

/-- No packet cncodec holds was fed `2^32` or more keys ago. -/
def PtsRun.Fresh (s : PtsRun) : Prop := ∀ p ∈ s.held, s.issued ≤ p.1 + UInt32.size

instance (s : PtsRun) : Decidable s.Fresh := inferInstanceAs (Decidable (∀ p ∈ s.held, _))

/-- A step into a state where no packet cncodec holds is `2^32` keys old. -/
def FreshStep (s s' : PtsRun) : Prop := PtsStep s s' ∧ s'.Fresh

/-- The map as the packets cncodec holds say: the next key is the count of keys handed out,
wrapped; each held packet's pts is filed under its key; and no other key has a record. -/
structure Filed (s : PtsRun) : Prop where
  key_eq : s.map.key = s.issued % UInt32.size
  lt : ∀ p ∈ s.held, p.1 < s.issued
  nodup : (s.held.map Prod.fst).Nodup
  filed : ∀ p ∈ s.held, s.map.records (p.1 % UInt32.size) = some p.2
  only : ∀ k, (s.map.records k).isSome → ∃ p ∈ s.held, p.1 % UInt32.size = k

namespace Filed

variable {s : PtsRun}

theorem init : Filed {} := ⟨rfl, by simp, by simp, by simp, by simp⟩

/-- The fresh key is none of a held packet's. -/
theorem key_ne_held (hf : Filed s) {p : Nat × Nat} (hp : p ∈ s.held)
    (hfresh : s.issued + 1 ≤ p.1 + UInt32.size) : p.1 % UInt32.size ≠ s.map.key := by
  rw [hf.key_eq]; exact key_ne (hf.lt p hp) (by omega)

/-- A feed files the pts under a key no held packet has; a failed feed takes it back out. -/
theorem feed (hf : Filed s) {pts : Nat} {ecode : Nat → FeedResult}
    (hfresh : (s.feed pts ecode).Fresh) : Filed (s.feed pts ecode) := by
  obtain ⟨taken, heq⟩ := s.feed_eq pts ecode
  rw [heq] at hfresh ⊢
  have hfresh' : ∀ p ∈ s.held, s.issued + 1 ≤ p.1 + UInt32.size := fun p hp =>
    hfresh p (by cases taken <;> simp [hp])
  have hkey : (s.map.key + 1) % UInt32.size = (s.issued + 1) % UInt32.size := by
    rw [hf.key_eq]; simp only [UInt32.size]; omega
  cases taken with
  | false =>
    simp only [Bool.false_eq_true, if_false]
    refine ⟨hkey, fun p hp => Nat.lt_succ_of_lt (hf.lt p hp), hf.nodup, fun p hp => ?_,
      fun k hk => ?_⟩
    · simpa [hf.key_ne_held hp (hfresh' p hp)] using hf.filed p hp
    · dsimp only at hk
      split_ifs at hk with h
      · simp at hk
      · exact hf.only k hk
  | true =>
    simp only [if_true]
    refine ⟨hkey, fun p hp => ?_, ?_, fun p hp => ?_, fun k hk => ?_⟩
    · rcases List.mem_append.1 hp with hp | hp
      · exact Nat.lt_succ_of_lt (hf.lt p hp)
      · simp at hp; simp [hp]
    · rw [List.map_append, List.nodup_append_comm]
      refine List.nodup_cons.2 ⟨fun h => ?_, hf.nodup⟩
      obtain ⟨p, hp, hpe⟩ := List.mem_map.1 h
      exact (hf.lt p hp).ne hpe
    · rcases List.mem_append.1 hp with hp | hp
      · simpa [hf.key_ne_held hp (hfresh' p hp)] using hf.filed p hp
      · simp at hp; simp [hp, hf.key_eq]
    · dsimp only at hk
      split_ifs at hk with h
      · exact ⟨(s.issued, pts), by simp, by rw [h, hf.key_eq]⟩
      · obtain ⟨p, hp, hpk⟩ := hf.only k hk
        exact ⟨p, List.mem_append_left _ hp, hpk⟩

/-- Held packets with one wrapped key are one packet, as long as none is `2^32` keys old. -/
theorem fst_eq_of_key_eq (hf : Filed s) (hfresh : s.Fresh) {p q : Nat × Nat} (hp : p ∈ s.held)
    (hq : q ∈ s.held) (h : p.1 % UInt32.size = q.1 % UInt32.size) : p.1 = q.1 := by
  have hp' := hf.lt p hp; have hq' := hf.lt q hq
  have hp'' := hfresh p hp; have hq'' := hfresh q hq
  rcases Nat.lt_trichotomy p.1 q.1 with hlt | heq | hgt
  · exact absurd h (key_ne hlt (by omega))
  · exact heq
  · exact absurd h.symm (key_ne hgt (by omega))

/-- `ReceiveFrame` on a frame of a held packet finds the packet's pts and erases its record. -/
theorem receiveFramePts_held (hf : Filed s) {n pts : Nat} (h : (n, pts) ∈ s.held) :
    s.map.receiveFramePts (n % UInt32.size) =
      (some pts, { s.map with records := fun k =>
        if k = n % UInt32.size then none else s.map.records k }) := by
  simp [PtsMap.receiveFramePts, PtsMap.getVpuTimestamp, hf.filed _ h]

/-- A frame erases the record of its packet, and only that one. -/
theorem frame (hf : Filed s) (hfresh : s.Fresh) {n pts : Nat} (h : (n, pts) ∈ s.held) :
    Filed (s.frame n pts) := by
  have hne : ∀ p ∈ s.held.erase (n, pts), p.1 % UInt32.size ≠ n % UInt32.size :=
    fun p hp hk => by
      obtain ⟨hpx, hp⟩ := (hf.nodup.of_map _).mem_erase_iff.1 hp
      exact hpx (List.inj_on_of_nodup_map hf.nodup hp h (hf.fst_eq_of_key_eq hfresh hp h hk))
  unfold PtsRun.frame
  rw [hf.receiveFramePts_held h]
  refine ⟨hf.key_eq, fun p hp => hf.lt p (List.mem_of_mem_erase hp),
    hf.nodup.sublist ((List.erase_sublist _ _).map _), fun p hp => ?_, fun k hk => ?_⟩
  · simpa [hne p hp] using hf.filed p (List.mem_of_mem_erase hp)
  · dsimp only at hk
    split_ifs at hk with hkn
    · simp at hk
    · obtain ⟨p, hp, rfl⟩ := hf.only k hk
      exact ⟨p, (List.mem_erase_of_ne fun e => hkn (by rw [e])).2 hp, rfl⟩

/-- Along a run where no held packet gets `2^32` keys old, the map stays as the held packets
say. -/
theorem of_run (h : Relation.ReflTransGen FreshStep {} s) : Filed s ∧ s.Fresh := by
  induction h with
  | refl => exact ⟨init, by simp [PtsRun.Fresh]⟩
  | tail _ hs ih =>
    obtain ⟨hstep, hfresh⟩ := hs
    cases hstep with
    | feed => exact ⟨ih.1.feed hfresh, hfresh⟩
    | frame hmem => exact ⟨ih.1.frame ih.2 hmem, hfresh⟩

end Filed

/-! ## The round trip -/

/-- Whatever order cncodec returns its frames in and whichever feeds throw, as long as no packet
stays with cncodec while `2^32` more are fed: the frame of each packet cncodec holds gets the
pts the packet was fed with, and the map holds a record under exactly the keys of those
packets. -/
theorem pts_round_trip {s : PtsRun} (h : Relation.ReflTransGen FreshStep {} s) :
    (∀ p ∈ s.held, (s.map.receiveFramePts (p.1 % UInt32.size)).1 = some p.2) ∧
      ∀ k, (s.map.records k).isSome ↔ ∃ p ∈ s.held, p.1 % UInt32.size = k := by
  obtain ⟨hf, -⟩ := Filed.of_run h
  refine ⟨fun p hp => by rw [hf.receiveFramePts_held hp], fun k => ⟨hf.only k, ?_⟩⟩
  rintro ⟨p, hp, rfl⟩
  simp [hf.filed p hp]

/-- Three packets fed, the second thrown out by an error, and the third's frame returned first. -/
def ptsSample : PtsRun :=
  (((({} : PtsRun).feed 100 fun _ => .success).feed 200 fun _ => .error).feed 300
    fun _ => .success).frame 2 300

theorem pts_round_trip_sample :
    Relation.ReflTransGen FreshStep {} ptsSample ∧
      ((∀ p ∈ ptsSample.held,
          (ptsSample.map.receiveFramePts (p.1 % UInt32.size)).1 = some p.2) ∧
        ∀ k, (ptsSample.map.records k).isSome ↔
          ∃ p ∈ ptsSample.held, p.1 % UInt32.size = k) :=
  have h : Relation.ReflTransGen FreshStep {} ptsSample :=
    .tail (.tail (.tail (.single ⟨.feed _ _ _, by decide⟩) ⟨.feed _ _ _, by decide⟩)
      ⟨.feed _ _ _, by decide⟩) ⟨.frame (by decide), by decide⟩
  ⟨h, pts_round_trip h⟩

/-! ## A key that comes round -/

namespace PtsRun

/-- `FeedVideoData` of one packet after another, each with its pts and cncodec's answers. -/
def feeds (s : PtsRun) (fs : List (Nat × (Nat → FeedResult))) : PtsRun :=
  fs.foldl (fun s f => s.feed f.1 f.2) s

/-- A packet cncodec takes at its first try is held, its pts filed under the key. -/
theorem feed_success (s : PtsRun) (pts : Nat) :
    s.feed pts (fun _ => .success) =
      { map := (s.map.setVpuTimestamp pts).2, issued := s.issued + 1,
        held := s.held ++ [(s.issued, pts)] } := rfl

@[simp] theorem feeds_cons (s : PtsRun) (f : Nat × (Nat → FeedResult)) (fs) :
    s.feeds (f :: fs) = (s.feed f.1 f.2).feeds fs := rfl

theorem feeds_run : ∀ (s : PtsRun) (fs : List (Nat × (Nat → FeedResult))),
    Relation.ReflTransGen PtsStep s (s.feeds fs)
  | _, [] => .refl
  | s, f :: fs => .head (.feed s f.1 f.2) (feeds_run _ fs)

/-- Feeds move the key on by one each, whether cncodec takes the packet or not, and hold on to
every packet cncodec already holds. -/
theorem feeds_key_held : ∀ (s : PtsRun) (fs : List (Nat × (Nat → FeedResult))),
    s.map.key < UInt32.size →
    (s.feeds fs).map.key = (s.map.key + fs.length) % UInt32.size ∧
      (s.feeds fs).issued = s.issued + fs.length ∧ s.held ⊆ (s.feeds fs).held
  | s, [], hk => ⟨(Nat.mod_eq_of_lt hk).symm, rfl, fun _ => id⟩
  | s, f :: fs, hk => by
    obtain ⟨taken, heq⟩ := s.feed_eq f.1 f.2
    have hstep : (s.feed f.1 f.2).map.key = (s.map.key + 1) % UInt32.size ∧
        (s.feed f.1 f.2).issued = s.issued + 1 ∧ s.held ⊆ (s.feed f.1 f.2).held := by
      rw [heq]; exact ⟨rfl, rfl, fun p hp => by cases taken <;> simp [hp]⟩
    obtain ⟨hkey, hissued, hheld⟩ := feeds_key_held (s.feed f.1 f.2) fs
      (by rw [hstep.1]; exact Nat.mod_lt _ (by decide))
    rw [feeds_cons, List.length_cons]
    refine ⟨?_, by omega, hstep.2.2.trans hheld⟩
    rw [hkey, hstep.1]; simp only [UInt32.size]; omega

end PtsRun

/-- The round trip needs its bound.  From any state of a run as `pts_round_trip` takes, let
feeds move `pts_key_` round to the key of a packet cncodec still holds, whatever cncodec
answers them: the next packet cncodec takes is filed under that key, and the held packet's frame
gets the new packet's pts. -/
theorem pts_key_wrap {s : PtsRun} (h : Relation.ReflTransGen FreshStep {} s) {p : Nat × Nat}
    (hp : p ∈ s.held) (fs : List (Nat × (Nat → FeedResult)))
    (hwrap : (s.issued + fs.length) % UInt32.size = p.1 % UInt32.size) (pts : Nat) :
    Relation.ReflTransGen PtsStep s ((s.feeds fs).feed pts fun _ => .success) ∧
      p ∈ ((s.feeds fs).feed pts fun _ => .success).held ∧
      (((s.feeds fs).feed pts fun _ => .success).map.receiveFramePts
        (p.1 % UInt32.size)).1 = some pts := by
  have hf := (Filed.of_run h).1
  obtain ⟨hkey, -, hheld⟩ :=
    PtsRun.feeds_key_held s fs (by rw [hf.key_eq]; exact Nat.mod_lt _ (by decide))
  have hk : (s.feeds fs).map.key = p.1 % UInt32.size := by
    rw [hkey, hf.key_eq, ← hwrap]; simp only [UInt32.size]; omega
  refine ⟨(PtsRun.feeds_run s fs).tail (.feed _ _ _), ?_, ?_⟩ <;> rw [PtsRun.feed_success]
  · exact List.mem_append_left _ (hheld hp)
  · simp [PtsMap.receiveFramePts, PtsMap.getVpuTimestamp, hk]

/-- One packet held while `2^32 - 1` more are fed: the next takes its key. -/
def wrapFeeds : List (Nat × (Nat → FeedResult)) :=
  List.replicate (UInt32.size - 1) (7, fun _ => .success)

theorem length_wrapFeeds : wrapFeeds.length = UInt32.size - 1 := List.length_replicate _ _

theorem pts_key_wrap_sample :
    Relation.ReflTransGen FreshStep {} (({} : PtsRun).feed 100 fun _ => .success) ∧
      (0, 100) ∈ (({} : PtsRun).feed 100 fun _ => .success).held ∧
      ((({} : PtsRun).feed 100 fun _ => .success).issued + wrapFeeds.length) % UInt32.size =
        (0, 100).1 % UInt32.size ∧
      (Relation.ReflTransGen PtsStep (({} : PtsRun).feed 100 fun _ => .success)
          (((({} : PtsRun).feed 100 fun _ => .success).feeds wrapFeeds).feed 8
            fun _ => .success) ∧
        (0, 100) ∈ (((({} : PtsRun).feed 100 fun _ => .success).feeds wrapFeeds).feed 8
          fun _ => .success).held ∧
        ((((({} : PtsRun).feed 100 fun _ => .success).feeds wrapFeeds).feed 8
          fun _ => .success).map.receiveFramePts ((0, 100).1 % UInt32.size)).1 = some 8) :=
  have h : Relation.ReflTransGen FreshStep {} (({} : PtsRun).feed 100 fun _ => .success) :=
    .single ⟨.feed _ _ _, by decide⟩
  have hw : ((({} : PtsRun).feed 100 fun _ => .success).issued + wrapFeeds.length) %
      UInt32.size = (0, 100).1 % UInt32.size := by
    rw [length_wrapFeeds]; decide
  ⟨h, by decide, hw, pts_key_wrap h (by decide) wrapFeeds hw 8⟩

end EasyCodec
end EasyDK
