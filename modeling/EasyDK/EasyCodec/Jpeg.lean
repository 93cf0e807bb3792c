import EasyDK.EasyCodec.Decode
import Mathlib.Data.List.Nodup
import Mathlib.Data.List.Perm.Basic
/-!
# JPEG packets decoded on the CPU

Two parts of `easy_decode.cpp` that a JPEG decoder runs on the user's thread.

`detail::CheckProgressiveMode` reads the start-of-image marker, then walks the segment headers,
two bytes of marker and two of length each, until it meets a progressive frame marker (`FFC2`,
`FFCA`) or passes the packet's end.  It checks only that a segment starts inside the packet, so
it reads up to three bytes past the end (`checkProgressiveMode_bounded`), and a one-byte
packet, which `FeedData` passes on, has its second byte read (`check_reads_past_end`).  For
every length that leaves room for one more segment below `2^64` it returns.

With `ENABLE_TURBOJPEG`, `InitJpegDecode` allocates `outputBufNum` device buffers under the ids
`outputBufNum` to `2 * outputBufNum - 1` and queues the ids in `memory_ids_`;
`DecodeProgressiveJpeg` takes a free id with `TryPop` and hands its frame to the callback, and
`EasyDecode::ReleaseBuffer` queues the id again.  Along every run in which the user decodes only
while it holds fewer than `outputBufNum` buffers and releases only buffers it holds, the map
stays as built, the free and the held ids are the pool ids once each, and each id handed out is
a pool id nobody holds (`handout_fresh`).  On an
empty queue `TryPop` leaves `buf_id` as it was, uninitialised: the frame carries whatever it
held, and `memory_pool_map_[buf_id]` inserts a null buffer under it (`pool_exhausted`).

Memory is a function from offsets to bytes, the packet its first `length` bytes.
`ThreadSafeQueue`, behind `memory_ids_`, is declared outside `src/`: `TryPop` is its usual
non-blocking pop.  Device buffers are numbered in the order `cnrtMalloc` returned them, a null
pointer being `none`.  A decode that throws on an unsupported pixel format does so before
`TryPop` and is not a call of the pool; the frame callback is taken to be set.
-/

namespace EasyDK
namespace EasyCodec

/-! ## CheckProgressiveMode -/

/-- `(data[i] << 8) | data[i + 1]` stored in a `uint16_t`: the big-endian word at `i`.  The two
bytes fill disjoint bits, so the `|` adds them. -/
def word (data : Nat → UInt8) (i : Nat) : Nat := (data i).toNat * 256 + (data (i + 1)).toNat

theorem word_lt (data : Nat → UInt8) (i : Nat) : word data i < UInt16.size := by
  have h₁ := (data i).toNat_lt_size
  have h₂ := (data (i + 1)).toNat_lt_size
  simp only [UInt8.size] at h₁ h₂
  unfold word UInt16.size; omega

/-- The segment loop of `CheckProgressiveMode` from offset `i`, for at most `fuel` segments: the
value it returns, `none` when the fuel runs out first, and the offsets it reads, in order.  The
`uint64_t` offset wraps at `UInt64.size`. -/
def scanSegments (data : Nat → UInt8) (length : Nat) : Nat → Nat → Option Int × List Nat
  | 0, _ => (none, [])
  | fuel + 1, i =>
    if i < length then
      if word data i = 0xFFC2 ∨ word data i = 0xFFCA then (some 1, [i, i + 1])
      else
        let r := scanSegments data length fuel ((i + 2 + word data (i + 2)) % UInt64.size)
        (r.1, [i, i + 1, i + 2, i + 3] ++ r.2)
    else (some 0, [])

/-- `CheckProgressiveMode(data, length)`, its loop given `fuel` segments: `-1` without the
start-of-image marker `FFD8`, else `1` for a progressive JPEG and `0` for another; with the
offsets it reads. -/
def checkProgressiveMode (data : Nat → UInt8) (length fuel : Nat) : Option Int × List Nat :=
  if word data 0 = 0xFFD8 then
    let r := scanSegments data length fuel 2
    (r.1, [0, 1] ++ r.2)
  else (some (-1), [0, 1])

/-- Every offset the loop reads lies less than three past the packet's end. -/
theorem scanSegments_reads_lt (data : Nat → UInt8) (length : Nat) :
    ∀ fuel i, ∀ j ∈ (scanSegments data length fuel i).2, j < length + 3
  | 0, _, j, hj => by simp [scanSegments] at hj
  | fuel + 1, i, j, hj => by
    unfold scanSegments at hj
    split at hj
    · split at hj
      · simp only [List.mem_cons, List.mem_singleton, List.not_mem_nil, or_false] at hj; omega
      · rcases List.mem_append.1 hj with hj | hj
        · simp only [List.mem_cons, List.mem_singleton, List.not_mem_nil, or_false] at hj; omega
        · exact scanSegments_reads_lt data length fuel _ j hj
    · simp at hj

/-- While a segment length cannot wrap the offset, each segment moves it on by at least two, so
the loop returns once its fuel covers the rest of the packet. -/
theorem scanSegments_isSome (data : Nat → UInt8) {length : Nat}
    (hlen : length + UInt16.size + 1 ≤ UInt64.size) :
    ∀ fuel i, length ≤ i + 2 * fuel → (scanSegments data length (fuel + 1) i).1.isSome
  | 0, i, h => by
    simp only [scanSegments, show ¬i < length by omega, if_false, Option.isSome_some]
  | fuel + 1, i, h => by
    unfold scanSegments
    split
    · split
      · rfl
      · have hw := word_lt data (i + 2)
        rw [Nat.mod_eq_of_lt (by omega)]
        exact scanSegments_isSome data hlen fuel _ (by omega)
    · rfl

/-- `CheckProgressiveMode` returns within `length + 1` segments, for every length that leaves
room for one more segment below `UInt64.size`, and reads nothing three or more bytes past the
packet's end. -/
theorem checkProgressiveMode_bounded (data : Nat → UInt8) {length : Nat}
    (hlen : length + UInt16.size + 1 ≤ UInt64.size) :
    (checkProgressiveMode data length (length + 1)).1.isSome ∧
      ∀ j ∈ (checkProgressiveMode data length (length + 1)).2, j < length + 3 := by
  unfold checkProgressiveMode
  split
  · refine ⟨scanSegments_isSome data hlen length 2 (by omega), fun j hj => ?_⟩
    rcases List.mem_append.1 hj with hj | hj
    · simp only [List.mem_cons, List.mem_singleton, List.not_mem_nil, or_false] at hj; omega
    · exact scanSegments_reads_lt data length _ 2 j hj
  · refine ⟨rfl, fun j hj => ?_⟩
    simp only [List.mem_cons, List.mem_singleton, List.not_mem_nil, or_false] at hj
    omega

/-- A baseline JPEG of six bytes: start of image, then a start-of-scan segment of length 2. -/
def sampleJpeg (i : Nat) : UInt8 := [0xFF, 0xD8, 0xFF, 0xDA, 0x00, 0x02].getD i 0

/-- `checkProgressiveMode_bounded` on `sampleJpeg`. -/
theorem checkProgressiveMode_bounded_sample :
    6 + UInt16.size + 1 ≤ UInt64.size ∧ (checkProgressiveMode sampleJpeg 6 (6 + 1)).1.isSome ∧
      ∀ j ∈ (checkProgressiveMode sampleJpeg 6 (6 + 1)).2, j < 6 + 3 :=
  ⟨by decide, checkProgressiveMode_bounded sampleJpeg (by decide)⟩

/-- `FeedData` hands a JPEG decoder's one-byte packet to `CheckProgressiveMode`, whose result
alone decides what happens next, and `CheckProgressiveMode` reads its second byte, one past its
end, whatever the memory holds. -/
theorem check_reads_past_end (data : Nat → UInt8) (fuel : Nat) (mode : Int) :
    ({ jpeg := true } : Decoder).feedCheck ⟨true, 1⟩ mode =
        (if mode < 0 then some false else if mode = 0 then none else some true) ∧
      1 ∈ (checkProgressiveMode data 1 fuel).2 := by
  refine ⟨rfl, ?_⟩
  unfold checkProgressiveMode
  split <;> simp

/-! ## The output pool -/

/-- The output pool of a JPEG decoder: `memory_pool_map_`, each id with its device buffer, and
`memory_ids_`, the free ids in queue order. -/
structure JpegPool where
  poolMap : List (Nat × Option Nat) := []
  ids : List Nat := []
  deriving DecidableEq, Repr

/-- The ids `InitJpegDecode` gives its `outputBufNum` buffers: `outputBufNum + i`. -/
def poolIds (n : Nat) : List Nat := (List.range n).map (n + ·)

/-- `InitJpegDecode`'s pool: buffer `i` under id `outputBufNum + i`, every id queued. -/
def initPool (n : Nat) : JpegPool :=
  { poolMap := (List.range n).map fun i => (n + i, some i), ids := poolIds n }

namespace JpegPool

/-- Modelled from the spec: `ThreadSafeQueue`, behind `memory_ids_`, is declared outside
`src/` and the spec does not describe it, so `TryPop` is taken to be its usual non-blocking pop.
`memory_ids_.TryPop(buf_id)`: the front id, or `buf_id` as it was on an empty queue. -/
def tryPop (bufId : Nat) : List Nat → Nat × List Nat
  | [] => (bufId, [])
  | id :: rest => (id, rest)

/-- `memory_pool_map_[buf_id]`: the buffer under the id; a null buffer, inserted under it, when
there is none. -/
def index (p : JpegPool) (id : Nat) : Option Nat × JpegPool :=
  match p.poolMap.lookup id with
  | some buf => (buf, p)
  | none => (none, { p with poolMap := p.poolMap ++ [(id, none)] })

/-- `DecodeProgressiveJpeg` on the pool, its `size_t buf_id` holding `garbage` before `TryPop`:
the id and buffer of the frame handed to the callback. -/
def decode (p : JpegPool) (garbage : Nat) : (Nat × Option Nat) × JpegPool :=
  let (bufId, ids) := tryPop garbage p.ids
  let (buf, p') := { p with ids }.index bufId
  ((bufId, buf), p')

/-- `EasyDecode::ReleaseBuffer` of a JPEG decoder: an id of `memory_pool_map_` is queued again by
`DecodeHandler::ReleaseBuffer`; any other goes to `cnjpegDecReleaseReference`, out of the
pool. -/
def release (p : JpegPool) (id : Nat) : JpegPool :=
  if (p.poolMap.lookup id).isSome then { p with ids := p.ids ++ [id] } else p

/-- A call on the pool: a progressive decode whose `buf_id` holds `garbage` before `TryPop`, or
a release. -/
inductive Call
  | decode (garbage : Nat)
  | release (id : Nat)
  deriving DecidableEq, Repr

/-- The pool after a sequence of calls, and the frames handed to the callback, in order. -/
def run (p : JpegPool) : List Call → JpegPool × List (Nat × Option Nat)
  | [] => (p, [])
  | .decode g :: cs =>
    let r := (p.decode g).2.run cs
    (r.1, (p.decode g).1 :: r.2)
  | .release id :: cs => (p.release id).run cs

/-- A decode from a nonempty queue hands out its front id, with the buffer under it. -/
theorem decode_cons {p : JpegPool} {id : Nat} {rest : List Nat} {buf : Option Nat}
    (hids : p.ids = id :: rest) (hbuf : p.poolMap.lookup id = some buf) (garbage : Nat) :
    p.decode garbage = ((id, buf), { p with ids := rest }) := by
  simp [decode, tryPop, index, hids, hbuf]

/-- A release of an id of the map queues it. -/
theorem release_of_isSome {p : JpegPool} {id : Nat} (h : (p.poolMap.lookup id).isSome) :
    p.release id = { p with ids := p.ids ++ [id] } := by
  simp [release, h]

/-- Decodes that each find a free id of the map hand the queue out, in order. -/
theorem run_decodes (garbage : Nat) (cs : List Call) : ∀ (ids : List Nat) (p : JpegPool),
    p.ids = ids → (∀ id ∈ ids, (p.poolMap.lookup id).isSome) →
    p.run (List.replicate ids.length (.decode garbage) ++ cs) =
      let r := { p with ids := [] }.run cs
      (r.1, ids.map (fun id => (id, (p.poolMap.lookup id).getD none)) ++ r.2)
  | [], p, hids, _ => by
    obtain ⟨m, ids⟩ := p
    cases hids
    rfl
  | id :: rest, p, hids, hmap => by
    obtain ⟨buf, hbuf⟩ := Option.isSome_iff_exists.1 (hmap id (List.mem_cons_self _ _))
    have ih := run_decodes garbage cs rest { p with ids := rest } rfl
      fun id' h => hmap id' (List.mem_cons_of_mem _ h)
    rw [List.length_cons, List.replicate_succ, List.cons_append, run,
      decode_cons hids hbuf garbage]
    dsimp only at ih ⊢
    rw [ih, List.map_cons, hbuf, Option.getD_some]
    rfl

end JpegPool

theorem length_poolIds (n : Nat) : (poolIds n).length = n := by simp [poolIds]

theorem nodup_poolIds (n : Nat) : (poolIds n).Nodup :=
  (List.nodup_range n).map fun _ _ h => Nat.add_left_cancel h

/-- An id has a buffer in `InitJpegDecode`'s map exactly when it is a pool id. -/
theorem lookup_initPool_isSome (n id : Nat) :
    ((initPool n).poolMap.lookup id).isSome ↔ id ∈ poolIds n := by
  unfold initPool poolIds
  induction List.range n with
  | nil => simp
  | cons i l ih =>
    simp only [List.map_cons, List.lookup_cons, List.mem_cons]
    split
    · rename_i h; simp [beq_iff_eq.1 h]
    · rename_i h; simpa [show id ≠ n + i from fun e => by simp [e] at h] using ih

/-- Whatever `outputBufNum` is and whatever `buf_id` holds before `TryPop`, a user that has
released none of the `outputBufNum` buffers it was handed gets, from its next progressive
decode, an id it holds already, or one of no pool, with a null buffer. -/
theorem pool_exhausted (n garbage : Nat) :
    ∃ fs buf, ((initPool n).run (List.replicate (n + 1) (.decode garbage))).2 =
        fs ++ [(garbage, buf)] ∧ fs.map Prod.fst = poolIds n ∧
      (garbage ∈ fs.map Prod.fst ∨ garbage ∉ poolIds n ∧ buf = none) := by
  have hrun := JpegPool.run_decodes garbage [.decode garbage] (poolIds n) (initPool n) rfl
    fun id h => (lookup_initPool_isSome n id).2 h
  rw [length_poolIds] at hrun
  have hlast : ({ initPool n with ids := [] }.run [.decode garbage]).2 =
      [(garbage, ((initPool n).poolMap.lookup garbage).getD none)] := by
    simp only [JpegPool.run, JpegPool.decode, JpegPool.tryPop, JpegPool.index]
    cases (initPool n).poolMap.lookup garbage <;> rfl
  have hids : ((poolIds n).map fun id => (id, ((initPool n).poolMap.lookup id).getD none)).map
      Prod.fst = poolIds n := by simp [Function.comp_def]
  refine ⟨_, ((initPool n).poolMap.lookup garbage).getD none, ?_, hids, ?_⟩
  · rw [List.replicate_succ', hrun]
    dsimp only
    rw [hlast]
  · rw [hids]
    by_cases hg : garbage ∈ poolIds n
    · exact .inl hg
    · refine .inr ⟨hg, ?_⟩
      rw [Option.not_isSome_iff_eq_none.1 (mt (lookup_initPool_isSome n garbage).1 hg)]
      rfl

/-! ## Handing out buffers -/

/-- A call of a user who decodes only while it holds fewer than `outputBufNum` buffers and
releases only buffers it holds, with the ids it holds. -/
inductive PoolStep (n : Nat) : JpegPool × List Nat → JpegPool × List Nat → Prop
  | decode {p : JpegPool} {held : List Nat} (garbage : Nat) (hfew : held.length < n) :
      PoolStep n (p, held) ((p.decode garbage).2, held ++ [(p.decode garbage).1.1])
  | release {p : JpegPool} {held : List Nat} {id : Nat} (hid : id ∈ held) :
      PoolStep n (p, held) (p.release id, held.erase id)

/-- The map as `InitJpegDecode` left it, and each pool id either free or held, once. -/
structure Conserved (n : Nat) (s : JpegPool × List Nat) : Prop where
  map_eq : s.1.poolMap = (initPool n).poolMap
  perm : (s.1.ids ++ s.2).Perm (poolIds n)

namespace Conserved

variable {n : Nat} {s s' : JpegPool × List Nat}

theorem init (n : Nat) : Conserved n (initPool n, []) := ⟨rfl, by simp [initPool]⟩

/-- The front of the queue is a pool id, not held. -/
theorem front (hc : Conserved n s) {id : Nat} {rest : List Nat} (hids : s.1.ids = id :: rest) :
    id ∈ poolIds n ∧ id ∉ s.2 := by
  have hnd := hc.perm.nodup_iff.2 (nodup_poolIds n)
  rw [hids, List.cons_append, List.nodup_cons] at hnd
  exact ⟨hc.perm.subset (by simp [hids]), fun h => hnd.1 (List.mem_append_right _ h)⟩

/-- With fewer than `outputBufNum` buffers held, the queue is not empty. -/
theorem ids_ne_nil (hc : Conserved n s) (hfew : s.2.length < n) : s.1.ids ≠ [] := by
  intro h
  have := hc.perm.length_eq
  simp [h, length_poolIds] at this
  omega

theorem step (hc : Conserved n s) (h : PoolStep n s s') : Conserved n s' := by
  cases h with
  | @decode p held garbage hfew =>
    obtain ⟨id, rest, hids⟩ := List.exists_cons_of_ne_nil (hc.ids_ne_nil hfew)
    obtain ⟨buf, hbuf⟩ := Option.isSome_iff_exists.1 <|
      hc.map_eq ▸ (lookup_initPool_isSome n id).2 (hc.front hids).1
    change p.ids = id :: rest at hids
    rw [JpegPool.decode_cons hids hbuf]
    refine ⟨hc.map_eq, ?_⟩
    have hperm : (id :: (rest ++ held)).Perm (poolIds n) := by simpa [hids] using hc.perm
    show (rest ++ (held ++ [id])).Perm (poolIds n)
    rw [← List.append_assoc]
    exact (List.perm_append_singleton id (rest ++ held)).trans hperm
  | @release p held id hid =>
    have hpool := hc.perm.subset (List.mem_append_right _ hid)
    rw [JpegPool.release_of_isSome (hc.map_eq ▸ (lookup_initPool_isSome n id).2 hpool)]
    refine ⟨hc.map_eq, ?_⟩
    show ((p.ids ++ [id]) ++ held.erase id).Perm (poolIds n)
    rw [List.append_assoc, List.singleton_append]
    exact ((List.perm_cons_erase hid).symm.append_left p.ids).trans hc.perm

/-- Every state a user's calls reach keeps the pool conserved. -/
theorem of_run (h : Relation.ReflTransGen (PoolStep n) (initPool n, []) s) : Conserved n s := by
  induction h with
  | refl => exact init n
  | tail _ hs ih => exact ih.step hs

end Conserved

/-- Along every run of a user who decodes only while it holds fewer than `outputBufNum` buffers
and gives back only buffers it holds, `memory_pool_map_` stays as `InitJpegDecode` built it, the
free and the held ids are the pool ids, each once, and, while fewer than `outputBufNum` are
held, every decode hands out a pool id that the user does not hold. -/
theorem handout_fresh {n : Nat} {s : JpegPool × List Nat}
    (h : Relation.ReflTransGen (PoolStep n) (initPool n, []) s) :
    s.1.poolMap = (initPool n).poolMap ∧ (s.1.ids ++ s.2).Perm (poolIds n) ∧
      (s.2.length < n → ∀ garbage,
        (s.1.decode garbage).1.1 ∈ poolIds n ∧ (s.1.decode garbage).1.1 ∉ s.2) := by
  have hc := Conserved.of_run h
  refine ⟨hc.map_eq, hc.perm, fun hfew garbage => ?_⟩
  obtain ⟨id, rest, hids⟩ := List.exists_cons_of_ne_nil (hc.ids_ne_nil hfew)
  obtain ⟨buf, hbuf⟩ := Option.isSome_iff_exists.1 <|
    hc.map_eq ▸ (lookup_initPool_isSome n id).2 (hc.front hids).1
  rw [JpegPool.decode_cons hids hbuf]
  exact hc.front hids

/-- `handout_fresh` after one decode from a pool of two buffers. -/
theorem handout_fresh_sample :
    Relation.ReflTransGen (PoolStep 2) (initPool 2, []) (((initPool 2).decode 7).2, [2]) ∧
      ((initPool 2).decode 7).2.poolMap = (initPool 2).poolMap ∧
      (((initPool 2).decode 7).2.ids ++ [2]).Perm (poolIds 2) ∧
      ([2].length < 2 → ∀ garbage,
        (((initPool 2).decode 7).2.decode garbage).1.1 ∈ poolIds 2 ∧
          (((initPool 2).decode 7).2.decode garbage).1.1 ∉ [2]) :=
  have h : Relation.ReflTransGen (PoolStep 2) (initPool 2, [])
      (((initPool 2).decode 7).2, [2]) := .single (.decode 7 (by decide))
  ⟨h, handout_fresh h⟩

end EasyCodec
end EasyDK
