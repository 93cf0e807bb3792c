import Mathlib.Data.Nat.Defs
/-!
# The CPU buffers of a progressive JPEG

With `ENABLE_TURBOJPEG`, `InitJpegDecode` sizes two CPU buffers from the geometry the user
configured: `yuv_cpu_data_` of `stride * height * 3 / 2` bytes and `bgr_cpu_data_` of
`width * height * 3`, with `stride = ALIGN(width, 128)`, in `size_t` arithmetic.
`DecodeProgressiveJpeg` decodes a packet into them at the size its JPEG header gives, which
nothing checks against the configured one, and copies `data_length = height * y_stride * 3 / 2`
bytes out of `yuv_cpu_data_`, computed in `int`.

`ALIGN(size, 128)` rounds up to a multiple of 128 unless the `u32_t` sum wraps
(`align_toNat`).  The copy stays inside `yuv_cpu_data_` exactly when its length is computed
without overflow and the picture's rows, each rounded up to 128 bytes, take no more room than
the configured geometry's (`progressive_copy_in_bounds`): a larger picture is read past the
buffer's end, and one with `height * y_stride * 3 ≥ 2^31`, such as a 32768 by 32768 JPEG,
overflows the `int`.

A product of `int`s that overflows is undefined: the model returns `none` for it.  What
`tjDecompress2` and `BGRToNV21` write into the buffers is turbojpeg's and libyuv's business and
is left out.
-/

namespace EasyDK
namespace EasyCodec

/-- `ALIGN(size, alignment)`: `size` as a `u32_t`, plus `alignment - 1`, with the bits of
`alignment - 1` cleared, all in 32-bit arithmetic. -/
def align (size alignment : UInt32) : UInt32 :=
  (size + alignment - 1) &&& ~~~(alignment - 1)

/-- Clearing the low seven bits of a 32-bit word rounds it down to a multiple of 128. -/
theorem land_alignMask {a : Nat} (ha : a < UInt32.size) : a &&& 4294967168 = a / 128 * 128 := by
  have hmask : (4294967168 : Nat) = 2 ^ 7 * (2 ^ 25 - 1) := rfl
  have hdiv : a / 128 * 128 = 2 ^ 7 * (a >>> 7) := by
    rw [Nat.shiftRight_eq_div_pow]; exact Nat.mul_comm _ _
  rw [hmask, hdiv]
  apply Nat.eq_of_testBit_eq
  intro i
  rw [Nat.testBit_and, Nat.testBit_mul_pow_two, Nat.testBit_mul_pow_two,
    Nat.testBit_two_pow_sub_one, Nat.testBit_shiftRight]
  by_cases h7 : 7 ≤ i
  · rw [Nat.add_sub_cancel' h7]
    by_cases h32 : i - 7 < 25
    · simp [h7, h32]
    · have hi : 2 ^ 32 ≤ 2 ^ i := Nat.pow_le_pow_right (n := 2) (by decide) (by omega)
      simp [Nat.testBit_lt_two_pow (lt_of_lt_of_le ha hi), h32]
  · simp [h7]

/-- `ALIGN(size, 128)` is `size` rounded up to a multiple of 128, while the sum stays below
`2^32`. -/
theorem align_toNat {w : Nat} (hw : w + 127 < UInt32.size) :
    (align (UInt32.ofNat w) 128).toNat = (w + 127) / 128 * 128 := by
  have hsum : (UInt32.ofNat w + 128 - 1).toNat = w + 127 := by
    show (UInt32.size - 1 + (w % UInt32.size + 128) % UInt32.size) % UInt32.size = w + 127
    simp only [UInt32.size] at *; omega
  have hmask : (~~~(128 - 1 : UInt32)).toNat = 4294967168 := rfl
  rw [align, UInt32.and_toNat, hsum, hmask, land_alignMask hw]

/-! ## The buffers and the copy -/

/-- The sizes in bytes of `yuv_cpu_data_` and `bgr_cpu_data_`. -/
structure CpuBuffers where
  yuv : Nat
  bgr : Nat
  deriving DecidableEq, Repr

/-- The CPU buffers `InitJpegDecode` allocates for the configured `width` and `height`, each a
`size_t`. -/
def initCpuBuffers (width height : Nat) : CpuBuffers :=
  let stride := (align (UInt32.ofNat width) 128).toNat
  { yuv := stride * height % UInt64.size * 3 % UInt64.size / 2,
    bgr := width * height % UInt64.size * 3 % UInt64.size }

/-- Without wrap, `yuv_cpu_data_` holds `stride * height * 3 / 2` bytes. -/
theorem initCpuBuffers_yuv {width height : Nat} (hw : width + 127 < UInt32.size)
    (hsize : (width + 127) / 128 * 128 * height * 3 < UInt64.size) :
    (initCpuBuffers width height).yuv = (width + 127) / 128 * 128 * height * 3 / 2 := by
  have hle : (width + 127) / 128 * 128 * height ≤ (width + 127) / 128 * 128 * height * 3 :=
    Nat.le_mul_of_pos_right _ (by decide)
  simp only [initCpuBuffers, align_toNat hw]
  rw [Nat.mod_eq_of_lt (show (width + 127) / 128 * 128 * height < UInt64.size by omega),
    Nat.mod_eq_of_lt hsize]

/-- The size `tjDecompressHeader2` reads from a JPEG header, two 16-bit fields. -/
structure Picture where
  width : Nat
  height : Nat
  width_lt : width < UInt16.size
  height_lt : height < UInt16.size
  deriving DecidableEq, Repr

/-- A product of two non-negative `int`s, none when it overflows. -/
def intMul (a b : Nat) : Option Nat :=
  if a * b < 2147483648 then some (a * b) else none

namespace Picture

/-- `y_stride = ALIGN(width, 128)`, an `int`. -/
def yStride (p : Picture) : Nat := (align (UInt32.ofNat p.width) 128).toNat

/-- `data_length = height * y_stride * 3 / 2` in `int` arithmetic: the bytes
`DecodeProgressiveJpeg` copies out of `yuv_cpu_data_`. -/
def dataLength (p : Picture) : Option Nat := do
  let n ← intMul p.height p.yStride
  let n ← intMul n 3
  pure (n / 2)

theorem yStride_eq (p : Picture) : p.yStride = (p.width + 127) / 128 * 128 :=
  align_toNat (by have := p.width_lt; simp only [UInt16.size, UInt32.size] at *; omega)

/-- The length overflows exactly when the last product does. -/
theorem dataLength_eq (p : Picture) :
    p.dataLength = if p.height * p.yStride * 3 < 2147483648
      then some (p.height * p.yStride * 3 / 2) else none := by
  have hle : p.height * p.yStride ≤ p.height * p.yStride * 3 :=
    Nat.le_mul_of_pos_right _ (by decide)
  unfold dataLength intMul
  split_ifs with h₁ h₂ h₂
  · simp [h₂]
  · simp [h₂]
  · omega
  · rfl

end Picture

/-- The copy of `DecodeProgressiveJpeg` reads inside `yuv_cpu_data_` exactly when its length is
computed without overflow and the picture's rows, rounded up to 128 bytes, take no more room than
the configured geometry's, as long as the buffer's size does not wrap. -/
theorem progressive_copy_in_bounds (width height : Nat) (p : Picture)
    (hw : width + 127 < UInt32.size)
    (hsize : (width + 127) / 128 * 128 * height * 3 < UInt64.size) :
    p.dataLength.any (· ≤ (initCpuBuffers width height).yuv) = true ↔
      p.height * ((p.width + 127) / 128 * 128) * 3 < 2147483648 ∧
        p.height * ((p.width + 127) / 128 * 128) ≤ height * ((width + 127) / 128 * 128) := by
  rw [p.dataLength_eq, initCpuBuffers_yuv hw hsize, p.yStride_eq,
    Nat.mul_comm ((width + 127) / 128 * 128) height]
  generalize p.height * ((p.width + 127) / 128 * 128) = a
  generalize height * ((width + 127) / 128 * 128) = b
  split_ifs with h
  · simp only [Option.any_some, decide_eq_true_eq]; omega
  · simp [h]

/-- A 1024 by 768 JPEG fed to a decoder configured for 640 by 480. -/
def sampleLarger : Picture := ⟨1024, 768, by decide, by decide⟩

theorem progressive_copy_in_bounds_sample :
    640 + 127 < UInt32.size ∧ (640 + 127) / 128 * 128 * 480 * 3 < UInt64.size ∧
      (sampleLarger.dataLength.any (· ≤ (initCpuBuffers 640 480).yuv) = true ↔
        sampleLarger.height * ((sampleLarger.width + 127) / 128 * 128) * 3 < 2147483648 ∧
          sampleLarger.height * ((sampleLarger.width + 127) / 128 * 128) ≤
            480 * ((640 + 127) / 128 * 128)) :=
  ⟨by decide, by decide,
    progressive_copy_in_bounds 640 480 sampleLarger (by decide) (by decide)⟩

example : sampleLarger.dataLength.any (· ≤ (initCpuBuffers 640 480).yuv) = false := by decide

end EasyCodec
end EasyDK
