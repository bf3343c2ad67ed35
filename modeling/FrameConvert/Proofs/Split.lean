/-
# The planes of a frame tile a buffer

In a buffer the planes of a frame lie one behind the other: plane `i` begins behind the sizes of
the planes before it (`planeOffset`), and its bytes have the places `places w h i`.

| the places of | are |
| --- | --- |
| one plane | a run that is not empty |
| two planes | apart; the next plane begins where a plane ends |
| all planes | the first `frameSize` ones, and so at most `4 w h` |

Buffers that hold a fit frame, and no others, are split, and into exactly these runs
(`split_eq_ok_iff`).  The planes are windows into the buffer: a byte written through one of them is
written at its place in the buffer, and nowhere else (`yields_write_through`).
-/

import FrameConvert.Split
import FrameConvert.Proofs.Frames
import Mathlib.Algebra.BigOperators.Group.Finset.Basic
import Mathlib.Algebra.Order.BigOperators.Group.Finset
import Mathlib.Order.Interval.Finset.Nat

namespace FrameConvert

open Finset

namespace Format

/-- Where plane `i` of a frame begins in a buffer: behind the planes before it. -/
def planeOffset (f : Format) (w h i : Nat) : Nat := ∑ j ∈ range i, f.planeSize w h j

/-- The places in a buffer that the bytes of plane `i` have. -/
def places (f : Format) (w h i : Nat) : Finset Nat :=
  Ico (f.planeOffset w h i) (f.planeOffset w h i + f.planeSize w h i)

/-- The planes of the frame that a buffer begins with. -/
def planesIn (f : Format) (w h : Nat) (buffer : Plane) : List Plane :=
  (List.range f.planeCount).map fun i =>
    buffer.extract (f.planeOffset w h i) (f.planeOffset w h (i + 1))

/-- **The planes tile a frame:** each has places, no two share one, each begins where the one before
it ends, and together they have all the places of the frame. -/
structure PlanesTile (f : Format) (w h : Nat) : Prop where
  nonempty : ∀ i < f.planeCount, (f.places w h i).Nonempty
  first : f.planeOffset w h 0 = 0
  adjacent : ∀ i, f.planeOffset w h (i + 1) = f.planeOffset w h i + f.planeSize w h i
  disjoint : (range f.planeCount : Set Nat).PairwiseDisjoint (f.places w h)
  union : (range f.planeCount).biUnion (f.places w h) = range (f.frameSize w h)

end Format

/-- `q` is `p`, but for byte `n`, which is `b`. -/
structure Plane.Changed (p : Plane) (n : Nat) (b : UInt8) (q : Plane) : Prop where
  size : q.size = p.size
  byte : ∀ j, q.byte j = if j = n then b else p.byte j

/-- The planes are those of a frame, and hold nothing else. -/
structure Exact (f : Format) (w h : Nat) (planes : List Plane) : Prop where
  count : planes.length = f.planeCount
  size : ∀ i < f.planeCount, (planeAt planes i).size = f.planeSize w h i

/-- **A buffer's split is a tiling:** its planes are the runs of the buffer where the planes of a
frame lie, and a byte that is written in one of them is written in the buffer. -/
structure Split.Tiles (s : Split) (buffer : Plane) (f : Format) (w h : Nat) : Prop where
  exact : Exact f w h s.planes
  plane : ∀ i < f.planeCount, planeAt s.planes i =
    buffer.extract (f.planeOffset w h i) (f.planeOffset w h i + f.planeSize w h i)
  tile : f.PlanesTile w h
  write : ∀ i < f.planeCount, ∀ k < f.planeSize w h i, ∀ b,
    Yields (onPlane s.planes i (·.write k b)) fun planes =>
      buffer.Changed (f.planeOffset w h i + k) b (unsplit planes s.rest)

section Places

variable {f : Format} {w h i j n : Nat}

theorem Format.planeOffset_succ (f : Format) (w h i : Nat) :
    f.planeOffset w h (i + 1) = f.planeOffset w h i + f.planeSize w h i :=
  sum_range_succ _ _

/-- A frame ends where its last plane ends. -/
theorem Format.planeOffset_planeCount (f : Format) (w h : Nat) :
    f.planeOffset w h f.planeCount = f.frameSize w h := by
  by_cases hp : f.isPlanar
  · have hc : f.planeCount = 3 := if_pos hp
    simp only [planeOffset, frameSize, hc, sum_range_succ, sum_range_zero, planeSize]
    simp only [if_true, Nat.reduceLT, Nat.reduceEqDiff, if_false]
    omega
  · have hc : f.planeCount = 1 := if_neg hp
    simp only [planeOffset, frameSize, hc, sum_range_one, chromaSize, if_neg hp, Nat.mul_zero,
      Nat.add_zero]

/-- A plane ends before any later one begins. -/
theorem Format.planeOffset_succ_le (hij : i < j) :
    f.planeOffset w h (i + 1) ≤ f.planeOffset w h j :=
  sum_le_sum_of_subset (range_mono hij)

/-- Every plane ends within the frame. -/
theorem Format.planeOffset_succ_le_frameSize (hi : i < f.planeCount) :
    f.planeOffset w h (i + 1) ≤ f.frameSize w h := by
  rw [← f.planeOffset_planeCount]
  exact planeOffset_succ_le hi

theorem Format.mem_places :
    n ∈ f.places w h i ↔ f.planeOffset w h i ≤ n ∧ n < f.planeOffset w h (i + 1) := by
  rw [places, mem_Ico, f.planeOffset_succ]

/-- Every place before the end of some planes belongs to one of them. -/
theorem Format.exists_place (hn : n < f.planeOffset w h j) : ∃ i < j, n ∈ f.places w h i := by
  induction j with
  | zero => exact absurd hn (Nat.not_lt_zero n)
  | succ j ih =>
    by_cases hj : n < f.planeOffset w h j
    · obtain ⟨i, hi, hmem⟩ := ih hj
      exact ⟨i, by omega, hmem⟩
    · exact ⟨j, Nat.lt_succ_self j, mem_places.2 ⟨by omega, hn⟩⟩

/-- Whole blocks fill the planes of a fit frame. -/
theorem Fit.planeSize_pos (hf : Fit f w h) (hi : i < f.planeCount) : 0 < f.planeSize w h i := by
  obtain ⟨hw, hh, -, hx, hy⟩ := hf
  obtain ⟨hacross, hdown⟩ := f.chromaBlock_pos
  rw [Format.planeSize]
  by_cases h0 : i = 0
  · rw [if_pos h0]
    exact Nat.mul_pos (Nat.mul_pos hw hh) f.bytesPerPixel_pos
  · have hp : f.isPlanar = true := by
      by_contra hp
      have hone : f.planeCount = 1 := if_neg hp
      omega
    rw [if_neg h0, if_pos hi, Format.chromaSize, if_pos hp]
    exact Nat.mul_pos (Nat.div_pos (Nat.le_of_dvd hw hx) hacross)
      (Nat.div_pos (Nat.le_of_dvd hh hy) hdown)

/-- **The planes of a fit frame tile it.** -/
theorem Fit.planesTile (hf : Fit f w h) : f.PlanesTile w h where
  nonempty i hi := by
    have hpos := hf.planeSize_pos hi
    exact nonempty_Ico.2 (by omega)
  first := sum_range_zero _
  adjacent := f.planeOffset_succ w h
  disjoint i _ j _ hij := by
    refine disjoint_left.2 fun n hi hj => ?_
    rw [Format.mem_places] at hi hj
    rcases Nat.lt_or_gt_of_ne hij with hlt | hlt
    · have hle := Format.planeOffset_succ_le (f := f) (w := w) (h := h) hlt
      omega
    · have hle := Format.planeOffset_succ_le (f := f) (w := w) (h := h) hlt
      omega
  union := by
    ext n
    rw [mem_biUnion, mem_range]
    constructor
    · rintro ⟨i, hi, hn⟩
      exact Nat.lt_of_lt_of_le (Format.mem_places.1 hn).2
        (Format.planeOffset_succ_le_frameSize (mem_range.1 hi))
    · intro hn
      rw [← f.planeOffset_planeCount] at hn
      obtain ⟨i, hi, hmem⟩ := Format.exists_place hn
      exact ⟨i, mem_range.2 hi, hmem⟩

end Places

section Pieces

variable {buffer : Plane} {f : Format} {w h i k : Nat} {s : Split}

/-- **Pieces are cut where the offsets say,** from any of them on. -/
theorem pieces_eq_ok (hsize : f.frameSize w h ≤ buffer.size)
    (hword : f.frameSize w h < 0x10000000000000000) (n : Nat) : ∀ k, k + n ≤ f.planeCount →
      pieces buffer (f.planeOffset w h k) ((List.range' k n).map (f.planeSize w h)) =
        .ok ((List.range' k n).map fun i =>
          buffer.extract (f.planeOffset w h i) (f.planeOffset w h (i + 1))) := by
  induction n with
  | zero => exact fun k _ => rfl
  | succ n ih =>
    intro k hk
    have hle := Format.planeOffset_succ_le_frameSize (f := f) (w := w) (h := h) (i := k) (by omega)
    have hnext := f.planeOffset_succ w h k
    rw [List.range'_succ, List.map_cons, pieces, Plane.slice, if_pos (by omega), ← hnext,
      size_eq_ok (by omega)]
    simp only [bind, Except.bind, ih (k + 1) (by omega)]
    rfl

/-- **Buffers that hold a fit frame are split,** into its planes and what follows them. -/
theorem split_eq_ok_iff : split buffer f w h = .ok s ↔
    Fit f w h ∧ f.frameSize w h ≤ buffer.size ∧
      s = ⟨f.planesIn w h buffer, buffer.extract (f.frameSize w h) buffer.size⟩ := by
  have hpieces : Fit f w h → f.frameSize w h ≤ buffer.size →
      pieces buffer 0 ((List.range f.planeCount).map (f.planeSize w h)) =
        .ok (f.planesIn w h buffer) := by
    intro hf hn
    have := f.frameSize_le w h
    have hword := hf.2.2.1
    have hcut := pieces_eq_ok hn (by omega) f.planeCount 0 (by omega)
    rwa [← List.range_eq_range'] at hcut
  constructor
  · intro hs
    obtain ⟨hf, hn, hp, hr⟩ := of_split_eq_ok hs
    obtain ⟨planes, rest⟩ := s
    rw [hpieces hf hn] at hp
    obtain rfl := Except.ok.inj hp
    exact ⟨hf, hn, by rw [← hr]⟩
  · rintro ⟨hf, hn, rfl⟩
    rw [split, checkBuffer_eq_ok_iff.2 ⟨hf, hn⟩, planeSizes64_eq_ok hf.2.2.1,
      Format.frameSize64_eq_ok hf.2.2.1]
    simp only [attempt_ok, bind, Except.bind, hpieces hf hn]
    rfl

/-- A plane of a split buffer. -/
theorem planeAt_planesIn (buffer : Plane) (hi : i < f.planeCount) :
    planeAt (f.planesIn w h buffer) i =
      buffer.extract (f.planeOffset w h i) (f.planeOffset w h i + f.planeSize w h i) := by
  rw [planeAt, List.getD_eq_getElem?_getD, Format.planesIn, List.getElem?_map,
    List.getElem?_range hi, Option.map_some, Option.getD_some, f.planeOffset_succ]

/-- A split buffer gives a frame's planes, and nothing else in them. -/
theorem exact_planesIn (hn : f.frameSize w h ≤ buffer.size) :
    Exact f w h (f.planesIn w h buffer) := by
  refine ⟨by rw [Format.planesIn, List.length_map, List.length_range], fun i hi => ?_⟩
  have hle := Format.planeOffset_succ_le_frameSize (w := w) (h := h) hi
  rw [f.planeOffset_succ] at hle
  rw [planeAt_planesIn buffer hi, Array.size_extract, Nat.min_eq_left (Nat.le_trans hle hn),
    Nat.add_sub_cancel_left]

end Pieces

section Unsplit

variable {p q : Plane} {b : UInt8} {ps : List Plane} {i k n : Nat}

theorem Plane.byte_append (p q : Plane) (n : Nat) :
    (p ++ q).byte n = if n < p.size then p.byte n else q.byte (n - p.size) := by
  rw [byte, byte, byte, Array.getD_eq_getD_getElem?, Array.getD_eq_getD_getElem?,
    Array.getD_eq_getD_getElem?, Array.getElem?_append]
  split <;> rfl

theorem Plane.byte_extract {p : Plane} {m n k : Nat} (hk : m + k < n) :
    Plane.byte (p.extract m n) k = p.byte (m + k) := by
  rw [byte, byte, Array.getD_eq_getD_getElem?, Array.getD_eq_getD_getElem?,
    Array.getElem?_extract]
  split
  · rfl
  · rw [Array.getElem?_eq_none (by omega)]

theorem extent_append (ns : List Nat) : ∀ ms : List Nat, extent (ms ++ ns) = extent ms + extent ns
  | [] => by rw [List.nil_append, extent, Nat.zero_add]
  | m :: ms => by rw [List.cons_append, extent, extent, extent_append ns ms, Nat.add_assoc]

/-- Behind planes lies what they are put in front of. -/
theorem byte_unsplit_behind (rest : Plane) (k : Nat) : ∀ ps : List Plane,
    (unsplit ps rest).byte (extent (ps.map Array.size) + k) = rest.byte k
  | [] => by rw [List.map_nil, extent, Nat.zero_add]; rfl
  | p :: ps => by
    rw [List.map_cons, extent, Nat.add_assoc]
    refine (Plane.byte_append p (unsplit ps rest) _).trans ?_
    rw [if_neg (by omega), Nat.add_sub_cancel_left]
    exact byte_unsplit_behind rest k ps

theorem unsplit_append (ps qs : List Plane) (rest : Plane) :
    unsplit (ps ++ qs) rest = unsplit ps (unsplit qs rest) :=
  List.foldr_append

/-- **A plane among others** is found behind those before it. -/
theorem byte_unsplit (rest : Plane) {j : Nat} (hj : j < (planeAt ps i).size) :
    (unsplit ps rest).byte (extent ((ps.take i).map Array.size) + j) = (planeAt ps i).byte j := by
  have hi : i < ps.length := by
    by_contra hi
    rw [planeAt_of_le (by omega)] at hj
    exact Nat.not_lt_zero j hj
  have hparts : ps = ps.take i ++ planeAt ps i :: ps.drop (i + 1) := by
    have hhere : ps[i] = planeAt ps i :=
      Option.some.inj ((List.getElem?_eq_getElem hi).symm.trans (getElem?_eq_planeAt hi))
    rw [← hhere, List.getElem_cons_drop, List.take_append_drop]
  have hwhole : unsplit ps rest = unsplit (ps.take i)
      (planeAt ps i ++ unsplit (ps.drop (i + 1)) rest) :=
    (congrArg (unsplit · rest) hparts).trans (unsplit_append _ _ rest)
  rw [hwhole, byte_unsplit_behind, Plane.byte_append, if_pos hj]

theorem size_unsplit (rest : Plane) : ∀ ps : List Plane,
    (unsplit ps rest).size = extent (ps.map Array.size) + rest.size
  | [] => by rw [List.map_nil, extent, Nat.zero_add]; rfl
  | p :: ps => by
    rw [List.map_cons, extent, Nat.add_assoc, ← size_unsplit rest ps]
    exact Array.size_append

/-- A changed plane in front of another. -/
theorem Plane.Changed.front (hpq : p.Changed n b q) (hn : n < p.size) (rest : Plane) :
    (p ++ rest).Changed n b (q ++ rest) := by
  refine ⟨by rw [Array.size_append, Array.size_append, hpq.size], fun j => ?_⟩
  rw [byte_append, byte_append, hpq.size, hpq.byte]
  by_cases hj : j < p.size
  · rw [if_pos hj, if_pos hj]
  · rw [if_neg hj, if_neg hj, if_neg (by omega)]

/-- A changed plane behind another. -/
theorem Plane.Changed.behind (hpq : p.Changed n b q) (front : Plane) :
    (front ++ p).Changed (front.size + n) b (front ++ q) := by
  refine ⟨by rw [Array.size_append, Array.size_append, hpq.size], fun j => ?_⟩
  rw [byte_append, byte_append, hpq.byte]
  by_cases hj : j < front.size
  · rw [if_pos hj, if_pos hj, if_neg (by omega)]
  · rw [if_neg hj, if_neg hj]
    by_cases hn : j = front.size + n
    · rw [if_pos hn, if_pos (by omega)]
    · rw [if_neg hn, if_neg (by omega)]

/-- **A changed plane among others** changes what they make up, at its own place there. -/
theorem changed_unsplit (rest : Plane) (hn : n < p.size) (hpq : p.Changed n b q) :
    ∀ {ps : List Plane} {i}, ps[i]? = some p →
      (unsplit ps rest).Changed (extent ((ps.take i).map Array.size) + n) b
        (unsplit (ps.set i q) rest)
  | [], i, hp => nomatch hp
  | r :: ps, 0, hp => by
    obtain rfl := Option.some.inj hp
    rw [List.take_zero, List.map_nil, extent, Nat.zero_add]
    exact hpq.front hn _
  | r :: ps, i + 1, hp => by
    have hbehind : ps[i]? = some p := hp
    rw [List.take_succ_cons, List.map_cons, extent, Nat.add_assoc]
    exact (changed_unsplit rest hn hpq hbehind).behind r

end Unsplit

section Exact

variable {f : Format} {w h i : Nat} {planes : List Plane}

theorem Exact.holds (he : Exact f w h planes) : Holds f w h planes :=
  ⟨Nat.le_of_eq he.count.symm, fun i hi => Nat.le_of_eq (he.size i hi).symm⟩

/-- The planes before plane `i` take the bytes before its offset. -/
theorem Exact.extent_take (he : Exact f w h planes) (hi : i ≤ f.planeCount) :
    extent ((planes.take i).map Array.size) = f.planeOffset w h i := by
  induction i with
  | zero => rfl
  | succ i ih =>
    have hlen : i < planes.length := by
      have := he.count
      omega
    rw [List.take_add_one, getElem?_eq_planeAt hlen, Option.toList_some, List.map_append,
      extent_append, ih (by omega), f.planeOffset_succ, List.map_singleton, extent, extent,
      he.size i (by omega), Nat.add_zero]

/-- All planes take the bytes of the frame. -/
theorem Exact.extent_sizes (he : Exact f w h planes) :
    extent (planes.map Array.size) = f.frameSize w h := by
  rw [← f.planeOffset_planeCount, ← he.extent_take (Nat.le_refl _), ← he.count, List.take_length]

/-- **Planes that were put together are what is split off.** -/
theorem Exact.planesIn_unsplit (he : Exact f w h planes) (rest : Plane) :
    f.planesIn w h (unsplit planes rest) = planes := by
  have hsize : f.frameSize w h ≤ (unsplit planes rest).size := by
    rw [size_unsplit, he.extent_sizes]
    exact Nat.le_add_right _ _
  have hp := exact_planesIn hsize
  refine List.ext_getElem? fun i => ?_
  by_cases hi : i < f.planeCount
  · rw [hp.holds.getElem? hi, he.holds.getElem? hi]
    refine congrArg some (Plane.ext_byte ((hp.size i hi).trans (he.size i hi).symm) fun j hj => ?_)
    rw [hp.size i hi] at hj
    rw [planeAt_planesIn _ hi, Plane.byte_extract (Nat.add_lt_add_left hj _),
      ← he.extent_take (Nat.le_of_lt hi), byte_unsplit rest (by rwa [he.size i hi])]
  · rw [List.getElem?_eq_none (by rw [hp.count]; omega),
      List.getElem?_eq_none (by rw [he.count]; omega)]

end Exact

section Tiles

variable {buffer : Plane} {f : Format} {w h i k : Nat} {s : Split}

/-- **A plane is a window into the buffer:** what is written through it is written there. -/
theorem yields_write_through (hs : split buffer f w h = .ok s) (hi : i < f.planeCount)
    (hk : k < f.planeSize w h i) (b : UInt8) :
    Yields (onPlane s.planes i (·.write k b)) fun planes =>
      buffer.Changed (f.planeOffset w h i + k) b (unsplit planes s.rest) := by
  have hwhole := unsplit_split hs
  obtain ⟨-, hn, hcut⟩ := split_eq_ok_iff.1 hs
  have he : Exact f w h s.planes := hcut ▸ exact_planesIn hn
  have hplane := he.holds.getElem? hi
  have hsize : k < (planeAt s.planes i).size := (he.size i hi).symm ▸ hk
  obtain ⟨q, hq, hqs, hqb⟩ := Plane.write_eq_ok (b := b) hsize
  refine yields_of_eq_ok (onPlane_eq_ok hplane hq) ?_
  have hchanged := changed_unsplit s.rest hsize ⟨hqs, hqb⟩ hplane
  rwa [he.extent_take (by omega), hwhole] at hchanged

/-- **What is split is tiled.** -/
theorem tiles_of_split (hs : split buffer f w h = .ok s) : s.Tiles buffer f w h := by
  obtain ⟨hf, hn, hcut⟩ := split_eq_ok_iff.1 hs
  refine ⟨hcut ▸ exact_planesIn hn, fun i hi => ?_, hf.planesTile, fun i hi k hk b => ?_⟩
  · rw [hcut]
    exact planeAt_planesIn buffer hi
  · exact yields_write_through hs hi hk b

/-- **Splitting is an exact tiling.**  A buffer is split into planes exactly if no side is zero,
four bytes per pixel are a 64-bit size, blocks divide the sides, and the buffer is as long as a
frame.  The planes are then runs of the buffer that tile the first bytes of it, as many as a frame
has, and whoever writes a byte of a plane writes that byte of the buffer.  Where the geometry check
has passed, no size of a plane, of any number, of a chroma plane or of a frame leaves the 64-bit
words, and a frame takes as much as its planes, at most four bytes per pixel. -/
theorem split_is_exact_tiling (f : Format) (w h : Nat) :
    (∀ buffer : Plane,
      ((∃ s, split buffer f w h = .ok s) ↔
        0 < w ∧ 0 < h ∧ w * h * 4 < 0x10000000000000000 ∧ f.chromaBlock.1 ∣ w ∧
          f.chromaBlock.2 ∣ h ∧ f.frameSize w h ≤ buffer.size) ∧
      ∀ s, split buffer f w h = .ok s → s.Tiles buffer f w h) ∧
    (checkGeometry f w h = .ok () →
      (∀ i, f.planeSize64 w h i = .ok (f.planeSize w h i)) ∧
        f.chromaSize64 w h = .ok (f.chromaSize w h) ∧
        f.frameSize64 w h = .ok (f.frameSize w h) ∧
        f.frameSize w h = ∑ i ∈ range f.planeCount, f.planeSize w h i ∧
        f.frameSize w h ≤ 4 * (w * h)) := by
  refine ⟨fun buffer => ⟨?_, fun s hs => tiles_of_split hs⟩, fun hg => ?_⟩
  · constructor
    · rintro ⟨s, hs⟩
      obtain ⟨⟨hw, hh, hsmall, hx, hy⟩, hn, -⟩ := split_eq_ok_iff.1 hs
      exact ⟨hw, hh, hsmall, hx, hy, hn⟩
    · rintro ⟨hw, hh, hsmall, hx, hy, hn⟩
      exact ⟨_, split_eq_ok_iff.2 ⟨⟨hw, hh, hsmall, hx, hy⟩, hn, rfl⟩⟩
  · have hsmall := (checkGeometry_eq_ok_iff.1 hg).2.2.1
    have hle := f.frameSize_le w h
    refine ⟨Format.planeSize64_eq_ok hsmall, Format.chromaSize64_eq_ok hsmall,
      Format.frameSize64_eq_ok hsmall, ?_, by omega⟩
    exact (f.planeOffset_planeCount w h).symm

/-- Four by two pixels of `YV12` in a buffer with a byte to spare. -/
theorem yv12_in_thirteen_bytes :
    (∃ s, split (.replicate 13 7) .yv12 4 2 = .ok s ∧ s.Tiles (.replicate 13 7) .yv12 4 2) ∧
      Format.yv12.frameSize64 4 2 = .ok 12 := by
  obtain ⟨hsplit, hsizes⟩ := split_is_exact_tiling .yv12 4 2
  obtain ⟨hiff, htiles⟩ := hsplit (.replicate 13 7)
  obtain ⟨s, hs⟩ := hiff.2 (by decide)
  obtain ⟨-, -, hframe, -⟩ := hsizes (by decide)
  exact ⟨⟨s, hs, htiles s hs⟩, hframe⟩

end Tiles

end FrameConvert
