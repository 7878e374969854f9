import LsServer.Lua.Bytes

/-!
# Zero packing (sproto.c)

`sproto_pack` takes a text in segments of 8 bytes, the last one filled up with zeros. A segment
becomes a byte that tells its nonzero bytes, and these; a run of segments with at most two zeros
that begins with one that has none is copied as it is, behind its length. `sproto_unpack` undoes it,
so the text comes back with the zeros.

Source: lualib-src/sproto/sproto.c `pack_seg` 1280-1315, `write_ff` 1318-1328, `sproto_pack`
1331-1383, `sproto_unpack` 1386-1437; lsproto.c `lpack`, `lunpack`.

* `segHeader` is the byte with a bit for each byte that is not zero, `notZero` these bytes.
* `packLoop` knows how many segments of the run behind `ff` are already counted (`ff_n`), at most
  256. In the run a segment with 6 or 7 nonzero bytes is copied like one with 8.
* `writeFF` fills the length of a run up to a multiple of 8, which is why a text comes back with
  zeros behind it.
* `unpackLoop` raises (`none`) on a text that ends inside a segment or a run.

In the source both write into a buffer of a given size and tell how much they would need, and
`lpack` and `lunpack` call them again with a larger one. Here the text is the result.

Results:
* `unpack_pack`: a packed text comes back, with zeros behind it;
* `length_le_pack`: packing takes no more than seven bytes of eight away.
-/

namespace LsServer.Sproto

open LsServer.Lua

/-- Which bytes are not zero, the first one in the lowest bit (`pack_seg`). -/
def segHeader : Bytes → Nat
  | [] => 0
  | b :: seg => (if b ≠ 0 then 1 else 0) + 2 * segHeader seg

/-- The bytes that are not zero. -/
def notZero (seg : Bytes) : Bytes := seg.filter (· ≠ 0)

/-- A segment on its own. -/
def packSeg (seg : Bytes) : Bytes := (segHeader seg).toUInt8 :: notZero seg

/-- `write_ff`: a run of segments. -/
def writeFF (run : List Bytes) : Bytes :=
  if run = [] then [] else 255 :: (run.length - 1).toUInt8 :: run.flatten

/-- The loop of `sproto_pack`: `run` holds the `ff_n` segments of the run that is open. -/
def packLoop : List Bytes → List Bytes → Bytes
  | run, [] => writeFF run
  | run, seg :: segs =>
    if run = [] then
      if (notZero seg).length = 8 then packLoop [seg] segs else packSeg seg ++ packLoop [] segs
    else if 6 ≤ (notZero seg).length then
      if run.length + 1 = 256 then writeFF (run ++ [seg]) ++ packLoop [] segs
      else packLoop (run ++ [seg]) segs
    else writeFF run ++ packSeg seg ++ packLoop [] segs

/-- The segments of a text. -/
def segments : Bytes → List Bytes
  | a :: b :: c :: d :: e :: f :: g :: h :: s => [a, b, c, d, e, f, g, h] :: segments s
  | [] => []
  | s => [s ++ List.replicate (8 - s.length) 0]

/-- `core.pack`. -/
def pack (s : Bytes) : Bytes := packLoop [] (segments s)

/-- The bytes of a segment with this header, in the order of its bits, and the rest. -/
def unpackSeg : Nat → Nat → Bytes → Option (Bytes × Bytes)
  | 0, _, s => some ([], s)
  | n + 1, header, s =>
    if header % 2 = 1 then
      match s with
      | [] => none
      | b :: s => (unpackSeg n (header / 2) s).map fun x => (b :: x.1, x.2)
    else (unpackSeg n (header / 2) s).map fun x => (0 :: x.1, x.2)

/-- The loop of `sproto_unpack`; every round takes a byte at least. -/
def unpackLoop : Nat → Bytes → Option Bytes
  | _, [] => some []
  | 0, _ => none
  | fuel + 1, header :: s =>
    if header = 255 then
      match s with
      | [] => none
      | n :: s =>
        let size := (n.toNat + 1) * 8
        if s.length < size then none
        else (unpackLoop fuel (s.drop size)).map fun t => s.take size ++ t
    else
      match unpackSeg 8 header.toNat s with
      | none => none
      | some (seg, s) => (unpackLoop fuel s).map fun t => seg ++ t

/-- `core.unpack`; `none` where it raises. -/
def unpack (s : Bytes) : Option Bytes := unpackLoop s.length s

/-! ## Round trip -/

theorem segHeader_lt (seg : Bytes) : segHeader seg < 2 ^ seg.length := by
  induction seg with
  | nil => simp [segHeader]
  | cons b seg ih =>
    rw [segHeader, List.length_cons, Nat.pow_succ]
    split <;> omega

/-- All bits are set where all bytes count. -/
theorem notZero_of_segHeader {seg : Bytes} (h : segHeader seg = 2 ^ seg.length - 1) :
    notZero seg = seg := by
  induction seg with
  | nil => rfl
  | cons b seg ih =>
    have hlt := segHeader_lt seg
    rw [segHeader, List.length_cons, Nat.pow_succ] at h
    split at h
    · rename_i hb
      rw [notZero, List.filter_cons_of_pos (by simpa using hb), ← notZero, ih (by omega)]
    · omega

theorem unpackSeg_even {n header : Nat} (h : header % 2 ≠ 1) (s : Bytes) :
    unpackSeg (n + 1) header s =
      (unpackSeg n (header / 2) s).map fun x => (0 :: x.1, x.2) := by
  cases s <;> simp only [unpackSeg, if_neg h]

theorem unpackSeg_odd {n header : Nat} (h : header % 2 = 1) (b : UInt8) (s : Bytes) :
    unpackSeg (n + 1) header (b :: s) =
      (unpackSeg n (header / 2) s).map fun x => (b :: x.1, x.2) := by
  simp only [unpackSeg, if_pos h]

theorem unpackSeg_notZero (seg s : Bytes) :
    unpackSeg seg.length (segHeader seg) (notZero seg ++ s) = some (seg, s) := by
  induction seg with
  | nil => rfl
  | cons b seg ih =>
    by_cases hb : b = 0
    · subst hb
      have hheader : segHeader (0 :: seg) = 2 * segHeader seg := by simp [segHeader]
      have hskip : notZero (0 :: seg) = notZero seg := by simp [notZero]
      rw [hheader, hskip, List.length_cons, unpackSeg_even (by omega),
        Nat.mul_div_cancel_left _ (by decide), ih]
      rfl
    · have hheader : segHeader (b :: seg) = 1 + 2 * segHeader seg := by simp [segHeader, hb]
      have htake : notZero (b :: seg) = b :: notZero seg := by simp [notZero, hb]
      rw [hheader, htake, List.length_cons, List.cons_append, unpackSeg_odd (by omega),
        show (1 + 2 * segHeader seg) / 2 = segHeader seg by omega, ih]
      rfl

/-- A segment on its own is read back in one round. -/
theorem unpackLoop_packSeg {seg : Bytes} (hlen : seg.length = 8) (hne : (notZero seg).length ≠ 8)
    (fuel : Nat) (s : Bytes) :
    unpackLoop (fuel + 1) (packSeg seg ++ s) = (unpackLoop fuel s).map fun t => seg ++ t := by
  have hlt : segHeader seg < 255 := by
    have hle := segHeader_lt seg
    rw [hlen] at hle
    by_contra hge
    -- only a segment without zeros has the header of a run
    have hfull := notZero_of_segHeader (show segHeader seg = 2 ^ seg.length - 1 by
      rw [hlen]
      omega)
    exact hne (by rw [hfull, hlen])
  have hnat : (segHeader seg).toUInt8.toNat = segHeader seg := by
    rw [Nat.toUInt8_eq, UInt8.toNat_ofNat', Nat.mod_eq_of_lt (by omega)]
  have hff : (segHeader seg).toUInt8 ≠ 255 := by
    intro h
    rw [h] at hnat
    exact absurd hnat (by rw [show (255 : UInt8).toNat = 255 from rfl]; omega)
  have hseg := unpackSeg_notZero seg s
  rw [hlen] at hseg
  rw [packSeg, List.cons_append]
  simp only [unpackLoop, if_neg hff, hnat, hseg]

/-- A run is read back in one round. -/
theorem unpackLoop_writeFF {run : List Bytes} (hrun : run ≠ []) (hmax : run.length ≤ 256)
    (hlen : ∀ seg ∈ run, seg.length = 8) (fuel : Nat) (s : Bytes) :
    unpackLoop (fuel + 1) (writeFF run ++ s) =
      (unpackLoop fuel s).map fun t => run.flatten ++ t := by
  have hpos : 0 < run.length := List.length_pos_iff.mpr hrun
  have hflat : run.flatten.length = run.length * 8 := by
    rw [List.length_flatten, List.map_congr_left hlen, List.map_const', List.sum_replicate,
      Nat.nsmul_eq_mul]
  have hnat : (run.length - 1).toUInt8.toNat = run.length - 1 := by
    rw [Nat.toUInt8_eq, UInt8.toNat_ofNat', Nat.mod_eq_of_lt (by omega)]
  have hsize : ((run.length - 1).toUInt8.toNat + 1) * 8 = run.flatten.length := by
    rw [hnat, hflat]
    omega
  rw [writeFF, if_neg hrun, List.cons_append, List.cons_append, unpackLoop, if_pos rfl]
  simp only [hsize]
  rw [if_neg (by rw [List.length_append]; omega), List.drop_left, List.take_left]

/-- **What the packing loop writes is read back.** -/
theorem unpackLoop_packLoop {run segs : List Bytes} {fuel : Nat} (hmax : run.length < 256)
    (hrun : ∀ seg ∈ run, seg.length = 8) (hsegs : ∀ seg ∈ segs, seg.length = 8)
    (hfuel : (packLoop run segs).length ≤ fuel) :
    unpackLoop fuel (packLoop run segs) = some (run.flatten ++ segs.flatten) := by
  -- a round takes at least one byte
  have hseg : ∀ seg : Bytes, 0 < (packSeg seg).length := by simp [packSeg]
  have hff : ∀ run : List Bytes, run ≠ [] → 0 < (writeFF run).length := by
    intro run hne
    simp [writeFF, hne]
  induction segs generalizing run fuel with
  | nil =>
    by_cases hne : run = []
    · subst hne
      rw [packLoop, writeFF, if_pos rfl, unpackLoop]
      rfl
    · have hpos := hff run hne
      rw [packLoop] at hfuel ⊢
      obtain ⟨fuel, rfl⟩ : ∃ k, fuel = k + 1 := ⟨fuel - 1, by omega⟩
      rw [← List.append_nil (writeFF run), unpackLoop_writeFF hne hmax.le hrun, unpackLoop]
      rfl
  | cons seg segs ih =>
    have hlen : seg.length = 8 := hsegs seg (by simp)
    have hrest : ∀ s ∈ segs, s.length = 8 := fun s hs => hsegs s (by simp [hs])
    rw [packLoop] at hfuel ⊢
    split
    · rename_i hne
      subst hne
      rw [if_pos rfl] at hfuel
      split
      · rename_i hfull
        rw [if_pos hfull] at hfuel
        rw [ih (by simp) (by simpa using hlen) hrest hfuel]
        simp
      · rename_i hfull
        rw [if_neg hfull, List.length_append] at hfuel
        have hpos := hseg seg
        obtain ⟨fuel, rfl⟩ : ∃ k, fuel = k + 1 := ⟨fuel - 1, by omega⟩
        rw [unpackLoop_packSeg hlen hfull, ih (by simp) (by simp) hrest (by omega)]
        simp
    · rename_i hne
      rw [if_neg hne] at hfuel
      split
      · rename_i hsix
        rw [if_pos hsix] at hfuel
        have hrun' : ∀ s ∈ run ++ [seg], s.length = 8 := by
          intro s hs
          rcases List.mem_append.mp hs with hs | hs
          · exact hrun s hs
          · rw [List.mem_singleton.mp hs, hlen]
        split
        · rename_i hfull
          rw [if_pos hfull, List.length_append] at hfuel
          have hpos := hff (run ++ [seg]) (by simp)
          obtain ⟨fuel, rfl⟩ : ∃ k, fuel = k + 1 := ⟨fuel - 1, by omega⟩
          rw [unpackLoop_writeFF (by simp) (by simp; omega) hrun',
            ih (by simp) (by simp) hrest (by omega)]
          simp
        · rename_i hfull
          rw [if_neg hfull] at hfuel
          rw [ih (by simp; omega) hrun' hrest hfuel]
          simp
      · rename_i hsix
        rw [if_neg hsix, List.append_assoc, List.length_append, List.length_append] at hfuel
        have hpos := hff run hne
        have hpos' := hseg seg
        obtain ⟨fuel, rfl⟩ : ∃ k, fuel = k + 1 + 1 := ⟨fuel - 2, by omega⟩
        rw [List.append_assoc, unpackLoop_writeFF hne hmax.le hrun,
          unpackLoop_packSeg hlen (by omega), ih (by simp) (by simp) hrest (by omega)]
        simp

/-- The segments of a text: its bytes, and zeros. -/
theorem segments_spec (s : Bytes) : (∀ seg ∈ segments s, seg.length = 8) ∧
    ∃ k, (segments s).flatten = s ++ List.replicate k 0 := by
  induction s using segments.induct with
  | case1 a b c d e f g h s ih =>
    obtain ⟨hlen, k, hk⟩ := ih
    refine ⟨fun seg hseg => ?_, k, ?_⟩
    · rcases List.mem_cons.mp hseg with rfl | hseg
      · rfl
      · exact hlen seg hseg
    · rw [segments, List.flatten_cons, hk]
      rfl
  | case2 => exact ⟨by simp [segments], 0, rfl⟩
  | case3 s hlong hne =>
    have hlt : s.length < 8 := by
      by_contra hge
      rcases s with _ | ⟨a, _ | ⟨b, _ | ⟨c, _ | ⟨d, _ | ⟨e, _ | ⟨f, _ | ⟨g, _ | ⟨h, t⟩⟩⟩⟩⟩⟩⟩⟩
      all_goals first
        | exact hlong a b c d e f g h t rfl
        | simp at hge
    have hseg : segments s = [s ++ List.replicate (8 - s.length) 0] := segments.eq_3 s hlong hne
    rw [hseg]
    refine ⟨fun seg hmem => ?_, 8 - s.length, by simp⟩
    rw [List.mem_singleton.mp hmem, List.length_append, List.length_replicate]
    omega

/-- **A packed text comes back**, with zeros behind it. -/
theorem unpack_pack (s : Bytes) : ∃ k, unpack (pack s) = some (s ++ List.replicate k 0) := by
  obtain ⟨hlen, k, hk⟩ := segments_spec s
  refine ⟨k, ?_⟩
  rw [unpack, pack, unpackLoop_packLoop (by simp) (by simp) hlen le_rfl, hk]
  rfl

/-! ## Size -/

theorem writeFF_length {run : List Bytes} (h : run ≠ []) :
    run.flatten.length ≤ (writeFF run).length := by
  rw [writeFF, if_neg h, List.length_cons, List.length_cons]
  omega

theorem packLoop_length (run : List Bytes) {segs : List Bytes}
    (hsegs : ∀ seg ∈ segs, seg.length = 8) :
    run.flatten.length + segs.flatten.length ≤ 8 * (packLoop run segs).length := by
  induction segs generalizing run with
  | nil =>
    rw [packLoop, List.flatten_nil, List.length_nil]
    by_cases hne : run = []
    · simp [hne]
    · have hle := writeFF_length hne
      omega
  | cons seg segs ih =>
    have hlen : seg.length = 8 := hsegs seg (by simp)
    have hrest : ∀ s ∈ segs, s.length = 8 := fun s hs => hsegs s (by simp [hs])
    have hseg : 0 < (packSeg seg).length := by simp [packSeg]
    have hnil := ih [] hrest
    rw [List.flatten_nil, List.length_nil] at hnil
    rw [List.flatten_cons, List.length_append, hlen, packLoop]
    split
    · rename_i hne
      subst hne
      rw [List.flatten_nil, List.length_nil]
      split
      · have hone := ih [seg] hrest
        rw [List.flatten_singleton, hlen] at hone
        omega
      · rw [List.length_append]
        omega
    · rename_i hne
      have hrun := writeFF_length hne
      split
      · have hsnoc : (run ++ [seg]).flatten.length = run.flatten.length + 8 := by simp [hlen]
        split
        · have hff := writeFF_length (show run ++ [seg] ≠ [] by simp)
          rw [List.length_append]
          omega
        · have hnext := ih (run ++ [seg]) hrest
          omega
      · rw [List.length_append, List.length_append]
        omega

/-- A packed text is not much shorter than the text. -/
theorem length_le_pack (s : Bytes) : s.length ≤ 8 * (pack s).length := by
  obtain ⟨hlen, k, hk⟩ := segments_spec s
  have hle := packLoop_length [] hlen
  rw [hk, List.flatten_nil, List.length_nil, List.length_append] at hle
  rw [pack]
  omega

end LsServer.Sproto
