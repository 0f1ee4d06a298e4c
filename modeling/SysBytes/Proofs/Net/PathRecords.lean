import SysBytes.Proofs.Net.Records
import SysBytes.Proofs.Store.SmallShapes

/-!
Local socket records of paths, written and read. Writing refuses a NUL first, then a path too
long for the record; any other path is written as the family, the path and a NUL, and reading a
record takes its bytes after the family up to the first NUL.
-/
namespace SysBytes.Store.SmallBuffer

theorem tryFilled_congr {ε : Type} {n : Nat} {fill fill' : Filler ε}
    (agree : ∀ region : List UInt8, region.length = n → fill.run region = fill'.run region)
    (h : Heap) : (tryFilled n fill).run h = (tryFilled n fill').run h := by
  obtain ⟨b₁, h₁, run₁, -, -, -, m, room, zeroed⟩ :=
    withCapacity_runsLive (Heap.accounted_handles h) n
  have offered : ((b₁.cells h₁).take n).length = n := by
    rw [zeroed, List.length_take, List.length_replicate]
    omega
  simp only [tryFilled, EStateM.run_bind, run₁, heap, EStateM.run_get, agree _ offered]

theorem filled_congr {n : Nat} {fill fill' : Filler Empty}
    (agree : ∀ region : List UInt8, region.length = n → fill.run region = fill'.run region)
    (h : Heap) : (filled n fill).run h = (filled n fill').run h := by
  simp only [filled, EStateM.run_bind, tryFilled_congr agree h]

end SysBytes.Store.SmallBuffer

namespace SysBytes.Net

open Store Word

/-! ### Writing a path -/

theorem encode_unix : encodeLE 2 Family.unix.raw.toNat = [1, 0] := by decide

theorem unixFill_run {record region : List UInt8} (count : Nat)
    (same : region.length = record.length) :
    Filler.run (ε := Empty)
      (fun region => .ok (overwrite (region.map fun _ => 0) 0 record, count)) region =
      (Filler.writing record count).run region := by
  have zeroed : overwrite (region.map fun _ => (0 : UInt8)) 0 record = record :=
    overwrite_zero_of_length (by rw [List.length_map, same])
  rw [Filler.run_writing, overwrite_zero_of_length same.symm]
  simp only [Filler.run, zeroed, List.take_of_length_le (Nat.le_of_eq same.symm),
    overwrite_zero_of_length same.symm]

namespace SocketAddress

theorem unix_of_mem {path : List UInt8} (nul : 0 ∈ path) (h : Heap) :
    (unix path).run h = .ok (.error .interiorNul) h := by
  simp [unix, nul]

theorem unix_of_long {path : List UInt8} (clean : 0 ∉ path) (long : pathRoom ≤ path.length)
    (h : Heap) : (unix path).run h = .ok (.error (.pathTooLong path.length 107)) h := by
  simp [unix, clean, long]
  rfl

theorem unix_run {path : List UInt8} (clean : 0 ∉ path) (short : path.length < pathRoom)
    (h : Heap) :
    (unix path).run h =
      match (SmallBuffer.ofBytes ([1, 0] ++ path ++ [0])).run h with
      | .ok b h' => .ok (.ok ⟨b⟩) h'
      | .error e h' => .error e h' := by
  have unchecked : path.contains 0 = false := by simpa using clean
  have fits : ¬ pathRoom ≤ path.length := Nat.not_le.mpr short
  have count : pathOffset + path.length + 1 = ([1, 0] ++ path ++ [0] : List UInt8).length := by
    simp [pathOffset]
    omega
  simp only [unix, unchecked, fits, Bool.false_eq_true, if_false, encode_unix, count]
  rw [EStateM.run_bind, SmallBuffer.filled_congr (fun region same => unixFill_run _ same) h,
    SmallBuffer.ofBytes]
  cases (SmallBuffer.filled _ _).run h <;> rfl

theorem unix_written {path : List UInt8} (clean : 0 ∉ path) (short : path.length < pathRoom)
    (h : Heap) :
    ∃ a h', (unix path).run h = .ok (.ok a) h' ∧ a.bytes h' = [1, 0] ++ path ++ [0] ∧
      a.buffer.len = path.length + 3 ∧ (a.buffer.isInline = true ↔ path.length ≤ 25) := by
  obtain ⟨b, h', ran, live, -, held⟩ :=
    SmallBuffer.ofBytes_runsLive (Heap.accounted_handles h) ([1, 0] ++ path ++ [0])
  obtain ⟨b', h'', ran', -, -, -, kind⟩ :=
    SmallBuffer.ofBytes_shaped (Heap.accounted_handles h) ([1, 0] ++ path ++ [0])
  rw [ran, EStateM.Result.ok.injEq] at ran'
  obtain ⟨rfl, rfl⟩ := ran'
  have len : b.len = path.length + 3 := by
    rw [← SmallBuffer.length_bytes live.valid, held]
    simp
  refine ⟨⟨b⟩, h', by rw [unix_run clean short h, ran], held, len, ?_⟩
  rw [kind, decide_eq_true_iff]
  simp [inlineCapacity]
  omega

end SocketAddress

/-! ### Reading a path -/

theorem unixPathOf_of_family {r : List UInt8} (family : familyOf r = Family.unix) :
    unixPathOf r = .ok (if (r.drop 2).takeWhile (· != 0) = [] then none
      else some ((r.drop 2).takeWhile (· != 0))) := by
  simp [unixPathOf, family, pathOffset]

theorem familyOf_unix (rest : List UInt8) : familyOf ([1, 0] ++ rest) = Family.unix := by
  rw [← encode_unix, familyOf_encode]

theorem unixPathOf_record {path : List UInt8} (clean : 0 ∉ path) :
    unixPathOf ([1, 0] ++ path ++ [0]) = .ok (if path = [] then none else some path) := by
  have upto : (([1, 0] ++ path ++ [0]).drop 2).takeWhile (· != 0) = path := by
    have kept : ∀ x ∈ path, (x != 0) = true := fun x mem => by
      have nonzero : x ≠ 0 := fun zero => clean (zero ▸ mem)
      simpa using nonzero
    rw [List.append_assoc, List.drop_append_of_le_length (by simp), List.drop_eq_nil_of_le
      (by simp), List.nil_append, List.takeWhile_append_of_pos kept]
    simp
  rw [List.append_assoc, unixPathOf_of_family (familyOf_unix _), ← List.append_assoc, upto]

open SocketAddress

/-- **Local records of paths are written and read back.** A path is refused for a NUL, then for 108
bytes or more; any other is written as the family, the path and a NUL, and reads back. -/
theorem local_paths_round_trip :
    (∀ (p : List UInt8) (h : Heap), 0 ∈ p →
      (SocketAddress.unix p).run h = .ok (.error .interiorNul) h) ∧
    (∀ (p : List UInt8) (h : Heap), 0 ∉ p → 108 ≤ p.length →
      (SocketAddress.unix p).run h = .ok (.error (.pathTooLong p.length 107)) h) ∧
    (∀ (p : List UInt8) (h : Heap), 0 ∉ p → p.length < 108 →
      ∃ a h', (SocketAddress.unix p).run h = .ok (.ok a) h' ∧
        a.bytes h' = [1, 0] ++ p ++ [0] ∧ a.buffer.len = p.length + 3 ∧
        (a.buffer.isInline = true ↔ p.length ≤ 25) ∧
        unixPathOf (a.bytes h') = .ok (if p = [] then none else some p)) ∧
    (∀ r : List UInt8, familyOf r = Family.unix →
      (unixPathOf r = .ok none ↔ (r.drop 2).takeWhile (· != 0) = []) ∧
      ∀ h : Heap, (r.drop 2).takeWhile (· != 0) ≠ [] →
        ((r.drop 2).takeWhile (· != 0)).length < 108 →
        ∃ a h', (SocketAddress.unix ((r.drop 2).takeWhile (· != 0))).run h = .ok (.ok a) h' ∧
          unixPathOf (a.bytes h') = unixPathOf r) := by
  refine ⟨fun p h nul => unix_of_mem nul h, fun p h clean long => unix_of_long clean long h,
    fun p h clean short => ?_, fun r family => ⟨?_, fun h named short => ?_⟩⟩
  · obtain ⟨a, h', ran, bytes, len, inline⟩ := unix_written clean short h
    exact ⟨a, h', ran, bytes, len, inline, by rw [bytes, unixPathOf_record clean]⟩
  · rw [unixPathOf_of_family family]
    by_cases empty : (r.drop 2).takeWhile (· != 0) = [] <;> simp [empty]
  · -- the bytes read stop before the first NUL, so they hold none
    have clean : 0 ∉ (r.drop 2).takeWhile (· != 0) := fun mem => by
      simpa using List.mem_takeWhile_imp mem
    obtain ⟨a, h', ran, bytes, -, -⟩ := unix_written clean short h
    refine ⟨a, h', ran, ?_⟩
    rw [bytes, unixPathOf_record clean, unixPathOf_of_family family, if_neg named]

/-- A one-byte path is written inline as `[1, 0, 97, 0]` and reads back. -/
theorem one_byte_path_written :
    ∃ a h', (SocketAddress.unix [97]).run {} = .ok (.ok a) h' ∧
      a.bytes h' = [1, 0] ++ [97] ++ [0] ∧ a.buffer.len = [97].length + 3 ∧
      (a.buffer.isInline = true ↔ [97].length ≤ 25) ∧
      unixPathOf (a.bytes h') = .ok (if ([97] : List UInt8) = [] then none else some [97]) :=
  local_paths_round_trip.2.2.1 [97] {} (by decide) (by decide)

end SysBytes.Net
