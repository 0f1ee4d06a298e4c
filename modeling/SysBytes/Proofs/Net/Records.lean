import Mathlib
import SysBytes.Net.Address
import SysBytes.Proofs.Word
import SysBytes.Proofs.Store.Inline

/-!
IP socket address records, written and read. Both kinds of record are written inline and read
back as their address; reading any bytes gives an address exactly when they carry an IP family
and are long enough for its record.
-/
namespace SysBytes.Net

open Store Word

structure InetLayout (bytes : List UInt8) (ip : Ipv4) (port : UInt16) : Prop where
  length : bytes.length = inetRecordSize
  family : slice bytes 0 2 = [2, 0]
  port : decodeBE (slice bytes 2 2) = port.toNat
  octets : slice bytes 4 4 = ip.octets.toList
  zeros : slice bytes 8 8 = List.replicate 8 0

structure Inet6Layout (bytes : List UInt8) (ip : Ipv6) (port : UInt16) (flowinfo scope : UInt32) :
    Prop where
  length : bytes.length = inet6RecordSize
  family : slice bytes 0 2 = [10, 0]
  port : decodeBE (slice bytes 2 2) = port.toNat
  flowinfo : decodeLE (slice bytes 4 4) = flowinfo.toNat
  octets : slice bytes 8 16 = ip.octets.toList
  scope : decodeLE (slice bytes 24 4) = scope.toNat

/-- What reading bytes as an IP socket address gives, by their family and length. -/
def ReadAs (bytes : List UInt8) : Except AddressError SocketAddr → Prop
  | .ok a =>
    (familyOf bytes = .inet ∧ inetRecordSize ≤ bytes.length ∧
      a.record = bytes.take 8 ++ List.replicate 8 0) ∨
    (familyOf bytes = .inet6 ∧ inet6RecordSize ≤ bytes.length ∧
      a.record = bytes.take inet6RecordSize)
  | .error e =>
    (familyOf bytes ≠ .inet ∧ familyOf bytes ≠ .inet6 ∧
      e = .unsupportedFamily (familyOf bytes).raw) ∨
    (familyOf bytes = .inet ∧ bytes.length < inetRecordSize ∧
      e = .truncated bytes.length inetRecordSize) ∨
    (familyOf bytes = .inet6 ∧ bytes.length < inet6RecordSize ∧
      e = .truncated bytes.length inet6RecordSize)

/-! ### Octets -/

theorem ofFn_getD {n : Nat} (bytes : List UInt8) (o : Nat) (inside : o + n ≤ bytes.length) :
    (List.ofFn fun i : Fin n => bytes.getD (o + i.val) 0) = slice bytes o n := by
  apply List.ext_getElem
  · simp only [List.length_ofFn, length_slice]
    omega
  · intro i within _
    rw [List.length_ofFn] at within
    simp [slice, List.getD_eq_getElem?_getD,
      List.getElem?_eq_getElem (show o + i < bytes.length by omega)]

theorem Ipv4.octets_read {bytes : List UInt8} {o : Nat} (inside : o + 4 ≤ bytes.length) :
    (Ipv4.read bytes o).octets.toList = slice bytes o 4 := by
  rw [Ipv4.read, Vector.toList_ofFn, ofFn_getD bytes o inside]

theorem Ipv6.octets_read {bytes : List UInt8} {o : Nat} (inside : o + 16 ≤ bytes.length) :
    (Ipv6.read bytes o).octets.toList = slice bytes o 16 := by
  rw [Ipv6.read, Vector.toList_ofFn, ofFn_getD bytes o inside]

theorem Ipv4.read_of_slice {bytes : List UInt8} {o : Nat} {ip : Ipv4}
    (at_o : slice bytes o 4 = ip.octets.toList) : Ipv4.read bytes o = ip := by
  have inside : o + 4 ≤ bytes.length := by
    have counted := congrArg List.length at_o
    simp only [length_slice, Vector.length_toList] at counted
    omega
  have same : (Ipv4.read bytes o).octets = ip.octets :=
    Vector.toList_inj.mp (by rw [Ipv4.octets_read inside, at_o])
  rw [show Ipv4.read bytes o = ⟨(Ipv4.read bytes o).octets⟩ from rfl, same]

theorem Ipv6.read_of_slice {bytes : List UInt8} {o : Nat} {ip : Ipv6}
    (at_o : slice bytes o 16 = ip.octets.toList) : Ipv6.read bytes o = ip := by
  have inside : o + 16 ≤ bytes.length := by
    have counted := congrArg List.length at_o
    simp only [length_slice, Vector.length_toList] at counted
    omega
  have same : (Ipv6.read bytes o).octets = ip.octets :=
    Vector.toList_inj.mp (by rw [Ipv6.octets_read inside, at_o])
  rw [show Ipv6.read bytes o = ⟨(Ipv6.read bytes o).octets⟩ from rfl, same]

/-! ### Families -/

theorem familyOf_encode (raw : UInt16) (rest : List UInt8) :
    familyOf (encodeLE 2 raw.toNat ++ rest) = ⟨raw⟩ := by
  have below : raw.toNat < 256 ^ 2 := raw.toNat_lt
  have long : ¬ (encodeLE 2 raw.toNat ++ rest).length < 2 := by
    simp only [List.length_append, length_encodeLE]
    omega
  rw [familyOf, if_neg long, List.take_left' (length_encodeLE 2 _), decodeLE_encodeLE,
    Nat.mod_eq_of_lt below]
  simp

theorem take_two_of_familyOf {bytes : List UInt8} {f : Family} (long : 2 ≤ bytes.length)
    (family : familyOf bytes = f) : bytes.take 2 = encodeLE 2 f.raw.toNat := by
  have two : (bytes.take 2).length = 2 := by
    rw [List.length_take]
    omega
  have below := decodeLE_lt (bytes.take 2)
  rw [two] at below
  rw [familyOf, if_neg (by omega)] at family
  subst family
  have back := encodeLE_decodeLE (bytes.take 2)
  rw [two] at back
  rw [show (decodeLE (bytes.take 2)).toUInt16.toNat = decodeLE (bytes.take 2) from
    UInt16.toNat_ofNat_of_lt' below, back]

/-! ### Records written -/

section Fields

variable (ip : Ipv4) (ip6 : Ipv6) (p : UInt16) (flow scope : UInt32)

theorem inet_fields :
    slice (SocketAddr.v4 ip p).record 0 2 = encodeLE 2 2 ∧
      slice (SocketAddr.v4 ip p).record 2 2 = encodeBE 2 p.toNat ∧
      slice (SocketAddr.v4 ip p).record 4 4 = ip.octets.toList ∧
      slice (SocketAddr.v4 ip p).record 8 8 = List.replicate 8 0 := by
  refine ⟨?_, ?_, slice_middle (by simp) (by simp), slice_last (by simp) (by simp)⟩
  · rw [SocketAddr.record, slice_append_left (by simp), slice_append_left (by simp),
      slice_append_left (by simp)]
    rfl
  · rw [SocketAddr.record, slice_append_left (by simp), slice_append_left (by simp)]
    exact slice_last (by simp) (by simp)

theorem inet6_fields :
    slice (SocketAddr.v6 ip6 p flow scope).record 0 2 = encodeLE 2 10 ∧
      slice (SocketAddr.v6 ip6 p flow scope).record 2 2 = encodeBE 2 p.toNat ∧
      slice (SocketAddr.v6 ip6 p flow scope).record 4 4 = encodeLE 4 flow.toNat ∧
      slice (SocketAddr.v6 ip6 p flow scope).record 8 16 = ip6.octets.toList ∧
      slice (SocketAddr.v6 ip6 p flow scope).record 24 4 = encodeLE 4 scope.toNat := by
  refine ⟨?_, ?_, ?_, slice_middle (by simp) (by simp), slice_last (by simp) (by simp)⟩
  · rw [SocketAddr.record, slice_append_left (by simp), slice_append_left (by simp),
      slice_append_left (by simp), slice_append_left (by simp)]
    rfl
  · rw [SocketAddr.record, slice_append_left (by simp), slice_append_left (by simp),
      slice_append_left (by simp)]
    exact slice_last (by simp) (by simp)
  · rw [SocketAddr.record, slice_append_left (by simp), slice_append_left (by simp)]
    exact slice_last (by simp) (by simp)

theorem inet_layout : InetLayout (SocketAddr.v4 ip p).record ip p := by
  obtain ⟨family, port, octets, zeros⟩ := inet_fields ip p
  have below : p.toNat < 256 ^ 2 := p.toNat_lt
  refine ⟨by simp [SocketAddr.record, inetRecordSize], by rw [family]; rfl, ?_, octets, zeros⟩
  rw [port, decodeBE_encodeBE, Nat.mod_eq_of_lt below]

theorem inet6_layout : Inet6Layout (SocketAddr.v6 ip6 p flow scope).record ip6 p flow scope := by
  obtain ⟨family, port, flowinfo, octets, scopeId⟩ := inet6_fields ip6 p flow scope
  have below : p.toNat < 256 ^ 2 := p.toNat_lt
  have flowBelow : flow.toNat < 256 ^ 4 := flow.toNat_lt
  have scopeBelow : scope.toNat < 256 ^ 4 := scope.toNat_lt
  refine ⟨by simp [SocketAddr.record, inet6RecordSize], by rw [family]; rfl, ?_, ?_, octets, ?_⟩
  · rw [port, decodeBE_encodeBE, Nat.mod_eq_of_lt below]
  · rw [flowinfo, decodeLE_encodeLE, Nat.mod_eq_of_lt flowBelow]
  · rw [scopeId, decodeLE_encodeLE, Nat.mod_eq_of_lt scopeBelow]

end Fields

theorem length_record_le (a : SocketAddr) : a.record.length ≤ inlineCapacity := by
  cases a <;> simp [SocketAddr.record, inlineCapacity]

theorem ofSocketAddr_run (a : SocketAddr) (h : Heap) :
    ∃ r : SocketAddress, (SocketAddress.ofSocketAddr a).run h = .ok r h ∧
      r.buffer.isInline = true ∧ r.bytes h = a.record := by
  have short := length_record_le a
  refine ⟨⟨.inline (overwrite (List.replicate inlineCapacity 0) 0 a.record) a.record.length⟩,
    ?_, rfl, ?_⟩
  · simp only [SocketAddress.ofSocketAddr, SocketAddress.ofBytes, EStateM.run_bind,
      SmallBuffer.ofBytes_inline short]
    rfl
  · show (overwrite (List.replicate inlineCapacity 0) 0 a.record).take a.record.length = a.record
    exact take_overwrite_zero (by simpa using short)

/-! ### Records read -/

theorem socketAddrOf_inet {bytes : List UInt8} (family : familyOf bytes = .inet)
    (long : inetRecordSize ≤ bytes.length) :
    socketAddrOf bytes = .ok (.v4 (Ipv4.read bytes 4) (decodeBE (slice bytes 2 2)).toUInt16) := by
  simp only [socketAddrOf, family, if_true, Nat.not_lt.mpr long, if_false]

theorem socketAddrOf_inet6 {bytes : List UInt8} (family : familyOf bytes = .inet6)
    (long : inet6RecordSize ≤ bytes.length) :
    socketAddrOf bytes = .ok (.v6 (Ipv6.read bytes 8) (decodeBE (slice bytes 2 2)).toUInt16
      (decodeLE (slice bytes 4 4)).toUInt32 (decodeLE (slice bytes 24 4)).toUInt32) := by
  have apart : Family.inet6 ≠ Family.inet := by decide
  simp only [socketAddrOf, family, apart, if_true, if_false, Nat.not_lt.mpr long]

theorem socketAddrOf_record (a : SocketAddr) : socketAddrOf a.record = .ok a := by
  cases a with
  | v4 ip p =>
    obtain ⟨-, port, octets, -⟩ := inet_fields ip p
    have family : familyOf (SocketAddr.v4 ip p).record = .inet := by
      rw [SocketAddr.record, List.append_assoc, List.append_assoc]
      exact familyOf_encode _ _
    rw [socketAddrOf_inet family (by simp [SocketAddr.record, inetRecordSize]),
      Ipv4.read_of_slice octets, port]
    simp
  | v6 ip p flow scope =>
    obtain ⟨-, port, flowinfo, octets, scopeId⟩ := inet6_fields ip p flow scope
    have family : familyOf (SocketAddr.v6 ip p flow scope).record = .inet6 := by
      rw [SocketAddr.record, List.append_assoc, List.append_assoc, List.append_assoc]
      exact familyOf_encode _ _
    rw [socketAddrOf_inet6 family (by simp [SocketAddr.record, inet6RecordSize]),
      Ipv6.read_of_slice octets, port, flowinfo, scopeId]
    simp

theorem record_of_inet {bytes : List UInt8} (family : familyOf bytes = .inet)
    (long : inetRecordSize ≤ bytes.length) :
    (SocketAddr.v4 (Ipv4.read bytes 4) (decodeBE (slice bytes 2 2)).toUInt16).record =
      bytes.take 8 ++ List.replicate 8 0 := by
  unfold inetRecordSize at long
  have head := take_two_of_familyOf (by omega) family
  rw [SocketAddr.record, Ipv4.octets_read (by omega), encodeBE_decodeBE_two (by simp; omega),
    take_add_slice bytes 4 4, take_add_slice bytes 2 2, head]

theorem record_of_inet6 {bytes : List UInt8} (family : familyOf bytes = .inet6)
    (long : inet6RecordSize ≤ bytes.length) :
    (SocketAddr.v6 (Ipv6.read bytes 8) (decodeBE (slice bytes 2 2)).toUInt16
      (decodeLE (slice bytes 4 4)).toUInt32 (decodeLE (slice bytes 24 4)).toUInt32).record =
      bytes.take inet6RecordSize := by
  unfold inet6RecordSize at long ⊢
  have head := take_two_of_familyOf (by omega) family
  rw [SocketAddr.record, Ipv6.octets_read (by omega), encodeBE_decodeBE_two (by simp; omega),
    encodeLE_decodeLE_four (by simp; omega), encodeLE_decodeLE_four (by simp; omega),
    take_add_slice bytes 24 4, take_add_slice bytes 8 16, take_add_slice bytes 4 4,
    take_add_slice bytes 2 2, head]

theorem socketAddrOf_readAs (bytes : List UInt8) : ReadAs bytes (socketAddrOf bytes) := by
  by_cases inet : familyOf bytes = .inet
  · by_cases short : bytes.length < inetRecordSize
    · simp only [socketAddrOf, inet, if_true, short]
      exact .inr (.inl ⟨inet, short, rfl⟩)
    · rw [socketAddrOf_inet inet (Nat.le_of_not_lt short)]
      exact .inl ⟨inet, Nat.le_of_not_lt short, record_of_inet inet (Nat.le_of_not_lt short)⟩
  · by_cases inet6 : familyOf bytes = .inet6
    · by_cases short : bytes.length < inet6RecordSize
      · simp only [socketAddrOf, inet6, if_true, short]
        exact .inr (.inr ⟨inet6, short, rfl⟩)
      · rw [socketAddrOf_inet6 inet6 (Nat.le_of_not_lt short)]
        exact .inr ⟨inet6, Nat.le_of_not_lt short, record_of_inet6 inet6 (Nat.le_of_not_lt short)⟩
    · simp only [socketAddrOf, inet, inet6, if_false]
      exact .inl ⟨inet, inet6, rfl⟩

/-- **IP socket address records.** IPv4 and IPv6 addresses are written inline as the bytes of their
layouts and read back; any record bytes read as `ReadAs` says. -/
theorem ip_records_read_back :
    (∀ (ip : Ipv4) (port : UInt16) (h : Heap), ∃ r : SocketAddress,
      (SocketAddress.ofSocketAddr (.v4 ip port)).run h = .ok r h ∧ r.buffer.isInline = true ∧
        InetLayout (r.bytes h) ip port) ∧
    (∀ (ip : Ipv6) (port : UInt16) (flowinfo scope : UInt32) (h : Heap), ∃ r : SocketAddress,
      (SocketAddress.ofSocketAddr (.v6 ip port flowinfo scope)).run h = .ok r h ∧
        r.buffer.isInline = true ∧ Inet6Layout (r.bytes h) ip port flowinfo scope) ∧
    (∀ (a : SocketAddr) (h : Heap), ∃ r : SocketAddress,
      (SocketAddress.ofSocketAddr a).run h = .ok r h ∧ socketAddrOf (r.bytes h) = .ok a) ∧
    (∀ (bytes : List UInt8) (h : Heap), ∃ r h', (SocketAddress.ofBytes bytes).run h = .ok r h' ∧
      r.bytes h' = bytes ∧ ReadAs bytes (socketAddrOf (r.bytes h'))) := by
  refine ⟨fun ip port h => ?_, fun ip port flowinfo scope h => ?_, fun a h => ?_,
    fun bytes h => ?_⟩
  · obtain ⟨r, run, inline, held⟩ := ofSocketAddr_run (.v4 ip port) h
    exact ⟨r, run, inline, held ▸ inet_layout ip port⟩
  · obtain ⟨r, run, inline, held⟩ := ofSocketAddr_run (.v6 ip port flowinfo scope) h
    exact ⟨r, run, inline, held ▸ inet6_layout ip port flowinfo scope⟩
  · obtain ⟨r, run, -, held⟩ := ofSocketAddr_run a h
    exact ⟨r, run, by rw [held, socketAddrOf_record]⟩
  · obtain ⟨b, h', run, held⟩ := SmallBuffer.ofBytes_bytes bytes h
    refine ⟨⟨b⟩, h', ?_, held, ?_⟩
    · simp only [SocketAddress.ofBytes, EStateM.run_bind, run]
      rfl
    · show ReadAs bytes (socketAddrOf (b.bytes h'))
      rw [held]
      exact socketAddrOf_readAs bytes

end SysBytes.Net
