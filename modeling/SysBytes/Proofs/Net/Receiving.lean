import SysBytes.Proofs.Store.Sizes
import SysBytes.Net.Message

/-!
Receiving a message commits what the system reported, within the room offered. Each step keeps
every region at its size, so the room one buffer was given survives the steps on the other; the
only fault is growing a region of more than `2 ^ 61` bytes.
-/
namespace SysBytes.Word

theorem take_overwrite_zero_of_le {cells p : List UInt8} {m : Nat} (short : m ≤ p.length)
    (room : p.length ≤ cells.length) : (overwrite cells 0 p).take m = p.take m := by
  calc (overwrite cells 0 p).take m = ((overwrite cells 0 p).take p.length).take m := by
        rw [List.take_take, Nat.min_eq_left short]
    _ = p.take m := by rw [take_overwrite_zero room]

end SysBytes.Word

namespace SysBytes.Store.SmallBuffer

variable {h : Heap} {b : SmallBuffer}

/-! ### The address record's buffer -/

theorem reserve_ends (shaped : b.Shaped h) (n : Nat) :
    Ends (b.reserve n) h (fun b' h' => b'.Shaped h' ∧ b'.len = b.len ∧ n ≤ b'.capacity h')
      (fun f => f = .capacityOverflow ∧ b.capacity h < n ∧ wordMax < b.capacity h * 7 + 2) := by
  cases b with
  | inline c len =>
    by_cases small : n ≤ inlineCapacity
    · exact Ends.of_ok (by simp [reserve, small]) ⟨shaped, rfl, small⟩
    · -- the bytes move to a fresh region of `n` rounded up to 8
      obtain ⟨s', h', ran, cap⟩ :=
        reserve_inline_promotes c len n (Nat.lt_of_not_le small) h
      obtain ⟨shaped', room⟩ :=
        shaped_of_capacity_roundUp8 shaped.2 (Nat.lt_of_not_le small) cap
      exact Ends.of_ok ran ⟨shaped', rfl, room⟩
  | large s len =>
    by_cases fits : n ≤ s.capacity h ∨ s.capacity h * 7 + 2 ≤ wordMax
    · obtain ⟨s', h', grown, cells', -⟩ := CowStore.reserve_reserved shaped.allocated fits
      have ran : ((large s len).reserve n).run h = .ok (.large s' len) h' := by
        simp only [reserve, EStateM.run_bind, grown]
        rfl
      obtain ⟨shaped', room⟩ := shaped.of_reservedCells cells'
      exact Ends.of_ok ran ⟨shaped', rfl, room⟩
    · rw [not_or, Nat.not_le, Nat.not_le] at fits
      exact Ends.of_error (reserve_overflows rfl fits.1 fits.2) ⟨rfl, fits.1, fits.2⟩

theorem modifyCells_ends {F : Fault → Prop} (shaped : b.Shaped h)
    {edit : List UInt8 → List UInt8} (keeps : ∀ cells, (edit cells).length = cells.length) :
    Ends (b.modifyCells edit) h
      (fun b' h' => b'.Shaped h' ∧ b'.len = b.len ∧ b'.capacity h' = b.capacity h ∧
        b'.cells h' = edit (b.cells h)) F := by
  cases b with
  | inline c len =>
    refine Ends.of_ok rfl ⟨?_, rfl, rfl, rfl⟩
    exact ⟨(keeps c).trans shaped.1, shaped.2⟩
  | large s len =>
    obtain ⟨s', h', written, cells', -⟩ := CowStore.modifyCells_cells edit shaped.allocated
    have ran : ((large s len).modifyCells edit).run h = .ok (.large s' len) h' := by
      simp only [modifyCells, EStateM.run_bind, written]
      rfl
    have cap : s'.capacity h' = s.capacity h := by
      rw [CowStore.capacity, cells', keeps]
      rfl
    have shaped' : (large s' len).Shaped h' :=
      shaped.of_cells rfl cap (shaped.2.2.trans_eq cap.symm)
    exact Ends.of_ok ran ⟨shaped', rfl, cap, cells'⟩

@[simp] theorem capacity_withLen (b : SmallBuffer) (n : Nat) :
    (b.withLen n).capacity h = b.capacity h := by
  cases b <;> rfl

theorem Shaped.withLen (shaped : b.Shaped h) {n : Nat} (room : n ≤ b.capacity h) :
    (b.withLen n).Shaped h :=
  shaped.of_cells (by cases b <;> rfl) (by rw [cells_withLen])
    (by rw [cells_withLen, len_withLen, ← capacity_eq_length h b shaped.valid]; exact room)

end SysBytes.Store.SmallBuffer

namespace SysBytes.Control.Buffer

open Store

variable {h : Heap} {b : Buffer}

theorem commitReceived_sized (sized : b.Sized h) {cap : Nat} (room : cap ≤ b.capacity h)
    (reported : Nat) : (b.commitReceived reported cap).Sized h :=
  sized.withLen ((Nat.min_le_right reported cap).trans room)

theorem committed_of_overwrite {old bytes : List UInt8} {reported cap : Nat}
    (cells : b.cells h = Word.overwrite old 0 (bytes.take cap)) (offered : cap ≤ old.length)
    (wrote : reported ≤ bytes.length) :
    (b.commitReceived reported cap).committed h =
      bytes.take (b.commitReceived reported cap).len := by
  have short : min reported cap ≤ (bytes.take cap).length := by
    rw [List.length_take]
    omega
  rw [committed_eq_take]
  show (b.cells h).take (min reported cap) = _
  rw [cells, Word.take_overwrite_zero_of_le short ((List.length_take_le _ _).trans offered),
    List.take_take, Nat.min_eq_left (Nat.min_le_right _ _)]
  rfl

end SysBytes.Control.Buffer

namespace SysBytes.Net

open Store

namespace SocketAddress

open KeepsSizes

variable {h : Heap} {a : SocketAddress}

theorem prepareReceive_keepsSizes (a : SocketAddress) (cap : Nat) :
    KeepsSizes (a.prepareReceive cap) :=
  of_bind (a.buffer.reserve_keepsSizes cap) fun b₁ =>
    of_bind (b₁.modifyCells_keepsSizes fun _ => rfl) fun _ => of_bind of_heap fun _ => of_pure _

theorem prepareReceive_ends (shaped : a.buffer.Shaped h) (cap : Nat) :
    Ends (a.prepareReceive cap) h
      (fun r h' => r.1.buffer.Shaped h' ∧ cap ≤ r.1.buffer.capacity h')
      (fun f => f = .capacityOverflow ∧ a.buffer.capacity h < cap ∧
        wordMax < a.buffer.capacity h * 7 + 2) := by
  unfold prepareReceive
  refine (SmallBuffer.reserve_ends shaped cap).bind fun b₁ h₁ ⟨shaped₁, _, room₁⟩ => ?_
  refine (SmallBuffer.modifyCells_ends shaped₁ fun _ => rfl).bind
    fun b₂ h₂ ⟨shaped₂, _, same₂, _⟩ => ?_
  exact Ends.bind_heap (Ends.of_pure ⟨shaped₂, same₂ ▸ room₁⟩)

theorem commitReceived_run {cap : Nat}
    (room : cap ≤ a.buffer.capacity h) (reported : Nat) :
    (a.commitReceived reported cap).run h = .ok ⟨a.buffer.withLen (min reported cap)⟩ h := by
  have fits : min reported cap ≤ a.buffer.capacity h := (Nat.min_le_right reported cap).trans room
  simp only [commitReceived, EStateM.run_bind, SmallBuffer.setLen_run fits]
  rfl

theorem commitReceived_ends {F : Fault → Prop} {cap : Nat} (a : SocketAddress)
    (room : cap ≤ a.buffer.capacity h) (reported : Nat) :
    Ends (a.commitReceived reported cap) h
      (fun a' h' => h' = h ∧ a' = ⟨a.buffer.withLen (min reported cap)⟩) F :=
  Ends.of_ok (commitReceived_run room reported) ⟨rfl, rfl⟩

end SocketAddress

open Control

/-! ### What a receive leaves -/

def CommittedWithin (h : Heap) (config : MessageConfig) (address : SocketAddress)
    (control : Control.Buffer) : Prop :=
  address.buffer.Shaped h ∧ control.Sized h ∧
    config.addressCapacity ≤ address.buffer.capacity h ∧
    address.buffer.len ≤ address.buffer.capacity h ∧
    config.controlCapacity ≤ control.capacity h ∧ control.len ≤ control.capacity h ∧
    (control.committed h).length = control.len

/-- What a receive leaves in the heap, by the system's answer `reply` to a receive configured by
`config`. -/
def Receipt (h : Heap) (reply : Except Errno Reply) (config : MessageConfig) :
    SocketAddress × Control.Buffer × Except NetError Received → Prop
  | (address, control, result) =>
    CommittedWithin h config address control ∧
    match reply with
    | .error e => address.buffer.len = 0 ∧ control.len = 0 ∧ result = .error (.io e)
    | .ok r =>
      address.buffer.len = min r.name.length config.addressCapacity ∧
      control.len = min r.controlLen config.controlCapacity ∧
      (r.controlLen ≤ r.control.length → control.committed h = r.control.take control.len) ∧
      result = if r.flags &&& controlTruncatedFlag ≠ 0 ∧ config.rejectTruncatedControl = true
        then .error (.controlTruncated config.controlCapacity) else .ok ⟨r.count, r.flags⟩

variable {h : Heap} {address : SocketAddress} {control : Control.Buffer}

theorem committed_within {config : MessageConfig} (shaped : address.buffer.Shaped h)
    (roomA : config.addressCapacity ≤ address.buffer.capacity h) (sized : control.Sized h)
    (roomC : config.controlCapacity ≤ control.capacity h) (toAddress toControl : Nat) :
    CommittedWithin h config ⟨address.buffer.withLen (min toAddress config.addressCapacity)⟩
      (control.commitReceived toControl config.controlCapacity) := by
  have clampedA := (Nat.min_le_right toAddress config.addressCapacity).trans roomA
  have committedC := Buffer.commitReceived_sized sized roomC toControl
  unfold CommittedWithin
  rw [SmallBuffer.capacity_withLen, SmallBuffer.len_withLen]
  exact ⟨shaped.withLen clampedA, committedC, roomA, clampedA, roomC, committedC.valid.within,
    Buffer.length_committed committedC.valid⟩

theorem controlTruncated_and_iff (r : Reply) (config : MessageConfig) :
    ((⟨r.count, r.flags⟩ : Received).controlTruncated && config.rejectTruncatedControl) =
        true ↔
      r.flags &&& controlTruncatedFlag ≠ 0 ∧ config.rejectTruncatedControl = true := by
  simp [Received.controlTruncated]

theorem commitReply_error_ends {F : Fault → Prop} (e : Errno) {config : MessageConfig}
    (shaped : address.buffer.Shaped h) (roomA : config.addressCapacity ≤ address.buffer.capacity h)
    (sized : control.Sized h) (roomC : config.controlCapacity ≤ control.capacity h) :
    Ends (commitReply (.error e) address control config) h
      (fun out h' => Receipt h' (.error e) config out) F := by
  refine (SocketAddress.commitReceived_ends address roomA 0).bind
    fun a₁ h₁ ⟨same₁, address₁⟩ => ?_
  subst same₁ address₁
  refine Ends.of_pure ⟨committed_within shaped roomA sized roomC 0 0, ?_⟩
  simp [Buffer.commitReceived]

theorem commitReply_ok_ends {F : Fault → Prop} (r : Reply) {config : MessageConfig}
    (shaped : address.buffer.Shaped h) (roomA : config.addressCapacity ≤ address.buffer.capacity h)
    (sized : control.Sized h) (roomC : config.controlCapacity ≤ control.capacity h) :
    Ends (commitReply (.ok r) address control config) h
      (fun out h' => Receipt h' (.ok r) config out) F := by
  have keepsA := fun cells =>
    Word.length_overwrite cells (r.name.take (config.addressCapacity % Nat.pow 2 32)) 0
  refine ((SmallBuffer.modifyCells_ends shaped keepsA).keeping
      (address.buffer.modifyCells_keepsSizes keepsA)).bind
    fun b₁ h₁ ⟨⟨shaped₁, _, same₁, _⟩, kept₁⟩ => ?_
  have roomA₁ : config.addressCapacity ≤ b₁.capacity h₁ := same₁ ▸ roomA
  refine (SocketAddress.commitReceived_ends ⟨b₁⟩ roomA₁ r.name.length).bind
    fun a₂ h₂ ⟨same₂, address₂⟩ => ?_
  subst h₂ a₂
  obtain ⟨sized₁, sameC₁⟩ := sized.sizesKept kept₁
  have keepsC := fun cells =>
    Word.length_overwrite cells (r.control.take config.controlCapacity) 0
  refine ((Buffer.modifyCells_ends sized₁ keepsC).keeping
      (control.modifyCells_keepsSizes keepsC)).bind
    fun c₃ h₃ ⟨⟨sized₃, _, cells₃, sameC₃⟩, kept₃⟩ => ?_
  -- the event of the receive changes no region
  refine (Ends.of_ok (P := fun _ h' => ∃ events, h' = { h₃ with events := events })
    (Session.run_note _ h₃) ⟨_, rfl⟩).bind fun _ h₄ ⟨events, same₄⟩ => ?_
  subst same₄
  have noted : h₃.SizesKept { h₃ with events := events } := Heap.SizesKept.of_regions rfl
  -- the record and the control buffer keep their room up to the end
  obtain ⟨shaped₃, sameA₃⟩ := shaped₁.sizesKept kept₃
  have roomA₃ : config.addressCapacity ≤ b₁.capacity h₃ := roomA₁.trans_eq sameA₃.symm
  have roomC₃ : config.controlCapacity ≤ c₃.capacity h₃ := sameC₃ ▸ sameC₁ ▸ roomC
  have within := committed_within (h := { h₃ with events := events }) shaped₃ roomA₃
    (sized₃.sizesKept noted).1 roomC₃ r.name.length r.controlLen
  have offered : config.controlCapacity ≤ (control.cells h₁).length := by
    rw [← Buffer.capacity_eq_length, sameC₁]
    exact roomC
  have written := fun wrote : r.controlLen ≤ r.control.length =>
    Buffer.committed_of_overwrite cells₃ offered wrote
  split
  · rename_i cut
    refine Ends.of_pure ⟨within, SmallBuffer.len_withLen b₁ _, rfl, written, ?_⟩
    rw [if_pos ((controlTruncated_and_iff r config).mp cut)]
  · rename_i kept
    refine Ends.of_pure ⟨within, SmallBuffer.len_withLen b₁ _, rfl, written, ?_⟩
    rw [if_neg fun cut => kept ((controlTruncated_and_iff r config).mpr cut)]

/-- How a receive ends from buffers of their shapes: with its receipt, or at the overflow of a
buffer that had to grow. -/
theorem receiveMessage_ends (reply : Except Errno Reply) (config : MessageConfig)
    (shaped : address.buffer.Shaped h) (sized : control.Sized h) :
    Ends (receiveMessage reply address control config) h (fun out h' => Receipt h' reply config out)
      (fun f => f = .capacityOverflow ∧
        (wordMax < address.buffer.capacity h * 7 + 2 ∨
          wordMax < control.capacity h * 7 + 2)) := by
  unfold receiveMessage
  have prepared := (SocketAddress.prepareReceive_ends shaped config.addressCapacity).keeping
    (address.prepareReceive_keepsSizes _)
  refine (prepared.imp (fun _ _ facts => facts) fun f stops => ⟨stops.1, .inl stops.2.2⟩).bind
    fun ⟨a₁, _⟩ h₁ ⟨⟨shaped₁, room₁⟩, kept₁⟩ => ?_
  obtain ⟨sized₁, sameC₁⟩ := sized.sizesKept kept₁
  have preparedC := (Buffer.prepareReceive_ends sized₁ config.controlCapacity).keeping
    (control.prepareReceive_keepsSizes _)
  refine (preparedC.imp (fun _ _ facts => facts) fun f stops =>
    ⟨stops.1, .inr (sameC₁ ▸ stops.2.2)⟩).bind
    fun ⟨c₂, _⟩ h₂ ⟨⟨sized₂, _, roomC₂, _⟩, kept₂⟩ => ?_
  obtain ⟨shaped₂, sameA₂⟩ := shaped₁.sizesKept kept₂
  have roomA₂ : config.addressCapacity ≤ a₁.buffer.capacity h₂ := sameA₂ ▸ room₁
  cases reply with
  | error e => exact commitReply_error_ends e shaped₂ roomA₂ sized₂ roomC₂
  | ok r => exact commitReply_ok_ends r shaped₂ roomA₂ sized₂ roomC₂

theorem Receipt.controlTruncated_iff {h : Heap} {reply : Except Errno Reply}
    {config : MessageConfig}
    {out : SocketAddress × Control.Buffer × Except NetError Received}
    (receipt : Receipt h reply config out) (n : Nat) :
    out.2.2 = .error (.controlTruncated n) ↔ n = config.controlCapacity ∧
      ∃ r, reply = .ok r ∧ r.flags &&& controlTruncatedFlag ≠ 0 ∧
        config.rejectTruncatedControl = true := by
  obtain ⟨address, control, result⟩ := out
  cases reply with
  | error e =>
    obtain ⟨-, -, -, failed⟩ := receipt
    simp [failed]
  | ok r =>
    obtain ⟨-, -, -, -, outcome⟩ := receipt
    by_cases cut : r.flags &&& controlTruncatedFlag ≠ 0 ∧ config.rejectTruncatedControl = true
    · simp [outcome, cut, eq_comm]
    · simp only [outcome, if_neg cut, reduceCtorEq, false_iff]
      rintro ⟨-, r', same, flagged, refused⟩
      cases same
      exact cut ⟨flagged, refused⟩

theorem queryAddress_ok (record : List UInt8) (h : Heap) :
    ∃ a h', (queryAddress (.ok record)).run h = .ok (.ok a) h' ∧
      a.bytes h' = record.take storageSize ∧
      (a.buffer.isInline = true ↔ (record.take storageSize).length ≤ inlineCapacity) := by
  obtain ⟨b, h', ran, -, -, held⟩ :=
    SmallBuffer.ofBytes_runsLive (Heap.accounted_handles h) (record.take storageSize)
  obtain ⟨b', h'', ran', -, -, -, kind⟩ :=
    SmallBuffer.ofBytes_shaped (Heap.accounted_handles h) (record.take storageSize)
  rw [ran, EStateM.Result.ok.injEq] at ran'
  obtain ⟨rfl, rfl⟩ := ran'
  -- the event of the query changes no region
  obtain ⟨events, queried⟩ : ∃ events, (queryAddress (.ok record)).run h =
      .ok (.ok ⟨b⟩) { h' with events := events } :=
    ⟨_, by simp only [queryAddress, SocketAddress.ofBytes, EStateM.run_bind, ran]; rfl⟩
  exact ⟨⟨b⟩, _, queried, held, by rw [kind, decide_eq_true_iff]⟩

/-! ### Receiving never stops short of an impossible region -/

theorem huge_of_overflow {c : Nat} (overflow : wordMax < c * 7 + 2) : Nat.pow 2 61 < c := by
  have word : wordMax = 18446744073709551615 := rfl
  have bound : Nat.pow 2 61 = 2305843009213693952 := rfl
  rw [bound]
  omega

/-- **Receiving commits the reported lengths within the capacities offered.** A receive keeps both
buffers' shapes and commits each reported length clamped to its capacity; its only fault is growing
a region past `2 ^ 61` bytes. -/
theorem receive_commits_within_capacity :
    (∀ (reply : Except Errno Reply) (address : SocketAddress) (control : Control.Buffer)
        (config : MessageConfig) (h : Heap), address.buffer.Shaped h → control.Sized h →
      Ends (receiveMessage reply address control config) h
        (fun out h' => Receipt h' reply config out ∧
          ∀ n, out.2.2 = .error (.controlTruncated n) ↔ n = config.controlCapacity ∧
            ∃ r, reply = .ok r ∧ r.flags &&& controlTruncatedFlag ≠ 0 ∧
              config.rejectTruncatedControl = true)
        (fun f => f = .capacityOverflow ∧
          (Nat.pow 2 61 < address.buffer.capacity h ∨ Nat.pow 2 61 < control.capacity h))) ∧
    (∀ (reply : Except Errno Reply) (address : SocketAddress) (control : Control.Buffer)
        (config : MessageConfig) (h : Heap), address.buffer.Shaped h → control.Sized h →
      address.buffer.capacity h ≤ Nat.pow 2 61 → control.capacity h ≤ Nat.pow 2 61 →
      ∃ out h', (receiveMessage reply address control config).run h = .ok out h' ∧
        Receipt h' reply config out) ∧
    (∀ (record : List UInt8) (h : Heap),
      ∃ a h', (queryAddress (.ok record)).run h = .ok (.ok a) h' ∧
        a.bytes h' = record.take storageSize ∧
        (a.bytes h').length = min record.length storageSize ∧
        (a.buffer.isInline = true ↔ min record.length storageSize ≤ inlineCapacity)) ∧
    (∀ (e : Errno) (h : Heap), (queryAddress (.error e)).run h = .ok (.error (.io e)) h) := by
  refine ⟨fun reply address control config h shaped sized => ?_,
    fun reply address control config h shaped sized smallA smallC => ?_,
    fun record h => ?_, fun e h => rfl⟩
  · refine (receiveMessage_ends reply config shaped sized).imp
      (fun out h' receipt => ⟨receipt, receipt.controlTruncated_iff⟩) fun f stops => ?_
    exact ⟨stops.1, stops.2.imp huge_of_overflow huge_of_overflow⟩
  · -- below `2 ^ 61` bytes no region overflows when it grows
    refine ((receiveMessage_ends reply config shaped sized).imp (fun _ _ receipt => receipt)
      fun f stops => ?_).exists_ok
    rcases stops.2 with overflow | overflow
    · exact absurd (huge_of_overflow overflow) (Nat.not_lt.mpr smallA)
    · exact absurd (huge_of_overflow overflow) (Nat.not_lt.mpr smallC)
  · obtain ⟨a, h', queried, held, inline⟩ := queryAddress_ok record h
    refine ⟨a, h', queried, held, by rw [held, List.length_take, Nat.min_comm], ?_⟩
    rw [inline, List.length_take, Nat.min_comm]

/-- A five-byte datagram from a local sender, received into fresh buffers with the default
configuration, returns with the sender's three-byte record and no control data. -/
theorem datagram_received_into_fresh_buffers :
    ∃ out h', (receiveMessage (.ok ⟨5, [104, 101, 108, 108, 111], [1, 0, 97], [], 0, 0⟩)
        SocketAddress.empty Control.Buffer.empty {}).run {} = .ok out h' ∧
      Receipt h' (.ok ⟨5, [104, 101, 108, 108, 111], [1, 0, 97], [], 0, 0⟩) {} out :=
  receive_commits_within_capacity.2.1 _ _ _ _ _ ⟨rfl, by decide⟩ (Buffer.Sized.empty {})
    (by decide) (by decide)

end SysBytes.Net
