import Wbox.Nt.WaitSyscalls
import Wbox.Vm.Buffers

/-!
# Syscalls with guest buffers

The string conversions and the handle array of `src/nt/ntdll.c`, and the messages of
`src/user/user_message.c`. Each translates the first address of a buffer only.
-/

namespace Wbox.Nt

open Wbox.Lib Wbox.Thread Wbox.Vm

/-- `WBOX_MSG`, `src/user/user_message.h`. -/
structure WboxMsg where
  hwnd : UInt32
  message : UInt32
  wParam : UInt32
  lParam : UInt32
  time : UInt32
  ptX : Int32
  ptY : Int32
  deriving DecidableEq

/-- The characters `RtlMultiByteToUnicodeN` converts, `ntdll.c:706–707`. -/
def mbChars (unicodeSize mbSize : UInt32) : UInt32 :=
  let maxChars := unicodeSize / 2
  if mbSize < maxChars then mbSize else maxChars

/-- The conversion of `RtlMultiByteToUnicodeN`, `ntdll.c:704–719`; it returns the number of
characters. -/
def mbToUnicode (ctx : PagingContext) (unicodeStr unicodeSize mbStr mbSize : UInt32) :
    PhysM UInt32 := do
  let mbPhys ← getPhys ctx mbStr
  let uniPhys ← getPhys ctx unicodeStr
  if mbPhys ≠ 0 ∧ uniPhys ≠ 0 then
    (List.range (mbChars unicodeSize mbSize).toNat).forM fun i => do
      let ch ← readb (mbPhys + UInt32.ofNat i)
      writew (uniPhys + UInt32.ofNat i * 2) ch.toUInt16
    return mbChars unicodeSize mbSize
  else return 0

/-- The characters `RtlUnicodeToMultiByteN` converts, `ntdll.c:748–749`. -/
def unicodeChars (mbSize unicodeSize : UInt32) : UInt32 :=
  let unicodeChars := unicodeSize / 2
  if unicodeChars < mbSize then unicodeChars else mbSize

/-- The conversion of `RtlUnicodeToMultiByteN`, `ntdll.c:746–762`. -/
def unicodeToMb (ctx : PagingContext) (mbStr mbSize unicodeStr unicodeSize : UInt32) :
    PhysM UInt32 := do
  let uniPhys ← getPhys ctx unicodeStr
  let mbPhys ← getPhys ctx mbStr
  if uniPhys ≠ 0 ∧ mbPhys ≠ 0 then
    (List.range (unicodeChars mbSize unicodeSize).toNat).forM fun i => do
      let wch ← readw (uniPhys + UInt32.ofNat i * 2)
      writeb (mbPhys + UInt32.ofNat i) (if wch < 256 then wch.toUInt8 else 0x3F)
    return unicodeChars mbSize unicodeSize
  else return 0

/-- The result size of both conversions, `ntdll.c:721–727`, `764–770`. -/
def writeResultSize (ctx : PagingContext) (resultSizePtr size : UInt32) : PhysM PUnit :=
  if resultSizePtr ≠ 0 then do
    let resultPhys ← getPhys ctx resultSizePtr
    if resultPhys ≠ 0 then writel resultPhys size
  else return

/-- `RtlMultiByteToUnicodeN`, `ntdll.c:692–732`. -/
def rtlMultiByteToUnicodeN (ctx : PagingContext)
    (unicodeStr unicodeSize resultSizePtr mbStr mbSize : UInt32) : PhysM PUnit := do
  let charsWritten ← mbToUnicode ctx unicodeStr unicodeSize mbStr mbSize
  writeResultSize ctx resultSizePtr (charsWritten * 2)

/-- `RtlUnicodeToMultiByteN`, `ntdll.c:734–775`. -/
def rtlUnicodeToMultiByteN (ctx : PagingContext)
    (mbStr mbSize resultSizePtr unicodeStr unicodeSize : UInt32) : PhysM PUnit := do
  let bytesWritten ← unicodeToMb ctx mbStr mbSize unicodeStr unicodeSize
  writeResultSize ctx resultSizePtr bytesWritten

/-- The handle array of `NtWaitForMultipleObjects`, `ntdll.c:331–360`; `none` is
`STATUS_INVALID_PARAMETER`. -/
def readHandles (ctx : PagingContext) (count handlesPtr : UInt32) : PhysM (Option (List UInt32)) :=
  if count = 0 ∨ count > 64 ∨ handlesPtr = 0 then return none
  else do
    let handlesPhys ← getPhys ctx handlesPtr
    if handlesPhys = 0 then return none
    else
      let handles ← (List.range count.toNat).mapM' fun i => readl (handlesPhys + UInt32.ofNat i * 4)
      return some handles

/-- `msg_write_to_guest`, `user_message.c:234–256`. -/
def msgWriteToGuest (ctx : PagingContext) (guestAddr : UInt32) (msg : WboxMsg) : PhysM PUnit :=
  if guestAddr = 0 then return
  else do
    let phys ← getPhys ctx guestAddr
    if phys = 0 then return
    else
      writel (phys + 0) msg.hwnd
      writel (phys + 4) msg.message
      writel (phys + 8) msg.wParam
      writel (phys + 12) msg.lParam
      writel (phys + 16) msg.time
      writel (phys + 20) msg.ptX.toUInt32
      writel (phys + 24) msg.ptY.toUInt32

/-- `msg_read_from_guest`, `user_message.c:258–272`, on the message it is given. -/
def msgReadFromGuest (ctx : PagingContext) (guestAddr : UInt32) (msg : WboxMsg) : PhysM WboxMsg :=
  if guestAddr = 0 then return msg
  else do
    let phys ← getPhys ctx guestAddr
    if phys = 0 then return msg
    else
      let hwnd ← readl (phys + 0)
      let message ← readl (phys + 4)
      let wParam ← readl (phys + 8)
      let lParam ← readl (phys + 12)
      let time ← readl (phys + 16)
      let ptX ← readl (phys + 20)
      let ptY ← readl (phys + 24)
      return ⟨hwnd, message, wParam, lParam, time, ptX.toInt32, ptY.toInt32⟩

/-- A call with guest buffers. -/
inductive BufferCall where
  | rtlMultiByteToUnicodeN (unicodeStr unicodeSize resultSizePtr mbStr mbSize : UInt32)
  | rtlUnicodeToMultiByteN (mbStr mbSize resultSizePtr unicodeStr unicodeSize : UInt32)
  | readHandles (count handlesPtr : UInt32)
  | msgWriteToGuest (guestAddr : UInt32) (msg : WboxMsg)
  | msgReadFromGuest (guestAddr : UInt32) (msg : WboxMsg)

namespace BufferCall

/-- What a call touches in physical memory. -/
def events (ctx : PagingContext) (m : PhysMem) : BufferCall → List PhysAccess
  | rtlMultiByteToUnicodeN unicodeStr unicodeSize resultSizePtr mbStr mbSize =>
      (Nt.rtlMultiByteToUnicodeN ctx unicodeStr unicodeSize resultSizePtr mbStr mbSize).events m
  | rtlUnicodeToMultiByteN mbStr mbSize resultSizePtr unicodeStr unicodeSize =>
      (Nt.rtlUnicodeToMultiByteN ctx mbStr mbSize resultSizePtr unicodeStr unicodeSize).events m
  | readHandles count handlesPtr => (Nt.readHandles ctx count handlesPtr).events m
  | msgWriteToGuest guestAddr msg => (Nt.msgWriteToGuest ctx guestAddr msg).events m
  | msgReadFromGuest guestAddr msg => (Nt.msgReadFromGuest ctx guestAddr msg).events m

/-- The buffers it reads, as far as it converts them. -/
def readBuffers (m : PhysMem) : BufferCall → List GuestBuffer
  | rtlMultiByteToUnicodeN _ unicodeSize _ mbStr mbSize =>
      [⟨m, mbStr, (mbChars unicodeSize mbSize).toNat⟩]
  | rtlUnicodeToMultiByteN _ mbSize _ unicodeStr unicodeSize =>
      [⟨m, unicodeStr, (unicodeChars mbSize unicodeSize).toNat * 2⟩]
  | readHandles count handlesPtr =>
      [⟨m, handlesPtr, if count = 0 ∨ count > 64 ∨ handlesPtr = 0 then 0 else count.toNat * 4⟩]
  | msgWriteToGuest _ _ => []
  | msgReadFromGuest guestAddr _ => [⟨m, guestAddr, if guestAddr = 0 then 0 else 28⟩]

/-- The buffers it writes; the result size is translated after the conversion. -/
def writtenBuffers (ctx : PagingContext) (m : PhysMem) : BufferCall → List GuestBuffer
  | rtlMultiByteToUnicodeN unicodeStr unicodeSize resultSizePtr mbStr mbSize =>
      [⟨m, unicodeStr, (mbChars unicodeSize mbSize).toNat * 2⟩,
        ⟨(mbToUnicode ctx unicodeStr unicodeSize mbStr mbSize).after m, resultSizePtr,
          if resultSizePtr = 0 then 0 else 4⟩]
  | rtlUnicodeToMultiByteN mbStr mbSize resultSizePtr unicodeStr unicodeSize =>
      [⟨m, mbStr, (unicodeChars mbSize unicodeSize).toNat⟩,
        ⟨(unicodeToMb ctx mbStr mbSize unicodeStr unicodeSize).after m, resultSizePtr,
          if resultSizePtr = 0 then 0 else 4⟩]
  | readHandles _ _ => []
  | msgWriteToGuest guestAddr _ => [⟨m, guestAddr, if guestAddr = 0 then 0 else 28⟩]
  | msgReadFromGuest _ _ => []

/-- All buffers of the call. -/
def buffers (ctx : PagingContext) (m : PhysMem) (call : BufferCall) : List GuestBuffer :=
  call.readBuffers m ++ call.writtenBuffers ctx m

/-- The call reads and writes the bytes of its buffers through the page tables, and no others. -/
def ThroughTables (ctx : PagingContext) (m : PhysMem) (call : BufferCall) : Prop :=
  readsOf (call.events ctx m) = (call.readBuffers m).flatMap (GuestBuffer.bytes ctx) ∧
    writesOf (call.events ctx m) = (call.writtenBuffers ctx m).flatMap (GuestBuffer.bytes ctx)

/-- Every buffer that is not empty lies in consecutive frames. -/
def InConsecutiveFrames (ctx : PagingContext) (m : PhysMem) (call : BufferCall) : Prop :=
  ∀ b ∈ call.buffers ctx m, b.size ≠ 0 → b.Consecutive ctx

end BufferCall

variable {ctx : PagingContext} {m : PhysMem}

section Accesses

/-- A loop that goes over a range element by element touches all of it. -/
theorem flatMap_elements (addr w : UInt32) (n : Nat) :
    (List.range n).flatMap (fun i => physRange (addr + UInt32.ofNat i * w) w.toNat) =
      physRange addr (n * w.toNat) := by
  rw [← flatMap_physRange]
  congr 1
  funext i
  rw [UInt32.ofNat_mul, UInt32.ofNat_toNat]

/-- The same for a loop over bytes. -/
theorem flatMap_bytes (addr : UInt32) (n : Nat) :
    (List.range n).flatMap (fun i => physRange (addr + UInt32.ofNat i) 1) = physRange addr n := by
  have h := flatMap_physRange addr 1 n
  simp only [Nat.mul_one] at h
  exact h

/-- The conversion reads the bytes of one string, and writes those of the other. -/
theorem mbToUnicode_events (ctx : PagingContext) (m : PhysMem)
    (unicodeStr unicodeSize mbStr mbSize : UInt32) :
    let mb : GuestBuffer := ⟨m, mbStr, (mbChars unicodeSize mbSize).toNat⟩
    let uni : GuestBuffer := ⟨m, unicodeStr, (mbChars unicodeSize mbSize).toNat * 2⟩
    let log := (mbToUnicode ctx unicodeStr unicodeSize mbStr mbSize).events m
    readsOf log = mb.touched ctx (mb.phys ctx ≠ 0 ∧ uni.phys ctx ≠ 0) ∧
      writesOf log = uni.touched ctx (mb.phys ctx ≠ 0 ∧ uni.phys ctx ≠ 0) := by
  intro mb uni log
  have hlog : log = if mb.phys ctx ≠ 0 ∧ uni.phys ctx ≠ 0 then
      (List.range (mbChars unicodeSize mbSize).toNat).flatMap fun i =>
        (physRange (mb.phys ctx + UInt32.ofNat i) 1).map .read ++
          (physRange (uni.phys ctx + UInt32.ofNat i * 2) 2).map .write
      else [] := by
    show (if mb.phys ctx ≠ 0 ∧ uni.phys ctx ≠ 0 then _ else _ : PhysM UInt32).events m = _
    split
    · rw [Logged.events_bind, Logged.events_pure, List.append_nil]
      apply Logged.emits_forM
      intro i
      exact (Logged.emits_op _ _).bind fun _ => Logged.emits_op _ _
    · rfl
  rw [hlog]
  unfold GuestBuffer.touched
  split
  · constructor
    · simp only [readsOf_flatMap, readsOf_append, readsOf_reads, readsOf_writes, List.append_nil]
      exact flatMap_bytes _ _
    · simp only [writesOf_flatMap, writesOf_append, writesOf_reads, writesOf_writes, List.nil_append]
      exact flatMap_elements _ 2 _
  · exact ⟨rfl, rfl⟩

/-- So does the conversion the other way. -/
theorem unicodeToMb_events (ctx : PagingContext) (m : PhysMem)
    (mbStr mbSize unicodeStr unicodeSize : UInt32) :
    let uni : GuestBuffer := ⟨m, unicodeStr, (unicodeChars mbSize unicodeSize).toNat * 2⟩
    let mb : GuestBuffer := ⟨m, mbStr, (unicodeChars mbSize unicodeSize).toNat⟩
    let log := (unicodeToMb ctx mbStr mbSize unicodeStr unicodeSize).events m
    readsOf log = uni.touched ctx (uni.phys ctx ≠ 0 ∧ mb.phys ctx ≠ 0) ∧
      writesOf log = mb.touched ctx (uni.phys ctx ≠ 0 ∧ mb.phys ctx ≠ 0) := by
  intro uni mb log
  have hlog : log = if uni.phys ctx ≠ 0 ∧ mb.phys ctx ≠ 0 then
      (List.range (unicodeChars mbSize unicodeSize).toNat).flatMap fun i =>
        (physRange (uni.phys ctx + UInt32.ofNat i * 2) 2).map .read ++
          (physRange (mb.phys ctx + UInt32.ofNat i) 1).map .write
      else [] := by
    show (if uni.phys ctx ≠ 0 ∧ mb.phys ctx ≠ 0 then _ else _ : PhysM UInt32).events m = _
    split
    · rw [Logged.events_bind, Logged.events_pure, List.append_nil]
      apply Logged.emits_forM
      intro i
      exact (Logged.emits_op _ _).bind fun _ => Logged.emits_op _ _
    · rfl
  rw [hlog]
  unfold GuestBuffer.touched
  split
  · constructor
    · simp only [readsOf_flatMap, readsOf_append, readsOf_reads, readsOf_writes, List.append_nil]
      exact flatMap_elements _ 2 _
    · simp only [writesOf_flatMap, writesOf_append, writesOf_reads, writesOf_writes, List.nil_append]
      exact flatMap_bytes _ _
  · exact ⟨rfl, rfl⟩

/-- The result size is written to its buffer. -/
theorem writeResultSize_events (ctx : PagingContext) (m : PhysMem)
    (resultSizePtr size : UInt32) :
    let result : GuestBuffer := ⟨m, resultSizePtr, if resultSizePtr = 0 then 0 else 4⟩
    let log := (writeResultSize ctx resultSizePtr size).events m
    readsOf log = [] ∧ writesOf log = result.touched ctx (result.phys ctx ≠ 0) := by
  intro result log
  by_cases hptr : resultSizePtr = 0
  · have hlog : log = [] := by
      show (writeResultSize ctx resultSizePtr size).events m = []
      unfold writeResultSize
      rw [if_neg (not_not.mpr hptr), Logged.events_pure]
    rw [hlog, result.touched_empty (if_pos hptr)]
    exact ⟨rfl, rfl⟩
  · have hlog : log = if result.phys ctx ≠ 0 then (physRange (result.phys ctx) 4).map .write
        else [] := by
      show (writeResultSize ctx resultSizePtr size).events m = _
      unfold writeResultSize
      rw [if_pos hptr]
      show (if result.phys ctx ≠ 0 then _ else _ : PhysM PUnit).events m = _
      split <;> rfl
    have hsize : result.size = 4 := if_neg hptr
    rw [hlog]
    unfold GuestBuffer.touched
    rw [hsize]
    split
    · exact ⟨readsOf_writes _, writesOf_writes _⟩
    · exact ⟨rfl, rfl⟩

/-- The handles are read from their array. -/
theorem readHandles_events (ctx : PagingContext) (m : PhysMem)
    (count handlesPtr : UInt32) :
    let array : GuestBuffer := ⟨m, handlesPtr,
      if count = 0 ∨ count > 64 ∨ handlesPtr = 0 then 0 else count.toNat * 4⟩
    let log := (readHandles ctx count handlesPtr).events m
    readsOf log = array.touched ctx (array.phys ctx ≠ 0) ∧ writesOf log = [] := by
  intro array log
  by_cases hargs : count = 0 ∨ count > 64 ∨ handlesPtr = 0
  · have hlog : log = [] := by
      show (readHandles ctx count handlesPtr).events m = []
      unfold readHandles
      rw [if_pos hargs, Logged.events_pure]
    rw [hlog, array.touched_empty (if_pos hargs)]
    exact ⟨rfl, rfl⟩
  · have hlog : log = if array.phys ctx ≠ 0 then
        (List.range count.toNat).flatMap fun i =>
          (physRange (array.phys ctx + UInt32.ofNat i * 4) 4).map .read
        else [] := by
      show (readHandles ctx count handlesPtr).events m = _
      unfold readHandles
      rw [if_neg hargs]
      show (if array.phys ctx = 0 then _ else _ : PhysM _).events m = _
      split
      · next hzero => rw [if_neg (not_not.mpr hzero), Logged.events_pure]
      · next hphys =>
        rw [Logged.events_bind, Logged.events_pure, List.append_nil]
        exact Logged.emits_mapM (fun _ => Logged.emits_op _ _) _ _
    have hsize : array.size = count.toNat * 4 := if_neg hargs
    rw [hlog]
    unfold GuestBuffer.touched
    rw [hsize]
    split
    · constructor
      · simp only [readsOf_flatMap, readsOf_reads]
        exact flatMap_elements _ 4 _
      · simp only [writesOf_flatMap, writesOf_reads]
        exact List.flatMap_eq_nil_iff.mpr fun _ _ => rfl
    · exact ⟨rfl, rfl⟩

/-- The seven fields of a message make one range. -/
theorem fields_eq (phys : UInt32) :
    physRange (phys + 0) 4 ++ (physRange (phys + 4) 4 ++ (physRange (phys + 8) 4 ++
      (physRange (phys + 12) 4 ++ (physRange (phys + 16) 4 ++ (physRange (phys + 20) 4 ++
        physRange (phys + 24) 4))))) = physRange phys 28 :=
  flatMap_physRange phys 4 7

/-- A message is written to its buffer. -/
theorem msgWriteToGuest_events (ctx : PagingContext) (m : PhysMem)
    (guestAddr : UInt32) (msg : WboxMsg) :
    let target : GuestBuffer := ⟨m, guestAddr, if guestAddr = 0 then 0 else 28⟩
    let log := (msgWriteToGuest ctx guestAddr msg).events m
    readsOf log = [] ∧ writesOf log = target.touched ctx (target.phys ctx ≠ 0) := by
  intro target log
  by_cases haddr : guestAddr = 0
  · have hlog : log = [] := by
      show (msgWriteToGuest ctx guestAddr msg).events m = []
      unfold msgWriteToGuest
      rw [if_pos haddr, Logged.events_pure]
    rw [hlog, target.touched_empty (if_pos haddr)]
    exact ⟨rfl, rfl⟩
  · have hlog : log = if target.phys ctx ≠ 0 then
        (physRange (target.phys ctx) 28).map .write else [] := by
      show (msgWriteToGuest ctx guestAddr msg).events m = _
      unfold msgWriteToGuest
      rw [if_neg haddr]
      show (if target.phys ctx = 0 then _ else _ : PhysM PUnit).events m = _
      split
      · next hzero => rw [if_neg (not_not.mpr hzero), Logged.events_pure]
      · next hphys =>
        rw [← fields_eq]
        simp only [List.map_append]
        rfl
    have hsize : target.size = 28 := if_neg haddr
    rw [hlog]
    unfold GuestBuffer.touched
    rw [hsize]
    split
    · exact ⟨readsOf_writes _, writesOf_writes _⟩
    · exact ⟨rfl, rfl⟩

/-- A message is read from its buffer. -/
theorem msgReadFromGuest_events (ctx : PagingContext) (m : PhysMem)
    (guestAddr : UInt32) (msg : WboxMsg) :
    let source : GuestBuffer := ⟨m, guestAddr, if guestAddr = 0 then 0 else 28⟩
    let log := (msgReadFromGuest ctx guestAddr msg).events m
    readsOf log = source.touched ctx (source.phys ctx ≠ 0) ∧ writesOf log = [] := by
  intro source log
  by_cases haddr : guestAddr = 0
  · have hlog : log = [] := by
      show (msgReadFromGuest ctx guestAddr msg).events m = []
      unfold msgReadFromGuest
      rw [if_pos haddr, Logged.events_pure]
    rw [hlog, source.touched_empty (if_pos haddr)]
    exact ⟨rfl, rfl⟩
  · have hlog : log = if source.phys ctx ≠ 0 then
        (physRange (source.phys ctx) 28).map .read else [] := by
      show (msgReadFromGuest ctx guestAddr msg).events m = _
      unfold msgReadFromGuest
      rw [if_neg haddr]
      show (if source.phys ctx = 0 then _ else _ : PhysM WboxMsg).events m = _
      split
      · next hzero => rw [if_neg (not_not.mpr hzero), Logged.events_pure]
      · next hphys =>
        rw [← fields_eq]
        simp only [List.map_append]
        rfl
    have hsize : source.size = 28 := if_neg haddr
    rw [hlog]
    unfold GuestBuffer.touched
    rw [hsize]
    split
    · exact ⟨readsOf_reads _, writesOf_reads _⟩
    · exact ⟨rfl, rfl⟩

end Accesses

section ThroughTables

/-- Either conversion, followed by its result size. -/
theorem conversion_iff {α : Type} {convert : PhysM α} (size : α → UInt32) {src dst : GuestBuffer}
    {resultSizePtr : UInt32} {result : GuestBuffer}
    (hresult : result = ⟨convert.after m, resultSizePtr, if resultSizePtr = 0 then 0 else 4⟩)
    (hmapped : ∀ b ∈ [src, dst, result], b.Mapped ctx) (hsize : src.size = 0 ↔ dst.size = 0)
    (hconvert : readsOf (convert.events m) =
        src.touched ctx (src.phys ctx ≠ 0 ∧ dst.phys ctx ≠ 0) ∧
      writesOf (convert.events m) =
        dst.touched ctx (src.phys ctx ≠ 0 ∧ dst.phys ctx ≠ 0)) :
    let log := (convert >>= fun n => writeResultSize ctx resultSizePtr (size n)).events m
    (readsOf log = [src].flatMap (GuestBuffer.bytes ctx) ∧
        writesOf log = [dst, result].flatMap (GuestBuffer.bytes ctx)) ↔
      ∀ b ∈ [src, dst, result], b.size ≠ 0 → b.Consecutive ctx := by
  intro log
  have hwritten := writeResultSize_events ctx (convert.after m) resultSizePtr
    (size (convert.value m))
  have hlog : log = convert.events m ++
      (writeResultSize ctx resultSizePtr (size (convert.value m))).events (convert.after m) :=
    Logged.events_bind _ _ _
  have hsrc := hmapped src (by simp)
  have hdst := hmapped dst (by simp)
  have hres := hmapped result (by simp)
  rw [hlog, readsOf_append, writesOf_append, hconvert.1, hconvert.2, hwritten.1, hwritten.2,
    ← hresult]
  simp only [List.flatMap_cons, List.flatMap_nil, List.append_nil, List.forall_mem_cons,
    List.not_mem_nil, false_imp_iff, implies_true, and_true]
  exact GuestBuffer.copy_iff hsrc hdst hres hsize

/-- A call with one buffer. -/
theorem oneBuffer_iff {b : GuestBuffer} {touched : List UInt32} (hmapped : b.Mapped ctx)
    (htouched : touched = b.touched ctx (b.phys ctx ≠ 0)) :
    touched = [b].flatMap (GuestBuffer.bytes ctx) ↔
      ∀ c ∈ [b], c.size ≠ 0 → c.Consecutive ctx := by
  rw [htouched]
  simp only [List.flatMap_cons, List.flatMap_nil, List.append_nil, List.forall_mem_cons,
    List.not_mem_nil, false_imp_iff, implies_true, and_true]
  exact GuestBuffer.touched_phys_iff hmapped

/-- The calls access the bytes of mapped buffers through the page tables exactly if the pages of
every buffer lie in consecutive frames. -/
theorem bufferCall_throughTables_iff (call : BufferCall)
    (hmapped : ∀ b ∈ call.buffers ctx m, b.Mapped ctx) :
    call.ThroughTables ctx m ↔ call.InConsecutiveFrames ctx m := by
  have hempty : ∀ n : UInt32, n.toNat = 0 ↔ n.toNat * 2 = 0 := fun n => by omega
  cases call with
  | rtlMultiByteToUnicodeN unicodeStr unicodeSize resultSizePtr mbStr mbSize =>
    exact conversion_iff (fun n => n * 2) rfl hmapped (hempty _)
      (mbToUnicode_events ctx m unicodeStr unicodeSize mbStr mbSize)
  | rtlUnicodeToMultiByteN mbStr mbSize resultSizePtr unicodeStr unicodeSize =>
    exact conversion_iff (fun n => n) rfl hmapped (hempty _).symm
      (unicodeToMb_events ctx m mbStr mbSize unicodeStr unicodeSize)
  | readHandles count handlesPtr =>
    obtain ⟨hreads, hwrites⟩ := readHandles_events ctx m count handlesPtr
    exact (and_iff_left hwrites).trans (oneBuffer_iff (hmapped _ List.mem_cons_self) hreads)
  | msgWriteToGuest guestAddr msg =>
    obtain ⟨hreads, hwrites⟩ := msgWriteToGuest_events ctx m guestAddr msg
    exact (and_iff_right hreads).trans (oneBuffer_iff (hmapped _ List.mem_cons_self) hwrites)
  | msgReadFromGuest guestAddr msg =>
    obtain ⟨hreads, hwrites⟩ := msgReadFromGuest_events ctx m guestAddr msg
    exact (and_iff_left hwrites).trans (oneBuffer_iff (hmapped _ List.mem_cons_self) hreads)

end ThroughTables

section Example

/-- The page directory at 0x1000 and one table at 0x2000: page 0 in frame 0x5000, page 1 in frame
0x9000, page 2 in frame 0xA000. -/
def threePages : PhysMem where
  ram := fun n =>
    if n = 0x1000 then 1 else if n = 0x1001 then 0x20
    else if n = 0x2000 then 1 else if n = 0x2001 then 0x50
    else if n = 0x2004 then 1 else if n = 0x2005 then 0x90
    else if n = 0x2008 then 1 else if n = 0x2009 then 0xA0
    else 0
  ramSize := 0x10000

/-- A message on pages 0 and 1 is read from behind the frame of page 0. -/
theorem msgReadFromGuest_not_throughTables :
    ¬ ∀ ctx m (call : BufferCall), (∀ b ∈ call.buffers ctx m, b.Mapped ctx) →
      call.ThroughTables ctx m := by
  intro h
  have hread := h ⟨0x1000⟩ threePages (.msgReadFromGuest 0x0FF0 ⟨0, 0, 0, 0, 0, 0, 0⟩)
  have hmapped : GuestBuffer.Mapped ⟨0x1000⟩ ⟨threePages, 0x0FF0, 28⟩ := by
    unfold GuestBuffer.Mapped
    decide
  have hthrough := (hread fun b hb => List.mem_singleton.mp hb ▸ hmapped).1
  revert hthrough
  decide

/-- A message on pages 1 and 2 is read from where it is. -/
theorem msgReadFromGuest_throughTables :
    (BufferCall.msgReadFromGuest 0x1FF0 ⟨0, 0, 0, 0, 0, 0, 0⟩).ThroughTables ⟨0x1000⟩
      threePages := by
  have hmapped : GuestBuffer.Mapped ⟨0x1000⟩ ⟨threePages, 0x1FF0, 28⟩ := by
    unfold GuestBuffer.Mapped
    decide
  apply (bufferCall_throughTables_iff _ fun b hb => List.mem_singleton.mp hb ▸ hmapped).mpr
  intro b hb _
  rw [List.mem_singleton.mp hb]
  constructor
  · decide
  · intro k hk
    have hk' : 4096 * k < 0xFF0 + 28 := hk
    have hcases : k = 0 ∨ k = 1 := by omega
    rcases hcases with rfl | rfl
    · decide
    · decide

end Example

end Wbox.Nt
