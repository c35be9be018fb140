import Wbox.Lib.Trace

/-!
# Exit requests

`vm_request_exit` sets a flag that ends the loops which run guest code: the main loop of
`vm_start`, the loop of `vm_call_dll_entry` while the DLLs are initialized, and the loops of
`user_call_wndproc_addr`, which run inside a system call of an outer loop's guest code. Each of
the inner loops resets flags on its way out. The loops are modelled as a machine with a stack of
calls; the events are what the guest, the scheduler and the window system make of a run.
-/

namespace Wbox.Vm

open Wbox.Lib

/-- The flags of the loops: `exit_requested`, `exit_code` and `dll_init_done` of `vm_context_t`
and the CPU's `cpu_exit_requested`. -/
structure ExitFlags where
  exitRequested : Bool
  exitCode : UInt32
  cpuExitRequested : Bool
  dllInitDone : Bool
  deriving DecidableEq, Repr

/-- Where the loop of `vm_start` stands: at its condition, or behind the guest's slice. -/
inductive LoopPoint where
  | head
  | ran
  deriving DecidableEq, Repr

/-- The calls that a run consists of. A callback loop has the `completed` of its
`WBOX_CALLBACK_STATE` and its counter of slices. -/
inductive Call where
  | initDlls
  | dllEntry
  | start (point : LoopPoint)
  | callback (completed : Bool) (iter : Nat)
  | exec386
  | instruction
  deriving DecidableEq, Repr

/-- The flags and the calls under way, the innermost first. -/
structure VmLoops where
  flags : ExitFlags
  calls : List Call
  deriving DecidableEq, Repr

/-- `MAX_CALLBACK_DEPTH`, `src/user/user_callback.h`. -/
def maxCallbackDepth : Nat := 16

/-- `max_iterations`, `src/user/user_callback.c:384`. -/
def maxIterations : Nat := 10000000

/-- `g_callback_depth`. -/
def callbackDepth (calls : List Call) : Nat :=
  calls.countP fun call => match call with
    | .callback _ _ => true
    | _ => false

/-- The innermost callback is completed, `user_callback.c:507–511`. -/
def completeCallback : List Call → List Call
  | [] => []
  | .callback _ iter :: calls => .callback true iter :: calls
  | call :: calls => call :: completeCallback calls

/-- What happens in a run. -/
inductive LoopEvent where
  /-- `vm_init_dlls` calls `vm_call_dll_entry`, `src/vm/vm.c:593–639`. -/
  | callDllEntry
  /-- The scheduler is idle and nothing will wake it up, `vm.c:678–684`. -/
  | deadlock
  /-- A loop's condition holds and it calls `exec386`. -/
  | runSlice
  /-- The current thread is the idle thread and `vm_start` runs no slice, `vm.c:543`. -/
  | skipSlice
  /-- The guest executes an instruction. -/
  | instr
  /-- Its system call calls `vm_request_exit`, `vm.c:587–591`. -/
  | requestExit (code : UInt32)
  /-- `cpu_exit_requested` is stored, by a system call or by the scheduler. -/
  | setCpuExit (value : Bool)
  /-- `WBOX_SYSCALL_DLL_INIT_DONE`, `src/nt/ntdll.c:611–619`. -/
  | dllInitDone
  /-- `user_callback_return`, `user_callback.c:499–515`. -/
  | callbackReturn
  /-- `user_call_wndproc_addr` enters its loop. -/
  | callWndproc
  /-- The instruction has been executed, `src/cpu/386_dynarec.c:967–973`. -/
  | instrDone
  /-- The slice has used up its cycles. -/
  | sliceDone
  /-- The display is polled, `vm.c:554–567`. A quit breaks out of the loop, which then finds the
  flag set. -/
  | poll (quit : Bool)
  /-- A loop's condition fails and its function returns. -/
  | leave
  /-- `vm_init_dlls` has returned and `vm_start` is called. -/
  | startVm
  deriving DecidableEq, Repr

/-- One event. There is no step where the code does not get to the event. -/
def loopStep (m : VmLoops) : LoopEvent → Option VmLoops
  | .callDllEntry => match m.calls with
    | .initDlls :: calls => some
        { flags := { m.flags with dllInitDone := false, cpuExitRequested := false }
          calls := .dllEntry :: .initDlls :: calls }
    | _ => none
  | .deadlock => match m.calls with
    | .dllEntry :: _ =>
        if !m.flags.dllInitDone && !m.flags.exitRequested then
          some { m with flags := { m.flags with exitRequested := true, exitCode := 0xDEAD } }
        else none
    | _ => none
  | .runSlice => match m.calls with
    | .dllEntry :: _ =>
        if !m.flags.dllInitDone && !m.flags.exitRequested then
          some { m with calls := .exec386 :: m.calls }
        else none
    | .callback completed iter :: calls =>
        if !completed && !m.flags.exitRequested && iter < maxIterations then
          some { m with calls := .exec386 :: .callback completed (iter + 1) :: calls }
        else none
    | .start .head :: calls =>
        if !m.flags.exitRequested then some { m with calls := .exec386 :: .start .ran :: calls }
        else none
    | _ => none
  | .skipSlice => match m.calls with
    | .start .head :: calls =>
        if !m.flags.exitRequested then some { m with calls := .start .ran :: calls } else none
    | _ => none
  | .instr => match m.calls with
    | .exec386 :: _ => some { m with calls := .instruction :: m.calls }
    | _ => none
  | .requestExit code => match m.calls with
    | .instruction :: _ =>
        some { m with flags := { m.flags with exitRequested := true, exitCode := code } }
    | _ => none
  | .setCpuExit value => match m.calls with
    | .instruction :: _ | .dllEntry :: _ | .start _ :: _ =>
        some { m with flags := { m.flags with cpuExitRequested := value } }
    | _ => none
  | .dllInitDone => match m.calls with
    | .instruction :: _ =>
        some { m with flags := { m.flags with dllInitDone := true, cpuExitRequested := true } }
    | _ => none
  | .callbackReturn => match m.calls with
    | .instruction :: _ =>
        if 0 < callbackDepth m.calls then
          some { flags := { m.flags with cpuExitRequested := true }
                 calls := completeCallback m.calls }
        else some m
    | _ => none
  | .callWndproc => match m.calls with
    | .instruction :: _ =>
        if callbackDepth m.calls < maxCallbackDepth then
          some { m with calls := .callback false 0 :: m.calls }
        else none
    | _ => none
  | .instrDone => match m.calls with
    | .instruction :: .exec386 :: calls =>
        some { m with calls := if m.flags.cpuExitRequested then calls else .exec386 :: calls }
    | _ => none
  | .sliceDone => match m.calls with
    | .exec386 :: calls => some { m with calls := calls }
    | _ => none
  | .poll quit => match m.calls with
    | .start .ran :: calls =>
        some
          { flags := if quit then { m.flags with exitRequested := true, exitCode := 0 } else m.flags
            calls := .start .head :: calls }
    | _ => none
  | .leave => match m.calls with
    | .dllEntry :: calls =>
        if m.flags.dllInitDone || m.flags.exitRequested then
          some
            { flags :=
                { m.flags with
                  dllInitDone := false, exitRequested := false, cpuExitRequested := false }
              calls := calls }
        else none
    | .callback completed iter :: calls =>
        if completed || m.flags.exitRequested || maxIterations ≤ iter then
          some { flags := { m.flags with cpuExitRequested := false }, calls := calls }
        else none
    | .start .head :: calls =>
        if m.flags.exitRequested then some { m with calls := calls } else none
    | _ => none
  | .startVm => match m.calls with
    | [.initDlls] => some
        { flags := { m.flags with exitRequested := false, cpuExitRequested := false }
          calls := [.start .head] }
    | _ => none

/-- The process is about to initialize its DLLs. -/
def loopsBegin (flags : ExitFlags) : VmLoops := { flags, calls := [.initDlls] }

/-- Every exit request of a run sticks: the flag stays set, with the requested code, until
`vm_start` has returned, and an instruction executed later belongs to the slice in which the
request was made, which has been open ever since. A request is made by an instruction of the
innermost slice, so that this slice is open while at least one call less than at the request is
under way. -/
def ExitSticks (es : List LoopEvent) (tr : List VmLoops) : Prop :=
  ∀ (i : Nat) (code : UInt32) (m : VmLoops), es[i]? = some (.requestExit code) →
    tr[i]? = some m → ∀ (j : Nat) (x : VmLoops), i < j → tr[j]? = some x →
      (x.calls ≠ [] → x.flags.exitRequested = true ∧ x.flags.exitCode = code) ∧
      (es[j]? = some .instr → ∀ (k : Nat) (y : VmLoops), i < k → k ≤ j → tr[k]? = some y →
        m.calls.length ≤ y.calls.length + 1)

/-- Exit is requested in a slice of the main loop, with the code of any earlier request, and the
window system does not ask to quit before the loop ends. -/
def RequestsFromStart (m : VmLoops) : LoopEvent → Prop
  | .requestExit code =>
      m.calls = [.instruction, .exec386, .start .ran] ∧
        (m.flags.exitRequested = true → m.flags.exitCode = code)
  | .poll quit => quit = true → m.flags.exitRequested = true → m.flags.exitCode = 0
  | _ => True

/-- The slice of `vm_start` in which an exit was requested is open: it can still be in an
instruction, and that in a callback, which runs no slice any more. -/
inductive SliceOpen : List Call → Prop
  | between : SliceOpen [.exec386, .start .ran]
  | inside : SliceOpen [.instruction, .exec386, .start .ran]
  | callback (completed : Bool) (iter : Nat) :
      SliceOpen [.callback completed iter, .instruction, .exec386, .start .ran]

/-- The exit request stands. -/
def VmLoops.Requested (m : VmLoops) (code : UInt32) : Prop :=
  m.flags.exitRequested = true ∧ m.flags.exitCode = code

/-- The slice of an exit request has ended: the loop is about to end, or has ended. -/
def SliceClosed (m : VmLoops) (code : UInt32) : Prop :=
  m.calls = [] ∨ m.Requested code ∧ ∃ point, m.calls = [.start point]

/-- An exit request is on its way. -/
def Exiting (m : VmLoops) (code : UInt32) : Prop :=
  m.Requested code ∧ SliceOpen m.calls ∨ SliceClosed m code

variable {m m' : VmLoops} {e : LoopEvent} {code : UInt32}

/-- Once the slice of a request is closed, only the loop of `vm_start` goes on, and it runs no
further slice. -/
theorem SliceClosed.step (h : SliceClosed m code) (hok : RequestsFromStart m e)
    (hs : loopStep m e = some m') : SliceClosed m' code ∧ e ≠ .instr := by
  rcases m with ⟨flags, calls⟩
  obtain rfl | ⟨⟨hreq, hcode⟩, point, rfl⟩ := h
  · cases e <;> simp [loopStep] at hs
  · dsimp only at hreq hcode
    cases e <;> cases point <;> simp [loopStep, hreq] at hs
    case poll.ran quit =>
      subst hs
      refine ⟨Or.inr ⟨?_, .head, rfl⟩, nofun⟩
      cases quit with
      | false => exact ⟨hreq, hcode⟩
      | true => exact ⟨rfl, (hok rfl hreq).symm.trans hcode⟩
    case leave.head =>
      subst hs
      exact ⟨Or.inl rfl, nofun⟩
    case setCpuExit.head value => exact ⟨Or.inr (hs ▸ ⟨⟨rfl, hcode⟩, _, rfl⟩), nofun⟩
    case setCpuExit.ran value => exact ⟨Or.inr (hs ▸ ⟨⟨rfl, hcode⟩, _, rfl⟩), nofun⟩

/-- While it is open, the request stands: callbacks that are started run nothing. -/
theorem SliceOpen.step (h : SliceOpen m.calls) (hreq : m.Requested code)
    (hok : RequestsFromStart m e) (hs : loopStep m e = some m') : Exiting m' code := by
  rcases m with ⟨flags, calls⟩
  obtain ⟨hset, hcode⟩ := hreq
  dsimp only at h hset hcode
  cases h with
  | between =>
    cases e <;> simp [loopStep] at hs
    case instr => exact hs ▸ Or.inl ⟨⟨hset, hcode⟩, .inside⟩
    case sliceDone => exact hs ▸ Or.inr (Or.inr ⟨⟨hset, hcode⟩, _, rfl⟩)
  | inside =>
    cases e <;> simp [loopStep, callbackDepth, maxCallbackDepth] at hs
    case requestExit code' => exact hs ▸ Or.inl ⟨⟨rfl, (hok.2 hset).symm.trans hcode⟩, .inside⟩
    case setCpuExit value => exact hs ▸ Or.inl ⟨⟨hset, hcode⟩, .inside⟩
    case dllInitDone => exact hs ▸ Or.inl ⟨⟨hset, hcode⟩, .inside⟩
    case callbackReturn => exact hs ▸ Or.inl ⟨⟨hset, hcode⟩, .inside⟩
    case callWndproc => exact hs ▸ Or.inl ⟨⟨hset, hcode⟩, .callback false 0⟩
    case instrDone =>
      subst hs
      by_cases hstop : flags.cpuExitRequested = true
      · exact Or.inr (Or.inr ⟨⟨hset, hcode⟩, .ran, if_pos hstop⟩)
      · refine Or.inl ⟨⟨hset, hcode⟩, ?_⟩
        dsimp only
        rw [if_neg hstop]
        exact .between
  | callback completed iter =>
    cases e <;> simp [loopStep, hset] at hs
    case leave => exact hs ▸ Or.inl ⟨⟨rfl, hcode⟩, .inside⟩

theorem Exiting.step (h : Exiting m code) (hok : RequestsFromStart m e)
    (hs : loopStep m e = some m') : Exiting m' code := by
  obtain ⟨hreq, hopen⟩ | hclosed := h
  · exact hopen.step hreq hok hs
  · exact Or.inr (hclosed.step hok hs).1

theorem Exiting.of_request (hok : RequestsFromStart m (.requestExit code))
    (hs : loopStep m (.requestExit code) = some m') : Exiting m' code := by
  rcases m with ⟨flags, calls⟩
  obtain ⟨rfl, -⟩ := hok
  obtain rfl := Option.some.inj hs
  exact Or.inl ⟨⟨rfl, rfl⟩, .inside⟩

theorem SliceOpen.length {calls : List Call} (h : SliceOpen calls) : 3 ≤ calls.length + 1 := by
  cases h <;> simp

section Run

variable {flags : ExitFlags} {es : List LoopEvent} {tr : List VmLoops}

/-- From the step after a request on, an exit is on its way. -/
theorem exiting_after (h : trace loopStep m es = some tr)
    (hg : Guarded loopStep RequestsFromStart m es) {i : Nat}
    (hi : es[i]? = some (.requestExit code)) (d : Nat) {x : VmLoops} (hx : tr[i + 1 + d]? = some x) : Exiting x code := by
  induction d generalizing x with
  | zero =>
    have hlt : i < tr.length := by
      have := (List.getElem?_eq_some_iff.mp hx).1
      omega
    obtain ⟨e, he, hok, hs⟩ := trace_step_at h hg (List.getElem?_eq_getElem hlt) hx
    obtain rfl := Option.some.inj (hi.symm.trans he)
    exact .of_request hok hs
  | succ d ih =>
    have hlt : i + 1 + d < tr.length := by
      have := (List.getElem?_eq_some_iff.mp hx).1
      omega
    obtain ⟨e, -, hok, hs⟩ := trace_step_at h hg (List.getElem?_eq_getElem hlt) hx
    exact (ih (List.getElem?_eq_getElem hlt)).step hok hs

/-- A slice that has been closed stays closed. -/
theorem closed_after (h : trace loopStep m es = some tr)
    (hg : Guarded loopStep RequestsFromStart m es) {k : Nat} {y : VmLoops} (hy : tr[k]? = some y)
    (hclosed : SliceClosed y code) (d : Nat) {x : VmLoops} (hx : tr[k + d]? = some x) :
    SliceClosed x code := by
  induction d generalizing x with
  | zero => exact Option.some.inj (hy.symm.trans hx) ▸ hclosed
  | succ d ih =>
    have hlt : k + d < tr.length := by
      have := (List.getElem?_eq_some_iff.mp hx).1
      omega
    obtain ⟨e, -, hok, hs⟩ := trace_step_at h hg (List.getElem?_eq_getElem hlt) hx
    exact ((ih (List.getElem?_eq_getElem hlt)).step hok hs).1

/-- Where every request is made in a slice of the main loop, the requests stick. -/
theorem exitSticks_of_requestsFromStart (flags : ExitFlags) (es : List LoopEvent)
    (tr : List VmLoops) (h : trace loopStep (loopsBegin flags) es = some tr)
    (hg : Guarded loopStep RequestsFromStart (loopsBegin flags) es) : ExitSticks es tr := by
  intro i code m hi hm j x hij hx
  have hafter : ∀ (k : Nat) (y : VmLoops), i < k → tr[k]? = some y → Exiting y code := by
    intro k y hik hy
    obtain ⟨d, rfl⟩ := Nat.exists_eq_add_of_le (Nat.succ_le_of_lt hik)
    exact exiting_after h hg hi d hy
  constructor
  · intro hreturned
    obtain ⟨hreq, -⟩ | hempty | ⟨hreq, -⟩ := hafter j x hij hx
    · exact hreq
    · exact absurd hempty hreturned
    · exact hreq
  · intro hinstr k y hik hkj hy
    have hlength : m.calls.length = 3 := by
      obtain ⟨hcalls, -⟩ := (guarded_iff_at h).mp hg i m _ hm hi
      rw [hcalls]
      rfl
    rw [hlength]
    obtain ⟨-, hopen⟩ | hclosed := hafter k y hik hy
    · exact hopen.length
    · -- a closed slice is still closed at the instruction, which has none to belong to
      obtain ⟨d, rfl⟩ := Nat.exists_eq_add_of_le hkj
      obtain ⟨x', hs⟩ := trace_next h hx hinstr
      exact absurd rfl ((closed_after h hg hy hclosed d hx).step
        (show RequestsFromStart x .instr from trivial) hs).2

end Run

/-- The flags that `vm_init` leaves. -/
def ExitFlags.zero : ExitFlags := ⟨false, 0, false, false⟩

/-- The main thread terminates the process in a slice of the main loop. -/
theorem exitSticks_of_requestsFromStart_main :
    ∃ tr, trace loopStep (loopsBegin .zero)
        [.startVm, .runSlice, .instr, .requestExit 5, .setCpuExit true, .instrDone, .poll false,
          .leave] = some tr ∧
      ExitSticks [.startVm, .runSlice, .instr, .requestExit 5, .setCpuExit true, .instrDone,
        .poll false, .leave] tr := by
  refine ⟨_, rfl, exitSticks_of_requestsFromStart .zero _ _ rfl ?_⟩
  simp [Guarded, loopStep, loopsBegin, RequestsFromStart, ExitFlags.zero]

/-- A `DllMain` that terminates the process: the request is forgotten when it returns. -/
def dllMainExits : List LoopEvent :=
  [.callDllEntry, .runSlice, .instr, .requestExit 5, .setCpuExit true, .instrDone, .leave]

/-- A window procedure that terminates the process: the code that sent it its message runs on
after its slice. -/
def wndprocExits : List LoopEvent :=
  [.startVm, .runSlice, .instr, .callWndproc, .runSlice, .instr, .requestExit 5, .setCpuExit true,
    .instrDone, .leave, .instrDone, .instr]

theorem exit_not_sticks :
    (∃ tr, trace loopStep (loopsBegin .zero) dllMainExits = some tr ∧
      ¬ ExitSticks dllMainExits tr) ∧
    ∃ tr, trace loopStep (loopsBegin .zero) wndprocExits = some tr ∧
      ¬ ExitSticks wndprocExits tr := by
  constructor
  · refine ⟨_, rfl, fun h => ?_⟩
    have hforgotten := (h 3 5 _ rfl rfl 7 _ (by decide) rfl).1 (List.cons_ne_nil _ _)
    exact Bool.false_ne_true hforgotten.1
  · refine ⟨_, rfl, fun h => ?_⟩
    have hclosed := (h 6 5 _ rfl rfl 11 _ (by decide) rfl).2 rfl 9 _ (by decide) (by decide) rfl
    revert hclosed
    decide

end Wbox.Vm
