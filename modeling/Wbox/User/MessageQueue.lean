import Wbox.Lib.Refinement
import Wbox.Lib.Ring
import Wbox.User.Windows

/-!
# The message queue

`msg_queue_post` and `msg_queue_peek` (`src/user/user_message.c`) on the ring buffer of 256 messages,
and the list of messages that it stands for. The time of a message and the windows are read anew in
every call.
-/

namespace Wbox.User

open Wbox.Lib

/-- `WM_PAINT`. -/
def wmPaint : UInt32 := 0x000F
/-- `PM_REMOVE`. -/
def pmRemove : UInt32 := 0x0001

/-- `WBOX_MSG`. -/
structure WboxMsg where
  hwnd : UInt32 := 0
  message : UInt32 := 0
  wParam : UInt32 := 0
  lParam : UInt32 := 0
  time : UInt32 := 0
  ptX : Int32 := 0
  ptY : Int32 := 0
  deriving DecidableEq, Repr

/-- `WBOX_MSG_QUEUE`: the ring buffer and the position of the mouse. -/
structure WboxMsgQueue where
  messages : Nat → WboxMsg
  head : Nat
  tail : Nat
  count : Nat
  mouseX : Int32
  mouseY : Int32

/-- `msg_queue_init`, `user_message.c:21–32`. -/
def msgQueueInit : WboxMsgQueue :=
  { messages := fun _ => {}, head := 0, tail := 0, count := 0, mouseX := 0, mouseY := 0 }

/-- `msg_queue_post`, `user_message.c:50–70`. -/
def msgQueuePost (q : WboxMsgQueue) (tick hwnd message wParam lParam : UInt32) :
    WboxMsgQueue × Bool :=
  if q.count ≥ 256 then (q, false)
  else
    let msg : WboxMsg :=
      { hwnd, message, wParam, lParam, time := tick, ptX := q.mouseX, ptY := q.mouseY }
    ({ q with
      messages := Function.update q.messages q.tail msg
      tail := (q.tail + 1) % 256
      count := q.count + 1 }, true)

/-- What a call of `msg_queue_peek` looks for. -/
structure MsgFilter where
  hwnd : UInt32
  min : UInt32
  max : UInt32
  deriving DecidableEq, Repr

/-- `msg_matches_filter`, `user_message.c:84–120`. -/
def msgMatchesFilter (ws : Windows) (filter : MsgFilter) (msg : WboxMsg) : Bool :=
  let filterWnd := ws.userWindowFromHwnd filter.hwnd
  let msgWnd := ws.userWindowFromHwnd msg.hwnd
  if filter.hwnd ≠ 0 ∧ filter.hwnd ≠ -1 ∧ msg.hwnd ≠ filter.hwnd ∧
      (filterWnd = 0 ∨ msgWnd = 0 ∨ !ws.isBelow filterWnd (ws.wnd msgWnd).spwndParent) then false
  else if (filter.min ≠ 0 ∨ filter.max ≠ 0) ∧
      (msg.message < filter.min ∨ msg.message > filter.max) then false
  else true

/-- The loop of `msg_queue_peek` over the messages, `user_message.c:168–202`: the slot of the first
one that matches, and how many came before it. -/
def msgFind (q : WboxMsgQueue) (p : WboxMsg → Bool) (i checked : Nat) : Nat → Option (Nat × Nat)
  | 0 => none
  | left + 1 =>
      if p (q.messages i) then some (i, checked)
      else msgFind q p ((i + 1) % 256) (checked + 1) left

/-- A message is taken out of the queue, `user_message.c:179–194`. -/
def msgRemove (q : WboxMsgQueue) (i checked : Nat) : WboxMsgQueue :=
  if i = q.head then { q with head := (q.head + 1) % 256, count := q.count - 1 }
  else
    { q with
      messages := shiftDown 256 (q.count - checked - 1) ((i + 1) % 256) i q.messages
      tail := (q.tail + 256 - 1) % 256
      count := q.count - 1 }

/-- The message that is made for a window with something to paint, `user_message.c:204–221`. -/
def paintMessage (ws : Windows) (tick : UInt32) (filter : MsgFilter) (mouseX mouseY : Int32) :
    Option WboxMsg :=
  let w := ws.findWindowNeedingPaint
  if (filter.min = 0 ∧ filter.max = 0 ∨ wmPaint ≥ filter.min ∧ wmPaint ≤ filter.max) ∧
      w ≠ 0 ∧ (filter.hwnd = 0 ∨ filter.hwnd = (ws.wnd w).hwnd) then
    some { hwnd := (ws.wnd w).hwnd, message := wmPaint, time := tick, ptX := mouseX, ptY := mouseY }
  else none

/-- `msg_queue_peek`, `user_message.c:162–225`: the message it finds. -/
def msgQueuePeek (q : WboxMsgQueue) (ws : Windows) (tick : UInt32) (filter : MsgFilter)
    (flags : UInt32) : WboxMsgQueue × Option WboxMsg :=
  match msgFind q (msgMatchesFilter ws filter) q.head 0 q.count with
  | some (i, checked) =>
      (if flags &&& pmRemove ≠ 0 then msgRemove q i checked else q, some (q.messages i))
  | none => (q, paintMessage ws tick filter q.mouseX q.mouseY)

section Fifo

/-- The list of messages that the queue stands for, and the position of the mouse. -/
structure MsgList where
  messages : List WboxMsg
  mouseX : Int32
  mouseY : Int32
  deriving DecidableEq, Repr

/-- A message is appended to a list of less than 256. -/
def MsgList.post (l : MsgList) (tick hwnd message wParam lParam : UInt32) : MsgList × Bool :=
  if l.messages.length < 256 then
    ({ l with messages := l.messages ++
      [{ hwnd, message, wParam, lParam, time := tick, ptX := l.mouseX, ptY := l.mouseY }] }, true)
  else (l, false)

/-- The first message that matches is found, and erased if it is to be removed. -/
def MsgList.peek (l : MsgList) (ws : Windows) (tick : UInt32) (filter : MsgFilter)
    (flags : UInt32) : MsgList × Option WboxMsg :=
  match l.messages.findIdx? (msgMatchesFilter ws filter) with
  | some k =>
      (if flags &&& pmRemove ≠ 0 then { l with messages := l.messages.eraseIdx k } else l,
        l.messages[k]?)
  | none => (l, paintMessage ws tick filter l.mouseX l.mouseY)

end Fifo

section Runs

/-- A call on the queue, with the time and the windows that it reads. -/
inductive MsgCall where
  | post (tick hwnd message wParam lParam : UInt32)
  | peek (ws : Windows) (tick : UInt32) (filter : MsgFilter) (flags : UInt32)

/-- What a call returns. -/
inductive MsgResult where
  | posted (done : Bool)
  | peeked (found : Option WboxMsg)
  deriving DecidableEq, Repr

/-- A call on the ring buffer. -/
def msgStep (q : WboxMsgQueue) : MsgCall → WboxMsgQueue × MsgResult
  | .post tick hwnd message wParam lParam =>
      let done := msgQueuePost q tick hwnd message wParam lParam
      (done.1, .posted done.2)
  | .peek ws tick filter flags =>
      let found := msgQueuePeek q ws tick filter flags
      (found.1, .peeked found.2)

/-- A call on the list. -/
def MsgList.step (l : MsgList) : MsgCall → MsgList × MsgResult
  | .post tick hwnd message wParam lParam =>
      let done := l.post tick hwnd message wParam lParam
      (done.1, .posted done.2)
  | .peek ws tick filter flags =>
      let found := l.peek ws tick filter flags
      (found.1, .peeked found.2)

end Runs

section Refinement

variable {q : WboxMsgQueue} {l : MsgList} {p : WboxMsg → Bool}

/-- The queue stands for a list of at most 256 messages. -/
structure Represents (q : WboxMsgQueue) (l : MsgList) : Prop where
  head : q.head < 256
  tail : q.tail = (q.head + q.count) % 256
  count : q.count ≤ 256
  messages : l.messages = ringList q.messages 256 q.head q.count
  mouseX : l.mouseX = q.mouseX
  mouseY : l.mouseY = q.mouseY

theorem represents_init : Represents msgQueueInit ⟨[], 0, 0⟩ :=
  ⟨by decide, rfl, by decide, rfl, rfl, rfl⟩

theorem Represents.length (h : Represents q l) : l.messages.length = q.count := by
  rw [h.messages, ringList_length]

theorem Represents.post (h : Represents q l) (tick hwnd message wParam lParam : UInt32) :
    Represents (msgQueuePost q tick hwnd message wParam lParam).1
        (l.post tick hwnd message wParam lParam).1 ∧
      (msgQueuePost q tick hwnd message wParam lParam).2 =
        (l.post tick hwnd message wParam lParam).2 := by
  unfold msgQueuePost MsgList.post
  rw [h.length]
  by_cases hfull : q.count ≥ 256
  · rw [if_pos hfull, if_neg (by omega)]
    exact ⟨h, rfl⟩
  · rw [if_neg hfull, if_pos (by omega)]
    refine ⟨⟨h.head, ?_, ?_, ?_, h.mouseX, h.mouseY⟩, rfl⟩
    · show (q.tail + 1) % 256 = (q.head + (q.count + 1)) % 256
      rw [h.tail, ring_succ]
    · show q.count + 1 ≤ 256
      omega
    · show _ = ringList (Function.update q.messages q.tail _) 256 q.head (q.count + 1)
      rw [h.tail, ringList_push (by omega), h.messages, h.mouseX, h.mouseY]

/-- The search goes through the messages in the order of the list. -/
theorem msgFind_eq {k left : Nat} (hk : k + left = q.count) :
    msgFind q p ((q.head + k) % 256) k left =
      (((ringList q.messages 256 q.head q.count).drop k).findIdx? p).map fun j =>
        ((q.head + (k + j)) % 256, k + j) := by
  induction left generalizing k with
  | zero =>
    have hend : (ringList q.messages 256 q.head q.count).drop k = [] := by
      apply List.drop_eq_nil_of_le
      rw [ringList_length]
      omega
    rw [hend]
    rfl
  | succ left ih =>
    have hlt : k < (ringList q.messages 256 q.head q.count).length := by
      rw [ringList_length]
      omega
    have hget : (ringList q.messages 256 q.head q.count)[k] = q.messages ((q.head + k) % 256) := by
      have hsome : (ringList q.messages 256 q.head q.count)[k]? =
          some (q.messages ((q.head + k) % 256)) := getElem?_ringList (by omega)
      rw [List.getElem?_eq_getElem hlt] at hsome
      exact Option.some.inj hsome
    rw [List.drop_eq_getElem_cons hlt, List.findIdx?_cons, hget, msgFind]
    split
    · rfl
    · rw [ring_succ, ih (by omega), Option.map_map]
      congr 1
      funext j
      have hsum : k + 1 + j = k + (j + 1) := by omega
      simp only [Function.comp_apply, hsum]

/-- Taking a message out of the queue erases it from the list. -/
theorem Represents.remove (h : Represents q l) {k : Nat} (hk : k < q.count) :
    Represents (msgRemove q ((q.head + k) % 256) k)
      { l with messages := l.messages.eraseIdx k } := by
  have hhead := h.head
  have hcount := h.count
  have hcapacity : q.count - k - 1 + k + 1 = q.count := by omega
  unfold msgRemove
  by_cases hfirst : k = 0
  · have heq : (q.head + k) % 256 = q.head := by omega
    rw [if_pos heq]
    refine ⟨Nat.mod_lt _ (by decide), ?_, ?_, ?_, h.mouseX, h.mouseY⟩
    · show q.tail = ((q.head + 1) % 256 + (q.count - 1)) % 256
      rw [h.tail]
      omega
    · show q.count - 1 ≤ 256
      omega
    · show l.messages.eraseIdx k = ringList q.messages 256 ((q.head + 1) % 256) (q.count - 1)
      have hsucc : q.count - 1 + 1 = q.count := by omega
      rw [ringList_pop, hsucc, ← h.messages, hfirst]
  · have hne : (q.head + k) % 256 ≠ q.head := by omega
    rw [if_neg hne]
    refine ⟨h.head, ?_, ?_, ?_, h.mouseX, h.mouseY⟩
    · show (q.tail + 256 - 1) % 256 = (q.head + (q.count - 1)) % 256
      rw [h.tail]
      omega
    · show q.count - 1 ≤ 256
      omega
    · show l.messages.eraseIdx k = ringList (shiftDown 256 (q.count - k - 1)
        (((q.head + k) % 256 + 1) % 256) ((q.head + k) % 256) q.messages) 256 q.head (q.count - 1)
      rw [ring_succ, ringList_shiftDown hk hcount, h.messages]

theorem Represents.peek (h : Represents q l) (ws : Windows) (tick : UInt32) (filter : MsgFilter)
    (flags : UInt32) :
    Represents (msgQueuePeek q ws tick filter flags).1 (l.peek ws tick filter flags).1 ∧
      (msgQueuePeek q ws tick filter flags).2 = (l.peek ws tick filter flags).2 := by
  have hhead : (q.head + 0) % 256 = q.head := Nat.mod_eq_of_lt h.head
  have hfind := msgFind_eq (q := q) (p := msgMatchesFilter ws filter) (k := 0) (Nat.zero_add q.count)
  rw [hhead, List.drop_zero, ← h.messages] at hfind
  unfold msgQueuePeek MsgList.peek
  rw [hfind]
  cases hidx : l.messages.findIdx? (msgMatchesFilter ws filter) with
  | none =>
    rw [h.mouseX, h.mouseY]
    exact ⟨h, rfl⟩
  | some k =>
    have hk : k < q.count := by
      rw [← h.length]
      exact (List.findIdx?_eq_some_iff_getElem.mp hidx).1
    have hget : l.messages[k]? = some (q.messages ((q.head + k) % 256)) := by
      rw [h.messages, getElem?_ringList hk]
    simp only [Option.map_some, Nat.zero_add]
    refine ⟨?_, hget.symm⟩
    split
    · exact h.remove hk
    · exact h

/-- Every call on the ring buffer is a call on the list. -/
theorem msgStep_simulates : Simulates Represents msgStep MsgList.step := by
  intro q l call h
  cases call with
  | post tick hwnd message wParam lParam =>
    obtain ⟨hnext, hdone⟩ := h.post tick hwnd message wParam lParam
    exact ⟨hnext, congrArg MsgResult.posted hdone⟩
  | peek ws tick filter flags =>
    obtain ⟨hnext, hfound⟩ := h.peek ws tick filter flags
    exact ⟨hnext, congrArg MsgResult.peeked hfound⟩

/-- The queue is a list of at most 256 messages: after any calls it stands for the list that the
same calls make, and they have returned the same. -/
theorem msgQueue_refines (calls : List MsgCall) :
    Represents (runOutputs msgStep msgQueueInit calls).1
        (runOutputs MsgList.step ⟨[], 0, 0⟩ calls).1 ∧
      (runOutputs msgStep msgQueueInit calls).2 = (runOutputs MsgList.step ⟨[], 0, 0⟩ calls).2 ∧
      (runOutputs MsgList.step ⟨[], 0, 0⟩ calls).1.messages.length ≤ 256 := by
  obtain ⟨hstate, houts⟩ := msgStep_simulates.run represents_init calls
  refine ⟨hstate, houts, ?_⟩
  rw [hstate.length]
  exact hstate.count

end Refinement

end Wbox.User
