import Wbox.Lib.Delivery
import Wbox.User.MessageQueue

/-!
# Delivery of quit requests

`msg_queue_post_quit` (`src/user/user_message.c:72–79`) keeps a request as a flag and as a message.
Nothing reads the flag, and the message is posted like any other one: a full queue does not take it.
The calls of a run are numbered, so that the messages they post can be followed to their delivery.
-/

namespace Wbox.User

open Wbox.Lib

/-- `WM_QUIT`. -/
def wmQuit : UInt32 := 0x0012

/-- `WBOX_MSG_QUEUE` with the flag of a quit request. -/
structure WboxQuitQueue extends WboxMsgQueue where
  quitPosted : Bool
  exitCode : Int32

/-- `msg_queue_post_quit`, `user_message.c:72–79`, and whether the message has been posted. -/
def msgQueuePostQuit (q : WboxQuitQueue) (tick : UInt32) (exitCode : Int32) :
    WboxQuitQueue × Bool :=
  let posted := msgQueuePost q.toWboxMsgQueue tick 0 wmQuit exitCode.toUInt32 0
  ({ toWboxMsgQueue := posted.1, quitPosted := true, exitCode }, posted.2)

/-- The calls on the queue, with the time and the windows that they read. -/
inductive QuitCall where
  | post (tick hwnd message wParam lParam : UInt32)
  | peek (ws : Windows) (tick : UInt32) (filter : MsgFilter) (flags : UInt32)
  | postQuit (tick : UInt32) (exitCode : Int32)

/-- The queue, and the messages that the calls have posted and removed. -/
structure QuitRun where
  queue : WboxQuitQueue
  log : Delivery WboxMsg

/-- The message that a call of `msg_queue_post` stores. -/
def WboxMsgQueue.newMessage (q : WboxMsgQueue) (tick hwnd message wParam lParam : UInt32) :
    WboxMsg :=
  { hwnd, message, wParam, lParam, time := tick, ptX := q.mouseX, ptY := q.mouseY }

/-- One call. -/
def quitStep (r : QuitRun) : QuitCall → QuitRun
  | .post tick hwnd message wParam lParam =>
      let posted := msgQueuePost r.queue.toWboxMsgQueue tick hwnd message wParam lParam
      { queue := { r.queue with toWboxMsgQueue := posted.1 }
        log :=
          if posted.2 then r.log.accept (r.queue.newMessage tick hwnd message wParam lParam)
          else r.log.pass }
  | .postQuit tick exitCode =>
      let posted := msgQueuePostQuit r.queue tick exitCode
      { queue := posted.1
        log :=
          if posted.2 then r.log.accept (r.queue.newMessage tick 0 wmQuit exitCode.toUInt32 0)
          else r.log.pass }
  | .peek ws tick filter flags =>
      let q := r.queue.toWboxMsgQueue
      { queue := { r.queue with toWboxMsgQueue := (msgQueuePeek q ws tick filter flags).1 }
        log := match msgFind q (msgMatchesFilter ws filter) q.head 0 q.count with
          | some (_, checked) =>
              if flags &&& pmRemove ≠ 0 then r.log.deliver checked else r.log.pass
          | none => r.log.pass }

/-- The state after some calls. -/
def quitRun (r : QuitRun) (calls : List QuitCall) : QuitRun := calls.foldl quitStep r

/-- After `msg_queue_init`. -/
def quitStart : QuitRun where
  queue := { toWboxMsgQueue := msgQueueInit, quitPosted := false, exitCode := 0 }
  log := {}

variable {r : QuitRun} {call : QuitCall} {k : Nat} {xs : List WboxMsg}

/-- The pending messages are those of the queue. -/
structure Tracks (r : QuitRun) : Prop where
  represents : Represents r.queue.toWboxMsgQueue
    ⟨r.log.pending.map Prod.snd, r.queue.mouseX, r.queue.mouseY⟩
  numbered : r.log.Numbered

theorem Tracks.length (h : Tracks r) : r.log.pending.length = r.queue.count := by
  rw [← h.represents.length, List.length_map]

/-- The position of the mouse is the one of the queue. -/
theorem Represents.withMouse {q : WboxMsgQueue} {l : MsgList} (h : Represents q l) :
    Represents q ⟨l.messages, q.mouseX, q.mouseY⟩ :=
  ⟨h.head, h.tail, h.count, h.messages, rfl, rfl⟩

theorem tracks_start : Tracks quitStart := ⟨represents_init, Delivery.numbered_empty⟩

/-- A message is posted if there is room. -/
theorem msgQueuePost_snd (q : WboxMsgQueue) (tick hwnd message wParam lParam : UInt32) :
    (msgQueuePost q tick hwnd message wParam lParam).2 = decide (q.count < 256) := by
  unfold msgQueuePost
  split
  · next hfull => rw [decide_eq_false (Nat.not_lt.mpr hfull)]
  · next hroom => rw [decide_eq_true (Nat.not_le.mp hroom)]

/-- A message that is posted is pending behind the others. -/
theorem Tracks.post (h : Tracks r) (tick hwnd message wParam lParam : UInt32) :
    Tracks (quitStep r (.post tick hwnd message wParam lParam)) := by
  have hpost := (h.represents.post tick hwnd message wParam lParam).1
  have hlength := h.length
  simp only [quitStep, msgQueuePost_snd]
  by_cases hroom : r.queue.count < 256
  · rw [if_pos (decide_eq_true hroom)]
    refine ⟨?_, h.numbered.accept _⟩
    unfold MsgList.post at hpost
    rw [if_pos (by rw [List.length_map]; omega)] at hpost
    show Represents _ ⟨(r.log.pending ++ [_]).map Prod.snd, _, _⟩
    rw [List.map_append]
    exact hpost.withMouse
  · rw [if_neg (by simpa using hroom)]
    refine ⟨?_, h.numbered.pass⟩
    have hfull : (msgQueuePost r.queue.toWboxMsgQueue tick hwnd message wParam lParam).1 =
        r.queue.toWboxMsgQueue := by
      unfold msgQueuePost
      rw [if_pos (by omega)]
    rw [hfull]
    exact h.represents

/-- A quit request is posted like any message. -/
theorem Tracks.postQuit (h : Tracks r) (tick : UInt32) (exitCode : Int32) :
    Tracks (quitStep r (.postQuit tick exitCode)) := by
  have hpost := h.post tick 0 wmQuit exitCode.toUInt32 0
  exact ⟨hpost.represents, hpost.numbered⟩

/-- What the search finds, and what is left in the queue and in the log. -/
theorem quitStep_peek (h : Tracks r) (ws : Windows) (tick : UInt32) (filter : MsgFilter)
    (flags : UInt32) :
    (quitStep r (.peek ws tick filter flags)).log =
      match (r.log.pending.map Prod.snd).findIdx? (msgMatchesFilter ws filter) with
      | some k => if flags &&& pmRemove ≠ 0 then r.log.deliver k else r.log.pass
      | none => r.log.pass := by
  have hhead : (r.queue.head + 0) % 256 = r.queue.head := Nat.mod_eq_of_lt h.represents.head
  have hfind := msgFind_eq (q := r.queue.toWboxMsgQueue) (p := msgMatchesFilter ws filter) (k := 0)
    (Nat.zero_add r.queue.count)
  rw [hhead, List.drop_zero, ← h.represents.messages] at hfind
  simp only [quitStep, hfind]
  cases (r.log.pending.map Prod.snd).findIdx? (msgMatchesFilter ws filter) with
  | none => rfl
  | some k => simp only [Option.map_some, Nat.zero_add]

theorem Tracks.peek (h : Tracks r) (ws : Windows) (tick : UInt32) (filter : MsgFilter)
    (flags : UInt32) : Tracks (quitStep r (.peek ws tick filter flags)) := by
  have hpeek := (h.represents.peek ws tick filter flags).1
  have hlog := quitStep_peek h ws tick filter flags
  unfold MsgList.peek at hpeek
  constructor
  · show Represents (msgQueuePeek r.queue.toWboxMsgQueue ws tick filter flags).1
      ⟨(quitStep r (.peek ws tick filter flags)).log.pending.map Prod.snd, _, _⟩
    rw [hlog]
    cases hidx : (r.log.pending.map Prod.snd).findIdx? (msgMatchesFilter ws filter) with
    | none =>
      rw [hidx] at hpeek
      exact hpeek.withMouse
    | some k =>
      rw [hidx] at hpeek
      by_cases hremove : flags &&& pmRemove ≠ 0
      · simp only [if_pos hremove] at hpeek ⊢
        show Represents _ ⟨(r.log.pending.eraseIdx k).map Prod.snd, _, _⟩
        rw [← List.eraseIdx_map]
        exact hpeek.withMouse
      · simp only [if_neg hremove] at hpeek ⊢
        exact hpeek.withMouse
  · rw [hlog]
    split
    · split
      · exact h.numbered.deliver _
      · exact h.numbered.pass
    · exact h.numbered.pass

theorem Tracks.step (h : Tracks r) (call : QuitCall) : Tracks (quitStep r call) := by
  cases call with
  | post tick hwnd message wParam lParam => exact h.post tick hwnd message wParam lParam
  | postQuit tick exitCode => exact h.postQuit tick exitCode
  | peek ws tick filter flags => exact h.peek ws tick filter flags

theorem Tracks.run (h : Tracks r) (calls : List QuitCall) : Tracks (quitRun r calls) := by
  induction calls generalizing r with
  | nil => exact h
  | cons call calls ih => exact ih (h.step call)

end Wbox.User
