import Mathlib.Data.List.Perm.Basic

/-!
# Delivery of what has been accepted

A store that numbers the requests it gets, and keeps those it accepts until they are delivered, in
any order. No request is lost and none is delivered twice: what is delivered and what is pending
are a rearrangement of what has been accepted.
-/

namespace Wbox.Lib

variable {α : Type}

/-- The number of requests so far, and the accepted ones with their numbers. -/
structure Delivery (α : Type) where
  requests : Nat := 0
  pending : List (Nat × α) := []
  delivered : List (Nat × α) := []

namespace Delivery

/-- A request that is accepted. -/
def accept (d : Delivery α) (a : α) : Delivery α :=
  { d with requests := d.requests + 1, pending := d.pending ++ [(d.requests, a)] }

/-- A request that is not. -/
def pass (d : Delivery α) : Delivery α := { d with requests := d.requests + 1 }

/-- A request that delivers a pending one. -/
def deliver (d : Delivery α) (j : Nat) : Delivery α :=
  { requests := d.requests + 1
    pending := d.pending.eraseIdx j
    delivered := d.delivered ++ d.pending[j]?.toList }

/-- The entries of a request. -/
def entriesOf (k : Nat) (es : List (Nat × α)) : List α :=
  (es.filter fun e => e.1 = k).map Prod.snd

/-- The accepted requests. -/
def ledger (d : Delivery α) : List (Nat × α) := d.delivered ++ d.pending

/-- Only requests that have been made are accepted. -/
def Numbered (d : Delivery α) : Prop := ∀ e ∈ d.ledger, e.1 < d.requests

/-- Request `k` has been made, and `xs` has been accepted of it. -/
structure Accepted (d : Delivery α) (k : Nat) (xs : List α) : Prop where
  made : k < d.requests
  entries : (entriesOf k d.ledger).Perm xs

variable {d : Delivery α} {k j : Nat} {a : α} {xs : List α}

theorem numbered_empty : Numbered ({} : Delivery α) := by
  intro e he
  cases he

/-- Delivery rearranges the accepted requests. -/
theorem ledger_deliver (d : Delivery α) (j : Nat) : (d.deliver j).ledger.Perm d.ledger := by
  unfold ledger deliver
  by_cases hj : j < d.pending.length
  · rw [List.getElem?_eq_getElem hj, Option.toList_some, List.append_assoc]
    exact List.Perm.append_left _ (List.getElem_cons_eraseIdx_perm hj)
  · rw [List.getElem?_eq_none (Nat.le_of_not_lt hj),
      List.eraseIdx_of_length_le (Nat.le_of_not_lt hj), Option.toList_none, List.append_nil]

theorem ledger_accept (d : Delivery α) (a : α) :
    (d.accept a).ledger = d.ledger ++ [(d.requests, a)] := by
  unfold ledger accept
  rw [List.append_assoc]

theorem Numbered.accept (h : d.Numbered) (a : α) : (d.accept a).Numbered := by
  intro e he
  rw [ledger_accept] at he
  show e.1 < d.requests + 1
  rcases List.mem_append.mp he with hold | hnew
  · exact Nat.lt_succ_of_lt (h e hold)
  · rw [List.mem_singleton.mp hnew]
    exact Nat.lt_succ_self _

theorem Numbered.pass (h : d.Numbered) : d.pass.Numbered :=
  fun e he => Nat.lt_succ_of_lt (h e he)

theorem Numbered.deliver (h : d.Numbered) (j : Nat) : (d.deliver j).Numbered :=
  fun e he => Nat.lt_succ_of_lt (h e ((ledger_deliver d j).mem_iff.mp he))

/-- What has been accepted of a request stays so, whatever comes later. -/
theorem Accepted.accept (h : d.Accepted k xs) (a : α) : (d.accept a).Accepted k xs := by
  refine ⟨Nat.lt_succ_of_lt h.made, ?_⟩
  have hother : entriesOf k [(d.requests, a)] = [] := by
    simp [entriesOf, Nat.ne_of_gt h.made]
  rw [ledger_accept, entriesOf, List.filter_append, List.map_append]
  show (entriesOf k d.ledger ++ entriesOf k [(d.requests, a)]).Perm xs
  rw [hother, List.append_nil]
  exact h.entries

theorem Accepted.pass (h : d.Accepted k xs) : d.pass.Accepted k xs :=
  ⟨Nat.lt_succ_of_lt h.made, h.entries⟩

theorem Accepted.deliver (h : d.Accepted k xs) (j : Nat) : (d.deliver j).Accepted k xs :=
  ⟨Nat.lt_succ_of_lt h.made, (((ledger_deliver d j).filter _).map _).trans h.entries⟩

end Delivery

end Wbox.Lib
