import Mathlib.Data.List.Nodup
import Mathlib.Data.List.Perm.Basic

/-! Queues from which items may also be erased, and what has happened to each item.

Items are distinct occurrences. Whatever is added is later popped, erased or
still queued, and what is not erased leaves in the order of its arrival.
-/

set_option autoImplicit false

namespace CoroMultiplex.Foundations

structure QueueHistory (α : Type) where
  added : List α := []
  popped : List α := []
  erased : List α := []

namespace QueueHistory

variable {α : Type} [DecidableEq α]

structure Consistent (history : QueueHistory α) (queue : List α) : Prop where
  distinct : history.added.Nodup
  conserved : history.added.Perm (history.erased ++ (history.popped ++ queue))
  ordered : history.added.filter (fun item => item ∉ history.erased) = history.popped ++ queue

variable {history : QueueHistory α} {queue : List α}

theorem consistent_nil : Consistent ({} : QueueHistory α) [] := ⟨List.nodup_nil, .nil, rfl⟩

theorem Consistent.enqueue (consistent : history.Consistent queue) {item : α}
    (fresh : item ∉ history.added) :
    Consistent { history with added := history.added ++ [item] } (queue ++ [item]) where
  distinct := by
    apply List.nodup_append.mpr
    refine ⟨consistent.distinct, List.nodup_singleton item, ?_⟩
    rintro other member _ last rfl
    exact fresh (List.mem_singleton.mp last ▸ member)
  conserved := by
    have shape : history.erased ++ (history.popped ++ (queue ++ [item])) =
        history.erased ++ (history.popped ++ queue) ++ [item] := by simp
    rw [shape]
    exact consistent.conserved.append_right [item]
  ordered := by
    have kept : item ∉ history.erased := by
      intro member
      exact fresh (consistent.conserved.mem_iff.mpr (List.mem_append_left _ member))
    rw [List.filter_append, consistent.ordered]
    simp [kept]

theorem Consistent.dequeue {item : α} (consistent : history.Consistent (item :: queue)) :
    Consistent { history with popped := history.popped ++ [item] } queue where
  distinct := consistent.distinct
  conserved := by simpa using consistent.conserved
  ordered := by simpa using consistent.ordered

/-- Erasing takes items out of the queue and leaves the others in their order. -/
theorem Consistent.eraseIf (consistent : history.Consistent queue) (drop : α → Bool) :
    Consistent { history with erased := history.erased ++ queue.filter drop }
      (queue.filter fun item => !drop item) where
  distinct := consistent.distinct
  conserved := by
    have split : queue.Perm (queue.filter drop ++ queue.filter fun item => !drop item) :=
      (List.filter_append_perm drop queue).symm
    have swap : (history.popped ++ (queue.filter drop ++ queue.filter fun item => !drop item)).Perm
        (queue.filter drop ++ (history.popped ++ queue.filter fun item => !drop item)) := by
      rw [← List.append_assoc, ← List.append_assoc]
      exact List.perm_append_comm.append_right _
    have moved : (history.popped ++ queue).Perm
        (queue.filter drop ++ (history.popped ++ queue.filter fun item => !drop item)) :=
      (split.append_left history.popped).trans swap
    rw [List.append_assoc]
    exact consistent.conserved.trans (moved.append_left history.erased)
  ordered := by
    have remaining : (history.popped ++ queue).Nodup := by
      rw [← consistent.ordered]
      exact consistent.distinct.filter _
    obtain ⟨_, _, apart⟩ := List.nodup_append.mp remaining
    have twice : history.added.filter (fun item => item ∉ history.erased ++ queue.filter drop) =
        (history.added.filter fun item => item ∉ history.erased).filter
          fun item => item ∉ queue.filter drop := by
      rw [List.filter_filter]
      apply List.filter_congr
      intro item _
      simp only [List.mem_append, not_or, Bool.decide_and, Bool.and_comm]
    have popped : history.popped.filter (fun item => item ∉ queue.filter drop) = history.popped := by
      apply List.filter_eq_self.mpr
      intro item member
      have outside : item ∉ queue := fun inside => apart item member item inside rfl
      simp [outside]
    have kept : queue.filter (fun item => item ∉ queue.filter drop) =
        queue.filter fun item => !drop item := by
      apply List.filter_congr
      intro item member
      simp [member]
    rw [twice, consistent.ordered, List.filter_append, popped, kept]

end QueueHistory

end CoroMultiplex.Foundations
