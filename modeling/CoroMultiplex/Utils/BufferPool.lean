import CoroMultiplex.Foundations.Machine
import CoroMultiplex.Foundations.Ownership
import Mathlib.Data.List.FinRange

/-! The pool of buffers and the clients that take them and give them back.

Only `test_and_set` and `clear` touch what clients share, so these are the steps of a
call; a loop between two of them goes on by itself.
-/

set_option autoImplicit false

namespace CoroMultiplex.Utils

open Foundations

def bufferSize : Nat := 1024

structure Span where
  data : Nat
  size : Nat
  deriving DecidableEq, Repr

/-- The arrays that the constructor allocates. -/
structure BufferPool (N : Nat) where
  buffers : Fin N → Nat
  distinct : Function.Injective buffers

/-- Where a client is. -/
inductive Phase (N : Nat) where
  | idle
  -- in `getBuffer`, with the index of the next slot to test
  | scanning (i : Nat)
  | taken (slot : Fin N)
  | holding (buffer : Span)
  -- in `returnBuffer`, with the index of the next address to compare
  | returning (buffer : Span) (i : Nat)
  deriving DecidableEq, Repr

structure PoolState (N : Nat) (Client : Type) where
  used : Fin N → Bool := fun _ => false
  clients : Client → Phase N := fun _ => .idle

inductive BufferStep (Client : Type) where
  | getBuffer (client : Client)
  | testAndSet (client : Client)
  | getReturns (client : Client)
  | throws (client : Client)
  | returnBuffer (client : Client)
  | compare (client : Client)
  | returnReturns (client : Client)

namespace BufferPool

variable {N : Nat} {Client : Type} [DecidableEq Client] (pool : BufferPool N)

/-- The slot of an address. -/
def slotOf (data : Nat) : Option (Fin N) := (List.finRange N).find? fun slot => pool.buffers slot = data

/-- `used[i].test_and_set()` of a scan. -/
def testAndSet (self : PoolState N Client) (client : Client) : PoolState N Client :=
  match self.clients client with
  | .scanning i =>
    if inside : i < N then
      if self.used ⟨i, inside⟩ then
        { self with clients := Function.update self.clients client (.scanning (i + 1)) }
      else {
        used := Function.update self.used ⟨i, inside⟩ true
        clients := Function.update self.clients client (.taken ⟨i, inside⟩) }
    else self
  | _ => self

def getReturns (self : PoolState N Client) (client : Client) : PoolState N Client :=
  match self.clients client with
  | .taken slot => { self with
      clients := Function.update self.clients client (.holding ⟨pool.buffers slot, bufferSize⟩) }
  | _ => self

def returnBuffer (self : PoolState N Client) (client : Client) : PoolState N Client :=
  match self.clients client with
  | .holding buffer => { self with
      clients := Function.update self.clients client (.returning buffer 0) }
  | _ => self

/-- One address compared, and `used[i].clear()` if it is the one. -/
def compare (self : PoolState N Client) (client : Client) : PoolState N Client :=
  match self.clients client with
  | .returning buffer i =>
    if inside : i < N then
      if pool.buffers ⟨i, inside⟩ = buffer.data then {
        used := Function.update self.used ⟨i, inside⟩ false
        clients := Function.update self.clients client .idle }
      else { self with clients := Function.update self.clients client (.returning buffer (i + 1)) }
    else self
  | _ => self

/-- Each client gives back what it got, once, and may then ask again. -/
def machine (Client : Type) [DecidableEq Client] : Machine (PoolState N Client) (BufferStep Client) where
  enabled self
    | .getBuffer client => self.clients client = .idle
    | .testAndSet client => ∃ i < N, self.clients client = .scanning i
    | .getReturns client => ∃ slot, self.clients client = .taken slot
    | .throws client => self.clients client = .scanning N
    | .returnBuffer client => ∃ buffer, self.clients client = .holding buffer
    | .compare client => ∃ buffer, ∃ i < N, self.clients client = .returning buffer i
    | .returnReturns client => ∃ buffer, self.clients client = .returning buffer N
  next self
    | .getBuffer client => { self with clients := Function.update self.clients client (.scanning 0) }
    | .testAndSet client => testAndSet self client
    | .getReturns client => pool.getReturns self client
    | .throws client => { self with clients := Function.update self.clients client .idle }
    | .returnBuffer client => returnBuffer self client
    | .compare client => pool.compare self client
    | .returnReturns client => { self with clients := Function.update self.clients client .idle }

/-- The slot whose buffer a client has, from the `test_and_set` to the `clear`. -/
def slot : Phase N → Option (Fin N)
  | .taken slot => some slot
  | .holding buffer | .returning buffer _ => pool.slotOf buffer.data
  | .idle | .scanning _ => none

/-- A span that a client has is that of a buffer, which the comparison has not passed. -/
def Sound : Phase N → Prop
  | .holding buffer => ∃ slot, buffer = ⟨pool.buffers slot, bufferSize⟩
  | .returning buffer i => ∃ slot : Fin N, buffer = ⟨pool.buffers slot, bufferSize⟩ ∧ i ≤ slot
  | .idle | .scanning _ | .taken _ => True

structure Owned (state : PoolState N Client) : Prop where
  exclusive : Exclusive (pool.slot ∘ state.clients) state.used
  sound : ∀ client, pool.Sound (state.clients client)

variable {pool} {self : PoolState N Client} {client : Client} {phase : Phase N}

theorem slotOf_buffers (slot : Fin N) : pool.slotOf (pool.buffers slot) = some slot := by
  cases found : pool.slotOf (pool.buffers slot) with
  | none =>
    have missed := List.find?_eq_none.mp found slot (List.mem_finRange slot)
    exact absurd (decide_eq_true rfl) missed
  | some other =>
    have same : pool.buffers other = pool.buffers slot := by simpa using List.find?_some found
    rw [pool.distinct same]

/-- One client goes on, with the flags changed as its slot asks. -/
theorem Owned.advance (owned : pool.Owned self) {used : Fin N → Bool}
    (exclusive : Exclusive (Function.update (pool.slot ∘ self.clients) client (pool.slot phase)) used)
    (sound : pool.Sound phase) :
    pool.Owned { used := used, clients := Function.update self.clients client phase } where
  exclusive := by
    rw [Function.comp_update]
    exact exclusive
  sound other := by
    change pool.Sound (Function.update self.clients client phase other)
    by_cases here : other = client
    · rw [here, Function.update_self]
      exact sound
    · rw [Function.update_of_ne here]
      exact owned.sound other

/-- One client goes on and keeps its slot, or goes on without one. -/
theorem Owned.move (owned : pool.Owned self) (same : pool.slot phase = pool.slot (self.clients client))
    (sound : pool.Sound phase) :
    pool.Owned { self with clients := Function.update self.clients client phase } := by
  refine owned.advance ?_ sound
  rw [same]
  exact (Function.update_eq_self client (pool.slot ∘ self.clients)).symm ▸ owned.exclusive

theorem owned_testAndSet (owned : pool.Owned self) {i : Nat} (inside : i < N)
    (scanning : self.clients client = .scanning i) : pool.Owned (testAndSet self client) := by
  have idle : pool.slot (self.clients client) = none := by rw [scanning]; rfl
  simp only [testAndSet, scanning, inside, dif_pos]
  split
  · exact owned.move idle.symm trivial
  · rename_i free
    exact owned.advance (owned.exclusive.acquire idle (Bool.eq_false_iff.mpr free)) trivial

theorem owned_compare (owned : pool.Owned self) {buffer : Span} {i : Nat} (inside : i < N)
    (returning : self.clients client = .returning buffer i) : pool.Owned (pool.compare self client) := by
  have sound := owned.sound client
  rw [returning] at sound
  obtain ⟨slot, rfl, reached⟩ := sound
  have held : pool.slot (self.clients client) = some slot := by
    rw [returning]
    exact slotOf_buffers slot
  simp only [compare, returning, inside, dif_pos]
  split
  · rename_i same
    rw [pool.distinct same]
    exact owned.advance (owned.exclusive.release held) trivial
  · rename_i other
    refine owned.move ((slotOf_buffers slot).trans held.symm) ⟨slot, rfl, ?_⟩
    have apart : i ≠ slot := fun same => other (by congr)
    omega

theorem owned_step {step : BufferStep Client} (owned : pool.Owned self)
    (enabled : (pool.machine Client).enabled self step) : pool.Owned ((pool.machine Client).next self step) := by
  cases step with
  | getBuffer client =>
    have idle : self.clients client = .idle := enabled
    exact owned.move (by rw [idle]; rfl) trivial
  | testAndSet client =>
    obtain ⟨i, inside, scanning⟩ := enabled
    exact owned_testAndSet owned inside scanning
  | getReturns client =>
    obtain ⟨slot, taken⟩ := enabled
    change pool.Owned (pool.getReturns self client)
    rw [getReturns, taken]
    exact owned.move (by rw [taken]; exact slotOf_buffers slot) ⟨slot, rfl⟩
  | throws client =>
    have scanning : self.clients client = .scanning N := enabled
    exact owned.move (by rw [scanning]; rfl) trivial
  | returnBuffer client =>
    obtain ⟨buffer, holding⟩ := enabled
    have sound := owned.sound client
    rw [holding] at sound
    obtain ⟨slot, rfl⟩ := sound
    change pool.Owned (returnBuffer self client)
    rw [returnBuffer, holding]
    exact owned.move (by rw [holding]; rfl) ⟨slot, rfl, Nat.zero_le _⟩
  | compare client =>
    obtain ⟨buffer, i, inside, returning⟩ := enabled
    exact owned_compare owned inside returning
  | returnReturns client =>
    obtain ⟨buffer, returning⟩ := enabled
    have sound := owned.sound client
    rw [returning] at sound
    obtain ⟨slot, -, reached⟩ := sound
    omega

theorem owned_reachable (reached : (pool.machine Client).Reachable {} self) : pool.Owned self := by
  refine reached.holds pool.Owned ⟨?_, fun _ => trivial⟩ fun _ _ => owned_step
  exact Exclusive.empty

end BufferPool

open BufferPool

/-- A client has the span of a buffer from the return of `getBuffer` on, until it has given it back. -/
def Phase.Has {N : Nat} (phase : Phase N) (buffer : Span) : Prop :=
  phase = .holding buffer ∨ ∃ i, phase = .returning buffer i

theorem BufferPool.slot_of_has {N : Nat} {pool : BufferPool N} {phase : Phase N} {buffer : Span}
    (sound : pool.Sound phase) (has : phase.Has buffer) :
    ∃ slot, pool.slot phase = some slot ∧ buffer = ⟨pool.buffers slot, bufferSize⟩ := by
  rcases has with rfl | ⟨i, rfl⟩
  · obtain ⟨slot, rfl⟩ := sound
    exact ⟨slot, slotOf_buffers slot, rfl⟩
  · obtain ⟨slot, rfl, -⟩ := sound
    exact ⟨slot, slotOf_buffers slot, rfl⟩

/-- At every moment no two clients have the span of one buffer, each slot marked used belongs
to one client that has its buffer or has just taken it, and there are as many of the one
as of the other. -/
theorem buffer_has_one_owner {N : Nat} {Client : Type} [DecidableEq Client] (pool : BufferPool N)
    {state : PoolState N Client} (reached : (pool.machine Client).Reachable {} state) :
    (∀ first second buffer other, (state.clients first).Has buffer → (state.clients second).Has other →
        buffer.data = other.data → first = second) ∧
      (∀ slot, state.used slot = true ↔ ∃! client, pool.slot (state.clients client) = some slot) ∧
      {slot | state.used slot = true}.ncard =
        {client | pool.slot (state.clients client) ≠ none}.ncard := by
  have owned := owned_reachable reached
  refine ⟨?_, ?_, owned.exclusive.ncard_taken⟩
  · intro first second buffer other left right same
    obtain ⟨slot, firstSlot, rfl⟩ := slot_of_has (owned.sound first) left
    obtain ⟨otherSlot, secondSlot, rfl⟩ := slot_of_has (owned.sound second) right
    obtain rfl := pool.distinct same
    exact owned.exclusive.unique first second slot firstSlot secondSlot
  · intro slot
    rw [owned.exclusive.taken_iff]
    constructor
    · rintro ⟨client, held⟩
      exact ⟨client, held, fun other alsoHeld =>
        owned.exclusive.unique other client slot alsoHeld held⟩
    · rintro ⟨client, held, -⟩
      exact ⟨client, held⟩

/-- A pool of two buffers with one client that has the first and one that looks further. -/
def twoBuffers : BufferPool 2 where
  buffers slot := slot
  distinct := Fin.val_injective

theorem one_owner_while_scanning :
    let steps : List (BufferStep Nat) :=
      [.getBuffer 0, .testAndSet 0, .getReturns 0, .getBuffer 1, .testAndSet 1]
    let state := (twoBuffers.machine Nat).exec {} steps
    {slot | state.used slot = true}.ncard =
      {client | twoBuffers.slot (state.clients client) ≠ none}.ncard := by
  intro steps state
  have reached : (twoBuffers.machine Nat).Reachable {} state :=
    ⟨steps, ⟨rfl, ⟨0, by decide, rfl⟩, ⟨0, rfl⟩, rfl, ⟨0, by decide, rfl⟩, trivial⟩, rfl⟩
  exact (buffer_has_one_owner twoBuffers reached).2.2

end CoroMultiplex.Utils
