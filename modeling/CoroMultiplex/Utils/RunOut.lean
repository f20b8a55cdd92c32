import CoroMultiplex.Utils.BufferPool

/-! What a scan that finds no buffer has seen.

The slots are tested one after the other and a slot may be given back behind the scan,
so the scan sees each slot in use at its own moment.
-/

set_option autoImplicit false

namespace CoroMultiplex.Utils

open Foundations

namespace BufferPool

variable {N : Nat} {Client : Type} [DecidableEq Client] (pool : BufferPool N)

/-- The slot that a step clears. -/
def clears (self : PoolState N Client) : BufferStep Client → Option (Fin N)
  | .compare client =>
    match self.clients client with
    | .returning buffer i =>
      if inside : i < N then
        if pool.buffers ⟨i, inside⟩ = buffer.data then some ⟨i, inside⟩ else none
      else none
    | _ => none
  | _ => none

/-- What one step does to the flags and to the clients. -/
inductive Advances (self : PoolState N Client) : BufferStep Client → PoolState N Client → Prop
  | rests {step : BufferStep Client} : Advances self step self
  | begins (client : Client) : Advances self (.getBuffer client)
      { self with clients := Function.update self.clients client (.scanning 0) }
  | goesOn (client : Client) (slot : Fin N) (scanning : self.clients client = .scanning slot)
      (used : self.used slot = true) : Advances self (.testAndSet client)
      { self with clients := Function.update self.clients client (.scanning (slot + 1)) }
  | takes (client : Client) (slot : Fin N) : Advances self (.testAndSet client) {
      used := Function.update self.used slot true
      clients := Function.update self.clients client (.taken slot) }
  | moves {step : BufferStep Client} (client : Client) (phase : Phase N)
      (leaves : ∀ i, phase ≠ .scanning i) : Advances self step
      { self with clients := Function.update self.clients client phase }
  | gives {step : BufferStep Client} (client : Client) (slot : Fin N)
      (cleared : pool.clears self step = some slot) : Advances self step {
      used := Function.update self.used slot false
      clients := Function.update self.clients client .idle }

variable {pool} {self : PoolState N Client} {client : Client} {step : BufferStep Client}

theorem advances (self : PoolState N Client) (step : BufferStep Client) :
    pool.Advances self step ((pool.machine Client).next self step) := by
  cases step with
  | getBuffer caller => exact .begins caller
  | testAndSet caller =>
    change pool.Advances self _ (testAndSet self caller)
    cases place : self.clients caller with
    | scanning i =>
      simp only [testAndSet, place]
      split
      · rename_i inside
        split
        · rename_i used
          exact .goesOn caller ⟨i, inside⟩ place used
        · exact .takes caller ⟨i, inside⟩
      · exact .rests
    | idle | taken | holding | returning =>
      simp only [testAndSet, place]
      exact .rests
  | getReturns caller =>
    change pool.Advances self _ (pool.getReturns self caller)
    unfold getReturns
    split
    · exact .moves caller _ (fun _ same => by cases same)
    · exact .rests
  | throws caller => exact .moves caller .idle (fun _ same => by cases same)
  | returnBuffer caller =>
    change pool.Advances self _ (returnBuffer self caller)
    unfold returnBuffer
    split
    · exact .moves caller _ (fun _ same => by cases same)
    · exact .rests
  | compare caller =>
    change pool.Advances self _ (pool.compare self caller)
    cases place : self.clients caller with
    | returning buffer i =>
      simp only [compare, place]
      split
      · rename_i inside
        split
        · rename_i same
          exact .gives caller ⟨i, inside⟩ (by simp [clears, place, inside, same])
        · exact .moves caller _ (fun _ same => by cases same)
      · exact .rests
    | idle | scanning | taken | holding =>
      simp only [compare, place]
      exact .rests
  | returnReturns caller => exact .moves caller .idle (fun _ same => by cases same)

/-- A slot in use stays so until it is cleared. -/
theorem used_step {slot : Fin N} (used : self.used slot = true) (kept : pool.clears self step ≠ some slot) :
    ((pool.machine Client).next self step).used slot = true := by
  have advance := @advances N Client _ pool self step
  generalize (pool.machine Client).next self step = after at advance ⊢
  cases advance with
  | rests | begins | goesOn | moves => exact used
  | takes caller taken =>
    change Function.update self.used taken true slot = true
    by_cases here : slot = taken
    · rw [here, Function.update_self]
    · rw [Function.update_of_ne here]
      exact used
  | gives caller given cleared =>
    have apart : slot ≠ given := fun here => kept (here ▸ cleared)
    change Function.update self.used given false slot = true
    rw [Function.update_of_ne apart]
    exact used

/-- A client is further in its scan after a test that found the slot in use. -/
inductive Scanned (self : PoolState N Client) (client : Client) : BufferStep Client → Nat → Prop
  | waits {step : BufferStep Client} {i : Nat} (scanning : self.clients client = .scanning i) :
      Scanned self client step i
  | tests (slot : Fin N) (scanning : self.clients client = .scanning slot)
      (used : self.used slot = true) : Scanned self client (.testAndSet client) (slot + 1)

/-- A client that goes on to another place than into a scan is not scanning. -/
theorem scanned_of_update {other : Client} {phase : Phase N} {k : Nat}
    (leaves : ∀ i, phase ≠ .scanning i)
    (scanning : Function.update self.clients other phase client = .scanning k) :
    Scanned self client step k := by
  by_cases here : client = other
  · rw [here, Function.update_self] at scanning
    exact absurd scanning (leaves k)
  · rw [Function.update_of_ne here] at scanning
    exact .waits scanning

/-- A scan is begun by a call of `getBuffer` and goes on by its own tests only. -/
theorem scanned_step {k : Nat} (other : step ≠ .getBuffer client)
    (scanning : ((pool.machine Client).next self step).clients client = .scanning k) :
    Scanned self client step k := by
  have advance := @advances N Client _ pool self step
  generalize (pool.machine Client).next self step = after at advance scanning
  cases advance with
  | rests => exact .waits scanning
  | begins caller =>
    have apart : client ≠ caller := fun same => other (by rw [same])
    change Function.update self.clients caller _ client = _ at scanning
    rw [Function.update_of_ne apart] at scanning
    exact .waits scanning
  | goesOn caller slot before used =>
    change Function.update self.clients caller _ client = _ at scanning
    by_cases here : client = caller
    · subst here
      rw [Function.update_self, Phase.scanning.injEq] at scanning
      exact scanning ▸ .tests slot before used
    · rw [Function.update_of_ne here] at scanning
      exact .waits scanning
  | takes | gives => exact scanned_of_update (fun _ same => by cases same) scanning
  | moves caller phase leaves => exact scanned_of_update leaves scanning

variable (pool) in
/-- The state some steps after a call of `getBuffer` has begun. -/
abbrev since (start : PoolState N Client) (client : Client) (seen : List (BufferStep Client)) :
    PoolState N Client := (pool.machine Client).exec start (.getBuffer client :: seen)

variable (pool) in
/-- A step clears a slot that the scan of a client has passed. -/
def ClearsBehind (self : PoolState N Client) (client : Client) (step : BufferStep Client) : Prop :=
  ∃ (slot : Fin N) (i : Nat), self.clients client = .scanning i ∧ slot < i ∧
    pool.clears self step = some slot

theorem since_snoc (start : PoolState N Client) (seen : List (BufferStep Client)) :
    pool.since start client (seen ++ [step]) =
      (pool.machine Client).next (pool.since start client seen) step := by
  rw [since, ← List.cons_append, Machine.exec_append]
  rfl

theorem not_behind_start (start : PoolState N Client) {k : Nat}
    (scanning : (pool.since start client []).clients client = .scanning k) (slot : Fin N) : ¬ slot < k := by
  change Function.update start.clients client (.scanning 0) client = .scanning k at scanning
  rw [Function.update_self, Phase.scanning.injEq] at scanning
  omega

variable (pool) in
/-- The call has tested a slot and found it in use. -/
def FoundUsed (start : PoolState N Client) (client : Client) (during : List (BufferStep Client))
    (slot : Fin N) : Prop :=
  ∃ seen rest, during = seen ++ .testAndSet client :: rest ∧
    (pool.since start client seen).clients client = .scanning slot ∧
    (pool.since start client seen).used slot = true

theorem FoundUsed.snoc {start : PoolState N Client} {during : List (BufferStep Client)} {slot : Fin N}
    (found : pool.FoundUsed start client during slot) :
    pool.FoundUsed start client (during ++ [step]) slot := by
  obtain ⟨seen, rest, rfl, here⟩ := found
  exact ⟨seen, rest ++ [step], by simp, here⟩

/-- Each slot behind a scan was found in use by a test of its own. -/
theorem found_behind {start : PoolState N Client} {during : List (BufferStep Client)}
    (other : .getBuffer client ∉ during) {k : Nat}
    (scanning : (pool.since start client during).clients client = .scanning k) (slot : Fin N)
    (below : slot < k) : pool.FoundUsed start client during slot := by
  induction during using List.reverseRecOn generalizing k with
  | nil => exact absurd below (not_behind_start start scanning slot)
  | append_singleton during step ih =>
    rw [List.mem_append, not_or, List.mem_singleton] at other
    rw [since_snoc] at scanning
    cases scanned_step (Ne.symm other.2) scanning with
    | waits before => exact (ih other.1 before below).snoc
    | tests last before used =>
      rcases Nat.lt_succ_iff_lt_or_eq.mp below with behind | here
      · exact (ih other.1 before behind).snoc
      · obtain rfl := Fin.ext here
        exact ⟨during, [], rfl, before, used⟩

/-- Without a slot cleared behind the scan, all that it has passed is still in use. -/
theorem used_behind {start : PoolState N Client} {during : List (BufferStep Client)}
    (other : .getBuffer client ∉ during)
    (kept : ∀ seen step rest, during = seen ++ step :: rest →
      ¬ pool.ClearsBehind (pool.since start client seen) client step) {k : Nat}
    (scanning : (pool.since start client during).clients client = .scanning k) (slot : Fin N)
    (below : slot < k) : (pool.since start client during).used slot = true := by
  induction during using List.reverseRecOn generalizing k with
  | nil => exact absurd below (not_behind_start start scanning slot)
  | append_singleton during step ih =>
    rw [List.mem_append, not_or, List.mem_singleton] at other
    rw [since_snoc] at scanning ⊢
    have before : ∀ {i}, (pool.since start client during).clients client = .scanning i → slot < i →
        (pool.since start client during).used slot = true :=
      ih other.1 fun seen earlier rest same => kept seen earlier (rest ++ [step]) (by simp [same])
    have notCleared : ∀ {i}, (pool.since start client during).clients client = .scanning i → slot < i →
        pool.clears (pool.since start client during) step ≠ some slot :=
      fun scanned behind clears => kept during step [] rfl ⟨slot, _, scanned, behind, clears⟩
    cases scanned_step (Ne.symm other.2) scanning with
    | waits scanned => exact used_step (before scanned below) (notCleared scanned below)
    | tests last scanned used =>
      rcases Nat.lt_succ_iff_lt_or_eq.mp below with behind | here
      · exact used_step (before scanned behind) (notCleared scanned behind)
      · obtain rfl := Fin.ext here
        exact used_step used (by simp [clears])

end BufferPool

/-- If a call of `getBuffer` throws, it has found each slot in use, at the moment of the test of
that slot; and if no slot behind the scan was cleared meanwhile, all are in use at the end. -/
theorem run_out_slot_by_slot {N : Nat} {Client : Type} [DecidableEq Client] (pool : BufferPool N)
    (start : PoolState N Client) (client : Client) (during : List (BufferStep Client))
    (call : (pool.machine Client).Allowed start (.getBuffer client :: (during ++ [.throws client])))
    (own : .getBuffer client ∉ during) :
    (∀ slot, pool.FoundUsed start client during slot) ∧
      ((∀ seen step rest, during = seen ++ step :: rest →
          ¬ pool.ClearsBehind (pool.since start client seen) client step) →
        ∀ slot, (pool.since start client during).used slot = true) := by
  have ends : (pool.since start client during).clients client = .scanning N := by
    rw [← List.cons_append, Machine.allowed_append] at call
    exact call.2.1
  exact ⟨fun slot => BufferPool.found_behind own ends slot slot.isLt,
    fun kept slot => BufferPool.used_behind own kept ends slot slot.isLt⟩

/-- Two clients have a buffer each while a third one scans. -/
theorem third_client_runs_out :
    let start := (twoBuffers.machine Nat).exec {}
      [.getBuffer 0, .testAndSet 0, .getBuffer 1, .testAndSet 1, .testAndSet 1]
    ∀ slot, (twoBuffers.since start 2 [.testAndSet 2, .testAndSet 2]).used slot = true := by
  intro start
  have call : (twoBuffers.machine Nat).Allowed start
      (.getBuffer 2 :: ([.testAndSet 2, .testAndSet 2] ++ [.throws 2])) :=
    ⟨rfl, ⟨0, by decide, rfl⟩, ⟨1, by decide, rfl⟩, rfl, trivial⟩
  refine (run_out_slot_by_slot twoBuffers start 2 _ call (by simp)).2 ?_
  rintro seen step rest same ⟨slot, i, -, -, clears⟩
  have member : step ∈ [BufferStep.testAndSet 2, .testAndSet 2] := by rw [same]; simp
  obtain rfl : step = .testAndSet 2 := by simpa using member
  cases clears

/-- A slot is given back behind the scan and the next one taken before it: the call throws,
and at no moment from before it to after it were both in use. -/
theorem run_out_without_shortage :
    let before : List (BufferStep Nat) :=
      [.getBuffer 0, .testAndSet 0, .getReturns 0, .getBuffer 1, .testAndSet 1]
    let call : List (BufferStep Nat) := [.getBuffer 2, .testAndSet 2, .returnBuffer 0, .compare 0,
      .testAndSet 1, .testAndSet 2, .throws 2]
    (twoBuffers.machine Nat).Allowed {} (before ++ call) ∧
      ∀ moment ≤ call.length,
        ¬ ∀ slot, ((twoBuffers.machine Nat).exec {} (before ++ call.take moment)).used slot = true := by
  intro before call
  refine ⟨⟨rfl, ⟨0, by decide, rfl⟩, ⟨_, rfl⟩, rfl, ⟨0, by decide, rfl⟩, rfl, ⟨0, by decide, rfl⟩,
    ⟨_, rfl⟩, ⟨_, 0, by decide, rfl⟩, ⟨1, by decide, rfl⟩, ⟨1, by decide, rfl⟩, rfl, trivial⟩, ?_⟩
  decide

end CoroMultiplex.Utils
