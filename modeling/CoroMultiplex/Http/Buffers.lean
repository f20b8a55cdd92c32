import CoroMultiplex.Foundations.Table
import CoroMultiplex.Http.Reactor

/-! The table of the epoll reader, and the strings that it shares with the callers.

An entry of the table belongs to one descriptor: it is there while a call runs and
as long as calls return without a complete message, and it holds what has been
read since it was made.
-/

set_option autoImplicit false

namespace CoroMultiplex.Http

open Foundations

namespace Reactor

def uncompleted {Value : Type} : Except ErrorCode Value → Bool
  | .error (.http .uncompletedRequest) => true
  | _ => false

def absorb (fd : Int) (bytes : Bytes) : Observation → Bytes
  | .got other buf => if other = fd then bytes ++ buf else bytes
  | .returned other result => if other = fd ∧ uncompleted result = false then [] else bytes

/-- The bytes read from a descriptor since a call on it last returned anything else
than an uncompleted request. -/
def pending (fd : Int) (log : List Observation) : Bytes := log.foldl (absorb fd) []

/-- The last call on the descriptor that has returned left an uncompleted request. -/
def awaiting (fd : Int) (log : List Observation) : Bool :=
  log.foldl (fun last observation =>
    match observation with
    | .got _ _ => last
    | .returned other result => if other = fd then uncompleted result else last) false

section

variable (fd : Int) (log : List Observation)

theorem pending_concat (last : Observation) :
    pending fd (log ++ [last]) = absorb fd (pending fd log) last := by
  simp [pending]

theorem pending_got (buf : Bytes) : pending fd (log ++ [.got fd buf]) = pending fd log ++ buf := by
  simp [pending_concat, absorb]

theorem awaiting_got (other : Int) (buf : Bytes) :
    awaiting fd (log ++ [.got other buf]) = awaiting fd log := by
  simp [awaiting]

theorem awaiting_returned (result : Except ErrorCode Nat) :
    awaiting fd (log ++ [.returned fd result]) = uncompleted result := by
  simp [awaiting]

theorem pending_uncompleted :
    pending fd (log ++ [.returned fd (.error (.http .uncompletedRequest))]) = pending fd log := by
  simp [pending_concat, absorb, uncompleted]

theorem pending_returned {result : Except ErrorCode Nat} (final : uncompleted result = false) :
    pending fd (log ++ [.returned fd result]) = [] := by
  simp [pending_concat, absorb, final]

variable {fd} {other : Int} (apart : other ≠ fd)

include apart

theorem pending_other_got (buf : Bytes) :
    pending other (log ++ [.got fd buf]) = pending other log := by
  simp [pending_concat, absorb, Ne.symm apart]

theorem pending_other_returned (result : Except ErrorCode Nat) :
    pending other (log ++ [.returned fd result]) = pending other log := by
  simp [pending_concat, absorb, Ne.symm apart]

theorem awaiting_other_returned (result : Except ErrorCode Nat) :
    awaiting other (log ++ [.returned fd result]) = awaiting other log := by
  simp [awaiting, Ne.symm apart]

end

/-- The entry of one descriptor. -/
structure Own (fd : Int) (state : Reactor) : Prop where
  content : ∀ pointer, state.uncompletedRequests fd = some pointer →
    state.strings pointer = pending fd state.log ∧ (state.strings pointer).length ≤ 4096
  waiting : ∀ pointer, state.uncompletedRequests fd = some pointer →
    state.requestMessage fd = none → awaiting fd state.log = true
  absent : state.uncompletedRequests fd = none →
    pending fd state.log = [] ∧ awaiting fd state.log = false

/-- A returned string holds its message, and nobody writes to it any more. -/
structure Kept (state : Reactor) (before : List Observation) (fd : Int) (pointer : Nat) : Prop where
  allocated : pointer < state.allocated
  released : ∀ other, state.uncompletedRequests other ≠ some pointer
  content : state.strings pointer = pending fd before
  complete : crlfcrlf <:+ state.strings pointer
  fits : (state.strings pointer).length ≤ 4096

/-- What relates the entries of all descriptors and the strings given out. -/
structure Shared (state : Reactor) : Prop where
  running : ∀ fd pointer, state.requestMessage fd = some pointer →
    state.uncompletedRequests fd = some pointer
  allocated : ∀ fd pointer, state.uncompletedRequests fd = some pointer → pointer < state.allocated
  apart : ∀ fd other pointer, state.uncompletedRequests fd = some pointer →
    state.uncompletedRequests other = some pointer → fd = other
  kept : ∀ before fd pointer after, state.log = before ++ .returned fd (.ok pointer) :: after →
    state.Kept before fd pointer

structure Sound (state : Reactor) : Prop where
  shared : state.Shared
  own : ∀ fd, Own fd state

/-- An entry that a step leaves alone stays exact. -/
theorem Own.frame {self after : Reactor} {fd : Int} (own : Own fd self)
    (table : after.uncompletedRequests fd = self.uncompletedRequests fd)
    (call : after.requestMessage fd = self.requestMessage fd)
    (bytes : pending fd after.log = pending fd self.log)
    (returned : awaiting fd after.log = awaiting fd self.log)
    (strings : ∀ pointer, self.uncompletedRequests fd = some pointer →
      after.strings pointer = self.strings pointer) : Own fd after where
  content pointer entry := by
    rw [table] at entry
    rw [strings pointer entry, bytes]
    exact own.content pointer entry
  waiting pointer entry idle := by
    rw [table] at entry
    rw [call] at idle
    rw [returned]
    exact own.waiting pointer entry idle
  absent missing := by
    rw [table] at missing
    rw [bytes, returned]
    exact own.absent missing

/-- An occurrence in a longer list is the last element or an earlier occurrence. -/
theorem split_concat {log before after : List Observation} {last item : Observation}
    (split : log ++ [last] = before ++ item :: after) :
    (before = log ∧ item = last) ∨ ∃ rest, log = before ++ item :: rest := by
  cases after using List.reverseRecOn with
  | nil =>
    obtain ⟨same, single⟩ := List.append_inj' split rfl
    exact .inl ⟨same.symm, (List.cons.inj single).1.symm⟩
  | append_singleton rest final =>
    rw [← List.cons_append, ← List.append_assoc] at split
    exact .inr ⟨rest, (List.append_inj' split rfl).1⟩

theorem sound_start : Sound {} where
  shared :=
    { running := nofun
      allocated := nofun
      apart := nofun
      kept := fun before _ _ _ split => by simp at split }
  own _ := { content := nofun, waiting := nofun, absent := fun _ => ⟨rfl, rfl⟩ }

theorem Kept.frame {self after : Reactor} {before : List Observation} {fd : Int} {pointer : Nat}
    (kept : self.Kept before fd pointer) (allocated : self.allocated ≤ after.allocated)
    (released : ∀ other, after.uncompletedRequests other ≠ some pointer)
    (same : after.strings pointer = self.strings pointer) : after.Kept before fd pointer where
  allocated := Nat.lt_of_lt_of_le kept.allocated allocated
  released := released
  content := same.trans kept.content
  complete := same.symm ▸ kept.complete
  fits := same.symm ▸ kept.fits

section

variable {self : Reactor} {fd : Int}

theorem sound_resumed (sound : Sound self) {buffer : Nat}
    (entry : self.uncompletedRequests fd = some buffer) :
    Sound { self with
      requestMessage := Function.update self.requestMessage fd (some buffer) } where
  shared :=
    { running := by
        intro other pointer running
        rcases Table.set_cases running with ⟨rfl, rfl⟩ | ⟨_, before⟩
        · exact entry
        · exact sound.shared.running other pointer before
      allocated := sound.shared.allocated
      apart := sound.shared.apart
      kept := fun before other pointer after split =>
        have kept := sound.shared.kept before other pointer after split
        kept.frame (Nat.le_refl _) kept.released rfl }
  own other := by
    by_cases here : other = fd
    · subst here
      exact
        { content := (sound.own other).content
          waiting := fun _ _ idle => by simp at idle
          absent := (sound.own other).absent }
    · exact (sound.own other).frame rfl (Function.update_of_ne here _ _) rfl rfl fun _ _ => rfl

/-- The address of a new string is neither in the table nor given out. -/
theorem sound_emplaced (sound : Sound self) (entry : self.uncompletedRequests fd = none) :
    Sound {
      strings := Function.update self.strings self.allocated []
      allocated := self.allocated + 1
      uncompletedRequests := Function.update self.uncompletedRequests fd (some self.allocated)
      requestMessage := Function.update self.requestMessage fd (some self.allocated)
      log := self.log } := by
  have fresh : ∀ other, self.uncompletedRequests other ≠ some self.allocated :=
    fun other taken => Nat.lt_irrefl _ (sound.shared.allocated other _ taken)
  have kept : ∀ pointer, pointer ≠ self.allocated →
      Function.update self.strings self.allocated [] pointer = self.strings pointer :=
    fun pointer old => Function.update_of_ne old _ _
  refine ⟨⟨?_, ?_, Table.Apart.set sound.shared.apart fd fresh, ?_⟩, ?_⟩
  · intro other pointer running
    rcases Table.set_cases running with ⟨rfl, rfl⟩ | ⟨apart, before⟩
    · exact Function.update_self _ _ _
    · exact (Function.update_of_ne apart _ _).trans (sound.shared.running other pointer before)
  · intro other pointer taken
    rcases Table.set_cases taken with ⟨_, rfl⟩ | ⟨_, before⟩
    · exact Nat.lt_succ_self _
    · exact Nat.lt_succ_of_lt (sound.shared.allocated other pointer before)
  · intro before other pointer after split
    have old := sound.shared.kept before other pointer after split
    have earlier : pointer ≠ self.allocated := Nat.ne_of_lt old.allocated
    refine old.frame (Nat.le_succ _) (fun another taken => ?_) (kept pointer earlier)
    rcases Table.set_cases taken with ⟨_, same⟩ | ⟨_, taken⟩
    · exact earlier same.symm
    · exact old.released another taken
  · intro other
    by_cases here : other = fd
    · subst here
      refine ⟨fun pointer taken => ?_, fun _ _ idle => by simp at idle, fun missing => by simp at missing⟩
      simp only [Function.update_self, Option.some.injEq] at taken
      simp only [← taken, Function.update_self]
      exact ⟨((sound.own other).absent entry).1.symm, Nat.zero_le _⟩
    · refine (sound.own other).frame (Function.update_of_ne here _ _)
        (Function.update_of_ne here _ _) rfl rfl fun pointer taken => kept pointer ?_
      rintro rfl
      exact fresh other taken

theorem sound_call (sound : Sound self) : Sound (self.call fd) := by
  cases entry : self.uncompletedRequests fd with
  | some buffer =>
    simp only [call, getBuffer, entry]
    exact sound_resumed sound entry
  | none =>
    simp only [call, getBuffer, entry]
    exact sound_emplaced sound entry

theorem shared_got (shared : self.Shared) (buf : Bytes) :
    (self.observe [.got fd buf]).Shared where
  running := shared.running
  allocated := shared.allocated
  apart := shared.apart
  kept before other pointer after split := by
    rcases split_concat split with ⟨_, impossible⟩ | ⟨rest, earlier⟩
    · cases impossible
    · have old := shared.kept before other pointer rest earlier
      exact old.frame (Nat.le_refl _) old.released rfl

theorem own_got {other : Int} (own : Own other self) (apart : other ≠ fd) (buf : Bytes) :
    Own other (self.observe [.got fd buf]) :=
  own.frame rfl rfl (pending_other_got self.log apart buf) (awaiting_got other self.log fd buf)
    fun _ _ => rfl

theorem sound_appended (sound : Sound self) {pointer : Nat}
    (running : self.requestMessage fd = some pointer) {buf : Bytes}
    (fits : (self.strings pointer).length + buf.length ≤ 4096) :
    Sound ((self.observe [.got fd buf]).append pointer buf) := by
  have entry := sound.shared.running fd pointer running
  have shared := @shared_got self fd sound.shared buf
  refine ⟨⟨shared.running, shared.allocated, shared.apart, ?_⟩, fun other => ?_⟩
  · intro before other given after split
    have old := shared.kept before other given after split
    have foreign : given ≠ pointer := by
      rintro rfl
      exact old.released fd entry
    exact old.frame (Nat.le_refl _) old.released (Function.update_of_ne foreign _ _)
  · by_cases here : other = fd
    · subst here
      obtain ⟨content, _⟩ := (sound.own other).content pointer entry
      refine ⟨fun given taken => ?_, fun _ _ idle => ?_, fun missing => ?_⟩
      · obtain rfl := Option.some.inj (entry.symm.trans taken)
        simp only [append, observe, Function.update_self, pending_got, content, true_and,
          List.length_append]
        rwa [content] at fits
      · exact absurd (running.symm.trans idle) (by simp)
      · exact absurd (entry.symm.trans missing) (by simp)
    · refine (own_got (sound.own other) here buf).frame rfl rfl rfl rfl fun given taken => ?_
      refine Function.update_of_ne ?_ _ _
      rintro rfl
      exact here (sound.shared.apart other fd given taken entry)

theorem sound_suspended (sound : Sound self) {pointer : Nat}
    (running : self.requestMessage fd = some pointer) :
    Sound (self.returning fd (.error (.http .uncompletedRequest))) := by
  have entry := sound.shared.running fd pointer running
  refine ⟨⟨?_, sound.shared.allocated, sound.shared.apart, ?_⟩, fun other => ?_⟩
  · intro other given stillRunning
    exact sound.shared.running other given (Table.erased_cases stillRunning).2
  · intro before other given after split
    rcases split_concat split with ⟨_, impossible⟩ | ⟨rest, earlier⟩
    · cases impossible
    · have old := sound.shared.kept before other given rest earlier
      exact old.frame (Nat.le_refl _) old.released rfl
  · by_cases here : other = fd
    · subst here
      refine ⟨fun given taken => ?_, fun _ _ _ => ?_, fun missing => ?_⟩
      · have old := (sound.own other).content given taken
        simp only [returning, observe, pending_uncompleted]
        exact old
      · simp only [returning, observe, awaiting_returned]
        rfl
      · exact absurd (entry.symm.trans missing) (by simp)
    · exact (sound.own other).frame rfl (Function.update_of_ne here _ _)
        (pending_other_returned self.log here _) (awaiting_other_returned self.log here _)
        fun _ _ => rfl

/-- A call that ends gives its entry up, and with a message its string to the caller. -/
theorem sound_finished (shared : self.Shared) (own : ∀ other, other ≠ fd → Own other self)
    {pointer : Nat} (running : self.requestMessage fd = some pointer)
    {result : Except ErrorCode Nat} (final : uncompleted result = false)
    (message : ∀ given, result = .ok given → given = pointer ∧
      self.strings pointer = pending fd self.log ∧ crlfcrlf <:+ self.strings pointer ∧
        (self.strings pointer).length ≤ 4096) :
    Sound (self.finish fd result) := by
  have entry := shared.running fd pointer running
  refine ⟨⟨?_, ?_, Table.Apart.erase shared.apart fd, ?_⟩, fun other => ?_⟩
  · intro other given stillRunning
    obtain ⟨apart, before⟩ := Table.erased_cases stillRunning
    exact (Function.update_of_ne apart _ _).trans (shared.running other given before)
  · intro other given taken
    exact shared.allocated other given (Table.erased_cases taken).2
  · intro before other given after split
    rcases split_concat split with ⟨rfl, same⟩ | ⟨rest, earlier⟩
    · cases same
      obtain ⟨rfl, content, complete, fits⟩ := message given rfl
      refine ⟨shared.allocated fd given entry, fun another taken => ?_, content, complete, fits⟩
      obtain ⟨foreign, taken⟩ := Table.erased_cases taken
      exact foreign (shared.apart another fd given taken entry)
    · have old := shared.kept before other given rest earlier
      exact old.frame (Nat.le_refl _)
        (fun another taken => old.released another (Table.erased_cases taken).2) rfl
  · by_cases here : other = fd
    · subst here
      refine ⟨fun given taken => absurd rfl (Table.erased_cases taken).1,
        fun given taken _ => absurd rfl (Table.erased_cases taken).1, fun _ => ?_⟩
      simp only [finish, returning, observe, eraseBuffer]
      exact ⟨pending_returned other self.log final, (awaiting_returned other self.log result).trans final⟩
    · exact (own other here).frame (Function.update_of_ne here _ _) (Function.update_of_ne here _ _)
        (pending_other_returned self.log here _) (awaiting_other_returned self.log here _)
        fun _ _ => rfl

end

theorem sound_next {self : Reactor} (sound : Sound self) (event : Event)
    (enabled : machine.enabled self event) : Sound (machine.next self event) := by
  cases event with
  | call fd => exact sound_call sound
  | read fd outcome =>
    cases running : self.requestMessage fd with
    | none => exact absurd running enabled
    | some pointer =>
      have entry := sound.shared.running fd pointer running
      obtain ⟨content, fits⟩ := (sound.own fd).content pointer entry
      have others : ∀ buf other, other ≠ fd → Own other (self.observe [.got fd buf]) :=
        fun buf other apart => own_got (sound.own other) apart buf
      have iteration := next_iteration running outcome
      change Sound (self.next (.read fd outcome))
      generalize self.next (.read fd outcome) = after at iteration ⊢
      cases iteration with
      | appended buf _ _ bound => exact sound_appended sound running bound
      | ended _ => exact sound_finished (shared_got sound.shared []) (others []) running rfl nofun
      | tooLong buf _ _ _ =>
        exact sound_finished (shared_got sound.shared buf) (others buf) running rfl nofun
      | completed _ _ _ complete =>
        refine sound_finished sound.shared (fun other _ => sound.own other) running rfl ?_
        intro given same
        cases same
        exact ⟨rfl, content, complete, fits⟩
      | suspended _ _ _ _ => exact sound_suspended sound running
      | failed _ _ _ =>
        exact sound_finished sound.shared (fun other _ => sound.own other) running rfl nofun
      | invalid _ _ =>
        exact sound_finished sound.shared (fun other _ => sound.own other) running rfl nofun

theorem sound_of_reachable {state : Reactor} (reached : machine.Reachable {} state) : Sound state :=
  reached.holds Sound sound_start fun _ event sound enabled => sound_next sound event enabled

end Reactor

end CoroMultiplex.Http
