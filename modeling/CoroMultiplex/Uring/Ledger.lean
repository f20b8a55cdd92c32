import CoroMultiplex.Uring.Flight
import Mathlib.Data.List.Nodup

/-! The books of a run: which awaits were started, what became of each of them, and
which completions were posted for it.
-/

set_option autoImplicit false

namespace CoroMultiplex.Uring

open Foundations Http

structure Books where
  control : Handle → Control
  kernel : List Sqe
  posted : List Cqe
  started : List Await
  granted : List Await
  refusals : List Await
  results : List (Await × Except ErrorCode Int)

def RingState.books (s : RingState) : Books where
  control := s.control
  kernel := s.kernel
  posted := s.posted
  started := s.started
  granted := s.granted
  refusals := s.refusals
  results := s.results

/-- What one step may write into the books. -/
inductive Books.Entry (b : Books) : Books → Prop
  | nothing : Entry b b
  | starts (a : Await) (running : b.control a.handle = .running)
      (number : a.number = b.started.length) :
      Entry b { b with
        control := Function.update b.control a.handle (.suspending a)
        started := b.started ++ [a] }
  | grants (a : Await) (suspending : b.control a.handle = .suspending a) :
      Entry b { b with
        control := Function.update b.control a.handle (.suspended a)
        kernel := b.kernel ++ [a.sqe]
        granted := b.granted ++ [a] }
  | refuses (a : Await) (suspending : b.control a.handle = .suspending a) :
      Entry b { b with
        control := Function.update b.control a.handle (.refused a)
        refusals := b.refusals ++ [a] }
  | goesOn (a : Await) (refused : b.control a.handle = .refused a)
      (later : Control) (awake : later.await? = none) :
      Entry b { b with
        control := Function.update b.control a.handle later
        results := b.results ++ [(a, .error .sqeBusy)] }
  | resumes (c : Cqe) (suspended : b.control c.owner.handle = .suspended c.owner)
      (member : c ∈ b.posted) (final : c.more = false) (later : Control)
      (awake : later.await? = none) :
      Entry b { b with
        control := Function.update b.control c.owner.handle later
        results := b.results ++ [(c.owner, returned c.res)] }
  | posts (a : Await) (member : a.sqe ∈ b.kernel) (c : Cqe) (owner : c.owner = a)
      (serial : c.serial = b.posted.length)
      (follows : c.more = true → a.operation.multishot = true ∧ 0 ≤ c.res) :
      Entry b { b with
        kernel := if c.more then b.kernel else b.kernel.erase a.sqe
        posted := b.posted ++ [c] }

namespace RingState

/-- An end of an await is written into the books with the value its user data holds. -/
theorem books_awaitResume (acceptor : Handle → Option Handler) {s : RingState} {a : Await}
    {value : Except ErrorCode Int} (holds : Holds s.memory a value) :
    ∃ later : Control, later.await? = none ∧ (s.awaitResume acceptor a).books = { s.books with
      control := Function.update s.control a.handle later
      results := s.results ++ [(a, value)] } := by
  rw [Holds] at holds
  refine ⟨RingState.afterwards acceptor a.handle value, ?_, ?_⟩
  · rcases RingState.afterwards_cases acceptor a.handle value with same | same <;> rw [same] <;> rfl
  · rw [RingState.awaitResume, holds]
    rfl

theorem books_setReturn (s : RingState) (address : Address) (value : Except ErrorCode Int) :
    (s.setReturn address value).books = s.books := by
  unfold RingState.setReturn
  cases s.memory address <;> rfl

theorem books_addCaller (s : RingState) (c : Cqe) : (s.addCaller c).books = s.books := by
  unfold RingState.addCaller
  cases s.memory c.userData <;> rfl

theorem books_addHandler (s : RingState) (c : Cqe) : (s.addHandler c).books = s.books := by
  unfold RingState.addHandler
  cases (s.memory c.userData).bind UserData.multishotHandler <;> rfl

theorem books_cqeSeen (s : RingState) : s.cqeSeen.books = s.books := by
  rw [books, posted_cqeSeen]
  rfl

theorem books_complete (s : RingState) (sqe : Sqe) (res : Int) (more : Bool) :
    (s.complete sqe res more).books = { s.books with
      kernel := if more then s.kernel else s.kernel.erase sqe
      posted := s.posted ++ [⟨sqe.userData, res, more, sqe.owner, s.posted.length⟩] } := by
  have posted := s.posted_complete sqe res more
  simp only [books, posted]
  rfl

theorem books_reaper (s : RingState) (reaper : ReapPc) :
    ({ s with reaper := reaper } : RingState).books = s.books := rfl

/-- The reaper writes nothing into the books. -/
theorem books_reap (s : RingState) : s.reap.books = s.books := by
  cases place : s.reaper with
  | peek | thrown => simp only [RingState.reap, place]
  | yielded =>
    simp only [RingState.reap, place]
    rfl
  | store c =>
    simp only [RingState.reap, place, books_reaper]
    exact s.books_setReturn ..
  | dispatch c =>
    simp only [RingState.reap, place]
    cases s.memory c.userData with
    | none => rfl
    | some caller =>
      simp only
      split
      · exact s.books_addCaller c
      · split
        · exact s.books_addHandler c
        · rfl
  | last c =>
    simp only [RingState.reap, place]
    split
    · exact s.books_addCaller c
    · rfl
  | seen c =>
    simp only [RingState.reap, place, books_reaper]
    exact s.books_cqeSeen

theorem books_peek (s : RingState) (outcome : Peek) : (s.peek outcome).books = s.books := by
  cases outcome with
  | again held =>
    cases held with
    | false => rfl
    | true => exact s.books_cqeSeen
  | failed errno | nothing => rfl
  | entry =>
    unfold RingState.peek
    cases s.cq.head? <;> rfl

end RingState

/-- Every step makes one entry in the books. -/
theorem Sound.entry {s : RingState} (sound : Sound s) {acceptor : Handle → Option Handler}
    {event : Event} (enabled : Enabled acceptor s event) :
    s.books.Entry (next acceptor s event).books := by
  cases event with
  | await handle address operation =>
    exact .starts { number := s.started.length, handle, address, operation } enabled.1 rfl
  | prep a free =>
    cases free with
    | true => exact .grants a enabled
    | false =>
      have stored := s.books_setReturn a.address (.error .sqeBusy)
      have entry := Books.Entry.refuses (b := s.books) a enabled
      rw [← stored] at entry ⊢
      exact entry
  | suspendReturns a => exact .nothing
  | goOn a =>
    have stage := sound.staged a.handle
    rw [Staged, enabled] at stage
    obtain ⟨later, awake, same⟩ := RingState.books_awaitResume acceptor stage.of_refused
    rw [next, same]
    exact Books.Entry.goesOn (b := s.books) a enabled later awake
  | complete sqe res more =>
    obtain ⟨_, shape, _⟩ := sound.of_kernel enabled.1
    have member : sqe.owner.sqe ∈ s.kernel := shape ▸ enabled.1
    have entry := Books.Entry.posts (b := s.books) sqe.owner member
      ⟨sqe.userData, res, more, sqe.owner, s.posted.length⟩ rfl rfl fun follows => by
        obtain ⟨shot, positive⟩ := enabled.2 follows
        rw [shape] at shot
        exact ⟨shot, positive⟩
    rw [next, s.books_complete]
    rw [← shape] at entry
    exact entry
  | peek outcome =>
    rw [next, s.books_peek]
    exact .nothing
  | reap =>
    rw [next, s.books_reap]
    exact .nothing
  | resume task =>
    cases task with
    | handler => exact .nothing
    | coroutine handle c =>
      obtain ⟨rfl, suspended, final, member, holds, _⟩ := sound.of_pool enabled
      obtain ⟨later, awake, same⟩ := @RingState.books_awaitResume acceptor
        { s with pool := s.pool.erase (.coroutine c.owner.handle c) } c.owner _ holds
      simp only [next, suspended]
      rw [same]
      exact Books.Entry.resumes (b := s.books) c suspended member final later awake

theorem returned_ne_sqeBusy (res : Int) : returned res ≠ .error .sqeBusy := by
  unfold returned
  split <;> simp [ErrorCode.sqeBusy]

/-- Items that bear their positions are below their number. -/
theorem numbered_lt {α : Type} {number : α → Nat} {items : List α}
    (numbered : items.map number = List.range items.length) {item : α} (member : item ∈ items) :
    number item < items.length := by
  have listed := List.mem_map_of_mem (f := number) member
  rwa [numbered, List.mem_range] at listed

theorem numbered_append {α : Type} {number : α → Nat} {items : List α}
    (numbered : items.map number = List.range items.length) {item : α}
    (here : number item = items.length) :
    (items ++ [item]).map number = List.range (items ++ [item]).length := by
  rw [List.map_append, numbered, List.length_append, List.length_singleton, List.range_succ, ← here]
  rfl

/-- What the books say about every await, whatever the order of the entries. -/
structure Balanced (b : Books) : Prop where
  numbers : b.started.map Await.number = List.range b.started.length
  settled : ∀ a, b.started.count a = b.granted.count a + b.refusals.count a +
    if b.control a.handle = .suspending a then 1 else 0
  ended : ∀ a, b.started.count a = b.results.countP (·.1 = a) +
    if (b.control a.handle).await? = some a then 1 else 0
  refused : ∀ a, b.refusals.count a = b.results.count (a, .error .sqeBusy) +
    if b.control a.handle = .refused a then 1 else 0
  landed : ∀ a, b.granted.count a = b.kernel.countP (·.owner = a) +
    b.posted.countP (fun c => c.owner = a ∧ c.more = false)
  serials : b.posted.map Cqe.serial = List.range b.posted.length
  owned : ∀ c ∈ b.posted, c.owner ∈ b.granted
  follows : ∀ c ∈ b.posted, c.more = true → c.owner.operation.multishot = true ∧ 0 ≤ c.res
  -- behind a completion without more to follow there is none of the same await
  order : ∀ c ∈ b.posted, ∀ d ∈ b.posted, c.owner = d.owner → c.more = false → d.serial ≤ c.serial
  answered : ∀ a value, (a, value) ∈ b.results → value ≠ .error .sqeBusy →
    ∃ c ∈ b.posted, c.owner = a ∧ c.more = false ∧ value = returned c.res
  latest : ∀ a ∈ b.started, (b.control a.handle).await? = some a →
    ∀ other ∈ b.started, other.handle = a.handle → other.number ≤ a.number

namespace Balanced

variable {b later : Books}

theorem started_once (balanced : Balanced b) (a : Await) : b.started.count a ≤ 1 := by
  have numbers : (b.started.map Await.number).Nodup := balanced.numbers ▸ List.nodup_range
  exact List.nodup_iff_count.mp (List.Nodup.of_map Await.number numbers) a

theorem granted_once (balanced : Balanced b) (a : Await) : b.granted.count a ≤ 1 := by
  have once := balanced.started_once a
  have settled := balanced.settled a
  omega

theorem start (control : Handle → Control) (running : ∀ h, control h = .running) :
    Balanced ⟨control, [], [], [], [], [], []⟩ where
  numbers := rfl
  settled a := by simp [running]
  ended a := by simp [running, Control.await?]
  refused a := by simp [running]
  landed a := rfl
  serials := rfl
  owned c member := absurd member List.not_mem_nil
  follows c member := absurd member List.not_mem_nil
  order c member := absurd member List.not_mem_nil
  answered a value member := absurd member List.not_mem_nil
  latest a member := absurd member List.not_mem_nil

theorem settled_entry (balanced : Balanced b) (entry : b.Entry later) (a : Await) :
    later.started.count a = later.granted.count a + later.refusals.count a +
      if later.control a.handle = .suspending a then 1 else 0 := by
  have before := balanced.settled a
  cases entry with
  | nothing | posts => exact before
  | starts | grants | refuses | goesOn | resumes =>
    simp only [List.count_append, List.count_singleton, Function.update_apply]
    grind [Control.await?]

theorem ended_entry (balanced : Balanced b) (entry : b.Entry later) (a : Await) :
    later.started.count a = later.results.countP (·.1 = a) +
      if (later.control a.handle).await? = some a then 1 else 0 := by
  have before := balanced.ended a
  cases entry with
  | nothing | posts => exact before
  | starts | grants | refuses | goesOn | resumes =>
    simp only [List.count_append, List.count_singleton, List.countP_append, List.countP_singleton,
      Function.update_apply]
    grind [Control.await?]

theorem refused_entry (balanced : Balanced b) (entry : b.Entry later) (a : Await) :
    later.refusals.count a = later.results.count (a, .error .sqeBusy) +
      if later.control a.handle = .refused a then 1 else 0 := by
  have before := balanced.refused a
  cases entry with
  | nothing | posts => exact before
  | starts | grants | refuses | goesOn | resumes =>
    simp only [List.count_append, List.count_singleton, Function.update_apply]
    grind [Control.await?, returned_ne_sqeBusy]

theorem landed_entry (balanced : Balanced b) (entry : b.Entry later) (a : Await) :
    later.granted.count a = later.kernel.countP (·.owner = a) +
      later.posted.countP (fun c => c.owner = a ∧ c.more = false) := by
  have before := balanced.landed a
  cases entry with
  | nothing | starts | refuses | goesOn | resumes => exact before
  | grants x suspending =>
    have owner : x.sqe.owner = x := rfl
    simp only [List.count_append, List.count_singleton, List.countP_append, List.countP_singleton]
    grind
  | posts x member c owner serial follows =>
    have mine : x.sqe.owner = x := rfl
    have erased := (List.perm_cons_erase member).countP_eq (·.owner = a)
    rw [List.countP_cons, mine] at erased
    simp only [List.countP_append, List.countP_singleton, owner]
    cases more : c.more with
    | true => simpa using before
    | false =>
      rw [if_neg Bool.false_ne_true, before, erased]
      by_cases same : x = a
      · simp only [same, decide_true, and_self, if_true]
        omega
      · simp [same]

theorem numbers_entry (balanced : Balanced b) (entry : b.Entry later) :
    later.started.map Await.number = List.range later.started.length := by
  have before := balanced.numbers
  cases entry with
  | nothing | grants | refuses | goesOn | resumes | posts => exact before
  | starts a running number => exact numbered_append before number

theorem posted_entry (balanced : Balanced b) (entry : b.Entry later) :
    later.posted.map Cqe.serial = List.range later.posted.length ∧
      (∀ c ∈ later.posted, c.owner ∈ later.granted) ∧
      (∀ c ∈ later.posted, c.more = true → c.owner.operation.multishot = true ∧ 0 ≤ c.res) ∧
      ∀ c ∈ later.posted, ∀ d ∈ later.posted, c.owner = d.owner → c.more = false →
        d.serial ≤ c.serial := by
  cases entry with
  | nothing | starts | refuses | goesOn | resumes =>
    exact ⟨balanced.serials, balanced.owned, balanced.follows, balanced.order⟩
  | grants a suspending =>
    exact ⟨balanced.serials, fun c member => List.mem_append_left _ (balanced.owned c member),
      balanced.follows, balanced.order⟩
  | posts a member c owner serial follows =>
    have flying : b.kernel.countP (·.owner = a) ≥ 1 :=
      List.countP_pos_iff.mpr ⟨a.sqe, member, decide_eq_true rfl⟩
    have landed := balanced.landed a
    refine ⟨?_, ?_, ?_, ?_⟩
    · exact numbered_append balanced.serials serial
    · have granted : a ∈ b.granted := List.count_pos_iff.mp (by omega)
      simpa [or_imp, forall_and, owner, granted] using balanced.owned
    · intro d listed
      rcases List.mem_append.mp listed with early | late
      · exact balanced.follows d early
      · obtain rfl := List.mem_singleton.mp late
        exact owner ▸ follows
    · intro d listed e listed_ same final
      rcases List.mem_append.mp listed_ with early | late
      · rcases List.mem_append.mp listed with early_ | late
        · exact balanced.order d early_ e early same final
        · obtain rfl := List.mem_singleton.mp late
          exact serial ▸ (numbered_lt balanced.serials early).le
      · obtain rfl := List.mem_singleton.mp late
        rcases List.mem_append.mp listed with early | late_
        · have ended : b.posted.countP (fun c => c.owner = a ∧ c.more = false) ≥ 1 :=
            List.countP_pos_iff.mpr ⟨d, early, decide_eq_true ⟨same.trans owner, final⟩⟩
          have once := balanced.granted_once a
          omega
        · exact (congrArg Cqe.serial (List.mem_singleton.mp late_)).ge

theorem answered_entry (balanced : Balanced b) (entry : b.Entry later) (a : Await)
    (value : Except ErrorCode Int) (member : (a, value) ∈ later.results)
    (other : value ≠ .error .sqeBusy) :
    ∃ c ∈ later.posted, c.owner = a ∧ c.more = false ∧ value = returned c.res := by
  have before := balanced.answered a value
  cases entry with
  | nothing | starts | grants | refuses => exact before member other
  | goesOn x refused after awake =>
    rcases List.mem_append.mp member with early | late
    · exact before early other
    · cases List.mem_singleton.mp late
      exact absurd rfl other
  | resumes c suspended posted final after awake =>
    rcases List.mem_append.mp member with early | late
    · exact before early other
    · cases List.mem_singleton.mp late
      exact ⟨c, posted, rfl, final, rfl⟩
  | posts x flying c owner serial follows =>
    obtain ⟨d, posted, answer⟩ := before member other
    exact ⟨d, List.mem_append_left _ posted, answer⟩

theorem latest_entry (balanced : Balanced b) (entry : b.Entry later) (a : Await)
    (member : a ∈ later.started) (named : (later.control a.handle).await? = some a) (other : Await)
    (listed : other ∈ later.started) (same : other.handle = a.handle) : other.number ≤ a.number := by
  have before := balanced.latest a
  cases entry with
  | nothing | posts => exact before member named other listed same
  | starts x running number =>
    have smaller : ∀ y ∈ b.started, y.number < b.started.length :=
      fun y member => numbered_lt balanced.numbers member
    simp only [Function.update_apply] at named
    grind [Control.await?]
  | grants | refuses | goesOn | resumes =>
    simp only [Function.update_apply] at named
    grind [Control.await?]

theorem entry (balanced : Balanced b) (entry : b.Entry later) : Balanced later where
  numbers := balanced.numbers_entry entry
  settled := balanced.settled_entry entry
  ended := balanced.ended_entry entry
  refused := balanced.refused_entry entry
  landed := balanced.landed_entry entry
  serials := (balanced.posted_entry entry).1
  owned := (balanced.posted_entry entry).2.1
  follows := (balanced.posted_entry entry).2.2.1
  order := (balanced.posted_entry entry).2.2.2
  answered := balanced.answered_entry entry
  latest := balanced.latest_entry entry

end Balanced

end CoroMultiplex.Uring
