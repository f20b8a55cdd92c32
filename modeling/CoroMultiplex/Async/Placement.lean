import CoroMultiplex.Async.Workers

/-! Where the control of each root task is.

It is held by a thread that has spawned the root, by a call of `addTask`, by a queue, or
by a worker, and the frames of the root and of what it awaits are there.
-/

set_option autoImplicit false

namespace CoroMultiplex.Async

open Foundations Pool

variable {A V E : Type}

inductive Place where
  | spawned (thread : Nat)
  | calling (caller : Caller)
  | queued (index : Nat)
  | popped (index : Nat)
  | on (index : Nat)
  deriving DecidableEq

/-- The promises of a coroutine and of those that await it lead from one to the next. -/
def Linked (frames : Handle → Option (Frame A V E)) :
    Handle → Promise V E → List (Handle × (Except E V → Body A V E)) → Prop
  | _, promise, [] => promise.prevCoro = none ∧ promise.returnException = none
  | handle, promise, (caller, next) :: callers =>
    (promise.prevCoro = some caller ∧ promise.returnException = none ∧ promise.detached = false) ∧
      ∃ stored, frames caller = some ⟨.awaiting handle next, stored⟩ ∧
        Linked frames caller stored callers

theorem Linked.kept {before after : Handle → Option (Frame A V E)}
    {callers : List (Handle × (Except E V → Body A V E))} {handle : Handle} {promise : Promise V E}
    (linked : Linked before handle promise callers)
    (same : ∀ other ∈ callers.map Prod.fst, after other = before other) :
    Linked after handle promise callers := by
  induction callers generalizing handle promise with
  | nil => exact linked
  | cons caller callers ih =>
    obtain ⟨attached, stored, found, rest⟩ := linked
    refine ⟨attached, stored, (same caller.1 (by simp)).trans found, ih rest fun other member => ?_⟩
    exact same other (by simp [member])

theorem Linked.awaiting {frames : Handle → Option (Frame A V E)}
    {callers : List (Handle × (Except E V → Body A V E))} {handle : Handle} {promise : Promise V E}
    (linked : Linked frames handle promise callers) {other : Handle}
    (member : other ∈ callers.map Prod.fst) :
    ∃ callee next stored, frames other = some ⟨.awaiting callee next, stored⟩ := by
  induction callers generalizing handle promise with
  | nil => cases member
  | cons caller callers ih =>
    obtain ⟨_, stored, found, rest⟩ := linked
    rcases List.mem_cons.mp member with rfl | later
    · exact ⟨_, _, _, found⟩
    · exact ih rest later

namespace Strand

variable {frames : Handle → Option (Frame A V E)} {strand : Strand A V E}

/-- The frames of a strand, with the topmost one at a point. -/
def Backed (frames : Handle → Option (Frame A V E)) (strand : Strand A V E)
    (point : Point A V E) : Prop :=
  ∃ promise, frames strand.top = some ⟨point, promise⟩ ∧
    Linked frames strand.top promise strand.callers

/-- It goes on with its body when it is resumed. -/
def Waits (frames : Handle → Option (Frame A V E)) (strand : Strand A V E) : Prop :=
  strand.Backed frames (.initial strand.body) ∨ strand.Backed frames (.scheduled strand.body)

/-- What it awaited has ended, and its body is what comes behind the await. -/
def Returns (frames : Handle → Option (Frame A V E)) (strand : Strand A V E) : Prop :=
  ∃ child next promise, frames child = some ⟨.final, promise⟩ ∧
    next promise.getValue = strand.body ∧ strand.Backed frames (.awaiting child next)

/-- How it is on a worker. -/
def Goes (frames : Handle → Option (Frame A V E)) (strand : Strand A V E) : Stage A V E → Prop
  | .inside (.running _ body) => body = strand.body ∧ strand.Backed frames .active
  | .inside (.resuming _) => strand.Waits frames ∨ strand.Returns frames
  | .adding _ => strand.Backed frames (.scheduled strand.body)
  | .loop | .inside (.idle _) | .inside .undefined => False

theorem Backed.kept {point : Point A V E} {after : Handle → Option (Frame A V E)}
    (backed : strand.Backed frames point)
    (same : ∀ handle ∈ strand.handles, after handle = frames handle) :
    strand.Backed after point := by
  obtain ⟨promise, found, linked⟩ := backed
  refine ⟨promise, (same _ List.mem_cons_self).trans found, linked.kept fun other member => ?_⟩
  exact same other (List.mem_cons_of_mem _ member)

/-- A strand that is not at its end has no frame at a final suspend point. -/
theorem Backed.pending {point : Point A V E} (backed : strand.Backed frames point)
    (unended : point ≠ .final) {handle : Handle} (member : handle ∈ strand.handles) :
    ∃ at_ promise, at_ ≠ .final ∧ frames handle = some ⟨at_, promise⟩ := by
  obtain ⟨promise, found, linked⟩ := backed
  rcases List.mem_cons.mp member with rfl | behind
  · exact ⟨point, promise, unended, found⟩
  · obtain ⟨callee, next, stored, awaiting⟩ := linked.awaiting behind
    exact ⟨.awaiting callee next, stored, (fun same => by cases same), awaiting⟩

theorem Waits.kept {after : Handle → Option (Frame A V E)} (waits : strand.Waits frames)
    (same : ∀ handle ∈ strand.handles, after handle = frames handle) : strand.Waits after :=
  waits.imp (·.kept same) (·.kept same)

theorem Returns.kept {after : Handle → Option (Frame A V E)} (returns : strand.Returns frames)
    (same : ∀ handle ∈ strand.handles, after handle = frames handle)
    (final : ∀ handle promise, frames handle = some ⟨.final, promise⟩ →
      after handle = frames handle) : strand.Returns after := by
  obtain ⟨child, next, promise, found, outcome, backed⟩ := returns
  exact ⟨child, next, promise, (final child promise found).trans found, outcome, backed.kept same⟩

theorem Goes.kept {after : Handle → Option (Frame A V E)} {stage : Stage A V E}
    (goes : strand.Goes frames stage)
    (same : ∀ handle ∈ strand.handles, after handle = frames handle)
    (final : ∀ handle promise, frames handle = some ⟨.final, promise⟩ →
      after handle = frames handle) : strand.Goes after stage := by
  cases stage with
  | loop => exact goes
  | adding handle => exact Backed.kept goes same
  | inside control =>
    cases control with
    | running handle body => exact ⟨goes.1, goes.2.kept same⟩
    | resuming handle => exact goes.imp (·.kept same) (·.kept same final)
    | idle exit => exact goes
    | undefined => exact goes

theorem Waits.pending (waits : strand.Waits frames) {handle : Handle}
    (member : handle ∈ strand.handles) :
    ∃ point promise, point ≠ .final ∧ frames handle = some ⟨point, promise⟩ := by
  rcases waits with first | again
  · exact first.pending (fun same => by cases same) member
  · exact again.pending (fun same => by cases same) member

theorem Goes.pending {stage : Stage A V E} (goes : strand.Goes frames stage) {handle : Handle}
    (member : handle ∈ strand.handles) :
    ∃ point promise, point ≠ .final ∧ frames handle = some ⟨point, promise⟩ := by
  cases stage with
  | loop => exact goes.elim
  | adding top => exact Backed.pending goes (fun same => by cases same) member
  | inside control =>
    cases control with
    | running top body => exact goes.2.pending (fun same => by cases same) member
    | resuming top =>
      rcases goes with waits | ⟨_, _, _, _, _, backed⟩
      · exact waits.pending member
      · exact backed.pending (fun same => by cases same) member
    | idle exit => exact goes.elim
    | undefined => exact goes.elim

/-- The root of the strand. -/
def bottom (strand : Strand A V E) : Handle := strand.handles.getLast (List.cons_ne_nil _ _)

theorem bottom_mem (strand : Strand A V E) : strand.bottom ∈ strand.handles := List.getLast_mem _

end Strand

namespace Workers

def Occupies (s : Workers A V E) (handle : Handle) : Place → Prop
  | .spawned thread => s.spawned thread = some handle
  | .calling caller => ∃ target, s.pool.calls caller = some ⟨handle, target⟩
  | .queued index => handle ∈ (s.pool.tasks index).map Entry.task
  | .popped index => ∃ entry, s.pool.workers index = .popped entry ∧ entry.task = handle
  | .on index => (s.stage index).handle? = some handle

def Ready (s : Workers A V E) (strand : Strand A V E) : Place → Prop
  | .on index => strand.Goes s.frames (s.stage index)
  | .spawned _ | .calling _ | .queued _ | .popped _ => strand.Waits s.frames

/-- The coroutines of a strand run for the root with this identity. -/
structure Owned (s : Workers A V E) (id : Nat) (strand : Strand A V E) : Prop where
  distinct : strand.handles.Nodup
  rooted : ∀ handle ∈ strand.handles, s.root handle = id
  bottom : s.pool.frameId strand.bottom = some id
  pending : ∀ handle ∈ strand.handles, s.pool.isDone handle = false

variable {s s' : Workers A V E} {strand : Strand A V E} {place : Place} {id : Nat}

theorem Ready.pending (ready : s.Ready strand place) {handle : Handle}
    (member : handle ∈ strand.handles) :
    ∃ point promise, point ≠ .final ∧ s.frames handle = some ⟨point, promise⟩ := by
  cases place with
  | on index => exact Strand.Goes.pending ready member
  | _ => exact Strand.Waits.pending ready member

theorem Ready.kept (ready : s.Ready strand place)
    (same : ∀ handle ∈ strand.handles, s'.frames handle = s.frames handle)
    (final : ∀ handle promise, s.frames handle = some ⟨.final, promise⟩ →
      s'.frames handle = s.frames handle)
    (stage : ∀ index, place = .on index → s'.stage index = s.stage index) :
    s'.Ready strand place := by
  cases place with
  | on index =>
    change strand.Goes s'.frames (s'.stage index)
    rw [stage index rfl]
    exact Strand.Goes.kept ready same final
  | _ => exact Strand.Waits.kept ready same

theorem Owned.kept (owned : s.Owned id strand)
    (root : ∀ handle ∈ strand.handles, s'.root handle = s.root handle)
    (frames : ∀ handle ∈ strand.handles, s'.pool.frames handle = s.pool.frames handle) :
    s'.Owned id strand where
  distinct := owned.distinct
  rooted handle member := (root handle member).trans (owned.rooted handle member)
  bottom := by
    rw [ThreadPool.frameId, frames _ strand.bottom_mem]
    exact owned.bottom
  pending handle member := by
    rw [ThreadPool.isDone, frames handle member]
    exact owned.pending handle member

end Workers

/-- The strand of each root that has not ended, and where its control is. -/
abbrev Strands (A V E : Type) := Nat → Option (Place × Strand A V E)

def spot (located : Option (Place × Strand A V E)) : Option (Place × Handle) :=
  located.map fun pair => (pair.1, pair.2.top)

/-- What the frames and the pool say of a strand. -/
structure Upheld (s : Workers A V E) (id : Nat) (place : Place) (strand : Strand A V E) : Prop where
  ready : s.Ready strand place
  owned : s.Owned id strand

structure Tracks (s : Workers A V E) (strands : Strands A V E) : Prop where
  upheld : ∀ id place strand, strands id = some (place, strand) → Upheld s id place strand
  occupied : ∀ handle place, s.Occupies handle place ↔ ∃ id, spot (strands id) = some (place, handle)
  distinct : ∀ index, ((s.pool.tasks index).map Entry.task).Nodup

namespace Tracks

variable {s s' : Workers A V E} {strands : Strands A V E} {id other : Nat} {handle : Handle}

theorem spot_some {located : Option (Place × Strand A V E)} {place : Place}
    (same : spot located = some (place, handle)) :
    ∃ strand, located = some (place, strand) ∧ strand.top = handle := by
  obtain ⟨⟨at_, strand⟩, found, pair⟩ := Option.map_eq_some_iff.mp same
  cases pair
  exact ⟨strand, found, rfl⟩

theorem root_of_spot (tracks : Tracks s strands) {place : Place}
    (same : spot (strands id) = some (place, handle)) : s.root handle = id := by
  obtain ⟨strand, found, rfl⟩ := spot_some same
  exact (tracks.upheld id place strand found).owned.rooted _ List.mem_cons_self

/-- The control of a root is at one place only. -/
theorem unique (tracks : Tracks s strands) {first second : Place} (left : s.Occupies handle first)
    (right : s.Occupies handle second) : first = second := by
  obtain ⟨id, found⟩ := (tracks.occupied handle first).mp left
  obtain ⟨other, also⟩ := (tracks.occupied handle second).mp right
  obtain rfl := (tracks.root_of_spot found).symm.trans (tracks.root_of_spot also)
  rw [found, Option.some.injEq, Prod.mk.injEq] at also
  exact also.1

theorem located (tracks : Tracks s strands) {place : Place} (here : s.Occupies handle place) :
    ∃ strand, strands (s.root handle) = some (place, strand) ∧ strand.top = handle ∧
      Upheld s (s.root handle) place strand := by
  obtain ⟨id, found⟩ := (tracks.occupied handle place).mp here
  obtain rfl := tracks.root_of_spot found
  obtain ⟨strand, stored, top⟩ := spot_some found
  exact ⟨strand, stored, top, tracks.upheld _ place strand stored⟩

/-- Two strands have no coroutine in common. -/
theorem apart (tracks : Tracks s strands) {first second : Place} {left right : Strand A V E}
    (found : strands id = some (first, left)) (also : strands other = some (second, right))
    (inLeft : handle ∈ left.handles) (inRight : handle ∈ right.handles) : id = other :=
  ((tracks.upheld id first left found).owned.rooted handle inLeft).symm.trans
    ((tracks.upheld other second right also).owned.rooted handle inRight)

/-- A worker has the control of one root at most. -/
theorem elsewhere (tracks : Tracks s strands) {index : Nat} {place : Place} {left right : Strand A V E}
    (found : strands id = some (.on index, left)) (also : strands other = some (place, right))
    (distinct : other ≠ id) : place ≠ .on index := by
  rintro rfl
  have first : s.Occupies left.top (.on index) :=
    (tracks.occupied _ _).mpr ⟨id, by rw [found]; rfl⟩
  have second : s.Occupies right.top (.on index) :=
    (tracks.occupied _ _).mpr ⟨other, by rw [also]; rfl⟩
  have top : left.top = right.top := Option.some.inj (first.symm.trans second)
  exact distinct (tracks.apart also found List.mem_cons_self (top ▸ List.mem_cons_self))

/-- One root goes on, or begins or ends, and the others stay where they are. -/
theorem change (tracks : Tracks s strands) (id : Nat) (new : Option (Place × Strand A V E))
    (occupied : ∀ handle place, s'.Occupies handle place ↔ spot new = some (place, handle) ∨
      s.Occupies handle place ∧ spot (strands id) ≠ some (place, handle))
    (own : ∀ place strand, new = some (place, strand) → Upheld s' id place strand)
    (others : ∀ other place strand, other ≠ id → strands other = some (place, strand) →
      Upheld s' other place strand)
    (distinct : ∀ index, ((s'.pool.tasks index).map Entry.task).Nodup) :
    Tracks s' (Function.update strands id new) where
  upheld other place strand found := by
    by_cases here : other = id
    · subst here
      rw [Function.update_self] at found
      exact own place strand found
    · rw [Function.update_of_ne here] at found
      exact others other place strand here found
  occupied handle place := by
    rw [occupied, tracks.occupied]
    constructor
    · rintro (fresh | ⟨⟨other, found⟩, moved⟩)
      · exact ⟨id, by rwa [Function.update_self]⟩
      · have apart : other ≠ id := fun same => moved (same ▸ found)
        exact ⟨other, by rwa [Function.update_of_ne apart]⟩
    · rintro ⟨other, found⟩
      by_cases here : other = id
      · subst here
        rw [Function.update_self] at found
        exact .inl found
      · rw [Function.update_of_ne here] at found
        refine .inr ⟨⟨other, found⟩, fun same => here ?_⟩
        exact (tracks.root_of_spot found).symm.trans (tracks.root_of_spot same)
  distinct := distinct

/-- Nothing has changed for a strand whose frames are as they were. -/
theorem keep (tracks : Tracks s strands) {place : Place} {strand : Strand A V E}
    (found : strands other = some (place, strand))
    (frames : ∀ handle ∈ strand.handles, s'.frames handle = s.frames handle)
    (final : ∀ handle promise, s.frames handle = some ⟨.final, promise⟩ →
      s'.frames handle = s.frames handle)
    (stage : ∀ index, place = .on index → s'.stage index = s.stage index)
    (root : ∀ handle ∈ strand.handles, s'.root handle = s.root handle)
    (poolFrames : ∀ handle ∈ strand.handles, s'.pool.frames handle = s.pool.frames handle) :
    Upheld s' other place strand :=
  have before := tracks.upheld other place strand found
  ⟨before.ready.kept frames final stage, before.owned.kept root poolFrames⟩

end Tracks

end CoroMultiplex.Async
