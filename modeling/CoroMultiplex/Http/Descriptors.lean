import CoroMultiplex.Foundations.Machine
import CoroMultiplex.Foundations.Ownership

/-! Socket objects and the descriptors they own.

An `asyncSocket` moves as its base does. A move assignment writes the field of the
target and then the field of the other object, which may be the same one.
-/

set_option autoImplicit false

namespace CoroMultiplex.Http

open Foundations

inductive SocketKind where
  | socketBase
  | asyncSocket
  deriving DecidableEq, Repr

structure SocketObject where
  kind : SocketKind
  fd : Int := -1
  deriving DecidableEq, Repr

inductive DescriptorCall where
  | opens (fd : Nat)
  | closes (fd : Nat)
  deriving DecidableEq, Repr

def DescriptorCall.fd : DescriptorCall → Nat
  | .opens fd | .closes fd => fd

/-- The live objects by name, the descriptors of the process, and how those came and went. -/
structure Sockets (Name : Type) where
  objects : Name → Option SocketObject := fun _ => none
  isOpen : Nat → Bool := fun _ => false
  log : List DescriptorCall := []

inductive SocketStep (Name : Type) where
  | construct (name : Name) (kind : SocketKind) (fd : Nat)
  | moveConstruct (name : Name) (kind : SocketKind) (other : Name)
  | moveAssign (target other : Name)
  | destroy (name : Name)

/-- The descriptor that a field names, none if it is negative. -/
def owned (fd : Int) : Option Nat := if 0 ≤ fd then some fd.toNat else none

namespace Sockets

variable {Name : Type} [DecidableEq Name]

def fd (self : Sockets Name) (name : Name) : Int := ((self.objects name).map SocketObject.fd).getD (-1)

def holding (self : Sockets Name) (name : Name) : Option Nat := owned (self.fd name)

def setFd (self : Sockets Name) (name : Name) (fd : Int) : Sockets Name :=
  { self with
    objects := Function.update self.objects name
      ((self.objects name).map fun object => { object with fd := fd }) }

/-- A descriptor is opened and an object constructed from it. -/
def construct (self : Sockets Name) (name : Name) (kind : SocketKind) (fd : Nat) : Sockets Name where
  objects := Function.update self.objects name (some { kind, fd })
  isOpen := Function.update self.isOpen fd true
  log := self.log ++ [.opens fd]

def moveConstruct (self : Sockets Name) (name : Name) (kind : SocketKind) (other : Name) :
    Sockets Name :=
  let moved := { self with
    objects := Function.update self.objects name (some { kind, fd := self.fd other }) }
  moved.setFd other (-1)

def moveAssign (self : Sockets Name) (target other : Name) : Sockets Name :=
  (self.setFd target (self.fd other)).setFd other (-1)

/-- `close(fd)` -/
def close (self : Sockets Name) (fd : Nat) : Sockets Name :=
  { self with isOpen := Function.update self.isOpen fd false, log := self.log ++ [.closes fd] }

/-- The destructor, and the end of the object. -/
def destroy (self : Sockets Name) (name : Name) : Sockets Name :=
  let closed := if self.fd name ≥ 0 then self.close (self.fd name).toNat else self
  { closed with objects := Function.update closed.objects name none }

def machine (Name : Type) [DecidableEq Name] : Machine (Sockets Name) (SocketStep Name) where
  enabled self
    | .construct name _ fd => self.objects name = none ∧ self.isOpen fd = false
    -- an `asyncSocket` is constructed from an `asyncSocket` only
    | .moveConstruct name kind other => self.objects name = none ∧
        ∃ object, self.objects other = some object ∧
          (kind = .asyncSocket → object.kind = .asyncSocket)
    | .moveAssign target other => self.objects target ≠ none ∧ self.objects other ≠ none
    | .destroy name => self.objects name ≠ none
  next self
    | .construct name kind fd => self.construct name kind fd
    | .moveConstruct name kind other => self.moveConstruct name kind other
    | .moveAssign target other => self.moveAssign target other
    | .destroy name => self.destroy name

/-- Each descriptor was closed once for every time it was opened, if it is not open still. -/
def ClosedOnce (log : List DescriptorCall) (isOpen : Nat → Bool) : Prop :=
  ∀ fd, ∃ cycles, log.filter (·.fd = fd) =
    (List.replicate cycles [DescriptorCall.opens fd, .closes fd]).flatten ++
      if isOpen fd then [.opens fd] else []

/-- The descriptors still open are those of the live objects, each of one object. -/
structure OwnedLinearly (sockets : Sockets Name) : Prop where
  exclusive : Exclusive sockets.holding sockets.isOpen
  closedOnce : ClosedOnce sockets.log sockets.isOpen
  allClosed : (∀ name, sockets.objects name = none) → ∀ fd, sockets.isOpen fd = false

variable {self : Sockets Name} {name other target : Name}

omit [DecidableEq Name] in
theorem holding_dead (dead : self.objects name = none) : self.holding name = none := by
  simp [holding, fd, dead, owned]

theorem holding_update (object : Option SocketObject) :
    holding { self with objects := Function.update self.objects name object } =
      Function.update self.holding name (owned ((object.map SocketObject.fd).getD (-1))) := by
  funext place
  by_cases here : place = name
  · subst here
    simp [holding, fd]
  · simp [holding, fd, here]

theorem holding_setFd (live : self.objects name ≠ none) (fd : Int) :
    (self.setFd name fd).holding = Function.update self.holding name (owned fd) := by
  obtain ⟨object, found⟩ := Option.ne_none_iff_exists'.mp live
  rw [setFd, holding_update, found]
  rfl

theorem holding_construct (kind : SocketKind) (fd : Nat) :
    (self.construct name kind fd).holding = Function.update self.holding name (some fd) := by
  change holding { self with
    objects := Function.update self.objects name (some { kind, fd }) } = _
  rw [holding_update]
  simp [owned]

theorem holding_moveConstruct (kind : SocketKind) (absent : self.objects name = none)
    (live : self.objects other ≠ none) :
    (self.moveConstruct name kind other).holding =
      Function.update (Function.update self.holding name (self.holding other)) other none := by
  have apart : other ≠ name := fun same => live (same ▸ absent)
  rw [moveConstruct, holding_setFd (by simpa [apart] using live), holding_update]
  rfl

theorem holding_moveAssign (liveTarget : self.objects target ≠ none)
    (live : self.objects other ≠ none) :
    (self.moveAssign target other).holding =
      Function.update (Function.update self.holding target (self.holding other)) other none := by
  have stillLive : (self.setFd target (self.fd other)).objects other ≠ none := by
    by_cases here : other = target
    · subst here
      simpa [setFd] using live
    · simpa [setFd, here] using live
  rw [moveAssign, holding_setFd stillLive, holding_setFd liveTarget]
  rfl

/-- A destructor closes what the object holds, if it holds anything. -/
theorem destroy_cases (self : Sockets Name) (name : Name) :
    (self.holding name = none ∧ (self.destroy name).isOpen = self.isOpen ∧
        (self.destroy name).log = self.log) ∨
      ∃ fd, self.holding name = some fd ∧
        (self.destroy name).isOpen = Function.update self.isOpen fd false ∧
        (self.destroy name).log = self.log ++ [.closes fd] := by
  by_cases holds : 0 ≤ self.fd name
  · exact .inr ⟨(self.fd name).toNat, by simp [holding, owned, holds], by simp [destroy, holds, close],
      by simp [destroy, holds, close]⟩
  · exact .inl ⟨by simp [holding, owned, holds], by simp [destroy, holds], by simp [destroy, holds]⟩

theorem holding_destroy (self : Sockets Name) (name : Name) :
    (self.destroy name).holding = Function.update self.holding name none := by
  have objects : (self.destroy name).objects = Function.update self.objects name none := by
    unfold destroy
    by_cases holds : self.fd name ≥ 0 <;> simp [holds, close]
  have same : (self.destroy name).holding =
      holding { self with objects := Function.update self.objects name none } := by
    funext place
    rw [holding, holding, fd, fd, objects]
  rw [same, holding_update]
  rfl

theorem ClosedOnce.opens {log : List DescriptorCall} {isOpen : Nat → Bool} {fd : Nat}
    (closedOnce : ClosedOnce log isOpen) (free : isOpen fd = false) :
    ClosedOnce (log ++ [.opens fd]) (Function.update isOpen fd true) := by
  intro place
  obtain ⟨cycles, history⟩ := closedOnce place
  refine ⟨cycles, ?_⟩
  rw [List.filter_append, history]
  by_cases here : place = fd
  · subst here
    simp [free, DescriptorCall.fd]
  · simp [here, Ne.symm here, DescriptorCall.fd]

theorem ClosedOnce.closes {log : List DescriptorCall} {isOpen : Nat → Bool} {fd : Nat}
    (closedOnce : ClosedOnce log isOpen) (taken : isOpen fd = true) :
    ClosedOnce (log ++ [.closes fd]) (Function.update isOpen fd false) := by
  intro place
  obtain ⟨cycles, history⟩ := closedOnce place
  rw [List.filter_append, history]
  by_cases here : place = fd
  · subst here
    refine ⟨cycles + 1, ?_⟩
    simp [taken, DescriptorCall.fd, List.replicate_succ']
  · refine ⟨cycles, ?_⟩
    simp [here, Ne.symm here, DescriptorCall.fd]

omit [DecidableEq Name] in
/-- Where no object is left, none holds a descriptor. -/
theorem OwnedLinearly.of_exclusive (exclusive : Exclusive self.holding self.isOpen)
    (closedOnce : ClosedOnce self.log self.isOpen) : self.OwnedLinearly where
  exclusive := exclusive
  closedOnce := closedOnce
  allClosed dead fd := by
    rw [Bool.eq_false_iff]
    intro taken
    obtain ⟨name, held⟩ := (exclusive.taken_iff fd).mp taken
    rw [holding_dead (dead name)] at held
    cases held

/-- A step keeps the descriptors owned, unless it assigns to an object that holds one. -/
theorem owned_step {step : SocketStep Name} (before : self.OwnedLinearly)
    (enabled : (machine Name).enabled self step)
    (empty : ∀ target other, step = .moveAssign target other → self.holding target = none) :
    ((machine Name).next self step).OwnedLinearly := by
  cases step with
  | construct name kind fd =>
    obtain ⟨absent, free⟩ := enabled
    refine .of_exclusive ?_ (before.closedOnce.opens free)
    exact (@holding_construct Name _ self name kind fd).symm ▸
      before.exclusive.acquire (holding_dead absent) free
  | moveConstruct name kind other =>
    obtain ⟨absent, object, found, -⟩ := enabled
    have moved := holding_moveConstruct kind absent (found ▸ Option.some_ne_none object)
    refine .of_exclusive ?_ before.closedOnce
    exact moved.symm ▸ before.exclusive.transfer (holding_dead absent)
  | moveAssign target other =>
    have moved := holding_moveAssign enabled.1 enabled.2
    refine .of_exclusive ?_ before.closedOnce
    exact moved.symm ▸ before.exclusive.transfer (empty target other rfl)
  | destroy name =>
    change (self.destroy name).OwnedLinearly
    rcases self.destroy_cases name with ⟨idle, isOpen, log⟩ | ⟨fd, held, isOpen, log⟩
    · refine .of_exclusive ?_ ?_
      · rw [holding_destroy, isOpen, ← idle, Function.update_eq_self]
        exact before.exclusive
      · rw [log, isOpen]
        exact before.closedOnce
    · have taken := (before.exclusive.taken_iff fd).mpr ⟨name, held⟩
      refine .of_exclusive ?_ ?_
      · rw [holding_destroy, isOpen]
        exact before.exclusive.release held
      · rw [log, isOpen]
        exact before.closedOnce.closes taken

/-- An assignment to an object that holds a descriptor loses it. -/
theorem overwriting_loses (before : self.OwnedLinearly) (liveTarget : self.objects target ≠ none)
    (live : self.objects other ≠ none) {fd : Nat} (held : self.holding target = some fd) :
    ¬ (self.moveAssign target other).OwnedLinearly := by
  intro after
  have taken : self.isOpen fd = true := (before.exclusive.taken_iff fd).mpr ⟨target, held⟩
  obtain ⟨holder, holds⟩ := (after.exclusive.taken_iff fd).mp taken
  rw [holding_moveAssign liveTarget live] at holds
  by_cases last : holder = other
  · rw [last, Function.update_self] at holds
    cases holds
  · rw [Function.update_of_ne last] at holds
    by_cases assigned : holder = target
    · rw [assigned, Function.update_self] at holds
      exact last (assigned.trans (before.exclusive.unique target other fd held holds))
    · rw [Function.update_of_ne assigned] at holds
      exact assigned (before.exclusive.unique holder target fd holds held)

omit [DecidableEq Name] in
theorem owned_start : ({} : Sockets Name).OwnedLinearly :=
  .of_exclusive Exclusive.empty (fun _ => ⟨0, rfl⟩)

/-- A program without an assignment to an object that holds a descriptor owns its
descriptors all along. -/
theorem owned_run {program past : List (SocketStep Name)} (allowed : (machine Name).Allowed {} program)
    (empty : ∀ past target other rest, program = past ++ .moveAssign target other :: rest →
      ((machine Name).exec {} past).holding target = none)
    (begins : past <+: program) : ((machine Name).exec {} past).OwnedLinearly := by
  induction past using List.reverseRecOn with
  | nil => exact owned_start
  | append_singleton past step ih =>
    obtain ⟨rest, same⟩ := begins
    rw [List.append_assoc, List.singleton_append] at same
    have before := ih ⟨step :: rest, same⟩
    rw [← same, Machine.allowed_append] at allowed
    rw [Machine.exec_append]
    refine owned_step before allowed.2.1 fun target other assigns => ?_
    exact empty past target other rest (by rw [← assigns, same])

end Sockets

/-- The descriptors are owned linearly at every point of a program exactly if it never
move-assigns to an object that holds one. -/
theorem owned_linearly_iff {Name : Type} [DecidableEq Name] (program : List (SocketStep Name))
    (allowed : (Sockets.machine Name).Allowed {} program) :
    (∀ past, past <+: program → ((Sockets.machine Name).exec {} past).OwnedLinearly) ↔
      ∀ past target other rest, program = past ++ .moveAssign target other :: rest →
        ((Sockets.machine Name).exec {} past).holding target = none := by
  refine ⟨?_, fun empty past => Sockets.owned_run allowed empty⟩
  rintro owned_ past target other rest rfl
  rw [Machine.allowed_append] at allowed
  obtain ⟨-, ⟨liveTarget, live⟩, -⟩ := allowed
  have before := owned_ past (List.prefix_append _ _)
  have after := owned_ (past ++ [.moveAssign target other]) (by simp)
  rw [Machine.exec_append] at after
  cases held : ((Sockets.machine Name).exec {} past).holding target with
  | none => rfl
  | some fd => exact absurd after (Sockets.overwriting_loses before liveTarget live held)

/-- Two sockets, and the first moved on before its place is taken by the second. -/
def emptiedTarget : List (SocketStep Nat) :=
  [.construct 0 .asyncSocket 3, .construct 1 .asyncSocket 4, .moveConstruct 2 .asyncSocket 0,
    .moveAssign 0 1, .destroy 2, .destroy 1, .destroy 0]

theorem emptied_target_keeps_descriptors :
    (∀ past, past <+: emptiedTarget → ((Sockets.machine Nat).exec {} past).OwnedLinearly) ∧
      ((Sockets.machine Nat).exec {} emptiedTarget).isOpen 3 = false ∧
      ((Sockets.machine Nat).exec {} emptiedTarget).isOpen 4 = false := by
  refine ⟨(owned_linearly_iff emptiedTarget ?_).mpr ?_, rfl, rfl⟩
  · exact ⟨⟨rfl, rfl⟩, ⟨rfl, rfl⟩, ⟨rfl, ⟨.asyncSocket, 3⟩, rfl, fun _ => rfl⟩,
      ⟨Option.some_ne_none _, Option.some_ne_none _⟩, Option.some_ne_none _, Option.some_ne_none _,
      Option.some_ne_none _, trivial⟩
  · intro past target other rest same
    have taken : past = emptiedTarget.take past.length := by simp [same]
    have assigned : emptiedTarget[past.length]? = some (.moveAssign target other) := by simp [same]
    rw [taken]
    -- The only assignment is the fourth step.
    generalize past.length = index at assigned
    rcases index with _ | _ | _ | _ | _ | _ | _ | index <;> cases assigned
    rfl

/-- The descriptor of the target is lost, whether it is assigned another object or itself. -/
theorem occupied_target_loses_descriptor :
    let opened : List (SocketStep Nat) := [.construct 0 .asyncSocket 3, .construct 1 .asyncSocket 4]
    ((Sockets.machine Nat).Allowed {} (opened ++ [.moveAssign 0 1]) ∧
        ¬ ((Sockets.machine Nat).exec {} (opened ++ [.moveAssign 0 1])).OwnedLinearly) ∧
      (Sockets.machine Nat).Allowed {} (opened ++ [.moveAssign 0 0]) ∧
        ¬ ((Sockets.machine Nat).exec {} (opened ++ [.moveAssign 0 0])).OwnedLinearly := by
  intro opened
  have first := @Sockets.owned_step Nat _ {} (.construct 0 .asyncSocket 3) Sockets.owned_start
    ⟨rfl, rfl⟩ (fun _ _ same => by cases same)
  have second := @Sockets.owned_step Nat _ _ (.construct 1 .asyncSocket 4) first
    ⟨rfl, rfl⟩ (fun _ _ same => by cases same)
  have target : ((Sockets.machine Nat).exec {} opened).objects 0 ≠ none := Option.some_ne_none _
  have other : ((Sockets.machine Nat).exec {} opened).objects 1 ≠ none := Option.some_ne_none _
  exact ⟨⟨⟨⟨rfl, rfl⟩, ⟨rfl, rfl⟩, ⟨target, other⟩, trivial⟩,
      Sockets.overwriting_loses second target other rfl⟩,
    ⟨⟨rfl, rfl⟩, ⟨rfl, rfl⟩, ⟨target, target⟩, trivial⟩,
    Sockets.overwriting_loses second target target rfl⟩

end CoroMultiplex.Http
