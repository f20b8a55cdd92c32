import CoroMultiplex.Async.Proceeding

/-! Root tasks on the workers of the pool run as plain calls.

Whatever else the workers do, a root does what its body says, and as long as it has not
ended its control is at one place, from where it can go on.
-/

set_option autoImplicit false

namespace CoroMultiplex.Async

open Foundations Pool

variable {A V E : Type} [Inhabited V]

/-- In every reachable state no worker has come to a coroutine that is not suspended or no
longer there, no two places have the control of one coroutine, and each root has either
ended as its body does when each await is a call, or has done the beginning of that and its
control is at exactly one place. Runs in which the constructor reads the begin iterator of
the empty list are among them: there a push through the end iterator is undefined, and its
call of `addTask` is left waiting. -/
theorem roots_run_like_calls (threadCnt : Nat) (s : Workers A V E)
    (reached : (workers A V E threadCnt).Reachable {} s) :
    (∀ index, s.stage index ≠ .inside .undefined) ∧
      (∀ handle first second, s.Occupies handle first → s.Occupies handle second → first = second) ∧
      (∀ index, ((s.pool.tasks index).map Entry.task).Nodup) ∧
      ∀ id body, s.bodies id = some body →
        (s.reports id = body.actions.map .acts ++ [.ends body.eval] ∧
          ∀ handle place, s.Occupies handle place → s.root handle ≠ id) ∨
        ((∃ left, s.reports id ++ left = body.actions.map .acts) ∧
          ∃! at_ : Handle × Place, s.Occupies at_.1 at_.2 ∧ s.root at_.1 = id) := by
  obtain ⟨strands, synced, tracks, accounted⟩ := sound_reachable reached
  refine ⟨synced.defined, fun handle first second => tracks.unique, tracks.distinct, ?_⟩
  intro id body spawned
  cases under_way : strands id with
  | none =>
    refine .inl ⟨accounted.ended id body spawned under_way, ?_⟩
    rintro handle place here rfl
    obtain ⟨strand, stored, _⟩ := tracks.located here
    rw [under_way] at stored
    cases stored
  | some located =>
    obtain ⟨place, strand⟩ := located
    obtain ⟨body_, same, _, left⟩ := accounted.ongoing id strand.outcome strand.actions
      (by rw [under_way]; rfl)
    rw [spawned, Option.some.injEq] at same
    subst same
    refine .inr ⟨⟨_, left⟩, (strand.top, place), ⟨?_, ?_⟩, ?_⟩
    · exact (tracks.occupied _ _).mpr ⟨id, by rw [under_way]; rfl⟩
    · exact (tracks.upheld id place strand under_way).owned.rooted _ List.mem_cons_self
    · rintro ⟨handle, other⟩ ⟨here, rfl⟩
      obtain ⟨strand_, stored, top, _⟩ := tracks.located here
      rw [under_way, Option.some.injEq, Prod.mk.injEq] at stored
      obtain ⟨rfl, rfl⟩ := stored
      exact Prod.ext top.symm rfl

omit [Inhabited V] in
theorem unterminated {s : Workers A V E} (first : s.stage 0 ≠ .inside (.idle .terminates))
    (others : ∀ index, s.stage (index + 1) = .loop) : ¬ s.Terminated := by
  rintro ⟨index, ended⟩
  cases index with
  | zero => exact first ended
  | succ index =>
    rw [others] at ended
    cases ended

/-- A root that awaits a task, which suspends on the scheduler. -/
def nestedRoot : Body Nat Nat Nat :=
  .perform 4 (.await (.schedule (.perform 5 (.done (.ok 1)))) fun outcome => .perform 6 (.done outcome))

/-- A worker runs it to its end, in two turns. -/
theorem root_runs_to_its_end :
    let s := (workers Nat Nat Nat 1).exec {} [.pool .launch, .pool .register, .pool .construct,
      .spawn 0 7 nestedRoot true, .add 0, .pool (.push (.outside 0)), .pool (.pop 0), .resume 0,
      .proceed 0 8, .proceed 0 8, .proceed 0 8, .proceed 0 9, .proceed 0 9, .schedule 0,
      .pool (.push (.worker 0)), .leave 0, .pool (.pop 0), .resume 0, .proceed 0 9, .proceed 0 9,
      .proceed 0 9, .proceed 0 9, .proceed 0 9, .proceed 0 9]
    s.reports 0 = [.acts 4, .acts 5, .acts 6, .ends (.ok 1)] ∧
      ∀ index, s.stage index ≠ .inside .undefined := by
  intro s
  refine ⟨rfl, (roots_run_like_calls 1 s ⟨_, ?_, rfl⟩).1⟩
  refine ⟨⟨?_, trivial, Nat.one_pos, rfl⟩, ⟨?_, trivial, Nat.one_pos⟩, ⟨?_, trivial, rfl, rfl⟩,
    ⟨?_, rfl, rfl, rfl⟩, ⟨?_, 7, rfl, Option.some_ne_none _, trivial, rfl, Option.some_ne_none _⟩,
    ⟨?_, trivial, 7, 0, rfl, Nat.one_pos⟩,
    ⟨?_, trivial, rfl, Nat.one_pos, rfl, List.cons_ne_nil _ _⟩, ⟨?_, _, rfl⟩,
    ⟨?_, _, rfl, Option.some_ne_none _, rfl⟩, ⟨?_, _, rfl, Option.some_ne_none _, rfl⟩,
    ⟨?_, _, rfl, Option.some_ne_none _, rfl⟩, ⟨?_, _, rfl, Option.some_ne_none _, rfl⟩,
    ⟨?_, _, rfl, Option.some_ne_none _, rfl⟩,
    ⟨?_, 8, rfl, Option.some_ne_none _, ⟨_, rfl⟩, rfl, Option.some_ne_none _⟩,
    ⟨?_, trivial, 8, 0, rfl, Nat.one_pos⟩, ⟨?_, rfl, ⟨_, rfl⟩, rfl⟩,
    ⟨?_, trivial, rfl, Nat.one_pos, rfl, List.cons_ne_nil _ _⟩, ⟨?_, _, rfl⟩,
    ⟨?_, _, rfl, Option.some_ne_none _, rfl⟩, ⟨?_, _, rfl, Option.some_ne_none _, rfl⟩,
    ⟨?_, _, rfl, Option.some_ne_none _, rfl⟩, ⟨?_, _, rfl, Option.some_ne_none _, rfl⟩,
    ⟨?_, _, rfl, Option.some_ne_none _, rfl⟩, ⟨?_, _, rfl, Option.some_ne_none _, rfl⟩, trivial⟩
  all_goals exact unterminated (fun ended => by cases ended) fun _ => rfl

end CoroMultiplex.Async
