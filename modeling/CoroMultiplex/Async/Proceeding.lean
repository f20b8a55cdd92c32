import CoroMultiplex.Async.Moves

/-! One step of a coroutine that has the control of a worker. -/

set_option autoImplicit false

namespace CoroMultiplex.Async

open Foundations Pool

variable {A V E : Type}

namespace Workers

variable [Inhabited V] {s : Workers A V E} {handle : Handle} {promise : Promise V E}

theorem proceed_schedule {index : Nat} (fresh : Handle)
    (active : s.frames handle = some ⟨.active, promise⟩) (rest : Body A V E) :
    s.proceed index fresh (.running handle (.schedule rest)) =
      { s with frames := Function.update s.frames handle (some ⟨.scheduled rest, promise⟩) }.setStage
        index (.adding handle) := by
  simp [proceed, next, view, TaskState.run, TaskState.note, TaskState.suspendAt, TaskState.withFrame,
    active, TaskState.setFrame, setStage]

theorem proceed_await {index : Nat} {fresh : Handle} (apart : handle ≠ fresh)
    (active : s.frames handle = some ⟨.active, promise⟩) (child : Body A V E)
    (after : Except E V → Body A V E) :
    s.proceed index fresh (.running handle (.await child after)) =
      { s with
        pool := s.pool.create fresh
        frames := Function.update
          (Function.update s.frames handle (some ⟨.awaiting fresh after, promise⟩)) fresh
          (some ⟨.initial child, { prevCoro := some handle, returnValue := default }⟩)
        root := Function.update s.root fresh (s.root handle) }.setStage
        index (.inside (.resuming fresh)) := by
  simp only [proceed, next, view, TaskState.run, TaskState.create, TaskState.setFrame, TaskState.note,
    TaskState.suspendAt, TaskState.withFrame, Function.update_of_ne apart, active,
    TaskState.awaitSuspend, Function.update_of_ne apart.symm, Function.update_self, setStage]
  rw [Function.update_comm apart, Function.update_idem, Function.update_comm apart.symm]

theorem proceed_entering {index : Nat} (fresh : Handle) {body : Body A V E} {point : Point A V E}
    (waiting : point = .initial body ∨ point = .scheduled body)
    (found : s.frames handle = some ⟨point, promise⟩) :
    s.proceed index fresh (.resuming handle) =
      { s with frames := Function.update s.frames handle (some ⟨.active, promise⟩) }.setStage
        index (.inside (.running handle body)) := by
  rcases waiting with rfl | rfl <;>
    simp [proceed, next, view, TaskState.resume, TaskState.withFrame, found, TaskState.setFrame, setStage]

theorem proceed_returning {index : Nat} (fresh : Handle) {child : Handle} {stored : Promise V E}
    {after : Except E V → Body A V E} (found : s.frames handle = some ⟨.awaiting child after, promise⟩)
    (final : s.frames child = some ⟨.final, stored⟩) :
    s.proceed index fresh (.resuming handle) =
      { s with frames := Function.update s.frames handle (some ⟨.active, promise⟩) }.setStage
        index (.inside (.running handle (after stored.getValue))) := by
  have apart : child ≠ handle := by
    rintro rfl
    rw [found] at final
    cases final
  simp [proceed, next, view, TaskState.resume, TaskState.withFrame, found, TaskState.setFrame,
    Function.update_of_ne apart, final, TaskState.note, setStage]

omit [Inhabited V] in
/-- An awaited coroutine stores its outcome and hands the control to what awaits it. -/
theorem finish_awaited {caller : Handle} (active : s.frames handle = some ⟨.active, promise⟩)
    (prevCoro : promise.prevCoro = some caller) (unset : promise.returnException = none)
    (attached : promise.detached = false) (fresh : Handle) (control : Control A V E)
    (outcome : Except E V) :
    ∃ stored : Promise V E, stored.getValue = outcome ∧
      ((s.view fresh control).finish handle outcome).frames =
        Function.update s.frames handle (some ⟨.final, stored⟩) ∧
      ((s.view fresh control).finish handle outcome).control = .resuming caller := by
  obtain ⟨returnException, detached, awaiter, returnValue⟩ := promise
  obtain rfl : returnException = none := unset
  obtain rfl : detached = false := attached
  obtain rfl : awaiter = some caller := prevCoro
  obtain ⟨stored, value, same⟩ := @TaskState.finish_attached A V E
    (s.view fresh control) handle caller .active returnValue active outcome
  exact ⟨stored, value, by rw [same]; rfl, by rw [same]⟩

omit [Inhabited V] in
/-- A root that ends gives the control back, or ends the program. -/
theorem finish_unawaited (active : s.frames handle = some ⟨.active, promise⟩)
    (prevCoro : promise.prevCoro = none) (fresh : Handle) (control : Control A V E)
    (outcome : Except E V) :
    ∃ exit, ((s.view fresh control).finish handle outcome).control = .idle exit ∧
      (∀ other, other ≠ handle →
        ((s.view fresh control).finish handle outcome).frames other = s.frames other) ∧
      ((s.view fresh control).finish handle outcome).frames handle ≠ none := by
  obtain ⟨returnException, detached, awaiter, returnValue⟩ := promise
  obtain rfl : awaiter = none := prevCoro
  cases detached <;> cases outcome <;>
    simp +contextual [view, TaskState.finish, TaskState.note, TaskState.withFrame, active,
      TaskState.setFrame, Promise.unhandledException, TaskState.finalSuspend, Promise.finalSuspend,
      ReturnPrevAwaiter.awaitSuspend]

end Workers

section

variable {s s' : Workers A V E} {strands : Strands A V E} {threadCnt index id : Nat} {handle : Handle}

/-- The frames that exist and are not of one strand stay as they are. -/
structure Outside (s s' : Workers A V E) (strand : Strand A V E) : Prop where
  frames : ∀ handle, handle ∉ strand.handles → s.frames handle ≠ none →
    s'.frames handle = s.frames handle
  root : ∀ handle, s.frames handle ≠ none → s'.root handle = s.root handle
  poolFrames : ∀ handle, handle ∉ strand.handles → s.frames handle ≠ none →
    s'.pool.frames handle = s.pool.frames handle

/-- A worker goes on with its strand, or comes to the end of it. -/
structure Onward (s s' : Workers A V E) (index : Nat) (new : Option (Strand A V E)) : Prop where
  spawned : s'.spawned = s.spawned
  calls : s'.pool.calls = s.pool.calls
  tasks : s'.pool.tasks = s.pool.tasks
  workers : s'.pool.workers = s.pool.workers
  elsewhere : ∀ other, other ≠ index → s'.stage other = s.stage other
  here : (s'.stage index).handle? = new.map Strand.top

theorem Tracks.goes (tracks : Tracks s strands) {strand : Strand A V E}
    (stored : strands id = some (.on index, strand)) (new : Option (Strand A V E))
    (outside : Outside s s' strand) (onward : Onward s s' index new)
    (own : ∀ other, new = some other → Upheld s' id (.on index) other) :
    Tracks s' (Function.update strands id (new.map (.on index, ·))) := by
  have before := tracks.upheld id (.on index) strand stored
  have occupied : s.Occupies strand.top (.on index) :=
    (tracks.occupied _ _).mpr ⟨id, by rw [stored]; rfl⟩
  refine tracks.change id _ (fun handle place => ?_) ?_ ?_ fun other => ?_
  · rw [stored]
    cases place with
    | spawned thread => cases new <;> simp [Workers.Occupies, onward.spawned, spot]
    | calling caller => cases new <;> simp [Workers.Occupies, onward.calls, spot]
    | queued other => cases new <;> simp [Workers.Occupies, onward.tasks, spot]
    | popped other => cases new <;> simp [Workers.Occupies, onward.workers, spot]
    | on other =>
      by_cases same : other = index
      · subst same
        have top : (s.stage other).handle? = some strand.top := occupied
        cases new <;> simp [Workers.Occupies, onward.here, top, spot]
      · cases new <;> simp [Workers.Occupies, onward.elsewhere other same, spot, Ne.symm same]
  · intro place located same
    obtain ⟨strand, rfl, pair⟩ := Option.map_eq_some_iff.mp same
    cases pair
    exact own _ rfl
  · intro other place located apart found
    have unended : ∀ handle ∈ located.handles, handle ∉ strand.handles ∧ s.frames handle ≠ none := by
      intro handle member
      obtain ⟨point, promise, _, known⟩ := tracks.framed found member
      exact ⟨fun also => apart (tracks.apart found stored member also), by simp [known]⟩
    refine tracks.keep found (fun handle member => ?_) (fun handle promise final => ?_)
      (fun at_ here => ?_) (fun handle member => outside.root handle (unended handle member).2)
      fun handle member => ?_
    · exact outside.frames handle (unended handle member).1 (unended handle member).2
    · refine outside.frames handle (fun member => ?_) (by simp [final])
      obtain ⟨point, promise_, notFinal, known⟩ := tracks.framed stored member
      rw [known, Option.some.injEq, Frame.mk.injEq] at final
      exact notFinal final.1
    · subst here
      refine onward.elsewhere at_ ?_
      rintro rfl
      exact tracks.elsewhere stored found apart rfl
    · exact outside.poolFrames handle (unended handle member).1 (unended handle member).2
  · rw [onward.tasks]
    exact tracks.distinct other

theorem Workers.Synced.goes (synced : s.Synced threadCnt)
    (reached : (ThreadPool.machine threadCnt).Reachable {} s'.pool)
    (frames : ∀ handle, s'.frames handle = none ↔ s'.pool.frames handle = none)
    {new : Option (Strand A V E)} (onward : Onward s s' index new)
    (inside : s.stage index ≠ .loop)
    (live : s'.stage index ≠ .loop ∧ s'.stage index ≠ .inside .undefined) : s'.Synced threadCnt where
  reached := reached
  frames := frames
  stages other := by
    rw [onward.workers, ← synced.stages other]
    by_cases same : other = index
    · subst same
      exact iff_of_false live.1 inside
    · rw [onward.elsewhere other same]
  defined other := by
    by_cases same : other = index
    · exact same ▸ live.2
    · rw [onward.elsewhere other same]
      exact synced.defined other

/-- A step of a coroutine on a worker leaves less to do. -/
theorem Sound.serves_on {new : Option (Place × Strand A V E)}
    (after : Sound threadCnt s' (Function.update strands id new)) (tracks : Tracks s strands)
    {strand : Strand A V E} (stored : strands id = some (.on index, strand))
    (elsewhere : ∀ other, other ≠ index → s'.stage other = s.stage other)
    (registered : s'.pool.registered = s.pool.registered) (inside : s.stage index ≠ .loop)
    (lighter : weight s'.stage new < weight s.stage (some (.on index, strand))) (bound : Nat) :
    Serves threadCnt bound s strands s' := by
  refine after.serves index (by simp [stored]) (fun other place strand apart found => ?_) elsewhere
    registered ?_ bound
  · exact Place.rank_elsewhere elsewhere (tracks.elsewhere stored found apart)
  · have whole : (s.stage index).busy = 1 := by
      cases at_ : s.stage index with
      | loop => exact absurd at_ inside
      | inside control => rfl
      | adding handle => rfl
    have part : (s'.stage index).busy ≤ 1 := by
      cases s'.stage index <;> simp [Stage.busy]
    rw [stored]
    omega

/-- What a root reports is added to its own reports. -/
theorem Workers.reports_append {report : Report A V E} (log : s'.log = s.log ++ [(id, report)])
    (other : Nat) : s'.reports other = s.reports other ++ if other = id then [report] else [] := by
  rw [Workers.reports, log, List.filterMap_append, Workers.reports]
  by_cases same : other = id
  · simp [same]
  · simp [same, Ne.symm same]

/-- A strand acts. -/
theorem Accounted.acts (accounted : Accounted s strands) {action : A} {outcome : Except E V}
    {actions : List A} (log : s'.log = s.log ++ [(id, .acts action)]) (bodies : s'.bodies = s.bodies)
    (older : s.pool.nextFrame ≤ s'.pool.nextFrame) {new : Option (Place × Strand A V E)}
    (before : account (strands id) = some (outcome, action :: actions))
    (after : account new = some (outcome, actions)) :
    Accounted s' (Function.update strands id new) := by
  obtain ⟨body, spawned, rfl, done⟩ := accounted.ongoing id outcome _ before
  have reports := Workers.reports_append log
  constructor
  · intro other outcome_ actions_ left
    rw [bodies, reports]
    by_cases same : other = id
    · subst same
      rw [Function.update_self, after] at left
      cases left
      refine ⟨body, spawned, rfl, ?_⟩
      simpa using done
    · rw [Function.update_of_ne same] at left
      simpa [same] using accounted.ongoing other outcome_ actions_ left
  · intro other body_ spawned_ gone
    rw [bodies] at spawned_
    by_cases same : other = id
    · subst same
      rw [Function.update_self] at gone
      rw [gone] at after
      cases after
    · rw [Function.update_of_ne same] at gone
      rw [reports, if_neg same, List.append_nil]
      exact accounted.ended other body_ spawned_ gone
  · intro other spawned_
    rw [bodies] at spawned_
    exact Nat.lt_of_lt_of_le (accounted.known other spawned_) older
  · intro entry member
    rw [bodies]
    rw [log, List.mem_append, List.mem_singleton] at member
    rcases member with old | rfl
    · exact accounted.logged entry old
    · simp [spawned]

/-- A root ends. -/
theorem Accounted.ends (accounted : Accounted s strands) {outcome : Except E V}
    (log : s'.log = s.log ++ [(id, .ends outcome)]) (bodies : s'.bodies = s.bodies)
    (older : s.pool.nextFrame ≤ s'.pool.nextFrame)
    (before : account (strands id) = some (outcome, [])) :
    Accounted s' (Function.update strands id none) := by
  obtain ⟨body, spawned, rfl, done⟩ := accounted.ongoing id outcome _ before
  have reports := Workers.reports_append log
  constructor
  · intro other outcome_ actions_ left
    have same : other ≠ id := by
      rintro rfl
      rw [Function.update_self] at left
      cases left
    rw [Function.update_of_ne same] at left
    rw [bodies, reports, if_neg same, List.append_nil]
    exact accounted.ongoing other outcome_ actions_ left
  · intro other body_ spawned_ gone
    rw [bodies] at spawned_
    by_cases same : other = id
    · subst same
      rw [spawned, Option.some.injEq] at spawned_
      subst spawned_
      rw [reports, if_pos rfl, ← done]
      simp
    · rw [Function.update_of_ne same] at gone
      rw [reports, if_neg same, List.append_nil]
      exact accounted.ended other body_ spawned_ gone
  · intro other spawned_
    rw [bodies] at spawned_
    exact Nat.lt_of_lt_of_le (accounted.known other spawned_) older
  · intro entry member
    rw [bodies]
    rw [log, List.mem_append, List.mem_singleton] at member
    rcases member with old | rfl
    · exact accounted.logged entry old
    · simp [spawned]

/-- The strand of the coroutine that has the control of a worker. -/
theorem Tracks.running (tracks : Tracks s strands) {control : Control A V E}
    (here : s.stage index = .inside control) (top : control.handle? = some handle) :
    ∃ body callers, strands (s.root handle) = some (.on index, ⟨handle, body, callers⟩) ∧
      Upheld s (s.root handle) (.on index) ⟨handle, body, callers⟩ ∧
      Strand.Goes s.frames ⟨handle, body, callers⟩ (.inside control) := by
  have occupied : s.Occupies handle (.on index) := by
    change (s.stage index).handle? = _
    rw [here]
    exact top
  obtain ⟨⟨_, body, callers⟩, stored, rfl, upheld⟩ := tracks.located occupied
  have goes : Strand.Goes s.frames ⟨_, body, callers⟩ (s.stage index) := upheld.ready
  rw [here] at goes
  exact ⟨body, callers, stored, upheld, goes⟩

section

variable [Inhabited V]

/-- A coroutine acts. -/
theorem Sound.perform (sound : Sound threadCnt s strands) {action : A} {rest : Body A V E}
    (here : s.stage index = .inside (.running handle (.perform action rest))) (fresh : Handle)
    (bound : Nat) :
    Serves threadCnt bound s strands
      (s.proceed index fresh (.running handle (.perform action rest))) := by
  obtain ⟨synced, tracks, accounted⟩ := sound
  obtain ⟨_, callers, stored, upheld, rfl, active⟩ := tracks.running here rfl
  have still : (s.proceed index fresh (.running handle (.perform action rest))).stage index =
      .inside (.running handle rest) := Function.update_self ..
  have onward : Onward s (s.proceed index fresh (.running handle (.perform action rest))) index
      (some ⟨handle, rest, callers⟩) :=
    ⟨rfl, rfl, rfl, rfl, fun other apart => Function.update_of_ne apart .., by rw [still]; rfl⟩
  have after : Sound threadCnt (s.proceed index fresh (.running handle (.perform action rest)))
      (Function.update strands (s.root handle) (some (.on index, ⟨handle, rest, callers⟩))) := by
    refine ⟨synced.goes synced.reached synced.frames onward (by simp [here]) (Stage.live onward.here),
      tracks.goes stored (some ⟨handle, rest, callers⟩)
        ⟨fun _ _ _ => rfl, fun _ _ => rfl, fun _ _ _ => rfl⟩ onward ?_,
      accounted.acts (by rfl) (by rfl) (by exact Nat.le_refl _) (by rw [stored]; rfl) (by rfl)⟩
    intro other same
    cases same
    refine ⟨?_, upheld.owned.distinct, upheld.owned.rooted, upheld.owned.bottom, upheld.owned.pending⟩
    change Strand.Goes _ _ ((s.proceed index fresh (.running handle (.perform action rest))).stage index)
    rw [still]
    exact ⟨rfl, active⟩
  refine after.serves_on tracks stored onward.elsewhere (by rfl) (by simp [here]) ?_ bound
  simp only [weight, Place.rank, still, here, Strand.work, Body.work, Body.eval]
  omega

omit [Inhabited V] in
/-- A coroutine with the control of a worker comes to another point. -/
theorem Sound.turn (sound : Sound threadCnt s strands) {body rest : Body A V E}
    {callers : List (Handle × (Except E V → Body A V E))}
    (stored : strands id = some (.on index, ⟨handle, body, callers⟩)) {at_ : Point A V E}
    {promise : Promise V E} (found : s.frames handle = some ⟨at_, promise⟩)
    (linked : Linked s.frames handle promise callers) (inside : s.stage index ≠ .loop)
    (point : Point A V E) (stage : Stage A V E) (top : stage.handle? = some handle)
    (goes : ∀ frames, Strand.Backed frames ⟨handle, rest, callers⟩ point →
      Strand.Goes frames ⟨handle, rest, callers⟩ stage)
    (same : account (some (.on index, ⟨handle, rest, callers⟩)) =
      account (some (.on index, ⟨handle, body, callers⟩)))
    (lighter : weight (Function.update s.stage index stage)
        (some (.on index, ⟨handle, rest, callers⟩)) <
      weight s.stage (some (.on index, ⟨handle, body, callers⟩))) (bound : Nat) :
    Serves threadCnt bound s strands ({ s with
      frames := Function.update s.frames handle (some ⟨point, promise⟩) }.setStage index stage) := by
  obtain ⟨synced, tracks, accounted⟩ := sound
  have upheld := tracks.upheld id (.on index) _ stored
  have onward : Onward s ({ s with
      frames := Function.update s.frames handle (some ⟨point, promise⟩) }.setStage index stage) index
      (some ⟨handle, rest, callers⟩) :=
    ⟨rfl, rfl, rfl, rfl, fun other apart => Workers.setStage_elsewhere _ _ apart, by simpa using top⟩
  have after : Sound threadCnt ({ s with
      frames := Function.update s.frames handle (some ⟨point, promise⟩) }.setStage index stage)
      (Function.update strands id (some (.on index, ⟨handle, rest, callers⟩))) := by
    refine ⟨synced.goes synced.reached (fun other => ?_) onward inside (Stage.live onward.here),
      tracks.goes stored (some ⟨handle, rest, callers⟩) ⟨fun other outside _ => ?_, fun _ _ => rfl,
        fun _ _ _ => rfl⟩ onward fun strand made => ?_,
      accounted.move (by rfl) (by rfl) (by exact Nat.le_refl _) (by rw [stored]; exact same)⟩
    · change Function.update s.frames handle _ other = none ↔ s.pool.frames other = none
      rw [← synced.frames]
      by_cases here : other = handle
      · subst here
        simp [found]
      · rw [Function.update_of_ne here]
    · have apart : other ≠ handle := fun here => outside (here ▸ List.mem_cons_self)
      exact Function.update_of_ne apart ..
    · cases made
      refine ⟨?_, upheld.owned.distinct, upheld.owned.rooted, upheld.owned.bottom, upheld.owned.pending⟩
      change Strand.Goes _ _ (Function.update s.stage index stage index)
      rw [Function.update_self]
      refine goes _ ⟨promise, Function.update_self .., linked.kept fun other member => ?_⟩
      have apart : other ≠ handle := fun here =>
        (List.nodup_cons.mp upheld.owned.distinct).1 (here ▸ member)
      exact Function.update_of_ne apart ..
  exact after.serves_on tracks stored onward.elsewhere (by rfl) inside lighter bound

/-- A coroutine suspends on the scheduler. -/
theorem Sound.suspend (sound : Sound threadCnt s strands) {rest : Body A V E}
    (here : s.stage index = .inside (.running handle (.schedule rest))) (fresh : Handle)
    (bound : Nat) :
    Serves threadCnt bound s strands (s.proceed index fresh (.running handle (.schedule rest))) := by
  obtain ⟨_, callers, stored, upheld, rfl, promise, found, linked⟩ := sound.tracks.running here rfl
  rw [Workers.proceed_schedule fresh found]
  refine sound.turn stored found linked (by simp [here]) (.scheduled rest) (.adding handle) rfl
    (fun _ backed => backed) rfl ?_ bound
  simp only [weight, Place.rank, Function.update_self, here, Strand.work, Body.work, Body.eval]
  omega

/-- A coroutine is entered, at its beginning or behind one of its awaits. -/
theorem Sound.enter (sound : Sound threadCnt s strands)
    (here : s.stage index = .inside (.resuming handle)) (fresh : Handle) (bound : Nat) :
    Serves threadCnt bound s strands (s.proceed index fresh (.resuming handle)) := by
  obtain ⟨body, callers, stored, upheld, goes⟩ := sound.tracks.running here rfl
  have inside : s.stage index ≠ .loop := by simp [here]
  have lighter : weight (Function.update s.stage index (.inside (.running handle body)))
        (some (.on index, ⟨handle, body, callers⟩)) <
      weight s.stage (some (.on index, ⟨handle, body, callers⟩)) := by
    simp only [weight, Place.rank, Function.update_self, here]
    omega
  rcases goes with (⟨promise, found, linked⟩ | ⟨promise, found, linked⟩) |
    ⟨child, after, outcome, final, same, promise, found, linked⟩
  · rw [Workers.proceed_entering fresh (.inl rfl) found]
    exact sound.turn stored found linked inside .active (.inside (.running handle body)) rfl
      (fun _ backed => ⟨rfl, backed⟩) rfl lighter bound
  · rw [Workers.proceed_entering fresh (.inr rfl) found]
    exact sound.turn stored found linked inside .active (.inside (.running handle body)) rfl
      (fun _ backed => ⟨rfl, backed⟩) rfl lighter bound
  · rw [Workers.proceed_returning fresh found final]
    change after outcome.getValue = body at same
    rw [same]
    exact sound.turn stored found linked inside .active (.inside (.running handle body)) rfl
      (fun _ backed => ⟨rfl, backed⟩) rfl lighter bound

/-- A coroutine creates a task and awaits it. -/
theorem Sound.await (sound : Sound threadCnt s strands) {child : Body A V E}
    {after : Except E V → Body A V E} {fresh : Handle}
    (here : s.stage index = .inside (.running handle (.await child after)))
    (free : s.pool.frames fresh = none) (bound : Nat) :
    Serves threadCnt bound s strands
      (s.proceed index fresh (.running handle (.await child after))) := by
  obtain ⟨synced, tracks, accounted⟩ := sound
  obtain ⟨_, callers, stored, upheld, rfl, promise, found, linked⟩ := tracks.running here rfl
  have absent := synced.free free
  have apart : ∀ other ∈ handle :: callers.map Prod.fst, other ≠ fresh := by
    rintro other member rfl
    obtain ⟨_, _, _, known⟩ := tracks.framed stored member
    rw [absent] at known
    cases known
  have distinct := List.nodup_cons.mp upheld.owned.distinct
  rw [Workers.proceed_await (apart handle List.mem_cons_self) found]
  have onward : Onward s ({ s with
        pool := s.pool.create fresh
        frames := Function.update
          (Function.update s.frames handle (some ⟨.awaiting fresh after, promise⟩)) fresh
          (some ⟨.initial child, { prevCoro := some handle, returnValue := default }⟩)
        root := Function.update s.root fresh (s.root handle) }.setStage
        index (.inside (.resuming fresh))) index (some ⟨fresh, child, (handle, after) :: callers⟩) :=
    ⟨rfl, rfl, rfl, rfl, fun other apart => Workers.setStage_elsewhere _ _ apart, by
      simp [Stage.handle?, Control.handle?]⟩
  have sound_ : Sound threadCnt ({ s with
        pool := s.pool.create fresh
        frames := Function.update
          (Function.update s.frames handle (some ⟨.awaiting fresh after, promise⟩)) fresh
          (some ⟨.initial child, { prevCoro := some handle, returnValue := default }⟩)
        root := Function.update s.root fresh (s.root handle) }.setStage
        index (.inside (.resuming fresh)))
      (Function.update strands (s.root handle)
        (some (.on index, ⟨fresh, child, (handle, after) :: callers⟩))) := by
    refine ⟨synced.goes (synced.reached.next (.create fresh) free) (fun other => ?_) onward
        (by simp [here]) (Stage.live onward.here),
      tracks.goes stored (some ⟨fresh, child, (handle, after) :: callers⟩)
        ⟨fun other outside known => ?_, fun other known => ?_, fun other _ known => ?_⟩ onward
        fun strand made => ?_,
      accounted.move (by rfl) (by rfl) (Nat.le_succ _) ?_⟩
    · change Function.update (Function.update s.frames handle _) fresh _ other = none ↔
        Function.update s.pool.frames fresh _ other = none
      by_cases here : other = fresh
      · simp [here]
      · rw [Function.update_of_ne here, Function.update_of_ne here, ← synced.frames]
        by_cases own : other = handle
        · subst own
          simp [found]
        · rw [Function.update_of_ne own]
    · have new : other ≠ fresh := fun same => known (same ▸ absent)
      have own : other ≠ handle := fun same => outside (same ▸ List.mem_cons_self)
      exact (Function.update_of_ne new ..).trans (Function.update_of_ne own ..)
    · have new : other ≠ fresh := fun same => known (same ▸ absent)
      exact Function.update_of_ne new ..
    · have new : other ≠ fresh := fun same => known (same ▸ absent)
      exact Function.update_of_ne new ..
    · cases made
      refine ⟨?_, ?_, ?_, ?_, ?_⟩
      · change Strand.Goes _ _ (Function.update s.stage index _ index)
        rw [Function.update_self]
        refine .inl (.inl ⟨_, Function.update_self .., ⟨rfl, rfl, rfl⟩, promise, ?_, ?_⟩)
        · exact (Function.update_of_ne (apart handle List.mem_cons_self) ..).trans
            (Function.update_self ..)
        · refine linked.kept fun other member => ?_
          have own : other ≠ handle := fun same => distinct.1 (same ▸ member)
          exact (Function.update_of_ne (apart other (List.mem_cons_of_mem _ member)) ..).trans
            (Function.update_of_ne own ..)
      · exact List.nodup_cons.mpr ⟨fun member => apart fresh member rfl, upheld.owned.distinct⟩
      · intro other member
        rcases List.mem_cons.mp member with rfl | old
        · exact Function.update_self ..
        · exact (Function.update_of_ne (apart other old) ..).trans (upheld.owned.rooted other old)
      · change (s.pool.create fresh).frameId _ = _
        refine (ThreadPool.create_keeps free _).frame _ ?_
        exact upheld.owned.bottom
      · intro other member
        change (s.pool.create fresh).isDone other = false
        rcases List.mem_cons.mp member with rfl | old
        · simp [ThreadPool.isDone, ThreadPool.create]
        · simp only [ThreadPool.isDone, ThreadPool.create, Function.update_of_ne (apart other old)]
          exact upheld.owned.pending other old
    · rw [stored]
      simp only [account, Option.map_some, Strand.outcome_await, Strand.actions_await]
  refine sound_.serves_on tracks stored onward.elsewhere (by rfl) (by simp [here]) ?_ bound
  simp only [weight, Place.rank, Workers.setStage_here, here, Strand.work, Strand.unwindWork, Body.work,
    Body.eval]
  omega

theorem Workers.proceed_done (s : Workers A V E) (index : Nat) (fresh handle : Handle)
    (outcome : Except E V) :
    s.proceed index fresh (.running handle (.done outcome)) =
      { s with
        pool := s.pool.finish handle
        frames := ((s.view fresh (.running handle (.done outcome))).finish handle outcome).frames
        log := s.log ++ if s.pool.frameId handle = some (s.root handle)
          then [(s.root handle, Report.ends outcome)] else [] }.setStage index
        (.inside ((s.view fresh (.running handle (.done outcome))).finish handle outcome).control) := by
  by_cases root : s.pool.frameId handle = some (s.root handle) <;>
    simp [Workers.proceed, root, next, TaskState.run, Workers.view, Workers.report, Workers.setStage]

omit [Inhabited V] in
/-- The pool has the frame of a coroutine in a strand, and has not seen its end. -/
theorem Workers.Synced.unended (synced : s.Synced threadCnt) (tracks : Tracks s strands) {place : Place}
    {strand : Strand A V E} (stored : strands id = some (place, strand))
    (member : handle ∈ strand.handles) :
    ∃ frame, s.pool.frames handle = some frame ∧ frame.done = false := by
  have pending := (tracks.upheld id place strand stored).owned.pending handle member
  obtain ⟨point, promise, _, found⟩ := tracks.framed stored member
  have alive : s.pool.frames handle ≠ none := fun gone => by
    rw [(synced.frames handle).mpr gone] at found
    cases found
  obtain ⟨frame, known⟩ := Option.ne_none_iff_exists'.mp alive
  exact ⟨frame, known, by simpa [ThreadPool.isDone, known] using pending⟩

omit [Inhabited V] in
/-- The end of a coroutine leaves the frames of the others as they are. -/
theorem Sound.ending (synced : s.Synced threadCnt) (tracks : Tracks s strands) {strand : Strand A V E}
    (stored : strands id = some (.on index, strand)) (pool : s'.pool = s.pool.finish strand.top)
    (frames : ∀ other, other ≠ strand.top → s'.frames other = s.frames other)
    (there : s'.frames strand.top ≠ none) (root : s'.root = s.root) {new : Option (Strand A V E)}
    (onward : Onward s s' index new) (inside : s.stage index ≠ .loop)
    (live : s'.stage index ≠ .loop ∧ s'.stage index ≠ .inside .undefined)
    (own : ∀ other, new = some other → Upheld s' id (.on index) other) :
    s'.Synced threadCnt ∧ Tracks s' (Function.update strands id (new.map (.on index, ·))) := by
  obtain ⟨frame, known, unended⟩ := synced.unended tracks stored List.mem_cons_self
  refine ⟨synced.goes ?_ (fun other => ?_) onward inside live,
    tracks.goes stored new ⟨fun other outside _ => ?_, fun _ _ => by rw [root], fun other outside _ => ?_⟩
      onward own⟩
  · rw [pool]
    exact synced.reached.next (.finish strand.top) ⟨frame, known, unended⟩
  · rw [pool]
    by_cases here : other = strand.top
    · subst here
      exact iff_of_false there (by simp [ThreadPool.finish, known])
    · rw [frames other here]
      simpa [ThreadPool.finish, here] using synced.frames other
  · exact frames other fun same => outside (same ▸ List.mem_cons_self)
  · have apart : other ≠ strand.top := fun same => outside (same ▸ List.mem_cons_self)
    rw [pool]
    exact Function.update_of_ne apart ..

/-- A coroutine ends: control goes to the one that awaits it, or the root is over. -/
theorem Sound.done (sound : Sound threadCnt s strands) {outcome : Except E V}
    (here : s.stage index = .inside (.running handle (.done outcome))) (fresh : Handle) (bound : Nat) :
    Serves threadCnt bound s strands (s.proceed index fresh (.running handle (.done outcome))) := by
  obtain ⟨synced, tracks, accounted⟩ := sound
  obtain ⟨_, callers, stored, upheld, rfl, promise, found, linked⟩ := tracks.running here rfl
  have inside : s.stage index ≠ .loop := by simp [here]
  have identified := ThreadPool.identified_reachable synced.reached
  have distinct := List.nodup_cons.mp upheld.owned.distinct
  rw [Workers.proceed_done]
  cases callers with
  | nil =>
    obtain ⟨exit, control, frames, there⟩ := Workers.finish_unawaited found linked.1 fresh
      (.running handle (.done outcome)) outcome
    have root : s.pool.frameId handle = some (s.root handle) := upheld.owned.bottom
    rw [if_pos root, control]
    have onward : Onward s ({ s with
        pool := s.pool.finish handle
        frames := ((s.view fresh (.running handle (.done outcome))).finish handle outcome).frames
        log := s.log ++ [(s.root handle, Report.ends outcome)] }.setStage index
        (.inside (.idle exit))) index none :=
      ⟨rfl, rfl, rfl, rfl, fun other apart => Workers.setStage_elsewhere _ _ apart, by
        simp [Stage.handle?, Control.handle?]⟩
    obtain ⟨synced_, tracks_⟩ := Sound.ending synced tracks stored (by rfl) frames there (by rfl)
      onward inside (by simp) fun _ made => by cases made
    refine (Sound.mk synced_ tracks_ (accounted.ends rfl rfl (Nat.le_refl _)
      (by rw [stored]; rfl))).serves_on tracks stored onward.elsewhere (by rfl) inside ?_ bound
    simp only [weight, Option.map_none, Strand.work, Body.work]
    omega
  | cons caller callers =>
    obtain ⟨caller, after⟩ := caller
    obtain ⟨⟨prevCoro, unset, attached⟩, suspended, awaiting, behind⟩ := linked
    obtain ⟨kept, value, frames, control⟩ := Workers.finish_awaited found prevCoro unset attached fresh
      (.running handle (.done outcome)) outcome
    have root : s.pool.frameId handle ≠ some (s.root handle) := by
      intro root
      have bottom := upheld.owned.bottom
      have last : Strand.bottom (⟨handle, .done outcome, (caller, after) :: callers⟩ : Strand A V E) =
          Strand.bottom (⟨caller, after outcome, callers⟩ : Strand A V E) := rfl
      rw [last] at bottom
      have same := identified.apart _ _ _ root bottom
      exact distinct.1 (same ▸ Strand.bottom_mem _)
    have elsewhere : ∀ other ∈ caller :: callers.map Prod.fst, other ≠ handle := by
      rintro other member rfl
      exact distinct.1 member
    rw [if_neg root, List.append_nil, control, frames]
    have onward : Onward s ({ s with
        pool := s.pool.finish handle
        frames := Function.update s.frames handle (some ⟨.final, kept⟩) }.setStage index
        (.inside (.resuming caller))) index (some ⟨caller, after outcome, callers⟩) :=
      ⟨rfl, rfl, rfl, rfl, fun other apart => Workers.setStage_elsewhere _ _ apart, by
        simp [Stage.handle?, Control.handle?]⟩
    obtain ⟨synced_, tracks_⟩ := Sound.ending synced tracks stored (by rfl)
      (fun other apart => Function.update_of_ne apart ..) (by simp [Workers.setStage]) (by rfl)
      onward inside (Stage.live onward.here) fun other made => by
        cases made
        exact {
          ready := by
            change Strand.Goes _ _ (Function.update s.stage index _ index)
            rw [Function.update_self]
            refine .inr ⟨handle, after, kept, Function.update_self .., congrArg after value, suspended,
              ?_, behind.kept fun other member => ?_⟩
            · exact (Function.update_of_ne (elsewhere caller List.mem_cons_self) ..).trans awaiting
            · exact Function.update_of_ne (elsewhere other (List.mem_cons_of_mem _ member)) ..
          owned := by
            refine ⟨distinct.2, fun other member => ?_, ?_, fun other member => ?_⟩
            · exact upheld.owned.rooted other (List.mem_cons_of_mem _ member)
            · exact (ThreadPool.finish_frameId s.pool handle _).trans upheld.owned.bottom
            · change (s.pool.finish handle).isDone other = false
              simp only [ThreadPool.isDone, ThreadPool.finish,
                Function.update_of_ne (elsewhere other member)]
              exact upheld.owned.pending other (List.mem_cons_of_mem _ member) }
    refine (Sound.mk synced_ tracks_ (accounted.move (by rfl) (by rfl) (by exact Nat.le_refl _)
      (by rw [stored]; rfl))).serves_on tracks stored onward.elsewhere (by rfl) inside ?_ bound
    simp only [weight, Option.map_some, Place.rank, Workers.setStage_here, here, Strand.work,
      Strand.unwindWork, Body.work, Body.eval]
    omega

theorem Sound.proceed (sound : Sound threadCnt s strands) {control : Control A V E} {fresh : Handle}
    (here : s.stage index = .inside control) (busy : control.handle? ≠ none)
    (free : s.pool.frames fresh = none) (bound : Nat) :
    Serves threadCnt bound s strands (s.proceed index fresh control) := by
  cases control with
  | running handle body =>
    cases body with
    | done outcome => exact sound.done here fresh bound
    | perform action rest => exact sound.perform here fresh bound
    | schedule rest => exact sound.suspend here fresh bound
    | await child after => exact sound.await here free bound
  | resuming handle => exact sound.enter here fresh bound
  | idle exit => exact absurd rfl busy
  | undefined => exact absurd rfl busy

theorem Sound.step (sound : Sound threadCnt s strands) {event : WorkersEvent A V E}
    (enabled : s.Enabled threadCnt event) :
    ∃ strands', Sound threadCnt (s.step threadCnt event) strands' := by
  cases event with
  | pool event =>
    obtain ⟨plain, enabled⟩ := enabled
    cases event with
    | launch => exact ⟨_, sound.starts (.inl rfl) enabled⟩
    | register => exact ⟨_, sound.starts (.inr (.inl rfl)) enabled⟩
    | construct => exact ⟨_, sound.starts (.inr (.inr rfl)) enabled⟩
    | push caller => exact (sound.push enabled 0).sound
    | pop index => exact (sound.pop enabled 0).sound
    | clean order => exact ⟨_, sound.clean enabled⟩
    | create task => exact plain.elim
    | finish task => exact plain.elim
    | bind caller task => exact plain.elim
    | resume index => exact plain.elim
    | leave index => exact plain.elim
  | spawn thread task body detached => exact sound.spawn enabled.1 enabled.2.2 body detached
  | add thread =>
    obtain ⟨task, spawned, enabled⟩ := enabled
    simp only [Workers.step, spawned]
    exact (sound.add spawned enabled 0).sound
  | resume index =>
    obtain ⟨entry, holding⟩ := enabled
    simp only [Workers.step, holding, Worker.entry]
    exact (sound.resume holding 0).sound
  | proceed index fresh =>
    obtain ⟨control, here, busy, free⟩ := enabled
    simp only [Workers.step, here]
    exact (sound.proceed here busy free 0).sound
  | schedule index =>
    obtain ⟨handle, here, enabled⟩ := enabled
    simp only [Workers.step, here]
    exact (sound.schedule here enabled 0).sound
  | leave index => exact ⟨_, sound.leave enabled.1 enabled.2⟩

omit [Inhabited V] in
theorem sound_start (threadCnt : Nat) : Sound threadCnt ({} : Workers A V E) fun _ => none where
  synced := ⟨⟨[], trivial, rfl⟩, fun _ => iff_of_true rfl rfl, fun _ => by simp, fun _ same => by cases same⟩
  tracks := by
    refine ⟨?_, fun handle place => ?_, fun _ => List.nodup_nil⟩
    · rintro _ _ _ ⟨⟩
    · cases place <;> simp [Workers.Occupies, spot, Stage.handle?]
  accounted := by
    refine ⟨?_, ?_, ?_, ?_⟩
    · rintro _ _ _ ⟨⟩
    · rintro _ _ ⟨⟩
    · exact fun _ known => absurd rfl known
    · rintro _ ⟨⟩

theorem sound_reachable (reached : (workers A V E threadCnt).Reachable {} s) :
    ∃ strands, Sound threadCnt s strands :=
  reached.holds (fun s => ∃ strands, Sound threadCnt s strands) ⟨_, sound_start threadCnt⟩
    fun _ _ ⟨_, sound⟩ enabled => sound.step enabled.2

end

end

end CoroMultiplex.Async
