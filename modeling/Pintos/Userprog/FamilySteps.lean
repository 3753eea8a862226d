import Pintos.Userprog.Family

/-! # Every step keeps families sound

One lemma for each control point: what the thread goes on to rely on, and what it leaves to the others.
-/

namespace Pintos.Userprog

open Function List Option State Frame

/-! ## The shapes of stacks -/

variable {rest : List Frame} {frame : Frame} {p : Page}

section

variable (shape : Shape p (frame :: rest))

include shape

theorem Shape.of_bottom (isBottom : frame.isBottom) : rest = [] := by
  cases shape with
  | bottom _ => rfl
  | call inCall => cases frame <;> simp_all [Frame.isBottom, Frame.inCall]
  | exit kills => cases frame <;> simp_all [Frame.isBottom, Frame.kills]
  | nested => simp [Frame.isBottom] at isBottom

theorem Shape.of_call (inCall : frame.inCall) : rest = [.user] := by
  cases shape with
  | bottom isBottom => cases frame <;> simp_all [Frame.isBottom, Frame.inCall]
  | call _ => rfl
  | exit kills => cases frame <;> simp_all [Frame.inCall, Frame.kills]
  | nested => simp [Frame.inCall] at inCall

theorem Shape.of_exit (notBottom : frame.isBottom = false) (notCall : frame.inCall = false)
    (notKill : frame.isKill = false) : frame.kills p ∧ rest = [.die] := by
  cases shape with
  | bottom isBottom => simp [notBottom] at isBottom
  | call inCall => simp [notCall] at inCall
  | exit kills => exact ⟨kills, rfl⟩
  | nested => simp [isKill] at notKill

variable {target : Page}

theorem Shape.of_target (isTarget : frame.kills p = decide (target = p)) (notBottom : frame.isBottom = false := by rfl)
    (notCall : frame.inCall = false := by rfl) (notKill : frame.isKill = false := by rfl) : target = p ∧
      rest = [.die] := by
  obtain ⟨kills, isRest⟩ := shape.of_exit notBottom notCall notKill
  exact ⟨of_decide_eq_true (isTarget.symm.trans kills), isRest⟩

end

variable {ttarget : Option Page}

theorem Shape.of_kill (shape : Shape p (.kill ttarget :: rest)) :
    ttarget = some p ∧ rest = [.die] ∨
      ∃ childSema i elemPointer, rest = [.killDown p childSema i elemPointer, .die] := by
  cases shape with
  | bottom isBottom => simp [Frame.isBottom] at isBottom
  | call inCall => simp [Frame.inCall] at inCall
  | exit kills => exact .inl ⟨by simpa [Frame.kills] using kills, rfl⟩
  | nested _ childSema i elemPointer => exact .inr ⟨childSema, i, elemPointer, rfl⟩

variable {s : State}

/-- An entry is written, apart from some of its fields. -/
theorem map_update {α : Type} {i : Elem} {fields : ChildElem → α} {elem elem' : ChildElem}
    (found : s.elems i = some elem)
    (same : fields elem' = fields elem) (j : Elem) :
    (update s.elems i (some elem') j).map fields = (s.elems j).map fields := by
  by_cases isI : j = i
  · rw [isI, update_self, found, map_some, map_some, same]
  · rw [update_of_ne isI]

/-- Entries that are written keep their threads. -/
theorem exists_written {elems elems' : Elem → Option ChildElem} (written : ∀ i,
      (elems' i).map (fun e => (e.childTid, e.tchild)) = (elems i).map fun e => (e.childTid, e.tchild)) {i : Elem}
    {e : ChildElem} (found : elems i = some e) :
    ∃ e', elems' i = some e' ∧ e'.childTid = e.childTid ∧ e'.tchild = e.tchild := by
  have same := written i
  rw [found] at same
  obtain ⟨e', found', both⟩ := map_eq_some_iff.mp same
  exact ⟨e', found', (Prod.mk.inj both).1, (Prod.mk.inj both).2⟩

/-! ## `start_process` and user code -/

variable {elemPointer : Option Elem} {t : Tid} {tid : Option Tid} {status : Int}

section Steps

variable {s s' : State} {p : Page} {d : Tid} (h : Sound s) (live : s.tid p = some d) {success : Bool}

include h live

/-- The parent of a thread that has not reported yet waits for it in `process_execute`. -/
theorem Sound.loading (top : s.stack p = [.load] ∨ ∃ success, s.stack p = [.loaded success]) :
    s.stack (s.tparent p) = [.executeDown (some d), .user] ∧ s.creationSema (s.tparent p) = 0 ∧ p ≠ initialPage ∧
      s.tid (s.tparent p) = some (s.parentTid p) := by
  have waits : s.stack (s.tparent p) = [.executeDown (some d), .user] ∧ s.creationSema (s.tparent p) = 0 := by
    have relies := h.relies p d live
    rcases top with top | ⟨success, top⟩ <;>
    · rw [top] at relies
      exact relies
  have notInitial : p ≠ initialPage := by
    rintro rfl
    rw [h.initial.2] at waits
    rcases top with top | ⟨success, top⟩ <;>
    · rw [top] at waits
      cases waits.1
  refine ⟨waits.1, waits.2, notInitial, (h.parent p d live notInitial ?_).1⟩
  rcases top with top | ⟨success, top⟩ <;>
  · rw [top]
    rfl

theorem Sound.load (top : s.stack p = [.load]) : Sound { s with stack := update s.stack p [.loaded success] } := by
  obtain ⟨down, zero, notInitial, -⟩ := h.loading live (.inl top)
  refine h.proceed live top rfl (.bottom rfl) ?_ {}
  show update s.stack p [.loaded success] (s.tparent p) = _ ∧ _
  rw [update_of_ne (h.elder p d live notInitial)]
  exact ⟨down, zero⟩

variable {old new : List Frame}

/-- User code calls `process_execute` or `process_wait`, or the thread exits. -/
theorem Sound.leaveUser (top : s.stack p = old) (isOld : old = [.user] ∨ ∃ success, old = [.started success])
    (isNew : new = [.user] ∨ new = [.executeLock, .user] ∨ (∃ t, new = [.waitLock t, .user]) ∨
      (∃ status, new = [.exitLock status]) ∨ new = threadExit p) (childSuccess : Page → Bool) :
    Sound { s with stack := update s.stack p new, childSuccess := childSuccess } := by
  have isLevel : near old = true ∧ staying old = true ∧ (∀ c, old ≠ [.executeDown c, .user]) ∧ old ≠ [.die] := by
    rcases isOld with rfl | ⟨success, rfl⟩ <;> exact ⟨rfl, rfl, by simp, by simp⟩
  obtain ⟨nearOld, stayingOld, notDown, notDead⟩ := isLevel
  have isNext : near new = true ∧ staying new = true ∧ Shape p new ∧ ∀ s', Relies s' p d new := by
    rcases isNew with rfl | rfl | ⟨t, rfl⟩ | ⟨status, rfl⟩ | rfl
    · exact ⟨rfl, rfl, .bottom rfl, fun _ => trivial⟩
    · exact ⟨rfl, rfl, .call rfl, fun _ => trivial⟩
    · exact ⟨rfl, rfl, .call rfl, fun _ => trivial⟩
    · exact ⟨rfl, rfl, .bottom rfl, fun _ => trivial⟩
    · exact ⟨rfl, rfl, .exit (by simp [kills]), fun _ => trivial⟩
  obtain ⟨nearNew, stayingNew, shape, relies⟩ := isNext
  refine h.proceed live top rfl shape (relies _)
    { nearSame := nearNew.trans nearOld.symm, stayingSame := stayingNew.trans stayingOld.symm, notDown, notDead } ?_
  rcases isNew with rfl | rfl | ⟨t, rfl⟩ | ⟨status, rfl⟩ | rfl <;> rintro _ _ _ ⟨⟩ ⟨⟩

/-- The child reports to its parent, which waits in `process_execute`. -/
theorem Sound.report {t : Page} {parentTid : Tid} (parentLive : s.tid t = some parentTid)
    (down : s.stack t = [.executeDown (some d), .user]) (zero : s.creationSema t = 0) (creates : Creates s t d p)
    (loaded : s.stack p ≠ [.load] ∧ ∀ success, s.stack p ≠ [.loaded success]) (childSuccess : Page → Bool) :
    Sound { s with
      childSuccess := childSuccess
      ttmpchild := update s.ttmpchild t (some p)
      creationSema := update s.creationSema t 1 } := by
  refine { h with relies := ?_, sema := ?_ }
  · intro q e alive
    by_cases isParent : q = t
    · subst isParent
      obtain rfl : e = parentTid := some.inj (alive.symm.trans parentLive)
      show Relies _ _ _ (s.stack q)
      rw [down]
      exact ⟨p, ⟨creates.tid, creates.tparent, creates.notInitial, creates.near⟩, fun _ => update_self ..⟩
    · refine (h.relies q e alive).mono ?_ ?_ (fun _ _ _ _ => id) (by simp [isParent]) (by simp [isParent])
      · -- Its parent is not `t`, which waits for another child.
        intro isLoading waits isZero
        have elsewhere : s.tparent q ≠ t := by
          intro same
          rw [same, down] at waits
          obtain rfl : d = e := by simpa using waits
          obtain rfl := h.unique q p d alive live
          cases isLoading with
          | inl isLoad => exact loaded.1 isLoad
          | inr isLoaded => exact loaded.2 _ isLoaded.choose_spec
        refine ⟨waits, ?_⟩
        show update s.creationSema t 1 (s.tparent q) = 0
        rwa [update_of_ne elsewhere]
      · rintro child c _ ⟨tid, tparent, notInitial, isNear⟩
        exact ⟨tid, tparent, notInitial, isNear⟩
  · intro q e alive
    by_cases isParent : q = t
    · subst isParent
      exact ⟨by simp, fun _ => ⟨_, down⟩⟩
    · show update s.creationSema t 1 q ≤ 1 ∧ _
      simp only [update_of_ne isParent]
      exact h.sema q e alive

theorem Sound.startProcess (top : s.stack p = [.loaded success]) (childSuccess : Page → Bool) :
    (s.tid (s.tparent p)).isSome ∧ Sound { s with
      stack := update s.stack p [.started success]
      childSuccess := childSuccess
      ttmpchild := update s.ttmpchild (s.tparent p) (some p)
      creationSema := update s.creationSema (s.tparent p) (s.creationSema (s.tparent p) + 1) } := by
  obtain ⟨down, zero, notInitial, parentLive⟩ := h.loading live (.inr ⟨success, top⟩)
  obtain ⟨q, creates, -⟩ : ∃ q, Creates s (s.tparent p) d q ∧ _ := by
    have relies := h.relies _ _ parentLive
    rw [down] at relies
    exact relies
  obtain rfl := h.unique q p d creates.tid live
  have moved : Sound { s with stack := update s.stack q [.started success] } := by
    exact h.proceed live top rfl (.bottom rfl) trivial {}
  refine ⟨by simp [parentLive], ?_⟩
  rw [zero]
  refine moved.report live parentLive ?_ zero ⟨live, rfl, notInitial, ?_⟩ ?_ childSuccess
  · simpa [h.elder q d live notInitial] using down
  · simp [near, isDie]
  · simp

/-! ## Acquiring locks -/

variable {x q : Page}

/-- The lock that a thread holds is on the page of a thread. -/
theorem Sound.holds_live (top : s.stack p = frame :: rest) (holds : frame.holds s p = some x) :
    x = p ∨ x = s.tparent p ∧ s.tid (s.tparent p) ≠ none := by
  have shape := h.shape p d live
  rw [top] at shape
  have parentLive : near (frame :: rest) = true → s.tid (s.tparent p) ≠ none := by
    intro isNear
    by_cases isInitial : p = initialPage
    · rw [isInitial, h.initial.2, h.initial.1]
      simp
    · simp [(h.parent p d live isInitial (top ▸ isNear)).1]
  cases frame with
  | executeCreate | executeDown | executeRegister | waitFind | waitFree => exact .inl (some.inj holds).symm
  | exitStatus status =>
    obtain rfl := shape.of_bottom rfl
    exact .inr ⟨(some.inj holds).symm, parentLive rfl⟩
  | killFindSema target =>
    obtain ⟨rfl, rfl⟩ := shape.of_target rfl
    exact .inr ⟨(some.inj holds).symm, parentLive rfl⟩
  | killLoop target | killFree target =>
    obtain ⟨rfl, -⟩ := shape.of_target rfl
    exact .inl (some.inj holds).symm
  | _ => cases holds

theorem Sound.relies_at {stack : List Frame} (top : s.stack p = stack) : Relies s p d stack := by
  rw [← top]
  exact h.relies p d live

/-- The lock that is acquired at a control point, and the control point behind it. -/
inductive Acquires (s : State) (p : Page) : List Frame → Page → List Frame → Prop
  | execute : Acquires s p [.executeLock, .user] p [.executeCreate, .user]
  | exit (status : Int) : Acquires s p [.exitLock status] (s.tparent p) [.exitStatus status]
  | wait (t : Tid) : Acquires s p [.waitLock t, .user] p [.waitFind t, .user]
  | waitAgain (t : Tid) (i : Elem) : Acquires s p [.waitRelock t i, .user] p [.waitFree t i, .user]
  | killParent : Acquires s p [.killParentLock p, .die] (s.tparent p) [.killFindSema p, .die]
  | killList (childSema : Option Elem) : Acquires s p [.killListLock p childSema, .die] p
      [.killLoop p childSema (s.childList p).head?, .die]
  | killAgain (childSema : Option Elem) (i : Elem) (elemPointer : Option Elem) :
      Acquires s p [.killRelock p childSema i elemPointer, .die] p [.killFree p childSema i elemPointer, .die]

theorem Sound.acquires (top : s.stack p = old) (acquires : Acquires s p old q new) (free : s.childListLock q = none) :
    Sound { s with
      childListLock := update s.childListLock q (some p)
      stack := update s.stack p new } := by
  have relies := h.relies_at live top
  cases acquires with
  | execute | wait => exact h.acquire live top rfl (.call rfl) trivial {} free
  | exit status => exact h.acquire live top rfl (.bottom rfl) trivial {} free
  | waitAgain t i => exact h.acquire live top rfl (.call rfl) relies {} free
  | killParent => exact h.acquire live top rfl (.exit (by simp [kills])) trivial {} free
  | killList childSema =>
    exact h.acquire live top rfl (.exit (by simp [kills])) ⟨relies, rfl⟩ {} free
  | killAgain childSema i elemPointer =>
    exact h.acquire live top rfl (.exit (by simp [kills])) relies {} free

/-! ## `process_execute` -/

/-- The state after `thread_create` has put a thread on page `q`. -/
def State.created (s : State) (p q : Page) (creator : Tid) : State :=
  { threadCreate p q creator s with
    stack := update (update s.stack q [.load]) p [.executeDown (some s.nextTid), .user] }

omit h live in
theorem State.created_old (old : x ≠ q) :
    (s.created p q d).tid x = s.tid x ∧ (s.created p q d).tparent x = s.tparent x ∧
      (s.created p q d).parentTid x = s.parentTid x ∧ (s.created p q d).creationSema x = s.creationSema x ∧
      (s.created p q d).ttmpchild x = s.ttmpchild x ∧ (s.created p q d).childList x = s.childList x ∧
      (s.created p q d).childListLock x = s.childListLock x := by
  simp [created, threadCreate, old]

omit h live in
theorem State.created_stack (old : x ≠ q) (other : x ≠ p) : (s.created p q d).stack x = s.stack x := by
  simp [created, old, other]

omit h live in
theorem State.created_mine : (s.created p q d).stack p = [.executeDown (some s.nextTid), .user] := by
  simp [created]

omit h live in
theorem State.created_new (other : q ≠ p) : (s.created p q d).tid q = some s.nextTid ∧ (s.created p q d).tparent q = p ∧
      (s.created p q d).parentTid q = d ∧ (s.created p q d).creationSema q = 0 ∧
      (s.created p q d).childList q = [] ∧ (s.created p q d).stack q = [.load] := by
  simp [created, threadCreate, other]

omit h in
theorem ne_of_free (free : s.tid q = none) : q ≠ p := by
  rintro rfl
  simp [live] at free

theorem Sound.create_relies (top : s.stack p = [.executeCreate, .user]) (free : s.tid q = none) (x : Page) (e : Tid)
    (alive : (s.created p q d).tid x = some e) : Relies (s.created p q d) x e ((s.created p q d).stack x) := by
  have other : q ≠ p := ne_of_free live free
  have notInitial : q ≠ initialPage := ne_of_free h.initial.1 free
  have zero : s.creationSema p = 0 := by
    by_contra raised
    obtain ⟨c, down⟩ := (h.sema p d live).2 (Nat.pos_of_ne_zero raised)
    simp [top] at down
  obtain ⟨newTid, newParent, -, -, -, newStack⟩ := created_new (s := s) (d := d) other
  obtain ⟨-, -, -, mineSema, -⟩ := created_old (s := s) (p := p) (d := d) other.symm
  by_cases isNew : x = q
  · subst isNew
    rw [newTid] at alive
    cases alive
    rw [newStack]
    refine ⟨?_, ?_⟩
    · rw [newParent, created_mine]
    · rw [newParent, mineSema, zero]
  by_cases isMine : x = p
  · subst isMine
    rw [created_mine]
    exact ⟨q, ⟨newTid, newParent, notInitial, by rw [newStack]; rfl⟩, by simp [mineSema, zero]⟩
  obtain ⟨tid, tparent, -, creationSema, ttmpchild, childList, -⟩ := created_old (s := s) (p := p) (d := d) isNew
  rw [tid] at alive
  rw [created_stack isNew isMine]
  refine (h.relies x e alive).mono ?_ ?_ ?_ (by simp [ttmpchild]) (by simp [creationSema]) childList
  · intro isLoading down isZero
    obtain ⟨-, -, -, parentLive⟩ := h.loading alive isLoading
    have oldParent : s.tparent x ≠ q := by
      intro same
      simp [same, free] at parentLive
    have otherParent : s.tparent x ≠ p := by
      intro same
      simp [same, top] at down
    rw [tparent, created_stack oldParent otherParent, (created_old oldParent).2.2.2.1]
    exact ⟨down, isZero⟩
  · rintro child c _ ⟨childTid, childParent, childNotInitial, isNear⟩
    have old : c ≠ q := by
      rintro rfl
      simp [free] at childTid
    obtain ⟨tid', tparent', -⟩ := created_old (s := s) (p := p) (d := d) old
    refine ⟨tid'.trans childTid, tparent'.trans childParent, childNotInitial, ?_⟩
    by_cases isMine' : c = p
    · rw [isMine', created_mine]
      rfl
    · rwa [created_stack old isMine']
  · intro i elem c found childLive
    have old : c ≠ q := by
      rintro rfl
      rw [newTid] at childLive
      have younger := h.childTid i elem found
      rw [← some.inj childLive] at younger
      exact Int.lt_irrefl _ younger
    rwa [(created_old old).1] at childLive

/-- `thread_create` puts a thread on a free page. -/
theorem Sound.create (top : s.stack p = [.executeCreate, .user]) (inPool : q < s.poolSize) (free : s.tid q = none) :
    Sound (s.created p q d) := by
  have other : q ≠ p := ne_of_free live free
  have notInitial : q ≠ initialPage := ne_of_free h.initial.1 free
  obtain ⟨newTid, newParent, newParentTid, newSema, newList, newStack⟩ := created_new (s := s) (d := d) other
  have tids : ∀ {x e}, (s.created p q d).tid x = some e → x = q ∧ e = s.nextTid ∨ x ≠ q ∧ s.tid x = some e := by
    intro x e alive
    by_cases isNew : x = q
    · subst isNew
      rw [newTid] at alive
      exact .inl ⟨rfl, (some.inj alive).symm⟩
    · rw [(created_old isNew).1] at alive
      exact .inr ⟨isNew, alive⟩
  constructor
  · intro x y e alive alive'
    obtain ⟨isNew, isNext⟩ | ⟨-, before⟩ := tids alive <;> obtain ⟨isNew', isNext'⟩ | ⟨-, before'⟩ := tids alive'
    · rw [isNew, isNew']
    · exact absurd (isNext ▸ h.fresh y e before') (Int.lt_irrefl _)
    · exact absurd (isNext' ▸ h.fresh x e before) (Int.lt_irrefl _)
    · exact h.unique x y e before before'
  · intro x e alive
    show e < s.nextTid + 1
    obtain ⟨rfl, rfl⟩ | ⟨old, alive⟩ := tids alive
    · exact Int.lt_succ _
    · exact Int.lt_trans (h.fresh x e alive) (Int.lt_succ _)
  · intro x e alive
    obtain ⟨rfl, rfl⟩ | ⟨old, alive⟩ := tids alive
    · exact .inr inPool
    · exact h.pooled x e alive
  · rw [(created_old notInitial.symm).1, (created_old notInitial.symm).2.1]
    exact h.initial
  · intro x e alive isChild
    obtain ⟨rfl, rfl⟩ | ⟨old, alive⟩ := tids alive
    · rw [newParent]
      exact other.symm
    · rw [(created_old old).2.1]
      exact h.elder x e alive isChild
  · intro x e alive
    obtain ⟨rfl, rfl⟩ | ⟨old, alive⟩ := tids alive
    · rw [newStack]
      exact .bottom rfl
    · by_cases isMine : x = p
      · rw [isMine, created_mine]
        exact .call rfl
      · rw [created_stack old isMine]
        exact h.shape x e alive
  · exact h.create_relies live top free
  · intro x e frame rest y alive isTop holds
    obtain ⟨rfl, rfl⟩ | ⟨old, alive⟩ := tids alive
    · rw [newStack] at isTop
      obtain ⟨rfl, -⟩ := cons.inj isTop
      cases holds
    by_cases isMine : x = p
    · subst isMine
      rw [created_mine] at isTop
      obtain ⟨rfl, -⟩ := cons.inj isTop
      cases holds
      rw [(created_old old).2.2.2.2.2.2]
      exact h.locked x d _ _ x live top rfl
    · rw [created_stack old isMine] at isTop
      have sameHolds : frame.holds s x = some y := by
        have shape := isTop ▸ h.shape x e alive
        cases frame with
        | exitStatus status =>
          rw [Frame.holds, (created_old old).2.1] at holds
          exact holds
        | killFindSema target =>
          obtain ⟨rfl, -⟩ := shape.of_target rfl
          rw [Frame.holds, (created_old old).2.1] at holds
          exact holds
        | _ => exact holds
      have oldLock : y ≠ q := by
        intro isNew
        cases h.holds_live alive isTop sameHolds with
        | inl own => exact old (own.symm.trans isNew)
        | inr parents => exact parents.2 (parents.1 ▸ isNew ▸ free)
      rw [(created_old oldLock).2.2.2.2.2.2]
      exact h.locked x e frame rest y alive isTop sameHolds
  · intro x e alive
    obtain ⟨rfl, rfl⟩ | ⟨old, alive⟩ := tids alive
    · simp [newSema]
    rw [(created_old old).2.2.2.1]
    refine ⟨(h.sema x e alive).1, fun raised => ?_⟩
    by_cases isMine : x = p
    · rw [isMine, created_mine]
      exact ⟨_, rfl⟩
    · rw [created_stack old isMine]
      exact (h.sema x e alive).2 raised
  · intro x e alive isChild isNear
    obtain ⟨rfl, rfl⟩ | ⟨old, alive⟩ := tids alive
    · rw [newParent, newParentTid, (created_old other.symm).1, created_mine]
      exact ⟨live, .inl rfl⟩
    have before : near (s.stack x) = true := by
      by_cases isMine : x = p
      · rw [isMine, top]
        rfl
      · rwa [created_stack old isMine] at isNear
    obtain ⟨found, safe⟩ := h.parent x e alive isChild before
    have oldParent : s.tparent x ≠ q := by
      intro same
      simp [same, free] at found
    rw [(created_old old).2.1, (created_old old).2.2.1, (created_old oldParent).1]
    refine ⟨found, ?_⟩
    by_cases isMine : s.tparent x = p
    · rw [isMine, created_mine]
      exact .inl rfl
    · rw [created_stack oldParent isMine]
      apply safe.imp_right
      rintro ⟨i, member, entry⟩
      exact ⟨i, (created_old oldParent).2.2.2.2.2.1.symm ▸ member, entry⟩
  · intro x e i alive member
    obtain ⟨rfl, rfl⟩ | ⟨old, alive⟩ := tids alive
    · simp [newList] at member
    rw [(created_old old).2.2.2.2.2.1] at member
    obtain ⟨elem, found, y, tchild, elsewhere, only⟩ := h.listed x e i alive member
    refine ⟨elem, found, y, tchild, elsewhere, fun c childLive => ?_⟩
    obtain ⟨rfl, same⟩ | ⟨-, childLive⟩ := tids childLive
    · exact absurd (same ▸ h.childTid i elem found) (Int.lt_irrefl _)
    · exact only c childLive
  · intro x e alive
    obtain ⟨rfl, rfl⟩ | ⟨old, alive⟩ := tids alive
    · simp [newList]
    · rw [(created_old old).2.2.2.2.2.1]
      exact h.nodup x e alive
  · intro x y e e' i alive alive' member member'
    obtain ⟨rfl, rfl⟩ | ⟨old, alive⟩ := tids alive
    · simp [newList] at member
    obtain ⟨rfl, rfl⟩ | ⟨old', alive'⟩ := tids alive'
    · simp [newList] at member'
    rw [(created_old old).2.2.2.2.2.1] at member
    rw [(created_old old').2.2.2.2.2.1] at member'
    exact h.apart x y e e' i alive alive' member member'
  · exact h.unused
  · intro i e found
    exact Int.lt_trans (h.childTid i e found) (Int.lt_succ _)
  · intro t signalled
    obtain ⟨young, dead⟩ := h.signals t signalled
    refine ⟨Int.lt_trans young (Int.lt_succ _), fun x alive => ?_⟩
    obtain ⟨rfl, rfl⟩ | ⟨old, alive⟩ := tids alive
    · exact absurd young (Int.lt_irrefl _)
    have isDead := dead x alive
    have notMine : x ≠ p := by
      rintro rfl
      simp [top] at isDead
    rwa [created_stack old notMine]
  · exact h.upped

theorem Sound.executeDown (top : s.stack p = [.executeDown tid, .user]) (raised : 0 < s.creationSema p) :
    Sound { s with
      stack := update s.stack p [.executeRegister tid, .user]
      creationSema := update s.creationSema p (s.creationSema p - 1) } := by
  have one := (h.sema p d live).1
  refine h.advance live {} (.level top rfl (.call rfl) (fun _ _ _ => id) ?_) ?_
    ?_ ?_ (fun _ _ => rfl) (fun _ _ => raised) ?_ (fun _ => id) (fun _ => .inl)
  · intro frame rest x cons holds
    obtain ⟨rfl, -⟩ := List.cons.inj cons
    exact h.locked p d _ _ x live top holds
  · exact h.entries_same live {}
  · cases tid with
    | none => trivial
    | some child =>
      obtain ⟨q, creates, reported⟩ : ∃ q, Creates s p child q ∧ (0 < s.creationSema p → s.ttmpchild p = some q) := by
        have relies := h.relies p d live
        rw [top] at relies
        exact relies
      have other : q ≠ p := by
        intro isP
        exact h.elder q child creates.tid creates.notInitial (creates.tparent.trans isP.symm)
      exact ⟨q, ⟨creates.tid, creates.tparent, creates.notInitial, by simpa [other] using creates.near⟩,
        reported raised⟩
  · intro x other
    simp [other]
  · simp only [update_self]
    omega

/-! ## Leaving the process tree -/

/-- The first step of `process_kill` on the thread itself. -/
theorem Sound.beginExit (top : s.stack p = [.kill (some p), .die]) (allowed : exitsAlone ⟨p, .go⟩ s)
    (isNew : new = [.killParentLock p, .die] ∨ p = initialPage ∧ new = [.killListLock p none, .die]) :
    Sound { s with stack := update s.stack p new } := by
  have recorded : ∀ c e, s.tid c = some e → c ≠ initialPage → s.tparent c = p → near (s.stack c) = true →
      s.recorded p e := by
    intro c e alive notInitial tparent isNear
    have guarded : ∀ c < s.poolSize, c ≠ p → s.parentTid c = d → near (s.stack c) →
        ∀ childTid, s.tid c = some childTid →
        s.recorded p childTid := by
      simpa [exitsAlone, live, top] using allowed
    have parentTid : s.parentTid c = d := by
      have found := (h.parent c e alive notInitial isNear).1
      rw [tparent, live] at found
      exact (some.inj found).symm
    have other : c ≠ p := by
      intro same
      exact h.elder c e alive notInitial (tparent.trans same.symm)
    exact guarded c ((h.pooled c e alive).resolve_left notInitial) other parentTid isNear e alive
  refine h.move live {} {}
    { stack := rfl, shape := ?_, locks := fun _ _ _ => id, held := ?_, notDead := ?_, nearer := ?_, left := ?_,
      stays := fun _ => .inr recorded } ?_ ?_
  · rcases isNew with rfl | ⟨-, rfl⟩ <;> exact .exit (by simp [kills])
  · rcases isNew with rfl | ⟨-, rfl⟩ <;> rintro _ _ _ ⟨⟩ ⟨⟩
  · simp [top]
  · rw [top]
    exact fun _ => rfl
  · intro notInitial _
    rcases isNew with rfl | ⟨isInitial, -⟩
    · exact .inl rfl
    · exact absurd isInitial notInitial
  · rcases isNew with rfl | ⟨-, rfl⟩
    · trivial
    · exact fun i none => by cases none
  · simp [top]

variable {childSema : Option Elem} {i : Elem}

/-- The recursive call of `process_kill` finds the page of the child free. -/
theorem Sound.killGone (top : s.stack p = [.kill ttarget, .killDown p childSema i elemPointer, .die])
    (free : ∀ target, ttarget = some target → s.tid target = none) :
    Sound { s with stack := update s.stack p [.killDown p childSema i elemPointer, .die] } := by
  obtain ⟨signals, isFirst, elem, found, tchild⟩ := h.relies_at live top
  refine h.proceed live top rfl (.exit (by simp [kills])) ⟨signals, isFirst, elem, found, fun c alive => ?_⟩ {}
  obtain ⟨rest, list, -⟩ := isFirst
  obtain ⟨elem', found', q, tchild', -, only⟩ := h.listed p d i live (by simp [list])
  obtain rfl : elem' = elem := some.inj (found'.symm.trans found)
  obtain rfl := only c alive
  rw [free c (tchild ▸ tchild')] at alive
  cases alive

/-- The search for the semaphore is the last time that a thread reads its `tparent`. -/
theorem Sound.killFindSema (top : s.stack p = [.killFindSema p, .die])
    (found : ∀ i, childSema = some i → s.isChild d i) : Sound { s with
      childListLock := update s.childListLock (s.tparent p) none
      stack := update s.stack p [.killListLock p childSema, .die] } := by
  have holds := h.locked p d _ _ _ live top rfl
  refine h.move live {} {}
    { stack := rfl, shape := .exit (by simp [kills]), locks := locks_release holds, held := ?_, notDead := ?_,
      nearer := ?_, left := fun _ _ => .inr holds, stays := ?_ } ?_ ?_
  · rintro _ _ _ ⟨⟩ ⟨⟩
  · simp [top]
  · rw [top]
    exact fun _ => rfl
  · rw [top]
    intro isStaying
    cases isStaying
  · intro i isSema
    exact isChild_iff.mp (found i isSema)
  · simp [top]

/-! ## Releasing locks -/

/-- The control points at which the lock on the own list is released without a call returning to user code, except
for a failed `process_execute`, and those behind them. -/
inductive Releases (s : State) (p : Page) : List Frame → List Frame → Prop
  | execute (tid : Option Tid) : Releases s p [.executeRegister tid, .user] [.user]
  | found (t : Tid) (i : Elem) (waits : Waits s p t i) : Releases s p [.waitFind t, .user] [.waitDown t i, .user]
  | killEnd (childSema : Option Elem) (empty : s.childList p = []) :
      Releases s p [.killLoop p childSema none, .die] [.killTeardown p childSema, .die]
  | killNext (childSema : Option Elem) (i : Elem) (rest : List Elem) (elem : ChildElem)
      (list : s.childList p = i :: rest) (found : s.elems i = some elem) :
      Releases s p [.killLoop p childSema (some i), .die]
        [.kill elem.tchild, .killDown p childSema i rest.head?, .die]

theorem Sound.releases (top : s.stack p = old) (releases : Releases s p old new) : Sound { s with
      childListLock := update s.childListLock p none
      stack := update s.stack p new } := by
  have relies := h.relies_at live top
  cases releases with
  | execute tid =>
    exact h.release live top rfl (.bottom rfl) trivial {} (h.locked p d _ _ p live top rfl)
  | found t i waits =>
    exact h.release live top rfl (.call rfl) waits {} (h.locked p d _ _ p live top rfl)
  | killEnd childSema empty =>
    exact h.release live top rfl (.exit (by simp [kills])) ⟨relies.1, empty⟩ {} (h.locked p d _ _ p live top rfl)
  | killNext childSema i rest elem list found =>
    exact h.release live top rfl (.nested ..) ⟨relies.1, ⟨rest, list, rfl⟩, elem, found, rfl⟩ {}
      (h.locked p d _ _ p live top rfl)

/-! ## Entries -/

/-- A step that only writes the semaphore or the status of entries. -/
theorem Sound.entries_written (childList : s'.childList = s.childList) (nextElem : s'.nextElem = s.nextElem)
    (written : ∀ i, (s'.elems i).map (fun e => (e.childTid, e.tchild)) =
      (s.elems i).map fun e => (e.childTid, e.tchild))
    (upped : ∀ i e, s'.elems i = some e → 0 < e.semaphore → s'.signalled e.childTid = true) : Entries s s' p := by
  have before : ∀ {i e'}, s'.elems i = some e' → ∃ e, s.elems i = some e ∧ e.childTid = e'.childTid ∧ _ :=
    exists_written fun i => (written i).symm
  constructor
  · intro q _
    rw [childList]
  · intro i e found
    exact .inl ⟨exists_written written found, fun member => childList ▸ member⟩
  · intro i member
    rw [childList] at member
    obtain ⟨e, found, q, tchild, elsewhere, only⟩ := h.listed p d i live member
    obtain ⟨e', found', childTid, tchild'⟩ := exists_written written found
    exact ⟨e', found', q, tchild'.trans tchild, elsewhere, childTid ▸ only⟩
  · rw [childList]
    exact h.nodup p d live
  · intro i member
    exact .inl (childList ▸ member)
  · intro i large
    cases found : s'.elems i with
    | none => rfl
    | some e' =>
      obtain ⟨e, found', -⟩ := before found
      rw [h.unused i (nextElem ▸ large)] at found'
      cases found'
  · intro i e' found'
    obtain ⟨e, found, childTid, -⟩ := before found'
    exact childTid ▸ h.childTid i e found
  · exact upped

/-- The new entry of a child that has reported. -/
theorem Sound.register {child : Tid} (top : s.stack p = [.executeRegister (some child), .user]) (status : Int)
    (calls : Tid → List Event) :
    Sound { s with
      ttmpchild := update s.ttmpchild p none
      elems := update s.elems s.nextElem (some ⟨0, s.ttmpchild p, child, status⟩)
      nextElem := s.nextElem + 1
      childList := update s.childList p (s.childList p ++ [s.nextElem])
      childListLock := update s.childListLock p none
      stack := update s.stack p [.user]
      calls := calls } := by
  obtain ⟨q, creates, reported⟩ := h.relies_at live top
  have elsewhere : q ≠ p := by
    intro same
    exact h.elder q child creates.tid creates.notInitial (creates.tparent.trans same.symm)
  have holds := h.locked p d _ _ p live top rfl
  have unused := h.unused s.nextElem (Nat.le_refl _)
  have old : ∀ {i e}, s.elems i = some e → i ≠ s.nextElem := by
    rintro i e found rfl
    rw [unused] at found
    cases found
  refine h.change live {} (.level top rfl (.bottom rfl) (locks_release holds)) ?_
    trivial (by simp [top]) rfl ?_
  · constructor
    · intro x other
      simp [other]
    · intro i e found
      refine .inl ⟨⟨e, by simpa [old found] using found, rfl, rfl⟩, fun member => ?_⟩
      simp [member]
    · intro i member
      simp only [update_self, mem_append, mem_singleton] at member
      cases member with
      | inl member =>
        obtain ⟨e, found, rest⟩ := h.listed p d i live member
        exact ⟨e, by simpa [old found] using found, rest⟩
      | inr isNew =>
        subst isNew
        refine ⟨_, update_self .., q, reported, elsewhere, fun c alive => ?_⟩
        exact h.unique c q child alive creates.tid
    · simp only [update_self]
      refine nodup_append.mpr ⟨h.nodup p d live, by simp, fun i member j isNew => ?_⟩
      obtain ⟨e, found, -⟩ := h.listed p d i live member
      rw [mem_singleton.mp isNew]
      exact old found
    · intro i member
      simp only [update_self, mem_append, mem_singleton] at member
      apply member.imp_right
      rintro rfl
      exact unused
    · intro i large
      have notNew : i ≠ s.nextElem := Nat.ne_of_gt large
      simpa [notNew] using h.unused i (Nat.le_of_succ_le large)
    · intro i e found
      by_cases isNew : i = s.nextElem
      · subst isNew
        obtain rfl : (⟨0, s.ttmpchild p, child, status⟩ : ChildElem) = e := by simpa using found
        exact h.fresh q child creates.tid
      · exact h.childTid i e (by simpa [isNew] using found)
    · intro i e found raised
      by_cases isNew : i = s.nextElem
      · subst isNew
        obtain rfl : (⟨0, s.ttmpchild p, child, status⟩ : ChildElem) = e := by simpa using found
        simp at raised
      · exact h.upped i e (by simpa [isNew] using found) raised
  · intro x other
    simp [other]

theorem Sound.exitStatus {tElem : Elem} (top : s.stack p = [.exitStatus status]) (exits : Tid → Option Int) :
    Sound { s with
      elems := update s.elems tElem ((s.elems tElem).map fun elem : ChildElem => { elem with exitStatus := status })
      exits := exits
      childListLock := update s.childListLock (s.tparent p) none
      stack := update s.stack p (threadExit p) } := by
  have holds := h.locked p d _ _ _ live top rfl
  refine h.change live {}
    (.level top rfl (.exit (by simp [kills])) (locks_release holds))
    (h.entries_written live rfl rfl ?_ ?_) trivial (by simp [top])
  · intro i
    by_cases isElem : i = tElem
    · subst isElem
      cases s.elems i <;> simp
    · simp [isElem]
  · intro i e found raised
    by_cases isElem : i = tElem
    · subst isElem
      simp only [update_self] at found
      obtain ⟨elem, before, rfl⟩ := map_eq_some_iff.mp found
      exact h.upped i elem before raised
    · exact h.upped i e (by simpa [isElem] using found) raised

variable {elem : ChildElem}

/-- The semaphore of an entry goes down. -/
theorem Sound.elemDown (top : s.stack p = old) (found : s.elems i = some elem) (raised : 0 < elem.semaphore)
    (downs : (∃ t, old = [.waitDown t i, .user] ∧ new = [.waitRelock t i, .user]) ∨
      ∃ childSema elemPointer, old = [.killDown p childSema i elemPointer, .die] ∧
        new = [.killRelock p childSema i elemPointer, .die]) :
    Sound { s with
      elems := update s.elems i (some { elem with semaphore := elem.semaphore - 1 })
      stack := update s.stack p new } := by
  have relies : Relies s p d new := by
    have before := h.relies_at live top
    rcases downs with ⟨t, rfl, rfl⟩ | ⟨childSema, elemPointer, rfl, rfl⟩
    · obtain ⟨member, e, isElem, rfl⟩ := before
      obtain rfl : elem = e := some.inj (found.symm.trans isElem)
      exact ⟨⟨member, elem, found, rfl⟩, h.upped i elem found raised⟩
    · exact before
  have levels : near new = near old ∧ staying new = staying old ∧ Shape p new ∧ old ≠ [.die] ∧
      ∀ c, old ≠ [.executeDown c, .user] := by
    rcases downs with ⟨t, rfl, rfl⟩ | ⟨childSema, elemPointer, rfl, rfl⟩
    · exact ⟨rfl, rfl, .call rfl, by simp, by simp⟩
    · exact ⟨rfl, rfl, .exit (by simp [kills]), by simp, by simp⟩
  obtain ⟨nearSame, stayingSame, shape, notDead, notDown⟩ := levels
  refine h.change live {} (.level top rfl shape (fun _ _ _ => id) ?_ notDead nearSame stayingSame)
    (h.entries_written live rfl rfl ?_ ?_) ?_ (top ▸ notDown)
  · rcases downs with ⟨t, -, rfl⟩ | ⟨childSema, elemPointer, -, rfl⟩ <;> rintro _ _ _ ⟨⟩ ⟨⟩
  · exact map_update found rfl
  · intro j e isElem raised'
    by_cases same : j = i
    · subst same
      obtain rfl : { elem with semaphore := elem.semaphore - 1 } = e := by simpa using isElem
      exact h.upped j elem found raised
    · exact h.upped j e (by simpa [same] using isElem) raised'
  · refine relies.mono ?_ ?_ (fun _ _ _ _ => id) (fun _ => id) id rfl fun _ j e isElem _ => ?_
    · intro isLoading
      rcases downs with ⟨t, -, rfl⟩ | ⟨childSema, elemPointer, -, rfl⟩ <;> simp at isLoading
    · intro child q isCreating
      rcases downs with ⟨t, -, rfl⟩ | ⟨childSema, elemPointer, -, rfl⟩ <;> simp at isCreating
    · refine exists_written ?_ isElem
      exact map_update found rfl

/-- An entry of the own list is removed, whose thread has signalled or is gone. -/
theorem Sound.entries_freed (member : i ∈ s.childList p) (found : s.elems i = some elem)
    (dead : ∀ c, s.tid c = some elem.childTid → s.stack c = [.die])
    (childList : s'.childList = update s.childList p ((s.childList p).erase i))
    (elems : s'.elems = update s.elems i none) (nextElem : s'.nextElem = s.nextElem)
    (signalled : s'.signalled = s.signalled) : Entries s s' p := by
  have nodup := h.nodup p d live
  constructor
  · intro q other
    simp [childList, other]
  · intro j e isElem
    by_cases same : j = i
    · subst same
      obtain rfl : elem = e := some.inj (found.symm.trans isElem)
      exact .inr ⟨member, dead⟩
    · refine .inl ⟨⟨e, by simpa [elems, same] using isElem, rfl, rfl⟩, fun listed => ?_⟩
      simpa [childList, mem_erase_of_ne same] using listed
  · intro j listed
    rw [childList, update_self, nodup.mem_erase_iff] at listed
    obtain ⟨e, isElem, rest⟩ := h.listed p d j live listed.2
    exact ⟨e, by simpa [elems, listed.1] using isElem, rest⟩
  · rw [childList, update_self]
    exact nodup.erase i
  · intro j listed
    rw [childList, update_self] at listed
    exact .inl (mem_of_mem_erase listed)
  · intro j large
    by_cases same : j = i
    · simp [elems, same]
    · simpa [elems, same] using h.unused j (nextElem ▸ large)
  · intro j e isElem
    by_cases same : j = i
    · simp [elems, same] at isElem
    · exact h.childTid j e (by simpa [elems, same] using isElem)
  · intro j e isElem raised
    rw [signalled]
    by_cases same : j = i
    · simp [elems, same] at isElem
    · exact h.upped j e (by simpa [elems, same] using isElem) raised

theorem Sound.waitFree (top : s.stack p = [.waitFree t i, .user]) (calls : Tid → List Event) : Sound { s with
      childList := update s.childList p ((s.childList p).erase i)
      elems := update s.elems i none
      childListLock := update s.childListLock p none
      stack := update s.stack p [.user]
      calls := calls } := by
  obtain ⟨⟨member, elem, found, rfl⟩, signalled⟩ := h.relies_at live top
  have holds := h.locked p d _ _ p live top rfl
  exact h.change live {} (.level top rfl (.bottom rfl) (locks_release holds))
    (h.entries_freed live member found (h.signals _ signalled).2 rfl rfl rfl rfl) trivial (by simp [top])

theorem Sound.killFree (top : s.stack p = [.killFree p childSema i elemPointer, .die]) :
    Sound { s with
      childList := update s.childList p ((s.childList p).erase i)
      elems := update s.elems i none
      stack := update s.stack p [.killLoop p childSema elemPointer, .die] } := by
  obtain ⟨signals, ⟨rest, list, rfl⟩, elem, found, gone⟩ := h.relies_at live top
  have holds := h.locked p d _ _ p live top rfl
  have member : i ∈ s.childList p := by simp [list]
  refine h.change live {} (.level top rfl (.exit (by simp [kills])) (fun _ _ _ => id) ?_)
    (h.entries_freed live member found (fun c alive => absurd alive (gone c)) rfl rfl rfl rfl) ⟨?_, ?_⟩ (by simp [top])
  · rintro _ _ _ ⟨⟩ ⟨⟩
    exact holds
  · intro j isSema
    obtain ⟨e, isElem, own⟩ := signals j isSema
    have other : j ≠ i := by
      rintro rfl
      obtain rfl : elem = e := some.inj (found.symm.trans isElem)
      exact gone p (own ▸ live)
    exact ⟨e, by simpa [other] using isElem, own⟩
  · simp [list]

/-- `sema_up (child_sema)`: the thread has signalled, and goes on to die. -/
theorem Sound.killUp (top : s.stack p = [.killUp (some i), .die]) (found : s.elems i = some elem) : Sound { s with
      elems := update s.elems i (some { elem with semaphore := elem.semaphore + 1 })
      signalled := update s.signalled elem.childTid true
      stack := update s.stack p [.die] } := by
  obtain ⟨signals, empty⟩ := h.relies_at live top
  obtain ⟨e, isElem, own⟩ := signals i rfl
  obtain rfl : elem = e := some.inj (found.symm.trans isElem)
  refine h.change live {} (.level top rfl (.bottom rfl) (fun _ _ _ => id))
    (h.entries_written live rfl rfl ?_ ?_) empty (by simp [top]) rfl (fun _ _ => rfl) ?_ ?_
  · exact map_update found rfl
  · intro j e isElem' raised
    show update s.signalled elem.childTid true e.childTid = true
    by_cases isOwn : e.childTid = elem.childTid
    · simp [isOwn]
    · have other : j ≠ i := by
        rintro rfl
        simp only [update_self, some.injEq] at isElem'
        exact isOwn (isElem' ▸ rfl)
      simpa [isOwn] using h.upped j e (by simpa [other] using isElem') raised
  · intro t before
    show update s.signalled elem.childTid true t = true
    by_cases isOwn : t = elem.childTid
    · simp [isOwn]
    · simpa [isOwn] using before
  · intro t after
    replace after : update s.signalled elem.childTid true t = true := after
    by_cases isOwn : t = elem.childTid
    · exact .inr ⟨isOwn.trans own, rfl⟩
    · exact .inl (by simpa [isOwn] using after)

/-- A dying thread that has signalled or has nobody to signal leaves its page.  No thread still needs it. -/
theorem Sound.die (top : s.stack p = [.die]) (notInitial : p ≠ initialPage) :
    Sound { s with tid := update s.tid p none, stack := update s.stack p [] } := by
  have empty : s.childList p = [] := h.relies_at live top
  have tids : ∀ {x e}, update s.tid p none x = some e → x ≠ p ∧ s.tid x = some e := by
    intro x e alive
    by_cases isP : x = p
    · simp [isP] at alive
    · exact ⟨isP, by simpa [isP] using alive⟩
  have stackOf : ∀ {x}, x ≠ p → update s.stack p [] x = s.stack x := fun other => by simp [other]
  constructor
  · intro x y e alive alive'
    exact h.unique x y e (tids alive).2 (tids alive').2
  · intro x e alive
    exact h.fresh x e (tids alive).2
  · intro x e alive
    exact h.pooled x e (tids alive).2
  · exact ⟨by simpa [notInitial.symm] using h.initial.1, h.initial.2⟩
  · intro x e alive
    exact h.elder x e (tids alive).2
  · intro x e alive
    obtain ⟨other, before⟩ := tids alive
    show Shape x (update s.stack p [] x)
    rw [stackOf other]
    exact h.shape x e before
  · intro x e alive
    obtain ⟨other, before⟩ := tids alive
    show Relies _ x e (update s.stack p [] x)
    rw [stackOf other]
    refine (h.relies x e before).mono ?_ ?_ fun _ _ _ _ alive => (tids alive).2
    · intro _ down zero
      have elsewhere : s.tparent x ≠ p := by
        intro same
        simp [same, top] at down
      refine ⟨?_, zero⟩
      show update s.stack p [] (s.tparent x) = _
      rw [stackOf elsewhere]
      exact down
    · rintro child c _ ⟨tid, tparent, childNotInitial, isNear⟩
      have elsewhere : c ≠ p := by
        rintro rfl
        rw [top] at isNear
        cases isNear
      exact ⟨by simpa [elsewhere] using tid, tparent, childNotInitial, by simpa [elsewhere] using isNear⟩
  · intro x e frame rest q alive isTop holds
    obtain ⟨other, before⟩ := tids alive
    have sameTop : s.stack x = frame :: rest := (stackOf other).symm.trans isTop
    exact h.locked x e frame rest q before sameTop holds
  · intro x e alive
    obtain ⟨other, before⟩ := tids alive
    show _ ∧ (_ → ∃ c, update s.stack p [] x = _)
    rw [stackOf other]
    exact h.sema x e before
  · intro x e alive childNotInitial isNear
    obtain ⟨other, before⟩ := tids alive
    replace isNear : near (update s.stack p [] x) = true := isNear
    rw [stackOf other] at isNear
    obtain ⟨found, safe⟩ := h.parent x e before childNotInitial isNear
    have elsewhere : s.tparent x ≠ p := by
      intro same
      rw [same, top] at safe
      obtain ⟨i, member, -⟩ := safe.resolve_left (by simp [staying, isDie])
      simp [empty] at member
    refine ⟨by simpa [elsewhere] using found, ?_⟩
    show staying (update s.stack p [] (s.tparent x)) = true ∨ _
    rw [stackOf elsewhere]
    exact safe
  · intro x e i alive member
    obtain ⟨elem, found, q, tchild, elsewhere, only⟩ := h.listed x e i (tids alive).2 member
    exact ⟨elem, found, q, tchild, elsewhere, fun c childLive => only c (tids childLive).2⟩
  · intro x e alive
    exact h.nodup x e (tids alive).2
  · intro x y e e' i alive alive'
    exact h.apart x y e e' i (tids alive).2 (tids alive').2
  · exact h.unused
  · exact h.childTid
  · intro t signalled
    obtain ⟨young, dead⟩ := h.signals t signalled
    refine ⟨young, fun x alive => ?_⟩
    obtain ⟨other, before⟩ := tids alive
    show update s.stack p [] x = [.die]
    rw [stackOf other]
    exact dead x before
  · exact h.upped

end Steps

/-! ## What a step can do -/

/-- The steps of the thread `d` on page `p`, in runs in which exiting threads leave nothing behind. -/
inductive Moves (s : State) (p : Page) (d : Tid) : State → Prop
  | load (success : Bool) (top : s.stack p = [.load]) :
      Moves s p d { s with stack := update s.stack p [.loaded success] }
  | report (success : Bool) (top : s.stack p = [.loaded success]) (childSuccess : Page → Bool) :
      Moves s p d { s with
        stack := update s.stack p [.started success]
        childSuccess := childSuccess
        ttmpchild := update s.ttmpchild (s.tparent p) (some p)
        creationSema := update s.creationSema (s.tparent p) (s.creationSema (s.tparent p) + 1) }
  | leaveUser {old new} (top : s.stack p = old)
      (isOld : old = [.user] ∨ ∃ success, old = [.started success])
      (isNew : new = [.user] ∨ new = [.executeLock, .user] ∨ (∃ t, new = [.waitLock t, .user]) ∨
        (∃ status, new = [.exitLock status]) ∨ new = threadExit p) (childSuccess : Page → Bool) :
      Moves s p d { s with stack := update s.stack p new, childSuccess := childSuccess }
  | acquires {old new q} (top : s.stack p = old) (acquires : Acquires s p old q new)
      (free : s.childListLock q = none) :
      Moves s p d { s with
        childListLock := update s.childListLock q (some p)
        stack := update s.stack p new }
  | createFailed (top : s.stack p = [.executeCreate, .user]) :
      Moves s p d { s with stack := update s.stack p [.executeDown none, .user] }
  | create {q : Page} (top : s.stack p = [.executeCreate, .user]) (inPool : q < s.poolSize) (free : s.tid q = none) :
      Moves s p d (s.created p q d)
  | executeDown {tid : Option Tid} (top : s.stack p = [.executeDown tid, .user]) (raised : 0 < s.creationSema p) :
      Moves s p d { s with
        stack := update s.stack p [.executeRegister tid, .user]
        creationSema := update s.creationSema p (s.creationSema p - 1) }
  | register {child} (top : s.stack p = [.executeRegister (some child), .user]) :
      Moves s p d { s with
        ttmpchild := update s.ttmpchild p none
        elems := update s.elems s.nextElem (some ⟨0, s.ttmpchild p, child, -1⟩)
        nextElem := s.nextElem + 1
        childList := update s.childList p (s.childList p ++ [s.nextElem])
        childListLock := update s.childListLock p none
        stack := update s.stack p [.user]
        calls := update s.calls d (.executed child :: s.calls d) }
  | releases {old new} (top : s.stack p = old) (releases : Releases s p old new) :
      Moves s p d { s with
        childListLock := update s.childListLock p none
        stack := update s.stack p new }
  | exitStatus {status tElem} (top : s.stack p = [.exitStatus status])
      (found : s.findChild d (s.tparent p) = some tElem) :
      Moves s p d { s with
        elems := update s.elems tElem ((s.elems tElem).map fun elem : ChildElem => { elem with exitStatus := status })
        exits := update s.exits d (some status)
        childListLock := update s.childListLock (s.tparent p) none
        stack := update s.stack p (threadExit p) }
  | waitNone {t : Tid} (top : s.stack p = [.waitFind t, .user]) (notFound : s.findChild t p = none) :
      Moves s p d { s with
        childListLock := update s.childListLock p none
        stack := update s.stack p [.user]
        calls := update s.calls d (.waited t (-1) false :: s.calls d) }
  | elemDown {old new i elem} (top : s.stack p = old)
      (found : s.elems i = some elem) (raised : 0 < elem.semaphore)
      (downs : (∃ t, old = [.waitDown t i, .user] ∧ new = [.waitRelock t i, .user]) ∨
        ∃ childSema elemPointer, old = [.killDown p childSema i elemPointer, .die] ∧
          new = [.killRelock p childSema i elemPointer, .die]) :
      Moves s p d { s with
        elems := update s.elems i (some { elem with semaphore := elem.semaphore - 1 })
        stack := update s.stack p new }
  | waitFree {t i elem} (top : s.stack p = [.waitFree t i, .user])
      (found : s.elems i = some elem) :
      Moves s p d { s with
        childList := update s.childList p ((s.childList p).erase i)
        elems := update s.elems i none
        childListLock := update s.childListLock p none
        stack := update s.stack p [.user]
        calls := update s.calls d (.waited t elem.exitStatus true :: s.calls d) }
  | beginExit {new} (top : s.stack p = [.kill (some p), .die]) (allowed : exitsAlone ⟨p, .go⟩ s)
      (isNew : new = [.killParentLock p, .die] ∨ p = initialPage ∧ new = [.killListLock p none, .die]) :
      Moves s p d { s with stack := update s.stack p new }
  | killGone {ttarget childSema i elemPointer}
      (top : s.stack p = [.kill ttarget, .killDown p childSema i elemPointer, .die])
      (free : ∀ target, ttarget = some target → s.tid target = none) :
      Moves s p d { s with stack := update s.stack p [.killDown p childSema i elemPointer, .die] }
  | killFindSema (top : s.stack p = [.killFindSema p, .die]) :
      Moves s p d { s with
        childListLock := update s.childListLock (s.tparent p) none
        stack := update s.stack p [.killListLock p ((s.childList (s.tparent p)).filter (s.isChild d)).getLast?, .die] }
  | killFree {childSema i elemPointer}
      (top : s.stack p = [.killFree p childSema i elemPointer, .die]) :
      Moves s p d { s with
        childList := update s.childList p ((s.childList p).erase i)
        elems := update s.elems i none
        stack := update s.stack p [.killLoop p childSema elemPointer, .die] }
  | killTeardown {childSema} (top : s.stack p = [.killTeardown p childSema, .die]) :
      Moves s p d { s with
        stack := update s.stack p [.killUp childSema, .die]
        teardowns := update s.teardowns d (d :: s.teardowns d) }
  | killUp {i elem} (top : s.stack p = [.killUp (some i), .die]) (found : s.elems i = some elem) :
      Moves s p d { s with
        elems := update s.elems i (some { elem with semaphore := elem.semaphore + 1 })
        signalled := update s.signalled elem.childTid true
        stack := update s.stack p [.die] }
  | killUp_none (top : s.stack p = [.killUp none, .die]) :
      Moves s p d { s with stack := update s.stack p [.die] }
  | die (top : s.stack p = [.die]) (notInitial : p ≠ initialPage) :
      Moves s p d { s with tid := update s.tid p none, stack := update s.stack p [] }

variable {s' : State} {d : Tid}

theorem Sound.moves (h : Sound s) (live : s.tid p = some d) (moves : Moves s p d s') : Sound s' := by
  cases moves with
  | load success top => exact h.load live top
  | report success top childSuccess => exact (h.startProcess live top childSuccess).2
  | leaveUser top isOld isNew childSuccess => exact h.leaveUser live top isOld isNew childSuccess
  | acquires top acquires free => exact h.acquires live top acquires free
  | createFailed top =>
    refine h.proceed live top rfl (.call rfl) trivial {} ?_
    rintro _ _ _ ⟨⟩ ⟨⟩
    exact h.locked p d _ _ p live top rfl
  | create top inPool free => exact h.create live top inPool free
  | executeDown top raised => exact h.executeDown live top raised
  | register top => exact h.register live top _ _
  | releases top releases => exact h.releases live top releases
  | exitStatus top found => exact h.exitStatus live top _
  | waitNone top notFound =>
    exact h.release live top rfl (.bottom rfl) trivial {} (h.locked p d _ _ p live top rfl)
  | elemDown top found raised downs => exact h.elemDown live top found raised downs
  | waitFree top found => exact h.waitFree live top _
  | beginExit top allowed isNew => exact h.beginExit live top allowed isNew
  | killGone top free => exact h.killGone live top free
  | killFindSema top =>
    apply h.killFindSema live top
    intro i last
    exact (mem_filter.mp (mem_of_getLast? last)).2
  | killFree top => exact h.killFree live top
  | killTeardown top =>
    exact h.proceed live top rfl (.exit (by simp [kills])) (h.relies_at live top) {}
  | killUp top found => exact h.killUp live top found
  | killUp_none top => exact h.proceed live top rfl (.bottom rfl) (h.relies_at live top).2 {}
  | die top notInitial => exact h.die live top notInitial

variable {new : List Frame} {i : Elem}

section

variable (top : s.stack p = frame :: rest)

include top

theorem Moves.of_acquire {q : Page}
    (acquires : Acquires s p (frame :: rest) q (new ++ rest))
    (executed : (lockAcquire p q { s with stack := update s.stack p rest }).map (push p new) =
      some s') : Moves s p d s' := by
  obtain ⟨after, acquired, rfl⟩ := map_eq_some_iff.mp executed
  obtain ⟨-, free, rfl⟩ := lockAcquire_eq acquired
  simpa [push] using Moves.acquires top acquires free

theorem Moves.of_release (releases : Releases s p (frame :: rest) (new ++ rest))
    (executed : (lockRelease p p { s with stack := update s.stack p rest }).map (push p new) =
      some s') : Moves s p d s' := by
  obtain ⟨after, released, rfl⟩ := map_eq_some_iff.mp executed
  obtain ⟨-, rfl⟩ := lockRelease_eq released
  simpa [push] using Moves.releases top releases

theorem Moves.of_elemDown
    (downs : (∃ t, frame :: rest = [.waitDown t i, .user] ∧ new ++ rest = [.waitRelock t i, .user]) ∨
      ∃ childSema elemPointer, frame :: rest = [.killDown p childSema i elemPointer, .die] ∧
        new ++ rest = [.killRelock p childSema i elemPointer, .die])
    (executed : (State.elemDown i { s with stack := update s.stack p rest }).map (State.push p new) = some s') :
    Moves s p d s' := by
  obtain ⟨after, downed, rfl⟩ := map_eq_some_iff.mp executed
  unfold State.elemDown at downed
  split at downed
  next => cases downed
  next elem found =>
    split_ifs at downed with raised
    rw [← some.inj downed]
    simpa [push] using Moves.elemDown top found raised downs

end

theorem listNext_head {rest : List Elem} : listNext i (i :: rest) = rest.head? := by
  simp [listNext]

section Exec

variable {s s' : State} {p : Page} {d : Tid} (live : s.tid p = some d)

include live

theorem executeRegister_moves {malloc : Bool} (top : s.stack p = [.executeRegister tid, .user])
    (executed : executeRegister p tid malloc { s with stack := update s.stack p [.user] } = some s') :
    Moves s p d s' := by
  have failed : (lockRelease p p { s with stack := update s.stack p [.user] } = some s') → Moves s p d s' := by
    intro released
    obtain ⟨-, rfl⟩ := lockRelease_eq released
    exact .releases top (.execute tid)
  unfold executeRegister at executed
  split at executed
  next => exact failed executed
  next child =>
    split at executed
    next => exact failed executed
    next =>
      split_ifs at executed
      simp only [log, live] at executed
      obtain ⟨-, rfl⟩ := lockRelease_eq executed
      exact .register top

theorem exitStatus_moves (top : s.stack p = [.exitStatus status])
    (executed : (exitStatus p status { s with stack := update s.stack p [] }).map (push p (threadExit p)) = some s') :
    Moves s p d s' := by
  obtain ⟨after, written, rfl⟩ := map_eq_some_iff.mp executed
  simp only [exitStatus, live] at written
  split at written
  next => cases written
  next tElem found =>
    obtain ⟨-, rfl⟩ := lockRelease_eq written
    simpa [push] using Moves.exitStatus top found

theorem waitFind_moves (top : s.stack p = [.waitFind t, .user])
    (executed : waitFind p t { s with stack := update s.stack p [.user] } = some s') : Moves s p d s' := by
  unfold waitFind at executed
  split at executed
  next i found =>
    have isChild : s.isChild t i = true := find?_some found
    have waits : Waits s p t i := ⟨mem_of_find?_eq_some found, isChild_iff.mp isChild⟩
    exact .of_release top (.found t i waits) executed
  next notFound =>
    simp only [log, live] at executed
    obtain ⟨-, rfl⟩ := lockRelease_eq executed
    exact .waitNone top notFound

theorem waitFree_moves (top : s.stack p = [.waitFree t i, .user])
    (executed : waitFree p t i { s with stack := update s.stack p [.user] } = some s') : Moves s p d s' := by
  unfold waitFree at executed
  split at executed
  next => cases executed
  next elem found =>
    simp only [log, live] at executed
    obtain ⟨-, rfl⟩ := lockRelease_eq executed
    exact .waitFree top found

theorem kill_moves (h : Sound s) (top : s.stack p = .kill ttarget :: rest) (shape : Shape p (.kill ttarget :: rest))
    (allowed : exitsAlone ⟨p, .go⟩ s) (executed : kill p ttarget { s with stack := update s.stack p rest } = some s') :
    Moves s p d s' := by
  obtain ⟨rfl, rfl⟩ | ⟨childSema, i, elemPointer, rfl⟩ := shape.of_kill
  · simp only [kill, live] at executed
    split at executed
    next => cases executed
    next parent parentLive =>
      split at executed <;> rw [← some.inj executed]
      next => simpa [push] using Moves.beginExit top allowed (.inl rfl)
      next same =>
        have isInitial : p = initialPage := by
          by_contra notInitial
          have own : parent = d := by simpa using same
          exact h.elder p d live notInitial (h.unique _ _ d (own ▸ parentLive) live)
        simpa [push] using Moves.beginExit top allowed (.inr ⟨isInitial, rfl⟩)
  · -- The page of the child is not that of its parent, and is free.
    obtain ⟨-, ⟨next, list, -⟩, elem, found, tchild⟩ := h.relies_at live top
    obtain ⟨elem', found', q, tchild', elsewhere, -⟩ := h.listed p d i live (by simp [list])
    obtain rfl : elem' = elem := some.inj (found'.symm.trans found)
    rw [tchild'] at tchild
    subst tchild
    have free : s.tid q = none := by simpa [exitsAlone, live, top, elsewhere] using allowed
    simp only [kill, free] at executed
    rw [← some.inj executed]
    refine .killGone top fun target isTarget => ?_
    cases isTarget
    exact free

theorem killFindSema_moves (top : s.stack p = [.killFindSema p, .die])
    (executed : killFindSema p p { s with stack := update s.stack p [.die] } = some s') : Moves s p d s' := by
  simp only [killFindSema, live] at executed
  obtain ⟨after, released, rfl⟩ := map_eq_some_iff.mp executed
  obtain ⟨-, rfl⟩ := lockRelease_eq released
  simp only [push, update_idem, update_self, cons_append, nil_append]
  exact .killFindSema top

theorem killLoop_moves {childSema : Option Elem} (h : Sound s)
    (top : s.stack p = [.killLoop p childSema elemPointer, .die])
    (executed : killLoop p p childSema elemPointer { s with stack := update s.stack p [.die] } = some s') :
    Moves s p d s' := by
  obtain ⟨-, atHead⟩ := h.relies_at live top
  unfold killLoop at executed
  split at executed
  next => exact .of_release top (.killEnd childSema (head?_eq_none_iff.mp atHead.symm)) executed
  next i =>
    split at executed
    next => cases executed
    next elem found =>
      obtain ⟨rest, list⟩ := head?_eq_some_iff.mp atHead.symm
      rw [list, listNext_head] at executed
      exact .of_release top (.killNext childSema i rest elem list found) executed

end Exec

theorem step_moves {label : Label} (h : Sound s) (allowed : exitsAlone label s) (stepped : step label s = some s') :
    ∃ d, s.tid label.page = some d ∧ Moves s label.page d s' := by
  obtain ⟨p, choice⟩ := label
  simp only [step] at stepped
  split at stepped
  swap
  · cases stepped
  rename_i d frame rest live top
  refine ⟨d, live, ?_⟩
  have shape := h.shape p d live
  rw [top] at shape
  dsimp only at *
  unfold exec at stepped
  split at stepped
  next success => -- `load`
    obtain rfl := shape.of_bottom rfl
    rw [← some.inj stepped]
    simpa [push] using Moves.load success top
  next success => -- `loaded`
    obtain rfl := shape.of_bottom rfl
    obtain ⟨parentLive, -⟩ := h.startProcess live top s.childSuccess
    simp only [startProcess, parentLive, if_true, map_some, some.injEq] at stepped
    rw [← stepped]
    simpa [push] using Moves.report success top _
  next success => -- `started`
    obtain rfl := shape.of_bottom rfl
    rw [← some.inj stepped]
    have isNew : (if success then [.user] else threadExit p) = [.user] ∨
        (if success then [.user] else threadExit p) = threadExit p := by cases success <;> simp
    cases isNew with
    | inl isUser =>
      rw [isUser]
      simpa [push] using Moves.leaveUser top (.inr ⟨success, rfl⟩) (.inl rfl) s.childSuccess
    | inr isExit =>
      rw [isExit]
      simpa [push] using Moves.leaveUser top (.inr ⟨success, rfl⟩) (.inr (.inr (.inr (.inr rfl)))) s.childSuccess
  next => -- `user`
    obtain rfl := shape.of_bottom rfl
    rw [← some.inj stepped]
    simpa [push] using Moves.leaveUser top (.inl rfl) (.inr (.inl rfl)) (update s.childSuccess p false)
  next t =>
    obtain rfl := shape.of_bottom rfl
    rw [← some.inj stepped]
    simpa [push] using Moves.leaveUser top (.inl rfl) (.inr (.inr (.inl ⟨t, rfl⟩))) s.childSuccess
  next status =>
    obtain rfl := shape.of_bottom rfl
    split_ifs at stepped
    rw [← some.inj stepped]
    simpa [push] using Moves.leaveUser top (.inl rfl) (.inr (.inr (.inr (.inl ⟨status, rfl⟩)))) s.childSuccess
  next =>
    obtain rfl := shape.of_bottom rfl
    rw [← some.inj stepped]
    simpa [push] using Moves.leaveUser top (.inl rfl) (.inr (.inr (.inr (.inr rfl)))) s.childSuccess
  next => -- `process_execute`
    obtain rfl := shape.of_call rfl
    exact .of_acquire top .execute stepped
  next =>
    obtain rfl := shape.of_call rfl
    rw [← some.inj stepped]
    simpa [push] using Moves.createFailed top
  next q =>
    obtain rfl := shape.of_call rfl
    simp only [live] at stepped
    split_ifs at stepped with free
    rw [← some.inj stepped]
    have other : p ≠ q := (ne_of_free live free.2).symm
    have stackOf : update (update (update s.stack p [.user]) q [.load]) p
        ([.executeDown (some s.nextTid)] ++ update (update s.stack p [.user]) q [.load] p) =
        update (update s.stack q [.load]) p [.executeDown (some s.nextTid), .user] := by
      rw [update_of_ne other, update_self, update_comm other, update_idem]
      rfl
    have created := Moves.create (d := d) top free.1 free.2
    simp only [push, threadCreate]
    rw [stackOf]
    exact created
  next tid =>
    obtain rfl := shape.of_call rfl
    split_ifs at stepped with raised
    rw [← some.inj stepped]
    simpa [push] using Moves.executeDown top raised
  next tid malloc =>
    obtain rfl := shape.of_call rfl
    exact executeRegister_moves live top stepped
  next status => -- `SYS_EXIT`
    obtain rfl := shape.of_bottom rfl
    exact .of_acquire top (.exit status) stepped
  next status =>
    obtain rfl := shape.of_bottom rfl
    exact exitStatus_moves live top stepped
  next t => -- `process_wait`
    obtain rfl := shape.of_call rfl
    exact .of_acquire top (.wait t) stepped
  next t =>
    obtain rfl := shape.of_call rfl
    exact waitFind_moves live top stepped
  next t i =>
    obtain rfl := shape.of_call rfl
    exact .of_elemDown top (.inl ⟨t, rfl, rfl⟩) stepped
  next t i =>
    obtain rfl := shape.of_call rfl
    exact .of_acquire top (.waitAgain t i) stepped
  next t i =>
    obtain rfl := shape.of_call rfl
    exact waitFree_moves live top stepped
  next ttarget => exact kill_moves live h top shape allowed stepped
  next target => -- `process_kill`
    obtain ⟨rfl, rfl⟩ := shape.of_target rfl
    simp only [live, isSome_some, if_true] at stepped
    exact .of_acquire top .killParent stepped
  next target =>
    obtain ⟨rfl, rfl⟩ := shape.of_target rfl
    exact killFindSema_moves live top stepped
  next target childSema =>
    obtain ⟨rfl, rfl⟩ := shape.of_target rfl
    exact .of_acquire top (.killList childSema) stepped
  next target childSema elemPointer =>
    obtain ⟨rfl, rfl⟩ := shape.of_target rfl
    exact killLoop_moves live h top stepped
  next target childSema i elemPointer =>
    obtain ⟨rfl, rfl⟩ := shape.of_target rfl
    exact .of_elemDown top (.inr ⟨childSema, elemPointer, rfl, rfl⟩) stepped
  next target childSema i elemPointer =>
    obtain ⟨rfl, rfl⟩ := shape.of_target rfl
    exact .of_acquire top (.killAgain childSema i elemPointer) stepped
  next target childSema i elemPointer =>
    obtain ⟨rfl, rfl⟩ := shape.of_target rfl
    simp only [killFree, live] at stepped
    split at stepped
    next =>
      rw [← some.inj stepped]
      simpa [push] using Moves.killFree top
    next => cases stepped
  next target childSema =>
    obtain ⟨rfl, rfl⟩ := shape.of_target rfl
    simp only [killTeardown, live, some.injEq] at stepped
    rw [← stepped]
    simpa [push] using Moves.killTeardown top
  next childSema =>
    obtain ⟨-, rfl⟩ := shape.of_exit rfl rfl rfl
    unfold killUp at stepped
    split at stepped
    next =>
      rw [← some.inj stepped]
      exact .killUp_none top
    next i =>
      split at stepped
      next => cases stepped
      next elem found =>
        rw [← some.inj stepped]
        exact .killUp top found
  next => -- `thread_exit`
    obtain rfl := shape.of_bottom rfl
    unfold die at stepped
    split_ifs at stepped with notInitial
    rw [← some.inj stepped]
    exact .die top notInitial
  next => cases stepped

end Pintos.Userprog
