import Pintos.Userprog.Lifetimes

/-! # Waiting for children

For threads that stay as long as they have children, the calls of `process_execute` and `process_wait` obey a
simple law: the first wait for a child gives its exit status once it has signalled, every other wait gives -1.
-/

namespace Pintos.Userprog

open Function List Option State Frame

/-! ## The law -/

/-- The children that a thread has executed and not waited for, from its calls, the last one first. -/
def outstanding : List Event → List Tid
  | [] => []
  | .executed tid :: earlier => tid :: outstanding earlier
  | .waited childTid _ _ :: earlier => (outstanding earlier).filter fun tid => decide (tid ≠ childTid)

/-- Each wait for an outstanding child has returned its exit status, or -1 if it was killed, after the child has
signalled.  Each other wait has returned -1, without waiting for a semaphore. -/
def Obeys (s : State) : List Event → Prop
  | [] => True
  | .executed _ :: earlier => Obeys s earlier
  | .waited childTid result down :: earlier =>
    (if childTid ∈ outstanding earlier then s.signalled childTid = true ∧ result = (s.exits childTid).getD (-1)
      else result = -1 ∧ down = false) ∧ Obeys s earlier

variable {s s' : State}

theorem Obeys.mono {calls : List Event} (obeys : Obeys s calls)
    (kept : ∀ t, s.signalled t = true → s'.signalled t = true ∧ s'.exits t = s.exits t) : Obeys s' calls := by
  induction calls with
  | nil => trivial
  | cons event earlier ih =>
    cases event with
    | executed tid => exact ih obeys
    | waited childTid result down =>
      refine ⟨?_, ih obeys.2⟩
      have now := obeys.1
      split at now
      next isChild =>
        obtain ⟨signalled, same⟩ := kept childTid now.1
        rw [if_pos isChild, same]
        exact ⟨signalled, now.2⟩
      next notChild =>
        rw [if_neg notChild]
        exact now

/-! ## Threads that stay with their children -/

/-- What the calls of a thread and the lists of children have to do with each other. -/
structure Recorded (s : State) : Prop where
  alone : ∀ p d, s.tid p = some d → staying (s.stack p) = false → s.childList p = []
  entry : ∀ i j e e', s.elems i = some e → s.elems j = some e' → e.childTid = e'.childTid → i = j
  newborn : ∀ p d c, s.tid p = some d →
    s.stack p = [.executeDown (some c), .user] ∨ s.stack p = [.executeRegister (some c), .user] →
    (∀ i e, s.elems i = some e → e.childTid ≠ c) ∧ s.exits c = none
  status : ∀ i e, s.elems i = some e → e.exitStatus = (s.exits e.childTid).getD (-1)
  future : ∀ d, s.nextTid ≤ d → s.exits d = none ∧ s.calls d = []
  listed : ∀ p d, s.tid p = some d → staying (s.stack p) = true → ∀ t, t ∈ outstanding (s.calls d) ↔ s.recorded p t
  obeys : ∀ d, Obeys s (s.calls d)

theorem Recorded.exitsAlone {label : Label} (recorded : Recorded s) (h : Sound s)
    (allowed : staysWithChildren label s) : exitsAlone label s := by
  unfold Userprog.exitsAlone
  split
  next d target rest live top =>
    have shape := top ▸ h.shape label.page d live
    obtain ⟨isOwn, rfl⟩ | ⟨childSema, i, elemPointer, rfl⟩ := shape.of_kill
    · cases isOwn
      rw [if_pos rfl]
      have guarded : s.childList label.page = [] ∧
          ∀ c < s.poolSize, c ≠ label.page → (s.tid c).isSome → s.parentTid c ≠ d := by
        simpa only [staysWithChildren, live, top] using allowed
      intro c inPool other parentTid _ childTid alive
      exact absurd parentTid (guarded.2 c inPool other (by simp [alive]))
    · have empty := recorded.alone label.page d live (by rw [top]; rfl)
      obtain ⟨-, ⟨rest, list, -⟩, -⟩ := h.relies_at live top
      rw [empty] at list
      cases list
  next => trivial

theorem recorded_boot (poolSize : Nat) : Recorded (boot poolSize) := by
  constructor
  · simp [boot]
  · simp [boot]
  · simp [boot]
  · simp [boot]
  · simp [boot]
  · intro p d _ _ t
    simp [boot, outstanding, recorded]
  · intro d
    trivial

/-! ## Every step keeps the law -/

/-- `process_execute` is creating the thread `c`. -/
def isCreating (c : Tid) (stack : List Frame) : Prop :=
  stack = [.executeDown (some c), .user] ∨ stack = [.executeRegister (some c), .user]

theorem recorded_congr {p : Page} (childList : s'.childList p = s.childList p)
    (elems : ∀ i ∈ s.childList p, (s'.elems i).map ChildElem.childTid = (s.elems i).map ChildElem.childTid) (t : Tid) :
    s'.recorded p t ↔ s.recorded p t := by
  rw [recorded, childList]
  refine exists_congr fun i => and_congr_right fun member => ?_
  have both := elems i member
  cases found : s.elems i <;> cases found' : s'.elems i <;> simp_all [isChild]

/-- A step neither adds, removes nor renames entries. -/
structure SameNames (s s' : State) : Prop where
  tid : s'.tid = s.tid := by rfl
  nextTid : s'.nextTid = s.nextTid := by rfl
  childList : s'.childList = s.childList := by rfl
  exits : s'.exits = s.exits := by rfl
  calls : s'.calls = s.calls := by rfl
  elems : ∀ i, (s'.elems i).map (fun e => (e.childTid, e.exitStatus)) =
    (s.elems i).map fun e => (e.childTid, e.exitStatus) := by intro; rfl
  signalled : ∀ t, s.signalled t = true → s'.signalled t = true := by exact fun _ => id

variable {p : Page}

variable {old : List Frame}

theorem Recorded.keep (recorded : Recorded s) {new : List Frame} (top : s.stack p = old)
    (stack : s'.stack = update s.stack p new) (same : SameNames s s') (stayed : staying new = true → staying old = true)
    (left : staying new = false → staying old = true → s.childList p = [])
    (creates : ∀ c, isCreating c new → isCreating c old) : Recorded s' := by
  obtain ⟨tid, nextTid, childList, exits, calls, elems, signalled⟩ := same
  have before : ∀ {i e'}, s'.elems i = some e' → ∃ e, s.elems i = some e ∧ e'.childTid = e.childTid ∧
      e'.exitStatus = e.exitStatus := by
    intro i e' found
    have both := elems i
    rw [found] at both
    obtain ⟨e, found', same⟩ := map_eq_some_iff.mp both.symm
    exact ⟨e, found', (Prod.mk.inj same).1.symm, (Prod.mk.inj same).2.symm⟩
  have names : ∀ i, (s'.elems i).map ChildElem.childTid = (s.elems i).map ChildElem.childTid := by
    intro i
    have both := congrArg (Option.map Prod.fst) (elems i)
    rw [Option.map_map, Option.map_map] at both
    exact both
  constructor
  · intro q d live gone
    rw [tid] at live
    rw [childList]
    by_cases isP : q = p
    · subst isP
      rw [stack, update_self] at gone
      cases was : staying old with
      | true => exact left gone was
      | false => exact recorded.alone q d live (top ▸ was)
    · rw [stack, update_of_ne isP] at gone
      exact recorded.alone q d live gone
  · intro i j e e' found found' same
    obtain ⟨f, isF, sameF, -⟩ := before found
    obtain ⟨f', isF', sameF', -⟩ := before found'
    exact recorded.entry i j f f' isF isF' (sameF.symm.trans (same.trans sameF'))
  · intro q d c live isNew
    rw [tid] at live
    have wasNew : isCreating c (s.stack q) := by
      by_cases isP : q = p
      · subst isP
        rw [stack, update_self] at isNew
        exact top ▸ creates c isNew
      · rwa [stack, update_of_ne isP] at isNew
    obtain ⟨unlisted, noExit⟩ := recorded.newborn q d c live wasNew
    refine ⟨fun i e found => ?_, exits ▸ noExit⟩
    obtain ⟨f, isF, same, -⟩ := before found
    rw [same]
    exact unlisted i f isF
  · intro i e found
    obtain ⟨f, isF, same, sameStatus⟩ := before found
    rw [sameStatus, same, exits]
    exact recorded.status i f isF
  · intro d large
    rw [exits, calls]
    exact recorded.future d (nextTid ▸ large)
  · intro q d live stays t
    rw [tid] at live
    rw [calls, recorded_congr (congrFun childList q) fun i _ => names i]
    apply recorded.listed q d live
    by_cases isP : q = p
    · subst isP
      rw [stack, update_self] at stays
      rw [top]
      exact stayed stays
    · rwa [stack, update_of_ne isP] at stays
  · intro d
    rw [calls]
    apply (recorded.obeys d).mono
    intro t isSignalled
    exact ⟨signalled t isSignalled, by rw [exits]⟩

variable {d c e : Tid} {q : Page} {i : Elem}

section

variable (h : Sound s) (live : s.tid p = some d)

include h live

theorem Sound.creates (creating : isCreating c (s.stack p)) :
    ∃ q, Creates s p c q := by
  have relies := h.relies p d live
  cases creating with
  | inl down =>
    rw [down] at relies
    exact ⟨relies.choose, relies.choose_spec.1⟩
  | inr register =>
    rw [register] at relies
    exact ⟨relies.choose, relies.choose_spec.1⟩

theorem Sound.ne_of_next (large : s.nextTid ≤ e) : e ≠ d := by
  rintro rfl
  exact absurd (h.fresh p e live) (Int.not_lt.mpr large)

theorem Sound.tid_ne (live' : s.tid q = some e) (other : q ≠ p) : e ≠ d := by
  rintro rfl
  exact other (h.unique q p e live' live)

/-- A thread has one creator. -/
theorem Sound.creator_unique (live' : s.tid q = some e)
    (creating : isCreating c (s.stack p)) (creating' : isCreating c (s.stack q)) : p = q := by
  obtain ⟨x, creates⟩ := h.creates live creating
  obtain ⟨x', creates'⟩ := h.creates live' creating'
  obtain rfl := h.unique x x' c creates.tid creates'.tid
  exact creates.tparent.symm.trans creates'.tparent

end

theorem Recorded.die (recorded : Recorded s) (p : Page) :
    Recorded { s with tid := update s.tid p none, stack := update s.stack p [] } := by
  have old : ∀ {q e}, update s.tid p none q = some e → q ≠ p ∧ s.tid q = some e := by
    intro q e alive
    have isOther : q ≠ p := by
      rintro rfl
      simp at alive
    exact ⟨isOther, by simpa only [update_of_ne isOther] using alive⟩
  constructor
  · intro q e alive gone
    obtain ⟨isOther, alive⟩ := old alive
    exact recorded.alone q e alive (by simpa only [update_of_ne isOther] using gone)
  · exact recorded.entry
  · intro q e c alive isCreator
    obtain ⟨isOther, alive⟩ := old alive
    exact recorded.newborn q e c alive (by simpa only [update_of_ne isOther] using isCreator)
  · exact recorded.status
  · exact recorded.future
  · intro q e alive isStaying
    obtain ⟨isOther, alive⟩ := old alive
    exact recorded.listed q e alive (by simpa only [update_of_ne isOther] using isStaying)
  · intro e
    exact (recorded.obeys e).mono fun t isSignalled => ⟨isSignalled, rfl⟩

section Moves

variable {s s' : State} {p : Page} {d t : Tid} (recorded : Recorded s) (h : Sound s) (live : s.tid p = some d)

include recorded h live

theorem Recorded.create (top : s.stack p = [.executeCreate, .user]) (free : s.tid q = none) :
    Recorded (s.created p q d) := by
  have other : q ≠ p := ne_of_free live free
  obtain ⟨newTid, -, -, -, newList, newStack⟩ := created_new (s := s) (d := d) other
  have old : ∀ {x e}, x ≠ q → (s.created p q d).tid x = some e → s.tid x = some e := by
    intro x e isOld alive
    rwa [(created_old isOld).1] at alive
  have stays : ∀ {x}, x ≠ q → staying ((s.created p q d).stack x) = staying (s.stack x) := by
    intro x isOld
    by_cases isMine : x = p
    · rw [isMine, created_mine, top]
      rfl
    · rw [created_stack isOld isMine]
  constructor
  · intro x e alive gone
    by_cases isNew : x = q
    · rw [isNew, newList]
    · rw [(created_old isNew).2.2.2.2.2.1]
      exact recorded.alone x e (old isNew alive) (stays isNew ▸ gone)
  · exact recorded.entry
  · intro x e c alive isCreator
    by_cases isNew : x = q
    · rw [isNew, newStack] at isCreator
      cases isCreator with
      | inl down => cases down
      | inr register => cases register
    by_cases isMine : x = p
    · rw [isMine, created_mine] at isCreator
      cases isCreator with
      | inl down =>
        obtain rfl : s.nextTid = c := by simpa using down
        refine ⟨fun i elem found same => ?_, (recorded.future _ (Int.le_refl _)).1⟩
        exact absurd (same ▸ h.childTid i elem found) (Int.lt_irrefl _)
      | inr register => simp at register
    · rw [created_stack isNew isMine] at isCreator
      exact recorded.newborn x e c (old isNew alive) isCreator
  · exact recorded.status
  · intro e large
    exact recorded.future e (Int.le_trans (Int.le_of_lt (Int.lt_succ _)) large)
  · intro x e alive isStaying t
    show t ∈ outstanding (s.calls e) ↔ _
    by_cases isNew : x = q
    · subst isNew
      rw [newTid] at alive
      cases alive
      rw [(recorded.future _ (Int.le_refl _)).2]
      simp [outstanding, State.recorded, newList]
    · have before := recorded.listed x e (old isNew alive) (stays isNew ▸ isStaying) t
      exact before.trans (recorded_congr (State.created_old isNew).2.2.2.2.2.1 (fun _ _ => rfl) t).symm
  · intro e
    exact (recorded.obeys e).mono fun t signalled => ⟨signalled, rfl⟩

theorem Recorded.register {child : Tid} (top : s.stack p = [.executeRegister (some child), .user]) :
    Recorded { s with
      ttmpchild := update s.ttmpchild p none
      elems := update s.elems s.nextElem (some ⟨0, s.ttmpchild p, child, -1⟩)
      nextElem := s.nextElem + 1
      childList := update s.childList p (s.childList p ++ [s.nextElem])
      childListLock := update s.childListLock p none
      stack := update s.stack p [.user]
      calls := update s.calls d (.executed child :: s.calls d) } := by
  obtain ⟨unlisted, noExit⟩ := recorded.newborn p d child live (.inr top)
  have unused := h.unused s.nextElem (Nat.le_refl _)
  have elems : ∀ {i e}, update s.elems s.nextElem (some ⟨0, s.ttmpchild p, child, -1⟩) i = some e →
      i = s.nextElem ∧ e = ⟨0, s.ttmpchild p, child, -1⟩ ∨ i ≠ s.nextElem ∧ s.elems i = some e := by
    intro i e found
    by_cases isNew : i = s.nextElem
    · subst isNew
      exact .inl ⟨rfl, by simpa [eq_comm] using found⟩
    · exact .inr ⟨isNew, by simpa [isNew] using found⟩
  constructor
  · intro q e alive gone
    by_cases isP : q = p
    · simp [isP, staying, isDie] at gone
    · simpa [isP] using recorded.alone q e alive (by simpa [isP] using gone)
  · intro i j e e' found found' same
    obtain ⟨rfl, rfl⟩ | ⟨-, before⟩ := elems found <;> obtain ⟨rfl, rfl⟩ | ⟨-, before'⟩ := elems found'
    · rfl
    · exact absurd same.symm (unlisted j e' before')
    · exact absurd same (unlisted i e before)
    · exact recorded.entry i j e e' before before' same
  · intro q e c alive isCreator
    by_cases isP : q = p
    · simp [isP] at isCreator
    simp only [update_of_ne isP] at isCreator
    obtain ⟨unlisted', noExit'⟩ := recorded.newborn q e c alive isCreator
    refine ⟨fun i elem found => ?_, noExit'⟩
    obtain ⟨-, rfl⟩ | ⟨-, before⟩ := elems found
    · rintro rfl
      exact isP (h.creator_unique alive live isCreator (.inr top))
    · exact unlisted' i elem before
  · intro i e found
    obtain ⟨-, rfl⟩ | ⟨-, before⟩ := elems found
    · show (-1 : Int) = (s.exits child).getD (-1)
      simp [noExit]
    · exact recorded.status i e before
  · intro e large
    simpa [h.ne_of_next live large] using recorded.future e large
  · intro q e alive isStaying t
    have sameEntry : ∀ x f i, s.tid x = some f → i ∈ s.childList x →
        update s.elems s.nextElem (some ⟨0, s.ttmpchild p, child, -1⟩) i = s.elems i := by
      intro x f i aliveX member
      obtain ⟨elem, found, -⟩ := h.listed x f i aliveX member
      apply update_of_ne
      rintro rfl
      rw [unused] at found
      cases found
    by_cases isP : q = p
    · subst isP
      obtain rfl : d = e := some.inj (live.symm.trans alive)
      have before := recorded.listed q d live (by rw [top]; rfl) t
      simp only [update_self, outstanding, mem_cons, before, State.recorded, mem_append,
        not_mem_nil, or_false, State.isChild_iff]
      constructor
      · rintro (rfl | ⟨i, member, elem, found, same⟩)
        · exact ⟨s.nextElem, .inr rfl, _, update_self .., rfl⟩
        · exact ⟨i, .inl member, elem, (sameEntry q d i live member).trans found, same⟩
      · rintro ⟨i, member | isNew, elem, found, same⟩
        · exact .inr ⟨i, member, elem, (sameEntry q d i live member).symm.trans found, same⟩
        · rw [isNew, update_self] at found
          cases found
          exact .inl same.symm
    · have before := recorded.listed q e alive (by simpa only [update_of_ne isP] using isStaying) t
      simp only [update_of_ne (h.tid_ne live alive isP), before]
      exact (recorded_congr (update_of_ne isP ..) (fun i member => congrArg _ (sameEntry q e i alive member)) t).symm
  · intro e
    refine Obeys.mono (s := s) ?_ fun t signalled => ⟨signalled, rfl⟩
    by_cases isMine : e = d
    · subst isMine
      simpa [Obeys] using recorded.obeys e
    · simpa [isMine] using recorded.obeys e

theorem Recorded.exitStatus {status : Int} {tElem : Elem} (top : s.stack p = [.exitStatus status])
    (found : s.findChild d (s.tparent p) = some tElem) :
    Recorded { s with
      elems := update s.elems tElem ((s.elems tElem).map fun elem : ChildElem => { elem with exitStatus := status })
      exits := update s.exits d (some status)
      childListLock := update s.childListLock (s.tparent p) none
      stack := update s.stack p (threadExit p) } := by
  obtain ⟨mine, isMine, ownTid⟩ := isChild_iff.mp (find?_some found)
  have before : ∀ {i e'}, update s.elems tElem
        ((s.elems tElem).map fun elem : ChildElem => { elem with exitStatus := status }) i = some e' →
      ∃ e, s.elems i = some e ∧ e'.childTid = e.childTid ∧
        (i = tElem ∧ e'.exitStatus = status ∨ i ≠ tElem ∧ e'.exitStatus = e.exitStatus) := by
    intro i e' isElem
    by_cases isOwn : i = tElem
    · subst isOwn
      rw [update_self, isMine] at isElem
      cases isElem
      exact ⟨mine, isMine, rfl, .inl ⟨rfl, rfl⟩⟩
    · rw [update_of_ne isOwn] at isElem
      exact ⟨e', isElem, rfl, .inr ⟨isOwn, rfl⟩⟩
  constructor
  · intro q e alive gone
    by_cases isP : q = p
    · simp [isP, staying, threadExit, isDie, isKill] at gone
    · exact recorded.alone q e alive (by simpa only [update_of_ne isP] using gone)
  · intro i j e e' isElem isElem' same
    obtain ⟨f, isF, sameF, -⟩ := before isElem
    obtain ⟨f', isF', sameF', -⟩ := before isElem'
    exact recorded.entry i j f f' isF isF' (sameF.symm.trans (same.trans sameF'))
  · intro q e c alive isCreator
    by_cases isP : q = p
    · simp [isP, threadExit] at isCreator
    simp only [update_of_ne isP] at isCreator
    obtain ⟨unlisted, noExit⟩ := recorded.newborn q e c alive isCreator
    constructor
    · intro i e' isElem
      obtain ⟨f, isF, same, -⟩ := before isElem
      rw [same]
      exact unlisted i f isF
    · have other : c ≠ d := by
        rintro rfl
        exact unlisted tElem mine isMine ownTid
      simpa [other] using noExit
  · intro i e' isElem
    obtain ⟨f, isF, same, ⟨rfl, isStatus⟩ | ⟨isOther, isStatus⟩⟩ := before isElem
    · obtain rfl : mine = f := some.inj (isMine.symm.trans isF)
      simp [isStatus, same, ownTid]
    · have other : f.childTid ≠ d := by
        intro isOwn
        exact isOther (recorded.entry i tElem f mine isF isMine (isOwn.trans ownTid.symm))
      simpa [isStatus, same, other] using recorded.status i f isF
  · intro e large
    simpa [h.ne_of_next live large] using recorded.future e large
  · intro q e alive isStaying t
    refine Iff.trans ?_ (recorded_congr (s := s) ?_ ?_ t).symm
    · apply recorded.listed q e alive
      by_cases isP : q = p
      · rw [isP, top]
        rfl
      · simpa only [update_of_ne isP] using isStaying
    · rfl
    · intro i _
      by_cases isOwn : i = tElem
      · simp [isOwn, isMine]
      · simp [isOwn]
  · intro e
    refine (recorded.obeys e).mono ?_
    intro t isSignalled
    have other : t ≠ d := by
      rintro rfl
      have dying := (h.signals t isSignalled).2 p live
      rw [top] at dying
      cases dying
    exact ⟨isSignalled, update_of_ne other ..⟩

/-- A `process_wait` has returned, and the children that are recorded are the outstanding ones again. -/
theorem Recorded.waited {result : Int} {down : Bool} (top : s.stack p = old)
    (stays : staying old = true) (tid : s'.tid = s.tid) (nextTid : s'.nextTid = s.nextTid)
    (stack : s'.stack = update s.stack p [.user])
    (childList : ∀ q, q ≠ p → s'.childList q = s.childList q)
    (exits : s'.exits = s.exits) (signalled : s'.signalled = s.signalled)
    (calls : s'.calls = update s.calls d (.waited t result down :: s.calls d))
    (elems : ∀ i e, s'.elems i = some e → s.elems i = some e)
    (kept : ∀ q e i, s.tid q = some e → q ≠ p → i ∈ s.childList q → s'.elems i = s.elems i)
    (rest : ∀ x, s'.recorded p x ↔ s.recorded p x ∧ x ≠ t)
    (answer : if s.recorded p t then s.signalled t = true ∧ result = (s.exits t).getD (-1)
      else result = -1 ∧ down = false) : Recorded s' := by
  have isOutstanding := recorded.listed p d live (top ▸ stays)
  constructor
  · intro q e alive gone
    rw [tid] at alive
    by_cases isP : q = p
    · simp [isP, stack, staying, isDie] at gone
    · rw [childList q isP]
      exact recorded.alone q e alive (by simpa only [stack, update_of_ne isP] using gone)
  · intro i j e e' found found' same
    exact recorded.entry i j e e' (elems i e found) (elems j e' found') same
  · intro q e c alive isCreator
    rw [tid] at alive
    by_cases isP : q = p
    · simp [isP, stack] at isCreator
    simp only [stack, update_of_ne isP] at isCreator
    obtain ⟨unlisted, noExit⟩ := recorded.newborn q e c alive isCreator
    exact ⟨fun i e' found => unlisted i e' (elems i e' found), exits ▸ noExit⟩
  · intro i e found
    rw [exits]
    exact recorded.status i e (elems i e found)
  · intro e large
    rw [nextTid] at large
    simpa [exits, calls, h.ne_of_next live large] using recorded.future e large
  · intro q e alive isStaying x
    rw [tid] at alive
    by_cases isP : q = p
    · subst isP
      obtain rfl : d = e := some.inj (live.symm.trans alive)
      simp [calls, outstanding, rest, isOutstanding]
    · have before := recorded.listed q e alive (by simpa only [stack, update_of_ne isP] using isStaying) x
      rw [calls, update_of_ne (h.tid_ne live alive isP), before]
      exact (recorded_congr (childList q isP) (fun i member => congrArg _ (kept q e i alive isP member)) x).symm
  · intro e
    refine Obeys.mono (s := s) ?_ fun t isSignalled => ⟨signalled ▸ isSignalled, by rw [exits]⟩
    by_cases isMine : e = d
    · subst isMine
      rw [calls, update_self]
      refine ⟨?_, recorded.obeys e⟩
      rwa [if_congr (isOutstanding t) rfl rfl]
    · rw [calls, update_of_ne isMine]
      exact recorded.obeys e

theorem Recorded.waitNone (top : s.stack p = [.waitFind t, .user]) (notFound : s.findChild t p = none) :
    Recorded { s with
      childListLock := update s.childListLock p none
      stack := update s.stack p [.user]
      calls := update s.calls d (.waited t (-1) false :: s.calls d) } := by
  have absent : ¬ s.recorded p t := by
    rintro ⟨i, member, isChild⟩
    exact absurd isChild (find?_eq_none.mp notFound i member)
  refine recorded.waited h live top rfl rfl rfl rfl (fun _ _ => rfl) rfl rfl rfl (fun _ _ found => found)
    (fun _ _ _ _ _ _ => rfl) ?_ ?_
  · intro x
    constructor
    · intro isRecorded
      refine ⟨isRecorded, ?_⟩
      rintro rfl
      exact absent isRecorded
    · exact And.left
  · rw [if_neg absent]
    exact ⟨rfl, rfl⟩

theorem Recorded.waitFree {elem : ChildElem} (top : s.stack p = [.waitFree t i, .user])
    (found : s.elems i = some elem) : Recorded { s with
      childList := update s.childList p ((s.childList p).erase i)
      elems := update s.elems i none
      childListLock := update s.childListLock p none
      stack := update s.stack p [.user]
      calls := update s.calls d (.waited t elem.exitStatus true :: s.calls d) } := by
  obtain ⟨⟨member, elem', found', isT⟩, isSignalled⟩ := h.relies_at live top
  obtain rfl : elem = elem' := some.inj (found.symm.trans found')
  have nodup := h.nodup p d live
  refine recorded.waited h live top rfl rfl rfl rfl (fun q isOther => update_of_ne isOther ..) rfl rfl rfl ?_ ?_ ?_ ?_
  · intro j e isElem
    by_cases isI : j = i
    · simp [isI] at isElem
    · simpa [isI] using isElem
  · intro q e j alive isOther memberQ
    apply update_of_ne
    rintro rfl
    exact isOther (h.apart q p e d j alive live memberQ member)
  · intro x
    simp only [State.recorded, update_self, nodup.mem_erase_iff, State.isChild_iff]
    constructor
    · rintro ⟨j, ⟨isOther, memberJ⟩, e, isElem, rfl⟩
      rw [update_of_ne isOther] at isElem
      refine ⟨⟨j, memberJ, e, isElem, rfl⟩, ?_⟩
      intro same
      exact isOther (recorded.entry j i e elem isElem found (same.trans isT.symm))
    · rintro ⟨⟨j, memberJ, e, isElem, rfl⟩, isOther⟩
      have notI : j ≠ i := by
        rintro rfl
        exact isOther ((some.inj (isElem.symm.trans found)) ▸ isT)
      exact ⟨j, ⟨notI, memberJ⟩, e, (update_of_ne notI ..).trans isElem, rfl⟩
  · rw [if_pos ⟨i, member, isChild_iff.mpr ⟨elem, found, isT⟩⟩]
    exact ⟨isSignalled, isT ▸ recorded.status i elem found⟩

theorem Recorded.moves {choice : Choice} (allowed : staysWithChildren ⟨p, choice⟩ s) (moves : Moves s p d s') :
    Recorded s' := by
  -- Most steps change neither the lists nor what the entries say.
  have quiet : ∀ {old new : List Frame} {after : State}, s.stack p = old → after.stack = update s.stack p new →
      SameNames s after → staying new = staying old → (∀ c, isCreating c new → isCreating c old) → Recorded after := by
    intro old new after top stack same level creates
    refine recorded.keep top stack same (level ▸ id) (fun gone stays => ?_) creates
    rw [level, stays] at gone
    cases gone
  cases moves with
  | load _ top | report _ top | createFailed top | executeDown top | killGone top | killFindSema top
  | killTeardown top | killUp_none top => exact quiet top rfl {} rfl (by simp [isCreating])
  | leaveUser top isOld isNew childSuccess =>
    refine quiet top rfl {} ?_ ?_
    · rcases isOld with rfl | ⟨success, rfl⟩ <;> rcases isNew with rfl | rfl | ⟨t, rfl⟩ | ⟨status, rfl⟩ | rfl <;> rfl
    · rcases isNew with rfl | rfl | ⟨t, rfl⟩ | ⟨status, rfl⟩ | rfl <;> simp [isCreating, threadExit]
  | acquires top acquires free =>
    refine quiet top rfl {} ?_ ?_
    · cases acquires <;> rfl
    · cases acquires <;> simp [isCreating]
  | create top inPool free => exact recorded.create h live top free
  | register top => exact recorded.register h live top
  | releases top releases =>
    refine quiet top rfl {} ?_ ?_
    · cases releases <;> rfl
    · cases releases <;> simp [isCreating]
  | exitStatus top found => exact recorded.exitStatus h live top found
  | waitNone top notFound => exact recorded.waitNone h live top notFound
  | elemDown top found raised downs =>
    refine quiet top rfl { elems := map_update found rfl } ?_ ?_
    · rcases downs with ⟨t, rfl, rfl⟩ | ⟨childSema, elemPointer, rfl, rfl⟩ <;> rfl
    · rcases downs with ⟨t, rfl, rfl⟩ | ⟨childSema, elemPointer, rfl, rfl⟩ <;> simp [isCreating]
  | waitFree top found => exact recorded.waitFree h live top found
  | beginExit top allowed' isNew =>
    have empty : s.childList p = [] := by
      simp only [staysWithChildren, live, top] at allowed
      exact allowed.1
    refine recorded.keep top rfl {} (fun _ => rfl) (fun _ _ => empty) ?_
    rcases isNew with rfl | ⟨-, rfl⟩ <;> simp [isCreating]
  | killFree top =>
    obtain ⟨-, ⟨rest, list, -⟩, -⟩ := h.relies_at live top
    have empty := recorded.alone p d live (by rw [top]; rfl)
    rw [empty] at list
    cases list
  | killUp top found =>
    refine quiet top rfl { elems := map_update found rfl, signalled := ?_ } rfl (by simp [isCreating])
    intro t isSignalled
    simp only [update_apply]
    split
    · rfl
    · exact isSignalled
  | die top notInitial => exact recorded.die p

end Moves

theorem Reachable.recorded (reached : Reachable staysWithChildren s) : Sound s ∧ Recorded s := by
  obtain ⟨poolSize, reaches⟩ := reached
  apply reaches.invariant (fun s => Sound s ∧ Recorded s) ⟨sound_boot poolSize, recorded_boot poolSize⟩
  intro label s s' before allowed stepped
  obtain ⟨d, live, moves⟩ := step_moves before.1 (before.2.exitsAlone before.1 allowed) stepped
  refine ⟨before.1.moves live moves, ?_⟩
  exact before.2.moves before.1 live (show staysWithChildren ⟨label.page, label.choice⟩ s from allowed) moves

/-! ## The records of the children -/

/-- The entries that the next step of a thread on page `p` reads or writes.  The functions of `lib/kernel/list.c`
write the neighbours of an entry that they insert or remove. -/
def Frame.accesses (s : State) (p : Page) : Frame → List Elem
  | .executeRegister _ | .waitFind _ => s.childList p
  | .exitStatus _ => s.childList (s.tparent p)
  | .waitDown _ i => [i]
  | .waitFree _ i => i :: s.childList p
  | .killFindSema target => s.childList (s.tparent target)
  | .killLoop target _ elemPointer => elemPointer.toList ++ s.childList target
  | .killDown _ _ i _ => [i]
  | .killFree target _ i _ => i :: s.childList target
  | .killUp childSema => childSema.toList
  | _ => []

section

variable (h : Sound s) (live : s.tid p = some d)

include h live

theorem Sound.listed_isSome (member : i ∈ s.childList p) :
    (s.elems i).isSome := by
  obtain ⟨e, found, -⟩ := h.listed p d i live member
  simp [found]

theorem Sound.parent_live (isNear : near (s.stack p)) :
    ∃ e, s.tid (s.tparent p) = some e := by
  by_cases isInitial : p = initialPage
  · subst isInitial
    rw [h.initial.2]
    exact ⟨1, h.initial.1⟩
  · exact ⟨_, (h.parent p d live isInitial isNear).1⟩

/-- No thread is about to use an entry that has been freed. -/
theorem Sound.accesses_isSome {frame : Frame} {rest : List Frame}
    (top : s.stack p = frame :: rest) : ∀ i ∈ frame.accesses s p, (s.elems i).isSome := by
  intro i member
  have shape := top ▸ h.shape p d live
  have reads := h.near_of_readsParent live top
  cases frame with
  | executeRegister | waitFind => exact h.listed_isSome live member
  | exitStatus status =>
    obtain ⟨e, parentLive⟩ := h.parent_live live (reads rfl)
    exact h.listed_isSome parentLive member
  | waitDown t j =>
    obtain rfl := shape.of_call rfl
    obtain rfl : i = j := by simpa [accesses] using member
    exact h.listed_isSome live (h.relies_at live top).1
  | waitFree t j =>
    obtain rfl := shape.of_call rfl
    cases member with
    | head => exact h.listed_isSome live (h.relies_at live top).1.1
    | tail _ listed => exact h.listed_isSome live listed
  | killFindSema target =>
    obtain ⟨rfl, rfl⟩ := shape.of_target rfl
    obtain ⟨e, parentLive⟩ := h.parent_live live (reads (decide_eq_true rfl))
    exact h.listed_isSome parentLive member
  | killLoop target childSema elemPointer =>
    obtain ⟨rfl, rfl⟩ := shape.of_target rfl
    obtain ⟨-, isHead⟩ := h.relies_at live top
    cases mem_append.mp member with
    | inl isNext =>
      rw [isHead, mem_toList] at isNext
      exact h.listed_isSome live (mem_of_mem_head? isNext)
    | inr listed => exact h.listed_isSome live listed
  | killDown target childSema j elemPointer =>
    obtain ⟨isP, rfl⟩ := shape.of_exit rfl rfl rfl
    obtain rfl : i = j := by simpa [accesses] using member
    obtain ⟨-, -, e, found, -⟩ := h.relies_at live top
    simp [found]
  | killFree target childSema j elemPointer =>
    obtain ⟨rfl, rfl⟩ := shape.of_target rfl
    cases member with
    | head =>
      obtain ⟨-, -, e, found, -⟩ := h.relies_at live top
      simp [found]
    | tail _ listed => exact h.listed_isSome live listed
  | killUp childSema =>
    obtain ⟨-, rfl⟩ := shape.of_exit rfl rfl rfl
    obtain ⟨e, found, -⟩ := (h.relies_at live top).1 i (mem_toList.mp member)
    simp [found]
  | _ => cases member

end

/-! ## The protocol -/

/-- The first wait for a child has returned after the child has signalled, with its exit status or -1; every other
wait has returned -1.  Only a wait for an outstanding child waits for a semaphore.  No entry is used after it has
been freed. -/
theorem wait_protocol {s : State} (reached : Reachable staysWithChildren s) :
    (∀ d, Obeys s (s.calls d)) ∧
      (∀ p d t i, s.tid p = some d → s.stack p = [.waitDown t i, .user] → t ∈ outstanding (s.calls d)) ∧
      ∀ p d frame rest, s.tid p = some d → s.stack p = frame :: rest →
        ∀ i ∈ frame.accesses s p, (s.elems i).isSome := by
  obtain ⟨sound, recorded⟩ := reached.recorded
  refine ⟨recorded.obeys, ?_, fun p d frame rest live top => sound.accesses_isSome live top⟩
  intro p d t i live top
  obtain ⟨member, isChild⟩ := sound.relies_at live top
  rw [recorded.listed p d live (by rw [top]; rfl)]
  exact ⟨i, member, isChild_iff.mpr isChild⟩

/-- Thread 2 exits with 7 while the initial thread waits for it.  The initial thread then waits for it again. -/
theorem wait_protocol_example : ∃ s : State,
    s.calls 1 = [.waited 2 (-1) false, .waited 2 7 true, .executed 2] ∧ s.signalled 2 = true ∧ s.exits 2 = some 7 := by
  obtain ⟨s, reached, calls, exits⟩ := exists_reachable staysWithChildren
    (fun s => s.calls 1 = [.waited 2 (-1) false, .waited 2 7 true, .executed 2] ∧ s.exits 2 = some 7) 2
    (executes 0 1 true ++ goes 1 1 ++ [⟨0, .wait 2⟩] ++ goes 0 2 ++ [⟨1, .exit 7⟩] ++ goes 1 10 ++ goes 0 3 ++
      [⟨0, .wait 2⟩] ++ goes 0 2) (by decide +kernel)
  have obeys := (wait_protocol reached).1 1
  rw [calls] at obeys
  exact ⟨s, calls, obeys.2.1.1, exits⟩

end Pintos.Userprog
