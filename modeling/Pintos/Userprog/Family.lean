import Mathlib.Data.List.Basic
import Pintos.Userprog.Process

/-! # Parents and children

`Sound` relates the control points of parents and children.  It is kept by every step, as long as an exiting
thread finds the pages of the children it has not waited for free, and leaves no child behind that it has no
record of.
-/

namespace Pintos.Userprog

open Function Option

/-! ## Control points -/

namespace Frame

def isDie : Frame → Bool
  | .die => true
  | _ => false

def isKill : Frame → Bool
  | .kill _ => true
  | _ => false

/-- `process_kill`, up to the search for the semaphore in the list of the parent. -/
def asksParent : Frame → Bool
  | .kill _ | .killParentLock _ | .killFindSema _ => true
  | _ => false

/-- Frames of a thread that is not in a system call, or that will not return from it. -/
def isBottom : Frame → Bool
  | .load | .loaded _ | .started _ | .user | .exitLock _ | .exitStatus _ | .die => true
  | _ => false

/-- Frames of `process_execute` and `process_wait`. -/
def inCall : Frame → Bool
  | .executeLock | .executeCreate | .executeDown _ | .executeRegister _ | .waitLock _ | .waitFind _ | .waitDown _ _
  | .waitRelock _ _ | .waitFree _ _ => true
  | _ => false

/-- Frames of `process_kill (p)`. -/
def kills (p : Page) : Frame → Bool
  | .kill target => target = some p
  | .killParentLock target | .killFindSema target | .killListLock target _ | .killLoop target _ _
  | .killDown target _ _ _ | .killRelock target _ _ _ | .killFree target _ _ _ | .killTeardown target _ => target = p
  | .killUp _ => true
  | _ => false

/-- The page whose `child_list_lock` the thread on page `p` holds. -/
def holds (s : State) (p : Page) : Frame → Option Page
  | .executeCreate | .executeDown _ | .executeRegister _ | .waitFind _ | .waitFree _ _ => some p
  | .exitStatus _ => some (s.tparent p)
  | .killFindSema target => some (s.tparent target)
  | .killLoop target _ _ | .killFree target _ _ _ => some target
  | _ => none

end Frame

/-- The stacks of threads that nobody else tears down. -/
inductive Shape (p : Page) : List Frame → Prop
  | bottom {frame : Frame} (isBottom : frame.isBottom) : Shape p [frame]
  | call {frame : Frame} (inCall : frame.inCall) : Shape p [frame, .user]
  | exit {frame : Frame} (kills : frame.kills p) : Shape p [frame, .die]
  | nested (ttarget : Option Page) (childSema : Option Elem) (i : Elem) (elemPointer : Option Elem) :
      Shape p [.kill ttarget, .killDown p childSema i elemPointer, .die]

/-- The thread may still read its `tparent`. -/
def near : List Frame → Bool
  | [] => false
  | frame :: rest =>
    if frame.isDie || rest.any Frame.isDie then decide (rest.length = 1) && frame.asksParent else true

/-- The thread has not begun to exit. -/
def staying : List Frame → Bool
  | [] => false
  | frame :: rest =>
    if frame.isDie || rest.any Frame.isDie then decide (rest.length = 1) && frame.isKill else true

variable {s : State}

namespace State

theorem isChild_iff {tid : Tid} {i : Elem} : s.isChild tid i = true ↔ ∃ e, s.elems i = some e ∧ e.childTid = tid := by
  cases found : s.elems i <;> simp [isChild, found]

/-- The list of the thread on page `p` has an entry for the thread `tid`. -/
def recorded (s : State) (p : Page) (tid : Tid) : Prop :=
  ∃ i ∈ s.childList p, s.isChild tid i

instance (s : State) (p : Page) (tid : Tid) : Decidable (s.recorded p tid) :=
  inferInstanceAs (Decidable (∃ i ∈ s.childList p, _))

end State

/-- An exiting thread finds the pages of the children it has not waited for free.  It has no unrecorded child
that may still read its page. -/
def exitsAlone (label : Label) (s : State) : Prop :=
  match s.tid label.page, s.stack label.page with
  | some tid, .kill (some target) :: _ =>
    if target = label.page then
      ∀ c < s.poolSize, c ≠ label.page → s.parentTid c = tid → near (s.stack c) → ∀ childTid, s.tid c = some childTid →
        s.recorded label.page childTid
    else s.tid target = none
  | _, _ => True

/-- The thread that `process_execute` on page `p` is creating, on page `q`. -/
structure Creates (s : State) (p : Page) (child : Tid) (q : Page) : Prop where
  tid : s.tid q = some child
  tparent : s.tparent q = p
  notInitial : q ≠ initialPage
  near : near (s.stack q) = true

/-- The entry that `process_wait` found. -/
def Waits (s : State) (p : Page) (childTid : Tid) (i : Elem) : Prop :=
  i ∈ s.childList p ∧ ∃ e, s.elems i = some e ∧ e.childTid = childTid

/-- The semaphore that `process_kill` will raise is in the thread's own entry. -/
def Signals (s : State) (tid : Tid) (childSema : Option Elem) : Prop :=
  ∀ i, childSema = some i → ∃ e, s.elems i = some e ∧ e.childTid = tid

/-- The loop of `process_kill` is at the first entry. -/
def First (s : State) (p : Page) (i : Elem) (elemPointer : Option Elem) : Prop :=
  ∃ rest, s.childList p = i :: rest ∧ elemPointer = rest.head?

/-- What a thread relies on at each control point. -/
def Relies (s : State) (p : Page) (tid : Tid) : List Frame → Prop
  | [.load] | [.loaded _] =>
    s.stack (s.tparent p) = [.executeDown (some tid), .user] ∧ s.creationSema (s.tparent p) = 0
  | [.executeDown (some child), .user] =>
    ∃ q, Creates s p child q ∧ (0 < s.creationSema p → s.ttmpchild p = some q)
  | [.executeRegister (some child), .user] => ∃ q, Creates s p child q ∧ s.ttmpchild p = some q
  | [.waitDown childTid i, .user] => Waits s p childTid i
  | [.waitRelock childTid i, .user] | [.waitFree childTid i, .user] =>
    Waits s p childTid i ∧ s.signalled childTid = true
  | [.killListLock _ childSema, .die] => Signals s tid childSema
  | [.killLoop _ childSema elemPointer, .die] => Signals s tid childSema ∧ elemPointer = (s.childList p).head?
  | [.kill ttarget, .killDown _ childSema i elemPointer, .die] =>
    Signals s tid childSema ∧ First s p i elemPointer ∧ ∃ e, s.elems i = some e ∧ e.tchild = ttarget
  | [.killDown _ childSema i elemPointer, .die] | [.killRelock _ childSema i elemPointer, .die]
  | [.killFree _ childSema i elemPointer, .die] =>
    Signals s tid childSema ∧ First s p i elemPointer ∧ ∃ e, s.elems i = some e ∧ ∀ c, s.tid c ≠ some e.childTid
  | [.killTeardown _ childSema, .die] | [.killUp childSema, .die] => Signals s tid childSema ∧ s.childList p = []
  | [.die] => s.childList p = []
  | _ => True

structure Sound (s : State) : Prop where
  -- Threads and their pages.
  unique : ∀ p q d, s.tid p = some d → s.tid q = some d → p = q
  fresh : ∀ p d, s.tid p = some d → d < s.nextTid
  pooled : ∀ p d, s.tid p = some d → p = initialPage ∨ p < s.poolSize
  initial : s.tid initialPage = some 1 ∧ s.tparent initialPage = initialPage
  elder : ∀ p d, s.tid p = some d → p ≠ initialPage → s.tparent p ≠ p
  -- What each thread is doing.
  shape : ∀ p d, s.tid p = some d → Shape p (s.stack p)
  relies : ∀ p d, s.tid p = some d → Relies s p d (s.stack p)
  locked : ∀ p d frame rest q, s.tid p = some d → s.stack p = frame :: rest → frame.holds s p = some q →
    s.childListLock q = some p
  sema : ∀ p d, s.tid p = some d → s.creationSema p ≤ 1 ∧
    (0 < s.creationSema p → ∃ c, s.stack p = [.executeDown c, .user])
  -- A thread that may still read its parent's page finds it there.
  parent : ∀ p d, s.tid p = some d → p ≠ initialPage → near (s.stack p) → s.tid (s.tparent p) = some (s.parentTid p) ∧
      (staying (s.stack (s.tparent p)) ∨ s.recorded (s.tparent p) d)
  -- The lists of children.
  listed : ∀ p d i, s.tid p = some d → i ∈ s.childList p → ∃ e, s.elems i = some e ∧
    ∃ q, e.tchild = some q ∧ q ≠ p ∧ ∀ c, s.tid c = some e.childTid → c = q
  nodup : ∀ p d, s.tid p = some d → (s.childList p).Nodup
  apart : ∀ p q d d' i, s.tid p = some d → s.tid q = some d' → i ∈ s.childList p → i ∈ s.childList q → p = q
  unused : ∀ i, s.nextElem ≤ i → s.elems i = none
  childTid : ∀ i e, s.elems i = some e → e.childTid < s.nextTid
  -- Signals.
  signals : ∀ d, s.signalled d = true → d < s.nextTid ∧ ∀ p, s.tid p = some d → s.stack p = [.die]
  upped : ∀ i e, s.elems i = some e → 0 < e.semaphore → s.signalled e.childTid = true

/-! ## What the other threads rely on -/

variable {p : Page} {s' : State} {d e : Tid}

theorem Relies.mono {stack : List Frame} (relies : Relies s p d stack)
    (loading : stack = [.load] ∨ (∃ success, stack = [.loaded success]) →
      s.stack (s.tparent p) = [.executeDown (some d), .user] → s.creationSema (s.tparent p) = 0 →
      s'.stack (s'.tparent p) = [.executeDown (some d), .user] ∧ s'.creationSema (s'.tparent p) = 0)
    (creates : ∀ child q, (stack = [.executeDown (some child), .user] ∨
        stack = [.executeRegister (some child), .user]) →
      Creates s p child q → Creates s' p child q)
    (tid : ∀ i e c, s.elems i = some e → s'.tid c = some e.childTid → s.tid c = some e.childTid)
    (ttmpchild : ∀ q, s.ttmpchild p = some q → s'.ttmpchild p = some q := by exact fun _ => id)
    (sema : 0 < s'.creationSema p → 0 < s.creationSema p := by exact id)
    (childList : s'.childList p = s.childList p := by rfl)
    (elems : stack ≠ [.die] → ∀ i e, s.elems i = some e → i ∈ s.childList p ∨ e.childTid = d →
      ∃ e', s'.elems i = some e' ∧ e'.childTid = e.childTid ∧ e'.tchild = e.tchild := by
        exact fun _ _ e found _ => ⟨e, found, rfl, rfl⟩)
    (signalled : ∀ t, s.signalled t = true → s'.signalled t = true := by exact fun _ => id) : Relies s' p d stack := by
  have signals : stack ≠ [.die] → ∀ childSema, Signals s d childSema → Signals s' d childSema := by
    intro notDie childSema before i same
    obtain ⟨e, found, own⟩ := before i same
    obtain ⟨e', found', childTid, -⟩ := elems notDie i e found (.inr own)
    exact ⟨e', found', childTid.trans own⟩
  have waits : stack ≠ [.die] → ∀ childTid i, Waits s p childTid i → Waits s' p childTid i := by
    rintro notDie t i ⟨member, e, found, same⟩
    obtain ⟨e', found', childTid, -⟩ := elems notDie i e found (.inl member)
    exact ⟨childList ▸ member, e', found', childTid.trans same⟩
  have first : ∀ i elemPointer, First s p i elemPointer → First s' p i elemPointer := by
    rintro i elemPointer ⟨rest, list, next⟩
    exact ⟨rest, childList.trans list, next⟩
  have head : ∀ i elemPointer, First s p i elemPointer → i ∈ s.childList p := by
    rintro i elemPointer ⟨rest, list, -⟩
    simp [list]
  have gone : stack ≠ [.die] → ∀ i elemPointer, First s p i elemPointer →
      (∃ e, s.elems i = some e ∧ ∀ c, s.tid c ≠ some e.childTid) →
      ∃ e, s'.elems i = some e ∧ ∀ c, s'.tid c ≠ some e.childTid := by
    rintro notDie i elemPointer isFirst ⟨e, found, dead⟩
    obtain ⟨e', found', childTid, -⟩ := elems notDie i e found (.inl (head i elemPointer isFirst))
    refine ⟨e', found', fun c alive => ?_⟩
    rw [childTid] at alive
    exact dead c (tid i e c found alive)
  unfold Relies at relies ⊢
  split at relies
  · exact loading (.inl rfl) relies.1 relies.2
  · exact loading (.inr ⟨_, rfl⟩) relies.1 relies.2
  · obtain ⟨q, child, reported⟩ := relies
    exact ⟨q, creates _ q (.inl rfl) child, fun up => ttmpchild q (reported (sema up))⟩
  · obtain ⟨q, child, reported⟩ := relies
    exact ⟨q, creates _ q (.inr rfl) child, ttmpchild q reported⟩
  · exact waits (by simp) _ _ relies
  iterate 2 exact ⟨waits (by simp) _ _ relies.1, signalled _ relies.2⟩
  · exact signals (by simp) _ relies
  · exact ⟨signals (by simp) _ relies.1, childList ▸ relies.2⟩
  · obtain ⟨sem, isFirst, e, found, same⟩ := relies
    obtain ⟨e', found', -, tchild⟩ := elems (by simp) _ e found (.inl (head _ _ isFirst))
    exact ⟨signals (by simp) _ sem, first _ _ isFirst, e', found', tchild.trans same⟩
  iterate 3 exact ⟨signals (by simp) _ relies.1, first _ _ relies.2.1, gone (by simp) _ _ relies.2.1 relies.2.2⟩
  iterate 2 exact ⟨signals (by simp) _ relies.1, childList.trans relies.2⟩
  · exact childList.trans relies
  · trivial

/-! ## Steps of one thread -/

theorem Frame.holds_congr (tparent : s'.tparent = s.tparent) (p : Page) (frame : Frame) :
    frame.holds s' p = frame.holds s p := by
  cases frame <;> simp [Frame.holds, tparent]

/-- A thread that is creating a process holds its own lock, so its child cannot hold it. -/
theorem Sound.not_creates (h : Sound s) {t : Page} {c : Tid} (live : s.tid p = some d) (parentLive : s.tid t = some e)
    (tparent : s.tparent p = t) (notInitial : p ≠ initialPage)
    (creating : s.stack t = [.executeDown (some c), .user] ∨ s.stack t = [.executeRegister (some c), .user])
    (holds : s.childListLock t = some p) : False := by
  have own : s.childListLock t = some t := by
    cases creating with
    | inl down => exact h.locked t e _ _ t parentLive down rfl
    | inr register => exact h.locked t e _ _ t parentLive register rfl
  rw [own] at holds
  cases holds
  exact h.elder p d live notInitial tparent

/-- The threads, and all that a thread's entry in the list of its parent says of it. -/
structure SameThreads (s s' : State) : Prop where
  tid : s'.tid = s.tid := by rfl
  tparent : s'.tparent = s.tparent := by rfl
  parentTid : s'.parentTid = s.parentTid := by rfl
  poolSize : s'.poolSize = s.poolSize := by rfl
  nextTid : s'.nextTid = s.nextTid := by rfl

/-- The control points of the thread on page `p` before and after a step, as far as other threads depend on them. -/
structure Passes (s s' : State) (p : Page) (new : List Frame) : Prop where
  stack : s'.stack = update s.stack p new
  shape : Shape p new
  locks : ∀ q holder, holder ≠ p → s.childListLock q = some holder → s'.childListLock q = some holder
  held : ∀ frame rest q, new = frame :: rest → frame.holds s p = some q → s'.childListLock q = some p
  notDead : s.stack p ≠ [.die]
  nearer : near new = true → near (s.stack p) = true
  left : p ≠ initialPage → near (s.stack p) = true → near new = true ∨ s.childListLock (s.tparent p) = some p
  stays : staying (s.stack p) = true → staying new = true ∨
    ∀ c e, s.tid c = some e → c ≠ initialPage → s.tparent c = p → near (s.stack c) = true → s.recorded p e

/-- What a step of the thread on page `p` does to the entries: those it removes from its own list belong to
threads that have signalled or are gone. -/
structure Entries (s s' : State) (p : Page) : Prop where
  others : ∀ q, q ≠ p → s'.childList q = s.childList q
  kept : ∀ i e, s.elems i = some e → (∃ e', s'.elems i = some e' ∧ e'.childTid = e.childTid ∧ e'.tchild = e.tchild) ∧
      (i ∈ s.childList p → i ∈ s'.childList p) ∨
    i ∈ s.childList p ∧ ∀ c, s.tid c = some e.childTid → s.stack c = [.die]
  listed : ∀ i ∈ s'.childList p, ∃ e, s'.elems i = some e ∧
    ∃ q, e.tchild = some q ∧ q ≠ p ∧ ∀ c, s.tid c = some e.childTid → c = q
  nodup : (s'.childList p).Nodup
  old : ∀ i ∈ s'.childList p, i ∈ s.childList p ∨ s.elems i = none
  unused : ∀ i, s'.nextElem ≤ i → s'.elems i = none
  childTid : ∀ i e, s'.elems i = some e → e.childTid < s.nextTid
  upped : ∀ i e, s'.elems i = some e → 0 < e.semaphore → s'.signalled e.childTid = true

variable {q : Page}

theorem Entries.recorded {c : Page} (entries : Entries s s' p) (childLive : s.tid c = some e)
    (isNear : near (s.stack c) = true) (record : s.recorded q e) : s'.recorded q e := by
  obtain ⟨i, member, isChild⟩ := record
  obtain ⟨elem, found, same⟩ := State.isChild_iff.mp isChild
  cases entries.kept i elem found with
  | inl kept =>
    obtain ⟨⟨elem', found', childTid, -⟩, stays⟩ := kept
    have isChild' : s'.isChild e i = true := State.isChild_iff.mpr ⟨elem', found', childTid.trans same⟩
    by_cases isP : q = p
    · subst isP
      exact ⟨i, stays member, isChild'⟩
    · exact ⟨i, entries.others q isP ▸ member, isChild'⟩
  | inr removed =>
    have dead := removed.2 c (by rw [same]; exact childLive)
    rw [dead] at isNear
    cases isNear

variable {new : List Frame}

section

variable (h : Sound s) (live : s.tid p = some d)

include h live

theorem Sound.advance (same : SameThreads s s') (passes : Passes s s' p new)
    (entries : Entries s s' p) (relies : Relies s' p d new)
    (creationSema : ∀ q, q ≠ p → s'.creationSema q = s.creationSema q)
    (ttmpchild : ∀ q, q ≠ p → s'.ttmpchild q = s.ttmpchild q)
    (loading : ∀ c, s.stack p = [.executeDown c, .user] → 0 < s.creationSema p) (sema : s'.creationSema p = 0)
    (signalled : ∀ t, s.signalled t = true → s'.signalled t = true)
    (signals : ∀ t, s'.signalled t = true → s.signalled t = true ∨ t = d ∧ new = [.die]) : Sound s' := by
  have mine : s'.stack p = new := by simp [passes.stack]
  have others : ∀ {q}, q ≠ p → s'.stack q = s.stack q := by
    intro q other
    simp [passes.stack, other]
  constructor
  · simpa [same.tid] using h.unique
  · simpa [same.tid, same.nextTid] using h.fresh
  · simpa [same.tid, same.poolSize] using h.pooled
  · simpa [same.tid, same.tparent] using h.initial
  · simpa [same.tid, same.tparent] using h.elder
  · intro q e alive
    by_cases other : q = p
    · subst other
      rw [mine]
      exact passes.shape
    · rw [others other]
      exact h.shape q e (same.tid ▸ alive)
  · intro q e alive
    rw [same.tid] at alive
    by_cases other : q = p
    · subst other
      rw [live] at alive
      cases alive
      rwa [mine]
    rw [others other]
    refine (h.relies q e alive).mono ?_ ?_ (by simp [same.tid]) (by simp [ttmpchild q other])
      (by simp [creationSema q other]) (entries.others q other) ?_ signalled
    · intro _ down zero
      have elsewhere : s.tparent q ≠ p := by
        intro isP
        rw [isP] at down zero
        exact absurd zero (Nat.ne_of_gt (loading _ down))
      rw [same.tparent, others elsewhere, creationSema _ elsewhere]
      exact ⟨down, zero⟩
    · rintro child c creating ⟨tid, tparent, notInitial, isNear⟩
      refine ⟨same.tid ▸ tid, same.tparent ▸ tparent, notInitial, ?_⟩
      by_cases isP : c = p
      · subst isP
        rw [mine]
        apply (passes.left notInitial isNear).resolve_right
        intro holds
        rw [tparent] at holds
        exact h.not_creates tid alive tparent notInitial creating holds
      · rwa [others isP]
    · intro notDead i elem found mineOrOwn
      cases entries.kept i elem found with
      | inl kept => exact kept.1
      | inr removed =>
        cases mineOrOwn with
        | inl member => exact absurd (h.apart q p e d i alive live member removed.1) other
        | inr own => exact absurd (removed.2 q (own ▸ alive)) notDead
  · intro q e frame rest x alive top holds
    rw [same.tid] at alive
    rw [Frame.holds_congr same.tparent] at holds
    by_cases other : q = p
    · subst other
      exact passes.held frame rest x (mine ▸ top) holds
    · rw [others other] at top
      exact passes.locks x q other (h.locked q e frame rest x alive top holds)
  · intro q e alive
    rw [same.tid] at alive
    by_cases other : q = p
    · subst other
      simp [sema]
    · rw [creationSema q other, others other]
      exact h.sema q e alive
  · intro q e alive notInitial isNear
    rw [same.tid] at alive
    rw [same.tid, same.tparent, same.parentTid]
    have before : near (s.stack q) = true := by
      by_cases other : q = p
      · subst other
        exact passes.nearer (mine ▸ isNear)
      · exact others other ▸ isNear
    obtain ⟨found, safe⟩ := h.parent q e alive notInitial before
    have keep := entries.recorded (q := s.tparent q) alive before
    refine ⟨found, ?_⟩
    by_cases isP : s.tparent q = p
    · rw [isP] at safe keep ⊢
      rw [mine]
      cases safe with
      | inl stayed =>
        cases passes.stays stayed with
        | inl still => exact .inl still
        | inr allRecorded => exact .inr (keep (allRecorded q e alive notInitial isP before))
      | inr record => exact .inr (keep record)
    · rw [others isP]
      exact safe.imp_right keep
  · intro q e i alive member
    rw [same.tid] at alive ⊢
    by_cases other : q = p
    · subst other
      exact entries.listed i member
    · rw [entries.others q other] at member
      obtain ⟨elem, found, x, tchild, elsewhere, only⟩ := h.listed q e i alive member
      cases entries.kept i elem found with
      | inl kept =>
        obtain ⟨⟨elem', found', childTid, tchild'⟩, -⟩ := kept
        exact ⟨elem', found', x, tchild'.trans tchild, elsewhere, childTid ▸ only⟩
      | inr removed => exact absurd (h.apart q p e d i alive live member removed.1) other
  · intro q e alive
    rw [same.tid] at alive
    by_cases other : q = p
    · subst other
      exact entries.nodup
    · rw [entries.others q other]
      exact h.nodup q e alive
  · -- New entries are in the list of `p` only.
    have mineOnly : ∀ q e i, s.tid q = some e → q ≠ p → i ∈ s.childList q → i ∉ s'.childList p := by
      intro q e i alive other member mineToo
      cases entries.old i mineToo with
      | inl old => exact other (h.apart q p e d i alive live member old)
      | inr new =>
        obtain ⟨elem, found, -⟩ := h.listed q e i alive member
        simp [new] at found
    intro q q' e e' i alive alive' member member'
    rw [same.tid] at alive alive'
    by_cases other : q = p
    · by_cases other' : q' = p
      · rw [other, other']
      · subst other
        rw [entries.others q' other'] at member'
        exact absurd member (mineOnly q' e' i alive' other' member')
    · rw [entries.others q other] at member
      by_cases other' : q' = p
      · subst other'
        exact absurd member' (mineOnly q e i alive other member)
      · rw [entries.others q' other'] at member'
        exact h.apart q q' e e' i alive alive' member member'
  · exact entries.unused
  · rw [same.nextTid]
    exact entries.childTid
  · intro t isSignalled
    rw [same.nextTid, same.tid]
    cases signals t isSignalled with
    | inl before =>
      obtain ⟨old, dead⟩ := h.signals t before
      refine ⟨old, fun q alive => ?_⟩
      have other : q ≠ p := by
        rintro rfl
        exact passes.notDead (dead q alive)
      rw [others other]
      exact dead q alive
    | inr now =>
      obtain ⟨rfl, isDead⟩ := now
      refine ⟨h.fresh p t live, fun q alive => ?_⟩
      obtain rfl := h.unique q p t alive live
      rw [mine, isDead]
  · exact entries.upped

/-- Lists and entries are as they were. -/
structure SameEntries (s s' : State) : Prop where
  childList : s'.childList = s.childList := by rfl
  elems : s'.elems = s.elems := by rfl
  nextElem : s'.nextElem = s.nextElem := by rfl
  signalled : s'.signalled = s.signalled := by rfl

structure SameData (s s' : State) : Prop extends SameEntries s s' where
  creationSema : s'.creationSema = s.creationSema := by rfl
  ttmpchild : s'.ttmpchild = s.ttmpchild := by rfl

theorem Sound.entries_same (data : SameEntries s s') : Entries s s' p where
  others q _ := by rw [data.childList]
  kept i e found := .inl ⟨⟨e, data.elems ▸ found, rfl, rfl⟩, fun member => data.childList ▸ member⟩
  listed i member := by
    rw [data.childList] at member
    rw [data.elems]
    exact h.listed p d i live member
  nodup := by
    rw [data.childList]
    exact h.nodup p d live
  old i member := .inl (data.childList ▸ member)
  unused := by
    rw [data.nextElem, data.elems]
    exact h.unused
  childTid := by
    rw [data.elems]
    exact h.childTid
  upped := by
    rw [data.elems, data.signalled]
    exact h.upped

/-- A step that leaves the creation of processes alone. -/
theorem Sound.change (same : SameThreads s s') (passes : Passes s s' p new)
    (entries : Entries s s' p) (relies : Relies s' p d new) (notDown : ∀ c, s.stack p ≠ [.executeDown c, .user])
    (creationSema : s'.creationSema = s.creationSema := by rfl)
    (ttmpchild : ∀ q, q ≠ p → s'.ttmpchild q = s.ttmpchild q := by intros; rfl)
    (signalled : ∀ t, s.signalled t = true → s'.signalled t = true := by exact fun _ => id)
    (signals : ∀ t, s'.signalled t = true → s.signalled t = true ∨ t = d ∧ new = [.die] := by exact fun _ => .inl) :
    Sound s' := by
  refine h.advance live same passes entries relies ?_ ttmpchild ?_ ?_ signalled signals
  · intro q _
    rw [creationSema]
  · intro c down
    exact absurd down (notDown c)
  · rw [creationSema]
    by_contra raised
    obtain ⟨c, down⟩ := (h.sema p d live).2 (Nat.pos_of_ne_zero raised)
    exact notDown c down

theorem Sound.move (same : SameThreads s s') (data : SameData s s')
    (passes : Passes s s' p new) (relies : Relies s' p d new) (notDown : ∀ c, s.stack p ≠ [.executeDown c, .user]) :
    Sound s' := by
  refine h.change live same passes (h.entries_same live data.toSameEntries) relies notDown data.creationSema ?_ ?_ ?_
  · intro q _
    rw [data.ttmpchild]
  · intro t before
    rwa [data.signalled]
  · intro t after
    exact .inl (data.signalled ▸ after)

end

/-- A step that keeps the thread on its side of the two points at which others stop depending on it. -/
theorem Passes.level {old : List Frame} (top : s.stack p = old) (stack : s'.stack = update s.stack p new)
    (shape : Shape p new)
    (locks : ∀ q holder, holder ≠ p → s.childListLock q = some holder → s'.childListLock q = some holder)
    (held : ∀ frame rest q, new = frame :: rest → frame.holds s p = some q → s'.childListLock q = some p := by
      rintro _ _ _ ⟨⟩ ⟨⟩) (notDead : old ≠ [.die] := by simp) (nearSame : near new = near old := by rfl)
    (stayingSame : staying new = staying old := by rfl) : Passes s s' p new where
  stack := stack
  shape := shape
  locks := locks
  held := held
  notDead := top ▸ notDead
  nearer isNear := by rw [top, ← nearSame, isNear]
  left _ isNear := .inl (by rw [nearSame, ← top, isNear])
  stays isStaying := .inl (by rw [stayingSame, ← top, isStaying])

/-! ## Locks -/

theorem lockAcquire_eq (acquired : s.lockAcquire p q = some s') :
    (s.tid q).isSome ∧ s.childListLock q = none ∧
      s' = { s with childListLock := update s.childListLock q (some p) } := by
  unfold State.lockAcquire at acquired
  split_ifs at acquired with free
  exact ⟨free.1, free.2, (some.inj acquired).symm⟩

theorem lockRelease_eq (released : s.lockRelease p q = some s') :
    s.childListLock q = some p ∧ s' = { s with childListLock := update s.childListLock q none } := by
  unfold State.lockRelease at released
  split_ifs at released with held
  exact ⟨held.2, (some.inj released).symm⟩

variable {lock : Page → Option Page}

theorem locks_acquire (free : lock q = none) (x holder : Page) (before : lock x = some holder) :
    update lock q (some p) x = some holder := by
  have other : x ≠ q := by
    rintro rfl
    simp [free] at before
  rwa [update_of_ne other]

theorem locks_release (held : lock q = some p) (x holder : Page) (other : holder ≠ p) (before : lock x = some holder) :
    update lock q none x = some holder := by
  have elsewhere : x ≠ q := by
    rintro rfl
    exact other (some.inj (before.symm.trans held))
  rwa [update_of_ne elsewhere]

section Level

/-- Nothing changes but the control point of a thread, which stays on its side of the two points at which others stop
depending on it. -/
structure Level (s s' : State) (old new : List Frame) : Prop where
  same : SameThreads s s' := by exact {}
  data : SameData s s' := by exact {}
  nearSame : near new = near old := by rfl
  stayingSame : staying new = staying old := by rfl
  notDown : ∀ c, old ≠ [.executeDown c, .user] := by simp
  notDead : old ≠ [.die] := by simp

variable {s s' : State} {p : Page} {d : Tid} {old new : List Frame} (h : Sound s) (live : s.tid p = some d)
  (top : s.stack p = old) (stack : s'.stack = update s.stack p new) (shape : Shape p new) (relies : Relies s' p d new)
  (level : Level s s' old new)

include h live top stack shape relies level

theorem Sound.pass (locks : ∀ q holder, holder ≠ p → s.childListLock q = some holder → s'.childListLock q = some holder)
    (held : ∀ frame rest q, new = frame :: rest → frame.holds s p = some q → s'.childListLock q = some p) : Sound s' :=
  h.move live level.same level.data
    (.level top stack shape locks held level.notDead level.nearSame level.stayingSame) relies (top ▸ level.notDown)

theorem Sound.proceed (held : ∀ frame rest q, new = frame :: rest → frame.holds s p = some q →
      s.childListLock q = some p := by rintro _ _ _ ⟨⟩ ⟨⟩) (locks : s'.childListLock = s.childListLock := by rfl) :
    Sound s' := by
  refine h.pass live top stack shape relies level ?_ ?_
  · intro q holder _ before
    rwa [locks]
  · rw [locks]
    exact held

theorem Sound.acquire (free : s.childListLock q = none)
    (held : ∀ frame rest x, new = frame :: rest → frame.holds s p = some x → x = q := by rintro _ _ _ ⟨⟩ ⟨⟩; rfl)
    (locks : s'.childListLock = update s.childListLock q (some p) := by rfl) : Sound s' := by
  refine h.pass live top stack shape relies level ?_ ?_
  · intro x holder _ before
    rw [locks]
    exact locks_acquire free x holder before
  · intro frame rest x isNew holds
    rw [locks, held frame rest x isNew holds, update_self]

theorem Sound.release (holds : s.childListLock q = some p)
    (held : ∀ frame rest, new = frame :: rest → frame.holds s p = none := by rintro _ _ ⟨⟩; rfl)
    (locks : s'.childListLock = update s.childListLock q none := by rfl) : Sound s' := by
  refine h.pass live top stack shape relies level ?_ ?_
  · rw [locks]
    exact locks_release holds
  · intro frame rest x isNew stillHolds
    rw [held frame rest isNew] at stillHolds
    cases stillHolds

end Level

end Pintos.Userprog
