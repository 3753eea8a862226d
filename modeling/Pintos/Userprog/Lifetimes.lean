import Pintos.Userprog.FamilySteps

/-! # The lifetimes of processes

As long as exiting threads leave nothing behind, a child finds the page of its parent wherever it reads it, and
each thread is torn down once, by itself.
-/

namespace Pintos.Userprog

open Library Function Option State

theorem sound_boot (poolSize : Nat) : Sound (boot poolSize) := by
  have only : ∀ {p d}, (boot poolSize).tid p = some d → p = initialPage ∧ d = 1 := by
    intro p d live
    by_cases isInitial : p = initialPage
    · subst isInitial
      exact ⟨rfl, by simpa [boot, eq_comm] using live⟩
    · simp [boot, isInitial] at live
  have stack : (boot poolSize).stack initialPage = [.user] := by simp [boot]
  constructor
  · intro p q d live live'
    rw [(only live).1, (only live').1]
  · intro p d live
    rw [(only live).2]
    show (1 : Int) < 2
    decide
  · intro p d live
    exact .inl (only live).1
  · simp [boot]
  · intro p d live notInitial
    exact absurd (only live).1 notInitial
  · intro p d live
    rw [(only live).1, stack]
    exact .bottom rfl
  · intro p d live
    rw [(only live).1, stack]
    trivial
  · intro p d frame rest q live top holds
    rw [(only live).1, stack] at top
    obtain ⟨rfl, -⟩ := List.cons.inj top
    cases holds
  · intro p d _
    simp [boot]
  · intro p d live notInitial
    exact absurd (only live).1 notInitial
  · intro p d i _ member
    simp [boot] at member
  · intro p d _
    simp [boot]
  · intro p q d d' i _ _ member
    simp [boot] at member
  · simp [boot]
  · simp [boot]
  · simp [boot]
  · simp [boot]

variable {s s' : State}

theorem Sound.step {label : Label} (h : Sound s) (allowed : exitsAlone label s)
    (stepped : Userprog.step label s = some s') : Sound s' := by
  obtain ⟨d, live, moves⟩ := step_moves h allowed stepped
  exact h.moves live moves

theorem Reachable.sound (reached : Reachable exitsAlone s) : Sound s := by
  obtain ⟨poolSize, reaches⟩ := reached
  exact reaches.invariant Sound (sound_boot poolSize) fun sound allowed stepped => sound.step allowed stepped

instance (s : State) (c : Page) (goal : Tid → Prop) [DecidablePred goal] :
    Decidable (∀ tid, s.tid c = some tid → goal tid) :=
  match found : s.tid c with
  | none => .isTrue fun tid isSome => by simp at isSome
  | some tid => decidable_of_iff (goal tid) ⟨fun holds t same => some.inj same ▸ holds, fun all => all tid rfl⟩

instance : ∀ label s, Decidable (exitsAlone label s) := by
  intro label s
  unfold exitsAlone
  split
  · split <;> infer_instance
  · infer_instance

/-- A thread exits only when it has no child, neither in its list nor alive. -/
def staysWithChildren (label : Label) (s : State) : Prop :=
  match s.tid label.page, s.stack label.page with
  | some tid, [.kill _, .die] =>
    s.childList label.page = [] ∧ ∀ c < s.poolSize, c ≠ label.page → (s.tid c).isSome → s.parentTid c ≠ tid
  | _, _ => True

instance : ∀ label s, Decidable (staysWithChildren label s) := by
  intro label s
  unfold staysWithChildren
  split <;> infer_instance

/-- A run from the initial thread alone, replayed, shows that a state is reachable. -/
theorem exists_reachable (allowed : Label → State → Prop) [∀ label s, Decidable (allowed label s)]
    (property : State → Prop) [DecidablePred property] (poolSize : Nat) (labels : List Label)
    (found : (execute step allowed labels (boot poolSize)).any (fun s => decide (property s)) = true) :
    ∃ s, Reachable allowed s ∧ property s := by
  obtain ⟨s, reaches, shown⟩ := exists_reached step allowed _ property _ found
  exact ⟨s, ⟨_, reaches⟩, shown⟩

/-- The thread on page `p` takes as many steps. -/
def goes (p : Page) (steps : Nat) : List Label :=
  List.replicate steps ⟨p, .go⟩

/-- `process_execute` on page `p`, up to its return, with a child on page `q`. -/
def executes (p q : Page) (success : Bool) : List Label :=
  [⟨p, .execute⟩, ⟨p, .go⟩, ⟨p, .create (some q)⟩, ⟨q, .load success⟩, ⟨q, .go⟩, ⟨p, .go⟩, ⟨p, .malloc true⟩]

/-! ## The page of the parent -/

/-- A thread on page `p` is about to read a member of its `tparent`. -/
def Frame.readsParent (p : Page) : Frame → Bool
  | .loaded _ | .exitLock _ | .exitStatus _ => true
  | .kill target => target = some p
  | .killParentLock target | .killFindSema target => target = p
  | _ => false

variable {p : Page} {d : Tid}

theorem Sound.near_of_readsParent (h : Sound s) (live : s.tid p = some d) {frame : Frame} {rest : List Frame}
    (top : s.stack p = frame :: rest) (reads : frame.readsParent p) : near (s.stack p) = true := by
  have shape := top ▸ h.shape p d live
  rw [top]
  cases frame with
  | loaded | exitLock | exitStatus =>
    obtain rfl := shape.of_bottom rfl
    rfl
  | kill target =>
    obtain rfl : target = some p := by simpa [Frame.readsParent] using reads
    obtain ⟨-, rfl⟩ | ⟨childSema, i, elemPointer, rfl⟩ := shape.of_kill
    · rfl
    · -- The entries of a thread are not about itself.
      obtain ⟨-, ⟨rest, list, -⟩, elem, found, tchild⟩ := h.relies_at live top
      obtain ⟨elem', found', q, tchild', elsewhere, -⟩ := h.listed p d i live (by simp [list])
      obtain rfl : elem' = elem := some.inj (found'.symm.trans found)
      exact absurd (some.inj (tchild'.symm.trans tchild)) elsewhere
  | killParentLock | killFindSema =>
    obtain ⟨-, rfl⟩ := shape.of_exit rfl rfl rfl
    rfl
  | _ => cases reads

/-- Whenever a child reads its `tparent`, the page is still that of the thread that created it. -/
theorem tparent_alive (reached : Reachable exitsAlone s) (live : s.tid p = some d)
    (isChild : p ≠ initialPage) {frame : Frame} {rest : List Frame} (top : s.stack p = frame :: rest)
    (reads : frame.readsParent p) : s.tid (s.tparent p) = some (s.parentTid p) := by
  have sound := reached.sound
  exact (sound.parent p d live isChild (sound.near_of_readsParent live top reads)).1

/-- A child that its parent has created, about to exit with a status. -/
theorem tparent_alive_example : ∃ s : State, s.stack 1 = [.exitLock 7] ∧ s.tparent 1 = initialPage ∧
    s.tid (s.tparent 1) = some (s.parentTid 1) := by
  obtain ⟨s, reached, live, top, tparent⟩ := exists_reachable exitsAlone
    (fun s => s.tid 1 = some 2 ∧ s.stack 1 = [.exitLock 7] ∧ s.tparent 1 = initialPage) 2
    (executes 0 1 true ++ goes 1 1 ++ [⟨1, .exit 7⟩]) (by decide +kernel)
  exact ⟨s, top, tparent, tparent_alive reached live (by decide) top rfl⟩

/-- Thread 3 has failed to load and told its parent, which exits.  Then it reads the page of its parent. -/
theorem failed_child_reads_free_page : ∃ s, Reachable (fun _ _ => True) s ∧ s.tid 2 = some 3 ∧
    s.stack 2 = [.kill (some 2), .die] ∧ s.tparent 2 = 1 ∧ s.tid 1 = none :=
  exists_reachable (fun _ _ => True)
    (fun s => s.tid 2 = some 3 ∧ s.stack 2 = [.kill (some 2), .die] ∧ s.tparent 2 = 1 ∧ s.tid 1 = none) 3
    (executes 0 1 true ++ goes 1 1 ++ executes 1 2 false ++ [⟨1, .kill⟩] ++ goes 1 8 ++ goes 2 1) (by decide +kernel)

/-! ## Teardown -/

/-- The thread has passed its own teardown. -/
def torn : List Frame → Bool
  | [.killUp _, .die] | [.die] => true
  | _ => false

/-- Who has torn down which thread. -/
structure TornOnce (s : State) : Prop where
  present : ∀ p d, s.tid p = some d → s.teardowns d = if torn (s.stack p) then [d] else []
  gone : ∀ d, 1 ≤ d → d < s.nextTid → (∀ p, s.tid p ≠ some d) → s.teardowns d = [d]
  future : ∀ d, s.nextTid ≤ d → s.teardowns d = []

theorem tornOnce_boot (poolSize : Nat) : TornOnce (boot poolSize) where
  present p d live := by
    by_cases isInitial : p = initialPage
    · simp [boot, isInitial, torn]
    · simp [boot, isInitial] at live
  gone d positive small absent := by
    have isInitial : d = 1 := Int.le_antisymm (Int.lt_add_one_iff.mp small) positive
    exact absurd (by simp [boot, isInitial]) (absent initialPage)
  future d _ := rfl

/-- A step of one thread that tears nobody down. -/
theorem TornOnce.keep (once : TornOnce s) {old new : List Frame} (top : s.stack p = old)
    (stack : s'.stack = update s.stack p new) (level : torn new = torn old := by rfl)
    (tid : s'.tid = s.tid := by rfl) (nextTid : s'.nextTid = s.nextTid := by rfl)
    (teardowns : s'.teardowns = s.teardowns := by rfl) : TornOnce s' where
  present q d live := by
    rw [tid] at live
    rw [teardowns, once.present q d live]
    by_cases isP : q = p
    · rw [isP, stack, update_self, level, top]
    · rw [stack, update_of_ne isP]
  gone := by
    rw [tid, nextTid, teardowns]
    exact once.gone
  future := by
    rw [nextTid, teardowns]
    exact once.future

theorem TornOnce.moves (h : Sound s) (once : TornOnce s) (live : s.tid p = some d) (moves : Moves s p d s') :
    TornOnce s' := by
  cases moves with
  | load _ top | report _ top | createFailed top | executeDown top | register top | exitStatus top | waitNone top
  | waitFree top | killGone top | killFindSema top | killFree top | killUp top | killUp_none top =>
    exact once.keep top rfl
  | leaveUser top isOld isNew childSuccess =>
    refine once.keep top rfl ?_
    rcases isOld with rfl | ⟨success, rfl⟩ <;> rcases isNew with rfl | rfl | ⟨t, rfl⟩ | ⟨status, rfl⟩ | rfl <;> rfl
  | acquires top acquires free =>
    refine once.keep top rfl ?_
    cases acquires <;> rfl
  | create top inPool free =>
    rename_i q
    have other : q ≠ p := ne_of_free live free
    constructor
    · intro x e alive
      show s.teardowns e = _
      by_cases isNew : x = q
      · subst isNew
        obtain ⟨tid, -, -, -, -, stack⟩ := created_new (s := s) (d := d) other
        rw [tid] at alive
        cases alive
        rw [stack]
        exact once.future _ (Int.le_refl _)
      · rw [(created_old isNew).1] at alive
        rw [once.present x e alive]
        by_cases isMine : x = p
        · rw [isMine, created_mine, top]
          rfl
        · rw [created_stack isNew isMine]
    · intro e positive small absent
      have old : e < s.nextTid := by
        have le : e ≤ s.nextTid := Int.lt_add_one_iff.mp small
        refine Int.lt_iff_le_and_ne.mpr ⟨le, ?_⟩
        rintro rfl
        exact absent q (created_new other).1
      apply once.gone e positive old
      intro x alive
      have isOld : x ≠ q := by
        rintro rfl
        simp [free] at alive
      exact absent x ((created_old isOld).1.trans alive)
    · intro e large
      exact once.future e (Int.le_trans (Int.le_of_lt (Int.lt_succ _)) large)
  | releases top releases =>
    refine once.keep top rfl ?_
    cases releases <;> rfl
  | elemDown top found raised downs =>
    refine once.keep top rfl ?_
    rcases downs with ⟨t, rfl, rfl⟩ | ⟨childSema, elemPointer, rfl, rfl⟩ <;> rfl
  | beginExit top allowed isNew =>
    refine once.keep top rfl ?_
    rcases isNew with rfl | ⟨-, rfl⟩ <;> rfl
  | killTeardown top =>
    constructor
    · intro x e alive
      by_cases isP : x = p
      · subst isP
        obtain rfl : d = e := some.inj (live.symm.trans alive)
        have before := once.present x d live
        rw [top] at before
        simp [torn, show s.teardowns d = [] from before]
      · have other : e ≠ d := by
          rintro rfl
          exact isP (h.unique x p e alive live)
        simpa [other, isP] using once.present x e alive
    · intro e positive small absent
      have other : e ≠ d := by
        rintro rfl
        exact absent p live
      simpa [other] using once.gone e positive small absent
    · intro e large
      have other : e ≠ d := by
        rintro rfl
        exact absurd (h.fresh p e live) (Int.not_lt.mpr large)
      simpa [other] using once.future e large
  | die top notInitial =>
    have mine : s.teardowns d = [d] := by simpa [top, torn] using once.present p d live
    constructor
    · intro x e alive
      replace alive : update s.tid p none x = some e := alive
      have isOther : x ≠ p := by
        rintro rfl
        simp at alive
      simpa [isOther] using once.present x e (by simpa [isOther] using alive)
    · intro e positive small absent
      by_cases isMine : e = d
      · rw [isMine]
        exact mine
      · apply once.gone e positive small
        intro x alive
        have isOther : x ≠ p := by
          rintro rfl
          exact isMine (some.inj (alive.symm.trans live))
        exact absent x (by simpa [isOther] using alive)
    · exact once.future

theorem Reachable.tornOnce (reached : Reachable exitsAlone s) : TornOnce s := by
  obtain ⟨poolSize, reaches⟩ := reached
  have both : Sound s ∧ TornOnce s := by
    apply reaches.invariant (fun s => Sound s ∧ TornOnce s) ⟨sound_boot poolSize, tornOnce_boot poolSize⟩
    intro label s s' before allowed stepped
    obtain ⟨d, live, moves⟩ := step_moves before.1 allowed stepped
    exact ⟨before.1.moves live moves, before.2.moves before.1 live moves⟩
  exact both.2

/-- Only its own thread tears a process down. -/
theorem Moves.teardowns_own {t : Tid} (moves : Moves s p d s') (changed : s'.teardowns t ≠ s.teardowns t) : t = d := by
  cases moves with
  | killTeardown top =>
    by_contra other
    simp [other] at changed
  | _ => exact absurd rfl changed

/-- Each thread is torn down at most once, by itself and at its end, and has been when it is gone.  No call of
`process_kill` tears down another thread. -/
theorem torn_down_once (reached : Reachable exitsAlone s) :
    (∀ p d, s.tid p = some d → s.teardowns d = if torn (s.stack p) then [d] else []) ∧
      (∀ d, 1 ≤ d → d < s.nextTid → (∀ p, s.tid p ≠ some d) → s.teardowns d = [d]) ∧
      ∀ label s' d, exitsAlone label s → step label s = some s' → s'.teardowns d ≠ s.teardowns d →
        s.tid label.page = some d := by
  have once := reached.tornOnce
  refine ⟨once.present, once.gone, ?_⟩
  intro label s' t allowed stepped changed
  obtain ⟨d, live, moves⟩ := step_moves reached.sound allowed stepped
  rw [moves.teardowns_own changed]
  exact live

/-- Thread 2 exits after its child, thread 3, which it has not waited for. -/
theorem torn_down_once_example : ∃ s : State, s.nextTid = 4 ∧ s.teardowns 2 = [2] ∧ s.teardowns 3 = [3] := by
  obtain ⟨s, reached, poolSize, nextTid, isGone⟩ := exists_reachable exitsAlone
    (fun s => s.poolSize = 3 ∧ s.nextTid = 4 ∧ ∀ p < 3, s.tid p ≠ some 2 ∧ s.tid p ≠ some 3) 3
    (executes 0 1 true ++ goes 1 1 ++ executes 1 2 true ++ goes 2 1 ++ [⟨2, .exit 7⟩] ++ goes 2 10 ++ [⟨1, .kill⟩] ++
      goes 1 13) (by decide +kernel)
  have small : ∀ {p d}, s.tid p = some d → p < 3 := by
    intro p d live
    cases reached.sound.pooled p d live with
    | inl isInitial => simp [isInitial, initialPage]
    | inr inPool => rwa [← poolSize]
  obtain ⟨-, gone, -⟩ := torn_down_once reached
  refine ⟨s, nextTid, gone 2 (by decide) (by rw [nextTid]; decide) ?_, gone 3 (by decide) (by rw [nextTid]; decide) ?_⟩
  · exact fun p live => (isGone p (small live)).1 live
  · exact fun p live => (isGone p (small live)).2 live

/-- Thread 2 exits while its child, thread 3, is ready to run user code, and tears it down. -/
theorem process_kill_tears_down_ready_child : ∃ s, Reachable (fun _ _ => True) s ∧ s.tid 2 = some 3 ∧
    s.stack 2 = [.user] ∧ s.teardowns 3 = [2] :=
  exists_reachable (fun _ _ => True) (fun s => s.tid 2 = some 3 ∧ s.stack 2 = [.user] ∧ s.teardowns 3 = [2]) 3
    (executes 0 1 true ++ goes 1 1 ++ executes 1 2 true ++ goes 2 1 ++ [⟨1, .kill⟩] ++ goes 1 11) (by decide +kernel)

end Pintos.Userprog
