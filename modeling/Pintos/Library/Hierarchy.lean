import Mathlib.Logic.Basic

/-! # Hierarchical name spaces

Items, of which some are folders.  A folder names items in its slots and has a way up to the folder that names it.
`Sound` says that the folders form a tree below the root, apart from at most one new item that is not named yet; the
lemmas say that adding, linking and unlinking an item keep it so.
-/

namespace Pintos.Library

/-- `live` are the items there are, `folder` the folders among them with their levels, `up` leads from a folder to the
one above it, and `names` from a slot of a folder to the item named there. -/
structure Hierarchy (Item Slot : Type) where
  live : Item → Prop
  folder : Item → Nat → Prop
  up : Item → Item → Prop
  names : Item → Slot → Item → Prop

namespace Hierarchy

variable {Item Slot : Type} {root : Item} {h h' : Hierarchy Item Slot} {pending : Option Item}
    {folder item upper : Item}
  {slot : Slot} {level : Nat}

structure Sound (root : Item) (pending : Option Item) (h : Hierarchy Item Slot) : Prop where
  rooted : h.folder root 0
  live : ∀ {folder level}, h.folder folder level → h.live folder
  level : ∀ {folder level level'}, h.folder folder level → h.folder folder level' → level = level'
  container : ∀ {folder slot item}, h.names folder slot item → ∃ level, h.folder folder level
  item : ∀ {folder slot item}, h.names folder slot item → h.live item
  below : ∀ {folder slot}, ¬ h.names folder slot root
  unlinked : ∀ {folder slot item}, pending = some item → ¬ h.names folder slot item
  once : ∀ {folder folder' slot slot' item}, h.names folder slot item → h.names folder' slot' item →
    folder = folder' ∧ slot = slot'
  up : ∀ {folder level upper}, h.folder folder level → h.up folder upper → folder = root ∧ upper = root ∨
      (∃ level', h.folder upper level' ∧ level = level' + 1) ∧
        ((∃ slot, h.names upper slot folder) ∨ pending = some folder)
  hasUp : ∀ {folder level}, h.folder folder level → ∃ upper, h.up folder upper

namespace Sound

section

variable (sound : Sound root none h)

include sound

/-- Every folder but the root is named by one above it. -/
theorem above (isFolder : h.folder folder level) (other : folder ≠ root) :
    ∃ upper level' slot, h.folder upper level' ∧ level = level' + 1 ∧ h.names upper slot folder := by
  obtain ⟨upper, isUp⟩ := sound.hasUp isFolder
  obtain ⟨⟨level', isUpper, next⟩, linked⟩ := (sound.up isFolder isUp).resolve_left fun isRoot => other isRoot.1
  obtain ⟨slot, named⟩ := linked.resolve_right nofun
  exact ⟨upper, level', slot, isUpper, next, named⟩

/-- If there is a folder other than the root, the root names something. -/
theorem root_names (isFolder : h.folder folder level) (other : folder ≠ root) :
    ∃ slot item, h.names root slot item := by
  -- The way up ends at the root, since each step takes one from the level.
  induction level generalizing folder with
  | zero =>
    obtain ⟨_, _, _, _, impossible, _⟩ := sound.above isFolder other
    cases impossible
  | succ level ih =>
    obtain ⟨upper, level', slot, isUpper, next, named⟩ := sound.above isFolder other
    cases Nat.succ.inj next
    by_cases isRoot : upper = root
    · exact ⟨slot, folder, isRoot ▸ named⟩
    · exact ih isUpper isRoot

/-- A folder that names another is the one above it. -/
theorem level_of_names (named : h.names folder slot item) (isFolder : h.folder item level) :
    ∃ level', h.folder folder level' ∧ level = level' + 1 := by
  obtain ⟨upper, level', _, isUpper, next, named'⟩ := sound.above isFolder fun isRoot => sound.below (isRoot ▸ named)
  rw [← (sound.once named named').1] at isUpper
  exact ⟨level', isUpper, next⟩

/-- No folder names itself. -/
theorem names_ne (named : h.names folder slot item) : item ≠ folder := by
  rintro rfl
  obtain ⟨level, isFolder⟩ := sound.container named
  obtain ⟨level', isFolder', next⟩ := sound.level_of_names named isFolder
  exact Nat.succ_ne_self level' (next.symm.trans (sound.level isFolder isFolder'))

omit sound in
/-- The way up matters only from folders. -/
theorem congr (sound : Sound root pending h) (live : ∀ y, h'.live y ↔ h.live y)
    (folders : ∀ d l, h'.folder d l ↔ h.folder d l) (names : ∀ d i y, h'.names d i y ↔ h.names d i y)
    (up : ∀ d l y, h.folder d l → (h'.up d y ↔ h.up d y)) : Sound root pending h' where
  rooted := (folders root 0).mpr sound.rooted
  live here := (live _).mpr (sound.live ((folders _ _).mp here))
  level first second := sound.level ((folders _ _).mp first) ((folders _ _).mp second)
  container {d i y} named := by
    obtain ⟨l, here⟩ := sound.container ((names d i y).mp named)
    exact ⟨l, (folders d l).mpr here⟩
  item named := (live _).mpr (sound.item ((names _ _ _).mp named))
  below named := sound.below ((names _ _ _).mp named)
  unlinked isNew named := sound.unlinked isNew ((names _ _ _).mp named)
  once first second := sound.once ((names _ _ _).mp first) ((names _ _ _).mp second)
  up {d l upper} here isUp := by
    have before := (folders d l).mp here
    refine (sound.up before ((up d l upper before).mp isUp)).imp_right fun linked => ?_
    obtain ⟨⟨l', isUpper, next⟩, linked⟩ := linked
    refine ⟨⟨l', (folders upper l').mpr isUpper, next⟩, linked.imp_left fun named => ?_⟩
    obtain ⟨i, named⟩ := named
    exact ⟨i, (names upper i d).mpr named⟩
  hasUp {d l} here := by
    have before := (folders d l).mp here
    obtain ⟨upper, isUp⟩ := sound.hasUp before
    exact ⟨upper, (up d l upper before).mpr isUp⟩

/-- A new item, that is perhaps a folder below another. -/
theorem add (new : ¬ h.live item) (live : ∀ y, h'.live y ↔ h.live y ∨ y = item)
    (names : ∀ d i y, h'.names d i y ↔ h.names d i y)
    (folders : ∀ d l, h'.folder d l → h.folder d l ∨
      d = item ∧ ∃ upper l', h'.up item upper ∧ h.folder upper l' ∧ l = l' + 1)
    (kept : ∀ d l, h.folder d l → h'.folder d l) (alone : ∀ l l', h'.folder item l → h'.folder item l' → l = l')
    (up : ∀ d y, d ≠ item → (h'.up d y ↔ h.up d y)) (single : ∀ y y', h'.up item y → h'.up item y' → y = y') :
    Sound root (some item) h' := by
  have notNew : ∀ {d l}, h.folder d l → d ≠ item := by
    rintro d l isFolder rfl
    exact new (sound.live isFolder)
  constructor
  case rooted => exact kept _ _ sound.rooted
  case live =>
    intro d l isFolder
    cases folders d l isFolder with
    | inl before => exact (live d).mpr (.inl (sound.live before))
    | inr here => exact (live d).mpr (.inr here.1)
  case level =>
    intro d l l' first second
    by_cases isNew : d = item
    · subst isNew
      exact alone l l' first second
    · exact sound.level ((folders d l first).resolve_right fun here => isNew here.1)
        ((folders d l' second).resolve_right fun here => isNew here.1)
  case container =>
    intro d i y named
    obtain ⟨l, isFolder⟩ := sound.container ((names d i y).mp named)
    exact ⟨l, kept d l isFolder⟩
  case item => exact fun named => (live _).mpr (.inl (sound.item ((names _ _ _).mp named)))
  case below => exact fun named => sound.below ((names _ _ _).mp named)
  case unlinked =>
    rintro d i y isNew named
    cases isNew
    exact new (sound.item ((names _ _ _).mp named))
  case once => exact fun first second => sound.once ((names _ _ _).mp first) ((names _ _ _).mp second)
  case up =>
    intro d l y isFolder isUp
    cases folders d l isFolder with
    | inl before =>
      refine (sound.up before ((up d y (notNew before)).mp isUp)).imp_right fun above => ?_
      obtain ⟨⟨l', isUpper, next⟩, linked⟩ := above
      obtain ⟨i, named⟩ := linked.resolve_right nofun
      exact ⟨⟨l', kept y l' isUpper, next⟩, .inl ⟨i, (names y i d).mpr named⟩⟩
    | inr here =>
      obtain ⟨rfl, upper, l', isUp', isUpper, next⟩ := here
      cases single y upper isUp isUp'
      exact .inr ⟨⟨l', kept y l' isUpper, next⟩, .inr rfl⟩
  case hasUp =>
    intro d l isFolder
    cases folders d l isFolder with
    | inl before =>
      obtain ⟨upper, isUp⟩ := sound.hasUp before
      exact ⟨upper, (up d upper (notNew before)).mpr isUp⟩
    | inr here =>
      obtain ⟨rfl, upper, _, isUp, _⟩ := here
      exact ⟨upper, isUp⟩

omit sound in
/-- The new item is named, in the folder above it if it is itself a folder. -/
theorem link (sound : Sound root (some item) h) (isFolder : h.folder folder level) (isLive : h.live item)
    (other : item ≠ root) (above : ∀ l upper, h.folder item l → h.up item upper → upper = folder) :
    Sound root none { h with names := fun d i y => h.names d i y ∨ d = folder ∧ i = slot ∧ y = item } where
  rooted := sound.rooted
  live := sound.live
  level := sound.level
  container named := by
    cases named with
    | inl before => exact sound.container before
    | inr new => exact ⟨level, new.1 ▸ isFolder⟩
  item named := by
    cases named with
    | inl before => exact sound.item before
    | inr new => exact new.2.2 ▸ isLive
  below named := by
    cases named with
    | inl before => exact sound.below before
    | inr new => exact other new.2.2.symm
  unlinked := nofun
  once := by
    rintro d d' i i' y (before | ⟨rfl, rfl, rfl⟩) (before' | ⟨rfl, rfl, isNew⟩)
    · exact sound.once before before'
    · exact absurd before (isNew ▸ sound.unlinked rfl)
    · exact absurd before' (sound.unlinked rfl)
    · exact ⟨rfl, rfl⟩
  up {d l upper} here isUp := by
    refine (sound.up here isUp).imp_right fun above' => ⟨above'.1, .inl ?_⟩
    cases above'.2 with
    | inl named =>
      obtain ⟨i, named⟩ := named
      exact ⟨i, .inl named⟩
    | inr new =>
      cases new
      exact ⟨slot, .inr ⟨above l upper here isUp, rfl, rfl⟩⟩
  hasUp := sound.hasUp

/-- An item that names nothing goes, with the slot that names it. -/
theorem unlink (named : h.names folder slot item) (empty : ∀ i y, ¬ h.names item i y) : Sound root none { h with
    live := fun y => h.live y ∧ y ≠ item, folder := fun d l => h.folder d l ∧ d ≠ item
    names := fun d i y => h.names d i y ∧ y ≠ item } where
  rooted := ⟨sound.rooted, fun isRoot => sound.below (isRoot ▸ named)⟩
  live here := ⟨sound.live here.1, here.2⟩
  level first second := sound.level first.1 second.1
  container {d i y} still := by
    obtain ⟨l, here⟩ := sound.container still.1
    refine ⟨l, here, ?_⟩
    rintro rfl
    exact empty i y still.1
  item still := ⟨sound.item still.1, still.2⟩
  below still := sound.below still.1
  unlinked := nofun
  once first second := sound.once first.1 second.1
  up {d l upper} here isUp := by
    refine (sound.up here.1 isUp).imp_right fun linked => ?_
    obtain ⟨⟨l', isUpper, next⟩, linked⟩ := linked
    obtain ⟨i, naming⟩ := linked.resolve_right nofun
    -- The folder above is not the one that goes, which names nothing.
    have upperStays : upper ≠ item := by
      rintro rfl
      exact empty i d naming
    exact ⟨⟨l', ⟨isUpper, upperStays⟩, next⟩, .inl ⟨i, naming, here.2⟩⟩
  hasUp here := sound.hasUp here.1

end

end Sound

end Hierarchy

end Pintos.Library
