import Pintos.Filesys.WorkingDirectory
import Pintos.Lib.Strings

/-! # Paths

How the five loops over a path read its string, and where the names of a path lead.  Each loop takes a name for the last
one if `next_ptr` is at the end of the string, so two slashes after the last name hide it.
-/

namespace Pintos.Directory

open Function List Option State

variable {s s' : State} {d x dir currentDir : SectorNo} {path path' name : Name} {inode : Inode} {names : List Name}
  {length : Nat}

/-! ## The names of a path -/

/-- The parts of a path between its slashes that are not empty. -/
def components (path : Name) : List Name :=
  (path.splitOn '/').filter (· ≠ [])

/-- The names of a path, of which the last one may be known to be the last. -/
def marked (plain : Bool) : List Name → List (Name × Bool)
  | [] => []
  | name :: rest => (name, plain && rest.isEmpty) :: marked plain rest

/-- What `strlcpy` copies of a path to a page. -/
def copied (path : Name) : Name :=
  path.take 4095

/-- A last name is followed by at most one slash. -/
def endsPlainly (path : Name) : Bool :=
  !decide (['/', '/'] <:+ path)

/-- The names that the loops over a path get to. -/
def seen (path : Name) : List Name :=
  components (copied path)

/-- The loops over a path see that its last name is the last. -/
def seesLast (path : Name) : Bool :=
  endsPlainly (copied path)

theorem components_append (before after : Name) :
    components (before ++ '/' :: after) = components before ++ components after := by
  simp [components, splitOn, splitOnP_append_cons]

theorem components_slash (path : Name) : components ('/' :: path) = components path :=
  components_append [] path

theorem components_dropWhile (path : Name) : components (path.dropWhile (· = '/')) = components path := by
  induction path with
  | nil => rfl
  | cons char rest ih =>
    by_cases slash : char = '/'
    · simp [slash, components_slash, ih]
    · simp [slash]

theorem components_of_token (noSlash : '/' ∉ name) (nonempty : name ≠ []) : components name = [name] := by
  have single : name.splitOn '/' = [name] :=
    splitOnP_eq_singleton fun char mem => by
      have other : char ≠ '/' := fun same => noSlash (same ▸ mem)
      simpa using other
  simp [components, single, nonempty]

theorem character_eq_slash (byte : UInt8) : Char.ofNat byte.toNat = '/' ↔ byte = 47 :=
  character_inj byte 47

theorem strtokR_characters {c : UInt8} {string token tail : List UInt8} (notSlash : c ≠ 47)
    (split : c :: string = token ++ tail) (isToken : ∀ x ∈ token, x ∉ [47]) (last : ∀ x ∈ tail.head?, x ∈ [47]) :
    strtokR (characters (c :: string)) = some (characters token, (characters tail).drop 1) := by
  have named : ∀ x ∈ characters token, decide (x ≠ '/') = true := fun x inName => by
    obtain ⟨byte, inToken, rfl⟩ := mem_map.mp inName
    simpa [character_eq_slash] using isToken byte inToken
  have starts : (characters (c :: string)).dropWhile (· = '/') = characters (c :: string) := by
    simp [characters, character_eq_slash, notSlash]
  have split' : characters (c :: string) = characters token ++ characters tail := by
    rw [split]
    exact map_append
  rw [strtokR, starts]
  show some ((characters (c :: string)).takeWhile _, ((characters (c :: string)).dropWhile _).drop 1) = _
  rw [split', takeWhile_append_of_pos named, dropWhile_append_of_pos named]
  rcases tail with _ | ⟨mark, next⟩
  · simp [characters]
  · obtain rfl : mark = 47 := by simpa using last
    simp [characters]

/-- On bytes that end with a zero, `strtok_r` returns the token that it returns on the characters of the string, and
leaves `next_ptr` at what follows. -/
theorem strtokR_bytes {string : List UInt8} (terminated : 0 ∉ string) (before after : List UInt8) :
    ∃ token before' rest,
      Lib.strtokR [47] (before, string ++ 0 :: after) = some (token, before', rest ++ 0 :: after) ∧
      strtokR (characters string) = token.map fun start =>
        (characters (((before' ++ rest ++ [0]).drop start).takeWhile (· != 0)), characters rest) := by
  induction string generalizing before with
  | nil => exact ⟨none, before, [], by simp [Lib.strtokR, Lib.scan], rfl⟩
  | cons c string ih =>
    by_cases slash : c = 47
    · subst slash
      obtain ⟨token, before', rest, called, same⟩ := ih (by grind) (before ++ [47])
      exact ⟨token, before', rest, by simpa [Lib.strtokR, Lib.scan] using called, same⟩
    obtain ⟨token, tail, split, isToken, last⟩ := Lib.exists_token [47] (c :: string)
    have notZero : c ≠ 0 := by grind
    have passes : ∀ x ∈ token, (Lib.strchr [47] x).isNone = true := fun x inToken => by
      have := isToken x inToken
      simp [← Option.not_isSome]
      grind
    have isRead : ∀ others, (token ++ 0 :: others).takeWhile (· != 0) = token := fun others => by
      rw [takeWhile_append_of_pos fun x inToken => by grind]
      simp
    unfold Lib.strtokR
    dsimp only
    rw [cons_append, Lib.scan, if_neg (by simp [slash])]
    dsimp only [Option.bind_eq_bind, bind_some]
    rw [if_neg notZero, ← cons_append, strtokR_characters slash split isToken last, split]
    rcases tail with _ | ⟨mark, next⟩
    · refine ⟨some before.length, before ++ token, [], ?_, ?_⟩
      · rw [append_nil, Lib.scan_append passes (by rfl)]
        rfl
      · simp [isRead, characters]
    · obtain rfl : mark = 47 := by simpa using last
      refine ⟨some before.length, before ++ token ++ [0], next, ?_, ?_⟩
      · rw [append_assoc, cons_append, Lib.scan_append passes (by rfl)]
        rfl
      · simp [isRead, characters]

/-- What a call of `strtok_r` finds: the first name, and what comes after it. -/
structure Token (path name next : Name) : Prop where
  named : components path = name :: components next
  split : ∃ before, path = before ++ name ∧ next = [] ∨ path = before ++ name ++ '/' :: next
  nonempty : name ≠ []
  noSlash : '/' ∉ name

theorem strtokR_spec (path : Name) : (strtokR path = none ∧ components path = []) ∨
    ∃ name next, strtokR path = some (name, next) ∧ Token path name next := by
  have skipped := components_dropWhile path
  obtain ⟨before, suffix⟩ : path.dropWhile (· = '/') <:+ path := List.dropWhile_suffix _
  have first := head?_dropWhile_not (· = '/') path
  unfold strtokR
  generalize path.dropWhile (· = '/') = token at skipped suffix first ⊢
  rcases token with _ | ⟨char, rest⟩
  · exact .inl ⟨rfl, skipped.symm⟩
  have split := takeWhile_append_dropWhile (p := (· ≠ '/')) (l := char :: rest)
  have noSlash : '/' ∉ (char :: rest).takeWhile (· ≠ '/') := fun mem => by
    simpa using (all_eq_true.mp (all_takeWhile (p := (· ≠ '/')) (l := char :: rest))) _ mem
  have nonempty : (char :: rest).takeWhile (· ≠ '/') ≠ [] := by simp_all
  have slash := head?_dropWhile_not (· ≠ '/') (char :: rest)
  refine .inr ⟨_, _, rfl, ?_⟩
  generalize (char :: rest).takeWhile (· ≠ '/') = name at split noSlash nonempty ⊢
  generalize (char :: rest).dropWhile (· ≠ '/') = after at split slash ⊢
  have named := components_of_token noSlash nonempty
  rw [← split] at skipped suffix
  cases after with
  | nil =>
    rw [append_nil] at skipped suffix
    exact ⟨skipped.symm.trans named, ⟨before, .inl ⟨suffix.symm, rfl⟩⟩, nonempty, noSlash⟩
  | cons mark next =>
    obtain rfl : mark = '/' := by simpa using slash
    rw [components_append, named] at skipped
    exact ⟨skipped.symm, ⟨before, .inr (by simpa using suffix.symm)⟩, nonempty, noSlash⟩

theorem Token.shorter {next : Name} (token : Token path name next) : next.length < path.length := by
  have positive := length_pos_iff.mpr token.nonempty
  obtain ⟨before, ⟨rfl, rfl⟩ | rfl⟩ := token.split <;> simp <;> omega

/-- A path of slashes only has no name. -/
theorem eq_slash_of_components (nameless : components path = []) {char : Char} (mem : char ∈ path) : char = '/' := by
  induction path with
  | nil => cases mem
  | cons first rest ih =>
    by_cases slash : first = '/'
    · subst slash
      obtain rfl | mem := mem_cons.mp mem
      · rfl
      · exact ih (components_slash rest ▸ nameless) mem
    · obtain ⟨ended, _⟩ | ⟨_, _, _, token⟩ := strtokR_spec (first :: rest)
      · simp [strtokR, slash] at ended
      · cases nameless.symm.trans token.named

theorem eq_nil_of_components (nameless : components path = []) (plain : ¬ ['/', '/'] <:+ '/' :: path) : path = [] := by
  by_contra nonempty
  obtain ⟨count, length⟩ := Nat.exists_eq_succ_of_ne_zero (mt length_eq_zero_iff.mp nonempty)
  have slashes : path = replicate (count + 1) '/' :=
    eq_replicate_iff.mpr ⟨length, fun _ mem => eq_slash_of_components nameless mem⟩
  refine plain ⟨replicate count '/', ?_⟩
  rw [slashes, ← replicate_succ]
  exact replicate_append_replicate (m := 2)

/-- Slashes at the end of a path come after its last name. -/
theorem Token.plain {next : Name} (token : Token path name next) : endsPlainly path = endsPlainly ('/' :: next) := by
  have ends : ∀ before, ¬ ['/'] <:+ before ++ name := by
    rintro before ⟨front, same⟩
    have last := congrArg getLast? same
    rw [getLast?_append_of_ne_nil _ token.nonempty] at last
    exact token.noSlash (mem_of_getLast? (by simpa using last.symm))
  have two : ['/', '/'] <:+ path ↔ ['/', '/'] <:+ '/' :: next := by
    obtain ⟨before, ⟨rfl, rfl⟩ | rfl⟩ := token.split
    · exact ⟨fun two => absurd ((suffix_cons '/' ['/']).trans two) (ends before), fun two => absurd two (by decide)⟩
    · have suffix : '/' :: next <:+ before ++ name ++ '/' :: next := suffix_append _ _
      refine ⟨fun two => ?_, fun two => two.trans suffix⟩
      cases next with
      | nil =>
        obtain ⟨front, same⟩ := two
        exact absurd ⟨front, append_cancel_right (by simpa using same)⟩ (ends before)
      | cons char rest => exact suffix_of_suffix_length_le two suffix (by simp)
  simp only [endsPlainly, two]

theorem tokensUpTo_marked (short : path.length ≤ length) :
    tokensUpTo length path = marked (endsPlainly path) (components path) := by
  induction length generalizing path with
  | zero =>
    obtain rfl := length_eq_zero_iff.mp (Nat.le_zero.mp short)
    rfl
  | succ length ih =>
    obtain ⟨ended, none⟩ | ⟨name, next, found, token⟩ := strtokR_spec path
    · simp [tokensUpTo, ended, none, marked]
    have below : next.length ≤ length := by have := token.shorter; omega
    have rest : marked (endsPlainly next) (components next) = marked (endsPlainly ('/' :: next)) (components next) := by
      cases named : components next with
      | nil => rfl
      | cons =>
        have two : ['/', '/'] <:+ next ↔ ['/', '/'] <:+ '/' :: next := by
          refine ⟨fun two => two.trans (suffix_cons _ _), fun two => ?_⟩
          obtain same | two := suffix_cons_iff.mp two
          · cases same
            cases named
          · exact two
        simp only [endsPlainly, two]
    have isLast : next.isEmpty = (endsPlainly ('/' :: next) && (components next).isEmpty) := by
      rw [Bool.eq_iff_iff, List.isEmpty_iff, Bool.and_eq_true, List.isEmpty_iff]
      refine ⟨fun ends => ends ▸ ⟨rfl, rfl⟩, fun both => eq_nil_of_components both.2 ?_⟩
      simpa [endsPlainly] using both.1
    simp [tokensUpTo, found, token.named, marked, token.plain, isLast, ih below, rest]

theorem tokens_eq (path : Name) : tokens path = marked (seesLast path) (seen path) :=
  tokensUpTo_marked (by simp)

/-- The sector under a name in what an inode holds, directory or not. -/
def State.child (s : State) (d : SectorNo) (name : Name) : Option SectorNo :=
  (s.inodes d).bind fun inode => (inode.lookup name).map fun (_, e) => e.inodeSector

/-- Where the loops get with some names: the inode that they lead to, or the one in which a name is not found.  A name
that leads to a sector without an inode has no result. -/
def State.reach (s : State) : SectorNo → List Name → Option (SectorNo × Bool)
  | d, [] => if (s.inodes d).isSome then some (d, true) else none
  | d, name :: rest =>
    if (s.inodes d).isSome then
      match s.child d name with
      | none => some (d, false)
      | some x => s.reach x rest
    else none

def State.inodeIsDirectory (s : State) (d : SectorNo) : Bool :=
  (s.inodes d).any Inode.isDirectory

/-- The directory that names lead to through directories. -/
def State.resolve (s : State) : SectorNo → List Name → Option SectorNo
  | d, [] => if s.inodeIsDirectory d then some d else none
  | d, name :: rest => if s.inodeIsDirectory d then (s.child d name).bind fun x => s.resolve x rest else none

/-- No inode that nobody has open waits for its last close. -/
def State.Kept (s : State) : Prop :=
  ∀ d inode, s.inodes d = some inode → inode.removed = true → inode.openCnt ≠ 0

def State.opened (d : SectorNo) (s : State) : State :=
  { s with inodes := update s.inodes d ((s.inodes d).map fun inode => { inode with openCnt := inode.openCnt + 1 }) }

theorem inodeOpen_eq : s.inodeOpen d = if (s.inodes d).isSome then some (s.opened d) else none := by
  cases found : s.inodes d <;> simp [State.inodeOpen, State.opened, State.setInode, found]

theorem opened_comm : (s.opened d).opened x = (s.opened x).opened d := by
  by_cases same : d = x
  · rw [same]
  · simp [opened, update_of_ne same, update_of_ne (Ne.symm same), update_comm same]

theorem isSome_opened : ((s.opened d).inodes x).isSome = (s.inodes x).isSome := by
  by_cases same : x = d <;> simp [opened, same]

theorem child_opened (y : SectorNo) : (s.opened y).child d name = s.child d name := by
  by_cases same : d = y
  · subst same
    cases found : s.inodes d <;> simp [child, opened, found, Inode.lookup]
  · simp [child, opened, update_of_ne same]

theorem State.Kept.opened (kept : s.Kept) : (s.opened x).Kept := by
  intro d inode found removed
  by_cases same : d = x
  · subst same
    obtain ⟨before, _, rfl⟩ := map_eq_some_iff.mp (by simpa [opened] using found)
    simp
  · exact kept d inode (by simpa [State.opened, update_of_ne same] using found) removed

theorem State.Kept.close (kept : s.Kept) (isInode : (s.inodes d).isSome) : (s.opened d).inodeClose d = some s := by
  obtain ⟨inode, found⟩ := isSome_iff_exists.mp isInode
  have notLast : ¬ (inode.openCnt = 0 ∧ inode.removed = true) := fun last => kept d inode found last.2 last.1
  have same : update s.inodes d (some inode) = s.inodes := found ▸ update_eq_self d s.inodes
  simp [State.inodeClose, State.opened, found, notLast, State.setInode, same]

theorem dirLookup_eq (isInode : (s.inodes d).isSome) : s.dirLookup d name =
    match s.child d name with
    | none => some (none, s)
    | some x => (s.inodeOpen x).map fun s => (some x, s) := by
  obtain ⟨inode, found⟩ := isSome_iff_exists.mp isInode
  simp only [dirLookup, child, found, Option.bind_eq_bind, bind_some]
  cases inode.lookup name <;> rfl

section

variable (kept : s.Kept) (isInode : (s.inodes d).isSome)

include kept isInode

/-- A step of a loop over a path, which has only the directory open that it has got to. -/
theorem State.Kept.lookup (name : Name) :
    (s.child d name = none ∧ (s.opened d).dirLookup d name = some (none, s.opened d)) ∨
      ∃ x, s.child d name = some x ∧ ((s.inodes x = none ∧ (s.opened d).dirLookup d name = none) ∨
        ((s.inodes x).isSome ∧ (s.opened d).dirLookup d name = some (some x, (s.opened d).opened x) ∧
          ((s.opened d).opened x).inodeClose d = some (s.opened x))) := by
  rw [dirLookup_eq (isSome_opened.trans isInode), child_opened]
  rcases s.child d name with _ | x
  · exact .inl ⟨rfl, rfl⟩
  have closed : ((s.opened d).opened x).inodeClose d = some (s.opened x) := by
    rw [opened_comm]
    exact State.Kept.close kept.opened (isSome_opened.trans isInode)
  refine .inr ⟨x, rfl, ?_⟩
  simp only [inodeOpen_eq, isSome_opened]
  cases s.inodes x with
  | none => exact .inl ⟨rfl, rfl⟩
  | some next => exact .inr ⟨rfl, rfl, closed⟩

end

/-- The result register and the `current_dir` of a process. -/
structure Chdir where
  eax : UInt32
  currentDir : SectorNo
  deriving DecidableEq, Repr

/-- The loop of `SYS_CHDIR`, which sets the result at a last name or at a name that is not there. -/
def State.sysChdirWalk : List (Name × Bool) → SectorNo → Chdir → State → Option ((SectorNo × Chdir) × State)
  | [], dir, result, s => some ((dir, result), s)
  | (name, last) :: rest, dir, result, s =>
    match s.dirLookup dir name with
    | none => none
    | some (none, s) => some ((dir, { result with eax := 0 }), s)
    | some (some inode, s) =>
      (s.inodeClose dir).bind fun s => sysChdirWalk rest inode (if last then ⟨1, inode⟩ else result) s

/-- `SYS_CHDIR`, with what the result register holds before. -/
def State.sysChdir (eax : UInt32) (currentDir : SectorNo) (path : Name) (s : State) : Option (Chdir × State) := do
  let s ← s.inodeOpen (startOf currentDir path)
  let ((dir, result), s) ← s.sysChdirWalk (tokens path) (startOf currentDir path) ⟨eax, currentDir⟩
  let s ← s.inodeClose dir
  some (result, s)

theorem sysChdirWalk_currentDir {tokens : List (Name × Bool)} {result : Chdir} {current : Option SectorNo}
    (same : result.currentDir = current.getD currentDir) :
    (s.sysChdirWalk tokens d result).map (fun ((dir, result), s) => ((dir, result.currentDir), s)) =
      (s.chdirWalk tokens d current).map fun ((dir, current), s) => ((dir, current.getD currentDir), s) := by
  induction tokens generalizing s d result current with
  | nil => simp [sysChdirWalk, chdirWalk, same]
  | cons token rest ih =>
    obtain ⟨name, last⟩ := token
    rw [sysChdirWalk, chdirWalk]
    rcases s.dirLookup d name with _ | ⟨_ | x, s₁⟩
    · rfl
    · simp [same]
    · dsimp only
      rcases s₁.inodeClose d with _ | s₂
      · rfl
      · exact ih (by cases last <;> simp [same])

/-- The `current_dir` that `SYS_CHDIR` leaves, whatever its register holds. -/
theorem sysChdir_currentDir (eax : UInt32) :
    (s.sysChdir eax currentDir path).map (fun (result, s) => (result.currentDir, s)) =
      (s.chdir currentDir path).map fun (current, s) => (current.getD currentDir, s) := by
  unfold sysChdir chdir
  rcases s.inodeOpen (startOf currentDir path) with _ | s₁
  · rfl
  have walks := @sysChdirWalk_currentDir s₁ (startOf currentDir path) currentDir (tokens path)
    ⟨eax, currentDir⟩ none rfl
  simp only [Option.bind_eq_bind, bind_some]
  generalize s₁.sysChdirWalk _ _ _ = withResult at walks ⊢
  generalize s₁.chdirWalk _ _ _ = without at walks ⊢
  rcases withResult with _ | ⟨⟨dir, result⟩, s₂⟩ <;> rcases without with _ | ⟨⟨dir', current⟩, s₃⟩
  · rfl
  · cases walks
  · cases walks
  · obtain ⟨⟨rfl, same⟩, rfl⟩ : (dir = dir' ∧ result.currentDir = current.getD currentDir) ∧ s₂ = s₃ := by
      simpa using walks
    rcases closed : s₂.inodeClose dir with _ | s₃ <;> simp [closed, same]

theorem reach_isSome {found : Bool} (reached : s.reach d names = some (dir, found)) : (s.inodes dir).isSome := by
  induction names generalizing d with
  | nil =>
    simp only [reach] at reached
    split_ifs at reached with isInode
    cases reached
    exact isInode
  | cons name rest ih =>
    simp only [reach] at reached
    split_ifs at reached with isInode
    split at reached
    · cases reached
      exact isInode
    · exact ih reached

theorem marked_false (names : List Name) : marked false names = names.map (·, false) := by
  induction names with
  | nil => rfl
  | cons name rest ih => simp [marked, ih]

/-- The path has no last name that its loop takes for the last. -/
def Hidden (path : Name) : Prop :=
  seen path = [] ∨ seesLast path = false

theorem Hidden.tokens (hidden : Hidden path) : tokens path = (seen path).map (·, false) := by
  rw [tokens_eq]
  obtain none | hidden := hidden
  · rw [none]
    rfl
  · rw [hidden, marked_false]

variable {before : List Name} {last : Name} {make : SectorNo → Name → State → Option (Bool × State)}

section

variable (kept : s.Kept)

include kept

/-- A call that acts on the last name if it sees that it is the last, and looks it up like the others if it does not. -/
structure State.Walks {Result : Type} (s : State) (currentDir : SectorNo) (call : Name → Option Result)
    (act : SectorNo → Name → State → Option Result) (ends : SectorNo × Bool → Result) : Prop where
  hidden : ∀ {path}, Hidden path → call path = (s.reach (startOf currentDir path) (seen path)).map ends
  plain : ∀ {path before last}, seen path = before ++ [last] → seesLast path = true → call path =
    (s.reach (startOf currentDir path) before).bind fun (dir, found) =>
      if found then act dir last s else some (ends (dir, false))

end

/-! ### What becomes of the last name -/

/-- `dir_remove` does not remove the current directory, and no directory that is not empty. -/
def State.stays (s : State) (currentDir x : SectorNo) : Bool :=
  x = currentDir || (s.inodes x).any fun inode => inode.isDirectory && !inode.dirIsEmpty

variable {freeMap freeMap' : Kernel.Bitmap} {sectors : List SectorNo}

theorem Allocated.perm {sectors' : List SectorNo} (allocated : Allocated freeMap freeMap' sectors)
    (perm : sectors.Perm sectors') : Allocated freeMap freeMap' sectors' where
  elsewhere i other := allocated.elsewhere i (mt perm.mem_iff.mp other)
  clear i isNew := allocated.clear i (perm.mem_iff.mpr isNew)
  marked i isNew := allocated.marked i (perm.mem_iff.mpr isNew)
  distinct := perm.nodup_iff.mp allocated.distinct

/-- A release gives back what has been allocated. -/
theorem Allocated.release (allocated : Allocated freeMap freeMap' sectors) (s : State) :
    { s with freeMap := freeMap' }.freeMapRelease sectors = some { s with freeMap } := by
  induction sectors generalizing freeMap' with
  | nil =>
    have same : freeMap' = freeMap := List.ext_getElem? fun i => allocated.elsewhere i (not_mem_nil)
    rw [same]
    rfl
  | cons first rest ih =>
    have isMarked := allocated.marked first mem_cons_self
    obtain ⟨notLater, distinct⟩ := nodup_cons.mp allocated.distinct
    have between : Allocated freeMap (freeMap'.set first false) rest := by
      refine ⟨fun i other => ?_, fun i later => allocated.clear i (mem_cons_of_mem _ later),
        fun i later => ?_, distinct⟩
      · by_cases same : first = i
        · subst same
          rw [allocated.clear first mem_cons_self, getElem?_set_self (List.getElem?_eq_some_iff.mp isMarked).1]
        · rw [getElem?_set_ne same, allocated.elsewhere i (by simpa [other] using Ne.symm same)]
      · rw [getElem?_set_ne (by rintro rfl; exact notLater later), allocated.marked i (mem_cons_of_mem _ later)]
    have rest := ih between
    simp only [freeMapRelease, foldlM_cons, isMarked, if_true, Option.bind_eq_bind, bind_some] at rest ⊢
    exact rest

section

variable (kept : s.Kept) (isDir : (s.inodes dir).isSome)

include kept isDir

end

/-! ## Equivalent spellings -/

/-- The names before the last one lead to `dir`. -/
def State.Arrives (s : State) (currentDir : SectorNo) (path : Name) (dir : SectorNo) (name : Name) : Prop :=
  ∃ before, seen path = before ++ [name] ∧ s.reach (startOf currentDir path) before = some (dir, true)

theorem State.Arrives.isSome (arrives : s.Arrives currentDir path dir name) : (s.inodes dir).isSome := by
  obtain ⟨_, _, reached⟩ := arrives
  exact reach_isSome reached

theorem State.Arrives.nonempty (arrives : s.Arrives currentDir path dir name) : name ≠ [] := by
  obtain ⟨before, named, _⟩ := arrives
  have isName : name ∈ seen path := by simp [named]
  simpa [components] using (mem_filter.mp isName).2

section

variable (kept : s.Kept) (arrives : s.Arrives currentDir path dir name)

include kept arrives

end

/-- The register and the current directory that a call of `SYS_CHDIR` is to leave. -/
def State.changed (s : State) (currentDir : SectorNo) (path : Name) : Chdir :=
  if path = [] then ⟨0, currentDir⟩
  else (s.resolve (startOf currentDir path) (components path)).elim ⟨0, currentDir⟩ fun dir => ⟨1, dir⟩

section

variable (kept : s.Kept) (arrives : s.Arrives currentDir path dir name) {result : Bool}

include kept arrives

end

end Pintos.Directory
