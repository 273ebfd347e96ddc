import OsmPolygonWikidata.Basic.Durable
import OsmPolygonWikidata.Basic.Split

/-! # Replacing several files with a way back

A program that replaces several files keeps what it replaces: the existing targets are moved to
hidden files next to them, the new files are moved into place, and a handler removes what was
installed and moves the hidden files back. `Held` says what such a program knows between two steps,
and `Held.wp_restore` that the handler restores every target from there.

A file tree is a function from paths to contents. Directories are not part of it.
`hiddenSibling` is the name of a hidden file, for paths that are POSIX spellings.
-/

namespace FileTransaction

open Durable
open Prog (wp wp_bind wp_forM wp_get wp_imp wp_ite)

/-! ## Hidden names -/

/-- What `mkstemp` puts into a name: eight letters, digits or underscores. -/
structure RandomName where
  name : String
  length : name.toList.length = 8
  plain : ∀ c ∈ name.toList, c ∈ "abcdefghijklmnopqrstuvwxyz0123456789_".toList

/-- A name made of the first letters. -/
def RandomName.letters : RandomName := ⟨"abcdefgh", by decide, by simp⟩

/-- The name that `mkstemp` makes for a path: `.NAME.RANDOM` and a suffix. -/
def hiddenName (path : String) (random : RandomName) (suffix : String) : List Char :=
  '.' :: ((path.toList.splitOn '/').getLastD [] ++ '.' :: (random.name.toList ++ suffix.toList))

/-- The hidden file of that name, next to the path. -/
def hiddenSibling (path : String) (random : RandomName) (suffix : String) : String :=
  let parts := path.toList.splitOn '/'
  String.ofList (['/'].intercalate (parts.dropLast ++ [hiddenName path random suffix]))

section

variable {path path' suffix : String} {random random' : RandomName}

theorem RandomName.noSlash (random : RandomName) : '/' ∉ random.name.toList :=
  fun h => absurd (random.plain '/' h) (by decide)

theorem splitOn_hiddenSibling (hsuffix : '/' ∉ suffix.toList) :
    (hiddenSibling path random suffix).toList.splitOn '/'
      = (path.toList.splitOn '/').dropLast ++ [hiddenName path random suffix] := by
  have hlast : '/' ∉ (path.toList.splitOn '/').getLastD [] := by
    rw [List.getLastD_eq_getLast?, List.getLast?_eq_some_getLast (List.splitOn_ne_nil _ _),
      Option.getD_some]
    exact Split.not_mem_of_mem_splitOn (List.getLast_mem _)
  unfold hiddenSibling
  rw [String.toList_ofList]
  refine List.splitOn_intercalate '/' (fun part hpart => ?_) (by simp)
  rcases List.mem_append.mp hpart with hpart | hpart
  · exact Split.not_mem_of_mem_splitOn (List.mem_of_mem_dropLast hpart)
  · rw [List.mem_singleton.mp hpart, hiddenName, List.mem_cons, not_or, List.mem_append, not_or,
      List.mem_cons, not_or, List.mem_append, not_or]
    exact ⟨by decide, hlast, by decide, random.noSlash, hsuffix⟩

theorem suffix_hiddenSibling : suffix.toList <:+ (hiddenSibling path random suffix).toList := by
  have hname : suffix.toList <:+ hiddenName path random suffix := by
    refine ⟨'.' :: ((path.toList.splitOn '/').getLastD [] ++ '.' :: random.name.toList), ?_⟩
    simp [hiddenName]
  have hpath : ∀ parts : List (List Char), hiddenName path random suffix
      <:+ ['/'].intercalate (parts ++ [hiddenName path random suffix]) := by
    intro parts
    induction parts with
    | nil => simp
    | cons part parts ih =>
      rw [List.cons_append, List.intercalate_cons_of_ne_nil (by simp)]
      exact ih.trans (List.suffix_append _ _)
  unfold hiddenSibling
  rw [String.toList_ofList]
  exact hname.trans (hpath _)

theorem hiddenSibling_injective (hsuffix : '/' ∉ suffix.toList)
    (h : hiddenSibling path random suffix = hiddenSibling path' random' suffix) :
    path = path' := by
  have hparts : (hiddenSibling path random suffix).toList.splitOn '/'
      = (hiddenSibling path' random' suffix).toList.splitOn '/' := by rw [h]
  rw [splitOn_hiddenSibling hsuffix, splitOn_hiddenSibling hsuffix] at hparts
  obtain ⟨hparents, hnames⟩ := List.append_inj' hparts rfl
  -- the random parts are equally long, so what stands before them is the same
  have hlength : ('.' :: (random.name.toList ++ suffix.toList)).length
      = ('.' :: (random'.name.toList ++ suffix.toList)).length := by
    simp [random.length, random'.length]
  rw [List.singleton_inj, hiddenName, hiddenName, List.cons_inj_right] at hnames
  have hlast := (List.append_inj' hnames hlength).1
  have hwhole : ∀ p : String, p.toList.splitOn '/'
      = (p.toList.splitOn '/').dropLast ++ [(p.toList.splitOn '/').getLastD []] := by
    intro p
    rw [List.getLastD_eq_getLast?, List.getLast?_eq_some_getLast (List.splitOn_ne_nil _ _),
      Option.getD_some, List.dropLast_concat_getLast]
  refine String.toList_inj.mp ?_
  have hjoin : ∀ p : String, ['/'].intercalate (p.toList.splitOn '/') = p.toList :=
    fun _ => List.intercalate_splitOn '/'
  rw [← hjoin path, ← hjoin path', hwhole path, hwhole path', hparents, hlast]

end

variable {P F ε : Type} [DecidableEq P]

/-! ## Steps -/

/-- A file tree, and what the program remembers: the temporary files of the targets, the hidden files
that targets were moved to, the hidden files that were created, and the targets that were
installed. -/
structure Machine (P F : Type) where
  files : P → Option F
  staged : List (P × P)
  backups : List (P × P)
  created : List P
  installed : List P

/-- The files before anything is done. -/
def Machine.start (files : P → Option F) : Machine P F := ⟨files, [], [], [], []⟩

def Machine.write (m : Machine P F) (p : P) (content : F) : Machine P F :=
  { m with files := Function.update m.files p (some content) }

/-- The files without those of `ps`. -/
def Machine.without (m : Machine P F) (ps : List P) : Machine P F :=
  { m with files := fun p => if p ∈ ps then none else m.files p }

/-- `os.replace`: the source takes the place of the destination. -/
def Machine.rename (m : Machine P F) (source destination : P) : Machine P F :=
  if source = destination then m
  else { m with
    files := Function.update (Function.update m.files destination (m.files source)) source none }

def Machine.create (m : Machine P F) (p : P) (content : F) : Machine P F :=
  { m.write p content with created := m.created ++ [p] }

def Machine.recordStaged (m : Machine P F) (target temporary : P) : Machine P F :=
  { m with staged := m.staged ++ [(target, temporary)] }

def Machine.recordBackup (m : Machine P F) (target hidden : P) : Machine P F :=
  { m with backups := m.backups ++ [(target, hidden)] }

def Machine.recordInstalled (m : Machine P F) (final : P) : Machine P F :=
  { m with installed := m.installed ++ [final] }

/-- `path.unlink(missing_ok=True)`. -/
def unlink (p : P) : Prog (Machine P F) ε Unit := Prog.step (fun m => m.without [p])

/-- `tempfile.mkstemp`: a file that was not there. `choose` stands for the random name; a name that
is taken is not used, and if none is found the call raises. -/
def mkstemp (empty : F) (choose : (P → Option F) → Option P) (failure : Option ε) (exhausted : ε) :
    Prog (Machine P F) ε P :=
  match failure with
  | some e => Prog.raise e
  | none => do
    let m ← Prog.get
    match (choose m.files).filter (fun p => (m.files p).isNone) with
    | none => Prog.raise exhausted
    | some p => do
      Prog.step (fun m => m.create p empty)
      return p

/-- `os.replace` of a file that may be missing. -/
def move (failure : Option ε) (missing : ε) (source destination : P) :
    Prog (Machine P F) ε Unit :=
  match failure with
  | some e => Prog.raise e
  | none => do
    let m ← Prog.get
    if (m.files source).isNone then Prog.raise missing
    else Prog.step (fun m => m.rename source destination)

/-- The move back of a hidden file that exists. -/
def moveBack (backup : P × P) : Prog (Machine P F) ε Unit := do
  let m ← Prog.get
  if (m.files backup.2).isSome then Prog.step (fun m => m.rename backup.2 backup.1)
  else return ()

/-- What was installed is removed, and the hidden files are moved back. -/
def restore (installed : List P) (backups : List (P × P)) : Prog (Machine P F) ε Unit := do
  installed.forM unlink
  backups.forM moveBack

/-- The temporary and the hidden files are removed. -/
def cleanup (temporaries : List P) (backups : List (P × P)) : Prog (Machine P F) ε Unit := do
  temporaries.forM unlink
  backups.forM (fun backup => unlink backup.2)

/-! ## What a step does -/

section

omit [DecidableEq P]

variable {m : Machine P F} {target hidden p : P}

@[simp] theorem Machine.recordBackup_files : (m.recordBackup target hidden).files = m.files := rfl

@[simp] theorem Machine.recordBackup_staged :
    (m.recordBackup target hidden).staged = m.staged := rfl

@[simp] theorem Machine.recordInstalled_staged : (m.recordInstalled p).staged = m.staged := rfl

@[simp] theorem Machine.recordBackup_backups :
    (m.recordBackup target hidden).backups = m.backups ++ [(target, hidden)] := rfl

@[simp] theorem Machine.recordInstalled_backups : (m.recordInstalled p).backups = m.backups := rfl

@[simp] theorem Machine.recordBackup_created :
    (m.recordBackup target hidden).created = m.created := rfl

@[simp] theorem Machine.recordInstalled_created : (m.recordInstalled p).created = m.created := rfl

@[simp] theorem Machine.recordBackup_installed :
    (m.recordBackup target hidden).installed = m.installed := rfl

end

section

variable {m : Machine P F} {source destination p q : P} {ps qs : List P} {content : F}

@[simp] theorem Machine.without_nil (m : Machine P F) : m.without [] = m := by
  simp [Machine.without]

theorem Machine.without_files (m : Machine P F) (ps : List P) (p : P) :
    (m.without ps).files p = if p ∈ ps then none else m.files p := rfl

theorem Machine.without_without (m : Machine P F) (ps qs : List P) :
    (m.without ps).without qs = m.without (ps ++ qs) := by
  unfold Machine.without
  congr 1
  funext p
  by_cases hp : p ∈ ps <;> by_cases hq : p ∈ qs <;> simp [hp, hq]

@[simp] theorem Machine.rename_staged : (m.rename source destination).staged = m.staged := by
  unfold Machine.rename
  split <;> rfl

@[simp] theorem Machine.rename_backups : (m.rename source destination).backups = m.backups := by
  unfold Machine.rename
  split <;> rfl

@[simp] theorem Machine.rename_created : (m.rename source destination).created = m.created := by
  unfold Machine.rename
  split <;> rfl

@[simp] theorem Machine.rename_installed :
    (m.rename source destination).installed = m.installed := by
  unfold Machine.rename
  split <;> rfl

theorem Machine.rename_source (h : source ≠ destination) :
    (m.rename source destination).files source = none := by
  rw [Machine.rename, if_neg h]
  exact Function.update_self _ _ _

theorem Machine.rename_destination :
    (m.rename source destination).files destination = m.files source := by
  unfold Machine.rename
  split_ifs with h
  · rw [h]
  · exact (Function.update_of_ne (Ne.symm h) _ _).trans (Function.update_self _ _ _)

theorem Machine.rename_other (hsource : p ≠ source) (hdestination : p ≠ destination) :
    (m.rename source destination).files p = m.files p := by
  unfold Machine.rename
  split_ifs
  · rfl
  · exact (Function.update_of_ne hsource _ _).trans (Function.update_of_ne hdestination _ _)

theorem Machine.write_self : (m.write p content).files p = some content :=
  Function.update_self _ _ _

theorem Machine.write_other (h : q ≠ p) : (m.write p content).files q = m.files q :=
  Function.update_of_ne h _ _

variable {Q : Unit → Machine P F → Prop} {E : ε → Machine P F → Prop} {K : Machine P F → Prop}

theorem wp_mkstemp {empty : F} {choose : (P → Option F) → Option P} {failure : Option ε}
    {exhausted : ε} {Q : P → Machine P F → Prop} (hfail : ∀ e, failure = some e → E e m)
    (hexhausted : E exhausted m)
    (hcreate : ∀ p, choose m.files = some p → m.files p = none → K m ∧ Q p (m.create p empty)) :
    wp (mkstemp empty choose failure exhausted) Q E K m := by
  unfold mkstemp
  cases failure with
  | some e => exact hfail e rfl
  | none =>
    rw [wp_bind, wp_get]
    cases hchoose : (choose m.files).filter (fun p => (m.files p).isNone) with
    | none => exact hexhausted
    | some p =>
      obtain ⟨hp, hfree⟩ := Option.filter_eq_some_iff.mp hchoose
      exact hcreate p hp (Option.isNone_iff_eq_none.mp hfree)

theorem wp_move {failure : Option ε} {missing : ε} (hfail : ∀ e, failure = some e → E e m)
    (hmissing : m.files source = none → E missing m)
    (hmove : ∀ content, m.files source = some content → K m ∧ Q () (m.rename source destination)) :
    wp (move failure missing source destination) Q E K m := by
  unfold move
  cases failure with
  | some e => exact hfail e rfl
  | none =>
    rw [wp_bind, wp_get, wp_ite]
    cases hsource : m.files source with
    | none => exact hmissing hsource
    | some content => exact hmove content hsource

theorem wp_unlinkAll (hK : ∀ done, (∀ p ∈ done, p ∈ ps) → K (m.without done))
    (hQ : Q () (m.without ps)) : wp (ps.forM unlink) Q E K m := by
  have hloop : wp (ps.forM unlink) (fun _ m' => m' = m.without ps) E K m := by
    refine wp_forM (fun done m' => m' = m.without done) ?_ m.without_nil.symm
    rintro done p rest _ hps rfl
    refine ⟨hK done (fun q hq => ?_), Machine.without_without m done [p]⟩
    rw [hps]
    exact List.mem_append_left _ hq
  refine wp_imp ?_ hloop
  rintro _ _ rfl
  exact hQ

theorem wp_cleanup {temporaries : List P} {backups : List (P × P)}
    (hK : ∀ done, (∀ p ∈ done, p ∈ temporaries ++ backups.map Prod.snd) → K (m.without done))
    (hQ : Q () (m.without (temporaries ++ backups.map Prod.snd))) :
    wp (cleanup temporaries backups) Q E K m := by
  unfold cleanup
  rw [wp_bind]
  refine wp_unlinkAll (fun done hdone => hK done (fun p hp => ?_)) ?_
  · exact List.mem_append_left _ (hdone p hp)
  · have hmap : ∀ bs : List (P × P), bs.forM (fun backup => unlink (ε := ε) (F := F) backup.2)
        = (bs.map Prod.snd).forM unlink := by
      intro bs
      induction bs with
      | nil => rfl
      | cons backup bs ih => exact congrArg _ (funext fun _ => ih)
    rw [hmap]
    refine wp_unlinkAll (fun done hdone => ?_) ?_
    · rw [Machine.without_without]
      refine hK _ (fun p hp => ?_)
      rcases List.mem_append.mp hp with hp | hp
      · exact List.mem_append_left _ hp
      · exact List.mem_append_right _ (hdone p hp)
    · rw [Machine.without_without]
      exact hQ

end

/-! ## The way back -/

section

variable {before : P → Option F} {targets : List P} {m m' : Machine P F}
  {target hidden final source : P} {content : F}

/-- What a program knows while it replaces the `targets` of the tree `before`: the hidden files hold
what was moved aside, and the other targets are as before or were installed anew. -/
structure Held (before : P → Option F) (targets : List P) (m : Machine P F) : Prop where
  nodup : (m.backups.map Prod.fst).Nodup
  nodupHidden : (m.backups.map Prod.snd).Nodup
  target : ∀ b ∈ m.backups, b.1 ∈ targets
  hidden : ∀ b ∈ m.backups, b.2 ∉ targets
  content : ∀ b ∈ m.backups, m.files b.2 = before b.1 ∧ (before b.1).isSome = true
  aside : ∀ b ∈ m.backups, b.1 ∉ m.installed → m.files b.1 = none
  same : ∀ p ∈ targets, p ∉ m.backups.map Prod.fst → p ∉ m.installed → m.files p = before p
  installed : ∀ p ∈ m.installed, p ∈ targets
  absent : ∀ p ∈ m.installed, p ∉ m.backups.map Prod.fst → before p = none

/-- On the way back: a target that was not installed is as before or absent, and other files are
as they were. -/
structure Returning (before : P → Option F) (targets : List P) (m m' : Machine P F) : Prop where
  staged : m'.staged = m.staged
  backups : m'.backups = m.backups
  created : m'.created = m.created
  installed : m'.installed = m.installed
  partway : ∀ p ∈ targets, p ∉ m.installed → m'.files p = before p ∨ m'.files p = none
  others : ∀ p, p ∉ targets → p ∉ m.backups.map Prod.snd → m'.files p = m.files p

/-- Back: every target is as before, and the hidden files are gone. -/
structure Returned (before : P → Option F) (targets : List P) (m m' : Machine P F) : Prop
    extends Returning before targets m m' where
  restored : ∀ p ∈ targets, m'.files p = before p
  gone : ∀ b ∈ m.backups, m'.files b.2 = none

omit [DecidableEq P] in
theorem Held.of_same (hbackups : m.backups = []) (hinstalled : m.installed = [])
    (hsame : ∀ p ∈ targets, m.files p = before p) : Held before targets m := by
  constructor <;> simp [hbackups, hinstalled]
  exact hsame

omit [DecidableEq P] in
theorem Held.fresh (h : Held before targets m) (hfree : m.files hidden = none) :
    hidden ∉ m.backups.map Prod.snd := by
  intro hmem
  obtain ⟨b, hb, rfl⟩ := List.mem_map.mp hmem
  obtain ⟨hcontent, hsome⟩ := h.content b hb
  rw [← hcontent, hfree] at hsome
  cases hsome

theorem Held.create (h : Held before targets m) (hfree : m.files hidden = none)
    (hhidden : hidden ∉ targets) : Held before targets (m.create hidden content) := by
  have hother : ∀ p, p ∈ targets ∨ p ∈ m.backups.map Prod.snd →
      (m.create hidden content).files p = m.files p := by
    rintro p (hp | hp)
    · exact Machine.write_other (fun heq => hhidden (heq ▸ hp))
    · exact Machine.write_other (fun heq => h.fresh hfree (heq ▸ hp))
  refine ⟨h.nodup, h.nodupHidden, h.target, h.hidden, ?_, ?_, ?_, h.installed, h.absent⟩
  · intro b hb
    rw [hother b.2 (Or.inr (List.mem_map_of_mem hb))]
    exact h.content b hb
  · intro b hb hnew
    rw [hother b.1 (Or.inl (h.target b hb))]
    exact h.aside b hb hnew
  · intro p hp hkey hnew
    rw [hother p (Or.inl hp)]
    exact h.same p hp hkey hnew

theorem Held.moveAside (h : Held before targets m) (htarget : target ∈ targets)
    (hnew : target ∉ m.backups.map Prod.fst) (hinstalled : target ∉ m.installed)
    (hcontent : m.files target = some content) (hhidden : hidden ∉ targets)
    (hfresh : hidden ∉ m.backups.map Prod.snd) :
    Held before targets ((m.rename target hidden).recordBackup target hidden) := by
  have hne : target ≠ hidden := fun heq => hhidden (heq ▸ htarget)
  have hbefore : before target = some content := by
    rw [← h.same target htarget hnew hinstalled, hcontent]
  have hkeys : (m.backups ++ [(target, hidden)]).map Prod.fst
      = m.backups.map Prod.fst ++ [target] := by simp
  constructor
  · show ((m.rename target hidden).backups ++ [(target, hidden)]).map Prod.fst |>.Nodup
    rw [Machine.rename_backups, hkeys, ← List.concat_eq_append]
    exact h.nodup.concat hnew
  · show ((m.rename target hidden).backups ++ [(target, hidden)]).map Prod.snd |>.Nodup
    rw [Machine.rename_backups, List.map_append, List.map_singleton, ← List.concat_eq_append]
    exact h.nodupHidden.concat hfresh
  · intro b hb
    rcases List.mem_append.mp hb with hb | hb
    · rw [Machine.rename_backups] at hb
      exact h.target b hb
    · rw [List.mem_singleton.mp hb]
      exact htarget
  · intro b hb
    rcases List.mem_append.mp hb with hb | hb
    · rw [Machine.rename_backups] at hb
      exact h.hidden b hb
    · rw [List.mem_singleton.mp hb]
      exact hhidden
  · intro b hb
    rcases List.mem_append.mp hb with hb | hb
    · rw [Machine.rename_backups] at hb
      refine ⟨?_, (h.content b hb).2⟩
      have hsource : b.2 ≠ target := fun heq => h.hidden b hb (heq ▸ htarget)
      have hdestination : b.2 ≠ hidden := fun heq => hfresh (heq ▸ List.mem_map_of_mem hb)
      exact (Machine.rename_other hsource hdestination).trans (h.content b hb).1
    · rw [List.mem_singleton.mp hb]
      refine ⟨Machine.rename_destination.trans (hcontent.trans hbefore.symm), ?_⟩
      rw [hbefore]
      rfl
  · intro b hb hnotInstalled
    have hnotInstalled' : b.1 ∉ m.installed := by
      rwa [Machine.recordBackup, Machine.rename_installed] at hnotInstalled
    rcases List.mem_append.mp hb with hb | hb
    · rw [Machine.rename_backups] at hb
      have hsource : b.1 ≠ target := fun heq => hnew (heq ▸ List.mem_map_of_mem hb)
      have hdestination : b.1 ≠ hidden := fun heq => hhidden (heq ▸ h.target b hb)
      exact (Machine.rename_other hsource hdestination).trans (h.aside b hb hnotInstalled')
    · rw [List.mem_singleton.mp hb]
      exact Machine.rename_source hne
  · intro p hp hkey hnotInstalled
    have hnotInstalled' : p ∉ m.installed := by
      rwa [Machine.recordBackup, Machine.rename_installed] at hnotInstalled
    have hkey' : p ∉ m.backups.map Prod.fst ++ [target] := by
      rwa [Machine.recordBackup, Machine.rename_backups, hkeys] at hkey
    rw [List.mem_append, not_or, List.mem_singleton] at hkey'
    have hdestination : p ≠ hidden := fun heq => hhidden (heq ▸ hp)
    exact (Machine.rename_other hkey'.2 hdestination).trans (h.same p hp hkey'.1 hnotInstalled')
  · intro p hp
    rw [Machine.recordBackup, Machine.rename_installed] at hp
    exact h.installed p hp
  · intro p hp hkey
    rw [Machine.recordBackup, Machine.rename_installed] at hp
    rw [Machine.recordBackup, Machine.rename_backups, hkeys, List.mem_append, not_or] at hkey
    exact h.absent p hp hkey.1

theorem Held.install (h : Held before targets m) (hfinal : final ∈ targets)
    (hfree : final ∈ m.backups.map Prod.fst ∨ before final = none) (hsource : source ∉ targets)
    (hnotHidden : source ∉ m.backups.map Prod.snd) :
    Held before targets ((m.rename source final).recordInstalled final) := by
  have hbackups : ((m.rename source final).recordInstalled final).backups = m.backups :=
    Machine.rename_backups
  have hinstalled : ((m.rename source final).recordInstalled final).installed
      = m.installed ++ [final] := by
    rw [Machine.recordInstalled, Machine.rename_installed]
  have hother : ∀ p, p ≠ source → p ≠ final →
      ((m.rename source final).recordInstalled final).files p = m.files p :=
    fun p hp hp' => Machine.rename_other hp hp'
  constructor
  · rw [hbackups]
    exact h.nodup
  · rw [hbackups]
    exact h.nodupHidden
  · rw [hbackups]
    exact h.target
  · rw [hbackups]
    exact h.hidden
  · intro b hb
    rw [hbackups] at hb
    rw [hother b.2 (fun heq => hnotHidden (heq ▸ List.mem_map_of_mem hb))
      (fun heq => h.hidden b hb (heq ▸ hfinal))]
    exact h.content b hb
  · intro b hb hnot
    rw [hbackups] at hb
    rw [hinstalled, List.mem_append, not_or, List.mem_singleton] at hnot
    rw [hother b.1 (fun heq => hsource (heq ▸ h.target b hb)) hnot.2]
    exact h.aside b hb hnot.1
  · intro p hp hkey hnot
    rw [hbackups] at hkey
    rw [hinstalled, List.mem_append, not_or, List.mem_singleton] at hnot
    rw [hother p (fun heq => hsource (heq ▸ hp)) hnot.2]
    exact h.same p hp hkey hnot.1
  · intro p hp
    rw [hinstalled, List.mem_append, List.mem_singleton] at hp
    rcases hp with hp | rfl
    · exact h.installed p hp
    · exact hfinal
  · intro p hp hkey
    rw [hbackups] at hkey
    rw [hinstalled, List.mem_append, List.mem_singleton] at hp
    rcases hp with hp | rfl
    · exact h.absent p hp hkey
    · exact hfree.resolve_left hkey

theorem Held.partway (h : Held before targets m) {p : P} (hp : p ∈ targets)
    (hnot : p ∉ m.installed) : m.files p = before p ∨ m.files p = none := by
  by_cases hkey : p ∈ m.backups.map Prod.fst
  · obtain ⟨b, hb, rfl⟩ := List.mem_map.mp hkey
    exact Or.inr (h.aside b hb hnot)
  · exact Or.inl (h.same p hp hkey hnot)

/-- While the hidden files `done` have been moved back, and the others have not. -/
structure MovingBack (before : P → Option F) (m : Machine P F) (order done : List (P × P))
    (m' : Machine P F) : Prop where
  staged : m'.staged = m.staged
  backups : m'.backups = m.backups
  created : m'.created = m.created
  installed : m'.installed = m.installed
  back : ∀ b ∈ done, m'.files b.1 = before b.1 ∧ m'.files b.2 = none
  waiting : ∀ b ∈ order, b ∉ done → m'.files b.1 = none ∧ m'.files b.2 = before b.1
  others : ∀ p, p ∉ order.map Prod.fst → p ∉ order.map Prod.snd →
    m'.files p = (m.without m.installed).files p

variable {order done : List (P × P)} {b : P × P} {Q : Unit → Machine P F → Prop}
  {E : ε → Machine P F → Prop} {K : Machine P F → Prop}

variable (h : Held before targets m) (horder : order.Perm m.backups)

include h horder

theorem MovingBack.step (hm : MovingBack before m order done m') (hb : b ∈ order) (hnew : b ∉ done)
    (hdone : ∀ c ∈ done, c ∈ order) :
    (m'.files b.2).isSome = true ∧ MovingBack before m order (done ++ [b]) (m'.rename b.2 b.1) := by
  obtain ⟨htargetFree, hhiddenHolds⟩ := hm.waiting b hb hnew
  have hbackup : ∀ c ∈ order, c ∈ m.backups := fun c hc => horder.mem_iff.mp hc
  have hne : b.2 ≠ b.1 := fun heq => h.hidden b (hbackup b hb) (heq ▸ h.target b (hbackup b hb))
  -- the other pairs have other targets and other hidden files
  have hother : ∀ c ∈ order, c ≠ b → (m'.rename b.2 b.1).files c.1 = m'.files c.1
      ∧ (m'.rename b.2 b.1).files c.2 = m'.files c.2 := by
    intro c hc hcb
    have hc' := hbackup c hc
    have hb' := hbackup b hb
    constructor
    · refine Machine.rename_other (fun heq => ?_) (fun heq => ?_)
      · exact h.hidden b hb' (heq ▸ h.target c hc')
      · exact hcb (List.inj_on_of_nodup_map h.nodup hc' hb' heq)
    · refine Machine.rename_other (fun heq => ?_) (fun heq => ?_)
      · exact hcb (List.inj_on_of_nodup_map h.nodupHidden hc' hb' heq)
      · exact h.hidden c hc' (heq ▸ h.target b hb')
  refine ⟨?_, ?_, ?_, ?_, ?_, ?_, ?_, ?_⟩
  · rw [hhiddenHolds]
    exact (h.content b (hbackup b hb)).2
  · rw [Machine.rename_staged, hm.staged]
  · rw [Machine.rename_backups, hm.backups]
  · rw [Machine.rename_created, hm.created]
  · rw [Machine.rename_installed, hm.installed]
  · intro c hc
    rcases List.mem_append.mp hc with hc | hc
    · obtain ⟨htarget, hhidden⟩ := hother c (hdone c hc) (fun heq => hnew (heq ▸ hc))
      rw [htarget, hhidden]
      exact hm.back c hc
    · rw [List.mem_singleton.mp hc]
      exact ⟨Machine.rename_destination.trans hhiddenHolds, Machine.rename_source hne⟩
  · intro c hc hnot
    rw [List.mem_append, not_or, List.mem_singleton] at hnot
    obtain ⟨htarget, hhidden⟩ := hother c hc hnot.2
    rw [htarget, hhidden]
    exact hm.waiting c hc hnot.1
  · intro p hkey hvalue
    have hsource : p ≠ b.2 := fun heq => hvalue (heq ▸ List.mem_map_of_mem hb)
    have hdestination : p ≠ b.1 := fun heq => hkey (heq ▸ List.mem_map_of_mem hb)
    rw [Machine.rename_other hsource hdestination]
    exact hm.others p hkey hvalue

theorem MovingBack.returning
    (hm : MovingBack before m order done m') : Returning before targets m m' := by
  have hkeys : ∀ p, p ∈ order.map Prod.fst ↔ p ∈ m.backups.map Prod.fst :=
    fun p => (horder.map Prod.fst).mem_iff
  have hvalues : ∀ p, p ∈ order.map Prod.snd ↔ p ∈ m.backups.map Prod.snd :=
    fun p => (horder.map Prod.snd).mem_iff
  refine ⟨hm.staged, hm.backups, hm.created, hm.installed, ?_, ?_⟩
  · intro p hp hnot
    by_cases hkey : p ∈ order.map Prod.fst
    · obtain ⟨b, hb, rfl⟩ := List.mem_map.mp hkey
      by_cases hdone : b ∈ done
      · exact Or.inl (hm.back b hdone).1
      · exact Or.inr (hm.waiting b hb hdone).1
    · have hvalue : p ∉ order.map Prod.snd := by
        intro hmem
        obtain ⟨b, hb, rfl⟩ := List.mem_map.mp hmem
        exact h.hidden b (horder.mem_iff.mp hb) hp
      rw [hm.others p hkey hvalue, Machine.without_files, if_neg hnot]
      exact Or.inl (h.same p hp (fun hmem => hkey ((hkeys p).mpr hmem)) hnot)
  · intro p hp hvalue
    have hkey : p ∉ order.map Prod.fst := by
      intro hmem
      obtain ⟨b, hb, rfl⟩ := List.mem_map.mp hmem
      exact hp (h.target b (horder.mem_iff.mp hb))
    rw [hm.others p hkey (fun hmem => hvalue ((hvalues p).mp hmem)), Machine.without_files,
      if_neg (fun hmem => hp (h.installed p hmem))]

/-- **The handler restores every target**, whatever order the hidden files are moved back in. -/
theorem Held.wp_restore (hK : ∀ m', Returning before targets m m' → K m')
    (hQ : ∀ m', Returned before targets m m' → Q () m') :
    wp (restore m.installed order) Q E K m := by
  have hvalues : ∀ p, p ∈ order.map Prod.snd ↔ p ∈ m.backups.map Prod.snd :=
    fun p => (horder.map Prod.snd).mem_iff
  have hnodup : order.Nodup := (horder.nodup_iff).mpr (List.Nodup.of_map Prod.fst h.nodup)
  unfold restore
  rw [wp_bind]
  refine wp_unlinkAll (fun done hdone => hK _ ⟨rfl, rfl, rfl, rfl, ?_, ?_⟩) ?_
  · intro p hp hnot
    rw [Machine.without_files, if_neg (fun hmem => hnot (hdone p hmem))]
    exact h.partway hp hnot
  · intro p hp _
    rw [Machine.without_files, if_neg (fun hmem => hp (h.installed p (hdone p hmem)))]
  · have hstart : MovingBack before m order [] (m.without m.installed) := by
      refine ⟨rfl, rfl, rfl, rfl, by simp, ?_, fun _ _ _ => rfl⟩
      intro b hb _
      have hb' := horder.mem_iff.mp hb
      rw [Machine.without_files, Machine.without_files,
        if_neg (fun hmem => h.hidden b hb' (h.installed b.2 hmem))]
      refine ⟨?_, (h.content b hb').1⟩
      split_ifs with hinstalled
      · rfl
      · exact h.aside b hb' hinstalled
    have hloop : wp (order.forM moveBack)
        (fun _ m' => MovingBack before m order order m') E K (m.without m.installed) := by
      refine wp_forM (fun done m' => MovingBack before m order done m') ?_ hstart
      intro done b rest m' hsplit hm
      have hb : b ∈ order := by
        rw [hsplit]
        simp
      have hnew : b ∉ done := by
        rw [hsplit, List.nodup_append] at hnodup
        exact fun hmem => hnodup.2.2 b hmem b List.mem_cons_self rfl
      have hdone : ∀ c ∈ done, c ∈ order := by
        intro c hc
        rw [hsplit]
        exact List.mem_append_left _ hc
      obtain ⟨hholds, hnext⟩ := hm.step h horder hb hnew hdone
      unfold moveBack
      rw [wp_bind, wp_get, wp_ite, if_pos hholds]
      exact ⟨hK m' (hm.returning h horder), hnext⟩
    refine wp_imp (fun _ m' hm => hQ m' ⟨hm.returning h horder, ?_, ?_⟩) hloop
    · intro p hp
      by_cases hkey : p ∈ order.map Prod.fst
      · obtain ⟨b, hb, rfl⟩ := List.mem_map.mp hkey
        exact (hm.back b hb).1
      · have hvalue : p ∉ order.map Prod.snd := by
          intro hmem
          obtain ⟨b, hb, rfl⟩ := List.mem_map.mp hmem
          exact h.hidden b (horder.mem_iff.mp hb) hp
        have hkey' : p ∉ m.backups.map Prod.fst :=
          fun hmem => hkey ((horder.map Prod.fst).mem_iff.mpr hmem)
        rw [hm.others p hkey hvalue, Machine.without_files]
        split_ifs with hinstalled
        · exact (h.absent p hinstalled hkey').symm
        · exact h.same p hp hkey' hinstalled
    · intro b hb
      exact (hm.back b (horder.mem_iff.mpr hb)).2

omit h horder

theorem wp_restore_keeps {installed : List P} {I : Machine P F → Prop}
    (hunlink : ∀ m' p, p ∈ installed → I m' → I (m'.without [p]))
    (hmove : ∀ m' b, b ∈ order → (m'.files b.2).isSome = true → I m' → I (m'.rename b.2 b.1))
    (h : I m) : wp (restore installed order) (fun _ m' => I m') E (fun _ => True) m := by
  unfold restore
  rw [wp_bind]
  refine wp_imp (fun _ m' hm' => ?_)
    (wp_forM (fun _ m' => I m') (fun done p rest m' hsplit hm' => ?_) h)
  · refine wp_forM (fun _ m' => I m') (fun done b rest m'' hsplit hm'' => ?_) hm'
    have hb : b ∈ order := by
      rw [hsplit]
      simp
    unfold moveBack
    rw [wp_bind, wp_get, wp_ite]
    split_ifs with hsome
    · exact ⟨trivial, hmove m'' b hb hsome hm''⟩
    · exact hm''
  · refine ⟨trivial, hunlink m' p ?_ hm'⟩
    rw [hsplit]
    simp

theorem wp_restore_again (hgone : ∀ b ∈ order, m.files b.2 = none) (hQ : Q () m) :
    wp (restore [] order) Q E K m := by
  have hloop : wp (order.forM moveBack) (fun _ m' => m' = m) E K m := by
    refine wp_forM (fun _ m' => m' = m) ?_ rfl
    rintro done b rest _ hsplit rfl
    unfold moveBack
    rw [wp_bind, wp_get, wp_ite, hgone b (by rw [hsplit]; simp)]
    exact rfl
  refine wp_imp ?_ hloop
  rintro _ _ rfl
  exact hQ

end

/-! ## Moving targets aside -/

section

variable {before : P → Option F} {targets temporaries done : List P} {start m m' : Machine P F}
  {target hidden : P} {content empty : F} {K : Machine P F → Prop} {E : ε → Machine P F → Prop}

/-- Targets that are not installed are as before or absent. -/
def Partway (before : P → Option F) (targets : List P) (m : Machine P F) : Prop :=
  ∀ p ∈ targets, p ∉ m.installed → m.files p = before p ∨ m.files p = none

/-- The targets `done` have been moved aside since `start`, if they were there. The temporary files
are as they were. -/
structure MovedAside (before : P → Option F) (start : Machine P F) (targets temporaries done : List P)
    (m : Machine P F) : Prop where
  held : Held before targets m
  installed : m.installed = []
  keys : m.backups.map Prod.fst = done.filter (fun p => (before p).isSome)
  hidden : ∀ b ∈ m.backups, b.2 ∉ temporaries
  staged : m.staged = start.staged
  temporaries : ∀ t ∈ temporaries, m.files t = start.files t

theorem Held.allPartway (h : Held before targets m) : Partway before targets m :=
  fun _ hp hnot => h.partway hp hnot

theorem Partway.rename (h : Partway before targets m) (hhidden : hidden ∉ targets) :
    Partway before targets (m.rename target hidden) := by
  intro p hp hnot
  rw [Machine.rename_installed] at hnot
  by_cases htarget : p = target
  · right
    rw [htarget] at hp ⊢
    exact Machine.rename_source (fun heq => hhidden (heq ▸ hp))
  · have hne : p ≠ hidden := fun heq => hhidden (heq ▸ hp)
    rw [Machine.rename_other htarget hne]
    exact h p hp hnot

theorem MovedAside.create (h : MovedAside before start targets temporaries done m)
    (hfree : m.files hidden = none) (hhidden : hidden ∉ targets)
    (hnotTemporary : hidden ∉ temporaries) :
    MovedAside before start targets temporaries done (m.create hidden content) := by
  refine ⟨h.held.create hfree hhidden, h.installed, h.keys, h.hidden, h.staged, fun t ht => ?_⟩
  have hne : t ≠ hidden := fun heq => hnotTemporary (heq ▸ ht)
  exact (Machine.write_other hne).trans (h.temporaries t ht)

theorem MovedAside.move (h : MovedAside before start targets temporaries done m)
    (htarget : target ∈ targets) (hnew : target ∉ done)
    (htemporaries : ∀ t ∈ temporaries, t ∉ targets) (hcontent : m.files target = some content)
    (hhidden : hidden ∉ targets) (hnotTemporary : hidden ∉ temporaries)
    (hfresh : hidden ∉ m.backups.map Prod.snd) :
    MovedAside before start targets temporaries (done ++ [target])
      ((m.rename target hidden).recordBackup target hidden) := by
  have hkey : target ∉ m.backups.map Prod.fst := by
    rw [h.keys]
    exact fun hmem => hnew (List.mem_of_mem_filter hmem)
  have hinstalled : target ∉ m.installed := by
    rw [h.installed]
    exact List.not_mem_nil
  have hsome : (before target).isSome = true := by
    rw [← h.held.same target htarget hkey hinstalled, hcontent]
    rfl
  refine ⟨h.held.moveAside htarget hkey hinstalled hcontent hhidden hfresh, ?_, ?_, ?_, ?_, ?_⟩
  · rw [Machine.recordBackup_installed, Machine.rename_installed]
    exact h.installed
  · rw [Machine.recordBackup_backups, Machine.rename_backups, List.map_append, List.map_singleton,
      List.filter_append, h.keys, List.filter_singleton, hsome]
    rfl
  · intro b hb
    rw [Machine.recordBackup_backups, Machine.rename_backups] at hb
    rcases List.mem_append.mp hb with hb | hb
    · exact h.hidden b hb
    · rw [List.mem_singleton.mp hb]
      exact hnotTemporary
  · rw [Machine.recordBackup_staged, Machine.rename_staged]
    exact h.staged
  · intro t ht
    have hne : t ≠ target := fun heq => htemporaries t ht (heq ▸ htarget)
    have hne' : t ≠ hidden := fun heq => hnotTemporary (heq ▸ ht)
    rw [Machine.recordBackup_files, Machine.rename_other hne hne']
    exact h.temporaries t ht

omit [DecidableEq P] in
theorem MovedAside.skip (h : MovedAside before start targets temporaries done m)
    (htarget : target ∈ targets) (hnew : target ∉ done) (habsent : m.files target = none) :
    MovedAside before start targets temporaries (done ++ [target]) m := by
  refine ⟨h.held, h.installed, ?_, h.hidden, h.staged, h.temporaries⟩
  have hkey : target ∉ m.backups.map Prod.fst := by
    rw [h.keys]
    exact fun hmem => hnew (List.mem_of_mem_filter hmem)
  have hinstalled : target ∉ m.installed := by
    rw [h.installed]
    exact List.not_mem_nil
  have hnone : before target = none := by
    rw [← h.held.same target htarget hkey hinstalled, habsent]
  simp [h.keys, List.filter_append, hnone]

omit [DecidableEq P] in
theorem MovedAside.unchanged_iff (h : MovedAside before start targets temporaries done m)
    (hdone : ∀ p ∈ done, p ∈ targets) :
    (∀ p ∈ targets, m.files p = before p) ↔ ¬ ∃ p ∈ done, (before p).isSome = true := by
  have hnotInstalled : ∀ p, p ∉ m.installed := by
    intro p
    rw [h.installed]
    exact List.not_mem_nil
  constructor
  · rintro hsame ⟨p, hp, hsome⟩
    have hkey : p ∈ m.backups.map Prod.fst := by
      rw [h.keys]
      exact List.mem_filter.mpr ⟨hp, hsome⟩
    obtain ⟨b, hb, rfl⟩ := List.mem_map.mp hkey
    rw [← hsame b.1 (hdone b.1 hp), h.held.aside b hb (hnotInstalled b.1)] at hsome
    cases hsome
  · intro hnone p hp
    refine h.held.same p hp (fun hkey => ?_) (hnotInstalled p)
    rw [h.keys] at hkey
    exact hnone ⟨p, (List.mem_filter.mp hkey).1, (List.mem_filter.mp hkey).2⟩

/-- **Moving a target aside**: a hidden file is made and the target takes its place, or the step
raises with everything held. -/
theorem MovedAside.wp_aside {choose : (P → Option F) → Option P} {createFailure : Option ε}
    {exhausted : ε} (h : MovedAside before start targets temporaries done m)
    (moveFailure : P → Option ε) (missing : P → ε) (htarget : target ∈ targets)
    (hnew : target ∉ done)
    (hnames : ∀ hidden, choose m.files = some hidden → m.files hidden = none →
      hidden ∉ targets ∧ hidden ∉ temporaries)
    (htemporaries : ∀ t ∈ temporaries, t ∉ targets)
    (hK : ∀ m', Partway before targets m' → m'.installed = [] → K m')
    (hcreate : ∀ e, createFailure = some e ∨ e = exhausted → E e m)
    (hmove : ∀ hidden m', MovedAside before start targets temporaries done m' →
      ∀ e, moveFailure hidden = some e ∨ e = missing hidden → E e m') :
    wp (mkstemp empty choose createFailure exhausted)
      (fun hidden m' => wp
        (FileTransaction.move (moveFailure hidden) (missing hidden) target hidden)
        (fun _ m'' => K m'' ∧ MovedAside before start targets temporaries (done ++ [target])
          (m''.recordBackup target hidden)) E K m') E K m := by
  refine wp_mkstemp (fun e he => hcreate e (Or.inl he)) (hcreate exhausted (Or.inr rfl)) ?_
  intro hidden hchoose hfree
  obtain ⟨hhidden, hnotTemporary⟩ := hnames hidden hchoose hfree
  have hcreated : MovedAside before start targets temporaries done (m.create hidden empty) :=
    h.create hfree hhidden hnotTemporary
  refine ⟨hK m h.held.allPartway h.installed, ?_⟩
  refine wp_move (fun e he => hmove hidden _ hcreated e (Or.inl he))
    (fun _ => hmove hidden _ hcreated _ (Or.inr rfl)) (fun content hcontent => ?_)
  refine ⟨hK _ hcreated.held.allPartway hcreated.installed, ?_, ?_⟩
  · refine hK _ (hcreated.held.allPartway.rename hhidden) ?_
    rw [Machine.rename_installed]
    exact hcreated.installed
  · exact hcreated.move htarget hnew htemporaries hcontent hhidden hnotTemporary
      (h.held.fresh hfree)

end

/-! ## Steps that fail -/

/-- An exception, and the step that raised it. -/
structure Raised (σ ε : Type) where
  step : σ
  error : ε
  deriving DecidableEq

/-- What a program on paths meets: the steps that fail, the random names, an empty file, and what a
write that fails leaves in a file. -/
structure World (σ ε F : Type) where
  fails : σ → Option ε
  random : String → (String → Option F) → Option RandomName
  empty : F
  torn : F

variable {σ ε F : Type} {world : World σ ε F} {step : σ} {path : String} {content : F}
  {m : Machine String F} {Q : Unit → Machine String F → Prop}
  {E : Raised σ ε → Machine String F → Prop}

def World.failure (world : World σ ε F) (step : σ) : Option (Raised σ ε) :=
  (world.fails step).map (fun error => ⟨step, error⟩)

/-- A step that changes no file. -/
def World.check (world : World σ ε F) (step : σ) : Prog (Machine String F) (Raised σ ε) Unit :=
  match world.failure step with
  | some raised => Prog.raise raised
  | none => return ()

/-- The write of a whole file; if it fails, part of it is left. -/
def World.writeFile (world : World σ ε F) (step : σ) (path : String) (content : F) :
    Prog (Machine String F) (Raised σ ε) Unit :=
  match world.failure step with
  | some raised => do
    Prog.step (fun m => m.write path world.torn)
    Prog.raise raised
  | none => Prog.step (fun m => m.write path content)

/-- A hidden temporary file next to `path`. -/
def World.mkstemp (world : World σ ε F) (step : σ) (path suffix : String) (exhausted : ε) :
    Prog (Machine String F) (Raised σ ε) String :=
  FileTransaction.mkstemp world.empty
    (fun files => (world.random path files).map (fun random => hiddenSibling path random suffix))
    (world.failure step) ⟨step, exhausted⟩

theorem World.failure_step {raised : Raised σ ε} (h : world.failure step = some raised) :
    raised.step = step := by
  obtain ⟨error, -, rfl⟩ := Option.map_eq_some_iff.mp h
  rfl

theorem World.wp_check (hE : ∀ raised : Raised σ ε, raised.step = step → E raised m) (hQ : Q () m) :
    wp (world.check step) Q E (fun _ => True) m := by
  unfold World.check
  cases hfailure : world.failure step with
  | some raised => exact hE raised (World.failure_step hfailure)
  | none => exact hQ

theorem World.wp_writeFile
    (hE : ∀ (raised : Raised σ ε) content, raised.step = step → E raised (m.write path content))
    (hQ : Q () (m.write path content)) :
    wp (world.writeFile step path content) Q E (fun _ => True) m := by
  unfold World.writeFile
  cases hfailure : world.failure step with
  | some raised => exact ⟨trivial, hE raised _ (World.failure_step hfailure)⟩
  | none => exact ⟨trivial, hQ⟩

theorem World.wp_mkstemp {suffix : String} {exhausted : ε} {Q : String → Machine String F → Prop}
    (hE : ∀ raised : Raised σ ε, raised.step = step → E raised m)
    (hQ : ∀ random, m.files (hiddenSibling path random suffix) = none →
      Q (hiddenSibling path random suffix) (m.create (hiddenSibling path random suffix) world.empty)) :
    wp (world.mkstemp step path suffix exhausted) Q E (fun _ => True) m := by
  refine FileTransaction.wp_mkstemp (fun raised h => hE raised (World.failure_step h))
    (hE ⟨step, exhausted⟩ rfl) (fun hidden hchoose hfree => ⟨trivial, ?_⟩)
  obtain ⟨random, -, hname⟩ := Option.map_eq_some_iff.mp hchoose
  rw [← hname] at hfree ⊢
  exact hQ random hfree

theorem World.wp_move {source : String} {missing : ε}
    (hE : ∀ raised : Raised σ ε, raised.step = step → E raised m)
    (hQ : ∀ content, m.files source = some content → Q () (m.rename source path)) :
    wp (move (world.failure step) ⟨step, missing⟩ source path) Q E (fun _ => True) m :=
  FileTransaction.wp_move (fun raised h => hE raised (World.failure_step h))
    (fun _ => hE ⟨step, missing⟩ rfl) (fun content h => ⟨trivial, hQ content h⟩)

end FileTransaction
