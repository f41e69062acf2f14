import DialogueBox.Commandline.Check
import DialogueBox.Proofs.FileTree
import DialogueBox.Proofs.Lint.Report

/-!
# Checking several scripts

What a run over several scripts prints is the sum of what there is to say about each of them, and it
fails just if one of them is at fault (`check_is_sum`). So it does not matter whether scripts are
checked together or one by one; and whether notes are wanted has no say in the counts or in the
status.

Which scripts a run is over is settled by the tree (`order_scripts`). In a tree that a disk can
have, each of them can be named by itself (`scripts_of_name`). The tree settles as well which icons
there are: those that files below the directory of icons are named by (`mem_iconsBelow`).
-/

namespace DialogueBox.Commandline

open Lint

/-! ## Which scripts are checked -/

/-- The written path of what is to be checked. -/
def CheckOptions.target (o : CheckOptions) : String := o.path.getD scriptsDirectory

/-- Scripts are files of a tree, in the order of their paths from a place that is named, and each is
named by this place and the path from there. -/
def InPathOrder (tree : FileTree) (text : String) (scripts : List NamedScript) : Prop :=
  ∃ (p : Path) (rels : List Path), tree.locate? text = some p ∧
    scripts.map Prod.fst = rels.map (Path.join text) ∧
    (∀ rel ∈ rels, tree.isFile (p ++ rel) = true) ∧ rels.Pairwise (· ≤ ·)

variable {o : CheckOptions} {tree : FileTree} {text : String} {scripts : List NamedScript}

theorem order_scriptsBelow {p : Path} (h : tree.locate? text = some p) :
    InPathOrder tree text (scriptsBelow tree text p) := by
  let found := (tree.below p).filter fun f => (stemWith? ["dlg", "txt"] f.1).isSome
  refine ⟨p, found.map Prod.fst, h, ?_, fun rel hrel => ?_, ?_⟩
  · rw [scriptsBelow, List.map_map, List.map_map]
    rfl
  · obtain ⟨f, hf, rfl⟩ := List.mem_map.mp hrel
    obtain ⟨-, hmem⟩ := FileTree.mem_below.mp (List.mem_filter.mp hf).1
    exact List.any_eq_true.mpr ⟨_, hmem, beq_self_eq_true _⟩
  · exact List.pairwise_map.mpr ((FileTree.pairwise_below tree p).filter _)

/-- What is checked is a file that is named, or all scripts below a directory. -/
theorem scripts_cases (h : o.scripts tree = .ok scripts) (hne : scripts ≠ []) :
    ∃ p, tree.locate? o.target = some p ∧
      (tree.isFile p = true ∧ scripts = [(o.target, (tree.read? o.target).map String.toList)] ∨
        tree.isDirectory p = true ∧ scripts = scriptsBelow tree o.target p) := by
  unfold CheckOptions.scripts at h
  unfold CheckOptions.target
  split at h
  · next text hpath =>
    rw [hpath, Option.getD_some]
    unfold namedScripts at h
    split at h
    · next p hp =>
      refine ⟨p, hp, ?_⟩
      split at h
      · next hfile => exact .inl ⟨hfile, (Except.ok.inj h).symm⟩
      · split at h
        · next hdir => exact .inr ⟨hdir, (Except.ok.inj h).symm⟩
        · cases h
    · cases h
  · next hpath =>
    rw [hpath, Option.getD_none]
    unfold defaultScripts at h
    split at h
    · next p hp =>
      refine ⟨p, hp, ?_⟩
      split at h
      · next hdir => exact .inr ⟨hdir, (Except.ok.inj h).symm⟩
      · split at h
        · exact absurd (Except.ok.inj h).symm hne
        · cases h
    · cases h

/-- **Scripts are checked in the order of their paths.** -/
theorem order_scripts (h : o.scripts tree = .ok scripts) (hne : scripts ≠ []) :
    InPathOrder tree o.target scripts := by
  obtain ⟨p, hp, ⟨hfile, rfl⟩ | ⟨-, rfl⟩⟩ := scripts_cases h hne
  · refine ⟨p, [[]], hp, rfl, fun rel hrel => ?_, List.pairwise_singleton _ _⟩
    rw [List.mem_singleton.mp hrel, List.append_nil]
    exact hfile
  · exact order_scriptsBelow hp

/-- **Each script that is checked can be named by itself.** -/
theorem scripts_of_name (hsound : tree.Sound) (htarget : o.target ≠ "")
    (h : o.scripts tree = .ok scripts) {s : NamedScript} (hs : s ∈ scripts) :
    ({ o with path := some s.1 } : CheckOptions).scripts tree = .ok [s] := by
  show namedScripts tree s.1 = .ok [s]
  obtain ⟨p, hp, ⟨hfile, rfl⟩ | ⟨-, rfl⟩⟩ := scripts_cases h (List.ne_nil_of_mem hs)
  · cases List.mem_singleton.mp hs
    unfold namedScripts
    rw [hp]
    dsimp only
    rw [if_pos hfile]
  · obtain ⟨f, hf, rfl⟩ := List.mem_map.mp hs
    obtain ⟨hlocate, hfile, hread⟩ :=
      hsound.read?_join htarget hp (List.mem_filter.mp hf).1
    unfold namedScripts
    rw [hlocate]
    dsimp only
    rw [if_pos hfile, hread]

/-! ## Icons -/

/-- A file name consists of a stem, a point, and one of some extensions in upper or lower case. -/
def HasStem (extensions : List String) (name stem : String) : Prop :=
  stem ≠ "" ∧ ∃ ext : List Char, '.' ∉ ext ∧ name.toList = stem.toList ++ '.' :: ext ∧
    ∃ e ∈ extensions, e.toList.map Char.toLower = ext.map Char.toLower

/-- The stem of a path is that of its last name. -/
theorem stemWith?_eq_some_iff {extensions : List String} {p : Path} {stem : String} :
    stemWith? extensions p = some stem ↔
      ∃ name, p.getLast? = some name ∧ HasStem extensions name stem := by
  have hempty : stem.toList ≠ [] ↔ stem ≠ "" := by simp
  unfold stemWith? HasStem
  constructor
  · intro h
    split at h
    · next stem' ext hsplit =>
      obtain ⟨name, hname, hsplit⟩ := Option.bind_eq_some_iff.mp hsplit
      obtain ⟨hne, hext, hlist⟩ := Path.splitExtension?_eq_some_iff.mp hsplit
      split at h
      · next hany =>
        obtain ⟨e, he, hsame⟩ := List.any_eq_true.mp hany
        cases h
        rw [← hempty, String.toList_ofList]
        exact ⟨name, hname, hne, ext, hext, hlist, e, he, beq_iff_eq.mp hsame⟩
      · cases h
    · cases h
  · rintro ⟨name, hname, hne, ext, hext, hlist, e, he, hsame⟩
    have hsplit := Path.splitExtension?_eq_some_iff.mpr ⟨hempty.mpr hne, hext, hlist⟩
    have hany : extensions.any (fun e => Text.sameIgnoringCase e.toList ext) = true :=
      List.any_eq_true.mpr ⟨e, he, beq_iff_eq.mpr hsame⟩
    rw [hname, Option.bind_some, hsplit]
    dsimp only
    rw [if_pos hany, String.ofList_toList]

/-- There is a directory where a written path leads. -/
def HasDirectory (tree : FileTree) (text : String) : Prop :=
  ∃ p, tree.locate? text = some p ∧ tree.isDirectory p = true

/-- Where a written path leads, or below, there is a file with an icon of this name. -/
def HasIcon (tree : FileTree) (text id : String) : Prop :=
  ∃ (p rel : Path) (name : String) (content : Option String), tree.locate? text = some p ∧
    (p ++ (rel ++ [name]), content) ∈ tree.files ∧ HasStem ["png", "webp", "svg"] name id

theorem iconsBelow_eq_none_iff : iconsBelow tree text = none ↔ ¬HasDirectory tree text := by
  unfold iconsBelow HasDirectory
  cases tree.locate? text with
  | none => simp
  | some p => simp

/-- **The icons of a directory are the stems of its image files.** -/
theorem mem_iconsBelow {ids : List String} (h : iconsBelow tree text = some ids) {id : String} :
    id ∈ ids ↔ HasIcon tree text id := by
  unfold iconsBelow at h
  split at h
  · next p hp =>
    split at h
    · cases h
      rw [List.mem_filterMap]
      constructor
      · rintro ⟨f, hf, hstem⟩
        obtain ⟨-, hmem⟩ := FileTree.mem_below.mp hf
        obtain ⟨name, hlast, hstem⟩ := stemWith?_eq_some_iff.mp hstem
        obtain ⟨rel, hrel⟩ := List.getLast?_eq_some_iff.mp hlast
        rw [hrel] at hmem
        exact ⟨p, rel, name, f.2, hp, hmem, hstem⟩
      · rintro ⟨q, rel, name, content, hq, hmem, hstem⟩
        cases hp.symm.trans hq
        refine ⟨(rel ++ [name], content), FileTree.mem_below.mpr ⟨by simp, hmem⟩, ?_⟩
        exact stemWith?_eq_some_iff.mpr ⟨name, List.getLast?_concat, hstem⟩
    · cases h
  · cases h

/-! ## Runs -/

/-- What a run with the options has to say about a script. -/
def CheckOptions.sheet (o : CheckOptions) (tree : FileTree) (s : NamedScript) : Sheet :=
  (Sheet.ofScript (iconsBelow tree o.icons) s.1 s.2).shown o.verbose

/-- What a run with the options has to say about several scripts. -/
def CheckOptions.total (o : CheckOptions) (tree : FileTree) (scripts : List NamedScript) : Sheet :=
  (scripts.map (o.sheet tree)).sum

/-- What a run prints: the lines of a sheet, and that the run failed if there is an error. -/
def printed (s : Sheet) : String :=
  Text.ofLines (s.lines ++ if 0 < s.number .error then ["xtask error: 脚本检查发现错误"] else [])

theorem run_eq_report (h : o.scripts tree = .ok scripts) (hne : scripts ≠ []) :
    o.run tree = o.report (iconsBelow tree o.icons) scripts := by
  unfold CheckOptions.run
  rw [h]
  cases scripts with
  | nil => exact absurd rfl hne
  | cons s scripts => rfl

theorem total_eq (o : CheckOptions) (tree : FileTree) (scripts : List NamedScript) :
    o.total tree scripts = (Sheet.ofScripts (iconsBelow tree o.icons) scripts).shown o.verbose := by
  rw [CheckOptions.total, Sheet.ofScripts, Sheet.shown_sum, List.map_map]
  rfl

/-- A run fails if there is an error to report. -/
theorem status_run (h : o.scripts tree = .ok scripts) (hne : scripts ≠ []) :
    (o.run tree).status =
      if 0 < totalErrors (checkAll (iconsBelow tree o.icons) scripts) then .failure
      else .success := by
  rw [run_eq_report h hne, CheckOptions.report]
  split <;> rfl

theorem output_run (h : o.scripts tree = .ok scripts) (hne : scripts ≠ []) :
    (o.run tree).output = printed (o.total tree scripts) := by
  have herrors : totalErrors (checkAll (iconsBelow tree o.icons) scripts) =
      (o.total tree scripts).number .error := by
    rw [totalErrors_eq, sum_sheet_checkAll, total_eq, Sheet.number_shown (by decide)]
  rw [run_eq_report h hne, CheckOptions.report, printed, reportLines_checkAll, ← total_eq, herrors]
  split
  · rfl
  · rw [List.append_nil]

/-- What a run over scripts does. -/
structure RunsAsSum (o : CheckOptions) (tree : FileTree) (scripts : List NamedScript) : Prop where
  /-- The scripts stand in the order of their paths. -/
  order : InPathOrder tree o.target scripts
  fails : (o.run tree).status.code = 1 ↔ ∃ s ∈ scripts, IsFaulty s.2
  passes : (o.run tree).status.code = 0 ↔ ∀ s ∈ scripts, ¬IsFaulty s.2
  prints : (o.run tree).output = printed (o.total tree scripts)
  unreadable : (o.total tree scripts).unreadable =
    scripts.flatMap fun s => (o.sheet tree s).unreadable
  findings : (o.total tree scripts).findings = scripts.flatMap fun s => (o.sheet tree s).findings
  /-- Without a directory of icons none is missed. -/
  noIcons : iconsBelow tree o.icons = none ↔ ¬HasDirectory tree o.icons
  /-- Those that are not missed are the icons of the directory. -/
  icons : ∀ ids, iconsBelow tree o.icons = some ids → ∀ id, id ∈ ids ↔ HasIcon tree o.icons id
  missing : (o.total tree scripts).missing = scripts.flatMap fun s => (o.sheet tree s).missing
  counts : ∀ severity, (o.total tree scripts).number severity =
    (scripts.map fun s => (o.sheet tree s).number severity).sum
  /-- A run over one of the scripts prints its part of the sum. -/
  alone : ∀ s ∈ scripts, ∀ (o' : CheckOptions) (tree' : FileTree), o'.scripts tree' = .ok [s] →
    o'.verbose = o.verbose → iconsBelow tree' o'.icons = iconsBelow tree o.icons →
    (o'.run tree').output = printed (o.sheet tree s)
  /-- To name a script is one way to run over it alone. -/
  named : tree.Sound → o.target ≠ "" → ∀ s ∈ scripts,
    ({ o with path := some s.1 } : CheckOptions).scripts tree = .ok [s]
  /-- Whether notes are wanted makes a difference to the notes only. -/
  notes : ({ o with verbose := false } : CheckOptions).total tree scripts =
    (({ o with verbose := true } : CheckOptions).total tree scripts).withoutNotes
  sameCounts : ∀ verbose severity, severity ≠ .info →
    (({ o with verbose := verbose } : CheckOptions).total tree scripts).number severity =
      (o.total tree scripts).number severity
  sameStatus : ∀ verbose,
    (({ o with verbose := verbose } : CheckOptions).run tree).status = (o.run tree).status

/--
**Checking several scripts is the sum of checking each,** and it fails just if one of them cannot be
read or loses a tag whose value is missing or refused.

The findings stand in the order of the scripts, and behind them the missing icons, which are the
icon instructions of the compiled scripts that ask for an icon outside the directory of icons. The
counts are those of the entries, and add up. Notes that are wanted are added, and nothing else
changes.
-/
theorem check_is_sum (h : o.scripts tree = .ok scripts) (hne : scripts ≠ []) :
    RunsAsSum o tree scripts where
  order := order_scripts h hne
  fails := by
    rw [status_run h hne, ← totalErrors_checkAll (iconsBelow tree o.icons)]
    split <;> simp_all [Status.code]
  passes := by
    have hnone : (∀ s ∈ scripts, ¬IsFaulty s.2) ↔ ¬∃ s ∈ scripts, IsFaulty s.2 := by
      simp only [not_exists, not_and]
    rw [status_run h hne, hnone, ← totalErrors_checkAll (iconsBelow tree o.icons)]
    split <;> simp_all [Status.code]
  prints := output_run h hne
  unreadable := by
    rw [CheckOptions.total, Sheet.unreadable_sum, List.flatMap_map]
  findings := by
    rw [CheckOptions.total, Sheet.findings_sum, List.flatMap_map]
  noIcons := iconsBelow_eq_none_iff
  icons _ hids _ := mem_iconsBelow hids
  missing := by
    rw [CheckOptions.total, Sheet.missing_sum, List.flatMap_map]
  counts severity := by
    rw [CheckOptions.total, Sheet.number_sum, List.map_map]
    rfl
  alone s _ o' tree' h' hverbose hicons := by
    rw [output_run h' (List.cons_ne_nil s []), CheckOptions.total, List.map_singleton,
      Sheet.sum_singleton, CheckOptions.sheet, hverbose, hicons]
    rfl
  named hsound htarget s hs := scripts_of_name hsound htarget h hs
  notes := by
    rw [total_eq, total_eq]
    rfl
  sameCounts verbose severity hseverity := by
    rw [total_eq, total_eq, Sheet.number_shown hseverity, Sheet.number_shown hseverity]
  sameStatus verbose := by
    rw [status_run h hne, status_run (o := { o with verbose := verbose }) h hne]

/-- Two scripts in a directory, of which one cannot be read, and a directory with an icon. -/
def twoScripts : FileTree :=
  ((({} : FileTree).addFile "s/b.dlg" none).addFile "s/a/c.txt"
    (some "[icon: x][icon: y][size]")).addFile "assets/icons/x.png" none

theorem sound_twoScripts : twoScripts.Sound := by
  have hb : Path.stations (Path.start "s/b.dlg") (Path.names "s/b.dlg") =
      [[], ["s"], ["s", "b.dlg"]] := by decide +kernel
  have hc : Path.stations (Path.start "s/a/c.txt") (Path.names "s/a/c.txt") =
      [[], ["s"], ["s", "a"], ["s", "a", "c.txt"]] := by decide +kernel
  have hx : Path.stations (Path.start "assets/icons/x.png") (Path.names "assets/icons/x.png") =
      [[], ["assets"], ["assets", "icons"], ["assets", "icons", "x.png"]] := by decide +kernel
  refine ((FileTree.sound_empty.addFile (congrArg List.getLast? hb) ?_ ?_).addFile
    (congrArg List.getLast? hc) ?_ ?_).addFile (congrArg List.getLast? hx) ?_ ?_ <;>
    decide +kernel

theorem scripts_twoScripts : ({ path := some "s" } : CheckOptions).scripts twoScripts =
    .ok [("s/a/c.txt", some "[icon: x][icon: y][size]".toList), ("s/b.dlg", none)] := by
  have hlocate : twoScripts.locate? "s" = some ["s"] := by decide +kernel
  have hbelow : twoScripts.below ["s"] =
      [(["a", "c.txt"], some "[icon: x][icon: y][size]"), (["b.dlg"], none)] :=
    List.mergeSort_of_pairwise (by decide +kernel)
  show namedScripts twoScripts "s" = _
  unfold namedScripts
  rw [hlocate]
  dsimp only
  rw [if_neg (by decide +kernel), if_pos (by decide +kernel), scriptsBelow, hbelow]
  decide +kernel

theorem check_is_sum_twoScripts : twoScripts.Sound ∧
    ({ path := some "s" } : CheckOptions).scripts twoScripts =
      .ok [("s/a/c.txt", some "[icon: x][icon: y][size]".toList), ("s/b.dlg", none)] ∧
    RunsAsSum { path := some "s" } twoScripts
      [("s/a/c.txt", some "[icon: x][icon: y][size]".toList), ("s/b.dlg", none)] :=
  ⟨sound_twoScripts, scripts_twoScripts, check_is_sum scripts_twoScripts (List.cons_ne_nil _ _)⟩

end DialogueBox.Commandline
