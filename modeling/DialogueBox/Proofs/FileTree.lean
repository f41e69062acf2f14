import DialogueBox.FileTree
import DialogueBox.Proofs.Text.Cut
import Mathlib.Data.String.Basic

/-!
# Naming a file by itself

What is below a directory is listed by paths from there, in the order of the names (`before_iff`,
`pairwise_below`), and such a path is written behind the written path of the directory. Whoever
follows the result arrives at the file (`locate?_join`), if the tree is one that a disk can have:
its names are names, what is on the way to a file is a directory, and no file is there twice
(`FileTree.Sound`). So a file of a listing can also be named by itself (`read?_join`).

The extension of a name is what follows its last point (`splitExtension?_eq_some_iff`).
-/

namespace DialogueBox

open Text

namespace Path

/-! ## The order of paths -/

theorem textBefore_iff {a b : List Char} : textBefore a b = true ↔ a ≤ b := by
  rw [← not_lt]
  induction a generalizing b with
  | nil => exact iff_of_true rfl (List.not_lt_nil b)
  | cons c a ih =>
    cases b with
    | nil => exact iff_of_false Bool.false_ne_true (not_not.mpr (List.nil_lt_cons c a))
    | cons d b =>
      rw [textBefore, List.cons_lt_cons_iff]
      split
      · next h =>
        subst h
        simpa using ih
      · next h =>
        rw [decide_eq_true_iff]
        simp only [Ne.symm h, false_and, or_false, not_lt]
        exact ⟨fun hlt => le_of_lt hlt, fun hle => show c < d from lt_of_le_of_ne hle h⟩

/-- **One path is before another one if it is so by its names, compared one after the other.** -/
theorem before_iff {p q : Path} : before p q = true ↔ p ≤ q := by
  rw [← not_lt]
  induction p generalizing q with
  | nil => exact iff_of_true rfl (List.not_lt_nil q)
  | cons a p ih =>
    cases q with
    | nil => exact iff_of_false Bool.false_ne_true (not_not.mpr (List.nil_lt_cons a p))
    | cons b q =>
      rw [before, List.cons_lt_cons_iff]
      split
      · next h =>
        subst h
        simpa using ih
      · next h =>
        rw [textBefore_iff, ← String.le_iff_toList_le]
        simp only [Ne.symm h, false_and, or_false, not_lt]

/-! ## Names -/

/-- A name that a file can have, which leads one step down. -/
structure IsName (name : String) : Prop where
  ne_empty : name ≠ ""
  ne_here : name ≠ "."
  ne_above : name ≠ ".."
  no_slash : '/' ∉ name.toList

instance (name : String) : Decidable (IsName name) :=
  decidable_of_iff (name ≠ "" ∧ name ≠ "." ∧ name ≠ ".." ∧ '/' ∉ name.toList)
    ⟨fun ⟨hempty, hhere, habove, hslash⟩ => ⟨hempty, hhere, habove, hslash⟩,
      fun h => ⟨h.ne_empty, h.ne_here, h.ne_above, h.no_slash⟩⟩

theorem IsName.step_eq {name : String} (h : IsName name) (p : Path) :
    p.step name = p ++ [name] := by
  rw [step, if_neg (by simp [h.ne_empty, h.ne_here]), if_neg h.ne_above]

/-- A written path and the name behind it start at the same place, and the name is the next step. -/
theorem names_join {text name : String} (htext : text ≠ "") (hname : IsName name) :
    start (join text [name]) = start text ∧
      ∃ ns rest, names text = ns ++ rest ∧ (rest = [] ∨ rest = [""]) ∧
        names (join text [name]) = ns ++ [name] := by
  have hlist : text.toList ≠ [] := fun h => htext (String.toList_inj.mp h)
  have hcut : ∀ s : List Char, (splitAll '/' (s ++ '/' :: name.toList)).map String.ofList =
      (splitAll '/' s).map String.ofList ++ [name] := fun s => by
    rw [splitAll_eq, List.splitOn_append_cons_self, List.splitOn_eq_singleton hname.no_slash,
      ← splitAll_eq, List.map_append, List.map_singleton, String.ofList_toList]
  rw [show join text [name] = if text.toList.getLast? = some '/' then text ++ name
    else text ++ "/" ++ name from rfl]
  split
  · next hlast =>
    obtain ⟨s, hs⟩ := List.getLast?_eq_some_iff.mp hlast
    refine ⟨?_, (splitAll '/' s).map String.ofList, [""], ?_, .inr rfl, ?_⟩
    · unfold start
      rw [String.toList_append, List.head?_append_of_ne_nil _ hlist]
    · rw [names, hs, splitAll_eq, List.splitOn_append_cons_self, List.map_append, ← splitAll_eq]
      rfl
    · rw [names, String.toList_append, hs, List.append_assoc]
      exact hcut s
  · refine ⟨?_, names text, [], (List.append_nil _).symm, .inl rfl, ?_⟩
    · unfold start
      rw [String.toList_append, String.toList_append, List.append_assoc,
        List.head?_append_of_ne_nil _ hlist]
    · rw [names, String.toList_append, String.toList_append, List.append_assoc]
      exact hcut text.toList

theorem join_ne_empty {text name : String} (h : text ≠ "") : join text [name] ≠ "" := by
  have hlist : text.toList ≠ [] := fun hnil => h (String.toList_inj.mp hnil)
  rw [show join text [name] = if text.toList.getLast? = some '/' then text ++ name
    else text ++ "/" ++ name from rfl, ne_eq, ← String.toList_inj]
  split <;> simp [hlist]

/-- **The extension of a name is what follows its last point,** if something stands before it. -/
theorem splitExtension?_eq_some_iff {name : String} {stem ext : List Char} :
    splitExtension? name = some (stem, ext) ↔
      stem ≠ [] ∧ '.' ∉ ext ∧ name.toList = stem ++ '.' :: ext := by
  have hcut : ∀ before after, splitAt? '.' name.toList.reverse = some (before, after) ↔
      '.' ∉ before.reverse ∧ name.toList = after.reverse ++ '.' :: before.reverse := by
    intro before after
    rw [splitAt?_eq_some_iff, and_comm, List.mem_reverse, List.reverse_eq_iff]
    simp
  unfold splitExtension?
  constructor
  · intro h
    split at h
    · next before after hs =>
      split at h
      · cases h
      · next hne =>
        cases h
        exact ⟨by simpa using hne, (hcut _ _).mp hs⟩
    · cases h
  · rintro ⟨hstem, h⟩
    rw [← List.reverse_reverse stem, ← List.reverse_reverse ext] at h
    rw [(hcut _ _).mpr h]
    simp [hstem]

/-- A step leads down from where it begins, or does not leave it. -/
theorem dropLast_step_prefix (p : Path) (name : String) : (p.step name).dropLast <+: p := by
  unfold step
  split
  · exact List.dropLast_prefix p
  · split
    · split
      · exact List.nil_prefix
      · split
        · exact List.dropLast_prefix p
        · split
          · simp
          · exact (List.dropLast_prefix _).trans (List.dropLast_prefix p)
    · simp

/-- What the goal of a written path is in has been passed before. -/
theorem exists_station {p goal : Path} {ns : List String} (hns : ns ≠ [])
    (hgoal : (stations p ns).getLast? = some goal) :
    ∃ q ∈ (stations p ns).dropLast, goal.dropLast <+: q := by
  induction ns generalizing p with
  | nil => exact absurd rfl hns
  | cons name ns ih =>
    have hne : stations (p.step name) ns ≠ [] := by cases ns <;> exact List.cons_ne_nil _ _
    rw [stations, List.getLast?_cons_of_ne_nil hne] at hgoal
    rw [stations, List.dropLast_cons_of_ne_nil hne]
    by_cases hnil : ns = []
    · subst hnil
      cases hgoal
      exact ⟨p, List.mem_cons_self, dropLast_step_prefix p name⟩
    · obtain ⟨q, hq, hprefix⟩ := ih hnil hgoal
      exact ⟨q, List.mem_cons_of_mem p hq, hprefix⟩

theorem names_ne_nil (text : String) : names text ≠ [] := by
  rw [names, splitAll_eq, ne_eq, List.map_eq_nil_iff]
  exact List.splitOn_ne_nil _ _

end Path

namespace FileTree

variable {t : FileTree} {p q : Path} {text : String}

/-! ## Listings -/

theorem mem_below {f : Path × Option String} :
    f ∈ t.below p ↔ f.1 ≠ [] ∧ (p ++ f.1, f.2) ∈ t.files := by
  obtain ⟨rel, content⟩ := f
  unfold below
  rw [List.mem_mergeSort, List.mem_map]
  constructor
  · rintro ⟨⟨path, c⟩, hg, hf⟩
    obtain ⟨hmem, hinside⟩ := List.mem_filter.mp hg
    rw [Bool.and_eq_true, List.isPrefixOf_iff_prefix, decide_eq_true_iff] at hinside
    obtain ⟨⟨rest, rfl⟩, hlt⟩ := hinside
    rw [List.drop_left] at hf
    cases hf
    rw [List.length_append, Nat.lt_add_right_iff_pos, List.length_pos_iff] at hlt
    exact ⟨hlt, hmem⟩
  · rintro ⟨hne, hmem⟩
    refine ⟨(p ++ rel, content), List.mem_filter.mpr ⟨hmem, ?_⟩, ?_⟩
    · simpa using List.length_pos_iff.mpr hne
    · simp

/-- **A listing is in the order of the paths.** -/
theorem pairwise_below (t : FileTree) (p : Path) :
    (t.below p).Pairwise fun f g => f.1 ≤ g.1 := by
  refine (List.pairwise_mergeSort (fun f g h hfg hgh => ?_) (fun f g => ?_) _).imp fun h =>
    Path.before_iff.mp h
  · exact Path.before_iff.mpr ((Path.before_iff.mp hfg).trans (Path.before_iff.mp hgh))
  · rw [Bool.or_eq_true, Path.before_iff, Path.before_iff]
    exact le_total f.1 g.1

/-! ## Following -/

theorem isDirectory_of_prefix (h : p <+: q) (hq : t.isDirectory q = true) :
    t.isDirectory p = true := by
  unfold isDirectory at hq ⊢
  rw [Bool.or_eq_true, List.any_eq_true] at hq ⊢
  rcases hq with hnil | ⟨d, hd, hdir⟩
  · rw [List.isEmpty_iff] at hnil
    rw [hnil, List.prefix_nil] at h
    exact .inl (List.isEmpty_iff.mpr h)
  · rw [List.isPrefixOf_iff_prefix] at hdir
    exact .inr ⟨d, hd, List.isPrefixOf_iff_prefix.mpr (h.trans hdir)⟩

theorem isDirectory_of_mem (h : p ∈ t.directories) : t.isDirectory p = true := by
  unfold isDirectory
  rw [Bool.or_eq_true, List.any_eq_true]
  exact .inr ⟨p, h, List.isPrefixOf_iff_prefix.mpr List.prefix_rfl⟩

theorem follow_append (ns ms : List String) :
    t.follow p (ns ++ ms) = (t.follow p ns).bind fun q => t.follow q ms := by
  induction ns generalizing p with
  | nil => rfl
  | cons n ns ih =>
    rw [List.cons_append, follow, follow]
    split
    · exact ih
    · rfl

/-- A name behind the written path of a directory is followed to what has the name there. -/
theorem locate?_join_name {name : String} (htext : text ≠ "") (hp : t.locate? text = some p)
    (hdir : t.isDirectory p = true) (hname : Path.IsName name) :
    t.locate? (Path.join text [name]) = some (p ++ [name]) := by
  obtain ⟨hstart, ns, rest, hnames, hrest, hjoin⟩ := Path.names_join htext hname
  have hns : t.follow (Path.start text) ns = some p := by
    rw [locate?, hnames, follow_append] at hp
    obtain ⟨q, hq, hlast⟩ := Option.bind_eq_some_iff.mp hp
    rcases hrest with rfl | rfl
    · rwa [← Option.some.inj hlast]
    · -- the empty name behind a last slash stays where it is
      rw [follow] at hlast
      split at hlast
      · cases hlast
        exact hq
      · cases hlast
  rw [locate?, hstart, hjoin, follow_append, hns]
  show t.follow p [name] = _
  rw [follow, if_pos hdir, hname.step_eq]
  rfl

/-- **The written path of what is below a directory is followed there,** if directories are on the
way. -/
theorem locate?_join {rel : Path} (htext : text ≠ "") (hp : t.locate? text = some p)
    (hdir : t.isDirectory (p ++ rel).dropLast = true) (hrel : rel ≠ [])
    (hnames : ∀ name ∈ rel, Path.IsName name) :
    t.locate? (Path.join text rel) = some (p ++ rel) := by
  induction rel generalizing text p with
  | nil => exact absurd rfl hrel
  | cons name rel ih =>
    have hname := hnames name List.mem_cons_self
    have hhere : t.isDirectory p = true := by
      refine isDirectory_of_prefix ?_ hdir
      rw [List.dropLast_append_of_ne_nil (List.cons_ne_nil name rel)]
      exact List.prefix_append ..
    have hnext := locate?_join_name htext hp hhere hname
    show t.locate? (Path.join (Path.join text [name]) rel) = _
    rw [List.append_cons] at hdir ⊢
    by_cases hnil : rel = []
    · rw [hnil, List.append_nil]
      exact hnext
    · exact ih (Path.join_ne_empty htext) hnext hdir hnil fun n hn =>
        hnames n (List.mem_cons_of_mem _ hn)

/-! ## Sound trees -/

/-- A tree that a disk can have. -/
structure Sound (t : FileTree) : Prop where
  names : ∀ f ∈ t.files, ∀ name ∈ f.1, Path.IsName name
  /-- What a file is in is a directory. -/
  parents : ∀ f ∈ t.files, t.isDirectory f.1.dropLast = true
  /-- No file is there twice. -/
  distinct : (t.files.map Prod.fst).Nodup

theorem sound_empty : ({} : FileTree).Sound where
  names _ h := nomatch h
  parents _ h := nomatch h
  distinct := List.nodup_nil

theorem isDirectory_of_directories {s : FileTree} (h : ∀ d ∈ t.directories, d ∈ s.directories)
    (hp : t.isDirectory p = true) : s.isDirectory p = true := by
  unfold isDirectory at hp ⊢
  rw [Bool.or_eq_true, List.any_eq_true] at hp ⊢
  exact hp.imp_right fun ⟨d, hd, hdir⟩ => ⟨d, h d hd, hdir⟩

/-- **A tree stays sound when a file is added** whose path consists of names, if the file is not
there yet. -/
theorem Sound.addFile (h : t.Sound) {content : Option String} {goal : Path}
    (hgoal : (Path.stations (Path.start text) (Path.names text)).getLast? = some goal)
    (hnames : ∀ name ∈ goal, Path.IsName name) (hnew : goal ∉ t.files.map Prod.fst) :
    (t.addFile text content).Sound := by
  unfold FileTree.addFile
  dsimp only
  rw [hgoal]
  refine ⟨fun f hf => ?_, fun f hf => ?_, List.nodup_cons.mpr ⟨hnew, h.distinct⟩⟩
  · rcases List.mem_cons.mp hf with rfl | hf
    · exact hnames
    · exact h.names f hf
  · rcases List.mem_cons.mp hf with rfl | hf
    · obtain ⟨q, hq, hprefix⟩ := Path.exists_station (Path.names_ne_nil text) hgoal
      exact isDirectory_of_prefix hprefix (isDirectory_of_mem (List.mem_append_left _ hq))
    · exact isDirectory_of_directories (fun _ hd => List.mem_append_right _ hd) (h.parents f hf)

/-- **A file of a listing is found and read under its written path.** -/
theorem Sound.read?_join (h : t.Sound) (htext : text ≠ "") (hp : t.locate? text = some p)
    {f : Path × Option String} (hf : f ∈ t.below p) :
    t.locate? (Path.join text f.1) = some (p ++ f.1) ∧ t.isFile (p ++ f.1) = true ∧
      t.read? (Path.join text f.1) = f.2 := by
  obtain ⟨hrel, hmem⟩ := mem_below.mp hf
  have hlocate : t.locate? (Path.join text f.1) = some (p ++ f.1) :=
    locate?_join htext hp (h.parents _ hmem) hrel fun name hname =>
      h.names _ hmem name (List.mem_append_right p hname)
  refine ⟨hlocate, List.any_eq_true.mpr ⟨_, hmem, beq_self_eq_true _⟩, ?_⟩
  have hlookup : t.files.lookup (p ++ f.1) = some f.2 := by
    obtain ⟨fs, gs, hfiles⟩ := List.append_of_mem hmem
    refine List.lookup_eq_some_iff.mpr ⟨fs, gs, hfiles, fun g hg => ?_⟩
    have hdistinct := h.distinct
    rw [hfiles, List.map_append, List.map_cons, List.nodup_append] at hdistinct
    rw [bne_iff_ne]
    exact (hdistinct.2.2 g.1 (List.mem_map_of_mem hg) _ List.mem_cons_self).symm
  rw [read?, hlocate, Option.bind_some, hlookup, Option.join_some]

end FileTree

end DialogueBox
