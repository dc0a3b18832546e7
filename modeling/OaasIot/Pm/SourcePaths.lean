import OaasIot.Lib.Segments

/-!
# Where script sources are stored (`oprc-pm/src/services/artifact.rs`)

The names of the package and of the function are joined to the source directory as they were sent: unlike the ids of
artifacts (`validate_id`) **they are not looked at**. A location is a list of names below the root; links are left out.
-/

namespace Pm

open List

/-- `Path::join`: an absolute path takes the place of what it is joined to. -/
def join (path name : List Char) : List Char :=
  if name.head? = some '/' then name
  else if path = [] ∨ path.getLast? = some '/' then path ++ name
  else path ++ '/' :: name

def sourcePath (sourceDir : List Char) (package function : String) : List Char :=
  join (join sourceDir package.toList) (function.toList ++ ".ts".toList)

/-- The location one component further. -/
def enter (here : List (List Char)) (name : List Char) : List (List Char) :=
  if name = ['.'] then here else if name = ['.', '.'] then here.dropLast else here ++ [name]

/-- The location of a path, in the working directory `cwd`. -/
def resolve (cwd : List (List Char)) (path : List Char) : List (List Char) :=
  (segments '/' path).foldl enter (if path.head? = some '/' then [] else cwd)

/-- The file of a package and a function lies in the source directory, wherever that is. -/
def Confined (package function : String) : Prop :=
  ∀ cwd sourceDir, resolve cwd sourceDir <+: resolve cwd (sourcePath sourceDir package function)

/-- The same walk from `here`, which must not be left upwards. -/
def descend : List (List Char) → List (List Char) → Option (List (List Char))
  | here, [] => some here
  | here, name :: names =>
    if name = ['.', '.'] ∧ here = [] then none else descend (enter here name) names

/-- What is left of the two names once `.` and `..` are cancelled; none if they lead out of the directory. -/
def reduced (package function : String) : Option (List (List Char)) :=
  if package.toList.head? = some '/' ∨ (function.toList ++ ".ts".toList).head? = some '/' then none
  else descend [] (segments '/' package.toList ++ segments '/' (function.toList ++ ".ts".toList))

theorem resolve_join (cwd : List (List Char)) (path name : List Char) :
    resolve cwd (join path name) = resolve (resolve cwd path) name := by
  unfold join
  split
  · rename_i habs
    simp [resolve, habs]
  · rename_i hrel
    split
    · rename_i hend
      rcases hend with rfl | hend
      · simp [resolve, hrel]
      · obtain ⟨path, rfl⟩ := getLast?_eq_some_iff.1 hend
        have hhead : (path ++ '/' :: name).head? = (path ++ ['/']).head? := by cases path <;> simp
        rw [append_assoc, singleton_append]
        simp only [resolve, if_neg hrel, hhead, segments_append, segments_nil, append_nil, foldl_append]
    · rename_i hend
      obtain ⟨c, path, rfl⟩ := exists_cons_of_ne_nil (not_or.1 hend).1
      simp only [resolve, if_neg hrel, segments_append, foldl_append]
      simp

theorem resolve_sourcePath (cwd : List (List Char)) (sourceDir : List Char) (package function : String) :
    resolve cwd (sourcePath sourceDir package function) =
      resolve (resolve (resolve cwd sourceDir) package.toList) (function.toList ++ ".ts".toList) := by
  rw [sourcePath, resolve_join, resolve_join]

section

variable {here rest names : List (List Char)} {name : List Char}

theorem mem_enter (h : name ∈ enter here n) : name ∈ here ∨ name = n := by
  unfold enter at h
  split at h
  · exact .inl h
  split at h
  · exact .inl (mem_of_mem_dropLast h)
  · simpa using h

theorem mem_foldl_enter (h : name ∈ names.foldl enter here) : name ∈ here ∨ name ∈ names := by
  induction names generalizing here with
  | nil => exact .inl h
  | cons n names ih =>
    rcases ih h with h | h
    · rcases mem_enter h with h | rfl <;> simp [*]
    · simp [h]

theorem enter_append (outer : List (List Char)) (h : ¬(name = ['.', '.'] ∧ here = [])) :
    enter (outer ++ here) name = outer ++ enter here name := by
  unfold enter
  split
  · rfl
  split
  · rw [dropLast_append_of_ne_nil fun hnil => h ⟨‹_›, hnil⟩]
  · rw [append_assoc]

theorem foldl_enter_append (outer : List (List Char)) (h : descend here names = some rest) :
    names.foldl enter (outer ++ here) = outer ++ rest := by
  induction names generalizing here with
  | nil => rw [← Option.some.inj h, foldl_nil]
  | cons name names ih =>
    rw [descend] at h
    split at h
    · cases h
    · rename_i hstay
      rw [foldl_cons, enter_append outer hstay]
      exact ih h

/-- A walk that leaves `here` upwards has left the directory above it, and does not come back to a name it has not. -/
theorem notMem_of_descend_eq_none (outer : List Char) (h : descend here names = none) (hhere : outer ∉ here)
    (hnames : outer ∉ names) : outer ∉ names.foldl enter ([outer] ++ here) := by
  induction names generalizing here with
  | nil => cases h
  | cons name names ih =>
    rw [mem_cons, not_or] at hnames
    rw [descend] at h
    rw [foldl_cons]
    split at h
    · rename_i hleave
      obtain ⟨rfl, rfl⟩ := hleave
      exact fun hmem => hnames.2 ((mem_foldl_enter hmem).resolve_left (by simp [enter]))
    · rename_i hstay
      rw [enter_append [outer] hstay]
      refine ih h (fun hmem => ?_) hnames.2
      exact (mem_enter hmem).elim hhere hnames.1

end

theorem resolve_of_reduced {package function : String} {rest : List (List Char)}
    (h : reduced package function = some rest) (cwd : List (List Char)) (sourceDir : List Char) :
    resolve cwd (sourcePath sourceDir package function) = resolve cwd sourceDir ++ rest := by
  unfold reduced at h
  split at h
  · cases h
  · rename_i hrel
    have hwalk := foldl_enter_append (resolve cwd sourceDir) h
    rw [resolve_sourcePath, resolve, if_neg (not_or.1 hrel).2, resolve, if_neg (not_or.1 hrel).1, ← foldl_append,
      ← hwalk, append_nil]

theorem confined_iff (package function : String) : Confined package function ↔ (reduced package function).isSome := by
  constructor
  · intro h
    -- A directory whose name is not among the components can only be kept.
    obtain ⟨outer, houter⟩ := Infinite.exists_notMem_finset
      (segments '/' package.toList ++ segments '/' (function.toList ++ ".ts".toList)).toFinset
    rw [mem_toFinset] at houter
    have hmem : outer ∈ resolve [outer] (sourcePath [] package function) :=
      (h [outer] []).subset (by simp [resolve])
    rw [resolve_sourcePath] at hmem
    by_contra hnone
    simp only [Option.isSome_iff_ne_none, not_not, reduced] at hnone
    rw [mem_append, not_or] at houter
    split at hnone
    · rename_i habs
      rcases mem_foldl_enter hmem with hmem | hmem
      · split at hmem
        · cases hmem
        · rename_i hrel
          rw [resolve, if_pos (habs.resolve_right hrel)] at hmem
          exact houter.1 ((mem_foldl_enter hmem).resolve_left (by simp))
      · exact houter.2 hmem
    · rename_i hrel
      rw [resolve, if_neg (not_or.1 hrel).2, resolve, if_neg (not_or.1 hrel).1, ← foldl_append] at hmem
      have hnot := notMem_of_descend_eq_none outer hnone (by simp) (by simpa using houter)
      exact hnot (by simpa [resolve] using hmem)
  · intro h cwd sourceDir
    obtain ⟨rest, hrest⟩ := Option.isSome_iff_exists.1 h
    rw [resolve_of_reduced hrest]
    exact prefix_append _ _

/-- **Confinement**, of two pairs of names: both stay in the directory, and only one pair reduces to what is left. -/
theorem sources_confined_iff (package function package' function' : String) :
    (Confined package function ∧ Confined package' function' ∧ ((package, function) ≠ (package', function') →
      ∀ cwd sourceDir, resolve cwd (sourcePath sourceDir package function) ≠
        resolve cwd (sourcePath sourceDir package' function'))) ↔
      (reduced package function).isSome ∧ (reduced package' function').isSome ∧
        ((package, function) ≠ (package', function') → reduced package function ≠ reduced package' function') := by
  rw [confined_iff, confined_iff]
  refine and_congr_right fun h => and_congr_right fun h' => imp_congr_right fun _ => ?_
  obtain ⟨rest, hrest⟩ := Option.isSome_iff_exists.1 h
  obtain ⟨rest', hrest'⟩ := Option.isSome_iff_exists.1 h'
  simp [resolve_of_reduced hrest, resolve_of_reduced hrest', hrest, hrest']

/-- The package `..` leads out of the directory, and a slash in a name makes two pairs one. -/
theorem sources_escape :
    resolve [] (sourcePath "/pm/sources".toList ".." "x") = ["pm".toList, "x.ts".toList] ∧
      sourcePath "/pm/sources".toList "a/b" "c" = sourcePath "/pm/sources".toList "a" "b/c" := by
  decide +kernel

end Pm
