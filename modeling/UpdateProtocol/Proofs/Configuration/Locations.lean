import UpdateProtocol.Configuration.Load
import UpdateProtocol.Proofs.Configuration.Path

/-!
# The usual locations

The files inside two directories are the same location exactly if the directories are
(`same_pathIn`).  The usual locations stand in the order of their priority.  None is listed twice,
unless the directory for configurations is the one that all users share: its file is then the first
location and the last one (`searchPaths_ordered`).
-/

namespace UpdateProtocol.Configuration

/-- The directory for configurations in a home directory. -/
def homeDirectory (home : String) : String :=
  Path.join home ".config"

theorem components_homeDirectory (home : String) :
    Path.components (homeDirectory home) = Path.components home ++ [".config"] := by
  have hstart : Path.start ".config" = [] := by
    rw [Path.start, Path.isAbsolute_eq, Path.splitOn_eq]
    rfl
  have hpath : Path.components ".config" = [".config"] := by
    rw [Path.components_eq, hstart, Path.splitOn_eq]
    rfl
  rw [homeDirectory, Path.components_join home hstart, hpath]

theorem components_pathIn (directory : String) :
    Path.components (pathIn directory) = Path.components directory ++ ["omaha", "config.toml"] := by
  have hstart : Path.start "omaha/config.toml" = [] := by
    rw [Path.start, Path.isAbsolute_eq, Path.splitOn_eq]
    rfl
  have hpath : Path.components "omaha/config.toml" = ["omaha", "config.toml"] := by
    rw [Path.components_eq, hstart, Path.splitOn_eq]
    rfl
  rw [pathIn, Path.components_join directory hstart, hpath]

/-- The directory of the location that all users share. -/
theorem systemPath_eq : systemPath = pathIn "/etc" := by
  rw [pathIn, Path.join, Path.endsWith_eq]
  rfl

/-- The files inside two directories are the same location exactly if the directories are. -/
theorem same_pathIn (a b : String) : Path.same (pathIn a) (pathIn b) = Path.same a b := by
  rw [Bool.eq_iff_iff, Path.same_iff, Path.same_iff, components_pathIn, components_pathIn,
    List.append_left_inj]

theorem not_same_homeDirectory (home : String) : Path.same (homeDirectory home) "/etc" = false := by
  rw [Bool.eq_false_iff, ne_eq, Path.same_iff, components_homeDirectory]
  have hetc : Path.components "/etc" = ["/"] ++ ["etc"] := by
    rw [Path.components_eq, Path.start, Path.isAbsolute_eq, Path.splitOn_eq]
    rfl
  rw [hetc]
  intro h
  exact absurd (List.append_inj_right' h rfl) (by decide)

/-! ### The list of locations -/

/-- The locations of one user. -/
def userPaths (xdg home : Option String) : List String :=
  xdg.toList.map pathIn ++ (home.toList.map (fun home => pathIn (homeDirectory home))).filter
    (fun path => !(xdg.toList.map pathIn).any (Path.same path))

theorem searchPaths_eq (xdg home : Option String) :
    searchPaths xdg home = userPaths xdg home ++ [systemPath] := rfl

variable {xdg home : Option String}

theorem mem_userPaths {path : String} (h : path ∈ userPaths xdg home) :
    (∃ directory ∈ xdg, path = pathIn directory) ∨
      ∃ directory ∈ home, path = pathIn (homeDirectory directory) := by
  rcases List.mem_append.1 h with hfirst | hsecond
  · obtain ⟨directory, hdirectory, rfl⟩ := List.mem_map.1 hfirst
    exact .inl ⟨directory, Option.mem_toList.1 hdirectory, rfl⟩
  · obtain ⟨directory, hdirectory, rfl⟩ := List.mem_map.1 (List.mem_of_mem_filter hsecond)
    exact .inr ⟨directory, Option.mem_toList.1 hdirectory, rfl⟩

theorem head?_userPaths {directory : String} (h : directory ∈ xdg) :
    (userPaths xdg home).head? = some (pathIn directory) := by
  obtain rfl := Option.mem_def.1 h
  rfl

/-- The locations of one user are different ones. -/
theorem distinct_userPaths (xdg home : Option String) : Path.Distinct (userPaths xdg home) := by
  refine List.pairwise_append.2 ⟨?_, ?_, ?_⟩
  · cases xdg <;> simp
  · cases home with
    | none => simp
    | some home => exact (List.pairwise_singleton _ _).filter _
  · intro a ha b hb
    have hnew := (List.mem_filter.1 hb).2
    rw [Bool.not_eq_true', List.any_eq_false] at hnew
    rw [Path.same_comm]
    exact Bool.eq_false_iff.2 (hnew a ha)

/-- The location in a home directory is listed, and only the first location stands before it. -/
theorem exists_homePath {directory : String} (h : directory ∈ home) :
    ∃ before path after, userPaths xdg home = before ++ path :: after ∧
      Path.same path (pathIn (homeDirectory directory)) = true ∧
      ∀ other ∈ before, ∃ first ∈ xdg, other = pathIn first := by
  obtain rfl := Option.mem_def.1 h
  cases xdg with
  | none => exact ⟨[], _, [], rfl, Path.same_refl _, by simp⟩
  | some first =>
    cases hsame : Path.same (pathIn first) (pathIn (homeDirectory directory)) with
    | true =>
      refine ⟨[], _, [], ?_, hsame, by simp⟩
      rw [Path.same_comm] at hsame
      simp [userPaths, hsame]
    | false =>
      refine ⟨[pathIn first], _, [], ?_, Path.same_refl _, by simp⟩
      rw [Path.same_comm] at hsame
      simp [userPaths, hsame]

/-- Only the directory for configurations can be the one that all users share. -/
theorem distinct_searchPaths_iff :
    Path.Distinct (searchPaths xdg home) ↔
      ∀ directory ∈ xdg, Path.same directory "/etc" = false := by
  rw [searchPaths_eq, Path.Distinct, List.pairwise_append]
  simp only [List.mem_singleton, forall_eq, systemPath_eq]
  constructor
  · rintro ⟨-, -, hsystem⟩ directory hdirectory
    rw [← same_pathIn]
    exact hsystem _ (List.mem_of_mem_head? (head?_userPaths hdirectory))
  · refine fun h => ⟨distinct_userPaths xdg home, List.pairwise_singleton _ _, fun path hpath => ?_⟩
    rcases mem_userPaths hpath with ⟨directory, hdirectory, rfl⟩ | ⟨directory, -, rfl⟩
    · rw [same_pathIn]
      exact h directory hdirectory
    · rw [same_pathIn]
      exact not_same_homeDirectory directory

/-- The usual locations are those of the user and then the one that all users share.  The one in the
directory for configurations comes first, and the one in the home directory next, if it is another.
No location is listed twice, unless the directory for configurations is the one that all users
share. -/
theorem searchPaths_ordered (xdg home : Option String) :
    (∃ user, searchPaths xdg home = user ++ [systemPath] ∧ Path.Distinct user ∧
      (∀ path ∈ user, (∃ directory ∈ xdg, path = pathIn directory) ∨
        ∃ directory ∈ home, path = pathIn (homeDirectory directory)) ∧
      (∀ directory ∈ xdg, user.head? = some (pathIn directory)) ∧
      ∀ directory ∈ home, ∃ before path after, user = before ++ path :: after ∧
        Path.same path (pathIn (homeDirectory directory)) = true ∧
        ∀ other ∈ before, ∃ first ∈ xdg, other = pathIn first) ∧
    (Path.Distinct (searchPaths xdg home) ↔
      ∀ directory ∈ xdg, Path.same directory "/etc" = false) :=
  ⟨⟨userPaths xdg home, searchPaths_eq xdg home, distinct_userPaths xdg home,
    fun _ => mem_userPaths, fun _ => head?_userPaths, fun _ => exists_homePath⟩,
    distinct_searchPaths_iff⟩

/-- The shared location is listed twice when its directory is also the one for configurations. -/
theorem searchPaths_shared :
    searchPaths (some "/etc") none = [systemPath, systemPath] ∧
      ¬ Path.Distinct (searchPaths (some "/etc") none) := by
  have hpaths : searchPaths (some "/etc") none = [systemPath, systemPath] := by
    rw [searchPaths_eq, systemPath_eq]
    rfl
  refine ⟨hpaths, ?_⟩
  rw [hpaths, Path.Distinct, List.pairwise_pair, Path.same_refl]
  exact Bool.noConfusion

end UpdateProtocol.Configuration
