import ElmAtlas.Manifest.Load
import ElmAtlas.Proofs.Text.Pieces

/-!
# Packages named by their repositories

A legacy package has the name that the address of its repository ends in.  Which
addresses name a package, and which one, is told here without the trimming and the
cutting that find the name: an author and a project stand at the end, `.git` and
slashes behind them do not count, and what stands before them ends in a slash.
-/

namespace ElmAtlas.Manifest

def gitSuffix : List Char :=
  ['.', 'g', 'i', 't']

/-- What does not count at the end of an address. -/
def addressEnd (suffixes slashes : Nat) : List Char :=
  (List.replicate suffixes gitSuffix).flatten ++ List.replicate slashes '/'

/-- An address without its end. -/
def trimmedAddress (address : List Char) : List Char :=
  (dropGitSuffix (address.reverse.dropWhile (· == '/'))).reverse

theorem dropGitSuffix_eq_self {characters : List Char}
    (other : ¬gitSuffix.reverse <+: characters) : dropGitSuffix characters = characters := by
  rw [dropGitSuffix.eq_def]
  split
  · exact absurd (List.prefix_append gitSuffix.reverse _) other
  · rfl

private theorem dropGitSuffix_flatten_append (suffixes : Nat) (rest : List Char) :
    dropGitSuffix ((List.replicate suffixes gitSuffix.reverse).flatten ++ rest) =
      dropGitSuffix rest := by
  induction suffixes with
  | zero => rfl
  | succ suffixes induction =>
      rw [List.replicate_succ, List.flatten_cons, List.append_assoc]
      exact induction

private theorem exists_dropGitSuffix (characters : List Char) :
    ¬gitSuffix.reverse <+: dropGitSuffix characters ∧
      ∃ suffixes, characters =
        (List.replicate suffixes gitSuffix.reverse).flatten ++ dropGitSuffix characters := by
  fun_induction dropGitSuffix characters with
  | case1 rest induction =>
      obtain ⟨ended, suffixes, whole⟩ := induction
      refine ⟨ended, suffixes + 1, ?_⟩
      rw [List.replicate_succ, List.flatten_cons, List.append_assoc, ← whole]
      rfl
  | case2 characters other =>
      refine ⟨?_, 0, rfl⟩
      rintro ⟨rest, whole⟩
      exact other rest whole.symm

theorem reverse_flatten_replicate (count : Nat) (piece : List Char) :
    (List.replicate count piece).flatten.reverse =
      (List.replicate count piece.reverse).flatten := by
  rw [List.reverse_flatten, List.map_replicate, List.reverse_replicate]

/-- Trimming takes an end away and leaves no `.git`. -/
private theorem exists_trimmedAddress (address : List Char) :
    ¬gitSuffix <:+ trimmedAddress address ∧
      ∃ suffixes slashes, address = trimmedAddress address ++ addressEnd suffixes slashes := by
  obtain ⟨ended, suffixes, inner⟩ :=
    exists_dropGitSuffix (address.reverse.dropWhile (· == '/'))
  refine ⟨?_, suffixes, (address.reverse.takeWhile (· == '/')).length, ?_⟩
  · rwa [trimmedAddress, ← List.reverse_prefix, List.reverse_reverse]
  · have slashes : address.reverse.takeWhile (· == '/') =
        List.replicate (address.reverse.takeWhile (· == '/')).length '/' := by
      refine List.eq_replicate_of_mem fun character member => ?_
      simpa using List.mem_takeWhile_imp member
    calc
      address = (address.reverse.takeWhile (· == '/') ++
          address.reverse.dropWhile (· == '/')).reverse := by
        rw [List.takeWhile_append_dropWhile, List.reverse_reverse]
      _ = (List.replicate (address.reverse.takeWhile (· == '/')).length '/' ++
          ((List.replicate suffixes gitSuffix.reverse).flatten ++
            dropGitSuffix (address.reverse.dropWhile (· == '/')))).reverse := by
        rw [← slashes, ← inner]
      _ = _ := by
        simp [addressEnd, trimmedAddress, reverse_flatten_replicate]

private theorem trimmedAddress_append {core : List Char} (noGit : ¬gitSuffix <:+ core)
    (noSlash : core.getLast? ≠ some '/') (suffixes slashes : Nat) :
    trimmedAddress (core ++ addressEnd suffixes slashes) = core := by
  have kept : ((List.replicate suffixes gitSuffix.reverse).flatten ++ core.reverse).dropWhile
      (· == '/') = (List.replicate suffixes gitSuffix.reverse).flatten ++ core.reverse := by
    cases suffixes with
    | zero =>
        rw [List.replicate_zero, List.flatten_nil, List.nil_append]
        rw [← List.head?_reverse] at noSlash
        cases reversed : core.reverse with
        | nil => rfl
        | cons last earlier =>
            rw [reversed, List.head?_cons] at noSlash
            exact List.dropWhile_cons_of_neg (by simpa using noSlash)
    | succ suffixes =>
        rw [List.replicate_succ, List.flatten_cons]
        exact List.dropWhile_cons_of_neg (by decide)
  have noReversedGit : ¬gitSuffix.reverse <+: core.reverse := by
    rwa [List.reverse_prefix]
  rw [trimmedAddress, addressEnd, List.reverse_append, List.reverse_append,
    reverse_flatten_replicate, List.reverse_replicate, List.append_assoc,
    List.dropWhile_append_of_pos (by simp), kept, dropGitSuffix_flatten_append,
    dropGitSuffix_eq_self noReversedGit, List.reverse_reverse]

/-- What stands before the author. -/
def IsLead (lead : List Char) : Prop :=
  lead = [] ∨ lead.getLast? = some '/'

theorem split_author_project {author project : List Char} (authorFree : '/' ∉ author)
    (projectFree : '/' ∉ project) :
    Text.split (· == '/') (author ++ '/' :: project) = [author, project] := by
  rw [Text.split_append_cons rfl, Text.split_of_free authorFree, Text.split_of_free projectFree]
  rfl

/-- The last two pieces of a text and what stands before them. -/
theorem exists_split_eq_append {characters author project : List Char} :
    (∃ front, Text.split (· == '/') characters = front ++ [author, project]) ↔
      '/' ∉ author ∧ '/' ∉ project ∧
      ∃ lead, IsLead lead ∧ characters = lead ++ author ++ '/' :: project := by
  constructor
  · rintro ⟨front, cut⟩
    have free : ∀ piece ∈ front ++ [author, project], '/' ∉ piece := by
      intro piece listed slash
      rw [← cut] at listed
      have outside := (Text.of_mem_split listed slash).2
      cases outside
    have authorFree := free author (by simp)
    have projectFree := free project (by simp)
    have whole := (Text.split_eq_iff (by simp) free).1 cut
    refine ⟨authorFree, projectFree, ?_⟩
    by_cases alone : front = []
    · refine ⟨[], .inl rfl, ?_⟩
      rw [whole, alone]
      simp [Text.join]
    · -- The text with the other pieces in front is cut in the same way.
      have others : Text.split (· == '/') (Text.join ['/'] front) = front :=
        (Text.split_eq_iff alone fun piece listed => free piece (by simp [listed])).2 rfl
      have again : Text.split (· == '/')
          (Text.join ['/'] front ++ '/' :: (author ++ '/' :: project)) =
            front ++ [author, project] := by
        rw [Text.split_append_cons rfl, others, split_author_project authorFree projectFree]
      refine ⟨Text.join ['/'] front ++ ['/'], .inr (by simp), ?_⟩
      rw [whole, ← (Text.split_eq_iff (by simp) free).1 again]
      simp
  · rintro ⟨authorFree, projectFree, lead, empty | ended, rfl⟩
    · refine ⟨[], ?_⟩
      rw [empty, List.nil_append, split_author_project authorFree projectFree, List.nil_append]
    · obtain ⟨front, rfl⟩ := List.getLast?_eq_some_iff.1 ended
      refine ⟨Text.split (· == '/') front, ?_⟩
      rw [List.append_assoc, List.append_assoc, List.singleton_append, Text.split_append_cons rfl,
        split_author_project authorFree projectFree]

/-- An address that ends in an author and a project. -/
structure Addresses (address author project : List Char) : Prop where
  author_nonempty : author ≠ []
  author_free : '/' ∉ author ∧ ':' ∉ author
  project_nonempty : project ≠ []
  project_free : '/' ∉ project ∧ ¬gitSuffix <:+ project
  whole : ∃ lead suffixes slashes, IsLead lead ∧
    address = lead ++ author ++ '/' :: project ++ addressEnd suffixes slashes

/-- A suffix without a slash does not reach over one. -/
private theorem suffix_of_suffix_append_cons {suffix front behind : List Char} (free : '/' ∉ suffix)
    (ends : suffix <:+ front ++ '/' :: behind) : suffix <:+ behind := by
  rcases List.suffix_or_suffix_of_suffix ends (List.suffix_append front ('/' :: behind)) with
    inside | outside
  · rcases List.suffix_cons_iff.1 inside with rfl | short
    · simp at free
    · exact short
  · exact absurd (outside.subset List.mem_cons_self) free

theorem packageNameOf?_eq_some {repository name : String} :
    packageNameOf? repository = some name ↔
      ∃ author project, Addresses repository.toList author project ∧
        name = String.ofList (author ++ ['/'] ++ project) := by
  constructor
  · intro found
    unfold packageNameOf? at found
    dsimp only at found
    split at found
    · rename_i project author others pieces
      change (Text.split _ (trimmedAddress repository.toList)).reverse = _ at pieces
      split at found
      · cases found
      · rename_i named
        simp only [Bool.or_eq_true, List.isEmpty_iff, List.contains_iff_mem, not_or] at named
        obtain ⟨⟨projectNonempty, authorNonempty⟩, noColon⟩ := named
        rw [List.reverse_eq_iff, List.reverse_cons, List.reverse_cons, List.append_assoc] at pieces
        obtain ⟨authorFree, projectFree, lead, leads, core⟩ :=
          exists_split_eq_append.1 ⟨_, pieces⟩
        obtain ⟨noGit, suffixes, slashes, whole⟩ := exists_trimmedAddress repository.toList
        rw [core] at noGit whole
        refine ⟨author, project, ⟨authorNonempty, ⟨authorFree, noColon⟩, projectNonempty,
          ⟨projectFree, fun ends => noGit ?_⟩, lead, suffixes, slashes, leads, whole⟩,
          (Option.some.inj found).symm⟩
        exact (ends.trans (List.suffix_cons _ _)).trans (List.suffix_append _ _)
    · cases found
  · rintro ⟨author, project, address, rfl⟩
    obtain ⟨lead, suffixes, slashes, leads, whole⟩ := address.whole
    have noGit : ¬gitSuffix <:+ lead ++ author ++ '/' :: project := fun ends =>
      address.project_free.2 (suffix_of_suffix_append_cons (by decide) ends)
    have noSlash : (lead ++ author ++ '/' :: project).getLast? ≠ some '/' := by
      intro last
      rw [List.getLast?_append_of_ne_nil _ (by simp), List.getLast?_cons_of_ne_nil
        address.project_nonempty] at last
      exact address.project_free.1 (List.mem_of_getLast? last)
    obtain ⟨front, pieces⟩ := exists_split_eq_append.2
      ⟨address.author_free.1, address.project_free.1, lead, leads, rfl⟩
    have trimmed : trimmedAddress repository.toList = lead ++ author ++ '/' :: project := by
      rw [whole, trimmedAddress_append noGit noSlash]
    rw [← trimmed, trimmedAddress] at pieces
    unfold packageNameOf?
    dsimp only
    rw [pieces]
    simp [address.author_nonempty, address.project_nonempty, address.author_free.2]

theorem isValid_ofList {author project : List Char} (authorNonempty : author ≠ [])
    (authorFree : '/' ∉ author) (projectNonempty : project ≠ []) (projectFree : '/' ∉ project) :
    PackageName.isValid (String.ofList (author ++ ['/'] ++ project)) = true := by
  rw [PackageName.isValid, String.toList_ofList, List.append_assoc, List.singleton_append,
    Text.splitOnce_append authorFree]
  simp [authorNonempty, projectNonempty, projectFree]

/-- A name that is taken from an address is a package name.  Every address that ends in
an author and a project names the package of both, with or without `.git` and with any
number of slashes behind it. -/
theorem repository_names_package :
    (∀ repository name, packageNameOf? repository = some name →
      PackageName.isValid name = true) ∧
    ∀ (lead author project suffix : String) (slashes : Nat),
      (lead = "" ∨ lead.toList.getLast? = some '/') →
      author ≠ "" → '/' ∉ author.toList → ':' ∉ author.toList →
      project ≠ "" → '/' ∉ project.toList → ¬".git".toList <:+ project.toList →
      (suffix = "" ∨ suffix = ".git") →
      packageNameOf? (lead ++ author ++ "/" ++ project ++ suffix ++
        String.ofList (List.replicate slashes '/')) = some (author ++ "/" ++ project) := by
  constructor
  · intro repository name found
    obtain ⟨author, project, address, rfl⟩ := packageNameOf?_eq_some.1 found
    exact isValid_ofList address.author_nonempty address.author_free.1
      address.project_nonempty address.project_free.1
  · intro lead author project suffix slashes leads authorNonempty authorFree noColon
      projectNonempty projectFree noGit suffixed
    refine packageNameOf?_eq_some.2 ⟨author.toList, project.toList, ?_, ?_⟩
    · refine ⟨by simpa using authorNonempty, ⟨authorFree, noColon⟩, by simpa using projectNonempty,
        ⟨projectFree, noGit⟩, lead.toList, if suffix = "" then 0 else 1, slashes, ?_, ?_⟩
      · exact leads.imp_left fun empty => by simp [empty]
      · rcases suffixed with rfl | rfl <;> simp [addressEnd, gitSuffix]
    · apply String.toList_injective
      simp

/-- An author called `.git`, a project that only begins like a suffix, and an end of
both kinds. -/
theorem repository_names_package_gitAuthor :
    packageNameOf? "ssh://git@host:7/.git/.gitlab.git//" = some ".git/.gitlab" ∧
      PackageName.isValid ".git/.gitlab" = true := by
  have named : packageNameOf? ("ssh://git@host:7/" ++ ".git" ++ "/" ++ ".gitlab" ++ ".git" ++
      String.ofList (List.replicate 2 '/')) = some (".git" ++ "/" ++ ".gitlab") :=
    repository_names_package.2 "ssh://git@host:7/" ".git" ".gitlab" ".git" 2 (.inr (by decide))
      (by decide) (by decide) (by decide) (by decide) (by decide) (by decide) (.inr rfl)
  exact ⟨named, repository_names_package.1 _ _ named⟩

end ElmAtlas.Manifest
