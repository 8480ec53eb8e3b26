import Mathlib.Data.List.Basic
/-! `resolveExecutablePath` of `executor.cpp`, which `executeCommand` applies to a command's
executable before it spawns it, against the search POSIX specifies for `PATH`. Both walk the
`:`-separated entries in order. The code names an entry's file `dir + "/" + command`, so an empty
entry names a file of the root directory, and takes the first file `stat` finds with `S_IXUSR` in
its mode: a directory passes, and a file the user may only run through its group or other bits
does not. -/
namespace AriaShell.Executor

/-- The fields of `struct stat` the code and the POSIX permission check read. -/
structure Stat where
  mode : Nat
  uid : Nat
  gid : Nat
  deriving DecidableEq, Repr

/-- The file system as `stat` reports it, path by path: `none` where `stat` fails. -/
def FileSystem := List Char → Option Stat

/-- `S_IFMT` and `S_IFREG` -/
def ifmt : Nat := 0o170000
def ifreg : Nat := 0o100000

/-- `S_IXUSR`, `S_IXGRP` and `S_IXOTH` -/
def ixusr : Nat := 0o100
def ixgrp : Nat := 0o010
def ixoth : Nat := 0o001

/-- `stat(fullPath.c_str(), &st) == 0 && (st.st_mode & S_IXUSR)` -/
def hasOwnerExecuteBit (fs : FileSystem) (fullPath : List Char) : Bool :=
  match fs fullPath with
  | some st => st.mode &&& ixusr != 0
  | none => false

/-- `resolveExecutablePath`, with `pathEnv` for `getenv("PATH")`. Its loop tests
`dir + "/" + command` for each entry that ends at a `:`, then for the entry after the last one:
the entries of `splitOn ':'`, in order. -/
def resolveExecutablePath (fs : FileSystem) (pathEnv : Option (List Char)) (command : List Char) :
    List Char :=
  if '/' ∈ command then command
  else match pathEnv with
    | none => command
    | some path =>
      (((path.splitOn ':').map fun dir => dir ++ '/' :: command).find? (hasOwnerExecuteBit fs)).getD
        command

/-! ## The POSIX search

Written from POSIX, not from the code: an empty entry is the current directory, and an entry is
taken when it holds a regular file the user may execute. -/

/-- The effective user of the shell: its uid and the groups it is in. -/
structure Credentials where
  uid : Nat
  groups : List Nat
  deriving DecidableEq, Repr

/-- Execute permission on a regular file: any execute bit for the superuser, else the bit of the
owner, group or other class the user falls in. -/
def mayExecute (user : Credentials) (st : Stat) : Bool :=
  st.mode &&& ifmt == ifreg &&
    if user.uid = 0 then st.mode &&& (ixusr ||| ixgrp ||| ixoth) != 0
    else if st.uid = user.uid then st.mode &&& ixusr != 0
    else if st.gid ∈ user.groups then st.mode &&& ixgrp != 0
    else st.mode &&& ixoth != 0

/-- The file a `PATH` entry names for `command`; an empty entry is the current directory. -/
def posixCandidate (command dir : List Char) : List Char :=
  (if dir = [] then ['.'] else dir) ++ '/' :: command

/-- The POSIX search of `PATH` for a command name. -/
def posixLookup (fs : FileSystem) (user : Credentials) (path command : List Char) : List Char :=
  if '/' ∈ command then command
  else (((path.splitOn ':').map (posixCandidate command)).find? fun p => (fs p).any (mayExecute user)).getD
    command

private theorem find?_congr_of_mem {α : Type} {p q : α → Bool} {l : List α} (h : ∀ x ∈ l, p x = q x) :
    l.find? p = l.find? q := by
  induction l with
  | nil => rfl
  | cons x xs ih =>
    simp only [List.find?_cons, h x (List.mem_cons_self _ _),
      ih fun y hy => h y (List.mem_cons_of_mem _ hy)]

section Entries

variable {command : List Char} {dirs : List (List Char)}

private theorem resolveExecutablePath_entries (fs : FileSystem) (hc : '/' ∉ command)
    (hdirs : ∀ d ∈ dirs, ':' ∉ d) (hne : dirs ≠ []) :
    resolveExecutablePath fs (some ([':'].intercalate dirs)) command =
      ((dirs.map (· ++ '/' :: command)).find? (hasOwnerExecuteBit fs)).getD command := by
  rw [resolveExecutablePath, if_neg hc, List.splitOn_intercalate _ _ hdirs hne]

private theorem posixLookup_entries (fs : FileSystem) (user : Credentials) (hc : '/' ∉ command)
    (hdirs : ∀ d ∈ dirs, ':' ∉ d) (hne : dirs ≠ []) :
    posixLookup fs user ([':'].intercalate dirs) command =
      ((dirs.map (posixCandidate command)).find? fun p => (fs p).any (mayExecute user)).getD command := by
  rw [posixLookup, if_neg hc, List.splitOn_intercalate _ _ hdirs hne]

private theorem resolveExecutablePath_eq_posixLookup (fs : FileSystem) (user : Credentials)
    (hc : '/' ∉ command) (hdirs : ∀ d ∈ dirs, ':' ∉ d) (hne : dirs ≠ [])
    (hagree : ∀ d ∈ dirs, d ≠ [] ∧
      hasOwnerExecuteBit fs (d ++ '/' :: command) = (fs (d ++ '/' :: command)).any (mayExecute user)) :
    resolveExecutablePath fs (some ([':'].intercalate dirs)) command =
      posixLookup fs user ([':'].intercalate dirs) command := by
  have hmap : dirs.map (posixCandidate command) = dirs.map (· ++ '/' :: command) :=
    List.map_congr_left fun d hd => by simp [posixCandidate, (hagree d hd).1]
  rw [resolveExecutablePath_entries fs hc hdirs hne, posixLookup_entries fs user hc hdirs hne, hmap,
    find?_congr_of_mem]
  simp only [List.mem_map]
  rintro _ ⟨d, hd, rfl⟩
  exact (hagree d hd).2

private theorem resolveExecutablePath_skips (fs : FileSystem) (hc : '/' ∉ command) (hdirs : ∀ d ∈ dirs, ':' ∉ d)
    {l₁ l₂ : List (List Char)} {d : List Char} (hsplit : dirs = l₁ ++ d :: l₂) (hne : l₁ ++ l₂ ≠ [])
    (hd : hasOwnerExecuteBit fs (d ++ '/' :: command) = false) :
    resolveExecutablePath fs (some ([':'].intercalate dirs)) command =
      resolveExecutablePath fs (some ([':'].intercalate (l₁ ++ l₂))) command := by
  subst hsplit
  have hsub : ∀ x ∈ l₁ ++ l₂, ':' ∉ x := fun x hx => hdirs x (by simp only [List.mem_append, List.mem_cons] at hx ⊢; tauto)
  rw [resolveExecutablePath_entries fs hc hdirs (by simp), resolveExecutablePath_entries fs hc hsub hne]
  simp only [List.map_append, List.map_cons, List.find?_append, List.find?_cons, hd]

private theorem resolveExecutablePath_ownerBit (fs : FileSystem) (pathEnv : Option (List Char))
    (h : resolveExecutablePath fs pathEnv command ≠ command) :
    hasOwnerExecuteBit fs (resolveExecutablePath fs pathEnv command) = true := by
  unfold resolveExecutablePath at h ⊢
  split_ifs at h ⊢
  · exact absurd rfl h
  rcases pathEnv with _ | path
  · exact absurd rfl h
  dsimp only at h ⊢
  rcases hf : List.find? (hasOwnerExecuteBit fs) ((path.splitOn ':').map fun dir => dir ++ '/' :: command) with _ | r
  · rw [hf] at h; exact absurd rfl h
  · exact List.find?_some hf

/-- For every `PATH` whose entries hold no `:`, the two searches walk the same entries in the same
order; they differ in the file an entry names and in the test it must pass, and only there. So an
entry whose file lacks `S_IXUSR` is skipped, whatever POSIX allows; an empty entry names `/command`
for the code and `./command` for POSIX; and whatever the code returns, other than the command
itself, has `S_IXUSR` in its mode, a directory included. -/
theorem resolveExecutablePath_owner_bit_search (fs : FileSystem) (user : Credentials)
    (command : List Char) (dirs : List (List Char)) (hc : '/' ∉ command)
    (hdirs : ∀ d ∈ dirs, ':' ∉ d) (hne : dirs ≠ []) :
    resolveExecutablePath fs (some ([':'].intercalate dirs)) command =
        ((dirs.map (· ++ '/' :: command)).find? (hasOwnerExecuteBit fs)).getD command ∧
      posixLookup fs user ([':'].intercalate dirs) command =
        ((dirs.map (posixCandidate command)).find? fun p => (fs p).any (mayExecute user)).getD command ∧
      ((∀ d ∈ dirs, d ≠ [] ∧ hasOwnerExecuteBit fs (d ++ '/' :: command) =
          (fs (d ++ '/' :: command)).any (mayExecute user)) →
        resolveExecutablePath fs (some ([':'].intercalate dirs)) command =
          posixLookup fs user ([':'].intercalate dirs) command) ∧
      (∀ l₁ d l₂, dirs = l₁ ++ d :: l₂ → l₁ ++ l₂ ≠ [] → hasOwnerExecuteBit fs (d ++ '/' :: command) = false →
        resolveExecutablePath fs (some ([':'].intercalate dirs)) command =
          resolveExecutablePath fs (some ([':'].intercalate (l₁ ++ l₂))) command) ∧
      (∀ rest, dirs = [] :: rest →
        (hasOwnerExecuteBit fs ('/' :: command) = true →
          resolveExecutablePath fs (some ([':'].intercalate dirs)) command = '/' :: command) ∧
        ((fs ('.' :: '/' :: command)).any (mayExecute user) = true →
          posixLookup fs user ([':'].intercalate dirs) command = '.' :: '/' :: command)) ∧
      (resolveExecutablePath fs (some ([':'].intercalate dirs)) command ≠ command →
        hasOwnerExecuteBit fs (resolveExecutablePath fs (some ([':'].intercalate dirs)) command) = true) := by
  refine ⟨resolveExecutablePath_entries fs hc hdirs hne, posixLookup_entries fs user hc hdirs hne,
    resolveExecutablePath_eq_posixLookup fs user hc hdirs hne,
    fun _ _ _ hsplit hne' hd => resolveExecutablePath_skips fs hc hdirs hsplit hne' hd,
    fun rest hrest => ⟨fun hbit => ?_, fun hx => ?_⟩, resolveExecutablePath_ownerBit fs _⟩
  · rw [resolveExecutablePath_entries fs hc hdirs hne, hrest]
    simp [List.find?_cons, hbit]
  · rw [posixLookup_entries fs user hc hdirs hne, hrest]
    simp [List.find?_cons, posixCandidate, hx]

/-- `/tool` and `/usr/bin/tool` are programs of root's, `/usr/local/bin/tool` is a directory, and
`/opt/bin/tool` may be run by the members of group 100 only. -/
def sampleFileSystem : FileSystem := fun p =>
  if p = "/tool".toList ∨ p = "/usr/bin/tool".toList then some ⟨0o100755, 0, 0⟩
  else if p = "/usr/local/bin/tool".toList then some ⟨0o040755, 0, 0⟩
  else if p = "/opt/bin/tool".toList then some ⟨0o100010, 0, 100⟩
  else none

/-- A user of group 100 runs `tool` with `PATH` set to `:/usr/bin`, to
`/usr/local/bin:/usr/bin` and to `/opt/bin`: the code takes the root's `/tool`, then the directory,
then nothing, where POSIX takes `/usr/bin/tool` twice, then `/opt/bin/tool`. -/
theorem resolveExecutablePath_owner_bit_search_tool :
    (resolveExecutablePath sampleFileSystem (some ":/usr/bin".toList) "tool".toList = "/tool".toList ∧
      posixLookup sampleFileSystem ⟨1000, [100]⟩ ":/usr/bin".toList "tool".toList =
        "/usr/bin/tool".toList) ∧
    (resolveExecutablePath sampleFileSystem (some "/usr/local/bin:/usr/bin".toList) "tool".toList =
        "/usr/local/bin/tool".toList ∧
      posixLookup sampleFileSystem ⟨1000, [100]⟩ "/usr/local/bin:/usr/bin".toList "tool".toList =
        "/usr/bin/tool".toList) ∧
    (resolveExecutablePath sampleFileSystem (some "/opt/bin".toList) "tool".toList = "tool".toList ∧
      posixLookup sampleFileSystem ⟨1000, [100]⟩ "/opt/bin".toList "tool".toList =
        "/opt/bin/tool".toList) := by
  obtain ⟨h1, h2, -⟩ := resolveExecutablePath_owner_bit_search sampleFileSystem ⟨1000, [100]⟩
    "tool".toList ["".toList, "/usr/bin".toList] (by decide) (by decide) (by simp)
  obtain ⟨h3, h4, -⟩ := resolveExecutablePath_owner_bit_search sampleFileSystem ⟨1000, [100]⟩
    "tool".toList ["/usr/local/bin".toList, "/usr/bin".toList] (by decide) (by decide) (by simp)
  obtain ⟨h5, h6, -⟩ := resolveExecutablePath_owner_bit_search sampleFileSystem ⟨1000, [100]⟩
    "tool".toList ["/opt/bin".toList] (by decide) (by decide) (by simp)
  exact ⟨⟨h1.trans (by decide), h2.trans (by decide)⟩, ⟨h3.trans (by decide), h4.trans (by decide)⟩,
    h5.trans (by decide), h6.trans (by decide)⟩

end Entries

end AriaShell.Executor
