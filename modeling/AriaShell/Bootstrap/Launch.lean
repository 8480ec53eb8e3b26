import AriaShell.Bootstrap.HandleMap

/-! How the parent hands the handle map to the child, in an environment variable or in a
command-line flag, and how the child reads it back. -/
namespace AriaShell.Bootstrap

/-- The copy loop of `buildEnvironmentBlock`,
`while (*p) { len = wcslen(p); copy p[0 .. len]; p += len + 1; }`: `atStart` says whether `p`
points at the start of an entry, where a NUL ends the block. -/
def copyEnvironment (atStart : Bool) : List Char → List Char
  | [] => []
  | c :: rest => if atStart = true ∧ c = '\x00' then [] else c :: copyEnvironment (c = '\x00') rest

/-- `WindowsBootstrap::buildEnvironmentBlock`: the parent's block (`none` when
`GetEnvironmentStringsW` fails) copied entry by entry, then `__ARIA_FD_MAP=` and the map text with
its NUL, then the final NUL of the block. -/
def buildEnvironmentBlock (envBlock : Option (List Char)) (handles : WindowsHandleMap) : List Char :=
  match envBlock with
  | none => []
  | some env =>
    copyEnvironment true env ++ ("__ARIA_FD_MAP=".toList ++ handles.serialize) ++ ['\x00'] ++ ['\x00']

def buildCommandLineWithFlag (cmdLine : List Char) (handles : WindowsHandleMap) : List Char :=
  cmdLine ++ " --aria-fd-map=".toList ++ handles.serialize

/-- The `value` that `parseFromCommandLine` hands to `parse`: from just after the first
`--aria-fd-map=` (fourteen characters) up to the next space or the end; `none` when the flag is
absent. -/
def commandLineValue (cmdLineStr : List Char) : Option (List Char) :=
  (findSubstring "--aria-fd-map=".toList cmdLineStr).map fun pos =>
    let valueStart := pos + 14
    let valueEnd :=
      ((findSubstring [' '] (cmdLineStr.drop valueStart)).map (· + valueStart)).getD cmdLineStr.length
    (cmdLineStr.drop valueStart).take (valueEnd - valueStart)

/-- `WindowsHandleMapConsumer::parseFromCommandLine` on what `GetCommandLineW` returns (`none` for
a null pointer). -/
def parseFromCommandLine (cmdLine : Option (List Char)) : WindowsHandleMap :=
  match cmdLine.bind commandLineValue with
  | none => {}
  | some value => (({} : WindowsHandleMap).parse value).2

/-- `WindowsHandleMapConsumer::parseFromEnvironment` on the value `GetEnvironmentVariableW` finds
for `__ARIA_FD_MAP` (`none` when unset). A value that does not fit the 2048-character buffer with
its NUL makes the call return the size it needs, and is not parsed. -/
def parseFromEnvironment (value : Option (List Char)) : WindowsHandleMap :=
  let result := match value with
    | none => 0
    | some v => if v.length < 2048 then v.length else v.length + 1
  if 0 < result ∧ result < 2048 then (({} : WindowsHandleMap).parse (value.getD [])).2 else {}

/-! ### Environment blocks -/

/-- A block as `CreateProcessW` reads it: each entry followed by a NUL, then one more NUL. -/
def encodeBlock (entries : List (List Char)) : List Char :=
  entries.flatMap (· ++ ['\x00']) ++ ['\x00']

/-- An entry of a block: not empty, and without NUL. -/
def ValidEntry (e : List Char) : Prop := e ≠ [] ∧ '\x00' ∉ e

instance : DecidablePred ValidEntry := fun e => inferInstanceAs (Decidable (e ≠ [] ∧ '\x00' ∉ e))

/-- Whether an entry sets the variable `name`. -/
def namedEntry (name e : List Char) : Bool := (name ++ ['=']).isPrefixOf e

/-- The entry `buildEnvironmentBlock` adds. -/
def fdMapEntry (handles : WindowsHandleMap) : List Char := "__ARIA_FD_MAP=".toList ++ handles.serialize

private theorem copyEnvironment_entry {e : List Char} (he : '\x00' ∉ e) (rest : List Char) :
    copyEnvironment false (e ++ '\x00' :: rest) = e ++ '\x00' :: copyEnvironment true rest := by
  induction e with
  | nil => simp [copyEnvironment]
  | cons c e ih =>
    have hc : c ≠ '\x00' := fun h => he (h ▸ List.mem_cons_self _ _)
    simp [copyEnvironment, hc, ih (fun h => he (List.mem_cons_of_mem _ h))]

private theorem copyEnvironment_encodeBlock {E : List (List Char)} (hE : ∀ e ∈ E, ValidEntry e) :
    copyEnvironment true (encodeBlock E) = E.flatMap (· ++ ['\x00']) := by
  induction E with
  | nil => rfl
  | cons e E ih =>
    obtain ⟨hne, hnul⟩ := hE e (List.mem_cons_self _ _)
    obtain ⟨c, e, rfl⟩ := List.exists_cons_of_ne_nil hne
    have hc : c ≠ '\x00' := fun h => hnul (h ▸ List.mem_cons_self _ _)
    have he : '\x00' ∉ e := fun h => hnul (List.mem_cons_of_mem _ h)
    simp only [encodeBlock, List.flatMap_cons, List.append_assoc, List.cons_append,
      List.singleton_append] at ih ⊢
    simp [copyEnvironment, hc, copyEnvironment_entry he, ih fun e' h => hE e' (List.mem_cons_of_mem _ h)]

private theorem fdMapEntry_valid (handles : WindowsHandleMap) : ValidEntry (fdMapEntry handles) := by
  refine ⟨by simp [fdMapEntry], fun h => ?_⟩
  rcases List.mem_append.mp h with h | h
  · exact absurd h (by decide)
  · exact absurd (WindowsHandleMap.serialize_mem handles _ h) (by decide)

private theorem buildEnvironmentBlock_encodeBlock {E : List (List Char)} (hE : ∀ e ∈ E, ValidEntry e)
    (handles : WindowsHandleMap) :
    buildEnvironmentBlock (some (encodeBlock E)) handles = encodeBlock (E ++ [fdMapEntry handles]) := by
  simp only [buildEnvironmentBlock]
  rw [copyEnvironment_encodeBlock hE]
  simp [encodeBlock, fdMapEntry]

/-! ### The command-line flag -/

private theorem commandLineValue_eq (s : List Char) :
    commandLineValue s = (findSubstring "--aria-fd-map=".toList s).map
      fun pos => (s.drop (pos + 14)).takeWhile (· ≠ ' ') := by
  unfold commandLineValue
  cases hpos : findSubstring "--aria-fd-map=".toList s with
  | none => rfl
  | some pos =>
    have hle : pos + 14 ≤ s.length := findSubstring_bound hpos
    simp only [Option.map_some']
    rw [← take_findSubstring_singleton]
    congr 2
    cases findSubstring [' '] (s.drop (pos + 14)) <;> simp [List.length_drop]

private theorem commandLineValue_buildCommandLineWithFlag (L : List Char) (handles : WindowsHandleMap) :
    commandLineValue (buildCommandLineWithFlag L handles) =
      some ((commandLineValue L).getD handles.serialize) := by
  have hbuild : buildCommandLineWithFlag L handles =
      L ++ ' ' :: ("--aria-fd-map=".toList ++ handles.serialize) := by
    simp [buildCommandLineWithFlag]
  have hfind := @findSubstring_append "--aria-fd-map=".toList L
    ("--aria-fd-map=".toList ++ handles.serialize) ' ' (by decide) (by decide)
  have hflag : findSubstring "--aria-fd-map=".toList ("--aria-fd-map=".toList ++ handles.serialize) =
      some 0 := findSubstring_eq_some_zero (by simp [List.isPrefixOf_iff_prefix])
  rw [hflag] at hfind
  rw [commandLineValue_eq, commandLineValue_eq, hbuild, hfind]
  cases hpos : findSubstring "--aria-fd-map=".toList L with
  | none =>
    have hsp : ∀ c ∈ handles.serialize, decide (c ≠ ' ') = true := by
      intro c hc
      have := WindowsHandleMap.serialize_mem handles c hc
      rw [decide_eq_true_eq]
      rintro rfl
      exact absurd this (by decide)
    simp only [Option.none_or, Option.map_some', Option.map_none', Option.getD_none, Nat.zero_add,
      Nat.add_assoc]
    rw [List.drop_append]
    exact congrArg some (List.takeWhile_eq_self_iff.mpr hsp)
  | some pos =>
    have hle : pos + 14 ≤ L.length := findSubstring_bound hpos
    simp only [Option.or_some, Option.map_some', Option.getD_some]
    rw [List.drop_append_of_le_length hle, takeWhile_append_cons_of_eq]

/-! ### What the child reads -/

private theorem namedEntry_fdMapEntry (handles : WindowsHandleMap) :
    namedEntry "__ARIA_FD_MAP".toList (fdMapEntry handles) = true :=
  List.isPrefixOf_iff_prefix.mpr (List.prefix_append _ _)

/-- The child's block is the parent's entries followed by the map's entry, every one well formed,
so an `__ARIA_FD_MAP` the parent already had stays beside the new one; and the value the child
reads from the command line is the parent's own flag value when its command line has one, the
map text only when it has none. -/
theorem fdMap_kept_beside_parent_and_flag_shadowed {E : List (List Char)}
    (hE : ∀ e ∈ E, ValidEntry e) (handles : WindowsHandleMap) (L : List Char) :
    buildEnvironmentBlock (some (encodeBlock E)) handles = encodeBlock (E ++ [fdMapEntry handles]) ∧
    (∀ e ∈ E ++ [fdMapEntry handles], ValidEntry e) ∧
    ((E ++ [fdMapEntry handles]).filter (namedEntry "__ARIA_FD_MAP".toList)).length =
      (E.filter (namedEntry "__ARIA_FD_MAP".toList)).length + 1 ∧
    commandLineValue (buildCommandLineWithFlag L handles) =
      some ((commandLineValue L).getD handles.serialize) := by
  refine ⟨buildEnvironmentBlock_encodeBlock hE handles, fun e he => ?_, ?_,
    commandLineValue_buildCommandLineWithFlag L handles⟩
  · rcases List.mem_append.mp he with he | he
    · exact hE e he
    · exact List.mem_singleton.mp he ▸ fdMapEntry_valid handles
  · rw [List.filter_append, List.length_append, List.filter_cons_of_pos (namedEntry_fdMapEntry handles),
      List.filter_nil]
    rfl

theorem fdMap_kept_beside_parent_and_flag_shadowed_relaunch :
    (∀ e ∈ ["__ARIA_FD_MAP=3:0x1A4".toList], ValidEntry e) ∧
    buildEnvironmentBlock (some (encodeBlock ["__ARIA_FD_MAP=3:0x1A4".toList])) { hStdDbg := 0x1B8 } =
      encodeBlock (["__ARIA_FD_MAP=3:0x1A4".toList] ++ [fdMapEntry { hStdDbg := 0x1B8 }]) ∧
    (∀ e ∈ ["__ARIA_FD_MAP=3:0x1A4".toList] ++ [fdMapEntry { hStdDbg := 0x1B8 }], ValidEntry e) ∧
    ((["__ARIA_FD_MAP=3:0x1A4".toList] ++ [fdMapEntry { hStdDbg := 0x1B8 }]).filter
        (namedEntry "__ARIA_FD_MAP".toList)).length =
      (["__ARIA_FD_MAP=3:0x1A4".toList].filter (namedEntry "__ARIA_FD_MAP".toList)).length + 1 ∧
    commandLineValue (buildCommandLineWithFlag "ariash --aria-fd-map=3:0x1A4".toList { hStdDbg := 0x1B8 }) =
      some ((commandLineValue "ariash --aria-fd-map=3:0x1A4".toList).getD
        (WindowsHandleMap.serialize { hStdDbg := 0x1B8 })) :=
  ⟨by decide, fdMap_kept_beside_parent_and_flag_shadowed (by decide) _ _⟩

end AriaShell.Bootstrap
