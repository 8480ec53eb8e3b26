import AriaShell.Bootstrap.Launch
/-! The command line a Windows child is started with, and how the child splits it into `argv`.
`spawnWindows` writes the executable as it is and each argument between double quotes, with
nothing escaped; `CommandLineToArgvW` reads that back as written only for an executable without
blank or leading quote and for arguments without quote or trailing backslash. -/
namespace AriaShell.Bootstrap

/-- The fields of `ProcessConfig` that `HexStreamProcess::spawnWindows` reads. -/
structure ProcessConfig where
  executable : List Char
  arguments : List (List Char)
  useEnvBootstrap : Bool := true
  deriving DecidableEq, Repr

/-- The command line `HexStreamProcess::spawnWindows` builds:
`cmdLine << executable; for (arg : arguments) cmdLine << L" \"" << arg << L"\""`. -/
def spawnCommandLine (config : ProcessConfig) : List Char :=
  config.executable ++ config.arguments.flatMap fun arg => ' ' :: '"' :: (arg ++ ['"'])

/-- The command line `WindowsBootstrap::launchProcess` passes to `CreateProcessW`: the map goes
in the flag only when it does not go in the environment. -/
def launchCommandLine (commandLine : List Char) (useEnvVar : Bool) (handles : WindowsHandleMap) :
    List Char :=
  if useEnvVar then commandLine else buildCommandLineWithFlag commandLine handles

/-- The command line a child of `spawnWindows` is started with. -/
def spawnWindowsCommandLine (config : ProcessConfig) (handles : WindowsHandleMap) : List Char :=
  launchCommandLine (spawnCommandLine config) config.useEnvBootstrap handles

/-! ### `CommandLineToArgvW`

The rules its documentation gives, in the order of the reference loop: the program name ends at
the next quote after an opening quote and otherwise at the first blank; later, a blank outside
quotes ends an argument, `2n` backslashes and a quote give `n` backslashes and open or close a
quoted part, `2n + 1` backslashes and a quote give `n` backslashes and a literal quote, and
backslashes before anything else are literal. -/

/-- Space and tab: the characters that end an argument outside quotes. -/
def isBlank (c : Char) : Bool := c == ' ' || c == '\t'

/-- `n` backslashes. -/
def backslashes (n : Nat) : List Char := List.replicate n '\\'

/-- The program name and the rest of the line after it. -/
def programName (s : List Char) : List Char × List Char :=
  if s.head? = some '"' then
    ((s.drop 1).takeWhile (· != '"'), ((s.drop 1).dropWhile (· != '"')).drop 1)
  else (s.takeWhile fun c => !isBlank c, s.dropWhile fun c => !isBlank c)

/-- The arguments after the program name. `w` is the argument being read (`none` between
arguments), `n` the backslashes read and not yet placed, `quoted` whether a quoted part is open. -/
def splitArguments (quoted : Bool) (n : Nat) (w : Option (List Char)) : List Char → List (List Char)
  | [] => match w with
    | none => []
    | some w => [w ++ backslashes n]
  | c :: s =>
    if isBlank c && !quoted then
      match w with
      | none => splitArguments quoted 0 none s
      | some w => (w ++ backslashes n) :: splitArguments quoted 0 none s
    else if c = '\\' then splitArguments quoted (n + 1) (some (w.getD [])) s
    else if c = '"' then
      if n % 2 = 0 then splitArguments (!quoted) 0 (some (w.getD [] ++ backslashes (n / 2))) s
      else splitArguments quoted 0 (some (w.getD [] ++ backslashes (n / 2) ++ ['"'])) s
    else splitArguments quoted 0 (some (w.getD [] ++ backslashes n ++ [c])) s

/-- `CommandLineToArgvW`: an empty line gives the path of the calling program. -/
def commandLineToArgv (modulePath cmdLine : List Char) : List (List Char) :=
  match cmdLine with
  | [] => [modulePath]
  | _ => (programName cmdLine).1 :: splitArguments false 0 none (programName cmdLine).2

example : commandLineToArgv [] "prog a\\\\b d\"e f\"g h".toList =
    ["prog".toList, "a\\\\b".toList, "de fg".toList, "h".toList] := by decide

example : commandLineToArgv [] "prog a\\\\\\\"b c d".toList =
    ["prog".toList, "a\\\"b".toList, "c".toList, "d".toList] := by decide

example : commandLineToArgv [] "prog a\\\\\\\\\"b c\" d e".toList =
    ["prog".toList, "a\\\\b c".toList, "d".toList, "e".toList] := by decide

/-- What the child should see: the executable, the arguments, and the flag when the map goes on
the command line. -/
def expectedArgv (config : ProcessConfig) (handles : WindowsHandleMap) : List (List Char) :=
  config.executable :: config.arguments ++
    if config.useEnvBootstrap then [] else ["--aria-fd-map=".toList ++ handles.serialize]

/-- An executable path the program-name rule reads back: not empty, no blank, no leading quote. -/
def PlainProgramName (exe : List Char) : Prop :=
  exe ≠ [] ∧ (∀ c ∈ exe, isBlank c = false) ∧ exe.head? ≠ some '"'

instance (exe : List Char) : Decidable (PlainProgramName exe) :=
  inferInstanceAs (Decidable (_ ∧ _))

/-- An argument that reads back from between quotes: no quote, no trailing backslash. -/
def QuotableArgument (arg : List Char) : Prop := '"' ∉ arg ∧ arg.getLast? ≠ some '\\'

instance (arg : List Char) : Decidable (QuotableArgument arg) :=
  inferInstanceAs (Decidable (_ ∧ _))

/-! ### Reading steps -/

/-- The line goes on with a blank, or ends: where an argument outside quotes is closed. -/
def AtBreak (X : List Char) : Prop := ∀ c ∈ X.head?, c = ' '

private theorem atBreak_quoted {args : List (List Char)} {X : List Char} (hX : AtBreak X) :
    AtBreak ((args.flatMap fun arg => ' ' :: '"' :: (arg ++ ['"'])) ++ X) := by
  cases args with
  | nil => exact hX
  | cons => simp [AtBreak]

section Steps

variable {q : Bool} {n : Nat} {w : Option (List Char)} {s : List Char}

private theorem splitArguments_blank {v : List Char} (s : List Char) :
    splitArguments false n (some v) (' ' :: s) = (v ++ backslashes n) :: splitArguments false 0 none s :=
  rfl

private theorem splitArguments_blank_none (s : List Char) :
    splitArguments false 0 none (' ' :: s) = splitArguments false 0 none s := rfl

private theorem splitArguments_backslash :
    splitArguments q n w ('\\' :: s) = splitArguments q (n + 1) (some (w.getD [])) s := by
  cases q <;> rfl

private theorem splitArguments_quote_zero :
    splitArguments q 0 w ('"' :: s) = splitArguments (!q) 0 (some (w.getD [])) s := by
  cases q <;> simp [splitArguments, backslashes, isBlank]

private theorem splitArguments_quote_one :
    splitArguments q 1 w ('"' :: s) = splitArguments q 0 (some (w.getD [] ++ ['"'])) s := by
  cases q <;> simp [splitArguments, backslashes, isBlank]

private theorem splitArguments_literal {c : Char} (hc : c ≠ '\\' ∧ c ≠ '"') (hb : (isBlank c && !q) = false) :
    splitArguments q n w (c :: s) = splitArguments q 0 (some (w.getD [] ++ backslashes n ++ [c])) s := by
  simp only [splitArguments, hb, Bool.false_eq_true, if_false, if_neg hc.1, if_neg hc.2]

private theorem splitArguments_none {c : Char} (hb : (isBlank c && !q) = false) :
    splitArguments q n none (c :: s) = splitArguments q n (some []) (c :: s) := by
  simp only [splitArguments, hb, Bool.false_eq_true, if_false, Option.getD_none, Option.getD_some]

private theorem splitArguments_run {a : List Char} (ha : ∀ c ∈ a, c ≠ '"' ∧ (isBlank c && !q) = false) :
    ∀ {n : Nat} {v : List Char}, (backslashes n ++ a).getLast? ≠ some '\\' → ∀ rest,
      splitArguments q n (some v) (a ++ rest) = splitArguments q 0 (some (v ++ backslashes n ++ a)) rest := by
  induction a with
  | nil =>
    intro n v hn rest
    cases n with
    | zero => simp [backslashes]
    | succ n => simp [backslashes, List.getLast?_replicate] at hn
  | cons c a ih =>
    intro n v hn rest
    have ha' := fun x hx => ha x (List.mem_cons_of_mem c hx)
    by_cases hc : c = '\\'
    · subst hc
      have hrep : backslashes n ++ '\\' :: a = backslashes (n + 1) ++ a := by
        simp [backslashes, List.replicate_succ']
      rw [List.cons_append, splitArguments_backslash, ih ha' (hrep ▸ hn)]
      simp only [Option.getD_some, List.append_assoc, hrep]
    · have hlast : (backslashes 0 ++ a).getLast? ≠ some '\\' := fun h => hn (by
        rw [List.getLast?_append, List.getLast?_cons, show a.getLast? = some '\\' by simpa [backslashes] using h]
        rfl)
      rw [List.cons_append, splitArguments_literal ⟨hc, (ha c (List.mem_cons_self c a)).1⟩
        (ha c (List.mem_cons_self c a)).2, ih ha' hlast]
      simp [backslashes]

private theorem splitArguments_close {v X : List Char} (hX : AtBreak X) :
    splitArguments false 0 (some v) X = v :: splitArguments false 0 none X := by
  cases X with
  | nil => simp [splitArguments, backslashes]
  | cons c X =>
    obtain rfl := hX c rfl
    simp [splitArguments_blank, splitArguments_blank_none, backslashes]

private theorem splitArguments_quotable {a : List Char} (ha : QuotableArgument a) (v rest : List Char) :
    splitArguments true 0 (some v) (a ++ rest) = splitArguments true 0 (some (v ++ a)) rest := by
  simpa [backslashes] using splitArguments_run (fun c hc => ⟨fun h => ha.1 (h ▸ hc), by simp⟩)
    (n := 0) (v := v) (by simpa [backslashes] using ha.2) rest

end Steps

private theorem splitArguments_quoted {args : List (List Char)} (hargs : ∀ a ∈ args, QuotableArgument a)
    {tail : List Char} (ht : AtBreak tail) :
    splitArguments false 0 none ((args.flatMap fun arg => ' ' :: '"' :: (arg ++ ['"'])) ++ tail) =
      args ++ splitArguments false 0 none tail := by
  induction args with
  | nil => rfl
  | cons a args ih =>
    simp only [List.flatMap_cons, List.cons_append, List.append_assoc, splitArguments_blank_none,
      splitArguments_quote_zero, Option.getD_none, Bool.not_false,
      splitArguments_quotable (hargs a (List.mem_cons_self a args)), Option.getD_some, Bool.not_true,
      List.nil_append]
    rw [splitArguments_close (atBreak_quoted ht), ih fun b hb => hargs b (List.mem_cons_of_mem a hb)]

private theorem flag_plain (handles : WindowsHandleMap) :
    ∀ c ∈ "--aria-fd-map=".toList ++ handles.serialize, c ≠ '"' ∧ c ≠ '\\' ∧ isBlank c = false := by
  have hflag : ∀ c ∈ "--aria-fd-map=".toList, c ≠ '"' ∧ c ≠ '\\' ∧ isBlank c = false := by decide
  have hmap : ∀ c ∈ WindowsHandleMap.mapAlphabet, c ≠ '"' ∧ c ≠ '\\' ∧ isBlank c = false := by decide
  intro c hc
  rcases List.mem_append.mp hc with hc | hc
  · exact hflag c hc
  · exact hmap c (WindowsHandleMap.serialize_mem handles c hc)

private theorem getLast?_flag (handles : WindowsHandleMap) :
    (backslashes 0 ++ ("--aria-fd-map=".toList ++ handles.serialize)).getLast? ≠ some '\\' := fun h =>
  (flag_plain handles _ (by simpa [backslashes] using List.mem_of_mem_getLast? h)).2.1 rfl

private theorem splitArguments_flag_quoted (handles : WindowsHandleMap) (v : List Char) :
    splitArguments true 0 (some v) (' ' :: ("--aria-fd-map=".toList ++ handles.serialize)) =
      [v ++ ' ' :: ("--aria-fd-map=".toList ++ handles.serialize)] := by
  have hrun := fun w => splitArguments_run (q := true) (a := "--aria-fd-map=".toList ++ handles.serialize)
    (fun c hc => ⟨(flag_plain handles c hc).1, by simp⟩) (n := 0) (v := w) (getLast?_flag handles) []
  simp only [List.append_nil] at hrun
  rw [splitArguments_literal (by decide) (by decide), hrun]
  simp [splitArguments, backslashes]

private theorem splitArguments_flag (handles : WindowsHandleMap) :
    splitArguments false 0 none (' ' :: ("--aria-fd-map=".toList ++ handles.serialize)) =
      ["--aria-fd-map=".toList ++ handles.serialize] := by
  have hrun := splitArguments_run (q := false) (a := "--aria-fd-map=".toList ++ handles.serialize)
    (fun c hc => ⟨(flag_plain handles c hc).1, by simp [(flag_plain handles c hc).2.2]⟩)
    (n := 0) (v := []) (getLast?_flag handles) []
  rw [List.append_nil] at hrun
  have hnone : splitArguments false 0 none ("--aria-fd-map=".toList ++ handles.serialize) =
      splitArguments false 0 (some []) ("--aria-fd-map=".toList ++ handles.serialize) :=
    splitArguments_none (c := '-') (s := "-aria-fd-map=".toList ++ handles.serialize) (by decide)
  rw [splitArguments_blank_none, hnone, hrun]
  simp [splitArguments, backslashes]

private theorem programName_plain {exe rest : List Char} (hb : ∀ c ∈ exe, isBlank c = false)
    (hq : exe.head? ≠ some '"') (hr : AtBreak rest) : programName (exe ++ rest) = (exe, rest) := by
  have hpos : ∀ c ∈ exe, (!isBlank c) = true := fun c hc => by simp [hb c hc]
  have hq' : (exe ++ rest).head? ≠ some '"' := by
    cases exe with
    | nil => exact fun h => absurd (hr _ h) (by decide)
    | cons c e => exact hq
  rw [programName, if_neg hq', List.takeWhile_append_of_pos hpos, List.dropWhile_append_of_pos hpos]
  cases rest with
  | nil => simp
  | cons r rest =>
    have hr' : ¬(!isBlank r) = true := by simp [hr r rfl, isBlank]
    rw [List.takeWhile_cons_of_neg (p := fun c => !isBlank c) hr',
      List.dropWhile_cons_of_neg (p := fun c => !isBlank c) hr', List.append_nil]

private theorem commandLineToArgv_of_ne_nil {s : List Char} (hs : s ≠ []) (modulePath : List Char) :
    commandLineToArgv modulePath s = (programName s).1 :: splitArguments false 0 none (programName s).2 := by
  cases s with
  | nil => exact absurd rfl hs
  | cons => rfl

/-! ### The child's `argv` -/

section Argv

variable (modulePath : List Char) (handles : WindowsHandleMap)

private theorem commandLineToArgv_plain_prefix {exe : List Char} (hexe : PlainProgramName exe)
    {pre : List (List Char)} (hpre : ∀ b ∈ pre, QuotableArgument b) (tail : List Char) (ht : AtBreak tail) :
    commandLineToArgv modulePath (exe ++ ((pre.flatMap fun arg => ' ' :: '"' :: (arg ++ ['"'])) ++ tail)) =
      exe :: pre ++ splitArguments false 0 none tail := by
  rw [commandLineToArgv_of_ne_nil (by simp [hexe.1]), programName_plain hexe.2.1 hexe.2.2 (atBreak_quoted ht),
    splitArguments_quoted hpre ht]
  rfl

private theorem commandLineToArgv_spawnWindowsCommandLine {config : ProcessConfig}
    (hexe : PlainProgramName config.executable) (hargs : ∀ a ∈ config.arguments, QuotableArgument a) :
    commandLineToArgv modulePath (spawnWindowsCommandLine config handles) = expectedArgv config handles := by
  obtain ⟨exe, args, useEnv⟩ := config
  cases useEnv with
  | true =>
    have h := commandLineToArgv_plain_prefix modulePath hexe hargs [] (by simp [AtBreak])
    simpa [spawnWindowsCommandLine, launchCommandLine, spawnCommandLine, expectedArgv, splitArguments] using h
  | false =>
    have h := commandLineToArgv_plain_prefix modulePath hexe hargs
      (' ' :: ("--aria-fd-map=".toList ++ handles.serialize)) (by simp [AtBreak])
    rw [splitArguments_flag] at h
    simpa [spawnWindowsCommandLine, launchCommandLine, spawnCommandLine, expectedArgv,
      buildCommandLineWithFlag] using h

private theorem commandLineToArgv_trailing_backslash {exe a : List Char} {pre : List (List Char)}
    (hexe : PlainProgramName exe) (hpre : ∀ b ∈ pre, QuotableArgument b) (ha : QuotableArgument a) :
    commandLineToArgv modulePath (spawnWindowsCommandLine ⟨exe, pre ++ [a ++ ['\\']], false⟩ handles) =
      exe :: pre ++ [a ++ '"' :: " --aria-fd-map=".toList ++ handles.serialize] := by
  have h := commandLineToArgv_plain_prefix modulePath hexe hpre
    (' ' :: '"' :: (a ++ '\\' :: '"' :: ' ' :: ("--aria-fd-map=".toList ++ handles.serialize)))
    (by simp [AtBreak])
  simp only [splitArguments_blank_none, splitArguments_quote_zero, Bool.not_false, Option.getD_none,
    splitArguments_quotable ha, List.nil_append, splitArguments_backslash, Nat.zero_add, splitArguments_quote_one, Option.getD_some,
    splitArguments_flag_quoted] at h
  simpa [spawnWindowsCommandLine, launchCommandLine, spawnCommandLine, buildCommandLineWithFlag,
    backslashes] using h

private theorem commandLineToArgv_embedded_quote {exe a b : List Char} {pre : List (List Char)}
    (hexe : PlainProgramName exe) (hpre : ∀ x ∈ pre, QuotableArgument x) (ha : QuotableArgument a)
    (hb : QuotableArgument b) (hbb : ∀ c ∈ b, isBlank c = false) (_hbne : b ≠ []) :
    commandLineToArgv modulePath (spawnWindowsCommandLine ⟨exe, pre ++ [a ++ '"' :: b], false⟩ handles) =
      exe :: pre ++ [a ++ b ++ " --aria-fd-map=".toList ++ handles.serialize] := by
  have hrb := splitArguments_run (q := false) (fun c hc => ⟨fun h => hb.1 (h ▸ hc), by simp [hbb c hc]⟩)
    (n := 0) (v := a) (by simpa [backslashes] using hb.2)
  have h := commandLineToArgv_plain_prefix modulePath hexe hpre
    (' ' :: '"' :: (a ++ '"' :: (b ++ '"' :: ' ' :: ("--aria-fd-map=".toList ++ handles.serialize))))
    (by simp [AtBreak])
  simp only [splitArguments_blank_none, splitArguments_quote_zero, Bool.not_false, Option.getD_none,
    splitArguments_quotable ha, Option.getD_some, Bool.not_true, backslashes, List.replicate_zero, List.append_nil,
    List.nil_append] at h
  simp only [hrb, splitArguments_quote_zero, Option.getD_some, Bool.not_false, backslashes,
    List.replicate_zero, List.append_nil, splitArguments_flag_quoted] at h
  simpa [spawnWindowsCommandLine, launchCommandLine, spawnCommandLine, buildCommandLineWithFlag] using h

private theorem commandLineToArgv_blank_executable {config : ProcessConfig}
    (hq : config.executable.head? ≠ some '"') (hb : ∃ c ∈ config.executable, isBlank c = true) :
    (commandLineToArgv modulePath (spawnWindowsCommandLine config handles)).head? =
        some (config.executable.takeWhile fun c => !isBlank c) ∧
      config.executable.takeWhile (fun c => !isBlank c) ≠ config.executable := by
  obtain ⟨exe, args, useEnv⟩ := config
  obtain ⟨c, hc, hcb⟩ := hb
  have hne : exe.takeWhile (fun c => !isBlank c) ≠ exe := fun h => by
    have hmem : c ∈ exe.takeWhile (fun c => !isBlank c) := by rw [h]; exact hc
    have := List.mem_takeWhile_imp hmem
    rw [hcb] at this
    exact absurd this (by decide)
  have hlen : (exe.takeWhile fun c => !isBlank c).length ≠ exe.length :=
    fun h => hne ((List.takeWhile_prefix _).eq_of_length h)
  obtain ⟨rest, hline⟩ : ∃ rest, spawnWindowsCommandLine ⟨exe, args, useEnv⟩ handles = exe ++ rest := by
    cases useEnv <;>
      simp [spawnWindowsCommandLine, launchCommandLine, spawnCommandLine, buildCommandLineWithFlag]
  have hexe : exe ≠ [] := List.ne_nil_of_mem hc
  have hq' : (exe ++ rest).head? ≠ some '"' := by
    rwa [List.head?_append_of_ne_nil _ hexe]
  refine ⟨?_, hne⟩
  rw [hline, commandLineToArgv_of_ne_nil (by simp [hexe]), programName, if_neg hq', List.takeWhile_append,
    if_neg hlen]
  rfl

end Argv

/-- `spawnWindows` writes its command line with nothing escaped, so `CommandLineToArgvW` gives the
child back the executable, the arguments and the flag only for plain text: a last argument ending
in a backslash, or holding a quote, swallows the flag, and an executable path with a blank is cut
at the blank. -/
theorem windows_argv_round_trip_only_plain (modulePath : List Char) (handles : WindowsHandleMap) :
    (∀ config : ProcessConfig, PlainProgramName config.executable →
      (∀ a ∈ config.arguments, QuotableArgument a) →
        commandLineToArgv modulePath (spawnWindowsCommandLine config handles) = expectedArgv config handles) ∧
    (∀ exe pre a, PlainProgramName exe → (∀ b ∈ pre, QuotableArgument b) → QuotableArgument a →
      commandLineToArgv modulePath (spawnWindowsCommandLine ⟨exe, pre ++ [a ++ ['\\']], false⟩ handles) =
        exe :: pre ++ [a ++ '"' :: " --aria-fd-map=".toList ++ handles.serialize]) ∧
    (∀ exe pre a b, PlainProgramName exe → (∀ x ∈ pre, QuotableArgument x) → QuotableArgument a →
      QuotableArgument b → (∀ c ∈ b, isBlank c = false) → b ≠ [] →
      commandLineToArgv modulePath (spawnWindowsCommandLine ⟨exe, pre ++ [a ++ '"' :: b], false⟩ handles) =
        exe :: pre ++ [a ++ b ++ " --aria-fd-map=".toList ++ handles.serialize]) ∧
    (∀ config : ProcessConfig, config.executable.head? ≠ some '"' →
      (∃ c ∈ config.executable, isBlank c = true) →
      (commandLineToArgv modulePath (spawnWindowsCommandLine config handles)).head? =
          some (config.executable.takeWhile fun c => !isBlank c) ∧
        config.executable.takeWhile (fun c => !isBlank c) ≠ config.executable) :=
  ⟨fun _ hexe hargs => commandLineToArgv_spawnWindowsCommandLine modulePath handles hexe hargs,
    fun _ _ _ hexe hpre ha => commandLineToArgv_trailing_backslash modulePath handles hexe hpre ha,
    fun _ _ _ _ hexe hpre ha hb hbb hbne =>
      commandLineToArgv_embedded_quote modulePath handles hexe hpre ha hb hbb hbne,
    fun _ hq hb => commandLineToArgv_blank_executable modulePath handles hq hb⟩

/-- An output directory with its trailing backslash: the child gets two arguments, not three. -/
theorem windows_argv_round_trip_only_plain_out_dir :
    commandLineToArgv [] (spawnWindowsCommandLine ⟨"C:\\tools\\app.exe".toList, ["C:\\out\\".toList], false⟩
        { hStdDbg := 0x1B8 }) = ["C:\\tools\\app.exe".toList, "C:\\out\" --aria-fd-map=3:0x1B8".toList] ∧
    expectedArgv ⟨"C:\\tools\\app.exe".toList, ["C:\\out\\".toList], false⟩ { hStdDbg := 0x1B8 } =
      ["C:\\tools\\app.exe".toList, "C:\\out\\".toList, "--aria-fd-map=3:0x1B8".toList] :=
  ⟨((windows_argv_round_trip_only_plain [] { hStdDbg := 0x1B8 }).2.1 "C:\\tools\\app.exe".toList []
      "C:\\out".toList (by decide) (by decide) (by decide)).trans (by decide), by decide⟩

end AriaShell.Bootstrap
