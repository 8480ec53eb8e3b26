import AriaShell.Repl.Terminal

/-! The line loop of `main` in `repl/main.cpp`: `isBackgroundCommand`, `parseCommand` (an
`std::istringstream` read word by word), the built-in dispatch of `handleBuiltin` with its
`std::stoul`, and what each line read by `std::getline` becomes. -/
namespace AriaShell.Repl

open AriaShell.Bootstrap

/-- `iss >> word`: skip white space, then read up to the next white space; `none` when nothing but
white space is left, which fails the stream. -/
def extractWord (s : List Char) : Option (List Char × List Char) :=
  match s.dropWhile isSpace with
  | [] => none
  | c :: t => some (c :: t.takeWhile (!isSpace ·), t.dropWhile (!isSpace ·))

private theorem extractWord_length_lt {s w rest : List Char} (h : extractWord s = some (w, rest)) :
    rest.length < s.length := by
  unfold extractWord at h
  split at h
  · cases h
  · rename_i c t ht
    cases h
    have h₁ := congrArg List.length ht
    have h₂ := (List.dropWhile_suffix isSpace (l := s)).length_le
    have h₃ := (List.dropWhile_suffix (fun x => !isSpace x) (l := t)).length_le
    simp only [List.length_cons] at h₁
    omega

/-- `while (iss >> arg)`: the words left in the stream. -/
def extractWords (s : List Char) : List (List Char) :=
  match _h : extractWord s with
  | none => []
  | some (w, rest) => w :: extractWords rest
termination_by s.length
decreasing_by exact extractWord_length_lt _h

/-- `parseCommand`: `iss >> cmd`, then every further word into `args`. A failed first extraction
leaves `cmd` empty and the stream failed. -/
def parseCommand (line : List Char) : List Char × List (List Char) :=
  match extractWord line with
  | none => ([], [])
  | some (cmd, rest) => (cmd, extractWords rest)

/-- `isBackgroundCommand`: a last `&` is popped, then the white space before it; the flag and the
line it leaves. -/
def isBackgroundCommand (line : List Char) : Bool × List Char :=
  if line.getLast? = some '&' then (true, (line.dropLast.reverse.dropWhile isSpace).reverse)
  else (false, line)

/-- `std::stoul(s)` in base 10 into a 64-bit `unsigned long`: leading white space, an optional
sign and the longest run of digits; `std::invalid_argument` without a digit, `std::out_of_range`
past `ULONG_MAX`; a minus negates modulo `2 ^ 64`. -/
def stoul (s : List Char) : Except StoiFault Nat :=
  let (neg, t) := splitSign (s.dropWhile isSpace)
  let ds := t.takeWhile Char.isDigit
  if ds = [] then .error .invalidArgument
  else if decValue ds < 2 ^ 64 then .ok (if neg then (2 ^ 64 - decValue ds) % 2 ^ 64 else decValue ds)
  else .error .outOfRange

/-- What one line makes the shell do. -/
inductive Command
  /-- `exit` or `quit`: `exit(0)`. -/
  | exit
  | jobs
  /-- `fg`, with the `uint32_t` job id of its argument if it has one. -/
  | fg (jobId : Option Nat)
  | bg (jobId : Option Nat)
  | cd (dir : Option (List Char))
  | help
  /-- Not a built-in: `jm.spawn` with these options. -/
  | spawn (cmd : List Char) (args : List (List Char)) (background : Bool)
  /-- `std::stoul` threw; nothing catches it, so `std::terminate` ends the shell. -/
  | uncaught (e : StoiFault)
  deriving DecidableEq, Repr

/-- `uint32_t jobId = std::stoul(args[0])` of `fg` and `bg` when `args` is not empty. -/
def jobIdArg (k : Option Nat → Command) : List (List Char) → Command
  | [] => k none
  | arg :: _ =>
    match stoul arg with
    | .ok v => k (some (v % 2 ^ 32))
    | .error e => .uncaught e

/-- `handleBuiltin`: the built-in named `cmd`, or `none` when it returns `false`. -/
def handleBuiltin (cmd : List Char) (args : List (List Char)) : Option Command :=
  if cmd = "exit".toList ∨ cmd = "quit".toList then some .exit
  else if cmd = "jobs".toList then some .jobs
  else if cmd = "fg".toList then some (jobIdArg .fg args)
  else if cmd = "bg".toList then some (jobIdArg .bg args)
  else if cmd = "cd".toList then some (.cd args.head?)
  else if cmd = "help".toList then some .help
  else none

/-- The body of the loop of `main` after `std::getline` read `line`: `none` is `continue`
before any command. -/
def lineCommand (line : List Char) : Option Command :=
  if line.all (fun c => c = ' ' ∨ c = '\t') then none else
  let (background, line) := isBackgroundCommand line
  let (cmd, args) := parseCommand line
  if cmd = [] then none
  else some ((handleBuiltin cmd args).getD (.spawn cmd args background))

/-- The loop of `main` over the lines `std::getline` reads: the commands run, up to `exit` or an
uncaught exception; end of input leaves the loop. -/
def runLines : List (List Char) → List Command
  | [] => []
  | line :: lines =>
    match lineCommand line with
    | none => runLines lines
    | some .exit => [.exit]
    | some (.uncaught e) => [.uncaught e]
    | some c => c :: runLines lines

/-! ### Words back from their layout -/

/-- `line` is the words `ws` with white space before the first, after the last, and at least one
white space character between two. -/
inductive Spaced : List Char → List (List Char) → Prop
  | blank {b : List Char} : (∀ c ∈ b, isSpace c) → Spaced b []
  | word {b w r : List Char} {ws : List (List Char)} : (∀ c ∈ b, isSpace c) → w ≠ [] →
      (∀ c ∈ w, isSpace c = false) → (∀ c ∈ r.head?, isSpace c) → Spaced r ws →
      Spaced (b ++ w ++ r) (w :: ws)

private theorem extractWord_blank {b : List Char} (hb : ∀ c ∈ b, isSpace c) : extractWord b = none := by
  rw [extractWord, List.dropWhile_eq_nil_iff.mpr hb]

private theorem extractWord_word {b w rest : List Char} (hb : ∀ c ∈ b, isSpace c) (hw : w ≠ [])
    (hw' : ∀ c ∈ w, isSpace c = false) (hr : ∀ c ∈ rest.head?, isSpace c) :
    extractWord (b ++ w ++ rest) = some (w, rest) := by
  obtain ⟨c, w, rfl⟩ := List.exists_cons_of_ne_nil hw
  have hc : isSpace c = false := hw' c (List.mem_cons_self _ _)
  have hw'' : ∀ a ∈ w, (!isSpace a) = true := fun a ha => by
    simpa using hw' a (List.mem_cons_of_mem _ ha)
  have hrest : rest.takeWhile (!isSpace ·) = [] ∧ rest.dropWhile (!isSpace ·) = rest := by
    cases rest with
    | nil => exact ⟨rfl, rfl⟩
    | cons a r =>
      have ha : isSpace a = true := hr a rfl
      simp [List.takeWhile_cons, List.dropWhile_cons, ha]
  rw [extractWord, List.append_assoc, List.dropWhile_append_of_pos hb, List.cons_append,
    List.dropWhile_cons_of_neg (by simp [hc])]
  simp only [List.takeWhile_append_of_pos hw'', List.dropWhile_append_of_pos hw'', hrest, List.append_nil]

private theorem extractWords_eq (s : List Char) :
    extractWords s = match extractWord s with
      | none => []
      | some (w, rest) => w :: extractWords rest := by
  rw [extractWords]
  split <;> rename_i h <;> rw [h]

private theorem extractWords_spaced {line : List Char} {ws : List (List Char)} (h : Spaced line ws) :
    extractWords line = ws := by
  induction h with
  | blank hb => rw [extractWords_eq, extractWord_blank hb]
  | word hb hw hw' hr _ ih => rw [extractWords_eq, extractWord_word hb hw hw' hr]; exact congrArg _ ih

/-- `parseCommand` reads back the words of every layout: the first is `cmd`, the others `args`,
whatever white space surrounds them. -/
theorem parseCommand_spaced {line : List Char} {ws : List (List Char)} (h : Spaced line ws) :
    parseCommand line = (ws.headD [], ws.tail) := by
  cases h with
  | blank hb => rw [parseCommand, extractWord_blank hb]; rfl
  | word hb hw hw' hr hs => rw [parseCommand, extractWord_word hb hw hw' hr]; exact congrArg _ (extractWords_spaced hs)

/-- Two blanks before `ls`, two between `ls` and `-l`, one after. -/
theorem parseCommand_ls_l : parseCommand "  ls  -l ".toList = ("ls".toList, ["-l".toList]) :=
  parseCommand_spaced (Spaced.word (b := "  ".toList) (w := "ls".toList) (r := "  -l ".toList)
    (by decide) (by decide) (by decide) (by decide)
    (Spaced.word (b := "  ".toList) (w := "-l".toList) (r := " ".toList)
      (by decide) (by decide) (by decide) (by decide) (.blank (by decide))))

/-- A word `parseCommand` reads as one: nonempty, without white space. -/
def IsWord (w : List Char) : Prop := w ≠ [] ∧ ∀ c ∈ w, isSpace c = false

/-- The line a user types for the words `ws`: one space between two words, then ` &` to run the
command in the background. -/
def render (ws : List (List Char)) (background : Bool) : List Char :=
  [' '].intercalate ws ++ if background then [' ', '&'] else []

private theorem intercalate_cons_cons (w w' : List Char) (ws : List (List Char)) :
    [' '].intercalate (w :: w' :: ws) = w ++ ' ' :: [' '].intercalate (w' :: ws) := by
  simp [List.intercalate]

private theorem spaced_intercalate : ∀ {ws : List (List Char)}, (∀ w ∈ ws, IsWord w) → ∀ {b : List Char},
    (∀ c ∈ b, isSpace c) → Spaced (b ++ [' '].intercalate ws) ws
  | [], _, _, hb => by simpa [List.intercalate] using Spaced.blank hb
  | [w], hws, _, hb => by
    have hw := hws w (List.mem_singleton_self _)
    simpa [List.intercalate] using Spaced.word (r := []) hb hw.1 hw.2 (by simp) (.blank (by simp))
  | w :: w' :: ws, hws, _, hb => by
    have hw := hws w (List.mem_cons_self _ _)
    have hrest := spaced_intercalate (fun v (hv : v ∈ w' :: ws) => hws v (List.mem_cons_of_mem _ hv))
      (b := [' ']) (by simp [isSpace])
    rw [intercalate_cons_cons, ← List.append_assoc]
    exact Spaced.word hb hw.1 hw.2 (by simp [isSpace]) hrest

private theorem intercalate_eq_append_getLast : ∀ (ws : List (List Char)) (h : ws ≠ []),
    ∃ pre, [' '].intercalate ws = pre ++ ws.getLast h
  | [], h => absurd rfl h
  | [w], _ => ⟨[], by simp [List.intercalate]⟩
  | w :: w' :: ws, _ => by
    obtain ⟨pre, hpre⟩ := intercalate_eq_append_getLast (w' :: ws) (List.cons_ne_nil _ _)
    exact ⟨w ++ ' ' :: pre, by rw [intercalate_cons_cons, hpre, List.getLast_cons_cons]; simp⟩

private theorem isBackgroundCommand_render {ws : List (List Char)} (hws : ∀ w ∈ ws, IsWord w) (hne : ws ≠ [])
    {background : Bool} (hamp : background = false → (ws.getLast hne).getLast? ≠ some '&') :
    isBackgroundCommand (render ws background) = (background, [' '].intercalate ws) := by
  obtain ⟨pre, hpre⟩ := intercalate_eq_append_getLast _ hne
  have hlast := hws _ (List.getLast_mem hne)
  have hc := List.getLast?_eq_getLast _ hlast.1
  have hI : ([' '].intercalate ws).getLast? = some ((ws.getLast hne).getLast hlast.1) := by
    rw [hpre, List.getLast?_append_of_ne_nil _ hlast.1, hc]
  cases background with
  | false =>
    have h : ([' '].intercalate ws).getLast? ≠ some '&' := hI ▸ hc ▸ hamp rfl
    simp [isBackgroundCommand, render, h]
  | true =>
    have hsp := hlast.2 _ (List.getLast_mem hlast.1)
    have hrev : ([' '].intercalate ws).reverse.dropWhile isSpace = ([' '].intercalate ws).reverse := by
      have hIne : [' '].intercalate ws ≠ [] := by rw [hpre]; simp [hlast.1]
      obtain ⟨d, t, ht⟩ := List.exists_cons_of_ne_nil (List.reverse_ne_nil_iff.mpr hIne)
      have hd : d = (ws.getLast hne).getLast hlast.1 := by
        have := congrArg List.head? ht
        rw [List.head?_reverse, hI] at this
        simpa using this.symm
      rw [ht, List.dropWhile_cons_of_neg (by simp [hd, hsp])]
    simp [isBackgroundCommand, render, List.dropLast_append_of_ne_nil, hrev, isSpace]

private theorem render_all_blank {ws : List (List Char)} (hws : ∀ w ∈ ws, IsWord w) (hne : ws ≠ [])
    (background : Bool) : (render ws background).all (fun c => c = ' ' ∨ c = '\t') = false := by
  obtain ⟨w, ws', rfl⟩ := List.exists_cons_of_ne_nil hne
  have hw := hws w (List.mem_cons_self _ _)
  obtain ⟨d, w', rfl⟩ := List.exists_cons_of_ne_nil hw.1
  have hd := hw.2 d (List.mem_cons_self _ _)
  obtain ⟨t, ht⟩ : ∃ t, render ((d :: w') :: ws') background = d :: t := by
    cases ws' <;> simp [render, List.intercalate]
  simp only [isSpace, Bool.or_eq_false_iff, beq_eq_false_iff_ne] at hd
  simp [ht, hd.1.1.1.1.1, hd.1.1.1.1.2]

private theorem lineCommand_render_eq {ws : List (List Char)} (hws : ∀ w ∈ ws, IsWord w) (hne : ws ≠ [])
    {background : Bool} (hamp : background = false → (ws.getLast hne).getLast? ≠ some '&') :
    lineCommand (render ws background) =
      if ws.headD [] = [] then none
      else some ((handleBuiltin (ws.headD []) ws.tail).getD (.spawn (ws.headD []) ws.tail background)) := by
  have hparse := parseCommand_spaced (by simpa using spaced_intercalate hws (b := []) (by simp))
  unfold lineCommand
  rw [if_neg (by rw [render_all_blank hws hne]; decide), isBackgroundCommand_render hws hne hamp]
  dsimp only
  rw [hparse]

/-- The whole loop body on a typed command: its words, and its flag, come back. The one layout
that does not is a last word ending in `&` without ` &` after it: `isBackgroundCommand` takes
that `&` for the marker. -/
theorem lineCommand_render {ws : List (List Char)} (hws : ∀ w ∈ ws, IsWord w) (hne : ws ≠ [])
    {background : Bool} (hamp : background = false → (ws.getLast hne).getLast? ≠ some '&') :
    lineCommand (render ws background) =
      some ((handleBuiltin (ws.headD []) ws.tail).getD (.spawn (ws.headD []) ws.tail background)) := by
  rw [lineCommand_render_eq hws hne hamp]
  obtain ⟨w, ws', rfl⟩ := List.exists_cons_of_ne_nil hne
  exact if_neg (hws w (List.mem_cons_self _ _)).1

/-- `ls -l &` runs `ls` with `-l` in the background. -/
theorem lineCommand_ls_l_background :
    lineCommand (render ["ls".toList, "-l".toList] true) =
      some ((handleBuiltin "ls".toList ["-l".toList]).getD (.spawn "ls".toList ["-l".toList] true)) :=
  @lineCommand_render ["ls".toList, "-l".toList] (by simp [IsWord, isSpace]) (by simp) true (by simp)

end AriaShell.Repl
